import Mathlib.Data.List.Perm.Subperm
import BatchedCommit.Proofs.Steady

/-!
# BatchedCommit.Proofs.Distinct

No two groups that were ever made share a parent key, and no full key belongs to two of them
(`Registry.Distinct`), as long as the counter of parent keys has not come round. Reservations
and relocations are the two sections that matter: a reservation gives out a full key under the
parent key of an open group, and no slot was ever taken out of an open group; a relocation
passes full keys on from one group to new ones. A removal only takes a slot out of a group
(`Registry.Shrunk`), and all other sections leave the slots in place (`Registry.Steady`).
-/

namespace BatchedCommit

variable {ν ε : Type}

namespace Group

/-- The full keys that belong to a group: those of its slots, and for a delayed group the one
that it was made for, even after the slot was removed. -/
def fullKeys (group : Group ν) : List String :=
  match group.kind with
  | .normal => group.names.map Prod.snd
  | .delayed => [group.key]

theorem fullKeys_normal {group : Group ν} (h : group.kind = .normal) :
    group.fullKeys = group.names.map Prod.snd := by
  rw [fullKeys, h]

theorem fullKeys_delayed {group : Group ν} (h : group.kind = .delayed) :
    group.fullKeys = [group.key] := by
  rw [fullKeys, h]

/-- The full key of every slot belongs to its group. -/
theorem Named.mem_fullKeys {scheme : KeyScheme} {group : Group ν} {slot : Slot ν}
    (h : Named scheme group) (hslot : slot ∈ group.slots) : slot.fullKey ∈ group.fullKeys := by
  have hname : slot.names ∈ group.names := List.mem_map_of_mem hslot
  cases hkind : group.kind with
  | normal =>
    rw [fullKeys_normal hkind]
    exact List.mem_map_of_mem (f := Prod.snd) hname
  | delayed =>
    rw [fullKeys_delayed hkind, List.mem_singleton]
    exact h.own hkind _ hname

theorem Shrinks.mem_fullKeys {group changed : Group ν} {key : String}
    (h : Shrinks group changed) (hkey : key ∈ changed.fullKeys) : key ∈ group.fullKeys := by
  cases hkind : group.kind with
  | normal =>
    rw [fullKeys_normal (by rw [h.head.kind, hkind])] at hkey
    rw [fullKeys_normal hkind]
    exact (h.names.map Prod.snd).mem hkey
  | delayed =>
    rw [fullKeys_delayed (by rw [h.head.kind, hkind]), h.head.key] at hkey
    rw [fullKeys_delayed hkind]
    exact hkey

end Group

namespace Registry

variable {registry middle later : Registry ν}

/-! ## Sections that only take slots out -/

/-- From one registry to a later one, slots were taken out of groups, or nothing happened. -/
structure Shrunk (registry later : Registry ν) : Prop where
  issued : later.issued = registry.issued
  scheme : later.scheme = registry.scheme
  size : later.groups.size = registry.groups.size
  kept : ∀ (id : Nat) (group changed : Group ν), registry.groups[id]? = some group →
    later.groups[id]? = some changed → Group.Shrinks group changed

theorem Steady.shrunk (h : Steady registry later) : Shrunk registry later :=
  ⟨h.issued, h.scheme, h.size, fun id group changed hgroup hchanged =>
    (h.kept id group changed hgroup hchanged).shrinks⟩

namespace Shrunk

theorem set {own : Nat} {old new : Group ν} (hold : registry.groups[own]? = some old)
    (hshrinks : Group.Shrinks old new)
    (hgroups : later.groups = registry.groups.setIfInBounds own new)
    (hissued : later.issued = registry.issued) (hscheme : later.scheme = registry.scheme) :
    Shrunk registry later where
  issued := hissued
  scheme := hscheme
  size := by rw [hgroups, Array.size_setIfInBounds]
  kept := fun id group changed hgroup hchanged => by
    rw [hgroups] at hchanged
    obtain ⟨rfl, rfl⟩ | ⟨-, hsame⟩ := getElem?_set_cases hchanged
    · rw [← Option.some.inj (hold.symm.trans hgroup)]
      exact hshrinks
    · rw [Option.some.inj (hgroup.symm.trans hsame)]
      exact .refl changed

theorem before (h : Shrunk registry later) {id : Nat} {changed : Group ν}
    (hchanged : later.groups[id]? = some changed) :
    ∃ group, registry.groups[id]? = some group ∧ Group.Shrinks group changed := by
  have hlt : id < registry.groups.size := by
    rw [← h.size]
    exact (Array.getElem?_eq_some_iff.mp hchanged).1
  have hgroup := Array.getElem?_eq_getElem hlt
  exact ⟨_, hgroup, h.kept id _ changed hgroup hchanged⟩

theorem after (h : Shrunk registry later) {id : Nat} {group : Group ν}
    (hgroup : registry.groups[id]? = some group) :
    ∃ changed, later.groups[id]? = some changed ∧ Group.Shrinks group changed := by
  have hlt : id < later.groups.size := by
    rw [h.size]
    exact (Array.getElem?_eq_some_iff.mp hgroup).1
  have hchanged := Array.getElem?_eq_getElem hlt
  exact ⟨_, hchanged, h.kept id group _ hgroup hchanged⟩

theorem trans (h : Shrunk registry middle) (h' : Shrunk middle later) :
    Shrunk registry later where
  issued := h'.issued.trans h.issued
  scheme := h'.scheme.trans h.scheme
  size := h'.size.trans h.size
  kept := fun id group changed hgroup hchanged => by
    obtain ⟨between, hbetween, hshrinks⟩ := h.after hgroup
    exact hshrinks.trans (h'.kept id between changed hbetween hchanged)

end Shrunk

theorem shrunk_remove (registry : Registry ν) (fullKey : String) :
    Shrunk registry (registry.remove fullKey).registry := by
  obtain ⟨failure, heq⟩ | ⟨own, group, changed, -, -, hgroup, hremove, -, heq⟩ |
    ⟨own, group, changed, -, -, hgroup, hremove, -, heq⟩ := registry.remove_cases fullKey
  · rw [heq]
    exact Steady.shrunk (.same rfl rfl rfl)
  · rw [heq]
    have hset : Shrunk registry ((registry.setGroup own changed).bump .slotsRemoved) :=
      .set hgroup (.remove hremove) rfl rfl rfl
    have hleft := steady_unregister ((registry.setGroup own changed).bump .slotsRemoved)
      changed.kind changed.key own
    exact hset.trans (hleft.trans (steady_bump _ .groupsDiscarded)).shrunk
  · rw [heq]
    exact .set hgroup (Group.Shrinks.remove hremove).markReady rfl rfl rfl

/-! ## The invariant -/

/-- What keys say about all groups that were ever made. -/
structure Distinct (registry : Registry ν) : Prop where
  /-- The keys of every group hang together. -/
  named : ∀ (id : Nat) (group : Group ν), registry.groups[id]? = some group →
    Group.Named registry.scheme group
  /-- A normal group bears a parent key that was made, -/
  parent : ∀ (id : Nat) (group : Group ν), registry.groups[id]? = some group →
    group.kind = .normal → ∃ index < registry.issued, group.key = registry.scheme.parentKey index
  /-- and no other one bears it. -/
  unique : ∀ (i j : Nat) (one two : Group ν), registry.groups[i]? = some one →
    registry.groups[j]? = some two → one.kind = .normal → two.kind = .normal →
    one.key = two.key → i = j
  /-- A delayed group was made for a slot of a normal one, which was not open any more. -/
  source : ∀ (id : Nat) (group : Group ν), registry.groups[id]? = some group →
    group.kind = .delayed → ∃ (place : Nat) (origin : Group ν) (child : String),
      registry.groups[place]? = some origin ∧ origin.kind = .normal ∧ origin.stage ≠ .opened ∧
        group.key = registry.scheme.fullKey origin.key child
  /-- No full key belongs to two groups. -/
  apart : ∀ (i j : Nat) (one two : Group ν) (key : String), registry.groups[i]? = some one →
    registry.groups[j]? = some two → key ∈ one.fullKeys → key ∈ two.fullKeys → i = j

namespace Distinct

theorem empty (settings : Settings) (scheme : KeyScheme) (slotBytes : Nat) :
    (Registry.empty settings scheme slotBytes : Registry ν).Distinct where
  named := fun _ _ hgroup => by contradiction
  parent := fun _ _ hgroup => by contradiction
  unique := fun _ _ _ _ hgroup => by contradiction
  source := fun _ _ hgroup => by contradiction
  apart := fun _ _ _ _ _ hgroup => by contradiction

theorem isParent_key (h : registry.Distinct) {id : Nat} {group : Group ν}
    (hgroup : registry.groups[id]? = some group) (hkind : group.kind = .normal) :
    KeyScheme.IsParent group.key := by
  obtain ⟨index, -, hkey⟩ := h.parent id group hgroup hkind
  rw [hkey]
  exact KeyScheme.isParent_parentKey _ index

/-- Taking slots out of groups keeps keys distinct. -/
theorem shrunk (h : registry.Distinct) (hs : Shrunk registry later) : later.Distinct where
  named := fun id changed hchanged => by
    obtain ⟨group, hgroup, hshrinks⟩ := hs.before hchanged
    rw [hs.scheme]
    exact (h.named id group hgroup).shrink hshrinks
  parent := fun id changed hchanged hkind => by
    obtain ⟨group, hgroup, hshrinks⟩ := hs.before hchanged
    rw [hs.issued, hs.scheme, hshrinks.head.key]
    exact h.parent id group hgroup (by rw [← hshrinks.head.kind, hkind])
  unique := fun i j one two hone htwo hkind hkind' hkey => by
    obtain ⟨first, hfirst, hshrinks⟩ := hs.before hone
    obtain ⟨second, hsecond, hshrinks'⟩ := hs.before htwo
    rw [hshrinks.head.key, hshrinks'.head.key] at hkey
    exact h.unique i j first second hfirst hsecond (by rw [← hshrinks.head.kind, hkind])
      (by rw [← hshrinks'.head.kind, hkind']) hkey
  source := fun id changed hchanged hkind => by
    obtain ⟨group, hgroup, hshrinks⟩ := hs.before hchanged
    obtain ⟨place, origin, child, horigin, hnormal, hstage, hkey⟩ :=
      h.source id group hgroup (by rw [← hshrinks.head.kind, hkind])
    obtain ⟨shrunk, hshrunk, hshrinks'⟩ := hs.after horigin
    refine ⟨place, shrunk, child, hshrunk, by rw [hshrinks'.head.kind, hnormal],
      fun hopen => hstage (hshrinks'.opened hopen), ?_⟩
    rw [hshrinks.head.key, hshrinks'.head.key, hs.scheme, hkey]
  apart := fun i j one two key hone htwo hkey hkey' => by
    obtain ⟨first, hfirst, hshrinks⟩ := hs.before hone
    obtain ⟨second, hsecond, hshrinks'⟩ := hs.before htwo
    exact h.apart i j first second key hfirst hsecond (hshrinks.mem_fullKeys hkey)
      (hshrinks'.mem_fullKeys hkey')

/-- A parent key may be used up for nothing. -/
theorem issue (h : registry.Distinct) :
    Distinct { registry with issued := registry.issued + 1 } where
  named := h.named
  parent := fun id group hgroup hkind => by
    obtain ⟨index, hlt, hkey⟩ := h.parent id group hgroup hkind
    exact ⟨index, Nat.lt_succ_of_lt hlt, hkey⟩
  unique := h.unique
  source := h.source
  apart := h.apart

/-! ## Reserving -/

/-- Names of the slots after a reservation. -/
theorem names_of_reserve {group changed : Group ν} {now : Instant} {child fullKey : String}
    (h : group.reserve now child fullKey = .ok changed) :
    changed.names = group.names ++ [(child, fullKey)] := by
  rw [(Group.reserve_eq_ok h).2.2]
  simp [Group.names, Slot.names, Slot.reserved]

/-- A full key tells the normal group whose parent key is in it, and the child key. -/
theorem origin_inj (h : registry.Distinct) (hseparator : registry.scheme.separator.isDigit = false)
    {i j : Nat} {one two : Group ν} {child child' : String}
    (hone : registry.groups[i]? = some one) (htwo : registry.groups[j]? = some two)
    (hkind : one.kind = .normal) (hkind' : two.kind = .normal)
    (hkey : registry.scheme.fullKey one.key child = registry.scheme.fullKey two.key child') :
    i = j ∧ child = child' := by
  obtain ⟨hsame, hchild⟩ := KeyScheme.fullKey_inj hseparator (h.isParent_key hone hkind)
    (h.isParent_key htwo hkind') hkey
  exact ⟨h.unique i j one two hone htwo hkind hkind' hsame, hchild⟩

/-- The full key that an open group would give out does not belong to another group. -/
theorem fresh_fullKey (h : registry.Distinct)
    (hseparator : registry.scheme.separator.isDigit = false)
    {own id : Nat} {group other : Group ν} {child : String}
    (hgroup : registry.groups[own]? = some group) (hopen : group.stage = .opened)
    (hother : registry.groups[id]? = some other)
    (hkey : registry.scheme.fullKey group.key child ∈ other.fullKeys) : id = own := by
  have hkind : group.kind = .normal := (h.named own group hgroup).kind_of_opened hopen
  cases hother' : other.kind with
  | normal =>
    rw [Group.fullKeys_normal hother', List.mem_map] at hkey
    obtain ⟨name, hname, heq⟩ := hkey
    rw [(h.named id other hother).children hother' name hname] at heq
    exact (h.origin_inj hseparator hother hgroup hother' hkind heq).1
  | delayed =>
    -- its slot was taken out of the same group, which is not open any more then
    rw [Group.fullKeys_delayed hother', List.mem_singleton] at hkey
    obtain ⟨place, origin, child', horigin, hnormal, hstage, heq⟩ :=
      h.source id other hother hother'
    rw [heq] at hkey
    obtain ⟨rfl, -⟩ := h.origin_inj hseparator hgroup horigin hkind hnormal hkey
    rw [← Option.some.inj (hgroup.symm.trans horigin)] at hstage
    contradiction

/-- A reservation in the open group keeps keys distinct. -/
theorem afterReserve (h : registry.Distinct)
    (hseparator : registry.scheme.separator.isDigit = false) {own : Nat} {group changed : Group ν}
    {now : Instant} {child : String} (hgroup : registry.groups[own]? = some group)
    (hreserve : group.reserve now child (registry.scheme.fullKey group.key child) = .ok changed) :
    (registry.afterReserve own changed).Distinct := by
  have hopen : group.stage = .opened := (Group.reserve_eq_ok hreserve).1
  have hkind : group.kind = .normal := (h.named own group hgroup).kind_of_opened hopen
  have hhead : Group.SameHead group changed := .reserve hreserve
  have hbefore : ∀ {id : Nat} {new : Group ν},
      (registry.afterReserve own changed).groups[id]? = some new → ∃ old,
        registry.groups[id]? = some old ∧ Group.SameHead old new ∧
          (new = old ∨ id = own ∧ new = changed) := by
    intro id new hnew
    obtain ⟨rfl, rfl⟩ | ⟨-, hold⟩ := getElem?_set_cases hnew
    · exact ⟨group, hgroup, hhead, .inr ⟨rfl, rfl⟩⟩
    · exact ⟨new, hold, .refl new, .inl rfl⟩
  have hkeys : ∀ {id : Nat} {old new : Group ν}, registry.groups[id]? = some old →
      (new = old ∨ id = own ∧ new = changed) → ∀ key ∈ new.fullKeys,
      key ∈ old.fullKeys ∨ id = own ∧ key = registry.scheme.fullKey group.key child := by
    rintro id old new hold (rfl | ⟨rfl, rfl⟩) key hkey
    · exact .inl hkey
    · rw [hgroup] at hold
      rw [Group.fullKeys_normal (by rw [hhead.kind, hkind]), names_of_reserve hreserve,
        List.map_append, List.mem_append, List.map_singleton, List.mem_singleton] at hkey
      rw [← Option.some.inj hold, Group.fullKeys_normal hkind]
      exact hkey.imp_right fun heq => ⟨rfl, heq⟩
  constructor
  · intro id new hnew
    obtain ⟨old, hold, -, rfl | ⟨rfl, rfl⟩⟩ := hbefore hnew
    · exact h.named id new hold
    · exact (h.named id group hgroup).reserve hreserve
  · intro id new hnew hnormal
    obtain ⟨old, hold, hhead, -⟩ := hbefore hnew
    rw [hhead.key]
    exact h.parent id old hold (by rw [← hhead.kind, hnormal])
  · intro i j one two hone htwo hnormal hnormal' heq
    obtain ⟨first, hfirst, hhead, -⟩ := hbefore hone
    obtain ⟨second, hsecond, hhead', -⟩ := hbefore htwo
    rw [hhead.key, hhead'.key] at heq
    exact h.unique i j first second hfirst hsecond (by rw [← hhead.kind, hnormal])
      (by rw [← hhead'.kind, hnormal']) heq
  · intro id new hnew hdelayed
    obtain ⟨old, hold, hhead, -⟩ := hbefore hnew
    obtain ⟨place, origin, child', horigin, hnormal, hstage, hkey⟩ :=
      h.source id old hold (by rw [← hhead.kind, hdelayed])
    refine ⟨place, origin, child', ?_, hnormal, hstage, by rw [hhead.key]; exact hkey⟩
    have hne : own ≠ place := by
      rintro rfl
      rw [hgroup] at horigin
      rw [← Option.some.inj horigin] at hstage
      contradiction
    exact (Array.getElem?_setIfInBounds_ne hne).trans horigin
  · intro i j one two key hone htwo hkey hkey'
    obtain ⟨first, hfirst, -, hcase⟩ := hbefore hone
    obtain ⟨second, hsecond, -, hcase'⟩ := hbefore htwo
    obtain hin | ⟨rfl, rfl⟩ := hkeys hfirst hcase key hkey
    · obtain hin' | ⟨rfl, rfl⟩ := hkeys hsecond hcase' key hkey'
      · exact h.apart i j first second key hfirst hsecond hin hin'
      · exact h.fresh_fullKey hseparator hgroup hopen hfirst hin
    · obtain hin' | ⟨rfl, -⟩ := hkeys hsecond hcase' _ hkey'
      · exact (h.fresh_fullKey hseparator hgroup hopen hsecond hin').symm
      · rfl

/-- No group bears the next parent key, nor has it a full key under that. -/
theorem fresh_parent (h : registry.Distinct) (hissued : registry.issued < registry.scheme.cycle)
    {id : Nat} {group : Group ν} (hgroup : registry.groups[id]? = some group)
    (hkind : group.kind = .normal) :
    group.key ≠ registry.scheme.parentKey registry.issued := by
  intro heq
  obtain ⟨index, hlt, hkey⟩ := h.parent id group hgroup hkind
  rw [hkey] at heq
  have hsame := KeyScheme.parentKey_inj (Nat.lt_trans hlt hissued) hissued heq
  omega

theorem fresh_under (h : registry.Distinct)
    (hseparator : registry.scheme.separator.isDigit = false)
    (hissued : registry.issued < registry.scheme.cycle) {id : Nat} {group : Group ν}
    {child : String} (hgroup : registry.groups[id]? = some group) :
    registry.scheme.fullKey (registry.scheme.parentKey registry.issued) child ∉
      group.fullKeys := by
  intro hkey
  have hparent := KeyScheme.isParent_parentKey registry.scheme registry.issued
  cases hkind : group.kind with
  | normal =>
    rw [Group.fullKeys_normal hkind, List.mem_map] at hkey
    obtain ⟨name, hname, heq⟩ := hkey
    rw [(h.named id group hgroup).children hkind name hname] at heq
    have hsame := (KeyScheme.fullKey_inj hseparator (h.isParent_key hgroup hkind) hparent heq).1
    exact h.fresh_parent hissued hgroup hkind hsame
  | delayed =>
    rw [Group.fullKeys_delayed hkind, List.mem_singleton] at hkey
    obtain ⟨place, origin, child', horigin, hnormal, -, heq⟩ := h.source id group hgroup hkind
    rw [heq] at hkey
    have hsame :=
      (KeyScheme.fullKey_inj hseparator hparent (h.isParent_key horigin hnormal) hkey).1
    exact h.fresh_parent hissued horigin hnormal hsame.symm

/-- A reservation in a group that is opened for it keeps keys distinct, as long as the counter
of parent keys has not come round. -/
theorem afterOpen (h : registry.Distinct)
    (hseparator : registry.scheme.separator.isDigit = false)
    (hissued : registry.issued < registry.scheme.cycle) {changed : Group ν} {now : Instant}
    {child : String}
    (hreserve : (Group.normal (registry.scheme.parentKey registry.issued) registry.capacity
      now).reserve now child (registry.scheme.fullKey
        (registry.scheme.parentKey registry.issued) child) = .ok changed) :
    (registry.afterOpen changed).Distinct := by
  have hborn : Group.Newborn registry.scheme registry.capacity changed :=
    .normal registry.issued now child hreserve
  have hnamed : Group.Named registry.scheme changed := hborn.named
  have hhead := Group.SameHead.reserve hreserve
  have hkind : changed.kind = .normal := hhead.kind
  have hkey : changed.key = registry.scheme.parentKey registry.issued := hhead.key
  have hkeys : changed.fullKeys =
      [registry.scheme.fullKey (registry.scheme.parentKey registry.issued) child] := by
    rw [Group.fullKeys_normal hkind, names_of_reserve hreserve]
    rfl
  have hcases : ∀ {id : Nat} {new : Group ν},
      (registry.afterOpen changed).groups[id]? = some new →
      (id = registry.groups.size ∧ new = changed) ∨ registry.groups[id]? = some new := by
    intro id new hnew
    rw [Registry.afterOpen, Array.getElem?_push] at hnew
    split at hnew
    · next hid => exact .inl ⟨hid, (Option.some.inj hnew).symm⟩
    · exact .inr hnew
  have hold : ∀ {id : Nat} {old : Group ν}, registry.groups[id]? = some old →
      (registry.afterOpen changed).groups[id]? = some old := by
    intro id old hold
    have hlt : id < registry.groups.size := (Array.getElem?_eq_some_iff.mp hold).1
    rw [Registry.afterOpen, Array.getElem?_push, if_neg (by omega), hold]
  constructor
  · intro id new hnew
    obtain ⟨-, rfl⟩ | hin := hcases hnew
    · exact hnamed
    · exact h.named id new hin
  · intro id new hnew hnormal
    obtain ⟨-, rfl⟩ | hin := hcases hnew
    · exact ⟨registry.issued, Nat.lt_succ_self _, hkey⟩
    · obtain ⟨index, hlt, heq⟩ := h.parent id new hin hnormal
      exact ⟨index, Nat.lt_succ_of_lt hlt, heq⟩
  · intro i j one two hone htwo hnormal hnormal' heq
    obtain ⟨rfl, rfl⟩ | hin := hcases hone
    · obtain ⟨rfl, -⟩ | hin' := hcases htwo
      · rfl
      · exact absurd (by rw [← heq, hkey]) (h.fresh_parent hissued hin' hnormal')
    · obtain ⟨-, rfl⟩ | hin' := hcases htwo
      · exact absurd (by rw [heq, hkey]) (h.fresh_parent hissued hin hnormal)
      · exact h.unique i j one two hin hin' hnormal hnormal' heq
  · intro id new hnew hdelayed
    obtain ⟨-, rfl⟩ | hin := hcases hnew
    · rw [hkind] at hdelayed
      contradiction
    · obtain ⟨place, origin, child', horigin, hrest⟩ := h.source id new hin hdelayed
      exact ⟨place, origin, child', hold horigin, hrest⟩
  · intro i j one two key hone htwo hmem hmem'
    obtain ⟨rfl, rfl⟩ | hin := hcases hone
    · obtain ⟨rfl, -⟩ | hin' := hcases htwo
      · rfl
      · rw [hkeys, List.mem_singleton] at hmem
        rw [hmem] at hmem'
        exact absurd hmem' (h.fresh_under hseparator hissued hin')
    · obtain ⟨-, rfl⟩ | hin' := hcases htwo
      · rw [hkeys, List.mem_singleton] at hmem'
        rw [hmem'] at hmem
        exact absurd hmem (h.fresh_under hseparator hissued hin)
      · exact h.apart i j one two key hin hin' hmem hmem'

end Distinct

/-! ## Moving slots -/

/-- Slots were taken out of a normal group that was not open any more, and a delayed group was
made for each of them. -/
structure Relieved (registry later : Registry ν) (own : Nat) (group rest : Group ν)
    (lagging : List (Slot ν)) (make : Slot ν → Group ν) : Prop where
  source : registry.groups[own]? = some group
  kind : group.kind = .normal
  stage : group.stage ≠ .opened
  shrinks : Group.Shrinks group rest
  /-- The full keys that the group keeps, and those that it passes on, were among its own. -/
  keys : (rest.fullKeys ++ lagging.map Slot.fullKey).Subperm group.fullKeys
  kept : ∀ slot, (make slot).kind = .delayed ∧ (make slot).key = slot.fullKey
  named : ∀ slot ∈ lagging, Group.Named registry.scheme (make slot)
  groups : later.groups = registry.groups.setIfInBounds own rest ++ (lagging.map make).toArray
  issued : later.issued = registry.issued
  scheme : later.scheme = registry.scheme

namespace Relieved

variable {own : Nat} {group rest : Group ν} {lagging : List (Slot ν)} {make : Slot ν → Group ν}

theorem fullKeys_make (hr : Relieved registry later own group rest lagging make)
    (slot : Slot ν) : (make slot).fullKeys = [slot.fullKey] := by
  rw [Group.fullKeys_delayed (hr.kept slot).1, (hr.kept slot).2]

/-- A group is an old one without some of its slots, or one of the new ones. -/
theorem before (hr : Relieved registry later own group rest lagging make) {id : Nat}
    {new : Group ν} (hnew : later.groups[id]? = some new) :
    (∃ old, registry.groups[id]? = some old ∧ Group.Shrinks old new ∧ (id = own → new = rest)) ∨
      (registry.groups.size ≤ id ∧ ∃ slot, lagging[id - registry.groups.size]? = some slot ∧
        new = make slot) := by
  rw [hr.groups] at hnew
  by_cases hlt : id < registry.groups.size
  · rw [Array.getElem?_append_left (by simpa using hlt)] at hnew
    obtain ⟨rfl, rfl⟩ | ⟨hne, hold⟩ := getElem?_set_cases hnew
    · exact .inl ⟨group, hr.source, hr.shrinks, fun _ => rfl⟩
    · exact .inl ⟨new, hold, .refl new, fun heq => absurd heq hne⟩
  · rw [Array.getElem?_append_right (by simpa using Nat.le_of_not_lt hlt)] at hnew
    simp only [Array.size_setIfInBounds, List.getElem?_toArray, List.getElem?_map,
      Option.map_eq_some_iff] at hnew
    obtain ⟨slot, hslot, rfl⟩ := hnew
    exact .inr ⟨Nat.le_of_not_lt hlt, slot, hslot, rfl⟩

/-- Every old group is still there. -/
theorem after (hr : Relieved registry later own group rest lagging make) {id : Nat}
    {old : Group ν} (hold : registry.groups[id]? = some old) :
    ∃ still, later.groups[id]? = some still ∧ Group.Shrinks old still := by
  have hlt : id < registry.groups.size := (Array.getElem?_eq_some_iff.mp hold).1
  rw [hr.groups, Array.getElem?_append_left (by simpa using hlt)]
  by_cases heq : own = id
  · subst heq
    obtain rfl := Option.some.inj (hr.source.symm.trans hold)
    exact ⟨rest, Array.getElem?_setIfInBounds_self_of_lt hlt, hr.shrinks⟩
  · exact ⟨old, by rw [Array.getElem?_setIfInBounds_ne heq, hold], .refl old⟩

theorem mem_fullKeys (hr : Relieved registry later own group rest lagging make) {slot : Slot ν}
    (hslot : slot ∈ lagging) : slot.fullKey ∈ group.fullKeys :=
  hr.keys.subset (List.mem_append_right _ (List.mem_map_of_mem hslot))

theorem nodup (hr : Relieved registry later own group rest lagging make)
    (h : registry.Distinct) : (rest.fullKeys ++ lagging.map Slot.fullKey).Nodup := by
  obtain ⟨keys, hperm, hsublist⟩ := hr.keys
  rw [Group.fullKeys_normal hr.kind] at hsublist
  exact hperm.nodup_iff.mp (hsublist.nodup (h.named own group hr.source).nodup)

/-- A key that was passed on is not among those of the old groups. -/
theorem fullKey_notMem (hr : Relieved registry later own group rest lagging make)
    (h : registry.Distinct) {id : Nat} {old new : Group ν} {slot : Slot ν}
    (hold : registry.groups[id]? = some old) (hshrinks : Group.Shrinks old new)
    (hown : id = own → new = rest) (hslot : slot ∈ lagging) : slot.fullKey ∉ new.fullKeys := by
  intro hmem
  have hid : id = own := h.apart id own old group _ hold hr.source (hshrinks.mem_fullKeys hmem)
    (hr.mem_fullKeys hslot)
  rw [hown hid] at hmem
  exact (List.nodup_append.mp (hr.nodup h)).2.2 _ hmem _ (List.mem_map_of_mem hslot) rfl

/-- The slots that are passed on have different keys. -/
theorem place_inj (hr : Relieved registry later own group rest lagging make)
    (h : registry.Distinct) {i j : Nat} {one two : Slot ν} (hone : lagging[i]? = some one)
    (htwo : lagging[j]? = some two) (hkey : one.fullKey = two.fullKey) : i = j := by
  have hlt : i < (lagging.map Slot.fullKey).length := by
    rw [List.length_map]
    exact (List.getElem?_eq_some_iff.mp hone).1
  refine (List.getElem?_inj hlt (List.nodup_append.mp (hr.nodup h)).2.1).mp ?_
  simp [hone, htwo, hkey]

end Relieved

namespace Distinct

/-- Passing full keys on from one group to new ones, one each, keeps keys distinct. -/
theorem relief (h : registry.Distinct) {own : Nat} {group rest : Group ν}
    {lagging : List (Slot ν)} {make : Slot ν → Group ν}
    (hr : Relieved registry later own group rest lagging make) : later.Distinct where
  named := fun id new hid => by
    rw [hr.scheme]
    obtain ⟨old, hold, hshrinks, -⟩ | ⟨-, slot, hslot, rfl⟩ := hr.before hid
    · exact (h.named id old hold).shrink hshrinks
    · exact hr.named slot (List.mem_of_getElem? hslot)
  parent := fun id new hid hnormal => by
    rw [hr.issued, hr.scheme]
    obtain ⟨old, hold, hshrinks, -⟩ | ⟨-, slot, -, rfl⟩ := hr.before hid
    · rw [hshrinks.head.key]
      exact h.parent id old hold (by rw [← hshrinks.head.kind, hnormal])
    · rw [(hr.kept slot).1] at hnormal
      contradiction
  unique := fun i j one two hone htwo hnormal hnormal' heq => by
    obtain ⟨first, hfirst, hshrinks, -⟩ | ⟨-, slot, -, rfl⟩ := hr.before hone
    · obtain ⟨second, hsecond, hshrinks', -⟩ | ⟨-, slot, -, rfl⟩ := hr.before htwo
      · rw [hshrinks.head.key, hshrinks'.head.key] at heq
        exact h.unique i j first second hfirst hsecond (by rw [← hshrinks.head.kind, hnormal])
          (by rw [← hshrinks'.head.kind, hnormal']) heq
      · rw [(hr.kept slot).1] at hnormal'
        contradiction
    · rw [(hr.kept slot).1] at hnormal
      contradiction
  source := fun id new hid hdelayed => by
    obtain ⟨old, hold, hshrinks, -⟩ | ⟨-, slot, hslot, rfl⟩ := hr.before hid
    · obtain ⟨place, origin, child, horigin, hnormal, hopen, hkey⟩ :=
        h.source id old hold (by rw [← hshrinks.head.kind, hdelayed])
      obtain ⟨still, hstill, hshrinks'⟩ := hr.after horigin
      refine ⟨place, still, child, hstill, by rw [hshrinks'.head.kind, hnormal],
        fun hopened => hopen (hshrinks'.opened hopened), ?_⟩
      rw [hshrinks.head.key, hshrinks'.head.key, hr.scheme, hkey]
    · have hmem := hr.mem_fullKeys (List.mem_of_getElem? hslot)
      rw [Group.fullKeys_normal hr.kind, List.mem_map] at hmem
      obtain ⟨name, hname, hkey⟩ := hmem
      obtain ⟨still, hstill, hshrinks'⟩ := hr.after hr.source
      refine ⟨own, still, name.1, hstill, by rw [hshrinks'.head.kind, hr.kind],
        fun hopened => hr.stage (hshrinks'.opened hopened), ?_⟩
      rw [(hr.kept slot).2, ← hkey, hshrinks'.head.key, hr.scheme,
        (h.named own group hr.source).children hr.kind name hname]
  apart := fun i j one two key hone htwo hmem hmem' => by
    obtain ⟨first, hfirst, hshrinks, hown⟩ | ⟨hle, slot, hslot, rfl⟩ := hr.before hone
    · obtain ⟨second, hsecond, hshrinks', -⟩ | ⟨-, slot, hslot, rfl⟩ := hr.before htwo
      · exact h.apart i j first second key hfirst hsecond (hshrinks.mem_fullKeys hmem)
          (hshrinks'.mem_fullKeys hmem')
      · rw [hr.fullKeys_make, List.mem_singleton] at hmem'
        rw [hmem'] at hmem
        exact absurd hmem (hr.fullKey_notMem h hfirst hshrinks hown (List.mem_of_getElem? hslot))
    · rw [hr.fullKeys_make, List.mem_singleton] at hmem
      obtain ⟨second, hsecond, hshrinks', hown⟩ | ⟨hle', slot', hslot', rfl⟩ := hr.before htwo
      · rw [hmem] at hmem'
        exact absurd hmem' (hr.fullKey_notMem h hsecond hshrinks' hown (List.mem_of_getElem? hslot))
      · rw [hr.fullKeys_make, List.mem_singleton, hmem] at hmem'
        have hsame := hr.place_inj h hslot hslot' hmem'
        omega

/-- The full keys of a group that is held back are those of its ready slots and of the slots
that are taken out of it. -/
theorem fullKeys_split (scheme : KeyScheme) {group : Group ν} (hkind : group.kind = .normal) :
    ((group.leftBehind scheme).fullKeys ++ (group.movable scheme).map Slot.fullKey).Subperm
      group.fullKeys := by
  have hslots : ∀ {other : Group ν}, other.kind = .normal →
      other.fullKeys = other.slots.map Slot.fullKey := by
    intro other hother
    rw [Group.fullKeys_normal hother]
    simp [Group.names, Slot.names, Function.comp_def]
  have hleft : (group.leftBehind scheme).kind = .normal := by
    rw [(Group.SameHead.leftBehind scheme group).kind, hkind]
  have hsub : (group.slots.filter (·.isReady) ++ group.movable scheme).Sublist
      (group.slots.filter (·.isReady) ++ group.slots.filter (!·.isReady)) :=
    (List.Sublist.refl _).append (group.movable_sublist scheme)
  rw [hslots hkind, hslots hleft, Group.leftBehind_slots, ← List.map_append]
  exact (hsub.map _).subperm.trans ((List.filter_append_perm _ _).map _).subperm

theorem relieve {sweep : Relocation ν} (h : sweep.state.registry.Distinct) (now : Instant)
    (own : Nat) : (Relocation.relieve now sweep own).state.registry.Distinct := by
  obtain ⟨heq, -⟩ | ⟨group, -, hgroup, hheld, -, heq⟩ := relieve_cases now sweep own
  · rw [heq]
    exact h
  · rw [heq]
    obtain ⟨hkind, hstage, -⟩ := Group.isHeldBack_iff.mp hheld
    have hnamed : ∀ slot ∈ group.movable sweep.state.registry.scheme,
        Group.Named sweep.state.registry.scheme
          (delayedFor sweep.state.registry.scheme now group slot) := by
      intro slot hslot
      obtain ⟨-, -, emitKey, hemit⟩ := Group.of_mem_movable hslot
      exact ⟨List.nodup_singleton _, fun hkind => by contradiction,
        fun hkind => by contradiction, fun _ hopen => by contradiction, fun _ => Nat.le_refl _,
        fun _ name hname => by rw [List.mem_singleton.mp hname]; rfl,
        fun _ => by simp only [delayedFor, Group.delayed, hemit, Option.getD_some]⟩
    exact h.relief ⟨hgroup, hkind, by simp [hstage], .leftBehind _ _, fullKeys_split _ hkind,
      fun slot => ⟨rfl, rfl⟩, hnamed, rfl, rfl, rfl⟩

end Distinct

/-! ## Sections -/

/-- A section keeps keys distinct, as long as the counter of parent keys has not come round. -/
structure Keeps (registry later : Registry ν) : Prop where
  issued : registry.issued ≤ later.issued
  scheme : later.scheme = registry.scheme
  distinct : later.issued ≤ registry.scheme.cycle → registry.Distinct → later.Distinct

theorem Shrunk.keeps (h : Shrunk registry later) : Keeps registry later where
  issued := Nat.le_of_eq h.issued.symm
  scheme := h.scheme
  distinct := fun _ hdistinct => hdistinct.shrunk h

theorem Steady.keeps (h : Steady registry later) : Keeps registry later := h.shrunk.keeps

theorem Keeps.trans (h : Keeps registry middle) (h' : Keeps middle later) :
    Keeps registry later where
  issued := Nat.le_trans h.issued h'.issued
  scheme := h'.scheme.trans h.scheme
  distinct := fun hissued hdistinct => by
    have hmiddle : middle.Distinct := h.distinct (Nat.le_trans h'.issued hissued) hdistinct
    exact h'.distinct (by rw [h.scheme]; exact hissued) hmiddle

theorem keeps_reserve (registry : Registry ν)
    (hseparator : registry.scheme.separator.isDigit = false) (now : Instant) (child : String) :
    Keeps registry (registry.reserve now child).registry := by
  have hsame : Keeps registry registry := Steady.keeps (.same rfl rfl rfl)
  obtain ⟨-, heq⟩ | ⟨_, _, -, -, -, -, -, heq⟩ |
    ⟨own, group, changed, -, -, hgroup, hreserve, heq⟩ |
    ⟨parent, changed, -, -, -, rfl, hreserve, heq⟩ | ⟨-, -, -, heq⟩ :=
    registry.reserve_cases now child
  · rw [heq]
    exact hsame
  · rw [heq]
    exact hsame
  · rw [heq]
    exact ⟨Nat.le_refl _, rfl, fun _ h => h.afterReserve hseparator hgroup hreserve⟩
  · rw [heq]
    exact ⟨Nat.le_succ _, rfl, fun hissued h => h.afterOpen hseparator hissued hreserve⟩
  · rw [heq]
    exact ⟨Nat.le_succ _, rfl, fun _ h => h.issue⟩

theorem keeps_relieve (now : Instant) (sweep : Relocation ν) (own : Nat) :
    Keeps sweep.state.registry (Relocation.relieve now sweep own).state.registry := by
  obtain ⟨hissued, hscheme⟩ :
      (Relocation.relieve now sweep own).state.registry.issued = sweep.state.registry.issued ∧
        (Relocation.relieve now sweep own).state.registry.scheme =
          sweep.state.registry.scheme := by
    obtain ⟨heq, -⟩ | ⟨_, -, -, -, -, heq⟩ := relieve_cases now sweep own
    · rw [heq]
      exact ⟨rfl, rfl⟩
    · rw [heq]
      exact ⟨rfl, rfl⟩
  exact ⟨Nat.le_of_eq hissued.symm, hscheme, fun _ h => h.relieve now own⟩

/-- A sweep that breaks down only takes slots out of groups. -/
theorem shrunk_relocate {now : Instant} (hbroken : (registry.relieved now).broken = true) :
    Shrunk registry (registry.relocate now).registry := by
  obtain ⟨groups, count, hsize, hkept, heq⟩ := relocate_registry_of_broken hbroken
  rw [heq]
  refine ⟨rfl, rfl, hsize, fun id group changed hgroup hchanged => ?_⟩
  obtain ⟨same, hsame, rfl | ⟨-, rfl⟩⟩ := hkept.before hsize hchanged
  · rw [Option.some.inj (hgroup.symm.trans hsame)]
    exact .refl changed
  · rw [Option.some.inj (hgroup.symm.trans hsame)]
    exact .leftBehind _ same

theorem keeps_relocate (registry : Registry ν) (now : Instant) :
    Keeps registry (registry.relocate now).registry := by
  cases hbroken : (registry.relieved now).broken with
  | true => exact (shrunk_relocate hbroken).keeps
  | false =>
    have hsweep : Keeps registry (registry.relieved now).state.registry :=
      foldl_keep (P := fun sweep : Relocation ν => Keeps registry sweep.state.registry) _
        (fun sweep own _ hsweep => hsweep.trans (keeps_relieve now sweep own))
        (Steady.keeps (.same rfl rfl rfl))
    rw [relocate_of_not_broken hbroken]
    exact hsweep.trans (Steady.keeps (.same rfl rfl rfl))

end Registry

/-! ## Runs -/

namespace Committer

theorem keeps_step (committer : Committer ν ε)
    (hseparator : committer.registry.scheme.separator.isDigit = false) (action : Action ν ε) :
    Registry.Keeps committer.registry (committer.step action).registry := by
  have hsection := committer.step_section action
  cases hslots : action.leavesSlots with
  | true => exact (committer.steady_step hslots).keeps
  | false =>
    generalize (committer.step action).registry = later at hsection
    cases hsection with
    | counted counters => exact Registry.Steady.keeps (.same rfl rfl rfl)
    | reserve now child => exact Registry.keeps_reserve _ hseparator now child
    | remove fullKey => exact (Registry.shrunk_remove _ fullKey).keeps
    | relocate now => exact Registry.keeps_relocate _ now
    | _ => contradiction

/-- In every reachable state keys are distinct, as long as the counter of parent keys has not
come round. -/
theorem distinct_run {label : String} {settings : Settings} {scheme : KeyScheme}
    {slotBytes : Nat} {unstartable : Option (Sweeper × String)} {start : Committer ν ε}
    (hstart : (launch label settings scheme slotBytes unstartable).1 = .ok start)
    (hseparator : scheme.separator.isDigit = false) (actions : List (Action ν ε))
    (hissued : (start.run actions).registry.issued ≤ scheme.cycle) :
    (start.run actions).registry.Distinct := by
  have hregistry := (launch_eq_ok hstart).2.1
  induction actions using List.reverseRecOn with
  | nil =>
    rw [run_nil, hregistry]
    exact .empty settings scheme slotBytes
  | append_singleton actions action ih =>
    have hscheme := (run_constant hstart actions).2
    have hkeeps := (start.run actions).keeps_step (by rw [hscheme, hseparator]) action
    rw [run_append] at hissued ⊢
    refine hkeeps.distinct (by rw [hscheme]; exact hissued) (ih ?_)
    exact Nat.le_trans hkeeps.issued hissued

end Committer

end BatchedCommit
