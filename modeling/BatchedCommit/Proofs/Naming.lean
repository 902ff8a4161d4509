import Mathlib.Data.List.Nodup
import BatchedCommit.Proofs.Keys
import BatchedCommit.Proofs.Reachable

/-!
# BatchedCommit.Proofs.Naming

How the keys of a group and of its slots hang together, in every state that a group can reach
(`Group.Named`): the slots of a normal group are named by its parent key and by different child
keys, and it is emitted under its parent key; a delayed group has at most one slot, whose full
key names the group, and it never takes reservations.

A reservation is the only change that adds a slot. A removal and a relocation take slots out
(`Group.Shrinks`); every other change leaves the slots in place (`Group.Steady`).
-/

namespace BatchedCommit

namespace Slot

variable {ν : Type}

/-- The two keys of a slot. -/
def names (slot : Slot ν) : String × String := (slot.child, slot.fullKey)

@[simp] theorem names_handOver (slot : Slot ν) : slot.handOver.names = slot.names := by
  simp [names]

end Slot

namespace Group

variable {ν : Type} {scheme : KeyScheme} {group changed : Group ν}

/-- The keys of the slots, in the order of their reservation. -/
def names (group : Group ν) : List (String × String) := group.slots.map Slot.names

/-- The full keys of the slots are the second ones of their names. -/
theorem keys_of_names (group : Group ν) :
    group.names.map Prod.snd = group.slots.map Slot.fullKey := by
  simp [names, Slot.names, Function.comp_def]

/-! ## Changes that add no slot -/

/-- The slots of a group have the keys that they had, and it was not opened again. -/
structure Steady (group changed : Group ν) : Prop where
  head : SameHead group changed
  names : changed.names = group.names
  opened : changed.stage = .opened → group.stage = .opened

/-- Slots may have been taken out of a group, but none was added, and it was not opened
again. -/
structure Shrinks (group changed : Group ν) : Prop where
  head : SameHead group changed
  names : changed.names.Sublist group.names
  opened : changed.stage = .opened → group.stage = .opened

namespace Steady

theorem refl (group : Group ν) : Steady group group := ⟨.refl group, rfl, fun hopen => hopen⟩

theorem trans {middle : Group ν} (h : Steady group middle) (h' : Steady middle changed) :
    Steady group changed :=
  ⟨h.head.trans h'.head, h'.names.trans h.names, fun hopen => h.opened (h'.opened hopen)⟩

theorem shrinks (h : Steady group changed) : Shrinks group changed :=
  ⟨h.head, by rw [h.names], h.opened⟩

theorem markReady (group : Group ν) : Steady group group.markReady := by
  refine ⟨.markReady group, by rw [Group.names, Group.names, markReady_slots], ?_⟩
  rw [Group.markReady]
  split
  · exact fun hopen => by contradiction
  · exact fun hopen => hopen

theorem fixSize (group : Group ν) (now : Instant) : Steady group (group.fixSize now) := by
  rw [Group.fixSize]
  split
  · next hopen => exact ⟨⟨rfl, rfl, rfl, rfl, rfl⟩, rfl, fun _ => hopen⟩
  · exact .refl group

theorem abort (group : Group ν) (reason : Failure) : Steady group (group.abort reason) := by
  rw [Group.abort]
  split
  · exact ⟨⟨rfl, rfl, rfl, rfl, rfl⟩, rfl, fun hopen => by contradiction⟩
  · exact .refl group

theorem put {fullKey : String} {value : ν} (h : group.put fullKey value = .ok changed) :
    Steady group changed := by
  refine ⟨.put h, ?_, ?_⟩
  · obtain ⟨-, before, slot, after, hslots, -, -, -, rfl⟩ := put_eq_ok h
    simp [Group.names, Slot.names, hslots]
  · obtain ⟨-, _, _, _, -, -, -, -, rfl⟩ := put_eq_ok h
    exact fun hopen => hopen

theorem claim? {values : List ν} (h : group.claim? = some (values, changed)) :
    Steady group changed := by
  refine ⟨.claim? h, ?_, ?_⟩
  · obtain ⟨-, -, -, rfl⟩ := claim?_eq_some h
    simp [Group.names, Function.comp_def]
  · obtain ⟨-, -, -, rfl⟩ := claim?_eq_some h
    exact fun hopen => hopen

theorem finish (group : Group ν) (verdict : Verdict) : Steady group (group.finish verdict) :=
  ⟨⟨rfl, rfl, rfl, rfl, rfl⟩, rfl, fun hopen => by contradiction⟩

end Steady

namespace Shrinks

theorem refl (group : Group ν) : Shrinks group group := (Steady.refl group).shrinks

theorem trans {middle : Group ν} (h : Shrinks group middle) (h' : Shrinks middle changed) :
    Shrinks group changed :=
  ⟨h.head.trans h'.head, h'.names.trans h.names, fun hopen => h.opened (h'.opened hopen)⟩

theorem markReady (h : Shrinks group changed) : Shrinks group changed.markReady :=
  h.trans (Steady.markReady changed).shrinks

theorem of_slots {slots : List (Slot ν)} (h : slots.Sublist group.slots) :
    Shrinks group { group with slots } :=
  ⟨⟨rfl, rfl, rfl, rfl, rfl⟩, h.map _, fun hopen => hopen⟩

theorem remove {fullKey : String} (h : group.remove fullKey = .ok changed) :
    Shrinks group changed := by
  obtain ⟨-, before, slot, after, hslots, -, -, -, rfl⟩ := remove_eq_ok h
  refine .of_slots ?_
  rw [hslots]
  exact List.Sublist.append_left (List.sublist_cons_self slot after) before

theorem extractLagging (group : Group ν) (now : Instant) (window : Nat) :
    Shrinks group (group.extractLagging now window).2 := by
  rw [Group.extractLagging]
  split
  · exact .of_slots List.filter_sublist
  · exact .refl group

theorem leftBehind (scheme : KeyScheme) (group : Group ν) :
    Shrinks group (group.leftBehind scheme) := by
  have hrest : Shrinks group { group with slots := group.slots.filter (·.isReady) } :=
    .of_slots List.filter_sublist
  rw [Group.leftBehind]
  split
  · exact hrest.markReady
  · exact hrest

end Shrinks

/-- A quiet change is a reservation or adds no slot. -/
theorem Quiet.shrinks (h : Quiet scheme group changed) :
    (∃ now child, group.reserve now child (scheme.fullKey group.key child) = .ok changed) ∨
      Shrinks group changed := by
  cases h with
  | reserve now child h => exact .inl ⟨now, child, h⟩
  | remove fullKey h => exact .inr (Shrinks.remove h).markReady
  | fixSize now h => exact .inr ((Steady.fixSize group now).trans (.markReady _)).shrinks
  | relieve now window h hscheme => exact .inr (Shrinks.extractLagging group now window).markReady
  | strip now window h hscheme => exact .inr (.extractLagging group now window)
  | expire key h => exact .inr (Steady.abort group _).shrinks
  | close h => exact .inr (Steady.abort group _).shrinks

/-! ## The invariant -/

/-- How the keys of a group and of its slots hang together. -/
structure Named (scheme : KeyScheme) (group : Group ν) : Prop where
  /-- No two slots have the same child key. -/
  distinct : (group.names.map Prod.fst).Nodup
  /-- A normal group is emitted under its parent key, -/
  parent : group.kind = .normal → group.emitKey = group.key
  /-- and its slots are named by it and by their child keys. -/
  children : group.kind = .normal → ∀ name ∈ group.names, name.2 = scheme.fullKey group.key name.1
  /-- A delayed group never takes reservations. -/
  settled : group.kind = .delayed → group.stage ≠ .opened
  /-- It has at most one slot, -/
  single : group.kind = .delayed → group.names.length ≤ 1
  /-- after which it is named, -/
  own : group.kind = .delayed → ∀ name ∈ group.names, name.2 = group.key
  /-- and it is emitted under the key that follows from that. -/
  derived : group.kind = .delayed → scheme.delayedEmitKey? group.key = some group.emitKey

namespace Named

theorem shrink (h : Named scheme group) (hs : Shrinks group changed) : Named scheme changed where
  distinct := h.distinct.sublist (hs.names.map _)
  parent := fun hkind => by
    rw [hs.head.emitKey, hs.head.key]
    exact h.parent (by rw [← hs.head.kind, hkind])
  children := fun hkind name hname => by
    rw [hs.head.key]
    exact h.children (by rw [← hs.head.kind, hkind]) name (hs.names.mem hname)
  settled := fun hkind hopen => h.settled (by rw [← hs.head.kind, hkind]) (hs.opened hopen)
  single := fun hkind =>
    Nat.le_trans hs.names.length_le (h.single (by rw [← hs.head.kind, hkind]))
  own := fun hkind name hname => by
    rw [hs.head.key]
    exact h.own (by rw [← hs.head.kind, hkind]) name (hs.names.mem hname)
  derived := fun hkind => by
    rw [hs.head.key, hs.head.emitKey]
    exact h.derived (by rw [← hs.head.kind, hkind])

/-- A group that takes reservations is a normal one. -/
theorem kind_of_opened (h : Named scheme group) (hopen : group.stage = .opened) :
    group.kind = .normal := by
  cases hkind : group.kind with
  | normal => rfl
  | delayed => exact absurd hopen (h.settled hkind)

theorem reserve (h : Named scheme group) {now : Instant} {child : String}
    (hreserve : group.reserve now child (scheme.fullKey group.key child) = .ok changed) :
    Named scheme changed := by
  obtain ⟨hopen, hchild, hchanged⟩ := reserve_eq_ok hreserve
  have hhead : SameHead group changed := .reserve hreserve
  have hkind : changed.kind = .normal := by rw [hhead.kind, h.kind_of_opened hopen]
  have hnot : changed.kind ≠ .delayed := by simp [hkind]
  have hnames : changed.names = group.names ++ [(child, scheme.fullKey group.key child)] := by
    rw [hchanged]
    simp [Group.names, Slot.names, Slot.reserved]
  have hnew : child ∉ group.names.map Prod.fst := by
    simpa [Group.names, Slot.names, Function.comp_def] using hchild
  exact {
    distinct := by
      rw [hnames, List.map_append, List.nodup_append]
      refine ⟨h.distinct, by simp, fun other hother last hlast hsame => ?_⟩
      rw [List.map_singleton, List.mem_singleton] at hlast
      rw [hsame, hlast] at hother
      exact hnew hother
    parent := fun _ => by
      rw [hhead.emitKey, hhead.key]
      exact h.parent (h.kind_of_opened hopen)
    children := fun _ name hname => by
      rw [hnames, List.mem_append] at hname
      rw [hhead.key]
      cases hname with
      | inl hold => exact h.children (h.kind_of_opened hopen) name hold
      | inr hnew => rw [List.mem_singleton.mp hnew]
    settled := fun hdelayed => absurd hdelayed hnot
    single := fun hdelayed => absurd hdelayed hnot
    own := fun hdelayed => absurd hdelayed hnot
    derived := fun hdelayed => absurd hdelayed hnot }

/-- No two slots of a group have the same full key. -/
theorem nodup (h : Named scheme group) : (group.names.map Prod.snd).Nodup := by
  cases hkind : group.kind with
  | normal =>
    -- the child keys are different, and the full keys follow from them
    have hsame : group.names.map Prod.snd =
        (group.names.map Prod.fst).map (scheme.fullKey group.key) := by
      rw [List.map_map]
      exact List.map_congr_left (h.children hkind)
    rw [hsame]
    exact h.distinct.map fun _ _ heq => KeyScheme.fullKey_child_inj heq
  | delayed =>
    have hlength : (group.names.map Prod.snd).length ≤ 1 := by
      rw [List.length_map]
      exact h.single hkind
    cases hnames : group.names.map Prod.snd with
    | nil => exact List.nodup_nil
    | cons first rest =>
      rw [hnames, List.length_cons] at hlength
      rw [List.length_eq_zero_iff.mp (show rest.length = 0 by omega)]
      exact List.nodup_singleton first

theorem nodup_keys (h : Named scheme group) : (group.slots.map Slot.fullKey).Nodup := by
  rw [← keys_of_names]
  exact h.nodup

end Named

theorem Quiet.named (h : Quiet scheme group changed) (hgroup : Named scheme group) :
    Named scheme changed := by
  cases h.shrinks with
  | inl hreserve =>
    obtain ⟨now, child, hreserve⟩ := hreserve
    exact hgroup.reserve hreserve
  | inr hshrinks => exact hgroup.shrink hshrinks

theorem Shifts.named (h : Shifts scheme group changed) (hgroup : Named scheme group) :
    Named scheme changed :=
  h.keep (fun _ _ hquiet ha => hquiet.named ha) hgroup

theorem Next.named (h : Next scheme group changed) (hgroup : Named scheme group) :
    Named scheme changed := by
  cases h with
  | quiet h => exact h.named hgroup
  | store fullKey value h => exact hgroup.shrink ((Steady.put h).trans (.markReady _)).shrinks
  | claim values h => exact hgroup.shrink (Steady.claim? h).shrinks
  | finish verdict hstage hclaimed => exact hgroup.shrink (Steady.finish group verdict).shrinks

theorem Newborn.named {capacity : Nat} (h : Newborn scheme capacity group) :
    Named scheme group := by
  cases h with
  | normal index now child h =>
    have hempty : Named scheme (Group.normal (scheme.parentKey index) capacity now : Group ν) :=
      ⟨List.nodup_nil, fun _ => rfl, fun _ _ hname => by contradiction, nofun, nofun, nofun,
        nofun⟩
    exact hempty.reserve h
  | delayed slot emitKey createdAt now hready hemit =>
    refine ⟨List.nodup_singleton _, nofun, nofun, nofun, fun _ => Nat.le_refl _,
      fun _ name hname => ?_, fun _ => hemit⟩
    rw [List.mem_singleton.mp hname]
    rfl

end Group

/-- In every reachable state the keys of each group hang together. -/
theorem Committer.named_run {ν ε : Type} {label : String} {settings : Settings}
    {scheme : KeyScheme} {slotBytes : Nat}
    {unstartable : Option (Sweeper × String)} {start : Committer ν ε}
    (hstart : (launch label settings scheme slotBytes unstartable).1 = .ok start)
    (actions : List (Action ν ε)) {id : Nat} {group : Group ν}
    (hgroup : (start.run actions).registry.groups[id]? = some group) : group.Named scheme :=
  group_invariant hstart (fun _ hborn => hborn.named) (fun _ _ hnext => hnext.named) actions id
    group hgroup

end BatchedCommit
