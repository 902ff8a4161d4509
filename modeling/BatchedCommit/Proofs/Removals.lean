import BatchedCommit.Proofs.Abortions
import BatchedCommit.Proofs.Descent
import BatchedCommit.Proofs.Emptied
import BatchedCommit.Proofs.Refusals
import BatchedCommit.Proofs.Tombstones

/-!
# BatchedCommit.Proofs.Removals

What a removal does, and what follows from it (`Committer.removal_of_slot`). It takes one slot out
of one group (`Registry.TookOut`). Then there are three ways on: the group goes on with the slots
that are left; it becomes ready with them, if its size was fixed and none of them was waited for; or
no slot is left, and the group is gone.

No group has a slot of that full key afterwards (`Registry.Lacks`), until a reservation in the same
group answers the key again, for which the group must be open (`Committer.regained_of_reserve`). A
value for the key then finds the group of the parent key, its tombstone, or nothing, and is refused
(`Committer.refused_of_lacks`).
-/

namespace BatchedCommit

variable {ν ε : Type}

namespace Group

variable {scheme : KeyScheme} {group changed : Group ν} {slots : List (Slot ν)}

/-! ## Taking a slot out of a group -/

/-- A slot whose value has not arrived can be taken out, if no other slot bears its key. -/
theorem removeFrom_of_missing (stage : Stage) (hnodup : (slots.map Slot.fullKey).Nodup)
    {slot : Slot ν} (hslot : slot ∈ slots) (hready : slot.isReady = false) :
    ∃ rest, removeFrom stage slot.fullKey slots = .ok rest := by
  induction slots with
  | nil => contradiction
  | cons first others ih =>
    rw [List.map_cons, List.nodup_cons] at hnodup
    rw [removeFrom]
    rcases List.mem_cons.mp hslot with rfl | hother
    · rw [if_pos rfl, hready]
      exact ⟨others, rfl⟩
    · have hne : first.fullKey ≠ slot.fullKey := fun hkey =>
        hnodup.1 (hkey ▸ List.mem_map_of_mem hother)
      obtain ⟨rest, hrest⟩ := ih hnodup.2 hother
      rw [if_neg hne, hrest]
      exact ⟨first :: rest, rfl⟩

theorem remove_of_missing (hnodup : (group.slots.map Slot.fullKey).Nodup)
    (hmutable : group.stage.isMutable = true) {slot : Slot ν} (hslot : slot ∈ group.slots)
    (hready : slot.isReady = false) : ∃ changed, group.remove slot.fullKey = .ok changed := by
  obtain ⟨rest, hrest⟩ := removeFrom_of_missing group.stage hnodup hslot hready
  refine ⟨{ group with slots := rest }, ?_⟩
  rw [Group.remove]
  obtain hstage | hstage := Stage.isMutable_iff.mp hmutable
  · rw [hstage] at hrest ⊢
    simp only [hrest, Except.map]
  · rw [hstage] at hrest ⊢
    simp only [hrest, Except.map]

/-! ## Groups that became ready -/

/-- The group was ready with these slots: it still is, unless its emission was claimed or it was
aborted. -/
def ReadyWith (slots : List (Slot ν)) (group : Group ν) : Prop :=
  group.stage = .ready ∧ group.slots = slots ∨ group.claimed = true ∨ group.stage = .aborted

theorem Quiet.readyWith (h : Quiet scheme group changed) (hgroup : group.ReadyWith slots) :
    changed.ReadyWith slots := by
  obtain ⟨hready, hslots⟩ | hclaimed | haborted := hgroup
  · have hnotMutable : group.stage.isMutable = false := by rw [hready]; rfl
    have hnotFixed : group.stage ≠ .sizeFixed := by rw [hready]; decide
    cases h with
    | reserve now child h =>
      rw [(reserve_eq_ok h).1] at hready
      contradiction
    | remove fullKey h => exact absurd (remove_eq_ok h).1 (by simp [hnotMutable])
    | fixSize now h =>
      rw [h] at hready
      contradiction
    | relieve now window h => exact absurd (isHeldBack_iff.mp h).2.1 hnotFixed
    | strip now window h => exact absurd (isHeldBack_iff.mp h).2.1 hnotFixed
    | expire key h => exact .inr (.inr (by rw [Group.abort, if_pos h]))
    | close h => exact .inr (.inr (by rw [Group.abort, if_pos h]))
  · exact .inr (.inl (h.claimed.trans hclaimed))
  · have hended : group.stage.isTerminal = true := by rw [haborted]; rfl
    have hnot := not_abortable_of_isTerminal hended
    rw [h.isAbortable] at hnot
    contradiction

theorem Next.readyWith (h : Next scheme group changed) (hgroup : group.ReadyWith slots)
    (hslots : ∀ slot ∈ slots, slot.isReady = true) : changed.ReadyWith slots := by
  cases h with
  | quiet h => exact h.keep (fun a b hquiet => hquiet.readyWith) hgroup
  | store fullKey value hput =>
    obtain ⟨hready, hown⟩ | hclaimed | haborted := hgroup
    · -- every value has arrived
      obtain ⟨-, before, slot, after, heq, -, -, hmissing, -⟩ := put_eq_ok hput
      have hmem : slot ∈ slots := by simp [← hown, heq]
      rw [hslots slot hmem] at hmissing
      contradiction
    · exact .inr (.inl ((Next.store fullKey value hput : Next scheme group _).claimed hclaimed))
    · obtain ⟨hlive, -⟩ := put_eq_ok hput
      rw [haborted] at hlive
      contradiction
  | claim values hclaim =>
    obtain ⟨-, -, -, rfl⟩ := claim?_eq_some hclaim
    exact .inr (.inl rfl)
  | finish verdict hstage hclaimed => exact .inr (.inl hclaimed)

end Group

namespace Registry

variable {registry later : Registry ν} {fullKey : String}

/-! ## Removals that succeed -/

/-- One slot was taken out of one group. -/
structure TookOut (registry later : Registry ν) (fullKey : String) (id : Nat) (group : Group ν)
    (slot : Slot ν) (rest : List (Slot ν)) : Prop where
  registered : registry.Registered id
  found : registry.groups[id]? = some group
  stage : group.stage = .opened ∨ group.stage = .sizeFixed
  key : slot.fullKey = fullKey
  awaited : slot.isReady = false
  /-- The other slots stay in their order, -/
  slots : ∃ first last, group.slots = first ++ slot :: last ∧ rest = first ++ last
  /-- and so do the other groups. -/
  groups : later.groups =
    registry.groups.setIfInBounds id { group with slots := rest }.markReady
  /-- A group that has slots left stays in its place. -/
  kept : rest ≠ [] → later.index = registry.index ∧ later.current = registry.current
  /-- One that has none leaves it, and is the only one to do so. -/
  left : rest = [] → (∀ other, later.Registered other ↔ registry.Registered other ∧ other ≠ id) ∧
    later.current = if registry.current = some id then none else registry.current

namespace TookOut

variable {id : Nat} {group : Group ν} {slot : Slot ν} {rest : List (Slot ν)}

theorem mem (h : TookOut registry later fullKey id group slot rest) : slot ∈ group.slots := by
  obtain ⟨first, last, hslots, -⟩ := h.slots
  simp [hslots]

theorem getElem? (h : TookOut registry later fullKey id group slot rest) :
    later.groups[id]? = some { group with slots := rest }.markReady := by
  rw [h.groups]
  exact Array.getElem?_setIfInBounds_self_of_lt (Array.getElem?_eq_some_iff.mp h.found).1

end TookOut

/-- A group that leaves its index leaves it alone. -/
theorem Indexed.registered_unregister_iff (h : registry.Indexed) {id : Nat} {group : Group ν}
    (hgroup : registry.groups[id]? = some group) (middle : Registry ν)
    (hindex : middle.index = registry.index) (other : Nat) :
    (middle.unregister group.kind group.key id).Registered other ↔
      registry.Registered other ∧ other ≠ id := by
  simp only [registered_iff, find?_unregister, hindex]
  constructor
  · rintro ⟨kind, key, hfind, hnot⟩
    refine ⟨⟨kind, key, hfind⟩, ?_⟩
    rintro rfl
    obtain ⟨same, hsame, hkind, hkey, -⟩ := h.lives kind hfind
    obtain rfl := Option.some.inj (hsame.symm.trans hgroup)
    exact hnot ⟨hkind.symm, hkey.symm, rfl⟩
  · rintro ⟨⟨kind, key, hfind⟩, hne⟩
    exact ⟨kind, key, hfind, fun h => hne h.2.2⟩

theorem tookOut_of_remove (hindexed : registry.Indexed)
    (h : (registry.remove fullKey).answer = .ok ()) : registry.closed = false ∧
      ∃ id group slot rest,
        TookOut registry (registry.remove fullKey).registry fullKey id group slot rest := by
  obtain ⟨failure, heq⟩ | ⟨id, group, changed, hopen, hfind, hgroup, hremove, hempty, heq⟩ |
    ⟨id, group, changed, hopen, hfind, hgroup, hremove, hsome, heq⟩ := registry.remove_cases fullKey
  · rw [heq] at h
    contradiction
  · obtain ⟨hmutable, first, slot, last, hslots, hkey, -, hready, rfl⟩ :=
      Group.remove_eq_ok hremove
    obtain ⟨rfl, rfl⟩ := List.append_eq_nil_iff.mp hempty
    refine ⟨hopen, id, group, slot, [], registered_of_find hfind, hgroup,
      Stage.isMutable_iff.mp hmutable, hkey, hready, ⟨[], [], hslots, rfl⟩, ?_,
      fun hsome => absurd rfl hsome, fun _ => ⟨fun other => ?_, ?_⟩⟩
    · rw [heq, Group.markReady, if_neg (by simp [Group.isComplete])]
      exact unregister_groups _ _ _ _
    · rw [heq]
      exact hindexed.registered_unregister_iff hgroup
        ((registry.setGroup id { group with slots := [] }).bump .slotsRemoved) rfl other
    · rw [heq]
      exact unregister_current _ _ _ _
  · obtain ⟨hmutable, first, slot, last, hslots, hkey, -, hready, rfl⟩ :=
      Group.remove_eq_ok hremove
    refine ⟨hopen, id, group, slot, first ++ last, registered_of_find hfind, hgroup,
      Stage.isMutable_iff.mp hmutable, hkey, hready, ⟨first, last, hslots, rfl⟩, ?_, ?_,
      fun hnone => absurd hnone hsome⟩
    · rw [heq]
      rfl
    · rw [heq]
      exact fun _ => ⟨rfl, rfl⟩

/-- A removal succeeds exactly for a slot that its group waits for, while slots can be taken out. -/
theorem Routed.remove_ok_iff (h : registry.Routed) (fullKey : String) :
    (registry.remove fullKey).answer = .ok () ↔ registry.closed = false ∧
      ∃ id group slot, registry.Registered id ∧ registry.groups[id]? = some group ∧
        (group.stage = .opened ∨ group.stage = .sizeFixed) ∧ slot ∈ group.slots ∧
          slot.fullKey = fullKey ∧ slot.isReady = false := by
  constructor
  · intro hok
    obtain ⟨hopen, id, group, slot, rest, htook⟩ := tookOut_of_remove h.indexed hok
    exact ⟨hopen, id, group, slot, htook.registered, htook.found, htook.stage, htook.mem, htook.key,
      htook.awaited⟩
  · rintro ⟨hopen, id, group, slot, hid, hgroup, hstage, hslot, rfl, hready⟩
    obtain ⟨changed, hchanged⟩ :=
      Group.remove_of_missing (h.distinct.named id group hgroup).nodup_keys
        (Stage.isMutable_iff.mpr hstage) hslot hready
    have hlookup : registry.lookup slot.fullKey = .ok (id, group) := by
      rw [lookup, h.find_slot hid hgroup hslot]
      simp only [hgroup]
    rw [remove, if_neg (by simp [hopen]), hlookup]
    simp only [hchanged]
    split
    · rfl
    · split <;> rfl

/-! ## Keys that no slot has -/

/-- No group has a slot of this full key. -/
def Lacks (registry : Registry ν) (fullKey : String) : Prop :=
  ∀ (id : Nat) (group : Group ν), registry.groups[id]? = some group →
    ∀ slot ∈ group.slots, slot.fullKey ≠ fullKey

/-- The slot that was taken out was the only one of its key. -/
theorem TookOut.lacks {id : Nat} {group : Group ν} {slot : Slot ν} {rest : List (Slot ν)}
    (h : TookOut registry later fullKey id group slot rest) (hdistinct : registry.Distinct) :
    later.Lacks fullKey := by
  obtain ⟨first, last, hslots, hrest⟩ := h.slots
  intro other changed hchanged new hnew hkey
  rw [h.groups] at hchanged
  obtain ⟨rfl, rfl⟩ | ⟨hne, hsame⟩ := getElem?_set_cases hchanged
  · have hnodup := (hdistinct.named _ group h.found).nodup_keys
    rw [hslots, List.map_append, List.map_cons, List.nodup_middle, ← List.map_append, ← hrest,
      List.nodup_cons] at hnodup
    rw [Group.markReady_slots] at hnew
    exact hnodup.1 (h.key.trans hkey.symm ▸ List.mem_map_of_mem hnew)
  · exact hne (hdistinct.slot_inj hsame h.found hnew h.mem (hkey.trans h.key.symm))

theorem Lacks.descends (h : registry.Lacks fullKey) (hdescends : Descends registry later) :
    later.Lacks fullKey := by
  intro id changed hchanged slot hslot
  obtain ⟨place, group, hgroup, hgroups⟩ := hdescends id changed hchanged
  obtain ⟨old, hold, hprecedes⟩ := hgroups.slots slot hslot
  rw [← hprecedes.fullKey]
  exact h place group hgroup old hold

theorem Lacks.placed {capacity : Nat} {child other : String} (h : registry.Lacks fullKey)
    (hplaced : registry.Placed later capacity child other) (hne : other ≠ fullKey) :
    later.Lacks fullKey := by
  intro id changed hchanged slot hslot
  obtain rfl | ⟨group, hgroup, hold, -⟩ := hplaced.slot_cases hchanged hslot
  · exact hne
  · exact h id group hgroup slot hold

/-- Every slot was reserved in a normal group, whose parent key is in its full key. -/
theorem Distinct.stem (h : registry.Distinct) {id : Nat} {group : Group ν} {slot : Slot ν}
    (hgroup : registry.groups[id]? = some group) (hslot : slot ∈ group.slots) :
    ∃ (place : Nat) (origin : Group ν) (child : String), registry.groups[place]? = some origin ∧
      origin.kind = .normal ∧ slot.fullKey = registry.scheme.fullKey origin.key child := by
  have hnamed := h.named id group hgroup
  have hname : slot.names ∈ group.names := List.mem_map_of_mem hslot
  cases hkind : group.kind with
  | normal => exact ⟨id, group, slot.child, hgroup, hkind, hnamed.children hkind _ hname⟩
  | delayed =>
    obtain ⟨place, origin, child, horigin, hnormal, -, hkey⟩ := h.source id group hgroup hkind
    exact ⟨place, origin, child, horigin, hnormal, (hnamed.own hkind _ hname).trans hkey⟩

/-- The normal group that has a slot is the one whose parent key is in the full key. -/
theorem Distinct.place_of_slot (h : registry.Distinct)
    (hseparator : registry.scheme.separator.isDigit = false) {id place : Nat}
    {group origin : Group ν} {slot : Slot ν} {child : String}
    (hgroup : registry.groups[id]? = some group) (hkind : group.kind = .normal)
    (hslot : slot ∈ group.slots) (horigin : registry.groups[place]? = some origin)
    (hnormal : origin.kind = .normal)
    (hkey : slot.fullKey = registry.scheme.fullKey origin.key child) :
    id = place ∧ slot.child = child := by
  have hname := (h.named id group hgroup).children hkind slot.names (List.mem_map_of_mem hslot)
  exact h.origin_inj hseparator hgroup horigin hkind hnormal (hname.symm.trans hkey)

namespace Routed

/-- A group whose key is the full key of a slot has no slot but that one. -/
theorem empty_of_lacks (h : registry.Routed) (hlacks : registry.Lacks fullKey) {parent : String}
    {child : String} (hkey : fullKey = registry.scheme.fullKey parent child) {id : Nat}
    {group : Group ν} (hgroup : registry.groups[id]? = some group) (hown : group.key = fullKey) :
    group.slots = [] := by
  cases hkind : group.kind with
  | normal =>
    rw [hkey] at hown
    exact absurd hown.symm
      (KeyScheme.fullKey_ne_parent h.separator (h.distinct.isParent_key hgroup hkind))
  | delayed =>
    refine List.eq_nil_iff_forall_not_mem.mpr fun slot hslot => hlacks id group hgroup slot hslot ?_
    exact ((h.distinct.named id group hgroup).own hkind _ (List.mem_map_of_mem hslot)).trans hown

/-- A value for a key that no slot has is refused. The key leads to the group of its parent key, to
the tombstone of that group, or to nothing. -/
theorem store_of_lacks (h : registry.Routed) (hfilled : registry.Filled)
    (hopen : registry.closed = false) (hlacks : registry.Lacks fullKey) {place : Nat}
    {origin : Group ν} {child : String} (horigin : registry.groups[place]? = some origin)
    (hnormal : origin.kind = .normal) (hkey : fullKey = registry.scheme.fullKey origin.key child)
    (value : ν) : registry.store fullKey value =
      { answer := .error (if registry.tombstones.contains origin.key then .aborted origin.key
          else .unknownKey fullKey), registry } := by
  have hdelayed : registry.delayed.find? fullKey = none := by
    cases hfind : registry.delayed.find? fullKey with
    | none => rfl
    | some id =>
      obtain ⟨group, hgroup, -, hown, hslots, -⟩ := h.indexed.lives .delayed hfind
      exact absurd (h.empty_of_lacks hlacks hkey hgroup hown) hslots
  have hmark : registry.tombstones.find? fullKey = none := by
    cases hfind : registry.tombstones.find? fullKey with
    | none => rfl
    | some since =>
      obtain ⟨id, group, hgroup, hown, haborted⟩ := h.marked _ since hfind
      have hslots := h.empty_of_lacks hlacks hkey hgroup hown
      exact absurd (List.length_eq_zero_iff.mpr hslots) (hfilled id group hgroup haborted)
  have hparent : registry.scheme.parentOf? fullKey = some origin.key := by
    rw [hkey]
    exact h.parentOf?_fullKey horigin hnormal child
  cases hfind : registry.normal.find? origin.key with
  | none =>
    refine store_of_find hopen ?_ value
    rw [find]
    simp only [hdelayed, Table.contains, hmark, Option.isSome_none, Bool.false_eq_true, if_false,
      hparent, hfind]
    exact (apply_ite Except.error _ _ _).symm
  | some id =>
    obtain ⟨group, hgroup, -, hown, -, hlive⟩ := h.indexed.lives .normal hfind
    obtain rfl := h.id_of_key hgroup horigin hown
    obtain rfl := Option.some.inj (hgroup.symm.trans horigin)
    have hnone := h.tombstone_of_live hgroup hlive
    have hlookup : registry.lookup fullKey = .ok (id, group) := by
      rw [lookup, find_of_normal hdelayed hmark hparent hfind]
      simp only [hgroup]
    rw [store, if_neg (by simp [hopen]), hlookup]
    simp only [Group.put_of_notMem (hlacks id group hgroup) hlive value, Table.contains, hnone,
      Option.isSome_none, Bool.false_eq_true, if_false]

end Routed

/-- A new group was opened for the slot, under a parent key that no group had. -/
def Opens (registry later : Registry ν) (child fullKey : String) : Prop :=
  ∃ (id : Nat) (group : Group ν), registry.groups[id]? = none ∧ later.groups[id]? = some group ∧
    group.kind = .normal ∧ group.slots = [Slot.reserved child fullKey] ∧
    fullKey = registry.scheme.fullKey group.key child ∧
    ∀ (other : Nat) (old : Group ν), registry.groups[other]? = some old → old.key ≠ group.key

end Registry

namespace Committer

variable {label : String} {settings : Settings} {scheme : KeyScheme}
  {slotBytes : Nat} {unstartable : Option (Sweeper × String)} {start : Committer ν ε}

/-! ## Groups that are complete without the slot -/

/-- The emission of a group that is ready carries the values that it had then. -/
theorem took_of_ready {committer : Committer ν ε} (hs : Staffed committer)
    (ha : Accounted committer) {id : Nat} {group : Group ν}
    (hgroup : committer.registry.groups[id]? = some group) (hready : group.stage = .ready)
    (hunclaimed : group.claimed = false) (more : List (Action ν ε)) {values : List ν}
    (htook : Took (committer.run more) id values) :
    values = group.slots.filterMap Slot.value? := by
  have hfull := ((hs.attended id group hgroup).coherent.full (.inl hready)).2
  induction more using List.reverseRecOn with
  | nil =>
    obtain ⟨same, hsame, hclaimed⟩ := htook.group_claimed hs ha
    rw [Option.some.inj (hsame.symm.trans hgroup), hunclaimed] at hclaimed
    contradiction
  | append_singleton more action ih =>
    rw [run_append] at htook
    have hmove := (committer.run more).move_step action (hs.run more).known
    obtain hearlier | ⟨n, claimed, changed, -, hclaimed, hclaim, -⟩ := htook.before hmove
    · exact ih hearlier
    · obtain ⟨later, hlater, hwith⟩ := group_stays (P := Group.ReadyWith group.slots) hs
        (fun old new hnext hold => hnext.readyWith hold hfull) more hgroup (.inl ⟨hready, rfl⟩)
      obtain rfl := Option.some.inj (hclaimed.symm.trans hlater)
      obtain ⟨hstage, hnot, hvalues, -⟩ := Group.claim?_eq_some hclaim
      obtain ⟨-, hslots⟩ | hclaimed' | haborted := hwith
      · rw [hvalues, hslots]
      · rw [hnot] at hclaimed'
        contradiction
      · rw [hstage] at haborted
        contradiction

section Runs

variable (hstart : (launch label settings scheme slotBytes unstartable).1 = .ok start)

include hstart

/-- If the values of all slots of a group have arrived when it becomes ready, its emission carries
them in their order. -/
theorem emission_of_ready (actions more : List (Action ν ε)) {id : Nat} {group : Group ν}
    (hgroup : (start.run actions).registry.groups[id]? = some group) (hready : group.stage = .ready)
    (hunclaimed : group.claimed = false) {m : Nat} {emission : Emission ν}
    (hemission : ((start.run actions).run more).emissions[m]? = some emission)
    (hid : emission.group = id) :
    List.Forall₂ (fun slot value => slot.value? = some value) group.slots emission.values := by
  have hs : Staffed (start.run actions) := (Staffed.launch hstart).run actions
  have hcoherent := (hs.attended id group hgroup).coherent
  rw [took_of_ready hs (accounted_run hstart actions) hgroup hready hunclaimed more
    (.emitted hemission hid rfl)]
  refine Slot.forall₂_filterMap_value fun slot hslot => ?_
  have hpresent := hcoherent.present hunclaimed slot hslot
    ((hcoherent.full (.inl hready)).2 slot hslot)
  obtain ⟨value, hvalue⟩ := Option.isSome_iff_exists.mp hpresent
  exact ⟨value, hvalue, hvalue⟩

/-! ## Keys in later states -/

/-- A full key that no slot has is had by none until it is reserved. -/
theorem lacks_run (actions more : List (Action ν ε)) {fullKey : String}
    (hlacks : (start.run actions).registry.Lacks fullKey)
    (hnot : ¬ (start.run actions).Reserves more fullKey) :
    (start.run (actions ++ more)).registry.Lacks fullKey := by
  induction more using List.reverseRecOn with
  | nil => rwa [List.append_nil]
  | append_singleton more action ih =>
    have hbefore := ih fun h => hnot (reserves_concat.mpr (.inl h))
    have hs : Staffed (start.run (actions ++ more)) := (Staffed.launch hstart).run _
    rw [← List.append_assoc, run_append]
    by_cases hreserve : ∃ now child, action = .reserve now child
    · obtain ⟨now, child, rfl⟩ := hreserve
      change Registry.Lacks ((start.run (actions ++ more)).reserve now child).2.registry fullKey
      cases hanswer : ((start.run (actions ++ more)).reserve now child).1 with
      | none =>
        rw [reserve_of_none hanswer]
        exact hbefore
      | some answer =>
        cases answer with
        | ok key =>
          refine hbefore.placed (placed_of_reserve hstart _ now child key hanswer) ?_
          rintro rfl
          rw [run_append] at hanswer
          exact hnot (reserves_concat.mpr (.inr ⟨now, child, rfl, hanswer⟩))
        | error failure =>
          rw [reserve_of_error hanswer]
          exact hbefore
    · exact hbefore.descends
        ((hs.deed action).descends fun now child heq => hreserve ⟨now, child, heq⟩)

variable (hseparator : scheme.separator.isDigit = false)

include hseparator

/-- A reservation answers a full key only if the group of its parent key takes reservations, and is
open. -/
theorem place_of_reserved (actions : List (Action ν ε)) {now : Instant} {child fullKey : String}
    (hissued : (start.run (actions ++ [.reserve now child])).registry.issued ≤ scheme.cycle)
    (hanswer : ((start.run actions).reserve now child).1 = some (.ok fullKey)) {place : Nat}
    {origin : Group ν} {name : String}
    (horigin : (start.run actions).registry.groups[place]? = some origin)
    (hnormal : origin.kind = .normal) (hkey : fullKey = scheme.fullKey origin.key name) :
    (start.run actions).registry.current = some place ∧ origin.stage = .opened ∧ child = name := by
  have hs : Staffed (start.run actions) := (Staffed.launch hstart).run actions
  have hplaced := placed_of_reserve hstart actions now child fullKey hanswer
  have hdistinct := distinct_run hstart hseparator _ hissued
  have hscheme := (run_constant hstart (actions ++ [.reserve now child])).2
  obtain ⟨later, hlater, hhead⟩ := head_run hstart actions [.reserve now child] horigin
  -- the reserved slot is in the group that its full key tells
  have hown : ∀ {own : Nat} {changed : Group ν},
      (start.run (actions ++ [.reserve now child])).registry.groups[own]? = some changed →
      changed.kind = .normal → Slot.reserved child fullKey ∈ changed.slots →
      own = place ∧ child = name := fun hchanged hkind hslot =>
    hdistinct.place_of_slot (hscheme ▸ hseparator) hchanged hkind hslot hlater
      (hhead.kind.trans hnormal) (hkey.trans (by rw [hscheme, hhead.key]))
  rw [run_append] at hown
  cases hplaced with
  | @joined own group changed hcurrent hgroup hopen hchanged hslots =>
    have hkind := (named_run hstart actions hgroup).kind_of_opened hopen
    obtain ⟨same, hsame, hhead'⟩ := head_stays hs [.reserve now child] hgroup
    obtain rfl := Option.some.inj (hsame.symm.trans hchanged)
    obtain ⟨rfl, hchild⟩ := hown hchanged (hhead'.kind.trans hkind) (by simp [hslots])
    rw [← Option.some.inj (hgroup.symm.trans horigin)]
    exact ⟨hcurrent, hopen, hchild⟩
  | @founded own changed hnone hfresh hchanged hparent hslots =>
    have hkind : changed.kind = .normal := by
      obtain ⟨hkind, -⟩ := Registry.born_of_reserve hfresh hchanged
      exact hkind
    obtain ⟨rfl, -⟩ := hown hchanged hkind (by simp [hslots])
    rw [hfresh] at horigin
    contradiction

/-- A value for a key that no slot has is refused, and changes nothing. -/
theorem refused_of_lacks (actions : List (Action ν ε))
    (hissued : (start.run actions).registry.issued ≤ scheme.cycle)
    (hopen : (start.run actions).registry.closed = false) {fullKey : String}
    (hlacks : (start.run actions).registry.Lacks fullKey) {place : Nat} {origin : Group ν}
    {name : String} (horigin : (start.run actions).registry.groups[place]? = some origin)
    (hnormal : origin.kind = .normal) (hkey : fullKey = scheme.fullKey origin.key name)
    (value : ν) : (start.run actions).store fullKey value =
      (.error (if (start.run actions).registry.tombstones.contains origin.key
        then .aborted origin.key else .unknownKey fullKey), start.run actions) := by
  have hrouted := routed_run hstart hseparator actions hissued
  rw [← (run_constant hstart actions).2] at hkey
  rw [store, hrouted.store_of_lacks (filled_run hstart actions) hopen hlacks horigin hnormal hkey]
  simp only [absorb_same]

/-- While no group takes reservations, the next one that is accepted opens a group. -/
theorem opens_of_reserve (actions : List (Action ν ε)) {now : Instant} {child fullKey : String}
    (hissued : (start.run (actions ++ [.reserve now child])).registry.issued ≤ scheme.cycle)
    (hanswer : ((start.run actions).reserve now child).1 = some (.ok fullKey))
    (hnone : (start.run actions).registry.current = none) :
    (start.run actions).registry.Opens (start.run (actions ++ [.reserve now child])).registry child
      fullKey := by
  have hdistinct := distinct_run hstart hseparator _ hissued
  have hscheme := (run_constant hstart (actions ++ [.reserve now child])).2
  cases placed_of_reserve hstart actions now child fullKey hanswer with
  | joined hcurrent =>
    rw [hnone] at hcurrent
    contradiction
  | @founded id group _ hfresh hborn _ hslots =>
    obtain ⟨hkind, -⟩ := Registry.born_of_reserve hfresh hborn
    have hgroup : (start.run (actions ++ [.reserve now child])).registry.groups[id]? =
        some group := by
      rw [run_append]
      exact hborn
    refine ⟨id, group, hfresh, hgroup, hkind, hslots, ?_, fun other old hold hkey => ?_⟩
    · rw [(run_constant hstart actions).2, ← hscheme]
      exact (hdistinct.named id group hgroup).children hkind (child, fullKey)
        (by simp [Group.names, hslots, Slot.names, Slot.reserved])
    · obtain ⟨later, hlater, hhead⟩ := head_run hstart actions [.reserve now child] hold
      have hsame : later.key = group.key := hhead.key.trans hkey
      cases hnormal : later.kind with
      | normal =>
        obtain rfl := hdistinct.unique other id later group hlater hgroup hnormal hkind hsame
        rw [hfresh] at hold
        contradiction
      | delayed =>
        obtain ⟨place, origin, name, -, -, -, hname⟩ := hdistinct.source other later hlater hnormal
        exact KeyScheme.fullKey_ne_parent (hscheme ▸ hseparator)
          (hdistinct.isParent_key hgroup hkind) (hname.symm.trans hsame)

/-- The full key of a slot that was in a group is answered again only by a reservation of the same
child in that group, while it is open. -/
theorem regained_of_reserve (actions more : List (Action ν ε)) {now : Instant} {child : String}
    {id : Nat} {group : Group ν} {slot : Slot ν}
    (hgroup : (start.run actions).registry.groups[id]? = some group) (hslot : slot ∈ group.slots)
    (hissued : (start.run (actions ++ more ++ [.reserve now child])).registry.issued ≤ scheme.cycle)
    (hanswer : ((start.run (actions ++ more)).reserve now child).1 = some (.ok slot.fullKey)) :
    (start.run (actions ++ more)).registry.current = some id ∧
      (∃ still, (start.run (actions ++ more)).registry.groups[id]? = some still ∧
        still.stage = .opened) ∧ child = slot.child := by
  have hnamed := named_run hstart actions hgroup
  have hname : slot.names ∈ group.names := List.mem_map_of_mem hslot
  obtain ⟨still, hstill, hhead⟩ := head_run hstart actions more hgroup
  cases hkind : group.kind with
  | normal =>
    obtain ⟨hcurrent, hopen, hchild⟩ := place_of_reserved hstart hseparator _ hissued hanswer hstill
      (hhead.kind.trans hkind) ((hnamed.children hkind _ hname).trans (by rw [hhead.key]))
    exact ⟨hcurrent, ⟨still, hstill, hopen⟩, hchild⟩
  | delayed =>
    -- the slot was moved out of the group that it was reserved in, which is not open any more
    have hdistinct := distinct_run hstart hseparator (actions ++ more)
      (Nat.le_trans (issued_le_of_append hstart hseparator _ _) hissued)
    obtain ⟨place, origin, name, horigin, hnormal, hnot, hkey⟩ :=
      hdistinct.source id still hstill (hhead.kind.trans hkind)
    rw [(run_constant hstart (actions ++ more)).2] at hkey
    have hown : slot.fullKey = group.key := hnamed.own hkind _ hname
    obtain ⟨-, hopen, -⟩ := place_of_reserved hstart hseparator _ hissued hanswer horigin hnormal
      ((hown.trans hhead.key.symm).trans hkey)
    exact absurd hopen hnot

end Runs

/-! ## Removals in a run -/

/-- What a removal did that succeeded, and what follows from it. The slot of the full key was the
only one that was taken out, and `rest` are the slots that are left in its group. -/
structure Removal (scheme : KeyScheme) (committer after : Committer ν ε) (fullKey : String)
    (id : Nat) (group : Group ν) (slot : Slot ν) (rest : List (Slot ν)) : Prop where
  taken : Registry.TookOut committer.registry after.registry fullKey id group slot rest
  /-- A group that lost its last slot is not registered any more, and is never emitted. -/
  discarded : rest = [] → ∀ more : List (Action ν ε),
    ¬ (after.run more).registry.Registered id ∧ Unemitted (after.run more).emissions id
  /-- If it took the reservations, the next one that is accepted opens a group. -/
  reopened : rest = [] → committer.registry.current = some id →
    ∀ (more : List (Action ν ε)) (now : Instant) (child key : String),
      (after.run (more ++ [.reserve now child])).registry.issued ≤ scheme.cycle →
      (∀ other, ¬ after.Reserves more other) →
      ((after.run more).reserve now child).1 = some (.ok key) →
      (after.run more).registry.Opens (after.run (more ++ [.reserve now child])).registry child key
  /-- A group whose size was fixed, and which waits for none of the slots that are left, is ready at
  once. If it is emitted, then with their values. -/
  completed : group.stage = .sizeFixed → rest ≠ [] → (∀ slot ∈ rest, slot.isReady = true) →
    after.registry.groups[id]? = some { group with slots := rest, stage := .ready } ∧
    ∀ (more : List (Action ν ε)) (m : Nat) (emission : Emission ν),
      (after.run more).emissions[m]? = some emission → emission.group = id →
      List.Forall₂ (fun slot value => slot.value? = some value) rest emission.values
  /-- Until the full key is reserved again, a value for it is refused: it is unknown, unless the
  group of its parent key was aborted and that is remembered. -/
  refused : ∃ parent, scheme.parentOf? fullKey = some parent ∧ ∀ more : List (Action ν ε),
    (after.run more).registry.issued ≤ scheme.cycle → (after.run more).registry.closed = false →
    ¬ after.Reserves more fullKey → ∀ value : ν, (after.run more).store fullKey value =
      (.error (if (after.run more).registry.tombstones.contains parent then .aborted parent
        else .unknownKey fullKey), after.run more)
  /-- It is only reserved again as a slot of the same child in the same group, which is open. -/
  regained : ∀ (more : List (Action ν ε)) (now : Instant) (child : String),
    (after.run (more ++ [.reserve now child])).registry.issued ≤ scheme.cycle →
    ((after.run more).reserve now child).1 = some (.ok fullKey) →
    (after.run more).registry.current = some id ∧
      (∃ still, (after.run more).registry.groups[id]? = some still ∧ still.stage = .opened) ∧
        child = slot.child

/-- What follows from the removal follows from its taking out that one slot. -/
theorem removal_of_took
    (hstart : (launch label settings scheme slotBytes unstartable).1 = .ok start)
    (hseparator : scheme.separator.isDigit = false) (actions : List (Action ν ε))
    (hissued : (start.run actions).registry.issued ≤ scheme.cycle) {fullKey : String} {id : Nat}
    {group : Group ν} {slot : Slot ν} {rest : List (Slot ν)}
    (htook : Registry.TookOut (start.run actions).registry
      (start.run (actions ++ [.remove fullKey])).registry fullKey id group slot rest) :
    Removal scheme (start.run actions) (start.run (actions ++ [.remove fullKey])) fullKey id group
      slot rest where
  taken := htook
  discarded := by
    rintro rfl more
    obtain ⟨still, hstill, hempty⟩ := empty_run hstart _ more htook.getElem? (by simp)
    rw [← run_append]
    exact lost_of_empty hstart hstill hempty
  reopened hnone hcurrent more now child key hcycle hnot hanswer := by
    have hlost : (start.run (actions ++ [.remove fullKey])).registry.current = none :=
      (htook.left hnone).2.trans (if_pos hcurrent)
    have hstill := current_none_run ((Staffed.launch hstart).run _) more hnot hlost
    rw [← run_append] at hcycle hanswer hstill ⊢
    rw [← run_append, ← List.append_assoc]
    rw [← List.append_assoc] at hcycle
    exact opens_of_reserve hstart hseparator _ hcycle hanswer hstill
  completed hfixed hsome hready := by
    have hs : Staffed (start.run actions) := (Staffed.launch hstart).run actions
    have hunclaimed : group.claimed = false :=
      (hs.attended id group htook.found).coherent.not_claimed (by simp [hfixed]) (by simp [hfixed])
    have hcomplete : ({ group with slots := rest } : Group ν).isComplete = true :=
      Group.isComplete_iff.mpr ⟨hfixed, hsome, hready⟩
    have hlater := htook.getElem?
    rw [Group.markReady, if_pos hcomplete] at hlater
    exact ⟨hlater, fun more m emission hemission hid =>
      emission_of_ready hstart _ more hlater rfl hunclaimed hemission hid⟩
  refused := by
    have hrouted := routed_run hstart hseparator actions hissued
    obtain ⟨place, origin, name, horigin, hnormal, hkey⟩ :=
      hrouted.distinct.stem htook.found htook.mem
    have hparent := hrouted.parentOf?_fullKey horigin hnormal name
    rw [← hkey] at hparent
    rw [htook.key, (run_constant hstart actions).2] at hparent hkey
    refine ⟨origin.key, hparent, fun more hcycle hopen hnot value => ?_⟩
    have hlacks := lacks_run hstart _ more (htook.lacks hrouted.distinct) hnot
    obtain ⟨later, hlater, hhead⟩ := head_run hstart actions (.remove fullKey :: more) horigin
    rw [List.append_cons] at hlater
    rw [← run_append] at hcycle hopen ⊢
    rw [← hhead.key] at hkey ⊢
    exact refused_of_lacks hstart hseparator _ hcycle hopen hlacks hlater
      (hhead.kind.trans hnormal) hkey value
  regained more now child hcycle hanswer := by
    rw [← run_append] at hcycle hanswer ⊢
    rw [← List.append_assoc] at hcycle
    rw [List.append_assoc actions] at hcycle hanswer ⊢
    exact regained_of_reserve hstart hseparator actions _ htook.found htook.mem hcycle
      (by rw [htook.key, hanswer])

/-- A removal succeeds exactly if the committer is not closed and the full key is that of a slot
without a value, in a registered group that is open or whose size is fixed. It takes out that slot
alone; what becomes of the group and of the key is in `Removal`. -/
theorem removal_of_slot
    (hstart : (launch label settings scheme slotBytes unstartable).1 = .ok start)
    (hseparator : scheme.separator.isDigit = false) (actions : List (Action ν ε))
    (hissued : (start.run actions).registry.issued ≤ scheme.cycle) (fullKey : String) :
    (((start.run actions).remove fullKey).1 = .ok () ↔
      (start.run actions).registry.closed = false ∧ ∃ id group slot,
        (start.run actions).registry.Registered id ∧
        (start.run actions).registry.groups[id]? = some group ∧
        (group.stage = .opened ∨ group.stage = .sizeFixed) ∧ slot ∈ group.slots ∧
        slot.fullKey = fullKey ∧ slot.isReady = false) ∧
    (((start.run actions).remove fullKey).1 = .ok () → ∃ id group slot rest,
      Removal scheme (start.run actions) (start.run (actions ++ [.remove fullKey])) fullKey id group
        slot rest) := by
  have hrouted := routed_run hstart hseparator actions hissued
  refine ⟨hrouted.remove_ok_iff fullKey, fun hok => ?_⟩
  obtain ⟨-, id, group, slot, rest, htook⟩ := Registry.tookOut_of_remove hrouted.indexed hok
  refine ⟨id, group, slot, rest, removal_of_took hstart hseparator actions hissued ?_⟩
  rw [run_append]
  exact htook

/-- One of two values has arrived. -/
def halfway : List (Action Nat Unit) := [.reserve 0 "a", .reserve 0 "b", .store "0000:a" 1]

/-- The slot of the other value is taken out. The group is ready at once, and a value for the slot
is refused. -/
theorem removal_from_pair :
    ((launch "pairs" { Settings.default with slotCapacity := 2 } {} 72 none).1 = .ok pairs ∧
      ({} : KeyScheme).separator.isDigit = false ∧
      (pairs.run halfway).registry.issued ≤ ({} : KeyScheme).cycle) ∧
    ((pairs.run halfway).remove "0000:b").1 = .ok () ∧
    (pairs.run (halfway ++ [.remove "0000:b"])).registry.groups[0]?.map Group.stage =
      some .ready ∧
    (pairs.run (halfway ++ [.remove "0000:b"])).store "0000:b" 2 =
      (.error (.unknownKey "0000:b"), pairs.run (halfway ++ [.remove "0000:b"])) := by
  have hstart : (launch "pairs" { Settings.default with slotCapacity := 2 } {} 72 none).1 =
      .ok pairs := rfl
  have hseparator : ({} : KeyScheme).separator.isDigit = false := by decide
  have hissued : (pairs.run halfway).registry.issued ≤ ({} : KeyScheme).cycle := by decide +kernel
  obtain ⟨hiff, hremoval⟩ := removal_of_slot hstart hseparator _ hissued "0000:b"
  have hok := hiff.mpr ⟨rfl, 0, _, { child := "b", fullKey := "0000:b" },
    .inl ⟨"0000", by decide +kernel⟩, rfl, .inr rfl, .tail _ (.head _), rfl, rfl⟩
  obtain ⟨_, _, _, _, h⟩ := hremoval hok
  obtain ⟨_, -, hrefused⟩ := h.refused
  exact ⟨⟨hstart, hseparator, hissued⟩, hok, rfl,
    hrefused [] (by decide +kernel) rfl (fun ⟨_, _, _, hnone, _⟩ => by contradiction) 2⟩

end Committer

end BatchedCommit
