import BatchedCommit.Proofs.Tombstones

/-!
# BatchedCommit.Proofs.Malformed

Keys that do not come apart into a parent key and a child key. They name no slot, and no delayed
group, so a call with one of them is refused. It should be refused as a malformed one; but a look-up
reads the tombstones before it takes the key apart, because the slot of an aborted delayed group may
have a parent that is still live, and the same table holds the parent keys of the normal groups that
were aborted. Such a key does not come apart, and is answered with the end of its group
(`Committer.malformed_key_refused`).
-/

namespace BatchedCommit

variable {ν ε : Type}

namespace Registry

variable {registry : Registry ν} {key : String}

/-- A key that does not come apart is refused, unless it is that of a delayed group. -/
theorem find_of_malformed (hdelayed : registry.delayed.find? key = none)
    (hkey : registry.scheme.parentOf? key = none) : registry.find key =
      .error (if registry.tombstones.contains key then .aborted key else .invalidKey key) := by
  cases hmarked : registry.tombstones.contains key <;> simp [find, hdelayed, hkey, hmarked]

namespace Routed

variable {id : Nat} {group : Group ν}

/-- The key of a delayed group comes apart, so one that does not is that of a normal group. -/
theorem normal_of_malformed (h : registry.Routed) (hgroup : registry.groups[id]? = some group)
    (hkey : registry.scheme.parentOf? group.key = none) : group.kind = .normal := by
  cases hkind : group.kind with
  | normal => rfl
  | delayed =>
    obtain ⟨place, origin, child, horigin, hnormal, -, hname⟩ :=
      h.distinct.source id group hgroup hkind
    rw [hname, h.parentOf?_fullKey horigin hnormal] at hkey
    contradiction

/-- No delayed group is registered under a key that does not come apart. -/
theorem delayed_of_malformed (h : registry.Routed) (hkey : registry.scheme.parentOf? key = none) :
    registry.delayed.find? key = none := by
  cases hfind : registry.delayed.find? key with
  | none => rfl
  | some id =>
    obtain ⟨group, hgroup, hkind, rfl, -⟩ := h.indexed.lives .delayed hfind
    rw [h.normal_of_malformed hgroup hkey] at hkind
    contradiction

/-- A tombstone under a key that does not come apart is that of a normal group. -/
theorem aborted_of_malformed (h : registry.Routed) (hkey : registry.scheme.parentOf? key = none)
    {since : Instant} (hfind : registry.tombstones.find? key = some since) :
    ∃ (id : Nat) (group : Group ν), registry.groups[id]? = some group ∧ group.kind = .normal ∧
      group.key = key ∧ group.stage = .aborted := by
  obtain ⟨id, group, hgroup, rfl, hstage⟩ := h.marked key since hfind
  exact ⟨id, group, hgroup, h.normal_of_malformed hgroup hkey, rfl, hstage⟩

/-- A slot has a key that comes apart. -/
theorem ne_of_malformed (h : registry.Routed) (hkey : registry.scheme.parentOf? key = none)
    (hgroup : registry.groups[id]? = some group) {slot : Slot ν} (hslot : slot ∈ group.slots) :
    slot.fullKey ≠ key := by
  rintro rfl
  cases hkind : group.kind with
  | normal =>
    rw [KeyScheme.parentOf?, h.split?_slot hgroup hkind hslot] at hkey
    contradiction
  | delayed =>
    have hown : slot.fullKey = group.key :=
      (h.distinct.named id group hgroup).own hkind _ (List.mem_map_of_mem hslot)
    rw [hown] at hkey
    rw [h.normal_of_malformed hgroup hkey] at hkind
    contradiction

end Routed

end Registry

namespace Committer

variable {label : String} {settings : Settings} {scheme : KeyScheme}
  {slotBytes : Nat} {unstartable : Option (Sweeper × String)} {start : Committer ν ε}

/-- In every reachable state that is open, a key that does not come apart is that of no slot, and a
value for it or its removal is refused and changes nothing: as malformed if there is no tombstone
for the key, and as aborted if there is one. In that case it is the parent key of a normal group
that was aborted. -/
theorem malformed_key_refused
    (hstart : (launch label settings scheme slotBytes unstartable).1 = .ok start)
    (hseparator : scheme.separator.isDigit = false) (actions : List (Action ν ε))
    (hissued : (start.run actions).registry.issued ≤ scheme.cycle)
    (hopen : (start.run actions).registry.closed = false) {key : String}
    (hkey : scheme.parentOf? key = none) (value : ν) :
    (∀ (id : Nat) (group : Group ν), (start.run actions).registry.groups[id]? = some group →
      ∀ slot ∈ group.slots, slot.fullKey ≠ key) ∧
    ((start.run actions).registry.tombstones.find? key = none →
      (start.run actions).store key value = (.error (.invalidKey key), start.run actions) ∧
        (start.run actions).remove key = (.error (.invalidKey key), start.run actions)) ∧
    (∀ since, (start.run actions).registry.tombstones.find? key = some since →
      (start.run actions).store key value = (.error (.aborted key), start.run actions) ∧
        (start.run actions).remove key = (.error (.aborted key), start.run actions) ∧
        ∃ (id : Nat) (group : Group ν), (start.run actions).registry.groups[id]? = some group ∧
          group.kind = .normal ∧ group.key = key ∧ group.stage = .aborted) := by
  have hrouted := routed_run hstart hseparator actions hissued
  rw [← (run_constant hstart actions).2] at hkey
  have hfind := Registry.find_of_malformed (hrouted.delayed_of_malformed hkey) hkey
  refine ⟨fun id group hgroup slot hslot => hrouted.ne_of_malformed hkey hgroup hslot,
    fun hnone => ?_, fun since hsome => ?_⟩
  · rw [Table.contains, hnone] at hfind
    exact refused_of_find hopen hfind value
  · rw [Table.contains, hsome] at hfind
    obtain ⟨hstore, hremove⟩ := refused_of_find hopen hfind value
    exact ⟨hstore, hremove, hrouted.aborted_of_malformed hkey hsome⟩

/-- A group of one slot is aborted at 100 s. Its own key is refused as aborted then, and every other
key without a separator as malformed. -/
theorem keys_without_separator_in_pair :
    ((launch "pairs" { Settings.default with slotCapacity := 2 } {} 72 none).1 = .ok pairs ∧
      ({} : KeyScheme).separator.isDigit = false ∧
      (pairs.run [.reserve 0 "a", .sweep .abort 100000]).registry.issued ≤
        ({} : KeyScheme).cycle ∧
      (pairs.run [.reserve 0 "a", .sweep .abort 100000]).registry.closed = false ∧
      ({} : KeyScheme).parentOf? "0000" = none ∧ ({} : KeyScheme).parentOf? "0001" = none) ∧
    ((pairs.run [.reserve 0 "a", .sweep .abort 100000]).remove "0000").1 =
      .error (.aborted "0000") ∧
    ((pairs.run [.reserve 0 "a", .sweep .abort 100000]).remove "0001").1 =
      .error (.invalidKey "0001") := by
  have hstart : (launch "pairs" { Settings.default with slotCapacity := 2 } {} 72 none).1 =
      .ok pairs := rfl
  have hseparator : ({} : KeyScheme).separator.isDigit = false := by decide
  have hissued : (pairs.run [.reserve 0 "a", .sweep .abort 100000]).registry.issued ≤
      ({} : KeyScheme).cycle := by decide +kernel
  have hopen : (pairs.run [.reserve 0 "a", .sweep .abort 100000]).registry.closed = false := by
    decide +kernel
  have hown : ({} : KeyScheme).parentOf? "0000" = none := by decide +kernel
  have hother : ({} : KeyScheme).parentOf? "0001" = none := by decide +kernel
  have haborted := (malformed_key_refused hstart hseparator _ hissued hopen hown 1).2.2 100000
    (by decide +kernel)
  have hmalformed := (malformed_key_refused hstart hseparator _ hissued hopen hother 1).2.1
    (by decide +kernel)
  exact ⟨⟨hstart, hseparator, hissued, hopen, hown, hother⟩, congrArg Prod.fst haborted.2.1,
    congrArg Prod.fst hmalformed.2⟩

/-- Not every key that does not come apart is refused as malformed: after a group was aborted, a
value for its parent key is refused with the outcome of that group. -/
theorem parent_key_refused_as_aborted :
    (pairs.run [.reserve 0 "a", .sweep .abort 100000]).registry.closed = false ∧
    ({} : KeyScheme).parentOf? "0000" = none ∧
    ((pairs.run [.reserve 0 "a", .sweep .abort 100000]).store "0000" 1).1 ≠
      .error (.invalidKey "0000") ∧
    ((pairs.run [.reserve 0 "a", .sweep .abort 100000]).store "0000" 1).1 =
      .error (.aborted "0000") ∧
    (Failure.aborted "0000").isShared = true ∧ (Failure.invalidKey "0000").isShared = false := by
  decide +kernel

end Committer

end BatchedCommit
