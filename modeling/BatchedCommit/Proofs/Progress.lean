import BatchedCommit.Proofs.Deeds
import BatchedCommit.Proofs.Naming

/-!
# BatchedCommit.Proofs.Progress

No group is ever stuck (`Committer.no_stuck_group`). A group of fixed size that misses no value
is *complete*, and whatever may complete a group — a value, a removal, the end of the time for
reservations, a relocation — makes it ready at once: no change leaves a complete group behind
(`Group.Next.not_complete`).
-/

namespace BatchedCommit

variable {ν ε : Type}

/-! ## Complete groups are ready -/

namespace Group

variable {scheme : KeyScheme} {group changed : Group ν}

theorem not_complete_of_stage (h : group.stage ≠ .sizeFixed) : group.isComplete = false := by
  cases hcomplete : group.isComplete with
  | false => rfl
  | true => exact absurd (isComplete_iff.mp hcomplete).1 h

theorem not_complete_markReady (group : Group ν) : group.markReady.isComplete = false := by
  rw [markReady]
  split
  · exact not_complete_of_stage (by simp)
  · next h => rwa [Bool.not_eq_true] at h

/-- A slot that was just reserved misses its value, so a reservation completes no group. -/
theorem not_complete_of_reserve {now : Instant} {child fullKey : String}
    (h : group.reserve now child fullKey = .ok changed) : changed.isComplete = false := by
  cases hcomplete : changed.isComplete with
  | false => rfl
  | true =>
    have hready := (isComplete_iff.mp hcomplete).2.2
    rw [(reserve_eq_ok h).2.2] at hready
    have hlast := hready (Slot.reserved child fullKey) (by simp)
    contradiction

/-- No quiet change leaves a complete group behind, where there are all emit keys. -/
theorem Quiet.not_complete (hscheme : scheme.Derivable)
    (h : Quiet scheme group changed) : changed.isComplete = false := by
  cases h with
  | reserve now child h => exact not_complete_of_reserve h
  | remove fullKey h => exact not_complete_markReady _
  | fixSize now h => exact not_complete_markReady _
  | relieve now window h hmovable => exact not_complete_markReady _
  | strip now window h hmovable =>
    rw [isMovable_of_derivable hscheme] at hmovable
    contradiction
  | expire key h =>
    rw [abort, if_pos h]
    exact not_complete_of_stage (by simp)
  | close h =>
    rw [abort, if_pos h]
    exact not_complete_of_stage (by simp)

theorem Shifts.not_complete (hscheme : scheme.Derivable)
    (h : Shifts scheme group changed) (hgroup : group.isComplete = false) :
    changed.isComplete = false :=
  h.keep (P := fun other => other.isComplete = false)
    (fun _ _ hquiet _ => hquiet.not_complete hscheme) hgroup

/-- A group that is complete is ready already: whatever completes it makes it ready. -/
theorem Next.not_complete (hscheme : scheme.Derivable)
    (h : Next scheme group changed) (hgroup : group.isComplete = false) :
    changed.isComplete = false := by
  cases h with
  | quiet h => exact h.not_complete hscheme hgroup
  | store fullKey value h => exact not_complete_markReady _
  | claim values h =>
    obtain ⟨hstage, -, -, rfl⟩ := claim?_eq_some h
    exact not_complete_of_stage (by simp [hstage])
  | finish verdict hstage hclaimed => exact not_complete_of_stage (by simp [Group.finish])

theorem Newborn.not_complete {capacity : Nat} (h : Newborn scheme capacity group) :
    group.isComplete = false := by
  cases h with
  | normal index now child h => exact not_complete_of_reserve h
  | delayed slot emitKey createdAt now hready hemit =>
    cases hcomplete : (Group.delayed slot emitKey createdAt now).isComplete with
    | false => rfl
    | true =>
      have hall := (isComplete_iff.mp hcomplete).2.2 slot (List.mem_singleton_self slot)
      rw [hall] at hready
      contradiction

/-- A group that has not become ready yet does not become done in one step. -/
theorem Next.stage_ne_done (h : Next scheme group changed)
    (hmutable : group.stage.isMutable = true) : changed.stage ≠ .done := by
  intro hdone
  have hnot : ∀ {stage : Stage}, group.stage = stage → stage.isMutable = true := by
    intro stage hstage
    rw [← hstage, hmutable]
  cases h with
  | quiet h =>
    rw [h.eq_of_done hdone] at hdone
    exact absurd (hnot hdone) (by decide)
  | @store changed fullKey value h =>
    obtain ⟨-, _, _, _, -, -, -, -, hchanged⟩ := put_eq_ok h
    rw [markReady] at hdone
    split at hdone
    · contradiction
    · rw [hchanged] at hdone
      exact absurd (hnot hdone) (by decide)
  | claim values h => exact absurd (hnot (claim?_eq_some h).1) (by decide)
  | finish verdict hstage hclaimed => exact absurd (hnot hstage) (by decide)

end Group

/-! ## No group is stuck -/

namespace Committer

/-- In every reachable state a registered group has slots and was not aborted, and one of fixed
size misses a value; a ready group misses none; a registered delayed group holds exactly one
slot, named by its key in the index. And a group that was not ready before a step, but whose
size is fixed and which misses no value after it, is ready after it. -/
theorem no_stuck_group {label : String} {settings : Settings} {scheme : KeyScheme}
    {slotBytes : Nat} {unstartable : Option (Sweeper × String)} {start : Committer ν ε}
    (hstart : (launch label settings scheme slotBytes unstartable).1 = .ok start)
    (hscheme : scheme.Derivable) (actions : List (Action ν ε)) :
    (∀ id, (start.run actions).registry.Registered id → ∃ group : Group ν,
      (start.run actions).registry.groups[id]? = some group ∧ group.slots ≠ [] ∧
        group.stage ≠ .aborted ∧
        (group.stage = .sizeFixed → ∃ slot ∈ group.slots, slot.isReady = false)) ∧
    (∀ (id : Nat) (group : Group ν), (start.run actions).registry.groups[id]? = some group →
      group.stage = .ready → ∀ slot ∈ group.slots, slot.isReady = true) ∧
    (∀ key id, (start.run actions).registry.delayed.find? key = some id →
      ∃ (group : Group ν) (slot : Slot ν),
        (start.run actions).registry.groups[id]? = some group ∧ group.kind = .delayed ∧
          group.slots = [slot] ∧ slot.fullKey = key) ∧
    (∀ (action : Action ν ε) (id : Nat) (group changed : Group ν),
      (start.run actions).registry.groups[id]? = some group →
      ((start.run actions).step action).registry.groups[id]? = some changed →
      group.stage.isMutable = true → changed.stage ≠ .opened → changed.stage ≠ .aborted →
      changed.slots ≠ [] → (∀ slot ∈ changed.slots, slot.isReady = true) →
      changed.stage = .ready) := by
  have hs : Staffed (start.run actions) := (Staffed.launch hstart).run actions
  have hindexed : (start.run actions).registry.Indexed := by
    refine indexed_run ?_ actions
    rw [(launch_eq_ok hstart).2.1]
    exact ⟨fun entry hentry => by contradiction, fun entry hentry => by contradiction⟩
  have hcomplete : ∀ (actions : List (Action ν ε)) (id : Nat) (group : Group ν),
      (start.run actions).registry.groups[id]? = some group → group.isComplete = false :=
    group_invariant hstart (fun _ hborn => hborn.not_complete)
      (fun _ _ hnext hgroup => hnext.not_complete hscheme hgroup)
  refine ⟨fun id hid => ?_, fun id group hgroup hstage => ?_, fun key id hfind => ?_,
    fun action id group changed hgroup hchanged hmutable hopened haborted hslots hready => ?_⟩
  · obtain ⟨group, hgroup, hslots, hstage⟩ := hindexed.of_registered hid
    refine ⟨group, hgroup, hslots, hstage, fun hfixed => ?_⟩
    by_contra hnone
    push Not at hnone
    have htrue : group.isComplete = true :=
      Group.isComplete_iff.mpr ⟨hfixed, hslots, fun slot hslot => by simpa using hnone slot hslot⟩
    rw [hcomplete actions id group hgroup] at htrue
    contradiction
  · exact ((hs.attended id group hgroup).coherent.full (.inl hstage)).2
  · obtain ⟨group, hgroup, hkind, hkey, hslots, -⟩ :=
      hindexed.delayed _ ((Table.find?_eq_some_iff _ key id).mp hfind)
    have hnamed : group.Named scheme := named_run hstart actions hgroup
    have hsingle : group.slots.length ≤ 1 := by
      simpa [Group.names] using hnamed.single hkind
    obtain ⟨slot, hslot⟩ : ∃ slot, group.slots = [slot] := by
      refine List.length_eq_one_iff.mp (Nat.le_antisymm hsingle ?_)
      exact List.length_pos_iff.mpr hslots
    refine ⟨group, slot, hgroup, hkind, hslot, ?_⟩
    have hown := hnamed.own hkind slot.names (by simp [Group.names, hslot])
    exact hown.trans hkey
  · have hmove : Move (start.run actions) action ((start.run actions).step action) :=
      (start.run actions).move_step action hs.known
    obtain ⟨other, hother, hnext⟩ := hs.next hmove hgroup
    rw [Option.some.inj (hother.symm.trans hchanged)] at hnext
    have hdone : changed.stage ≠ .done := hnext.stage_ne_done hmutable
    have hnot : changed.isComplete = false := by
      refine hcomplete (actions ++ [action]) id changed ?_
      rw [run_append]
      exact hchanged
    cases hstage : changed.stage with
    | ready => rfl
    | opened => contradiction
    | done => contradiction
    | aborted => contradiction
    | sizeFixed =>
      rw [Group.isComplete_iff.mpr ⟨hstage, hslots, hready⟩] at hnot
      contradiction

/-- A value arrives for one of two slots, the other one is relocated: it has a group of its own,
which is found under its full key. -/
theorem relocated_slot_of_pair :
    ((launch "pairs" { Settings.default with slotCapacity := 2 } {} 72 none).1 = .ok pairs ∧
      ({} : KeyScheme).Derivable) ∧
    ∃ (group : Group Nat) (slot : Slot Nat),
      (pairs.run [.reserve 0 "a", .reserve 0 "b", .store "0000:a" 1,
        .sweep .relocate 5000]).registry.groups[1]? = some group ∧ group.kind = .delayed ∧
        group.slots = [slot] ∧ slot.fullKey = "0000:b" := by
  have hstart : (launch "pairs" { Settings.default with slotCapacity := 2 } {} 72 none).1 =
      .ok pairs := rfl
  have hscheme : ({} : KeyScheme).Derivable := KeyScheme.derivable_of_prefixed rfl
  have hfind : (pairs.run [.reserve 0 "a", .reserve 0 "b", .store "0000:a" 1,
      .sweep .relocate 5000]).registry.delayed.find? "0000:b" = some 1 := by decide +kernel
  exact ⟨⟨hstart, hscheme⟩, (no_stuck_group hstart hscheme _).2.2.1 _ _ hfind⟩

end Committer

end BatchedCommit
