import BatchedCommit.Proofs.Ledger

/-!
# BatchedCommit.Proofs.Emptied

A group without slots. Reservations join the group that takes them, which has a slot already, and
whatever else changes a group finds it registered; so a group that has lost its last slot never has
one again (`Registry.Entry.stays_empty`). It is not registered any more, and it is never emitted
(`Committer.lost_of_empty`).

If it was the group that took reservations, no group takes them until the next one is accepted
(`Committer.current_none_run`).
-/

namespace BatchedCommit

variable {ν ε : Type}

namespace Registry

open BatchedCommit.Group (slotCount)

variable {registry later : Registry ν} {sound : Bool} {action : Action ν ε}

/-! ## Groups without slots -/

/-- A group without slots is not the one that was replaced. -/
theorem getElem?_of_empty {id own : Nat} {group old new : Group ν} {made : Array (Group ν)}
    (hgroup : registry.groups[id]? = some group) (hempty : group.slotCount = 0)
    (hold : registry.groups[own]? = some old) (hsome : old.slotCount ≠ 0)
    (hgroups : later.groups = registry.groups.setIfInBounds own new ++ made) :
    later.groups[id]? = some group := by
  have hne : own ≠ id := by
    rintro rfl
    rw [Option.some.inj (hold.symm.trans hgroup)] at hsome
    exact hsome hempty
  have hlt := (Array.getElem?_eq_some_iff.mp hgroup).1
  rw [hgroups, Array.getElem?_append_left (by simpa using hlt), Array.getElem?_setIfInBounds_ne hne,
    hgroup]

/-- A group that has no slots gets none. -/
theorem Entry.stays_empty (h : Entry sound registry action later) {id : Nat} {group : Group ν}
    (hgroup : registry.groups[id]? = some group) (hempty : group.slotCount = 0) :
    ∃ changed, later.groups[id]? = some changed ∧ changed.slotCount = 0 := by
  have hframe : later.groups = registry.groups →
      ∃ changed, later.groups[id]? = some changed ∧ changed.slotCount = 0 := fun hgroups =>
    ⟨group, by rw [hgroups, hgroup], hempty⟩
  have hset : ∀ {own : Nat} {old new : Group ν}, registry.groups[own]? = some old →
      old.slotCount ≠ 0 → later.groups = registry.groups.setIfInBounds own new →
      ∃ changed, later.groups[id]? = some changed ∧ changed.slotCount = 0 :=
    fun hold hsome hgroups => ⟨group, getElem?_of_empty hgroup hempty hold hsome
      (hgroups.trans Array.append_empty.symm), hempty⟩
  cases h with
  | frame h => exact hframe h.groups
  | @alter _ _ own old changed hold _ _ hslots h =>
    by_cases hown : own = id
    · subst hown
      obtain rfl := Option.some.inj (hold.symm.trans hgroup)
      refine ⟨changed, ?_, by rw [hslots, hempty]⟩
      rw [h.groups]
      exact Array.getElem?_setIfInBounds_self_of_lt (Array.getElem?_eq_some_iff.mp hold).1
    · refine ⟨group, ?_, hempty⟩
      rw [h.groups, Array.getElem?_setIfInBounds_ne hown, hgroup]
  | reserve hold _ _ hsome _ h => exact hset hold hsome h.groups
  | opened _ _ h =>
    have hlt := (Array.getElem?_eq_some_iff.mp hgroup).1
    refine ⟨group, ?_, hempty⟩
    rw [h.groups, Array.getElem?_push_lt hlt]
    exact (Array.getElem?_eq_getElem hlt).symm.trans hgroup
  | remove hold _ _ _ hslots h => exact hset hold (by omega) h.groups
  | discard hold _ _ _ hone h => exact hset hold (by omega) h.groups
  | relieve hold _ _ hsome _ hslots h =>
    exact ⟨group, getElem?_of_empty hgroup hempty hold (by omega) h.groups, hempty⟩
  | lose _ hsize hspares h =>
    have hlt := (Array.getElem?_eq_some_iff.mp hgroup).1
    have hchanged := Array.getElem?_eq_getElem (hsize ▸ hlt)
    rw [h.groups]
    obtain ⟨old, hold, heq | ⟨hheld, -⟩⟩ := hspares.before hsize hchanged
    · obtain rfl := Option.some.inj (hold.symm.trans hgroup)
      exact ⟨_, hchanged, by rwa [heq]⟩
    · obtain rfl := Option.some.inj (hold.symm.trans hgroup)
      exact absurd hempty (live_leftBehind registry.scheme hheld).2.2.1
  | expire hold _ hsome h => exact hset hold hsome h.groups
  | abandon hold _ hsome h => exact hset hold hsome h.groups
  | panic h => exact hframe h.groups
  | finish hold _ hsome h => exact hset hold hsome h.groups
  | emitted h => exact hframe h.groups
  | failed h => exact hframe h.groups
  | missing h => exact hframe h.groups

theorem Entries.stays_empty (h : Entries sound action registry later) {id : Nat} {group : Group ν}
    (hgroup : registry.groups[id]? = some group) (hempty : group.slotCount = 0) :
    ∃ changed, later.groups[id]? = some changed ∧ changed.slotCount = 0 := by
  induction h with
  | refl => exact ⟨group, hgroup, hempty⟩
  | tail _ hentry ih =>
    obtain ⟨middle, hmiddle, hstill⟩ := ih
    exact hentry.stays_empty hmiddle hstill

/-! ## Groups that were aborted -/

/-- Every group that was aborted has slots. -/
def Filled (registry : Registry ν) : Prop :=
  ∀ (id : Nat) (group : Group ν), registry.groups[id]? = some group → group.stage = .aborted →
    group.slotCount ≠ 0

namespace Filled

/-- A group was replaced, and groups were added that are alive. -/
theorem grow {own : Nat} {new : Group ν} {made : Array (Group ν)} (h : registry.Filled)
    (hnew : new.stage = .aborted → new.slotCount ≠ 0)
    (hmade : ∀ (i : Nat) (other : Group ν), made[i]? = some other → other.stage ≠ .aborted)
    (hgroups : later.groups = registry.groups.setIfInBounds own new ++ made) : later.Filled := by
  intro id group hgroup haborted
  rw [hgroups, Array.getElem?_append] at hgroup
  split at hgroup
  · obtain ⟨-, rfl⟩ | ⟨-, hold⟩ := getElem?_set_cases hgroup
    · exact hnew haborted
    · exact h id group hold haborted
  · exact absurd haborted (hmade _ group hgroup)

theorem set {own : Nat} {new : Group ν} (h : registry.Filled)
    (hnew : new.stage = .aborted → new.slotCount ≠ 0)
    (hgroups : later.groups = registry.groups.setIfInBounds own new) : later.Filled :=
  h.grow hnew (fun i other hother => by contradiction) (hgroups.trans Array.append_empty.symm)

end Filled

theorem not_aborted_of_live {group : Group ν} (hlive : group.stage.isTerminal = false) :
    group.stage ≠ .aborted := by
  intro haborted
  rw [haborted] at hlive
  contradiction

/-- Only groups that have slots are aborted. -/
theorem Entry.filled (h : Entry sound registry action later) (hfilled : registry.Filled) :
    later.Filled := by
  have hframe : later.groups = registry.groups → later.Filled := fun hgroups =>
    fun id group hgroup => hfilled id group (hgroups ▸ hgroup)
  have hlives : ∀ {own : Nat} {new : Group ν}, new.stage.isTerminal = false →
      later.groups = registry.groups.setIfInBounds own new → later.Filled := fun hlive =>
    hfilled.set fun haborted => absurd haborted (not_aborted_of_live hlive)
  cases h with
  | frame h => exact hframe h.groups
  | alter _ _ hlive _ h => exact hlives hlive h.groups
  | reserve _ _ hlive _ _ h => exact hlives hlive h.groups
  | opened hlive _ h =>
    intro id group hgroup haborted
    rw [h.groups, Array.getElem?_push] at hgroup
    split at hgroup
    · rw [Option.some.inj hgroup] at hlive
      exact absurd haborted (not_aborted_of_live hlive)
    · exact hfilled id group hgroup haborted
  | remove _ _ hlive _ _ h => exact hlives hlive h.groups
  | discard _ _ hlive _ _ h => exact hlives hlive h.groups
  | relieve _ _ hlive _ hmade _ h =>
    exact hfilled.grow (fun haborted => absurd haborted (not_aborted_of_live hlive))
      (fun i other hother => not_aborted_of_live (hmade i other hother).2) h.groups
  | lose _ hsize hspares h =>
    intro id group hgroup haborted
    rw [h.groups] at hgroup
    obtain ⟨old, hold, rfl | ⟨hheld, rfl⟩⟩ := hspares.before hsize hgroup
    · exact hfilled id group hold haborted
    · exact (live_leftBehind registry.scheme hheld).2.2.2
  | expire _ _ hsome h =>
    exact hfilled.set (fun _ => by rwa [slotCount, slots_abort]) h.groups
  | abandon _ _ hsome h =>
    exact hfilled.set (fun _ => by rwa [slotCount, slots_abort]) h.groups
  | panic h => exact hframe h.groups
  | finish _ _ _ h => exact hfilled.set (fun haborted => by contradiction) h.groups
  | emitted h => exact hframe h.groups
  | failed h => exact hframe h.groups
  | missing h => exact hframe h.groups

theorem Entries.filled (h : Entries sound action registry later) (hfilled : registry.Filled) :
    later.Filled := by
  induction h with
  | refl => exact hfilled
  | tail _ hentry ih => exact hentry.filled ih

/-! ## No group takes reservations -/

/-- Only a reservation makes a group take reservations. -/
theorem Deed.current_none (h : Deed registry action later)
    (hnot : ∀ now child, action ≠ .reserve now child) (hnone : registry.current = none) :
    later.current = none := by
  have hleft : ∀ {other : Registry ν} (kind : GroupKind) (key : String) (id : Nat),
      other.current = none → (other.unregister kind key id).current = none := by
    intro other kind key id hother
    rw [unregister_current, hother]
    rfl
  cases h with
  | counted counters => exact hnone
  | reserve now child => exact absurd rfl (hnot now child)
  | store fullKey value =>
    obtain ⟨_, heq⟩ | ⟨_, _, _, -, -, -, -, heq⟩ := registry.store_cases fullKey value <;>
      rw [heq] <;> exact hnone
  | remove fullKey =>
    obtain ⟨_, heq⟩ | ⟨_, _, _, -, -, -, -, -, heq⟩ | ⟨_, _, _, -, -, -, -, -, heq⟩ :=
      registry.remove_cases fullKey
    · rw [heq]
      exact hnone
    · rw [heq]
      exact hleft _ _ _ hnone
    · rw [heq]
      exact hnone
  | close counters hopen =>
    obtain ⟨groups, heq⟩ := registry.frame_close
    rw [heq]
  | fixSizes now =>
    refine foldl_keep (P := fun state : Section ν Unit => state.registry.current = none) _
      (fun state id _ hstate => ?_) hnone
    obtain heq | ⟨_, -, -, -, heq⟩ := fixSizeOf_cases now state id
    · rwa [heq]
    · rw [heq, afterFix, hstate]
      rfl
  | relocate now =>
    obtain ⟨_, _, _, heq⟩ := registry.frame_relocate now
    rw [heq]
    exact hnone
  | abortOld now =>
    have hstrikes : ∀ (kind : GroupKind) (entries : List (String × Nat)) (sweep : Abortion ν),
        sweep.state.registry.current = none →
        (entries.foldl (Abortion.strike now kind) sweep).state.registry.current = none := by
      intro kind entries sweep hsweep
      refine foldl_keep (P := fun sweep : Abortion ν => sweep.state.registry.current = none) _
        (fun sweep entry _ hsweep => ?_) hsweep
      obtain heq | ⟨_, -, -, -, heq⟩ := strike_cases now kind sweep entry.1 entry.2
      · rwa [heq]
      · rw [heq]
        exact hsweep
    refine foldl_keep (P := fun other : Registry ν => other.current = none) _
      (fun other entry _ hother => ?_) (hstrikes .delayed _ _ (hstrikes .normal _ _ hnone))
    exact hleft entry.1 entry.2.1 entry.2.2 hother
  | claim hgroup hclaim => exact hnone
  | finish verdict hgroup _ _ => exact hnone
  | retire hgroup _ => exact hleft _ _ _ hnone

end Registry

namespace Committer

variable {label : String} {settings : Settings} {scheme : KeyScheme}
  {slotBytes : Nat} {unstartable : Option (Sweeper × String)} {start : Committer ν ε}

/-! ## Reservations in a list of actions -/

/-- A reservation among the actions is answered by this full key. -/
def Reserves (committer : Committer ν ε) (actions : List (Action ν ε)) (fullKey : String) : Prop :=
  ∃ (place : Nat) (now : Instant) (child : String), actions[place]? = some (.reserve now child) ∧
    ((committer.run (actions.take place)).reserve now child).1 = some (.ok fullKey)

/-- One more action may be such a reservation. -/
theorem reserves_concat {committer : Committer ν ε} {actions : List (Action ν ε)}
    {last : Action ν ε} {fullKey : String} :
    committer.Reserves (actions ++ [last]) fullKey ↔ committer.Reserves actions fullKey ∨
      ∃ now child, last = .reserve now child ∧
        ((committer.run actions).reserve now child).1 = some (.ok fullKey) := by
  constructor
  · rintro ⟨place, now, child, hplace, hanswer⟩
    have hlt := (List.getElem?_eq_some_iff.mp hplace).1
    rw [List.length_append, List.length_singleton] at hlt
    rcases Nat.lt_or_eq_of_le (Nat.le_of_lt_succ hlt) with hlt | rfl
    · rw [List.getElem?_append_left hlt] at hplace
      rw [List.take_append_of_le_length (Nat.le_of_lt hlt)] at hanswer
      exact .inl ⟨place, now, child, hplace, hanswer⟩
    · rw [List.getElem?_concat_length] at hplace
      rw [List.take_left] at hanswer
      exact .inr ⟨now, child, Option.some.inj hplace, hanswer⟩
  · rintro (⟨place, now, child, hplace, hanswer⟩ | ⟨now, child, rfl, hanswer⟩)
    · have hlt := (List.getElem?_eq_some_iff.mp hplace).1
      refine ⟨place, now, child, ?_, ?_⟩
      · rw [List.getElem?_append_left hlt, hplace]
      · rwa [List.take_append_of_le_length (Nat.le_of_lt hlt)]
    · refine ⟨actions.length, now, child, List.getElem?_concat_length, ?_⟩
      rwa [List.take_left]

/-- Until a reservation is accepted, no group takes them. -/
theorem current_none_run {committer : Committer ν ε} (hs : Staffed committer)
    (actions : List (Action ν ε)) (hnot : ∀ fullKey, ¬ committer.Reserves actions fullKey)
    (hnone : committer.registry.current = none) :
    (committer.run actions).registry.current = none := by
  induction actions using List.reverseRecOn with
  | nil => exact hnone
  | append_singleton actions action ih =>
    have hbefore := ih fun fullKey h => hnot fullKey (reserves_concat.mpr (.inl h))
    rw [run_append]
    by_cases hreserve : ∃ now child, action = .reserve now child
    · obtain ⟨now, child, rfl⟩ := hreserve
      cases hanswer : ((committer.run actions).reserve now child).1 with
      | none =>
        change ((committer.run actions).reserve now child).2.registry.current = none
        rw [reserve_of_none hanswer, hbefore]
      | some answer =>
        cases answer with
        | ok fullKey =>
          exact absurd (reserves_concat.mpr (.inr ⟨now, child, rfl, hanswer⟩)) (hnot fullKey)
        | error failure =>
          change ((committer.run actions).reserve now child).2.registry.current = none
          rw [reserve_of_error hanswer, hbefore]
    · exact ((hs.run actions).deed action).current_none
        (fun now child heq => hreserve ⟨now, child, heq⟩) hbefore

section Runs

variable (hstart : (launch label settings scheme slotBytes unstartable).1 = .ok start)

include hstart

theorem filled_run (actions : List (Action ν ε)) : (start.run actions).registry.Filled := by
  induction actions using List.reverseRecOn with
  | nil =>
    intro id group hgroup
    rw [run_nil, (launch_eq_ok hstart).2.1] at hgroup
    contradiction
  | append_singleton actions action ih =>
    rw [run_append]
    exact (entries_step ((Staffed.launch hstart).run actions) (indexed_of_launch hstart actions)
      (steered_run hstart actions) action).filled ih

/-- A group that has no slots at one time has none later. -/
theorem empty_run (actions more : List (Action ν ε)) {id : Nat} {group : Group ν}
    (hgroup : (start.run actions).registry.groups[id]? = some group) (hempty : group.slots = []) :
    ∃ later, (start.run (actions ++ more)).registry.groups[id]? = some later ∧
      later.slots = [] := by
  induction more using List.reverseRecOn with
  | nil => exact ⟨group, by rwa [List.append_nil], hempty⟩
  | append_singleton more action ih =>
    obtain ⟨middle, hmiddle, hstill⟩ := ih
    have hentries := entries_step ((Staffed.launch hstart).run (actions ++ more))
      (indexed_of_launch hstart _) (steered_run hstart _) action
    obtain ⟨later, hlater, hnone⟩ :=
      hentries.stays_empty hmiddle (List.length_eq_zero_iff.mpr hstill)
    rw [← List.append_assoc, run_append]
    exact ⟨later, hlater, List.length_eq_zero_iff.mp hnone⟩

/-- A group without slots is not registered, and was not emitted. -/
theorem lost_of_empty {actions : List (Action ν ε)} {id : Nat} {group : Group ν}
    (hgroup : (start.run actions).registry.groups[id]? = some group) (hempty : group.slots = []) :
    ¬ (start.run actions).registry.Registered id ∧
      Unemitted (start.run actions).emissions id := by
  constructor
  · intro hid
    obtain ⟨same, hsame, hslots, -⟩ := (indexed_of_launch hstart actions).of_registered hid
    rw [Option.some.inj (hsame.symm.trans hgroup)] at hslots
    exact hslots hempty
  · rintro m emission hemission rfl
    obtain ⟨before, after, n, claimed, rfl, hclaimed, hready, -, -, -, hkeys⟩ :=
      claimed_before_emission hstart actions hemission
    -- the group had slots when its emission was claimed, and kept them
    have hs : Staffed (start.run before) := (Staffed.launch hstart).run before
    rw [Registry.keysOf_eq hgroup, hempty] at hkeys
    exact ((hs.attended _ _ hclaimed).coherent.full (.inl hready)).1
      (List.map_eq_nil_iff.mp hkeys.symm)

end Runs

end Committer

end BatchedCommit
