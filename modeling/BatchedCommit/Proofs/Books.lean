import BatchedCommit.Proofs.Ledger

/-!
# BatchedCommit.Proofs.Books

What is counted of groups and slots is there, in every reachable state:

* `Registry.Booked` — the groups that were aborted, and those that were discarded, are as many as
  were counted;
* `Registry.Balanced` — the groups that were ever made are as many as were counted, and every slot
  that was reserved is in some group or was removed, as long as the sweeper that moves slots has
  not broken down: the groups that it was making are dropped, and the slots that it had in hand are
  lost.
-/

namespace BatchedCommit

variable {ν ε : Type}

namespace Registry

open BatchedCommit.Group (slotCount isExpired isDiscarded)

variable {registry later : Registry ν} {sound : Bool} {action : Action ν ε}

/-! ## Groups -/

/-- What is counted of groups that are gone is there. -/
structure Booked (registry : Registry ν) : Prop where
  /-- The groups that a sweep has aborted. -/
  expired : tally (ones isExpired) registry.groups = registry.counters.get .groupsAborted
  /-- The groups that have lost their slots. -/
  discarded : tally (ones isDiscarded) registry.groups = registry.counters.get .groupsDiscarded

namespace Booked

theorem empty (settings : Settings) (scheme : KeyScheme) (slotBytes : Nat) :
    (Registry.empty settings scheme slotBytes : Registry ν).Booked := ⟨rfl, rfl⟩

/-- The books after a change, in terms of the groups and counters that it has left. -/
theorem of_posts {groups : Array (Group ν)} {counters : Counters}
    (h : Posts later groups counters)
    (hexpired : tally (ones isExpired) groups = counters.get .groupsAborted)
    (hdiscarded : tally (ones isDiscarded) groups = counters.get .groupsDiscarded) :
    later.Booked := by
  constructor
  · rw [h.groups, h.counters, hexpired]
  · rw [h.groups, h.counters, hdiscarded]

end Booked

section Live

variable {group changed : Group ν} {id : Nat}

/-- A live group counts as discarded when it has no slots. -/
theorem ones_isDiscarded (h : group.stage.isTerminal = false) :
    ones isDiscarded group = if group.slotCount = 0 then 1 else 0 := by
  rw [ones, within, Group.isDiscarded_of_live h, slotCount]
  simp only [List.isEmpty_iff, List.length_eq_zero_iff]

theorem ones_isExpired (h : group.stage.isTerminal = false) : ones isExpired group = 0 := by
  rw [ones, within, Group.isExpired_of_live h]
  rfl

/-- What is counted of a live group in which some slots came or went. -/
theorem tally_set_live (hgroup : registry.groups[id]? = some group)
    (hlive : group.stage.isTerminal = false) (hlive' : changed.stage.isTerminal = false) :
    tally (ones isExpired) (registry.groups.setIfInBounds id changed) =
        tally (ones isExpired) registry.groups ∧
      tally (ones isDiscarded) (registry.groups.setIfInBounds id changed) +
          (if group.slotCount = 0 then 1 else 0) =
        tally (ones isDiscarded) registry.groups + if changed.slotCount = 0 then 1 else 0 := by
  refine ⟨tally_set_same hgroup ?_, ?_⟩
  · rw [ones_isExpired hlive, ones_isExpired hlive']
  · rw [← ones_isDiscarded hlive, ← ones_isDiscarded hlive']
    exact tally_set _ hgroup _

/-- What is counted of a live group that ends with the slots that it has. -/
theorem tally_set_ended (hgroup : registry.groups[id]? = some group)
    (hlive : group.stage.isTerminal = false) (hsome : group.slotCount ≠ 0)
    (hended : changed.stage.isTerminal = true) :
    tally (ones isExpired) (registry.groups.setIfInBounds id changed) =
        tally (ones isExpired) registry.groups + ones isExpired changed ∧
      tally (ones isDiscarded) (registry.groups.setIfInBounds id changed) =
        tally (ones isDiscarded) registry.groups := by
  refine ⟨?_, tally_set_same hgroup ?_⟩
  · rw [← tally_set _ hgroup changed, ones_isExpired hlive, Nat.add_zero]
  · rw [ones_isDiscarded hlive, if_neg hsome, ones, within, isDiscarded, hended]
    simp

end Live

/-- Every entry keeps the books. -/
theorem Entry.booked (h : Entry sound registry action later) (hbooked : registry.Booked) :
    later.Booked := by
  obtain ⟨hexpired, hdiscarded⟩ := hbooked
  cases h with
  | frame h => exact .of_posts h hexpired hdiscarded
  | panic h => exact .of_posts h hexpired hdiscarded
  | emitted h => exact .of_posts h hexpired hdiscarded
  | failed h => exact .of_posts h hexpired hdiscarded
  | missing h => exact .of_posts h hexpired hdiscarded
  | alter hgroup hlive hlive' hsame h =>
    obtain ⟨he, hd⟩ := tally_set_live hgroup hlive hlive'
    rw [hsame] at hd
    exact .of_posts h (by rw [he, hexpired]) (by rw [← hdiscarded]; omega)
  | reserve hgroup hlive hlive' hsome hgrown h =>
    obtain ⟨he, hd⟩ := tally_set_live hgroup hlive hlive'
    rw [if_neg hsome, if_neg (by omega)] at hd
    refine .of_posts h ?_ ?_
    · simpa [Counters.bump, Counters.get_add, he] using hexpired
    · simp only [Counters.bump, Counters.get_add, reduceCtorEq, if_false]
      omega
  | opened hlive' hone h =>
    refine .of_posts h ?_ ?_
    · simpa [Counters.bump, Counters.get_add, ones_isExpired hlive'] using hexpired
    · simpa [Counters.bump, Counters.get_add, ones_isDiscarded hlive', hone] using hdiscarded
  | remove hgroup hlive hlive' hsome hshrunk h =>
    obtain ⟨he, hd⟩ := tally_set_live hgroup hlive hlive'
    rw [if_neg hsome, if_neg (by omega)] at hd
    refine .of_posts h ?_ ?_
    · simpa [Counters.bump, Counters.get_add, he] using hexpired
    · simp only [Counters.bump, Counters.get_add, reduceCtorEq, if_false]
      omega
  | discard hgroup hlive hlive' hnone hone h =>
    obtain ⟨he, hd⟩ := tally_set_live hgroup hlive hlive'
    rw [if_pos hnone, if_neg (by omega)] at hd
    refine .of_posts h ?_ ?_
    · simpa [Counters.bump, Counters.get_add, he] using hexpired
    · simp only [Counters.bump, Counters.get_add, reduceCtorEq, if_false, if_true]
      omega
  | @relieve now later id group changed made hgroup hlive hlive' hsome hborn hmoved h =>
    obtain ⟨he, hd⟩ := tally_set_live hgroup hlive hlive'
    rw [if_neg hsome, if_neg (by omega)] at hd
    have hexpiredMade : tally (ones isExpired) made = 0 :=
      tally_zero fun i other hother => ones_isExpired (hborn i other hother).2
    have hdiscardedMade : tally (ones isDiscarded) made = 0 := tally_zero fun i other hother => by
      rw [ones_isDiscarded (hborn i other hother).2, (hborn i other hother).1]
      rfl
    refine .of_posts h ?_ ?_
    · simp only [tally_append, Counters.get_add, reduceCtorEq, if_false]
      omega
    · simp only [tally_append, Counters.get_add, reduceCtorEq, if_false]
      omega
  | lose hsound hsize hspares h =>
    refine .of_posts h ?_ ?_
    · simp only [Counters.get_add, reduceCtorEq, if_false]
      rw [← hexpired]
      refine hspares.tally_eq hsize fun group hheld => ?_
      obtain ⟨hlive, hlive', -, -⟩ := live_leftBehind registry.scheme hheld
      rw [ones_isExpired hlive, ones_isExpired hlive']
    · simp only [Counters.get_add, reduceCtorEq, if_false]
      rw [← hdiscarded]
      refine hspares.tally_eq hsize fun group hheld => ?_
      obtain ⟨hlive, hlive', hsome, hsome'⟩ := live_leftBehind registry.scheme hheld
      rw [ones_isDiscarded hlive, ones_isDiscarded hlive', if_neg hsome, if_neg hsome']
  | @expire now later id group key hgroup habort hsome h =>
    have hended : (group.abort (.aborted key)).stage.isTerminal = true := by
      rw [Group.abort, if_pos habort]
      rfl
    obtain ⟨he, hd⟩ := tally_set_ended hgroup (Group.live_of_isAbortable habort) hsome hended
    have hcounted : ones isExpired (group.abort (.aborted key)) = 1 := by
      rw [ones, within, if_pos (by rw [Group.abort, if_pos habort]; rfl)]
    rw [hcounted] at he
    refine .of_posts h ?_ ?_
    · simp only [Counters.bump, Counters.get_add, if_true]
      omega
    · simpa [Counters.bump, Counters.get_add, hd] using hdiscarded
  | @abandon later id group hgroup habort hsome h =>
    have hended : (group.abort .closed).stage.isTerminal = true := by
      rw [Group.abort, if_pos habort]
      rfl
    obtain ⟨he, hd⟩ := tally_set_ended hgroup (Group.live_of_isAbortable habort) hsome hended
    have hcounted : ones isExpired (group.abort .closed) = 0 := by
      rw [ones, within, if_neg (by rw [Group.abort, if_pos habort]; simp [isExpired])]
    exact .of_posts h (by rw [he, hexpired, hcounted]; rfl) (by rw [hd, hdiscarded])
  | @finish n later id group verdict hgroup hlive hsome h =>
    have hended : (group.finish verdict).stage.isTerminal = true := rfl
    obtain ⟨he, hd⟩ := tally_set_ended hgroup hlive hsome hended
    have hcounted : ones isExpired (group.finish verdict) = 0 := by
      rw [ones, within, if_neg (by simp [isExpired, Group.finish])]
    exact .of_posts h (by rw [he, hexpired, hcounted]; rfl) (by rw [hd, hdiscarded])

theorem Entries.booked (h : Entries sound action registry later) (hbooked : registry.Booked) :
    later.Booked := by
  induction h with
  | refl => exact hbooked
  | tail _ hentry ih => exact hentry.booked ih

/-! ## Slots -/

/-- What is counted of groups and slots that were made is there. -/
structure Balanced (registry : Registry ν) : Prop where
  /-- Groups are opened, or made for a slot that is moved. -/
  made : registry.groups.size =
    registry.counters.get .groupsOpened + registry.counters.get .slotsRelocated
  /-- Every slot that was reserved is in some group, unless it was removed. -/
  slots : tally slotCount registry.groups + registry.counters.get .slotsRemoved =
    registry.counters.get .slotsReserved

namespace Balanced

theorem empty (settings : Settings) (scheme : KeyScheme) (slotBytes : Nat) :
    (Registry.empty settings scheme slotBytes : Registry ν).Balanced := ⟨rfl, rfl⟩

theorem of_posts {groups : Array (Group ν)} {counters : Counters} (h : Posts later groups counters)
    (hmade : groups.size = counters.get .groupsOpened + counters.get .slotsRelocated)
    (hslots : tally slotCount groups + counters.get .slotsRemoved =
      counters.get .slotsReserved) : later.Balanced := by
  constructor
  · rw [h.groups, h.counters, hmade]
  · rw [h.groups, h.counters, hslots]

end Balanced

/-- No entry of a sound step drops a group or loses a slot. -/
theorem Entry.balanced (h : Entry true registry action later) (hbalanced : registry.Balanced) :
    later.Balanced := by
  obtain ⟨hmade, hsum⟩ := hbalanced
  have hset : ∀ {id : Nat} {group changed : Group ν}, registry.groups[id]? = some group →
      changed.slotCount = group.slotCount →
      tally slotCount (registry.groups.setIfInBounds id changed) =
        tally slotCount registry.groups := fun hgroup hsame => tally_set_same hgroup hsame
  cases h with
  | frame h => exact .of_posts h hmade hsum
  | panic h => exact .of_posts h hmade hsum
  | emitted h => exact .of_posts h hmade hsum
  | failed h => exact .of_posts h hmade hsum
  | missing h => exact .of_posts h hmade hsum
  | alter hgroup hlive hlive' hsame h =>
    exact .of_posts h (by rw [Array.size_setIfInBounds, hmade]) (by rw [hset hgroup hsame, hsum])
  | @reserve now child later id group changed hgroup hlive hlive' hsome hgrown h =>
    have hslots := tally_set slotCount hgroup changed
    refine .of_posts h ?_ ?_
    · simpa [Counters.bump, Counters.get_add] using hmade
    · simp only [Counters.bump, Counters.get_add, reduceCtorEq, if_false, if_true]
      omega
  | opened hlive' hone h =>
    refine .of_posts h ?_ ?_
    · simp only [Array.size_push, Counters.bump, Counters.get_add, reduceCtorEq, if_false, if_true]
      omega
    · simp only [tally_push, Counters.bump, Counters.get_add, reduceCtorEq, if_false, if_true]
      omega
  | @remove fullKey later id group changed hgroup hlive hlive' hsome hshrunk h =>
    have hslots := tally_set slotCount hgroup changed
    refine .of_posts h ?_ ?_
    · simpa [Counters.bump, Counters.get_add] using hmade
    · simp only [Counters.bump, Counters.get_add, reduceCtorEq, if_false, if_true]
      omega
  | @discard fullKey later id group changed hgroup hlive hlive' hnone hone h =>
    have hslots := tally_set slotCount hgroup changed
    refine .of_posts h ?_ ?_
    · simpa [Counters.bump, Counters.get_add] using hmade
    · simp only [Counters.bump, Counters.get_add, reduceCtorEq, if_false, if_true]
      omega
  | @relieve now later id group changed made hgroup hlive hlive' hsome hborn hmoved h =>
    have hslots := tally_set slotCount hgroup changed
    have hcount : tally slotCount made = made.size := by
      rw [← tally_one]
      exact tally_congr _ _ fun i other hother => (hborn i other hother).1
    refine .of_posts h ?_ ?_
    · simp only [Array.size_append, Array.size_setIfInBounds, Counters.get_add, reduceCtorEq,
        if_false, if_true]
      omega
    · simp only [tally_append, Counters.get_add, reduceCtorEq, if_false]
      omega
  | lose hsound hsize hspares h => contradiction
  | expire hgroup habort hsome h =>
    refine .of_posts h ?_ ?_
    · simpa [Counters.bump, Counters.get_add] using hmade
    · rw [hset hgroup (congrArg List.length (slots_abort _ _))]
      simpa [Counters.bump, Counters.get_add] using hsum
  | abandon hgroup habort hsome h =>
    exact .of_posts h (by rw [Array.size_setIfInBounds, hmade])
      (by rw [hset hgroup (congrArg List.length (slots_abort _ _)), hsum])
  | @finish n later id group verdict hgroup hlive hsome h =>
    have hsame : (group.finish verdict).slotCount = group.slotCount := rfl
    exact .of_posts h (by rw [Array.size_setIfInBounds, hmade]) (by rw [hset hgroup hsame, hsum])

theorem Entries.balanced (h : Entries true action registry later)
    (hbalanced : registry.Balanced) : later.Balanced := by
  induction h with
  | refl => exact hbalanced
  | tail _ hentry ih => exact hentry.balanced ih

end Registry

/-! ## Runs -/

namespace Committer

variable {committer : Committer ν ε}

variable {label : String} {settings : Settings} {scheme : KeyScheme}
  {slotBytes : Nat} {unstartable : Option (Sweeper × String)} {start : Committer ν ε}

/-- In every reachable state, what is counted of groups is there. -/
theorem booked_run (hstart : (launch label settings scheme slotBytes unstartable).1 = .ok start)
    (actions : List (Action ν ε)) : (start.run actions).registry.Booked := by
  induction actions using List.reverseRecOn with
  | nil =>
    rw [run_nil, (launch_eq_ok hstart).2.1]
    exact .empty settings scheme slotBytes
  | append_singleton actions action ih =>
    have hentries := entries_step ((Staffed.launch hstart).run actions)
      (indexed_of_launch hstart actions) (steered_run hstart actions) action
    rw [run_append]
    exact hentries.booked ih

/-- Only an installation replaces the emitter, and only a sweep that moves slots can break its
sweeper down. -/
theorem equipment_step (committer : Committer ν ε) {action : Action ν ε}
    (hinstall : ∀ emitter, action ≠ .install emitter)
    (hrelocate : ∀ now, action ≠ .sweep .relocate now) :
    (committer.step action).emitter = committer.emitter ∧
      (committer.step action).relocating = committer.relocating := by
  cases action with
  | reserve now child => exact ⟨rfl, rfl⟩
  | store fullKey value =>
    unfold step store
    dsimp only
    split <;> exact ⟨rfl, rfl⟩
  | remove fullKey => exact ⟨rfl, rfl⟩
  | install emitter => exact absurd rfl (hinstall emitter)
  | close =>
    unfold step close
    dsimp only
    split
    · exact ⟨rfl, rfl⟩
    · refine Registry.foldl_keep (P := fun later : Committer ν ε =>
        later.emitter = committer.emitter ∧ later.relocating = committer.relocating)
        Sweeper.all (fun later sweeper _ h => ?_) ⟨rfl, rfl⟩
      rw [stop]
      split <;> exact h
  | sweep sweeper now =>
    cases sweeper with
    | sizeFix => exact ⟨rfl, rfl⟩
    | relocate => exact absurd rfl (hrelocate now)
    | abort => exact ⟨rfl, rfl⟩
  | deliver id =>
    unfold step deliver
    dsimp only
    split <;> exact ⟨rfl, rfl⟩
  | stir n =>
    unfold step stir
    dsimp only
    split <;> exact ⟨rfl, rfl⟩
  | look n =>
    unfold step look
    dsimp only
    split
    · split <;> exact ⟨rfl, rfl⟩
    · exact ⟨rfl, rfl⟩
  | begin n =>
    unfold step begin
    dsimp only
    split
    · split
      · exact ⟨rfl, rfl⟩
      · exact ⟨rfl, rfl⟩
    · exact ⟨rfl, rfl⟩
  | complete n answer =>
    unfold step complete
    dsimp only
    split
    · split
      · exact ⟨rfl, rfl⟩
      · cases answer <;> exact ⟨rfl, rfl⟩
    · exact ⟨rfl, rfl⟩
  | conclude n =>
    unfold step conclude
    dsimp only
    split <;> exact ⟨rfl, rfl⟩
  | announce n =>
    unfold step announce
    dsimp only
    split <;> exact ⟨rfl, rfl⟩
  | leave n =>
    unfold step leave
    dsimp only
    split <;> exact ⟨rfl, rfl⟩

/-- Only a sweep that moves slots can break its sweeper down. -/
theorem relocating_step (committer : Committer ν ε) {action : Action ν ε}
    (hnot : ∀ now, action ≠ .sweep .relocate now) :
    (committer.step action).relocating = committer.relocating := by
  cases action with
  | install emitter => rfl
  | _ => exact (equipment_step committer (by simp) hnot).2

/-- An emitter that is installed stays, or another one takes its place. -/
theorem emitter_step {committer : Committer ν ε} (h : committer.emitter.isSome = true)
    (action : Action ν ε) : (committer.step action).emitter.isSome = true := by
  cases action with
  | install emitter => rfl
  | sweep sweeper now =>
    cases sweeper with
    | relocate =>
      unfold step sweep
      dsimp only
      split <;> exact h
    | _ => exact h
  | _ => rwa [(equipment_step committer (by simp) (by simp)).1]

/-- A sweeper that has broken down stays so. -/
theorem relocating_of_step {committer : Committer ν ε} {action : Action ν ε}
    (h : (committer.step action).relocating = true) : committer.relocating = true := by
  by_cases hmoves : ∃ now, action = .sweep .relocate now
  · obtain ⟨now, rfl⟩ := hmoves
    unfold step sweep at h
    dsimp only at h
    split at h
    · next hsound => exact hsound
    · exact h
  · rwa [← relocating_step committer fun now heq => hmoves ⟨now, heq⟩]

/-- In every reachable state what is counted of groups and slots that were made is there, or the
sweeper that moves slots has broken down. -/
theorem balanced_run (hstart : (launch label settings scheme slotBytes unstartable).1 = .ok start)
    (actions : List (Action ν ε)) (hrelocating : (start.run actions).relocating = true) :
    (start.run actions).registry.Balanced := by
  induction actions using List.reverseRecOn with
  | nil =>
    rw [run_nil, (launch_eq_ok hstart).2.1]
    exact .empty settings scheme slotBytes
  | append_singleton actions action ih =>
    rw [run_append] at hrelocating ⊢
    have hrelocating : ((start.run actions).step action).relocating = true := hrelocating
    have hentries := entries_step ((Staffed.launch hstart).run actions)
      (indexed_of_launch hstart actions) (steered_run hstart actions) action
    rw [hrelocating] at hentries
    exact hentries.balanced (ih (relocating_of_step hrelocating))

end Committer

end BatchedCommit
