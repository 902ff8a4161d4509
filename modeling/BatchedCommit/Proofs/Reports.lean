import BatchedCommit.Proofs.Books
import BatchedCommit.Proofs.History
import BatchedCommit.Proofs.Journal

/-!
# BatchedCommit.Proofs.Reports

What is reported as an error is counted: an emission that failed, or that had no emitter, and a
sweeper that had broken down (`errors_run`). Where emit keys can be derived no sweeper breaks down
(`Intact`), and the errors are the emissions that failed.
-/

namespace BatchedCommit

variable {ν ε : Type}

/-- The event is an error. -/
def Event.isError (event : Event) : Bool := event.kind.severity == .error

/-- Errors are emissions that failed, and sweepers that had broken down. -/
theorem countP_isError (events : List Event) : events.countP Event.isError =
    events.countP (·.kind == .groupEmitFailed) + events.countP (·.kind == .sweeperPanicked) := by
  induction events with
  | nil => rfl
  | cons event rest ih =>
    rw [List.countP_cons, List.countP_cons, List.countP_cons, ih]
    cases event <;> simp [Event.isError, Event.kind, EventKind.severity] <;> omega

namespace Committer

variable {committer : Committer ν ε} {action : Action ν ε}

/-- The number of errors that were reported. -/
def errors (committer : Committer ν ε) : Nat := committer.journal.toList.countP Event.isError

/-- The failures that are counted. -/
def failures (committer : Committer ν ε) : Nat :=
  committer.registry.counters.get .emitFailures + committer.registry.counters.get .sweeperPanics

theorem counters_close (registry : Registry ν) :
    registry.close.registry.counters = registry.counters := by
  refine Registry.foldl_keep
    (P := fun state : Section ν Unit => state.registry.counters = registry.counters) _
    (fun state id _ hstate => ?_) rfl
  obtain heq | ⟨_, -, -, heq⟩ := Registry.abandon_cases state id
  · rwa [heq]
  · rw [heq]
    exact hstate

section Runs

variable {label : String} {settings : Settings} {scheme : KeyScheme}
  {slotBytes : Nat} {unstartable : Option (Sweeper × String)} {start : Committer ν ε}
  (hstart : (launch label settings scheme slotBytes unstartable).1 = .ok start)

include hstart

/-- As many errors were reported as failures are counted. -/
theorem errors_run (actions : List (Action ν ε)) :
    (start.run actions).errors = (start.run actions).failures := by
  rw [failures, ← count_of_kind hstart actions .emitFailures rfl,
    ← count_of_kind hstart actions .sweeperPanics rfl]
  exact countP_isError _

end Runs

/-! ## Sweepers that do not break down -/

/-- The sweepers work, and none was found broken. -/
structure Intact (committer : Committer ν ε) : Prop where
  relocating : committer.relocating = true
  panics : committer.registry.counters.get .sweeperPanics = 0

namespace Intact

theorem close (h : Intact committer) : Intact committer.close := by
  rw [Committer.close]
  split
  · exact h
  · have habsorbed : Intact (committer.absorb committer.registry.close) := by
      refine ⟨h.relocating, ?_⟩
      rw [← h.panics]
      exact congrArg (·.get .sweeperPanics) (counters_close committer.registry)
    have hstopped :
        Intact (Sweeper.all.foldl stop (committer.absorb committer.registry.close)) := by
      refine Registry.foldl_keep (P := Intact) _ (fun later sweeper _ hlater => ?_) habsorbed
      rw [stop, if_neg (by simp [hlater.relocating])]
      exact ⟨hlater.relocating, hlater.panics⟩
    exact ⟨hstopped.relocating, hstopped.panics⟩

/-- Where emit keys can be derived, the sweeper that moves slots does not break down. -/
theorem step (h : Intact committer) (hs : Staffed committer)
    (hindexed : committer.registry.Indexed) (hsteered : committer.registry.Steered)
    (hderivable : committer.registry.scheme.Derivable) (action : Action ν ε) :
    Intact (committer.step action) := by
  by_cases hclose : action = .close
  · subst hclose
    exact h.close
  · have hcounted : Counter.sweeperPanics ∉ Registry.counted action := by
      cases action with
      | close => contradiction
      | sweep sweeper now => cases sweeper <;> simp [Registry.counted]
      | _ => simp [Registry.counted]
    refine ⟨?_, ((entries_step hs hindexed hsteered action).get_counters hcounted).trans h.panics⟩
    by_cases hrelocate : ∃ now, action = .sweep .relocate now
    · obtain ⟨now, rfl⟩ := hrelocate
      unfold Committer.step Committer.sweep
      dsimp only
      rw [if_pos h.relocating,
        Registry.relocate_of_not_broken (Registry.relieved_of_derivable hderivable now)]
    · rw [relocating_step committer fun now heq => hrelocate ⟨now, heq⟩]
      exact h.relocating

end Intact

section Runs

variable {label : String} {settings : Settings} {scheme : KeyScheme}
  {slotBytes : Nat} {unstartable : Option (Sweeper × String)} {start : Committer ν ε}
  (hstart : (launch label settings scheme slotBytes unstartable).1 = .ok start)

include hstart

theorem intact_run (hderivable : scheme.Derivable) (actions : List (Action ν ε)) :
    Intact (start.run actions) := by
  induction actions using List.reverseRecOn with
  | nil =>
    obtain ⟨-, hregistry, -, -, -, hrelocating⟩ := launch_eq_ok hstart
    exact ⟨hrelocating, by rw [run_nil, hregistry]; rfl⟩
  | append_singleton actions action ih =>
    rw [run_append]
    refine ih.step ((Staffed.launch hstart).run actions) (indexed_of_launch hstart actions)
      (steered_run hstart actions) ?_ action
    rwa [(run_constant hstart actions).2]

/-- Where emit keys can be derived, the errors that were reported are the emissions that failed. -/
theorem errors_eq_emitFailures (hderivable : scheme.Derivable)
    (actions : List (Action ν ε)) : (start.run actions).errors =
      (start.run actions).registry.counters.get .emitFailures := by
  rw [errors_run hstart, failures, (intact_run hstart hderivable actions).panics, Nat.add_zero]

end Runs

end Committer

end BatchedCommit
