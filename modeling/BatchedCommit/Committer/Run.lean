import BatchedCommit.Committer

/-!
# BatchedCommit.Committer.Run

Runs of a committer. An action is one step of a caller, of a sweeper or of an emitter;
actions of different callers may follow each other in any order, and an action that nobody is
in the position to take changes nothing.
-/

namespace BatchedCommit

/-- One step of a run. -/
inductive Action (ν ε : Type) where
  /-- Somebody reserves a slot. -/
  | reserve (now : Instant) (child : String)
  /-- Somebody stores a value and then waits. -/
  | store (fullKey : String) (value : ν)
  /-- Somebody removes a slot. -/
  | remove (fullKey : String)
  /-- Somebody installs an emitter. -/
  | install (emitter : ε)
  /-- Somebody closes the committer. -/
  | close
  /-- A sweeper sweeps. -/
  | sweep (sweeper : Sweeper) (now : Instant)
  /-- A wake-up that is due is delivered. -/
  | deliver (group : Nat)
  /-- A sleeping caller wakes up without being woken. -/
  | stir (caller : Nat)
  /-- A caller looks at its group. -/
  | look (caller : Nat)
  /-- A caller starts the emitter. -/
  | begin (caller : Nat)
  /-- The emitter of a caller answers. -/
  | complete (caller : Nat) (answer : Except String Unit)
  /-- A caller tells its group how the emission ended. -/
  | conclude (caller : Nat)
  /-- A caller wakes the others. -/
  | announce (caller : Nat)
  /-- A caller takes its group out of the index and returns. -/
  | leave (caller : Nat)

namespace Committer

variable {ν ε : Type}

/-- The committer after an action. -/
def step (committer : Committer ν ε) : Action ν ε → Committer ν ε
  | .reserve now child => (committer.reserve now child).2
  | .store fullKey value => (committer.store fullKey value).2
  | .remove fullKey => (committer.remove fullKey).2
  | .install emitter => committer.install emitter
  | .close => committer.close
  | .sweep sweeper now => committer.sweep now sweeper
  | .deliver group => committer.deliver group
  | .stir caller => committer.stir caller
  | .look caller => committer.look caller
  | .begin caller => committer.begin caller
  | .complete caller answer => committer.complete caller answer
  | .conclude caller => committer.conclude caller
  | .announce caller => committer.announce caller
  | .leave caller => committer.leave caller

/-- The committer after a list of actions. -/
def run (committer : Committer ν ε) (actions : List (Action ν ε)) : Committer ν ε :=
  actions.foldl step committer

theorem run_nil (committer : Committer ν ε) : committer.run [] = committer := rfl

theorem run_cons (committer : Committer ν ε) (action : Action ν ε)
    (actions : List (Action ν ε)) :
    committer.run (action :: actions) = (committer.step action).run actions := rfl

theorem run_append (committer : Committer ν ε) (first second : List (Action ν ε)) :
    committer.run (first ++ second) = (committer.run first).run second :=
  List.foldl_append

end Committer

end BatchedCommit
