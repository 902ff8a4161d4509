import BatchedCommit.Stage

/-!
# BatchedCommit.Failure

Why a call on a committer fails. Each cause has a stable code and a message; some causes
are the shared outcome of a whole group, the others are the fault of the single call.
-/

namespace BatchedCommit

/-- The reason for which a call fails. -/
inductive Failure where
  /-- No group holds a slot of this key: it was never reserved, or removed, or emitted. -/
  | unknownKey (key : String)
  /-- The group that takes reservations already has a slot of the same child key. -/
  | duplicateKey (key : String)
  /-- The slot has already received its value. -/
  | alreadyReady (key : String)
  /-- The group of the slot can no longer be changed in this way. -/
  | illegalState (key : String) (stage : Stage) (reason : String)
  /-- The key does not start with a parent key and a separator. -/
  | invalidKey (key : String)
  /-- The emitter refused the values of the group, or broke down over them. -/
  | emitFailed (emitKey cause : String)
  /-- The group became ready while no emitter was installed. -/
  | emitterNotSet (emitKey : String)
  /-- The group outlived the abort window. -/
  | aborted (key : String)
  /-- The committer was shut down. -/
  | closed
  /-- The settings could not be read, or hold a zero. -/
  | invalidSettings (text : String)
  /-- A background worker could not be started. -/
  | workerNotStarted (worker text : String)
  deriving DecidableEq

/-- The outcome of a group, shared by all callers that wait for it. -/
abbrev Verdict := Except Failure Unit

namespace Failure

/-- The stable code of the cause. -/
def code : Failure → String
  | unknownKey _ => "GROUP_COMMIT_UNKNOWN_KEY"
  | duplicateKey _ => "GROUP_COMMIT_DUPLICATE_KEY"
  | alreadyReady _ => "GROUP_COMMIT_ALREADY_READY"
  | illegalState _ _ _ => "GROUP_COMMIT_ILLEGAL_STATE"
  | invalidKey _ => "GROUP_COMMIT_INVALID_KEY"
  | emitFailed _ _ => "GROUP_COMMIT_EMIT_FAILED"
  | emitterNotSet _ => "GROUP_COMMIT_EMITTER_NOT_SET"
  | aborted _ => "GROUP_COMMIT_ABORTED"
  | closed => "GROUP_COMMIT_CLOSED"
  | invalidSettings _ => "GROUP_COMMIT_INVALID_CONFIG"
  | workerNotStarted _ _ => "GROUP_COMMIT_WORKER_SPAWN_FAILED"

/-- The message for a reader. Keys and texts stand in it as they are. -/
def message : Failure → String
  | unknownKey key => "No live slot for key '" ++ key ++ "'"
  | duplicateKey key => "Slot '" ++ key ++ "' is already reserved"
  | alreadyReady key => "Slot '" ++ key ++ "' is already ready"
  | illegalState key stage reason =>
    "Slot '" ++ key ++ "' cannot be changed while its group is " ++ stage.name ++ ": " ++ reason
  | invalidKey key => "Malformed full key '" ++ key ++ "'"
  | emitFailed emitKey cause => "Emission failed for group '" ++ emitKey ++ "': " ++ cause
  | emitterNotSet emitKey => "No emitter installed when group '" ++ emitKey ++ "' became ready"
  | aborted key => "Group '" ++ key ++ "' was aborted after exceeding the abort timeout"
  | closed => "Group committer is closed"
  | invalidSettings text => "Invalid group commit config: " ++ text
  | workerNotStarted worker text => "Failed to start worker '" ++ worker ++ "': " ++ text

/-- The failure is the outcome of a whole group, not the fault of the single call. -/
def isShared : Failure → Bool
  | emitFailed _ _ | emitterNotSet _ | aborted _ | closed => true
  | unknownKey _ | duplicateKey _ | alreadyReady _ | illegalState _ _ _ | invalidKey _
  | invalidSettings _ | workerNotStarted _ _ => false

/-- What the emitter itself said, where the failure comes from it. -/
def cause? : Failure → Option String
  | emitFailed _ cause => some cause
  | _ => none

end Failure

end BatchedCommit
