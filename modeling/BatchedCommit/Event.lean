/-!
# BatchedCommit.Event

What a committer reports while it works. Each event has a name, a severity and fields of
text.
-/

namespace BatchedCommit

/-! ## Severities -/

/-- How much an event matters. -/
inductive Severity where
  /-- Detail about a single group. -/
  | trace
  /-- Normal work. -/
  | info
  /-- Something was lost, and the work goes on. -/
  | warn
  /-- Something failed. -/
  | error
  deriving DecidableEq

namespace Severity

/-- The place in the order of severities. -/
def rank : Severity → Nat
  | trace => 0
  | info => 1
  | warn => 2
  | error => 3

/-- The name in a log line. -/
def name : Severity → String
  | trace => "TRACE"
  | info => "INFO"
  | warn => "WARN"
  | error => "ERROR"

/-- Every severity, the least one first. -/
def all : List Severity := [trace, info, warn, error]

/-- The word for a severity on a command line. -/
def word : Severity → String
  | trace => "trace"
  | info => "info"
  | warn => "warn"
  | error => "error"

/-- The severity of a given word. -/
def ofWord? (text : String) : Option Severity := all.find? (·.word == text)

end Severity

/-! ## Sweepers -/

/-- The three background workers, in the order in which they are started. -/
inductive Sweeper where
  /-- Fixes the size of groups that are old enough. -/
  | sizeFix
  /-- Moves slots that hold their group back. -/
  | relocate
  /-- Aborts groups that are too old. -/
  | abort
  deriving DecidableEq

namespace Sweeper

/-- Every sweeper, in the order in which they are started. -/
def all : List Sweeper := [sizeFix, relocate, abort]

/-- The name of a sweeper. -/
def name : Sweeper → String
  | sizeFix => "size-fix"
  | relocate => "delayed-slot-move"
  | abort => "old-group-abort"

/-- The name of the thread that a sweeper runs on. -/
def threadName (label : String) (sweeper : Sweeper) : String := label ++ "-" ++ sweeper.name

end Sweeper

/-! ## Events -/

/-- The kinds of events. -/
inductive EventKind where
  /-- A committer was made, and its sweepers run. -/
  | committerStarted
  /-- A committer was shut down. -/
  | committerClosed
  /-- A sweeper started. -/
  | sweeperStarted
  /-- A sweeper stopped. -/
  | sweeperStopped
  /-- A sweeper had broken down. -/
  | sweeperPanicked
  /-- A group was opened for reservations. -/
  | groupOpened
  /-- A group reached its capacity. -/
  | groupSizeFixed
  /-- A group was old enough to fix its size. -/
  | groupSizeFixTimeout
  /-- A slot was moved into a delayed group. -/
  | slotRelocated
  /-- A group lost all of its slots. -/
  | groupDiscarded
  /-- An emission succeeded. -/
  | groupEmitted
  /-- An emission failed, or had no emitter. -/
  | groupEmitFailed
  /-- A group outlived the abort window. -/
  | groupAborted
  /-- A group was given up at shutdown. -/
  | groupAbandoned
  deriving DecidableEq

namespace EventKind

/-- Every kind of event. -/
def all : List EventKind :=
  [committerStarted, committerClosed, sweeperStarted, sweeperStopped, sweeperPanicked,
    groupOpened, groupSizeFixed, groupSizeFixTimeout, slotRelocated, groupDiscarded,
    groupEmitted, groupEmitFailed, groupAborted, groupAbandoned]

/-- The name in a log line. -/
def name : EventKind → String
  | committerStarted => "GROUP_COMMITTER_STARTED"
  | committerClosed => "GROUP_COMMITTER_CLOSED"
  | sweeperStarted => "SWEEPER_STARTED"
  | sweeperStopped => "SWEEPER_STOPPED"
  | sweeperPanicked => "SWEEPER_PANICKED"
  | groupOpened => "GROUP_OPENED"
  | groupSizeFixed => "GROUP_SIZE_FIXED"
  | groupSizeFixTimeout => "GROUP_SIZE_FIX_TIMEOUT"
  | slotRelocated => "SLOT_RELOCATED"
  | groupDiscarded => "GROUP_DISCARDED"
  | groupEmitted => "GROUP_EMITTED"
  | groupEmitFailed => "GROUP_EMIT_FAILED"
  | groupAborted => "GROUP_ABORTED"
  | groupAbandoned => "GROUP_ABANDONED"

/-- The kind of a given name. -/
def ofName? (text : String) : Option EventKind := all.find? (·.name == text)

/-- The severity at which events of a kind are logged. -/
def severity : EventKind → Severity
  | groupOpened | groupSizeFixed | groupSizeFixTimeout | groupDiscarded | groupEmitted => .trace
  | committerStarted | committerClosed | sweeperStarted | sweeperStopped => .info
  | slotRelocated | groupAborted | groupAbandoned => .warn
  | groupEmitFailed | sweeperPanicked => .error

end EventKind

/-- Something that a committer reports. -/
inductive Event where
  /-- A committer was made, for groups of this capacity. -/
  | committerStarted (capacity : Nat)
  /-- A committer was shut down. -/
  | committerClosed
  /-- A sweeper started. -/
  | sweeperStarted (sweeper : Sweeper)
  /-- A sweeper stopped. -/
  | sweeperStopped (sweeper : Sweeper)
  /-- The sweeper on this thread had broken down. -/
  | sweeperPanicked (thread : String)
  /-- A group was opened for reservations. -/
  | groupOpened (parent : String)
  /-- A group reached its capacity. -/
  | groupSizeFixed (parent : String) (slots : Nat)
  /-- A group was old enough to fix its size. -/
  | groupSizeFixTimeout (parent : String) (slots : Nat)
  /-- A slot was moved out of a group. -/
  | slotRelocated (source fullKey : String)
  /-- A group lost all of its slots. -/
  | groupDiscarded (key : String)
  /-- An emission of so many values succeeded. -/
  | groupEmitted (emitKey : String) (values : Nat)
  /-- An emission failed, or had no emitter. -/
  | groupEmitFailed (emitKey reason : String)
  /-- A group outlived the abort window. -/
  | groupAborted (key : String) (ageMillis : Nat)
  /-- A group was given up at shutdown. -/
  | groupAbandoned (key : String)
  deriving DecidableEq

namespace Event

/-- The kind of an event. -/
def kind : Event → EventKind
  | committerStarted _ => .committerStarted
  | committerClosed => .committerClosed
  | sweeperStarted _ => .sweeperStarted
  | sweeperStopped _ => .sweeperStopped
  | sweeperPanicked _ => .sweeperPanicked
  | groupOpened _ => .groupOpened
  | groupSizeFixed _ _ => .groupSizeFixed
  | groupSizeFixTimeout _ _ => .groupSizeFixTimeout
  | slotRelocated _ _ => .slotRelocated
  | groupDiscarded _ => .groupDiscarded
  | groupEmitted _ _ => .groupEmitted
  | groupEmitFailed _ _ => .groupEmitFailed
  | groupAborted _ _ => .groupAborted
  | groupAbandoned _ => .groupAbandoned

/-- The fields of an event, apart from the label of its committer. -/
def fields : Event → List (String × String)
  | committerStarted capacity => [("slot_capacity", toString capacity)]
  | committerClosed => []
  | sweeperStarted sweeper | sweeperStopped sweeper => [("sweeper", sweeper.name)]
  | sweeperPanicked thread => [("sweeper", thread)]
  | groupOpened parent => [("parent_key", parent)]
  | groupSizeFixed parent slots | groupSizeFixTimeout parent slots =>
    [("parent_key", parent), ("slots", toString slots)]
  | slotRelocated source fullKey => [("from", source), ("full_key", fullKey)]
  | groupDiscarded key | groupAbandoned key => [("key", key)]
  | groupEmitted emitKey values => [("emit_key", emitKey), ("values", toString values)]
  | groupEmitFailed emitKey reason => [("emit_key", emitKey), ("reason", reason)]
  | groupAborted key ageMillis => [("key", key), ("age_ms", toString ageMillis)]

end Event

end BatchedCommit
