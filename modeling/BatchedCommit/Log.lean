import BatchedCommit.Event
import BatchedCommit.Json

/-!
# BatchedCommit.Log

Log lines. A line is one JSON object: the event and its severity first, then the fields,
sorted by their keys. Lines below a least severity are not written, and errors go to a stream
of their own.
-/

namespace BatchedCommit

/-- The least severity that is written. -/
structure Log where
  /-- Lines of a smaller severity are left out. -/
  least : Severity := .info
  deriving DecidableEq

namespace Log

/-- The fields in the order of their keys. Fields of one key keep their order. -/
def sortFields (fields : List (String × String)) : List (String × String) :=
  fields.mergeSort fun a b => decide (a.1 ≤ b.1)

/-- The object of a line. -/
def entry (severity : Severity) (event : String) (fields : List (String × String)) : Json :=
  .obj (("event", .str event) :: ("severity", .str severity.name) ::
    (sortFields fields).map fun (key, value) => (key, .str value))

/-- A line, with the line break at its end. -/
def line (severity : Severity) (event : String) (fields : List (String × String)) : List Char :=
  (entry severity event fields).compact ++ ['\n']

/-- Lines of this severity are written. -/
def isEnabled (log : Log) (severity : Severity) : Bool := decide (log.least.rank ≤ severity.rank)

/-- The number of the stream that lines of a severity go to. -/
def stream (severity : Severity) : Nat := if severity = .error then 2 else 1

/-- A line that is written, as it is captured: the number of its stream and its text. -/
structure Captured where
  /-- The number of the stream. -/
  stream : Nat
  /-- The text, without the line break. -/
  text : String

/-- The captured line on one line of text. -/
def Captured.shown (captured : Captured) : String :=
  toString captured.stream ++ " " ++ captured.text

/-- What is written for an event: a line, or nothing below the least severity. -/
def write? (log : Log) (severity : Severity) (event : String)
    (fields : List (String × String)) : Option Captured :=
  if log.isEnabled severity then
    some ⟨stream severity, (entry severity event fields).compactText⟩
  else none

/-- What is written for an event of the committer with this label. -/
def report? (log : Log) (label : String) (event : Event) : Option Captured :=
  log.write? event.kind.severity event.kind.name (("committer", label) :: event.fields)

end Log

end BatchedCommit
