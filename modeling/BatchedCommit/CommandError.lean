import BatchedCommit.Failure
import BatchedCommit.Json.Fault

/-!
# BatchedCommit.CommandError

Why a command of the command line fails. The message of an error starts with a stable code,
unless the command broke down.
-/

namespace BatchedCommit

/-- The reason for which a command fails. -/
inductive CommandError where
  /-- The settings cannot be used. -/
  | settings (text : String)
  /-- A stream cannot be read or written. -/
  | stream (text : String)
  /-- The simulation cannot be run. -/
  | simulation (text : String)
  /-- A worker of the simulation broke down, and the command with it. -/
  | breakdown
  deriving DecidableEq

namespace CommandError

/-- The stable code of the reason. A breakdown has none. -/
def code : CommandError → String
  | settings _ => "TXCOMMIT_CLI_CONFIG_ERROR"
  | stream _ => "TXCOMMIT_CLI_IO_ERROR"
  | simulation _ => "TXCOMMIT_CLI_SIMULATION_FAILED"
  | breakdown => ""

/-- The text without the code. -/
def text : CommandError → String
  | settings text | stream text | simulation text => text
  | breakdown => "a scoped thread panicked"

/-- The message for a reader. -/
def message (error : CommandError) : String :=
  if error = .breakdown then error.text else error.code ++ ": " ++ error.text

/-- The exit code of a command that fails. -/
def exitCode (error : CommandError) : UInt32 := if error = .breakdown then 101 else 1

/-- A failure of a committer as the error of a command. Settings that cannot be used keep the
    bare text; everything else is a failure of the simulation. -/
def ofFailure : Failure → CommandError
  | .invalidSettings text => settings text
  | failure => simulation failure.message

/-- A fault of a JSON text as the error of a command. -/
def ofFault (fault : Json.Fault) : CommandError := stream ("JSON error: " ++ fault.message)

end CommandError

end BatchedCommit
