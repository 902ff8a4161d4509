import BatchedCommit.Event
import BatchedCommit.Simulation

/-!
# BatchedCommit.CommandLine

What a command line can ask for, and why it may be refused. There are two commands: one shows
the settings in a file, the other runs a simulation with them.
-/

namespace BatchedCommit

namespace CommandLine

/-- A command with its options. -/
inductive Command where
  /-- Show the settings in the file at a path. -/
  | checkConfig (path : String)
  /-- Run a simulation with the settings in the file at a path. -/
  | simulate (path : String) (options : Simulation.Options)
  deriving DecidableEq

/-- The path of the file with the settings. -/
def Command.path : Command → String
  | checkConfig path | simulate path _ => path

/-- What a command line asks for. -/
structure Invocation where
  /-- The least severity that is logged. -/
  logLevel : Severity
  /-- The command. -/
  command : Command
  deriving DecidableEq

/-- Why a command line gives no command. Two of the reasons are not mistakes: the help or the
    version is asked for. -/
inductive UsageError where
  /-- The help is asked for. -/
  | help
  /-- The version is asked for. -/
  | version
  /-- There are no arguments, which calls for the help as well. -/
  | noArguments
  /-- There are options, and no command. -/
  | missingCommand
  /-- There is no command of this name. -/
  | unknownCommand
  /-- There is no such option, or no argument may stand here. -/
  | unknownArgument
  /-- The value of an option is missing, or none of those that it may have. -/
  | invalidValue
  /-- The value of an option is not a number of its type. -/
  | notNumber
  /-- An option is given twice. -/
  | repeated
  /-- A flag is given a value. -/
  | unneededValue
  deriving DecidableEq

/-- The help or the version was asked for: nothing went wrong. -/
def UsageError.isRequest : UsageError → Bool
  | help | version => true
  | noArguments | missingCommand | unknownCommand | unknownArgument | invalidValue | notNumber
  | repeated | unneededValue => false

/-- The help, line by line. -/
def helpLines : List String :=
  ["Usage: txcommit [--log-level LEVEL] COMMAND [OPTIONS]",
    "",
    "Commands:",
    "  check-config  Show the settings in a file",
    "  simulate      Run a simulation with them and show what was counted",
    "  help          Show this text",
    "",
    "Options:",
    "  --log-level LEVEL   trace, info, warn or error [default: info]",
    "  --config PATH       the file with the settings [default: ./groupcommit.json]",
    "  --workers N         simulate: the number of workers [default: 4]",
    "  --commits N         simulate: the commits of each worker [default: 100]",
    "  --emit-delay-ms N   simulate: how long an emission takes [default: 1]",
    "  --fail-every N      simulate: every N-th emission fails"]

/-- The text for a reader. -/
def UsageError.message : UsageError → String
  | help | noArguments => "\n".intercalate helpLines
  | version => "txcommit 0.1.0"
  | missingCommand => "error: a command is required"
  | unknownCommand => "error: there is no such command"
  | unknownArgument => "error: unexpected argument"
  | invalidValue => "error: the value of an option is missing or invalid"
  | notNumber => "error: the value of an option is not a number of its type"
  | repeated => "error: an option cannot be used more than once"
  | unneededValue => "error: a flag has no value"

end CommandLine

end BatchedCommit
