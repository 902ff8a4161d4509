import BatchedCommit.CommandLine.Arguments
import BatchedCommit.CommandLine.Output

/-!
# BatchedCommit.Main

The command line: it reads the arguments and the file with the settings, and puts out what the
command puts out. Errors are written to the standard error stream, as log lines of that
severity are.
-/

namespace BatchedCommit

namespace CommandLine

/-- What stands behind a path on this machine. -/
def contentAt (path : String) : IO FileContent := do
  try
    return .ok (← IO.FS.readBinFile path)
  catch error =>
    return match error with
      | .noFileOrDirectory .. => .missing
      | .inappropriateType .. => .directory
      | error => .error (toString error)

/-- Answers a command line that gives no command; the result is the exit code. -/
def answerUsage (error : UsageError) : IO UInt32 := do
  if error.isRequest then
    IO.println error.message
    return 0
  else
    IO.eprintln error.message
    return 2

/-- Writes what a command puts out; the result is the exit code. -/
def write (output : Output) : IO UInt32 := do
  for line in output.log do
    if line.stream == 2 then IO.eprintln line.text else IO.println line.text
  IO.print output.text
  match output.result with
  | .ok _ => return 0
  | .error error =>
    IO.eprintln error.message
    return error.exitCode

/-- Runs a command line; the result is the exit code. -/
def respond (arguments : List String) : IO UInt32 := do
  match Invocation.ofArguments arguments with
  | .error error => answerUsage error
  | .ok invocation => write (invocation.output (← contentAt invocation.command.path))

end CommandLine

end BatchedCommit

/-- The program. -/
def main (arguments : List String) : IO UInt32 := BatchedCommit.CommandLine.respond arguments
