import BatchedCommit.CommandLine
import BatchedCommit.Log
import BatchedCommit.Settings.Load
import BatchedCommit.Simulation.Schedule

/-!
# BatchedCommit.CommandLine.Output

What a command puts out, given what stands behind the path that it names.
-/

namespace BatchedCommit

namespace CommandLine

/-- What a command puts out. -/
structure Output where
  /-- The log lines, in order. -/
  log : List Log.Captured := []
  /-- The value that the command shows. -/
  result : Except CommandError Json

/-- The text that a command shows: its value on several lines, or nothing after an error. -/
def Output.text (output : Output) : String :=
  match output.result with
  | .ok value => value.prettyText ++ "\n"
  | .error _ => ""

/-- What a simulation with these settings puts out. -/
def outputOfSimulation (log : Log) (settings : Settings) (options : Simulation.Options) :
    Output :=
  match Simulation.simulate settings options with
  | .error error => { result := .error error }
  | .ok (report, events) =>
    { log := events.filterMap (log.report? "simulate"), result := .ok report.toJson }

/-- What a command puts out. -/
def Invocation.output (invocation : Invocation) (content : FileContent) : Output :=
  match Settings.load invocation.command.path content with
  | .error failure => { result := .error (.ofFailure failure) }
  | .ok settings =>
    match invocation.command with
    | .checkConfig _ => { result := .ok settings.toJson }
    | .simulate _ options => outputOfSimulation { least := invocation.logLevel } settings options

end CommandLine

end BatchedCommit
