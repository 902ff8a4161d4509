import BatchedCommit.CommandError
import BatchedCommit.CommandLine
import BatchedCommit.CommandLine.Arguments
import BatchedCommit.CommandLine.Output
import BatchedCommit.Committer
import BatchedCommit.Committer.Run
import BatchedCommit.Counters
import BatchedCommit.Decimal.Shortest
import BatchedCommit.Event
import BatchedCommit.Failure
import BatchedCommit.Group
import BatchedCommit.Group.Operation
import BatchedCommit.Json
import BatchedCommit.Json.Fault
import BatchedCommit.Json.FloatText
import BatchedCommit.Json.Number
import BatchedCommit.Json.Skip
import BatchedCommit.Json.Text
import BatchedCommit.KeyScheme
import BatchedCommit.Log
import BatchedCommit.Main
import BatchedCommit.Registry
import BatchedCommit.Registry.Call
import BatchedCommit.Registry.Sweep
import BatchedCommit.Scenario
import BatchedCommit.Scenario.Play
import BatchedCommit.Settings
import BatchedCommit.Settings.Load
import BatchedCommit.Settings.Reader
import BatchedCommit.Simulation
import BatchedCommit.Simulation.Schedule
import BatchedCommit.Slot
import BatchedCommit.Stage
import BatchedCommit.Table
import BatchedCommit.Text.Invisible
import BatchedCommit.Text.Shown
import BatchedCommit.Proofs.Coherence
import BatchedCommit.Proofs.Changes
import BatchedCommit.Proofs.Sections
import BatchedCommit.Proofs.Turns
import BatchedCommit.Proofs.Attendance
import BatchedCommit.Proofs.Moves
import BatchedCommit.Proofs.Wakeups
import BatchedCommit.Proofs.Index
import BatchedCommit.Proofs.Naming
import BatchedCommit.Proofs.Progress
import BatchedCommit.Proofs.Distinct
import BatchedCommit.Proofs.Emissions
import BatchedCommit.Proofs.Outcomes
import BatchedCommit.Proofs.History
import BatchedCommit.Proofs.Deposits
import BatchedCommit.Proofs.Delivery
import BatchedCommit.Proofs.Deeds
import BatchedCommit.Proofs.Expiry
import BatchedCommit.Proofs.Routing
import BatchedCommit.Proofs.Current
import BatchedCommit.Proofs.Shut
import BatchedCommit.Proofs.Enrolment
import BatchedCommit.Proofs.Origins
import BatchedCommit.Proofs.Tombstones
import BatchedCommit.Proofs.Fairness
import BatchedCommit.Proofs.Shutdown
import BatchedCommit.Proofs.Lifecycle
import BatchedCommit.Proofs.Refusals
import BatchedCommit.Proofs.Tally
import BatchedCommit.Proofs.Ledger
import BatchedCommit.Proofs.Books
import BatchedCommit.Proofs.Returns
import BatchedCommit.Proofs.Parting
import BatchedCommit.Proofs.Accounting
import BatchedCommit.Proofs.Descent
import BatchedCommit.Proofs.Completion
import BatchedCommit.Proofs.Workload
import BatchedCommit.Proofs.Commits
import BatchedCommit.Proofs.Totals
import BatchedCommit.Proofs.Blocks
import BatchedCommit.Proofs.LogLines
import BatchedCommit.Proofs.Reports
import BatchedCommit.Proofs.RoundTrip
import BatchedCommit.Proofs.Reordering
import BatchedCommit.Proofs.Relocations
import BatchedCommit.Proofs.Abortions
import BatchedCommit.Proofs.Sweeps
import BatchedCommit.Proofs.Malformed
import BatchedCommit.Proofs.Handover
import BatchedCommit.Proofs.Emptied
import BatchedCommit.Proofs.Removals
import BatchedCommit.Proofs.Singles
import BatchedCommit.Proofs.Skimming
import BatchedCommit.Proofs.ObjectForm
import BatchedCommit.Proofs.Notices
import BatchedCommit.Proofs.Journal
import BatchedCommit.Proofs.KeyOrder
import BatchedCommit.Proofs.Roster
import BatchedCommit.Proofs.ArrayForm
