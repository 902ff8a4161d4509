import BatchedCommit.CommandError
import BatchedCommit.Committer

/-!
# BatchedCommit.Simulation

A committer under the load of synthetic workers. Each worker makes its commits one after the
other: it reserves a slot, stores a value and waits for the outcome. The emitter that they
share may fail at every `k`-th emission.

A `Move` is one step that nobody else can divide, and moves of different workers, callers and
sweepers may follow each other in any order; a move that nobody is in the position to make
changes nothing. `BatchedCommit.Simulation.Schedule` chooses one order and a time for each
move.
-/

namespace BatchedCommit

namespace Simulation

/-- What a simulation is asked for. -/
structure Options where
  /-- The number of workers. -/
  workers : Nat
  /-- The number of commits of each worker. -/
  commits : Nat
  /-- How long an emission takes, in milliseconds. -/
  emitDelay : Nat
  /-- Every emission whose number is divided by this one fails. -/
  failEvery : Option Nat
  deriving DecidableEq

/-- Refuses a simulation without workers, and one in which every zeroth emission fails. -/
def Options.check (options : Options) : Except CommandError Unit :=
  if options.workers = 0 then .error (.simulation "workers must be > 0")
  else if options.failEvery = some 0 then .error (.simulation "fail_every must be > 0")
  else .ok ()

/-! ## Workers -/

/-- Where a worker stands in its present commit. -/
inductive Activity where
  /-- It is about to reserve a slot. -/
  | reserving
  /-- It has reserved the slot of this full key, and is about to store the value. -/
  | storing (fullKey : String)
  /-- Its value is stored, and it waits for the return of this call. -/
  | waiting (caller : Nat)
  /-- It has broken down over a reservation. -/
  | broken
  deriving DecidableEq

/-- A worker. -/
structure Worker where
  /-- How many of its commits are finished. -/
  finished : Nat := 0
  /-- What it does for the next one. -/
  activity : Activity := .reserving
  deriving DecidableEq

/-- The worker after its present commit is finished. -/
def Worker.advance (worker : Worker) : Worker := { finished := worker.finished + 1 }

/-- The child key for a commit of a worker. Both are counted from zero. -/
def childKey (worker commit : Nat) : String :=
  "w" ++ toString worker ++ "-" ++ toString commit

/-! ## The emitter -/

/-- What the emitter answers to the emission of a number; the first one has the number 1. -/
def flush (failEvery : Option Nat) (number : Nat) (emission : Emission Nat) :
    Except String Unit :=
  match failEvery with
  | none => .ok ()
  | some k =>
    if number % k = 0 then
      .error ("simulated flush failure for " ++ emission.emitKey ++ " (" ++
        toString emission.values.length ++ " values)")
    else .ok ()

end Simulation

/-! ## The state of a simulation -/

/-- A committer under the load of workers. -/
structure Simulation where
  /-- What was asked for. -/
  options : Simulation.Options
  /-- The committer and its callers. -/
  committer : Committer Nat Unit
  /-- The workers. -/
  workers : Array Simulation.Worker
  /-- How many commits succeeded. -/
  committed : Nat := 0
  /-- How many commits failed. -/
  failed : Nat := 0

namespace Simulation

/-- One step in a simulation. -/
inductive Move where
  /-- A worker reserves the slot of its next commit. -/
  | reserve (worker : Nat) (now : Instant)
  /-- A worker stores its value. -/
  | store (worker : Nat)
  /-- A worker takes note of the outcome of its commit. -/
  | collect (worker : Nat)
  /-- A sweeper sweeps. -/
  | sweep (sweeper : Sweeper) (now : Instant)
  /-- A wake-up that is due is delivered. -/
  | deliver (group : Nat)
  /-- A caller looks at its group. -/
  | look (caller : Nat)
  /-- A caller starts the emitter. -/
  | begin (caller : Nat)
  /-- The emitter of a caller answers. -/
  | complete (caller : Nat)
  /-- A caller tells its group how the emission ended. -/
  | conclude (caller : Nat)
  /-- A caller wakes the others. -/
  | announce (caller : Nat)
  /-- A caller takes its group out of the index and returns. -/
  | leave (caller : Nat)
  deriving DecidableEq

/-- A simulation before its first move, with a committer that nobody has called. -/
def start (options : Options) (committer : Committer Nat Unit) : Simulation where
  options := options
  committer := committer.install ()
  workers := Array.replicate options.workers {}

/-- The simulation with another state of a worker. -/
def setWorker (simulation : Simulation) (number : Nat) (worker : Worker) : Simulation :=
  { simulation with workers := simulation.workers.setIfInBounds number worker }

/-- The simulation after a commit of a worker ended in this way. -/
def count (simulation : Simulation) (number : Nat) (worker : Worker) (verdict : Verdict) :
    Simulation :=
  let simulation := simulation.setWorker number worker.advance
  match verdict with
  | .ok () => { simulation with committed := simulation.committed + 1 }
  | .error _ => { simulation with failed := simulation.failed + 1 }

/-- A worker reserves the slot of its next commit, if it has one to make. -/
def reserve (simulation : Simulation) (number : Nat) (now : Instant) : Simulation :=
  match simulation.workers[number]? with
  | some { finished, activity := .reserving } =>
    if finished < simulation.options.commits then
      let (answer, committer) := simulation.committer.reserve now (childKey number finished)
      let simulation := { simulation with committer }
      match answer with
      | none => simulation.setWorker number { finished, activity := .broken }
      | some (.ok fullKey) =>
        simulation.setWorker number { finished, activity := .storing fullKey }
      | some (.error failure) => simulation.count number { finished } (.error failure)
    else simulation
  | _ => simulation

/-- A worker stores the value of its commit: the number of the commit. -/
def store (simulation : Simulation) (number : Nat) : Simulation :=
  match simulation.workers[number]? with
  | some { finished, activity := .storing fullKey } =>
    let (answer, committer) := simulation.committer.store fullKey finished
    let simulation := { simulation with committer }
    match answer with
    | .ok caller => simulation.setWorker number { finished, activity := .waiting caller }
    | .error failure => simulation.count number { finished } (.error failure)
  | _ => simulation

/-- A worker takes note of the outcome of its commit, once the call has returned. -/
def collect (simulation : Simulation) (number : Nat) : Simulation :=
  match simulation.workers[number]? with
  | some { finished, activity := .waiting caller } =>
    match simulation.committer.phase? caller with
    | some (.returned verdict) => simulation.count number { finished } verdict
    | _ => simulation
  | _ => simulation

/-- The emitter that runs for a caller answers as the number of its emission demands. -/
def complete (simulation : Simulation) (caller : Nat) : Simulation :=
  match simulation.committer.phase? caller with
  | some (.emitting emission) =>
    match simulation.committer.emissions[emission]? with
    | some run =>
      let answer := flush simulation.options.failEvery (emission + 1) run
      { simulation with committer := simulation.committer.complete caller answer }
    | none => simulation
  | _ => simulation

/-- The simulation after a move. -/
def step (simulation : Simulation) : Move → Simulation
  | .reserve worker now => simulation.reserve worker now
  | .store worker => simulation.store worker
  | .collect worker => simulation.collect worker
  | .sweep sweeper now =>
    { simulation with committer := simulation.committer.sweep now sweeper }
  | .deliver group => { simulation with committer := simulation.committer.deliver group }
  | .look caller => { simulation with committer := simulation.committer.look caller }
  | .begin caller => { simulation with committer := simulation.committer.begin caller }
  | .complete caller => simulation.complete caller
  | .conclude caller => { simulation with committer := simulation.committer.conclude caller }
  | .announce caller => { simulation with committer := simulation.committer.announce caller }
  | .leave caller => { simulation with committer := simulation.committer.leave caller }

/-- The simulation after a list of moves. -/
def run (simulation : Simulation) (moves : List Move) : Simulation := moves.foldl step simulation

theorem run_append (simulation : Simulation) (first second : List Move) :
    simulation.run (first ++ second) = (simulation.run first).run second :=
  List.foldl_append

/-- Every worker has made all of its commits. -/
def isOver (simulation : Simulation) : Bool :=
  simulation.workers.all fun worker => decide (simulation.options.commits ≤ worker.finished)

/-- A worker has broken down. The simulation breaks down with it when the others are through. -/
def isBroken (simulation : Simulation) : Bool :=
  simulation.workers.any fun worker => worker.activity == .broken

/-! ## Reports -/

/-- What a simulation has come to. -/
structure Report where
  /-- The number of workers. -/
  workers : Nat
  /-- The number of commits of each worker. -/
  commitsPerWorker : Nat
  /-- How many commits succeeded. -/
  committed : Nat
  /-- How many commits failed. -/
  failed : Nat
  /-- How often the emitter was started. -/
  emissions : Nat
  /-- How long it took, in milliseconds. -/
  elapsedMillis : Nat
  /-- What the committer has counted. -/
  counters : Counters
  deriving DecidableEq

/-- The report of a simulation that took so many milliseconds. -/
def report (simulation : Simulation) (elapsedMillis : Nat) : Report where
  workers := simulation.options.workers
  commitsPerWorker := simulation.options.commits
  committed := simulation.committed
  failed := simulation.failed
  emissions := simulation.committer.emissions.size
  elapsedMillis := elapsedMillis
  counters := simulation.committer.registry.counters

/-- A report as an object. -/
def Report.toJson (report : Report) : Json :=
  .obj [("workers", .int report.workers), ("commits_per_worker", .int report.commitsPerWorker),
    ("committed", .int report.committed), ("failed", .int report.failed),
    ("emissions", .int report.emissions), ("elapsed_ms", .int report.elapsedMillis),
    ("metrics", report.counters.toJson)]

end Simulation

end BatchedCommit
