import BatchedCommit.Simulation

/-!
# BatchedCommit.Simulation.Schedule

One order for the moves of a simulation, with a time for each of them. The clock stands still
while anybody can move. Then it goes on to the next instant at which something happens: an
emission comes to its end, or the sweepers sweep, which they do at the multiples of the sweep
interval.
-/

namespace BatchedCommit

namespace Simulation

/-- A simulation and its clock. -/
structure Timeline where
  /-- The simulation. -/
  simulation : Simulation
  /-- The present instant. -/
  now : Nat := 0
  /-- The callers for whom the emitter runs, and the instants at which it will have run for
      long enough. -/
  due : List (Nat × Nat) := []

namespace Timeline

/-! ## Moving -/

/-- The move that the caller of a worker can make now. -/
def callerMove? (timeline : Timeline) (worker caller : Nat) : Option Move :=
  match timeline.simulation.committer.phase? caller with
  | none | some .asleep => none
  | some .looking => some (.look caller)
  | some (.claimed _) => some (.begin caller)
  | some (.emitting _) =>
    if (timeline.due.lookup caller).any (timeline.now < ·) then none else some (.complete caller)
  | some (.emitted _) => some (.conclude caller)
  | some (.notifying _) => some (.announce caller)
  | some (.leaving _) => some (.leave caller)
  | some (.returned _) => some (.collect worker)

/-- The move that a worker can make now. -/
def workerMove? (timeline : Timeline) (number : Nat) : Option Move :=
  match timeline.simulation.workers[number]? with
  | none => none
  | some { finished, activity } =>
    match activity with
    | .reserving =>
      if finished < timeline.simulation.options.commits then some (.reserve number timeline.now)
      else none
    | .storing _ => some (.store number)
    | .waiting caller => timeline.callerMove? number caller
    | .broken => none

/-- The next move at the present instant: wake-ups come first, then the first worker that can
    move. -/
def move? (timeline : Timeline) : Option Move :=
  match timeline.simulation.committer.pending with
  | group :: _ => some (.deliver group)
  | [] => (List.range timeline.simulation.workers.size).findSome? timeline.workerMove?

/-- The timeline after a move. An emission that begins will take its time. -/
def make (timeline : Timeline) (move : Move) : Timeline :=
  let timeline := { timeline with simulation := timeline.simulation.step move }
  match move with
  | .begin caller =>
    let stop := timeline.now + timeline.simulation.options.emitDelay
    { timeline with due := (caller, stop) :: timeline.due }
  | .complete caller => { timeline with due := timeline.due.filter (·.1 != caller) }
  | _ => timeline

/-- Everybody moves who can, for at most so many moves. -/
def settle : Nat → Timeline → Timeline
  | 0, timeline => timeline
  | fuel + 1, timeline =>
    match timeline.move? with
    | none => timeline
    | some move => settle fuel (timeline.make move)

/-! ## The clock -/

/-- The next instant at which the sweepers sweep. -/
def nextTick (timeline : Timeline) : Nat :=
  let interval := timeline.simulation.committer.registry.settings.sweepInterval
  (timeline.now / interval + 1) * interval

/-- One sweep at the present instant, with everything that follows from it. -/
def sweep (fuel : Nat) (timeline : Timeline) (sweeper : Sweeper) : Timeline :=
  (timeline.make (.sweep sweeper timeline.now)).settle fuel

/-- The clock goes on to the next instant at which something happens, and it happens. -/
def pass (fuel : Nat) (timeline : Timeline) : Timeline :=
  let tick := timeline.nextTick
  let stop := (timeline.due.map Prod.snd).foldl min tick
  let reached := { timeline with now := stop }.settle fuel
  if stop = tick then Sweeper.all.foldl (sweep fuel) reached else reached

/-- The simulation goes on until it is over, for at most so many instants. -/
def finish (fuel : Nat) : Nat → Timeline → Timeline
  | 0, timeline => timeline
  | instants + 1, timeline =>
    if timeline.simulation.isOver then timeline
    else finish fuel instants (timeline.pass fuel)

end Timeline

/-! ## Whole simulations -/

/-- More moves than the workers make in all. -/
def Options.moves (options : Options) : Nat := 32 * (options.workers * options.commits + 1)

/-- More instants than pass until the workers have made their commits: each commit is over
    when its group was old enough for one of the sweeps that end the time of reservations, and
    the emission has taken its time. -/
def Options.instants (options : Options) (settings : Settings) : Nat :=
  let window := min settings.sizeFixWindow settings.abortWindow
  (options.workers * options.commits + 1) *
    ((window + options.emitDelay) / settings.sweepInterval + 4)

/-- How many bytes a slot with a text key and a number takes. -/
def slotBytes : Nat := 72

/-- Runs a whole simulation and closes its committer. Answers the report, whose counters are
    read before the committer closes, and what the committer reported in the meantime. -/
def simulate (settings : Settings) (options : Options) :
    Except CommandError (Report × List Event) :=
  match options.check with
  | .error error => .error error
  | .ok () =>
    match (Committer.launch (ν := Nat) (ε := Unit) "simulate" settings {} slotBytes
        none).1 with
    | .error failure => .error (.ofFailure failure)
    | .ok committer =>
      let timeline : Timeline := { simulation := start options committer }
      let ended := (timeline.settle options.moves).finish options.moves
        (options.instants settings)
      let simulation := ended.simulation
      if simulation.isBroken then .error .breakdown
      else .ok (simulation.report ended.now, simulation.committer.close.journal.toList)

end Simulation

end BatchedCommit
