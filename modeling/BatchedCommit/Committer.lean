import BatchedCommit.Registry.Call
import BatchedCommit.Registry.Sweep

/-!
# BatchedCommit.Committer

A committer together with everybody who calls it. Callers that have stored a value wait for
the outcome of their group: each of them looks at the group, and then sleeps until it is
woken, or returns the outcome, or claims the emission and runs the emitter while nobody
holds the registry.

Every function here is one step that nobody else can divide; a caller goes through

```
looking ──> claimed ──> emitting ──> emitted ──> notifying ──> leaving ──> returned
 │   ↑                                                                       ↑
 │   └── asleep <──┐                                                         │
 └─────────────────┴─────────────────────────────────────────────────────────┘
```

and the steps of different callers may follow each other in any order. A section that changes
a group for sleeping callers leaves a wake-up behind, which is delivered by a step of its own.
-/

namespace BatchedCommit

/-- Where a call stands that has stored its value. -/
inductive Phase (ν : Type) where
  /-- It is awake and about to look at its group. -/
  | looking
  /-- It sleeps until its group is announced. -/
  | asleep
  /-- It has claimed the emission of these values. -/
  | claimed (values : List ν)
  /-- The emitter runs on its behalf; the number is that of the emission. -/
  | emitting (emission : Nat)
  /-- The emission is over, and its group does not know yet. -/
  | emitted (verdict : Verdict)
  /-- It has to wake the callers of its group. -/
  | notifying (verdict : Verdict)
  /-- It has to take its group out of the index. -/
  | leaving (verdict : Verdict)
  /-- It has returned. -/
  | returned (verdict : Verdict)

/-- A call that has stored its value. -/
structure Caller (ν : Type) where
  /-- The group whose outcome it waits for. -/
  group : Nat
  /-- The slot that its value went into. -/
  fullKey : String
  /-- Where it stands. -/
  phase : Phase ν := .looking

/-- The caller after a group was announced: if it slept on that group, it is awake. -/
def Caller.rouse {ν : Type} (group : Nat) (caller : Caller ν) : Caller ν :=
  match caller.phase with
  | .asleep => if caller.group = group then { caller with phase := .looking } else caller
  | _ => caller

/-- A run of the emitter. -/
structure Emission (ν : Type) where
  /-- The group whose values were emitted. -/
  group : Nat
  /-- The key that the emitter was given. -/
  emitKey : String
  /-- The values that the emitter was given. -/
  values : List ν
  /-- What the emitter answered, once it has: nothing, or a text about its failure. -/
  answer : Option (Except String Unit) := none

/-- A committer and its callers. `ν` is the type of the values, `ε` that of emitters. -/
structure Committer (ν ε : Type) where
  /-- The name of the committer in its reports. -/
  label : String
  /-- Its groups. -/
  registry : Registry ν
  /-- The emitter in use. -/
  emitter : Option ε := none
  /-- The calls that have stored a value, in the order in which they did. -/
  callers : Array (Caller ν) := #[]
  /-- The groups whose callers are to be woken. -/
  pending : List Nat := []
  /-- The runs of the emitter, in the order in which they began. -/
  emissions : Array (Emission ν) := #[]
  /-- What was reported so far. -/
  journal : Array Event := #[]
  /-- The sweeper that moves slots has not broken down. -/
  relocating : Bool := true

namespace Committer

variable {ν ε α : Type}

/-! ## Starting -/

/-- Starts a committer whose slots take `slotBytes` bytes each, or fails because of its settings
    or because a sweeper cannot be started, for a given reason; the sweepers before that one
    are stopped again. Answers the events as well. -/
def launch (label : String) (settings : Settings) (scheme : KeyScheme) (slotBytes : Nat)
    (unstartable : Option (Sweeper × String)) :
    Except Failure (Committer ν ε) × List Event :=
  match settings.validate with
  | .error failure => (.error failure, [])
  | .ok () =>
    match unstartable with
    | some (sweeper, reason) =>
      let started := Sweeper.all.takeWhile (· != sweeper)
      (.error (.workerNotStarted (sweeper.threadName label) reason),
        started.map .sweeperStarted ++ started.map .sweeperStopped ++ [.committerClosed])
    | none =>
      let registry := Registry.empty settings scheme slotBytes
      let events := Sweeper.all.map .sweeperStarted ++ [.committerStarted registry.capacity]
      (.ok { label, registry, journal := events.toArray }, events)

/-! ## Parts of steps -/

/-- The committer after a section of its registry. -/
def absorb (committer : Committer ν ε) (state : Section ν α) : Committer ν ε :=
  { committer with
    registry := state.registry
    journal := committer.journal ++ state.events
    pending := committer.pending ++ state.woken }

/-- The committer after one event was reported. -/
def report (committer : Committer ν ε) (event : Event) : Committer ν ε :=
  { committer with journal := committer.journal.push event }

/-- Where a caller stands. -/
def phase? (committer : Committer ν ε) (caller : Nat) : Option (Phase ν) :=
  committer.callers[caller]?.map Caller.phase

/-- The committer with a caller in another phase. -/
def setPhase (committer : Committer ν ε) (caller : Nat) (phase : Phase ν) : Committer ν ε :=
  { committer with
    callers := committer.callers.modify caller fun caller => { caller with phase } }

/-- The committer with every sleeping caller of a group awake. -/
def rouseAll (committer : Committer ν ε) (group : Nat) : Committer ν ε :=
  { committer with callers := committer.callers.map (Caller.rouse group) }

/-! ## Calls -/

/-- Reserves a slot and answers its full key, unless the call breaks down. -/
def reserve (committer : Committer ν ε) (now : Instant) (child : String) :
    Option (Except Failure String) × Committer ν ε :=
  let state := committer.registry.reserve now child
  (state.answer, committer.absorb state)

/-- Stores a value. The call, which then waits for its group, is answered by its number. -/
def store (committer : Committer ν ε) (fullKey : String) (value : ν) :
    Except Failure Nat × Committer ν ε :=
  let state := committer.registry.store fullKey value
  let committer := committer.absorb state
  match state.answer with
  | .error failure => (.error failure, committer)
  | .ok group =>
    (.ok committer.callers.size,
      { committer with callers := committer.callers.push { group, fullKey } })

/-- Removes a slot. -/
def remove (committer : Committer ν ε) (fullKey : String) : Verdict × Committer ν ε :=
  let state := committer.registry.remove fullKey
  (state.answer, committer.absorb state)

/-- Puts an emitter in the place of the one in use. Emissions under way keep theirs. -/
def install (committer : Committer ν ε) (emitter : ε) : Committer ν ε :=
  { committer with emitter := some emitter }

/-- What stopping a sweeper reports: it stops, or it had broken down. -/
def stop (committer : Committer ν ε) (sweeper : Sweeper) : Committer ν ε :=
  if sweeper = .relocate ∧ committer.relocating = false then
    { committer.report (.sweeperPanicked (sweeper.threadName committer.label)) with
      registry := committer.registry.bump .sweeperPanics }
  else committer.report (.sweeperStopped sweeper)

/-- Shuts the committer down: its groups are given up and its sweepers stop. A second time
    nothing happens. -/
def close (committer : Committer ν ε) : Committer ν ε :=
  if committer.registry.closed then committer
  else
    (Sweeper.all.foldl stop (committer.absorb committer.registry.close)).report .committerClosed

/-! ## Sweeps and wake-ups -/

/-- One sweep of a sweeper. One that has broken down does nothing. -/
def sweep (committer : Committer ν ε) (now : Instant) : Sweeper → Committer ν ε
  | .sizeFix => committer.absorb (committer.registry.fixSizes now)
  | .relocate =>
    if committer.relocating then
      let state := committer.registry.relocate now
      { committer.absorb state with relocating := state.answer }
    else committer
  | .abort => committer.absorb (committer.registry.abortOld now)

/-- Delivers a wake-up that is due to the callers of a group. -/
def deliver (committer : Committer ν ε) (group : Nat) : Committer ν ε :=
  if group ∈ committer.pending then
    { committer.rouseAll group with pending := committer.pending.erase group }
  else committer

/-- A caller wakes up of its own accord, as a sleeper may at any time. -/
def stir (committer : Committer ν ε) (caller : Nat) : Committer ν ε :=
  match committer.callers[caller]? with
  | some { phase := .asleep, .. } => committer.setPhase caller .looking
  | _ => committer

/-! ## The steps of a waiting caller -/

/-- The caller looks at its group. -/
def look (committer : Committer ν ε) (caller : Nat) : Committer ν ε :=
  match committer.callers[caller]? with
  | some { group, phase := .looking, .. } =>
    let state := committer.registry.glance group
    let committer := committer.absorb state
    match state.answer with
    | .ended verdict => committer.setPhase caller (.returned verdict)
    | .claimed values => committer.setPhase caller (.claimed values)
    | .pending => committer.setPhase caller .asleep
  | _ => committer

/-- The key under which a group is emitted. -/
def emitKeyOf (committer : Committer ν ε) (group : Nat) : String :=
  (committer.registry.groups[group]?.map Group.emitKey).getD ""

/-- The caller takes the emitter that is in use and starts it; without one the emission has
    failed already. -/
def begin (committer : Committer ν ε) (caller : Nat) : Committer ν ε :=
  match committer.callers[caller]? with
  | some { group, phase := .claimed values, .. } =>
    let emitKey := committer.emitKeyOf group
    match committer.emitter with
    | none =>
      let committer := committer.report (.groupEmitFailed emitKey "no emitter installed")
      { committer with registry := committer.registry.bump .emitFailures }.setPhase caller
        (.emitted (.error (.emitterNotSet emitKey)))
    | some _ =>
      { committer with
        emissions := committer.emissions.push { group, emitKey, values } }.setPhase caller
          (.emitting committer.emissions.size)
  | _ => committer

/-- The emitter that runs for the caller comes back with an answer. -/
def complete (committer : Committer ν ε) (caller : Nat) (answer : Except String Unit) :
    Committer ν ε :=
  match committer.callers[caller]? with
  | some { phase := .emitting number, .. } =>
    match committer.emissions[number]? with
    | none => committer
    | some emission =>
      let committer := { committer with
        emissions := committer.emissions.setIfInBounds number
          { emission with answer := some answer } }
      match answer with
      | .ok () =>
        let count := emission.values.length
        let committer := { committer with registry := { committer.registry with
          counters := committer.registry.counters.recordEmission count } }
        (committer.report (.groupEmitted emission.emitKey count)).setPhase caller
          (.emitted (.ok ()))
      | .error cause =>
        let failure := Failure.emitFailed emission.emitKey cause
        let committer := { committer with
          registry := committer.registry.bump .emitFailures }
        (committer.report (.groupEmitFailed emission.emitKey failure.message)).setPhase caller
          (.emitted (.error failure))
  | _ => committer

/-- The caller tells its group how the emission ended. -/
def conclude (committer : Committer ν ε) (caller : Nat) : Committer ν ε :=
  match committer.callers[caller]? with
  | some { group, phase := .emitted verdict, .. } =>
    { committer with registry := committer.registry.finish group verdict }.setPhase caller
      (.notifying verdict)
  | _ => committer

/-- The caller wakes the other callers of its group. -/
def announce (committer : Committer ν ε) (caller : Nat) : Committer ν ε :=
  match committer.callers[caller]? with
  | some { group, phase := .notifying verdict, .. } =>
    (committer.rouseAll group).setPhase caller (.leaving verdict)
  | _ => committer

/-- The caller takes its group out of the index and returns. -/
def leave (committer : Committer ν ε) (caller : Nat) : Committer ν ε :=
  match committer.callers[caller]? with
  | some { group, phase := .leaving verdict, .. } =>
    { committer with registry := committer.registry.retire group }.setPhase caller
      (.returned verdict)
  | _ => committer

/-! ## Questions -/

/-- The callers that sleep on a group. -/
def sleepers (committer : Committer ν ε) (group : Nat) : List Nat :=
  (List.range committer.callers.size).filter fun caller =>
    match committer.callers[caller]? with
    | some { group := own, phase := .asleep, .. } => own == group
    | _ => false

end Committer

end BatchedCommit
