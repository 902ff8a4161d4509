import BatchedCommit.Log
import BatchedCommit.Scenario

/-!
# BatchedCommit.Scenario.Play

Playing a scenario. After each step everybody who can move moves, until all calls have
returned or wait: the caller that runs goes on until it has to wait, and those that it wakes
follow in the order in which they were woken. A call that an emitter makes belongs to the
thread of the emitter, which goes on when the call returns.

The clock stands still while calls are made. The sweepers sweep at the multiples of the sweep
interval, one after the other, and everybody moves after each of them.
-/

namespace BatchedCommit

namespace Scenario

/-- Who made a call. -/
inductive Origin where
  /-- The step of this number. -/
  | step (number : Nat)
  /-- The emitter that runs for this caller. -/
  | emitter (caller : Nat)

/-- A run of an emitter under way. -/
structure Play where
  /-- The key it was given. -/
  emitKey : String
  /-- What it does. -/
  rule : Rule
  /-- The calls that it has still to make. -/
  calls : List Call
  /-- The answers to the calls that it has made. -/
  answers : List Answer := []

/-- The state of a scenario. -/
structure Stand where
  /-- The committer and its callers. -/
  committer : Committer Json Script
  /-- What is logged. -/
  log : Log
  /-- The clock. -/
  now : Nat := 0
  /-- Who made the call of each caller. -/
  origins : Array Origin := #[]
  /-- The callers that can move, the next one first. -/
  queue : List Nat := []
  /-- The runs of emitters under way, by their caller. -/
  plays : List (Nat × Play) := []
  /-- The callers whose emitter waits to be released, the first one first. -/
  parked : List Nat := []
  /-- The emit keys that were released. -/
  released : List String := []
  /-- Every emit key counts as released. -/
  allReleased : Bool := false
  /-- The keys reserved by steps. -/
  reserved : Array String := #[]
  /-- The calls of steps that returned during the current step. -/
  returned : List (Nat × Verdict) := []
  /-- What the emitter recorded during the current section of the step. -/
  records : Array Record := #[]
  /-- How much of the journal belongs to earlier sections. -/
  written : Nat := 0

namespace Stand

/-! ## Who moves next -/

/-- A caller moves on at once. -/
def first (stand : Stand) (caller : Nat) : Stand :=
  { stand with queue := caller :: stand.queue }

/-- Callers move on after those that can move already. -/
def after (stand : Stand) (callers : List Nat) : Stand :=
  { stand with queue := stand.queue ++ callers }

/-- All wake-ups that are due are delivered. -/
def deliver (stand : Stand) : Stand :=
  stand.committer.pending.foldl (fun stand group =>
    { stand with committer := stand.committer.deliver group }.after
      (stand.committer.sleepers group)) stand

/-! ## Calls -/

/-- A call is made. A call that has to wait has no answer yet. -/
def perform (stand : Stand) (origin : Origin) : Call → Option Answer × Stand
  | .reserve child =>
    let (answer, committer) := stand.committer.reserve stand.now child
    (some ((answer.map .reserved).getD .broken), { stand with committer })
  | .ready fullKey value =>
    let (answer, committer) := stand.committer.store fullKey value
    match answer with
    | .error failure => (some (.verdict (.error failure)), { stand with committer })
    | .ok caller =>
      (none, { stand with committer, origins := stand.origins.push origin }.first caller)
  | .remove fullKey =>
    let (verdict, committer) := stand.committer.remove fullKey
    (some (.verdict verdict), { stand with committer }.deliver)
  | .stage fullKey => (some (.stage (stand.committer.registry.stageOf? fullKey)), stand)
  | .install script =>
    (some .silent, { stand with committer := stand.committer.install script })
  | .close => (some .silent, { stand with committer := stand.committer.close }.deliver)
  | .info =>
    let registry := stand.committer.registry
    (some (.info stand.committer.label registry.closed registry.liveCount
      registry.settings.text registry.counters.text), stand)

/-! ## Emitters at work -/

/-- The emitter that runs for a caller, with another state of its run. -/
def setPlay (stand : Stand) (caller : Nat) (play : Play) : Stand :=
  { stand with plays := (caller, play) :: stand.plays.filter (·.1 != caller) }

/-- The emitter that runs for a caller learns the answer to a call and goes on. -/
def answered (stand : Stand) (caller : Nat) (answer : Answer) : Stand :=
  match stand.plays.lookup caller with
  | some play =>
    (stand.setPlay caller { play with answers := play.answers ++ [answer] }).first caller
  | none => stand

/-- The emitter of an emission that has just begun is set to work by its script. -/
def raise (stand : Stand) (caller emission : Nat) : Stand :=
  match stand.committer.emissions[emission]?, stand.committer.emitter with
  | some emission, some script =>
    let rule := ruleFor script emission.emitKey
    let stand := stand.setPlay caller { emitKey := emission.emitKey, rule, calls := rule.calls }
    { stand with records := stand.records.push (.values emission.emitKey emission.values) }
  | _, _ => stand

/-- The emitter of this emit key does not have to wait, or no longer. -/
def isReleased (stand : Stand) (play : Play) : Bool :=
  !play.rule.gate || stand.allReleased || stand.released.contains play.emitKey

/-- The emitter that runs for a caller does the next thing. -/
def work (stand : Stand) (caller : Nat) : Stand :=
  match stand.plays.lookup caller with
  | none => stand
  | some play =>
    if !stand.isReleased play then { stand with parked := stand.parked ++ [caller] }
    else
      match play.calls with
      | call :: calls =>
        match (stand.setPlay caller { play with calls }).perform (.emitter caller) call with
        | (some answer, stand) => stand.answered caller answer
        | (none, stand) => stand
      | [] =>
        let records :=
          if play.rule.calls.isEmpty then stand.records
          else stand.records.push (.answers play.emitKey play.answers)
        { stand with
          records
          plays := stand.plays.filter (·.1 != caller)
          committer := stand.committer.complete caller play.rule.ending.answer }.first caller

/-! ## Callers at work -/

/-- A caller has made a step: it goes on, or sleeps, or hands its outcome to whoever made the
    call. -/
def follow (stand : Stand) (caller : Nat) : Stand :=
  match stand.committer.phase? caller with
  | none | some .asleep => stand
  | some (.returned verdict) =>
    match stand.origins[caller]? with
    | some (.step number) => { stand with returned := stand.returned ++ [(number, verdict)] }
    | some (.emitter host) => stand.answered host (.verdict verdict)
    | none => stand
  | some _ => stand.first caller

/-- The next caller that can move makes its next step. -/
def turn (stand : Stand) : Option Stand :=
  match stand.queue with
  | [] => none
  | caller :: queue =>
    let stand : Stand := { stand with queue }
    let committer := stand.committer
    match committer.callers[caller]? with
    | none => some stand
    | some { group, phase, .. } =>
      some <| match phase with
      | .looking => { stand with committer := committer.look caller }.follow caller
      | .claimed _ =>
        let stand := { stand with committer := committer.begin caller }
        match stand.committer.phase? caller with
        | some (.emitting emission) => (stand.raise caller emission).first caller
        | _ => stand.first caller
      | .emitting _ => stand.work caller
      | .emitted _ => { stand with committer := committer.conclude caller }.follow caller
      | .notifying _ =>
        ({ stand with committer := committer.announce caller }.follow caller).after
          (committer.sleepers group)
      | .leaving _ => { stand with committer := committer.leave caller }.follow caller
      | .asleep | .returned _ => stand

/-- Everybody moves who can, for at most so many steps. -/
def settle : Nat → Stand → Stand
  | 0, stand => stand
  | fuel + 1, stand =>
    match stand.turn with
    | none => stand
    | some stand => settle fuel stand

/-! ## Sections of a step -/

/-- What a section of a step has brought about so far: records and log lines. -/
structure Excerpt where
  /-- What the emitter recorded. -/
  records : List Record := []
  /-- The log lines. -/
  lines : List String := []

/-- One excerpt after another. -/
def Excerpt.append (first second : Excerpt) : Excerpt :=
  ⟨first.records ++ second.records, first.lines ++ second.lines⟩

/-- An excerpt whose records and lines are sorted by their text. -/
def Excerpt.sorted (excerpt : Excerpt) : Excerpt where
  records :=
    ((excerpt.records.map fun record => (record.toJson.compactText, record)).mergeSort
      fun a b => decide (a.1 ≤ b.1)).map Prod.snd
  lines := excerpt.lines.mergeSort fun a b => decide (a ≤ b)

/-- The log lines of events. -/
def linesOf (stand : Stand) (events : List Event) : List String :=
  events.filterMap fun event =>
    (stand.log.report? stand.committer.label event).map Log.Captured.shown

/-- Ends a section: its excerpt, and the stand at the beginning of the next section. -/
def cut (stand : Stand) : Excerpt × Stand :=
  let journal := stand.committer.journal
  let events := (journal.extract stand.written journal.size).toList
  (⟨stand.records.toList, stand.linesOf events⟩,
    { stand with records := #[], written := journal.size })

/-! ## The clock -/

/-- One sweep at the present instant, with everything that follows from it. -/
def sweepNow (fuel : Nat) (state : Excerpt × Stand) (sweeper : Sweeper) : Excerpt × Stand :=
  let (excerpt, stand) := state
  let swept := { stand with committer := stand.committer.sweep stand.now sweeper }
  let (more, stand) := (swept.deliver.settle fuel).cut
  (excerpt.append more.sorted, stand)

/-- The sweeps of one tick. A committer that is closed has none. -/
def tick (fuel : Nat) (state : Excerpt × Stand) (instant : Nat) : Excerpt × Stand :=
  let (excerpt, stand) := state
  if stand.committer.registry.closed then (excerpt, stand)
  else Sweeper.all.foldl (sweepNow fuel) (excerpt, { stand with now := instant })

/-- The ticks after `start` and up to `stop`, for sweeps every `interval` milliseconds. -/
def ticks (interval start stop : Nat) : List Nat :=
  (List.range (stop / interval - start / interval)).map fun count =>
    (start / interval + 1 + count) * interval

/-- The clock moves on. -/
def advance (fuel : Nat) (stand : Stand) (millis : Nat) : Excerpt × Stand :=
  let stop := stand.now + millis
  let interval := stand.committer.registry.settings.sweepInterval
  let (excerpt, stand) := (ticks interval stand.now stop).foldl (tick fuel) ({}, stand)
  (excerpt, { stand with now := stop })

/-- The emit keys that pass the test are released, and their emitters go on. -/
def release (stand : Stand) (test : String → Bool) : Stand :=
  let isFree (caller : Nat) := (stand.plays.lookup caller).any fun play => test play.emitKey
  { stand with parked := stand.parked.filter (!isFree ·) }.after (stand.parked.filter isFree)

/-! ## Steps -/

/-- The outcome of a step that answered `answer` and had this excerpt. -/
def outcome (answer : Answer) (number : Nat) (state : Excerpt × Stand) : Outcome × Stand :=
  let (excerpt, stand) := state
  let registry := stand.committer.registry
  ({ answer
     returned := (stand.returned.filter (·.1 != number)).mergeSort fun a b => decide (a.1 ≤ b.1)
     records := excerpt.records
     lines := excerpt.lines
     live := registry.liveCount
     counters := registry.counters },
    { stand with returned := [] })

/-- Plays one step. -/
def play (fuel : Nat) (stand : Stand) (number : Nat) : Step → Outcome × Stand
  | .call call =>
    let (answer, stand) := stand.perform (.step number) call
    let (excerpt, stand) := (stand.settle fuel).cut
    let answer := match answer with
      | some answer => answer
      | none => ((stand.returned.lookup number).map .verdict).getD .blocked
    let stand := match answer with
      | .reserved (.ok fullKey) => { stand with reserved := stand.reserved.push fullKey }
      | _ => stand
    let excerpt := match call with
      | .close => excerpt.sorted
      | _ => excerpt
    outcome answer number (excerpt, stand)
  | .advance millis => outcome .silent number (stand.advance fuel millis)
  | .release emitKey =>
    let stand := { stand with released := emitKey :: stand.released }
    outcome .silent number ((stand.release (· == emitKey)).settle fuel).cut
  | .stages =>
    let list := stand.reserved.toList.map fun key =>
      (key, stand.committer.registry.stageOf? key)
    outcome (.stages list) number ({}, stand)

/-- Plays steps, whose numbers begin at `number`. -/
def playAll (fuel : Nat) (stand : Stand) (number : Nat) : List Step → List Outcome × Stand
  | [] => ([], stand)
  | step :: rest =>
    let (outcome, stand) := stand.play fuel number step
    let (outcomes, stand) := stand.playAll fuel (number + 1) rest
    (outcome :: outcomes, stand)

/-- Lets everything come to its end: every emit key is released, and the committer closes. -/
def wind (fuel : Nat) (stand : Stand) (number : Nat) : Outcome × Stand :=
  let opened := { stand with allReleased := true }.release fun _ => true
  let (first, stand) := (opened.settle fuel).cut
  let closed := { stand with committer := stand.committer.close }.deliver
  let (second, stand) := (closed.settle fuel).cut
  outcome .silent number (first.sorted.append second.sorted, stand)

/-- The step that made the call of a caller, if the call has not returned. -/
def stuckStep? (stand : Stand) (caller : Nat) : Option Nat :=
  match stand.origins[caller]?, stand.committer.phase? caller with
  | some (Origin.step _), some (Phase.returned _) => none
  | some (Origin.step number), _ => some number
  | _, _ => none

/-- The steps whose calls have not returned. -/
def stuck (stand : Stand) : List Nat :=
  (List.range stand.origins.size).filterMap stand.stuckStep?

end Stand

/-! ## Scenarios -/

/-- Everything that a scenario starts from. -/
structure Plan where
  /-- The name of the committer. -/
  label : String
  /-- The least severity that is logged. -/
  log : Log
  /-- The numbers that the committer works by. -/
  settings : Settings
  /-- The format of its keys. -/
  scheme : KeyScheme
  /-- How many bytes one of its slots takes. -/
  slotBytes : Nat := 72
  /-- The script of the emitter that is installed first. -/
  script : Option Script
  /-- A sweeper that cannot be started, and the reason. -/
  unstartable : Option (Sweeper × String)
  /-- The steps. -/
  steps : List Step

/-- More steps than anybody makes between two steps of the scenario, unless emitters call for
    emissions without end. -/
def Plan.fuel (plan : Plan) : Nat :=
  let scripted := (plan.script.map scriptWeight).getD 0
  let calls := plan.steps.foldl (fun total step => total + step.weight) scripted
  1000 * (calls + 1) * (calls + 1)

/-- Plays a scenario. Answers the log lines of the launch, sorted, and what the scenario brings
    about; or the failure, if the committer cannot be launched. -/
def Plan.play (plan : Plan) : List String × Except Failure Report :=
  let (launched, events) :=
    Committer.launch (ν := Json) (ε := Script) plan.label plan.settings plan.scheme
      plan.slotBytes plan.unstartable
  let lines := events.filterMap fun event =>
    (plan.log.report? plan.label event).map Log.Captured.shown
  let launch := lines.mergeSort fun a b => decide (a ≤ b)
  match launched with
  | .error failure => (launch, .error failure)
  | .ok committer =>
    let stand : Stand :=
      { committer := { committer with emitter := plan.script }
        log := plan.log
        written := committer.journal.size }
    let (steps, stand) := stand.playAll plan.fuel 0 plan.steps
    let (ending, stand) := stand.wind plan.fuel plan.steps.length
    (launch, .ok { steps, ending, stuck := stand.stuck })

end Scenario

end BatchedCommit
