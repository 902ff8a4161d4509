import BatchedCommit.Committer
import BatchedCommit.Json

/-!
# BatchedCommit.Scenario

Scenarios: lists of steps on a committer, on a clock that stands still except where a step
moves it, with an emitter that follows a script. This module holds the language of scenarios
and of what comes out of them; `BatchedCommit.Scenario.Play` plays them.
-/

namespace BatchedCommit

namespace Scenario

/-! ## Scripts of emitters -/

/-- How a run of an emitter ends. -/
inductive Ending where
  /-- It succeeds. -/
  | succeed
  /-- It fails with a text. -/
  | fail (text : String)
  /-- It breaks down, with a text or without one. -/
  | breakDown (text : Option String)

/-- The answer that the committer sees. A breakdown is an answer like a failure. -/
def Ending.answer : Ending → Except String Unit
  | succeed => .ok ()
  | fail text => .error text
  | breakDown text => .error ("emitter panicked: " ++ text.getD "unknown panic")

/-- What an emitter does with one emission; `κ` is the type of calls. -/
structure RuleOf (κ : Type) where
  /-- It first waits until its emit key is released. -/
  gate : Bool := false
  /-- Then it makes these calls on the committer, one after the other. -/
  calls : List κ := []
  /-- Then it ends. -/
  ending : Ending := .succeed

/-- What an emitter does with each emission; `κ` is the type of calls. -/
structure ScriptOf (κ : Type) where
  /-- The rule for the emit keys without a rule of their own. -/
  fallback : RuleOf κ := {}
  /-- The rules of single emit keys. -/
  rules : List (String × RuleOf κ) := []

/-- A call on the committer. -/
inductive Call where
  /-- Reserve a slot. -/
  | reserve (child : String)
  /-- Store a value and wait for the outcome of its group. -/
  | ready (fullKey : String) (value : Json)
  /-- Remove a slot. -/
  | remove (fullKey : String)
  /-- Ask for the stage of the group of a slot. -/
  | stage (fullKey : String)
  /-- Put an emitter with this script in the place of the one in use. -/
  | install (script : ScriptOf Call)
  /-- Shut the committer down. -/
  | close
  /-- Ask for a summary. -/
  | info

/-- What an emitter does with one emission. -/
abbrev Rule := RuleOf Call

/-- What an emitter does with each emission. -/
abbrev Script := ScriptOf Call

/-- The rule for an emit key. -/
def ruleFor (script : Script) (emitKey : String) : Rule :=
  (script.rules.lookup emitKey).getD script.fallback

/-- One step of a scenario. -/
inductive Step where
  /-- Somebody makes a call, on a thread of its own. -/
  | call (call : Call)
  /-- The clock moves on by so many milliseconds. -/
  | advance (millis : Nat)
  /-- The emit key is released, once and for all. -/
  | release (emitKey : String)
  /-- Somebody asks for the stages of all slots reserved by earlier steps. -/
  | stages

/-! ## The size of a scenario -/

mutual

/-- The number of calls in a call, itself included. -/
def Call.weight : Call → Nat
  | .install script => 1 + scriptWeight script
  | .reserve _ | .ready _ _ | .remove _ | .stage _ | .close | .info => 1

/-- The number of calls in a script. -/
def scriptWeight : ScriptOf Call → Nat
  | ⟨fallback, rules⟩ => ruleWeight fallback + ruleListWeight rules

/-- The number of calls in a rule, with one for the rule itself. -/
def ruleWeight : RuleOf Call → Nat
  | ⟨_, calls, _⟩ => 1 + callListWeight calls

/-- The number of calls in a list of calls. -/
def callListWeight : List Call → Nat
  | [] => 0
  | call :: rest => call.weight + callListWeight rest

/-- The number of calls in a list of rules. -/
def ruleListWeight : List (String × RuleOf Call) → Nat
  | [] => 0
  | (_, rule) :: rest => ruleWeight rule + ruleListWeight rest

end

/-- The number of calls in a step, with one for the step itself. -/
def Step.weight : Step → Nat
  | .call made => 1 + made.weight
  | .advance _ | .release _ | .stages => 1

/-! ## What comes out -/

/-- The answer to a call or a step. -/
inductive Answer where
  /-- Nothing is answered. -/
  | silent
  /-- The call still waits. -/
  | blocked
  /-- The call broke down. -/
  | broken
  /-- The full key of a reserved slot, or a failure. -/
  | reserved (answer : Except Failure String)
  /-- Success or failure. -/
  | verdict (verdict : Verdict)
  /-- The stage of a group, if the slot is in one. -/
  | stage (stage : Option Stage)
  /-- The stages of several slots. -/
  | stages (list : List (String × Option Stage))
  /-- A summary: the label, whether the committer is closed, the number of live groups, the
      settings and the counters. -/
  | info (label : String) (closed : Bool) (live : Nat) (settings counters : String)

/-- What the emitter records while it works. -/
inductive Record where
  /-- It was started with these values. -/
  | values (emitKey : String) (values : List Json)
  /-- Its calls are over, and these are their answers. -/
  | answers (emitKey : String) (answers : List Answer)

/-- What one step brings about. -/
structure Outcome where
  /-- The answer to the step. -/
  answer : Answer
  /-- The earlier calls that returned, by the number of their step. -/
  returned : List (Nat × Verdict)
  /-- What the emitter recorded. -/
  records : List Record
  /-- The log lines. -/
  lines : List String
  /-- The number of live groups afterwards. -/
  live : Nat
  /-- The counters afterwards. -/
  counters : Counters

/-- What a scenario brings about. -/
structure Report where
  /-- The outcome of each step. -/
  steps : List Outcome
  /-- The outcome of letting everything come to its end. -/
  ending : Outcome
  /-- The steps whose calls never return. -/
  stuck : List Nat

/-! ## Written forms -/

/-- A failure as an object. -/
def failureJson (failure : Failure) : Json :=
  .obj [("batch", .bool failure.isShared), ("error", .str failure.code),
    ("message", .str failure.message)]

/-- A stage, or nothing, by its name. -/
def stageJson : Option Stage → Json
  | some stage => .str stage.name
  | none => .null

/-- An answer in its written form. The members of objects stand in the order of their names. -/
def Answer.toJson : Answer → Json
  | silent => .null
  | blocked => .str "blocked"
  | broken => .obj [("error", .str "panic")]
  | reserved (.ok fullKey) => .obj [("ok", .str fullKey)]
  | reserved (.error failure) => failureJson failure
  | verdict (.ok ()) => .obj [("ok", .null)]
  | verdict (.error failure) => failureJson failure
  | stage standing => stageJson standing
  | stages list => .arr (list.map fun (key, standing) => .arr [.str key, stageJson standing])
  | info label closed live settings counters =>
    .obj [("closed", .bool closed), ("config", .str settings), ("label", .str label),
      ("live", .int live), ("metrics", .str counters)]

/-- A record in its written form. The members of objects stand in the order of their names. -/
def Record.toJson : Record → Json
  | values emitKey list => .obj [("key", .str emitKey), ("values", .arr list)]
  | answers emitKey list =>
    .obj [("key", .str emitKey), ("results", .arr (list.map Answer.toJson))]

end Scenario

end BatchedCommit
