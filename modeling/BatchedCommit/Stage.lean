/-!
# BatchedCommit.Stage

The stages of a group's life, and the clock that its deadlines are read from.

```
opened ──> sizeFixed ──> ready ──> done
   │           │           │
   └───────────┴───────────┴──> aborted
```

A group takes reservations while it is `opened`, waits for missing values while it is
`sizeFixed`, is due for emission or being emitted while it is `ready`, and never leaves
`done` or `aborted`.
-/

namespace BatchedCommit

/-! ## Time -/

/-- A point in time, in milliseconds after a fixed origin. -/
abbrev Instant := Int

/-- The milliseconds from `since` up to `now`; zero when `since` lies in the future. -/
def elapsed (now since : Instant) : Nat := (now - since).toNat

/-! ## Stages -/

/-- Where a group stands in its life. -/
inductive Stage where
  /-- Takes reservations. -/
  | opened
  /-- Takes no further reservation and waits for the values that are still missing. -/
  | sizeFixed
  /-- Every slot has received its value; the emission is due or running. -/
  | ready
  /-- The emission is over. -/
  | done
  /-- Ended without an emission. -/
  | aborted
  deriving DecidableEq

namespace Stage

/-- The name of a stage in messages and answers. -/
def name : Stage → String
  | opened => "OPEN"
  | sizeFixed => "SIZE_FIXED"
  | ready => "READY"
  | done => "DONE"
  | aborted => "ABORTED"

/-- No later stage follows. -/
def isTerminal : Stage → Bool
  | done | aborted => true
  | opened | sizeFixed | ready => false

/-- The slots of the group may still change. -/
def isMutable : Stage → Bool
  | opened | sizeFixed => true
  | ready | done | aborted => false

theorem isTerminal_iff {stage : Stage} :
    stage.isTerminal = true ↔ stage = done ∨ stage = aborted := by
  cases stage <;> simp [isTerminal]

theorem isMutable_iff {stage : Stage} :
    stage.isMutable = true ↔ stage = opened ∨ stage = sizeFixed := by
  cases stage <;> simp [isMutable]

/-- Every stage, in the order of a group's life. -/
def all : List Stage := [opened, sizeFixed, ready, done, aborted]

/-- The stage of a given name. -/
def ofName? (text : String) : Option Stage := all.find? (·.name == text)

end Stage

end BatchedCommit
