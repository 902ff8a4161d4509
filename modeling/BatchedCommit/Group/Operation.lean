import BatchedCommit.Group

/-!
# BatchedCommit.Group.Operation

The operations on a single group as data, so that a whole life of a group is a list of them.
`Group.perform` carries one out and says what its caller is told; `Group.live` carries out a
list.
-/

namespace BatchedCommit

/-- One operation on a group. -/
inductive GroupOperation (ν : Type) where
  /-- Add a slot. -/
  | reserve (now : Instant) (child fullKey : String)
  /-- Store the value of a slot. -/
  | put (fullKey : String) (value : ν)
  /-- Take out a slot. -/
  | remove (fullKey : String)
  /-- End the time of reservations. -/
  | fixSize (now : Instant)
  /-- Make the group ready if no value is missing. -/
  | markReady
  /-- Take out the slots that hold the group back. -/
  | extractLagging (now : Instant) (window : Nat)
  /-- Claim the emission. -/
  | claim
  /-- Record how the emission ended. -/
  | finish (verdict : Verdict)
  /-- End the group without an emission. -/
  | abort (reason : Failure)

/-- What the caller of an operation is told. -/
inductive GroupReply (ν : Type) where
  /-- Nothing. -/
  | silent
  /-- The operation succeeded or failed. -/
  | verdict (verdict : Verdict)
  /-- The operation took effect, or it did not apply. -/
  | flag (tookEffect : Bool)
  /-- The slots that were taken out. -/
  | slots (extracted : List (Slot ν))
  /-- The values to emit, if the claim was granted. -/
  | values (claimed : Option (List ν))

namespace Group

variable {ν : Type}

/-- The outcome of an operation that can fail: the group stays as it is on a failure. -/
def settle (group : Group ν) : Except Failure (Group ν) → GroupReply ν × Group ν
  | .ok changed => (.verdict (.ok ()), changed)
  | .error failure => (.verdict (.error failure), group)

/-- Carries out one operation: what its caller is told, and the group after it. -/
def perform (group : Group ν) : GroupOperation ν → GroupReply ν × Group ν
  | .reserve now child fullKey => group.settle (group.reserve now child fullKey)
  | .put fullKey value => group.settle (group.put fullKey value)
  | .remove fullKey => group.settle (group.remove fullKey)
  | .fixSize now => (.flag (group.stage == .opened), group.fixSize now)
  | .markReady => (.flag group.isComplete, group.markReady)
  | .extractLagging now window =>
    let (extracted, rest) := group.extractLagging now window
    (.slots extracted, rest)
  | .claim =>
    match group.claim? with
    | some (values, claimed) => (.values (some values), claimed)
    | none => (.values none, group)
  | .finish verdict => (.silent, group.finish verdict)
  | .abort reason => (.flag group.isAbortable, group.abort reason)

/-- The group after a list of operations, carried out in order. -/
def live (group : Group ν) (operations : List (GroupOperation ν)) : Group ν :=
  operations.foldl (fun group operation => (group.perform operation).2) group

end Group

end BatchedCommit
