import BatchedCommit.Slot

/-!
# BatchedCommit.Group

A group is an ordered collection of slots that share one emission and one outcome. A normal
group is opened by a reservation and named by a parent key; a delayed group holds the one
slot that was taken out of a normal group, and is named by the full key of that slot.

The operations follow the stages of `BatchedCommit.Stage`. Those that can fail return a
failure or the changed group; the others return the group as it is where they do not apply.
-/

namespace BatchedCommit

/-- How a group came to be. -/
inductive GroupKind where
  /-- Opened by a reservation. -/
  | normal
  /-- Made for a slot that held its group back. -/
  | delayed
  deriving DecidableEq

/-- An ordered collection of slots that share one emission and one outcome. -/
structure Group (ν : Type) where
  /-- How the group came to be. -/
  kind : GroupKind
  /-- The parent key of a normal group, the full key of the slot of a delayed one. -/
  key : String
  /-- The key under which the values of the group are emitted. -/
  emitKey : String
  /-- The number of slots at which the size of the group is fixed. -/
  capacity : Nat
  /-- The slots, in the order of their reservation. -/
  slots : List (Slot ν)
  /-- Where the group stands in its life. -/
  stage : Stage
  /-- When the group was opened; for a delayed group, when the group of its slot was. -/
  createdAt : Instant
  /-- When the size was fixed. -/
  fixedAt : Option Instant
  /-- A caller has taken the values, to emit them. -/
  claimed : Bool := false
  /-- How the group ended. -/
  outcome : Option Verdict := none

namespace Group

variable {ν : Type}

/-! ## Making groups -/

/-- One allocation, of at most `2 ^ 63 - 1` bytes, can hold so many slots of `slotBytes` bytes
    each. -/
def roomFor (slotBytes count : Nat) : Bool := decide (count * slotBytes ≤ 0x7FFFFFFFFFFFFFFF)

/-- An empty group that takes reservations. -/
def normal (parent : String) (capacity : Nat) (now : Instant) : Group ν where
  kind := .normal
  key := parent
  emitKey := parent
  capacity := capacity
  slots := []
  stage := .opened
  createdAt := now
  fixedAt := none

/-- An empty group with room for as many slots as its capacity allows. Asking for more room than
    one allocation can have breaks down, and there is no group. -/
def normal? (slotBytes : Nat) (parent : String) (capacity : Nat) (now : Instant) :
    Option (Group ν) :=
  if roomFor slotBytes capacity then some (normal parent capacity now) else none

/-- The group of one slot that was taken out of a group created at `createdAt`. Its size is
    fixed from the start. -/
def delayed (slot : Slot ν) (emitKey : String) (createdAt now : Instant) : Group ν where
  kind := .delayed
  key := slot.fullKey
  emitKey := emitKey
  capacity := 1
  slots := [slot]
  stage := .sizeFixed
  createdAt := createdAt
  fixedAt := some now

/-! ## Questions -/

/-- The group holds as many slots as its capacity allows. -/
def isFull (group : Group ν) : Bool := decide (group.capacity ≤ group.slots.length)

/-- The group has a slot of this full key. -/
def contains (group : Group ν) (fullKey : String) : Bool :=
  group.slots.any (·.fullKey == fullKey)

/-- The age of the group, in milliseconds. -/
def age (group : Group ν) (now : Instant) : Nat := elapsed now group.createdAt

/-- The size is fixed and no value is missing. -/
def isComplete (group : Group ν) : Bool :=
  group.stage == .sizeFixed && !group.slots.isEmpty && group.slots.all Slot.isReady

/-- The group can still be ended without an emission: nobody has claimed it. -/
def isAbortable (group : Group ν) : Bool :=
  group.stage.isMutable || (group.stage == .ready && !group.claimed)

/-- Slots can be taken out of the group: it is a normal group whose size was fixed longer
    than `window` ago, and at least one of its slots is ready. -/
def isHeldBack (group : Group ν) (now : Instant) (window : Nat) : Bool :=
  group.kind == .normal && group.stage == .sizeFixed &&
    group.fixedAt.any (fun since => decide (window < elapsed now since)) &&
    group.slots.any Slot.isReady

/-! ## Reserving -/

/-- Ends the time of reservations. -/
def fixSize (group : Group ν) (now : Instant) : Group ν :=
  if group.stage = .opened then { group with stage := .sizeFixed, fixedAt := some now }
  else group

/-- Adds a slot at the end. The size is fixed when the capacity is reached. -/
def reserve (group : Group ν) (now : Instant) (child fullKey : String) :
    Except Failure (Group ν) :=
  if group.stage ≠ .opened then
    .error (.illegalState fullKey group.stage "group is not accepting reservations")
  else if group.slots.any (·.child == child) then .error (.duplicateKey fullKey)
  else
    let grown := { group with slots := group.slots ++ [Slot.reserved child fullKey] }
    .ok (if grown.isFull then grown.fixSize now else grown)

/-! ## Values and removals -/

/-- The slots with a value put into the first one of this full key. -/
def putIn (fullKey : String) (value : ν) : List (Slot ν) → Except Failure (List (Slot ν))
  | [] => .error (.unknownKey fullKey)
  | slot :: rest =>
    if slot.fullKey = fullKey then (slot.put value).map (· :: rest)
    else (putIn fullKey value rest).map (slot :: ·)

/-- Stores the value of one slot. -/
def put (group : Group ν) (fullKey : String) (value : ν) : Except Failure (Group ν) :=
  match group.stage with
  | .aborted => .error (.aborted group.key)
  | .done => .error (.unknownKey fullKey)
  | .opened | .sizeFixed | .ready =>
    (putIn fullKey value group.slots).map fun slots => { group with slots }

/-- The slots without the first one of this full key, which must not be ready. -/
def removeFrom (stage : Stage) (fullKey : String) :
    List (Slot ν) → Except Failure (List (Slot ν))
  | [] => .error (.unknownKey fullKey)
  | slot :: rest =>
    if slot.fullKey = fullKey then
      if slot.isReady then .error (.illegalState fullKey stage "slot is already ready")
      else .ok rest
    else (removeFrom stage fullKey rest).map (slot :: ·)

/-- Takes out a slot whose value has not arrived, while the slots may still change. -/
def remove (group : Group ν) (fullKey : String) : Except Failure (Group ν) :=
  match group.stage with
  | .aborted => .error (.aborted group.key)
  | .done => .error (.unknownKey fullKey)
  | .ready => .error (.illegalState fullKey .ready "group is already being emitted")
  | .opened | .sizeFixed =>
    (removeFrom group.stage fullKey group.slots).map fun slots => { group with slots }

/-! ## Towards the emission -/

/-- Makes a group ready for emission once no value is missing. -/
def markReady (group : Group ν) : Group ν :=
  if group.isComplete then { group with stage := .ready } else group

/-- Takes out the slots that have held the group back for longer than `window`. It happens
    only beside a ready slot: otherwise nothing could complete afterwards. -/
def extractLagging (group : Group ν) (now : Instant) (window : Nat) :
    List (Slot ν) × Group ν :=
  if group.isHeldBack now window then
    (group.slots.filter (!·.isReady),
      { group with slots := group.slots.filter (·.isReady) })
  else ([], group)

/-- Claims the single emission of the group: its values, in the order of reservation. -/
def claim? (group : Group ν) : Option (List ν × Group ν) :=
  if group.stage = .ready ∧ group.claimed = false then
    some (group.slots.filterMap Slot.value?,
      { group with claimed := true, slots := group.slots.map Slot.handOver })
  else none

/-! ## The end of a group -/

/-- Records how the emission ended. -/
def finish (group : Group ν) (verdict : Verdict) : Group ν :=
  { group with stage := .done, outcome := some verdict }

/-- Ends the group without an emission, unless its emission was claimed. -/
def abort (group : Group ν) (reason : Failure) : Group ν :=
  if group.isAbortable then
    { group with stage := .aborted, outcome := some (.error reason) }
  else group

end Group

end BatchedCommit
