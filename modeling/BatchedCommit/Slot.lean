import BatchedCommit.Failure

/-!
# BatchedCommit.Slot

A slot is one reserved position in a group. Its value arrives at most once and leaves at
most once, when it is handed over for emission.
-/

namespace BatchedCommit

/-- What a slot has received so far. -/
inductive Holding (ν : Type) where
  /-- No value has arrived. -/
  | awaited
  /-- The value that arrived. -/
  | held (value : ν)
  /-- The value arrived and was handed over. -/
  | handedOver

/-- One reserved position in a group. -/
structure Slot (ν : Type) where
  /-- The key that the caller chose; it names the slot within its group. -/
  child : String
  /-- The key that names the slot among all groups. -/
  fullKey : String
  /-- What the slot has received. -/
  holding : Holding ν := .awaited

namespace Slot

variable {ν : Type}

/-- A slot as it is when it is reserved. -/
def reserved (child fullKey : String) : Slot ν := { child, fullKey }

/-- The value of the slot has arrived, whether it is still here or not. -/
def isReady (slot : Slot ν) : Bool :=
  match slot.holding with
  | .awaited => false
  | .held _ | .handedOver => true

/-- The value that the slot holds now. -/
def value? (slot : Slot ν) : Option ν :=
  match slot.holding with
  | .held value => some value
  | .awaited | .handedOver => none

/-- The slot with the value that arrives for it. A second value is refused. -/
def put (slot : Slot ν) (value : ν) : Except Failure (Slot ν) :=
  if slot.isReady then .error (.alreadyReady slot.fullKey)
  else .ok { slot with holding := .held value }

/-- The slot after its value, if it holds one, was handed over. -/
def handOver (slot : Slot ν) : Slot ν :=
  match slot.holding with
  | .held _ => { slot with holding := .handedOver }
  | .awaited | .handedOver => slot

/-- Handing a value over does not change the keys of a slot, nor that it is ready. -/
@[simp] theorem handOver_child (slot : Slot ν) : slot.handOver.child = slot.child := by
  unfold handOver; split <;> rfl

@[simp] theorem handOver_fullKey (slot : Slot ν) : slot.handOver.fullKey = slot.fullKey := by
  unfold handOver; split <;> rfl

@[simp] theorem handOver_isReady (slot : Slot ν) : slot.handOver.isReady = slot.isReady := by
  obtain ⟨child, key, _ | _ | _⟩ := slot <;> rfl

end Slot

end BatchedCommit
