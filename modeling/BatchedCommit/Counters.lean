import BatchedCommit.Json

/-!
# BatchedCommit.Counters

What a committer counts. The counts are exact; they are shown modulo 2^64.
-/

namespace BatchedCommit

/-- The things that are counted, in the order in which they are shown. -/
inductive Counter where
  /-- Groups opened by a reservation. -/
  | groupsOpened
  /-- Slots reserved. -/
  | slotsReserved
  /-- Slots removed by their caller. -/
  | slotsRemoved
  /-- Slots moved into a delayed group. -/
  | slotsRelocated
  /-- Groups whose emission succeeded. -/
  | groupsEmitted
  /-- Values in those emissions. -/
  | valuesEmitted
  /-- Groups whose emission failed, or had no emitter. -/
  | emitFailures
  /-- Groups that outlived the abort window. -/
  | groupsAborted
  /-- Groups that lost all of their slots. -/
  | groupsDiscarded
  /-- Sweepers that broke down. -/
  | sweeperPanics
  deriving DecidableEq

namespace Counter

/-- Every counter, in the order in which they are shown. -/
def all : List Counter :=
  [groupsOpened, slotsReserved, slotsRemoved, slotsRelocated, groupsEmitted, valuesEmitted,
    emitFailures, groupsAborted, groupsDiscarded, sweeperPanics]

/-- The name of a counter. -/
def name : Counter → String
  | groupsOpened => "groups_opened"
  | slotsReserved => "slots_reserved"
  | slotsRemoved => "slots_removed"
  | slotsRelocated => "slots_relocated"
  | groupsEmitted => "groups_emitted"
  | valuesEmitted => "values_emitted"
  | emitFailures => "emit_failures"
  | groupsAborted => "groups_aborted"
  | groupsDiscarded => "groups_discarded"
  | sweeperPanics => "sweeper_panics"

end Counter

/-- How often each thing has happened. -/
structure Counters where
  /-- Groups opened by a reservation. -/
  groupsOpened : Nat := 0
  /-- Slots reserved. -/
  slotsReserved : Nat := 0
  /-- Slots removed by their caller. -/
  slotsRemoved : Nat := 0
  /-- Slots moved into a delayed group. -/
  slotsRelocated : Nat := 0
  /-- Groups whose emission succeeded. -/
  groupsEmitted : Nat := 0
  /-- Values in those emissions. -/
  valuesEmitted : Nat := 0
  /-- Groups whose emission failed, or had no emitter. -/
  emitFailures : Nat := 0
  /-- Groups that outlived the abort window. -/
  groupsAborted : Nat := 0
  /-- Groups that lost all of their slots. -/
  groupsDiscarded : Nat := 0
  /-- Sweepers that broke down. -/
  sweeperPanics : Nat := 0
  deriving DecidableEq

namespace Counters

/-- The count of one thing. -/
def get (counters : Counters) : Counter → Nat
  | .groupsOpened => counters.groupsOpened
  | .slotsReserved => counters.slotsReserved
  | .slotsRemoved => counters.slotsRemoved
  | .slotsRelocated => counters.slotsRelocated
  | .groupsEmitted => counters.groupsEmitted
  | .valuesEmitted => counters.valuesEmitted
  | .emitFailures => counters.emitFailures
  | .groupsAborted => counters.groupsAborted
  | .groupsDiscarded => counters.groupsDiscarded
  | .sweeperPanics => counters.sweeperPanics

/-- The counters after a thing happened `times` times more. -/
def add (counters : Counters) (counter : Counter) (times : Nat) : Counters :=
  match counter with
  | .groupsOpened => { counters with groupsOpened := counters.groupsOpened + times }
  | .slotsReserved => { counters with slotsReserved := counters.slotsReserved + times }
  | .slotsRemoved => { counters with slotsRemoved := counters.slotsRemoved + times }
  | .slotsRelocated => { counters with slotsRelocated := counters.slotsRelocated + times }
  | .groupsEmitted => { counters with groupsEmitted := counters.groupsEmitted + times }
  | .valuesEmitted => { counters with valuesEmitted := counters.valuesEmitted + times }
  | .emitFailures => { counters with emitFailures := counters.emitFailures + times }
  | .groupsAborted => { counters with groupsAborted := counters.groupsAborted + times }
  | .groupsDiscarded => { counters with groupsDiscarded := counters.groupsDiscarded + times }
  | .sweeperPanics => { counters with sweeperPanics := counters.sweeperPanics + times }

/-- The counters after a thing happened once more. -/
def bump (counters : Counters) (counter : Counter) : Counters := counters.add counter 1

/-- The counters after a successful emission of so many values. -/
def recordEmission (counters : Counters) (values : Nat) : Counters :=
  (counters.bump .groupsEmitted).add .valuesEmitted values

theorem get_add (counters : Counters) (counter other : Counter) (times : Nat) :
    (counters.add counter times).get other =
      if other = counter then counters.get other + times else counters.get other := by
  cases counter <;> cases other <;> rfl

theorem add_zero (counters : Counters) (counter : Counter) : counters.add counter 0 = counters := by
  cases counter <;> rfl

theorem add_add (counters : Counters) (counter : Counter) (first second : Nat) :
    (counters.add counter first).add counter second = counters.add counter (first + second) := by
  cases counter <;> simp [add, Nat.add_assoc]

/-- A count as it is shown. -/
def reading (counters : Counters) (counter : Counter) : UInt64 :=
  UInt64.ofNat (counters.get counter)

/-- The counters as an object. -/
def toJson (counters : Counters) : Json :=
  .obj (Counter.all.map fun counter =>
    (counter.name, .int (counters.reading counter).toNat))

/-- The counters on one line. -/
def text (counters : Counters) : String := counters.toJson.compactText

end Counters

end BatchedCommit
