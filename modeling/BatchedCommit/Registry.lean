import BatchedCommit.Counters
import BatchedCommit.Event
import BatchedCommit.Group
import BatchedCommit.KeyScheme
import BatchedCommit.Settings
import BatchedCommit.Table

/-!
# BatchedCommit.Registry

The registry of a committer: every group that was ever made, the indexes of those that are
live, and the tombstones of those that were aborted. A group is known by its place in the
list of all groups, so that a caller keeps its group when the index no longer leads to it.

A *section* is a piece of work that is done at once, with nobody else at the registry. This
module holds the registry itself and how a key leads to a group; the sections are in
`BatchedCommit.Registry.Call` and `BatchedCommit.Registry.Sweep`.
-/

namespace BatchedCommit

/-- The groups of a committer. -/
structure Registry (ν : Type) where
  /-- The numbers that the committer works by. -/
  settings : Settings
  /-- The format of its keys. -/
  scheme : KeyScheme
  /-- How many bytes one of its slots takes. -/
  slotBytes : Nat
  /-- How many parent keys were made. -/
  issued : Nat := 0
  /-- Every group that was made, in order; its place is its identity. -/
  groups : Array (Group ν) := #[]
  /-- The group that takes reservations. -/
  current : Option Nat := none
  /-- The live normal groups, by their parent key. -/
  normal : Table Nat := {}
  /-- The live delayed groups, by the full key of their slot. -/
  delayed : Table Nat := {}
  /-- The keys of aborted groups, and when they were aborted. -/
  tombstones : Table Instant := {}
  /-- The committer was shut down. -/
  closed : Bool := false
  /-- What has happened so far. -/
  counters : Counters := {}

/-- What a section leaves behind. -/
structure Section (ν α : Type) where
  /-- The answer to whoever asked for the section. -/
  answer : α
  /-- The registry after it. -/
  registry : Registry ν
  /-- What it reports, in order. -/
  events : List Event := []
  /-- The groups whose waiting callers are to be woken, in order. -/
  woken : List Nat := []

namespace Registry

variable {ν : Type}

/-- The registry of a new committer. -/
def empty (settings : Settings) (scheme : KeyScheme) (slotBytes : Nat) : Registry ν :=
  { settings, scheme, slotBytes }

/-- The number of slots at which the size of a group is fixed. -/
def capacity (registry : Registry ν) : Nat := registry.settings.slotCapacity.toNat

/-- There can be room for the slots of a group. -/
def hasRoom (registry : Registry ν) : Bool :=
  Group.roomFor registry.slotBytes registry.capacity

/-- The number of live groups. -/
def liveCount (registry : Registry ν) : Nat := registry.normal.size + registry.delayed.size

/-- The registry with a group replaced by a later state of it. -/
def setGroup (registry : Registry ν) (id : Nat) (group : Group ν) : Registry ν :=
  { registry with groups := registry.groups.setIfInBounds id group }

/-- The registry after one more of a thing that is counted. -/
def bump (registry : Registry ν) (counter : Counter) : Registry ν :=
  { registry with counters := registry.counters.bump counter }

/-! ## From keys to groups -/

/-- The live group that a full key leads to. A delayed group comes before the group that its
    slot was taken from, and so does the tombstone of a delayed group. -/
def find (registry : Registry ν) (fullKey : String) : Except Failure Nat :=
  match registry.delayed.find? fullKey with
  | some id => .ok id
  | none =>
    if registry.tombstones.contains fullKey then .error (.aborted fullKey)
    else
      match registry.scheme.parentOf? fullKey with
      | none => .error (.invalidKey fullKey)
      | some parent =>
        match registry.normal.find? parent with
        | some id => .ok id
        | none =>
          if registry.tombstones.contains parent then .error (.aborted parent)
          else .error (.unknownKey fullKey)

/-- The live group that a full key leads to, with its state. A key that leads to no group
    ever made is an unknown one. -/
def lookup (registry : Registry ν) (fullKey : String) : Except Failure (Nat × Group ν) :=
  match registry.find fullKey with
  | .error failure => .error failure
  | .ok id =>
    match registry.groups[id]? with
    | some group => .ok (id, group)
    | none => .error (.unknownKey fullKey)

/-- The stage of the live group that holds the slot of a full key. -/
def stageOf? (registry : Registry ν) (fullKey : String) : Option Stage :=
  match registry.lookup fullKey with
  | .ok (_, group) => if group.contains fullKey then some group.stage else none
  | .error _ => none

/-! ## Leaving the index -/

/-- The registry after a group left its index. The entry of its key stays if another group
    has taken the key over. -/
def unregister (registry : Registry ν) (kind : GroupKind) (key : String) (id : Nat) :
    Registry ν :=
  let registry := match kind with
    | .normal =>
      if registry.normal.find? key = some id then
        { registry with normal := registry.normal.erase key }
      else registry
    | .delayed =>
      if registry.delayed.find? key = some id then
        { registry with delayed := registry.delayed.erase key }
      else registry
  if registry.current = some id then { registry with current := none } else registry

end Registry

end BatchedCommit
