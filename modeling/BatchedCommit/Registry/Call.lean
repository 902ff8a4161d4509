import BatchedCommit.Registry

/-!
# BatchedCommit.Registry.Call

The sections of the registry that its callers ask for: reserving a slot, storing a value,
removing a slot, closing; and those of a caller that waits for its group: looking whether the
group has ended, finishing an emission, and taking the group out of the index.
-/

namespace BatchedCommit

/-- What a waiting caller finds when it looks at its group. -/
inductive Glance (ν : Type) where
  /-- The group has ended. -/
  | ended (verdict : Verdict)
  /-- The group is ready, and the caller has claimed its emission. -/
  | claimed (values : List ν)
  /-- There is nothing to do yet. -/
  | pending

namespace Registry

variable {ν : Type}

/-! ## Reserving -/

/-- Opens a group under the next parent key: its identity and itself, the registry with it, and
    what that reports. It takes the key over from a live group that has the same one. Where
    there cannot be room for the slots there is no group, but the key is used up. -/
def openFresh (registry : Registry ν) (now : Instant) :
    Option (Nat × Group ν) × Registry ν × List Event :=
  let parent := registry.scheme.parentKey registry.issued
  let id := registry.groups.size
  match Group.normal? registry.slotBytes parent registry.capacity now with
  | none => (none, { registry with issued := registry.issued + 1 }, [])
  | some group =>
    (some (id, group),
      { registry with
        issued := registry.issued + 1
        groups := registry.groups.push group
        normal := registry.normal.insert parent id
        current := some id
        counters := registry.counters.bump .groupsOpened },
      [.groupOpened parent])

/-- The group that takes the next reservation: the current one if it is still open, else one
    that is opened now. -/
def openGroup (registry : Registry ν) (now : Instant) :
    Option (Nat × Group ν) × Registry ν × List Event :=
  match registry.current.bind fun id => registry.groups[id]?.map fun group => (id, group) with
  | some (id, group) =>
    if group.stage = .opened then (some (id, group), registry, []) else registry.openFresh now
  | none => registry.openFresh now

/-- Reserves a slot in the group that takes reservations, and answers its full key. There is no
    answer where a group cannot be opened: the call breaks down. -/
def reserve (registry : Registry ν) (now : Instant) (child : String) :
    Section ν (Option (Except Failure String)) :=
  if registry.closed then { answer := some (.error .closed), registry }
  else
    match registry.openGroup now with
    | (none, registry, events) => { answer := none, registry, events }
    | (some (id, group), registry, events) =>
      let fullKey := registry.scheme.fullKey group.key child
      match group.reserve now child fullKey with
      | .error failure => { answer := some (.error failure), registry, events }
      | .ok group =>
        let registry := (registry.setGroup id group).bump .slotsReserved
        if group.stage = .sizeFixed then
          { answer := some (.ok fullKey)
            registry := { registry with current := none }
            events := events ++ [.groupSizeFixed group.key group.slots.length] }
        else { answer := some (.ok fullKey), registry, events }

/-! ## Storing and removing -/

/-- Stores the value of a slot and makes its group ready if that was the last one missing.
    Answers the group, whose outcome the caller then waits for. -/
def store (registry : Registry ν) (fullKey : String) (value : ν) :
    Section ν (Except Failure Nat) :=
  if registry.closed then { answer := .error .closed, registry }
  else
    match registry.lookup fullKey with
    | .error failure => { answer := .error failure, registry }
    | .ok (id, group) =>
      match group.put fullKey value with
      | .error failure => { answer := .error failure, registry }
      | .ok group => { answer := .ok id, registry := registry.setGroup id group.markReady }

/-- Removes a slot. A group without slots is discarded; one that is complete without the slot
    becomes ready, and its callers are woken. -/
def remove (registry : Registry ν) (fullKey : String) : Section ν (Except Failure Unit) :=
  if registry.closed then { answer := .error .closed, registry }
  else
    match registry.lookup fullKey with
    | .error failure => { answer := .error failure, registry }
    | .ok (id, group) =>
      match group.remove fullKey with
      | .error failure => { answer := .error failure, registry }
      | .ok group =>
        let registry := (registry.setGroup id group).bump .slotsRemoved
        if group.slots.isEmpty then
          { answer := .ok ()
            registry := (registry.unregister group.kind group.key id).bump .groupsDiscarded
            events := [.groupDiscarded group.key] }
        else if group.isComplete then
          { answer := .ok (), registry := registry.setGroup id group.markReady, woken := [id] }
        else { answer := .ok (), registry }

/-! ## Waiting for a group -/

/-- A caller looks at its group: it learns the outcome, or claims the emission, or neither. -/
def glance (registry : Registry ν) (id : Nat) : Section ν (Glance ν) :=
  match registry.groups[id]? with
  | none => { answer := .pending, registry }
  | some group =>
    match group.outcome with
    | some verdict => { answer := .ended verdict, registry }
    | none =>
      match group.claim? with
      | some (values, group) =>
        { answer := .claimed values, registry := registry.setGroup id group }
      | none => { answer := .pending, registry }

/-- Records how the emission of a group ended. -/
def finish (registry : Registry ν) (id : Nat) (verdict : Verdict) : Registry ν :=
  match registry.groups[id]? with
  | some group => registry.setGroup id (group.finish verdict)
  | none => registry

/-- Takes a group out of its index. -/
def retire (registry : Registry ν) (id : Nat) : Registry ν :=
  match registry.groups[id]? with
  | some group => registry.unregister group.kind group.key id
  | none => registry

/-! ## Closing -/

/-- Gives up one group at shutdown, if nobody has claimed its emission. -/
def abandon (state : Section ν Unit) (id : Nat) : Section ν Unit :=
  match state.registry.groups[id]? with
  | some group =>
    if group.isAbortable then
      { state with
        registry := state.registry.setGroup id (group.abort .closed)
        events := state.events ++ [.groupAbandoned group.key]
        woken := state.woken ++ [id] }
    else state
  | none => state

/-- Shuts the registry down: every live group is given up, and nothing is found any more. -/
def close (registry : Registry ν) : Section ν Unit :=
  let live := registry.normal.entries.map Prod.snd ++ registry.delayed.entries.map Prod.snd
  let emptied := { registry with
    closed := true, current := none, normal := {}, delayed := {}, tombstones := {} }
  live.foldl abandon { answer := (), registry := emptied }

end Registry

end BatchedCommit
