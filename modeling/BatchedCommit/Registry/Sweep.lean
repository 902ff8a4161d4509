import BatchedCommit.Registry

/-!
# BatchedCommit.Registry.Sweep

The three sweeps, each of them one section. A sweep looks at the live groups in the order of
their index; an age or a waiting time counts as too long only when it exceeds its window.

* `Registry.fixSizes` ends the time of reservations of groups that are old enough.
* `Registry.relocate` moves the slots that hold their group back into delayed groups.
* `Registry.abortOld` aborts the groups that are too old, and leaves a tombstone for each.
-/

namespace BatchedCommit

namespace Registry

variable {ν : Type}

/-! ## Fixing sizes -/

/-- Fixes the size of one group if it takes reservations and is older than the window. -/
def fixSizeOf (now : Instant) (state : Section ν Unit) (id : Nat) : Section ν Unit :=
  match state.registry.groups[id]? with
  | none => state
  | some group =>
    if state.registry.settings.sizeFixWindow < group.age now ∧ group.stage = .opened then
      let fixed := group.fixSize now
      let registry := state.registry.setGroup id fixed.markReady
      { state with
        registry :=
          if registry.current = some id then { registry with current := none } else registry
        events := state.events ++ [.groupSizeFixTimeout group.key group.slots.length]
        woken := if fixed.isComplete then state.woken ++ [id] else state.woken }
    else state

/-- Fixes the size of every live normal group that takes reservations and is older than the
    window for it. -/
def fixSizes (registry : Registry ν) (now : Instant) : Section ν Unit :=
  (registry.normal.entries.map Prod.snd).foldl (fixSizeOf now) { answer := (), registry }

/-! ## Moving slots -/

/-- A sweep that moves slots, under way. -/
structure Relocation (ν : Type) where
  /-- What it has left behind so far. -/
  state : Section ν Unit
  /-- The delayed groups it has made, by the full key of their slot. -/
  moved : List (String × Nat) := []
  /-- There was no emit key for a slot, and it broke down. -/
  broken : Bool := false

/-- Moves one slot, taken out of a group, into a delayed group. -/
def Relocation.move (now : Instant) (source : Group ν) (sweep : Relocation ν) (slot : Slot ν) :
    Relocation ν :=
  if sweep.broken then sweep
  else
    match sweep.state.registry.scheme.delayedEmitKey? slot.fullKey with
    | none => { sweep with broken := true }
    | some emitKey =>
      let registry := sweep.state.registry.bump .slotsRelocated
      let id := registry.groups.size
      let group := Group.delayed slot emitKey source.createdAt now
      { sweep with
        state := { sweep.state with
          registry := { registry with groups := registry.groups.push group }
          events := sweep.state.events ++ [.slotRelocated source.key slot.fullKey] }
        moved := sweep.moved ++ [(slot.fullKey, id)] }

/-- Takes the slots that hold one group back out of it, moves them, and makes the group ready.
    A sweep that breaks down over a slot leaves the group as it is then. -/
def Relocation.relieve (now : Instant) (sweep : Relocation ν) (id : Nat) : Relocation ν :=
  if sweep.broken then sweep
  else
    match sweep.state.registry.groups[id]? with
    | none => sweep
    | some group =>
      let (lagging, rest) := group.extractLagging now sweep.state.registry.settings.relocateWindow
      if lagging.isEmpty then sweep
      else
        let registry := sweep.state.registry.setGroup id rest
        let sweep := lagging.foldl (Relocation.move now group)
          { sweep with state := { sweep.state with registry } }
        if sweep.broken then sweep
        else if rest.isComplete then
          { sweep with state := { sweep.state with
              registry := sweep.state.registry.setGroup id rest.markReady
              woken := sweep.state.woken ++ [id] } }
        else sweep

/-- Moves every slot that holds its group back into a delayed group of its own. Answers
    whether the sweep came to its end. If it broke down, the delayed groups that it had made
    are dropped, and the slots that it had taken out are lost. -/
def relocate (registry : Registry ν) (now : Instant) : Section ν Bool :=
  let sweep := (registry.normal.entries.map Prod.snd).foldl (Relocation.relieve now)
    { state := { answer := (), registry } }
  let state := sweep.state
  if sweep.broken then
    { answer := false
      registry := { state.registry with
        groups := state.registry.groups.take registry.groups.size }
      events := state.events
      woken := state.woken }
  else
    let delayed := sweep.moved.foldl (fun table entry => table.insert entry.1 entry.2)
      state.registry.delayed
    { answer := true
      registry := { state.registry with delayed }
      events := state.events
      woken := state.woken }

/-! ## Aborting groups -/

/-- A sweep that aborts groups, under way. -/
structure Abortion (ν : Type) where
  /-- What it has left behind so far. -/
  state : Section ν Unit
  /-- The groups it has aborted: their kind, the key of their entry and their identity. -/
  aborted : List (GroupKind × String × Nat) := []

/-- Aborts the group of one entry if it is older than the window and nobody has claimed its
    emission. -/
def Abortion.strike (now : Instant) (kind : GroupKind) (sweep : Abortion ν)
    (entry : String × Nat) : Abortion ν :=
  let (key, id) := entry
  match sweep.state.registry.groups[id]? with
  | none => sweep
  | some group =>
    if sweep.state.registry.settings.abortWindow < group.age now ∧ group.isAbortable then
      { state := { sweep.state with
          registry :=
            (sweep.state.registry.setGroup id (group.abort (.aborted key))).bump .groupsAborted
          events := sweep.state.events ++ [.groupAborted key (group.age now)]
          woken := sweep.state.woken ++ [id] }
        aborted := sweep.aborted ++ [(kind, key, id)] }
    else sweep

/-- The registry without an aborted group, and with a tombstone for its key. -/
def bury (now : Instant) (registry : Registry ν) (entry : GroupKind × String × Nat) :
    Registry ν :=
  let (kind, key, id) := entry
  let registry := registry.unregister kind key id
  { registry with tombstones := registry.tombstones.insert key now }

/-- The registry without the tombstones that are older than the abort window. -/
def purge (registry : Registry ν) (now : Instant) : Registry ν :=
  { registry with
    tombstones := registry.tombstones.filter fun (_, since) =>
      decide (elapsed now since ≤ registry.settings.abortWindow) }

/-- Forgets old tombstones, then aborts every live group that is older than the window. -/
def abortOld (registry : Registry ν) (now : Instant) : Section ν Unit :=
  let purged := registry.purge now
  let sweep := purged.normal.entries.foldl (Abortion.strike now .normal)
    { state := { answer := (), registry := purged } }
  let sweep := purged.delayed.entries.foldl (Abortion.strike now .delayed) sweep
  { sweep.state with registry := sweep.aborted.foldl (bury now) sweep.state.registry }

end Registry

end BatchedCommit
