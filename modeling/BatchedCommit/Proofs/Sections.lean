import BatchedCommit.Registry.Call
import BatchedCommit.Registry.Sweep
import BatchedCommit.Proofs.Changes

/-!
# BatchedCommit.Proofs.Sections

What each section of the registry does, as a list of cases with the whole section in each of
them. Every property of reachable registries is derived from these lists:

* `reserve_cases`, `store_cases`, `remove_cases`, `glance_cases` — the calls;
* `fixSizeOf_cases`, `relieve_cases`, `strike_cases`, `abandon_cases` — one group in a sweep,
  or at shutdown.
-/

namespace BatchedCommit

namespace Registry

variable {ν : Type}

/-! ## Lists and folds -/

/-- The first entries of an array are where they were. -/
theorem getElem?_take {α : Type} (entries : Array α) (size i : Nat) :
    (entries.take size)[i]? = if i < size then entries[i]? else none := by
  rw [Array.take_eq_extract, Array.getElem?_extract]
  grind

/-- A fold keeps what each of its steps keeps. -/
theorem foldl_keep {σ β : Type} {step : σ → β → σ} {P : σ → Prop} (items : List β)
    (hstep : ∀ state, ∀ item ∈ items, P state → P (step state item)) {state : σ}
    (hstate : P state) : P (items.foldl step state) := by
  induction items generalizing state with
  | nil => exact hstate
  | cons item rest ih =>
    refine ih (fun state item hitem => hstep state item (List.mem_cons_of_mem _ hitem)) ?_
    exact hstep state item List.mem_cons_self hstate

/-! ## Looking up -/

/-- A look-up answers the group that the key leads to. -/
theorem lookup_eq_ok {registry : Registry ν} {fullKey : String} {id : Nat} {group : Group ν}
    (h : registry.lookup fullKey = .ok (id, group)) :
    registry.find fullKey = .ok id ∧ registry.groups[id]? = some group := by
  rw [lookup] at h
  split at h
  · contradiction
  · next found hfind =>
    split at h
    · next other hgroup =>
      have hpair := Except.ok.inj h
      have hid : found = id := congrArg Prod.fst hpair
      have hother : other = group := congrArg Prod.snd hpair
      rw [← hid, ← hother]
      exact ⟨hfind, hgroup⟩
    · contradiction

/-! ## Reserving -/

/-- The group for the next reservation is the current one, if that is open, or a new one. -/
theorem openGroup_cases (registry : Registry ν) (now : Instant) :
    (∃ id group, registry.current = some id ∧ registry.groups[id]? = some group ∧
      group.stage = .opened ∧ registry.openGroup now = (some (id, group), registry, [])) ∨
    (∀ id group, registry.current = some id → registry.groups[id]? = some group →
      group.stage ≠ .opened) ∧ registry.openGroup now = registry.openFresh now := by
  cases hcurrent : registry.current with
  | none =>
    refine .inr ⟨fun _ _ hnone => by contradiction, ?_⟩
    simp only [openGroup, hcurrent, Option.bind_none]
  | some id =>
    cases hgroup : registry.groups[id]? with
    | none =>
      refine .inr ⟨fun other group hother hget => ?_, ?_⟩
      · rw [← Option.some.inj hother, hgroup] at hget
        contradiction
      · simp only [openGroup, hcurrent, hgroup, Option.bind_some, Option.map_none]
    | some group =>
      by_cases hopen : group.stage = .opened
      · refine .inl ⟨id, group, rfl, hgroup, hopen, ?_⟩
        simp only [openGroup, hcurrent, hgroup, Option.bind_some, Option.map_some, if_pos hopen]
      · refine .inr ⟨fun other group' hother hget => ?_, ?_⟩
        · rw [← Option.some.inj hother, hgroup] at hget
          rw [← Option.some.inj hget]
          exact hopen
        · simp only [openGroup, hcurrent, hgroup, Option.bind_some, Option.map_some,
            if_neg hopen]

/-- Replacing the entry that was added last. -/
theorem setIfInBounds_push_size {α : Type} (entries : Array α) (old new : α) :
    (entries.push old).setIfInBounds entries.size new = entries.push new := by
  apply Array.ext_getElem?
  intro i
  grind

/-- The registry after a slot was reserved in a group of it. -/
def afterReserve (registry : Registry ν) (id : Nat) (group : Group ν) : Registry ν :=
  { registry with
    groups := registry.groups.setIfInBounds id group
    current := if group.stage = .sizeFixed then none else registry.current
    counters := registry.counters.bump .slotsReserved }

/-- What is reported when a slot was reserved in a group. -/
def fillEvents (group : Group ν) : List Event :=
  if group.stage = .sizeFixed then [.groupSizeFixed group.key group.slots.length] else []

/-- The registry after a group was opened and a slot was reserved in it. -/
def afterOpen (registry : Registry ν) (group : Group ν) : Registry ν :=
  { registry with
    issued := registry.issued + 1
    groups := registry.groups.push group
    normal := registry.normal.insert (registry.scheme.parentKey registry.issued)
      registry.groups.size
    current := if group.stage = .sizeFixed then none else some registry.groups.size
    counters := (registry.counters.bump .groupsOpened).bump .slotsReserved }

/-- Where there can be room for its slots, a group is opened. -/
theorem openFresh_of_room {registry : Registry ν} (h : registry.hasRoom = true) (now : Instant) :
    registry.openFresh now =
      (some (registry.groups.size,
          Group.normal (registry.scheme.parentKey registry.issued) registry.capacity now),
        { registry with
          issued := registry.issued + 1
          groups := registry.groups.push
            (Group.normal (registry.scheme.parentKey registry.issued) registry.capacity now)
          normal := registry.normal.insert (registry.scheme.parentKey registry.issued)
            registry.groups.size
          current := some registry.groups.size
          counters := registry.counters.bump .groupsOpened },
        [.groupOpened (registry.scheme.parentKey registry.issued)]) := by
  have hnormal : Group.normal? registry.slotBytes (registry.scheme.parentKey registry.issued)
      registry.capacity now = some (Group.normal (registry.scheme.parentKey registry.issued)
        registry.capacity now : Group ν) := if_pos h
  simp only [openFresh, hnormal]

/-- Where there cannot, the parent key is used up. -/
theorem openFresh_of_no_room {registry : Registry ν} (h : registry.hasRoom = false)
    (now : Instant) :
    registry.openFresh now = (none, { registry with issued := registry.issued + 1 }, []) := by
  have hnormal : (Group.normal? registry.slotBytes (registry.scheme.parentKey registry.issued)
      registry.capacity now : Option (Group ν)) = none := if_neg (by rw [← hasRoom, h]; decide)
  simp only [openFresh, hnormal]

/-- A reservation in the group that takes it, opened for it or not. -/
theorem reserve_eq {registry opened : Registry ν} {now : Instant} {child : String} {id : Nat}
    {group : Group ν} {events : List Event} (hclosed : registry.closed = false)
    (hopen : registry.openGroup now = (some (id, group), opened, events)) :
    registry.reserve now child =
      match group.reserve now child (opened.scheme.fullKey group.key child) with
      | .error failure => { answer := some (.error failure), registry := opened, events }
      | .ok changed =>
        { answer := some (.ok (opened.scheme.fullKey group.key child))
          registry := opened.afterReserve id changed
          events := events ++ fillEvents changed } := by
  rw [reserve, if_neg (by rw [hclosed]; decide), hopen]
  dsimp only
  cases group.reserve now child (opened.scheme.fullKey group.key child) with
  | error failure => rfl
  | ok changed =>
    dsimp only
    by_cases hfixed : changed.stage = .sizeFixed
    · simp only [afterReserve, fillEvents, setGroup, bump, if_pos hfixed]
    · simp only [afterReserve, fillEvents, setGroup, bump, if_neg hfixed, List.append_nil]

/-- A reservation is refused by a closed committer, or as a duplicate; or it goes to the group
that is open, or to one that is opened for it; or it breaks down because none can be opened. -/
theorem reserve_cases (registry : Registry ν) (now : Instant) (child : String) :
    (registry.closed = true ∧
      registry.reserve now child = { answer := some (.error .closed), registry }) ∨
    (∃ id group, registry.closed = false ∧ registry.current = some id ∧
      registry.groups[id]? = some group ∧ group.stage = .opened ∧
      child ∈ group.slots.map Slot.child ∧
      registry.reserve now child =
        { answer := some (.error (.duplicateKey (registry.scheme.fullKey group.key child))),
          registry }) ∨
    (∃ id group changed, registry.closed = false ∧ registry.current = some id ∧
      registry.groups[id]? = some group ∧
      group.reserve now child (registry.scheme.fullKey group.key child) = .ok changed ∧
      registry.reserve now child =
        { answer := some (.ok (registry.scheme.fullKey group.key child))
          registry := registry.afterReserve id changed
          events := fillEvents changed }) ∨
    (∃ parent changed, registry.closed = false ∧
      (∀ id group, registry.current = some id → registry.groups[id]? = some group →
        group.stage ≠ .opened) ∧
      registry.hasRoom = true ∧ parent = registry.scheme.parentKey registry.issued ∧
      (Group.normal parent registry.capacity now).reserve now child
        (registry.scheme.fullKey parent child) = .ok changed ∧
      registry.reserve now child =
        { answer := some (.ok (registry.scheme.fullKey parent child))
          registry := registry.afterOpen changed
          events := .groupOpened parent :: fillEvents changed }) ∨
    (registry.closed = false ∧
      (∀ id group, registry.current = some id → registry.groups[id]? = some group →
        group.stage ≠ .opened) ∧
      registry.hasRoom = false ∧
      registry.reserve now child =
        { answer := none, registry := { registry with issued := registry.issued + 1 } }) := by
  cases hclosed : registry.closed with
  | true => exact .inl ⟨rfl, by rw [reserve, if_pos hclosed]⟩
  | false =>
    obtain ⟨id, group, hcurrent, hgroup, hstage, hopen⟩ | ⟨hnone, hopen⟩ :=
      registry.openGroup_cases now
    · cases hreserve : group.reserve now child (registry.scheme.fullKey group.key child) with
      | error failure =>
        obtain ⟨hchild, rfl⟩ := Group.reserve_eq_error hstage hreserve
        refine .inr (.inl ⟨id, group, rfl, hcurrent, hgroup, hstage, hchild, ?_⟩)
        rw [reserve_eq hclosed hopen, hreserve]
      | ok changed =>
        refine .inr (.inr (.inl ⟨id, group, changed, rfl, hcurrent, hgroup, hreserve, ?_⟩))
        rw [reserve_eq hclosed hopen, hreserve]
        rfl
    · cases hroom : registry.hasRoom with
      | false =>
        refine .inr (.inr (.inr (.inr ⟨rfl, hnone, rfl, ?_⟩)))
        rw [reserve, if_neg (by rw [hclosed]; decide), hopen, openFresh_of_no_room hroom]
        simp only [hclosed]
      | true =>
        rw [openFresh_of_room hroom] at hopen
        cases hreserve : (Group.normal (registry.scheme.parentKey registry.issued)
            registry.capacity now : Group ν).reserve now child
            (registry.scheme.fullKey (registry.scheme.parentKey registry.issued) child) with
        | error failure =>
          have hchild := (Group.reserve_eq_error rfl hreserve).1
          simp [Group.normal] at hchild
        | ok changed =>
          refine .inr (.inr (.inr (.inl ⟨_, changed, rfl, hnone, rfl, rfl, hreserve, ?_⟩)))
          rw [reserve_eq hclosed hopen]
          simp only [Group.normal] at hreserve ⊢
          rw [hreserve]
          simp [afterReserve, afterOpen, setIfInBounds_push_size]

/-! ## Storing and removing -/

/-- A call that stores a value fails and changes nothing, or puts the value into a slot of a
live group. -/
theorem store_cases (registry : Registry ν) (fullKey : String) (value : ν) :
    (∃ failure, registry.store fullKey value = { answer := .error failure, registry }) ∨
    (∃ id group changed, registry.closed = false ∧ registry.find fullKey = .ok id ∧
      registry.groups[id]? = some group ∧ group.put fullKey value = .ok changed ∧
      registry.store fullKey value =
        { answer := .ok id, registry := registry.setGroup id changed.markReady }) := by
  rw [store]
  split
  · exact .inl ⟨_, rfl⟩
  · next hclosed =>
    split
    · exact .inl ⟨_, rfl⟩
    · next id group hlookup =>
      obtain ⟨hfind, hgroup⟩ := lookup_eq_ok hlookup
      split
      · exact .inl ⟨_, rfl⟩
      · next changed hput =>
        exact .inr ⟨id, group, changed, by simpa using hclosed, hfind, hgroup, hput, rfl⟩

/-- A removal fails and changes nothing, or takes the last slot out of a live group, which is
discarded, or takes a slot out of a live group that has others. -/
theorem remove_cases (registry : Registry ν) (fullKey : String) :
    (∃ failure, registry.remove fullKey = { answer := .error failure, registry }) ∨
    (∃ id group changed, registry.closed = false ∧ registry.find fullKey = .ok id ∧
      registry.groups[id]? = some group ∧ group.remove fullKey = .ok changed ∧
      changed.slots = [] ∧
      registry.remove fullKey =
        { answer := .ok ()
          registry := (((registry.setGroup id changed).bump .slotsRemoved).unregister
            changed.kind changed.key id).bump .groupsDiscarded
          events := [.groupDiscarded changed.key] }) ∨
    (∃ id group changed, registry.closed = false ∧ registry.find fullKey = .ok id ∧
      registry.groups[id]? = some group ∧ group.remove fullKey = .ok changed ∧
      changed.slots ≠ [] ∧
      registry.remove fullKey =
        { answer := .ok ()
          registry := (registry.setGroup id changed.markReady).bump .slotsRemoved
          woken := if changed.isComplete then [id] else [] }) := by
  rw [remove]
  split
  · exact .inl ⟨_, rfl⟩
  · next hclosed =>
    split
    · exact .inl ⟨_, rfl⟩
    · next id group hlookup =>
      obtain ⟨hfind, hgroup⟩ := lookup_eq_ok hlookup
      split
      · exact .inl ⟨_, rfl⟩
      · next changed hremove =>
        dsimp only
        have hopen : registry.closed = false := by simpa using hclosed
        by_cases hempty : changed.slots = []
        · refine .inr (.inl ⟨id, group, changed, hopen, hfind, hgroup, hremove, hempty, ?_⟩)
          rw [if_pos (by simp [hempty])]
        · refine .inr (.inr ⟨id, group, changed, hopen, hfind, hgroup, hremove, hempty, ?_⟩)
          rw [if_neg (by simpa using hempty)]
          by_cases hcomplete : changed.isComplete = true
          · rw [if_pos hcomplete, if_pos hcomplete]
            simp [setGroup, bump, Array.setIfInBounds_setIfInBounds]
          · rw [if_neg hcomplete, if_neg hcomplete, Group.markReady, if_neg hcomplete]

/-! ## Looking at a group -/

/-- A caller that looks at its group learns how it ended, or claims the emission, or finds
nothing to do. Only the claim changes anything. -/
theorem glance_cases (registry : Registry ν) (id : Nat) :
    (∃ group verdict, registry.groups[id]? = some group ∧ group.outcome = some verdict ∧
      registry.glance id = { answer := .ended verdict, registry }) ∨
    (∃ group values changed, registry.groups[id]? = some group ∧ group.outcome = none ∧
      group.claim? = some (values, changed) ∧
      registry.glance id =
        { answer := .claimed values, registry := registry.setGroup id changed }) ∨
    ((∀ group, registry.groups[id]? = some group →
        group.outcome = none ∧ group.claim? = none) ∧
      registry.glance id = { answer := .pending, registry }) := by
  rw [glance]
  split
  · next hnone =>
    refine .inr (.inr ⟨fun group hgroup => ?_, rfl⟩)
    rw [hnone] at hgroup
    contradiction
  · next group hgroup =>
    split
    · next verdict houtcome => exact .inl ⟨group, verdict, hgroup, houtcome, rfl⟩
    · next houtcome =>
      split
      · next values changed hclaim =>
        exact .inr (.inl ⟨group, values, changed, hgroup, houtcome, hclaim, rfl⟩)
      · next hclaim =>
        refine .inr (.inr ⟨fun other hother => ?_, rfl⟩)
        rw [← Option.some.inj (hgroup.symm.trans hother)]
        exact ⟨houtcome, hclaim⟩

/-! ## Fixing sizes -/

/-- What fixing the size of an open group leaves of a section under way. -/
def afterFix (now : Instant) (state : Section ν Unit) (id : Nat) (group : Group ν) :
    Section ν Unit :=
  { state with
    registry := { state.registry with
      groups := state.registry.groups.setIfInBounds id (group.fixSize now).markReady
      current := if state.registry.current = some id then none else state.registry.current }
    events := state.events ++ [.groupSizeFixTimeout group.key group.slots.length]
    woken := if (group.fixSize now).isComplete then state.woken ++ [id] else state.woken }

/-- The sweep that fixes sizes changes an open group that is older than the window. -/
theorem fixSizeOf_cases (now : Instant) (state : Section ν Unit) (id : Nat) :
    fixSizeOf now state id = state ∨
    ∃ group, state.registry.groups[id]? = some group ∧
      state.registry.settings.sizeFixWindow < group.age now ∧ group.stage = .opened ∧
      fixSizeOf now state id = afterFix now state id group := by
  rw [fixSizeOf]
  split
  · exact .inl rfl
  · next group hgroup =>
    split
    · next hdue =>
      refine .inr ⟨group, hgroup, hdue.1, hdue.2, ?_⟩
      dsimp only [afterFix, setGroup]
      by_cases hcurrent : state.registry.current = some id
      · simp only [if_pos hcurrent]
      · simp only [if_neg hcurrent]
    · exact .inl rfl

/-! ## Moving slots -/

/-- The delayed group for a slot of a group, for which there is an emit key. -/
def delayedFor (scheme : KeyScheme) (now : Instant) (source : Group ν) (slot : Slot ν) :
    Group ν :=
  Group.delayed slot ((scheme.delayedEmitKey? slot.fullKey).getD "") source.createdAt now

/-- The entries for slots that are moved into new groups, the first of which has a given
place. -/
def entriesFrom (first : Nat) (slots : List (Slot ν)) : List (String × Nat) :=
  (slots.zipIdx first).map fun (slot, id) => (slot.fullKey, id)

/-- A sweep that moves slots after those of one group were moved. -/
def Relocation.afterMoves (now : Instant) (source : Group ν) (sweep : Relocation ν)
    (slots : List (Slot ν)) : Relocation ν :=
  { sweep with
    state := { sweep.state with
      registry := { sweep.state.registry with
        groups := sweep.state.registry.groups ++
          (slots.map (delayedFor sweep.state.registry.scheme now source)).toArray
        counters := sweep.state.registry.counters.add .slotsRelocated slots.length }
      events := sweep.state.events ++
        slots.map fun slot => .slotRelocated source.key slot.fullKey }
    moved := sweep.moved ++ entriesFrom sweep.state.registry.groups.size slots }

/-- A sweep that has broken down moves nothing. -/
theorem foldl_move_of_broken (now : Instant) (source : Group ν) (slots : List (Slot ν))
    {sweep : Relocation ν} (hbroken : sweep.broken = true) :
    slots.foldl (Relocation.move now source) sweep = sweep := by
  induction slots with
  | nil => rfl
  | cons slot rest ih => rw [List.foldl_cons, Relocation.move, if_pos hbroken, ih]

/-- Slots are moved up to the first one for which there is no emit key. -/
theorem foldl_move (now : Instant) (source : Group ν) (slots : List (Slot ν))
    (sweep : Relocation ν) (hbroken : sweep.broken = false) :
    slots.foldl (Relocation.move now source) sweep =
      { sweep.afterMoves now source (slots.takeWhile fun slot =>
          (sweep.state.registry.scheme.delayedEmitKey? slot.fullKey).isSome) with
        broken := !slots.all fun slot =>
          (sweep.state.registry.scheme.delayedEmitKey? slot.fullKey).isSome } := by
  induction slots generalizing sweep with
  | nil => simp [Relocation.afterMoves, entriesFrom, Counters.add_zero, ← hbroken]
  | cons slot rest ih =>
    rw [List.foldl_cons]
    cases hemit : sweep.state.registry.scheme.delayedEmitKey? slot.fullKey with
    | none =>
      have hmove : Relocation.move now source sweep slot = { sweep with broken := true } := by
        rw [Relocation.move, if_neg (by simp [hbroken]), hemit]
      rw [hmove, foldl_move_of_broken now source rest rfl]
      simp [Relocation.afterMoves, entriesFrom, Counters.add_zero, hemit]
    | some emitKey =>
      have hmove : Relocation.move now source sweep slot =
          sweep.afterMoves now source [slot] := by
        rw [Relocation.move, if_neg (by simp [hbroken]), hemit]
        simp [Relocation.afterMoves, entriesFrom, delayedFor, bump, Counters.bump, hemit]
      rw [hmove, ih (sweep.afterMoves now source [slot]) hbroken]
      simp [Relocation.afterMoves, entriesFrom, Counters.add_add, Nat.add_comm, hemit]

/-- A sweep that moves slots after it has taken those out of one group that hold it back. -/
def Relocation.afterRelief (now : Instant) (sweep : Relocation ν) (id : Nat) (group : Group ν) :
    Relocation ν :=
  let scheme := sweep.state.registry.scheme
  let moved := group.movable scheme
  { state := { sweep.state with
      registry := { sweep.state.registry with
        groups := sweep.state.registry.groups.setIfInBounds id (group.leftBehind scheme) ++
          (moved.map (delayedFor scheme now group)).toArray
        counters := sweep.state.registry.counters.add .slotsRelocated moved.length }
      events := sweep.state.events ++
        moved.map fun slot => .slotRelocated group.key slot.fullKey
      woken := if group.isMovable scheme then sweep.state.woken ++ [id] else sweep.state.woken }
    moved := sweep.moved ++ entriesFrom sweep.state.registry.groups.size moved
    broken := !group.isMovable scheme }

/-- The sweep that moves slots leaves a group alone, or takes the slots out that hold it back
and moves each of them into a group of its own, up to the first one over which it breaks down. -/
theorem relieve_cases (now : Instant) (sweep : Relocation ν) (id : Nat) :
    (Relocation.relieve now sweep id = sweep ∧ (sweep.broken = false →
      ∀ group, sweep.state.registry.groups[id]? = some group →
        (group.extractLagging now sweep.state.registry.settings.relocateWindow).1 = [])) ∨
    ∃ group, sweep.broken = false ∧ sweep.state.registry.groups[id]? = some group ∧
      group.isHeldBack now sweep.state.registry.settings.relocateWindow = true ∧
      group.slots.filter (!·.isReady) ≠ [] ∧
      Relocation.relieve now sweep id = sweep.afterRelief now id group := by
  rw [Relocation.relieve]
  by_cases hbroken : sweep.broken = true
  · rw [if_pos hbroken]
    exact .inl ⟨rfl, fun hnot => by rw [hbroken] at hnot; contradiction⟩
  · rw [if_neg hbroken]
    rw [Bool.not_eq_true] at hbroken
    cases hgroup : sweep.state.registry.groups[id]? with
    | none => exact .inl ⟨rfl, fun _ _ hnone => by contradiction⟩
    | some group =>
      have halone : (group.extractLagging now sweep.state.registry.settings.relocateWindow).1 = [] →
          ∀ other, some group = some other →
          (other.extractLagging now sweep.state.registry.settings.relocateWindow).1 = [] := by
        intro hnothing other hother
        rw [← Option.some.inj hother, hnothing]
      dsimp only
      rw [Group.extractLagging] at halone ⊢
      by_cases hheld :
          group.isHeldBack now sweep.state.registry.settings.relocateWindow = true
      · rw [if_pos hheld] at halone ⊢
        dsimp only at halone ⊢
        by_cases hlagging : (group.slots.filter (!·.isReady)).isEmpty = true
        · rw [if_pos hlagging]
          exact .inl ⟨rfl, fun _ => halone (List.isEmpty_iff.mp hlagging)⟩
        · rw [if_neg hlagging]
          refine .inr ⟨group, hbroken, rfl, hheld, by simpa using hlagging, ?_⟩
          have hid : id < sweep.state.registry.groups.size :=
            (Array.getElem?_eq_some_iff.mp hgroup).1
          rw [foldl_move now group _ _ (by exact hbroken)]
          dsimp only [setGroup]
          cases hmovable : group.isMovable sweep.state.registry.scheme with
          | true =>
            have hall := hmovable
            rw [Group.isMovable] at hall
            simp only [hall, Bool.not_true, Bool.false_eq_true, if_false,
              Group.isComplete_rest hheld, if_true]
            simp [Relocation.afterMoves, Relocation.afterRelief, Group.movable, Group.leftBehind,
              hmovable, hid, Array.setIfInBounds_setIfInBounds]
          | false =>
            have hall := hmovable
            rw [Group.isMovable] at hall
            simp only [hall, Bool.not_false, if_true]
            simp [Relocation.afterMoves, Relocation.afterRelief, Group.movable, Group.leftBehind,
              hmovable]
      · rw [if_neg hheld] at halone ⊢
        exact .inl ⟨rfl, fun _ => halone rfl⟩

/-- The sweep that moves slots after it has gone through all groups. -/
def relieved (registry : Registry ν) (now : Instant) : Relocation ν :=
  (registry.normal.entries.map Prod.snd).foldl (Relocation.relieve now)
    { state := { answer := (), registry } }

/-- A sweep that has not broken down by now had not before. -/
theorem not_broken_of_relieve {now : Instant} {sweep : Relocation ν} {id : Nat}
    (h : (Relocation.relieve now sweep id).broken = false) : sweep.broken = false := by
  obtain ⟨heq, -⟩ | ⟨_, hbroken, -, -, -, -⟩ := relieve_cases now sweep id
  · rwa [heq] at h
  · exact hbroken

/-- A sweep that does not break down over a group leaves it alone, or moves all the slots that hold
it back. -/
theorem relieve_sound_cases {now : Instant} {sweep : Relocation ν} {id : Nat}
    (h : (Relocation.relieve now sweep id).broken = false) :
    (Relocation.relieve now sweep id = sweep ∧
      ∀ group, sweep.state.registry.groups[id]? = some group →
        (group.extractLagging now sweep.state.registry.settings.relocateWindow).1 = []) ∨
    ∃ group, sweep.state.registry.groups[id]? = some group ∧
      group.isHeldBack now sweep.state.registry.settings.relocateWindow = true ∧
      group.slots.filter (!·.isReady) ≠ [] ∧
      group.isMovable sweep.state.registry.scheme = true ∧
      Relocation.relieve now sweep id = sweep.afterRelief now id group := by
  have hbefore := not_broken_of_relieve h
  obtain ⟨heq, halone⟩ | ⟨group, -, hgroup, hheld, hlagging, heq⟩ := relieve_cases now sweep id
  · exact .inl ⟨heq, halone hbefore⟩
  · rw [heq] at h
    exact .inr ⟨group, hgroup, hheld, hlagging, by simpa [Relocation.afterRelief] using h, heq⟩

/-- What relieving one group keeps holds after a sweep that has not broken down. -/
theorem relieved_keep {registry : Registry ν} {now : Instant} {P : Relocation ν → Prop}
    (hstep : ∀ sweep id, (Relocation.relieve now sweep id).broken = false → P sweep →
      P (Relocation.relieve now sweep id))
    (hstart : P { state := { answer := (), registry } })
    (h : (registry.relieved now).broken = false) : P (registry.relieved now) := by
  have hsweep : (registry.relieved now).broken = false → P (registry.relieved now) :=
    foldl_keep (P := fun sweep : Relocation ν => sweep.broken = false → P sweep) _
      (fun sweep id _ hsweep hnot => hstep sweep id hnot (hsweep (not_broken_of_relieve hnot)))
      fun _ => hstart
  exact hsweep h

/-- Every group of a registry is among these as it was, or without the slots that held it back. -/
def Spares (registry : Registry ν) (now : Instant) (groups : Array (Group ν)) : Prop :=
  ∀ (id : Nat) (group : Group ν), registry.groups[id]? = some group →
    groups[id]? = some group ∨
      group.isHeldBack now registry.settings.relocateWindow = true ∧
        groups[id]? = some (group.leftBehind registry.scheme)

/-- If these are no more groups, then each of them was in the registry. -/
theorem Spares.before {registry : Registry ν} {now : Instant} {groups : Array (Group ν)}
    (h : registry.Spares now groups) (hsize : groups.size = registry.groups.size) {id : Nat}
    {changed : Group ν} (hchanged : groups[id]? = some changed) :
    ∃ group, registry.groups[id]? = some group ∧ (changed = group ∨
      group.isHeldBack now registry.settings.relocateWindow = true ∧
        changed = group.leftBehind registry.scheme) := by
  have hlt : id < registry.groups.size := by
    rw [← hsize]
    exact (Array.getElem?_eq_some_iff.mp hchanged).1
  have hgroup := Array.getElem?_eq_getElem hlt
  refine ⟨_, hgroup, ?_⟩
  rw [← Option.some_inj, ← Option.some_inj (b := Group.leftBehind _ _), ← hchanged]
  exact h id _ hgroup

/-- The sweep that moves slots takes them out of groups and makes others, and counts the slots;
all else in the registry is as it was. -/
theorem relieved_registry (registry : Registry ν) (now : Instant) :
    ∃ groups count, registry.groups.size ≤ groups.size ∧ registry.Spares now groups ∧
      (registry.relieved now).state.registry =
        { registry with groups, counters := registry.counters.add .slotsRelocated count } := by
  refine foldl_keep (P := fun sweep : Relocation ν => ∃ groups count,
    registry.groups.size ≤ groups.size ∧ registry.Spares now groups ∧ sweep.state.registry =
      { registry with groups, counters := registry.counters.add .slotsRelocated count }) _
    (fun sweep own _ hsweep => ?_)
    ⟨registry.groups, 0, Nat.le_refl _, fun _ _ hgroup => .inl hgroup, ?_⟩
  on_goal 2 => rw [Counters.add_zero]
  obtain ⟨groups, count, hsize, hkept, hregistry⟩ := hsweep
  obtain ⟨h, -⟩ | ⟨between, -, hbetween, hheld, hlagging, h⟩ := relieve_cases now sweep own
  · rw [h]
    exact ⟨groups, count, hsize, hkept, hregistry⟩
  · rw [hregistry] at hbetween hheld
    refine ⟨groups.setIfInBounds own (between.leftBehind registry.scheme) ++
        ((between.movable registry.scheme).map (delayedFor registry.scheme now between)).toArray,
      count + (between.movable registry.scheme).length, ?_, fun id group hgroup => ?_, ?_⟩
    · rw [Array.size_append, Array.size_setIfInBounds]
      omega
    · have hlt : id < groups.size :=
        Nat.lt_of_lt_of_le (Array.getElem?_eq_some_iff.mp hgroup).1 hsize
      rw [Array.getElem?_append_left (by rwa [Array.size_setIfInBounds])]
      by_cases hown : own = id
      · subst hown
        rw [Array.getElem?_setIfInBounds_self_of_lt hlt]
        obtain hsame | ⟨-, hleft⟩ := hkept own group hgroup
        · obtain rfl := Option.some.inj (hsame.symm.trans hbetween)
          exact .inr ⟨hheld, rfl⟩
        · -- a group is not relieved twice: all that is left in it is ready
          obtain rfl := Option.some.inj (hleft.symm.trans hbetween)
          simp at hlagging
      · rw [Array.getElem?_setIfInBounds_ne hown]
        exact hkept id group hgroup
    · rw [h, Relocation.afterRelief, hregistry]
      dsimp only
      rw [Counters.add_add]

/-- Where there are all emit keys, no sweep breaks down. -/
theorem relieved_of_derivable {registry : Registry ν} (h : registry.scheme.Derivable)
    (now : Instant) : (registry.relieved now).broken = false := by
  have hsweep : (registry.relieved now).broken = false ∧
      (registry.relieved now).state.registry.scheme = registry.scheme := by
    refine foldl_keep (P := fun sweep : Relocation ν => sweep.broken = false ∧
      sweep.state.registry.scheme = registry.scheme) _ (fun sweep id _ hsweep => ?_) ⟨rfl, rfl⟩
    obtain ⟨heq, -⟩ | ⟨group, -, -, -, -, heq⟩ := relieve_cases now sweep id
    · rwa [heq]
    · rw [heq]
      have hmovable : group.isMovable sweep.state.registry.scheme = true :=
        Group.isMovable_of_derivable (by rw [hsweep.2]; exact h) group
      exact ⟨by rw [Relocation.afterRelief, hmovable]; rfl, hsweep.2⟩
  exact hsweep.1

/-- A sweep that broke down drops the groups that it has made. -/
theorem relocate_of_broken {registry : Registry ν} {now : Instant}
    (h : (registry.relieved now).broken = true) :
    registry.relocate now =
      { answer := false
        registry := { (registry.relieved now).state.registry with
          groups := (registry.relieved now).state.registry.groups.take registry.groups.size }
        events := (registry.relieved now).state.events
        woken := (registry.relieved now).state.woken } := by
  rw [relocate]
  dsimp only
  rw [if_pos (by exact h)]
  rfl

/-- The slots that a sweep has taken out of groups by then are lost. -/
theorem relocate_registry_of_broken {registry : Registry ν} {now : Instant}
    (h : (registry.relieved now).broken = true) :
    ∃ groups count, groups.size = registry.groups.size ∧ registry.Spares now groups ∧
      (registry.relocate now).registry =
        { registry with groups, counters := registry.counters.add .slotsRelocated count } := by
  obtain ⟨groups, count, hsize, hkept, hregistry⟩ := registry.relieved_registry now
  refine ⟨groups.take registry.groups.size, count, ?_, fun id group hgroup => ?_, ?_⟩
  · rw [Array.take_eq_extract, Array.size_extract]
    omega
  · rw [getElem?_take, if_pos (Array.getElem?_eq_some_iff.mp hgroup).1]
    exact hkept id group hgroup
  · rw [relocate_of_broken h, hregistry]

/-- A sweep that did not enters them. -/
theorem relocate_of_not_broken {registry : Registry ν} {now : Instant}
    (h : (registry.relieved now).broken = false) :
    registry.relocate now =
      { answer := true
        registry := { (registry.relieved now).state.registry with
          delayed := (registry.relieved now).moved.foldl
            (fun table entry => table.insert entry.1 entry.2)
            (registry.relieved now).state.registry.delayed }
        events := (registry.relieved now).state.events
        woken := (registry.relieved now).state.woken } := by
  rw [relocate]
  dsimp only
  rw [if_neg (by rw [← relieved, h]; decide)]
  rfl

/-! ## Aborting and giving up groups -/

/-- A sweep that aborts groups after it has struck one. -/
def Abortion.afterStrike (now : Instant) (kind : GroupKind) (sweep : Abortion ν) (key : String)
    (id : Nat) (group : Group ν) : Abortion ν where
  state := { sweep.state with
    registry := (sweep.state.registry.setGroup id (group.abort (.aborted key))).bump
      .groupsAborted
    events := sweep.state.events ++ [.groupAborted key (group.age now)]
    woken := sweep.state.woken ++ [id] }
  aborted := sweep.aborted ++ [(kind, key, id)]

/-- The sweep that aborts groups strikes a group that is older than the window and not
claimed. -/
theorem strike_cases (now : Instant) (kind : GroupKind) (sweep : Abortion ν) (key : String)
    (id : Nat) :
    Abortion.strike now kind sweep (key, id) = sweep ∨
    ∃ group, sweep.state.registry.groups[id]? = some group ∧
      sweep.state.registry.settings.abortWindow < group.age now ∧ group.isAbortable = true ∧
      Abortion.strike now kind sweep (key, id) = sweep.afterStrike now kind key id group := by
  rw [Abortion.strike]
  dsimp only
  split
  · exact .inl rfl
  · next group hgroup =>
    split
    · next hdue => exact .inr ⟨group, hgroup, hdue.1, hdue.2, rfl⟩
    · exact .inl rfl

/-- Giving up a group at shutdown ends it, unless its emission was claimed. -/
theorem abandon_cases (state : Section ν Unit) (id : Nat) :
    abandon state id = state ∨
    ∃ group, state.registry.groups[id]? = some group ∧ group.isAbortable = true ∧
      abandon state id = { state with
        registry := state.registry.setGroup id (group.abort .closed)
        events := state.events ++ [.groupAbandoned group.key]
        woken := state.woken ++ [id] } := by
  rw [abandon]
  split
  · next group hgroup =>
    split
    · next habort => exact .inr ⟨group, hgroup, habort, rfl⟩
    · exact .inl rfl
  · exact .inl rfl

end Registry

end BatchedCommit
