import BatchedCommit.Proofs.History
import BatchedCommit.Proofs.Origins
import BatchedCommit.Proofs.Progress
import BatchedCommit.Proofs.Reordering
import BatchedCommit.Proofs.Shutdown

/-!
# BatchedCommit.Proofs.Relocations

What one sweep that moves slots leaves behind (`Committer.relocation_in_any_order`). It goes through
the groups one by one, and after each of them it has moved the slots that left the groups so far
(`Registry.Departed`). The new entries are added at the end, and none of them stands in the place of
an older one, because the full keys of all slots are different (`Registry.Rehoused`).

In another order the same slots leave, and their groups stand in another order after the old ones;
nothing else depends on it.
-/

namespace BatchedCommit

variable {ν ε : Type}

/-- Entries under keys that a table does not have are added to it at the end, in their order. -/
theorem Table.entries_foldl_insert {α : Type} (entries : List (String × α)) (table : Table α)
    (hnodup : (entries.map Prod.fst).Nodup)
    (hfresh : ∀ entry ∈ entries, table.find? entry.1 = none) :
    (entries.foldl (fun table entry => table.insert entry.1 entry.2) table).entries =
      table.entries ++ entries := by
  induction entries generalizing table with
  | nil => simp
  | cons first rest ih =>
    rw [List.map_cons, List.nodup_cons] at hnodup
    rw [List.forall_mem_cons] at hfresh
    have herase : (table.erase first.1).entries = table.entries := by
      refine List.filter_eq_self.mpr fun entry hentry => ?_
      have hne : entry.1 ≠ first.1 := fun heq => by
        rw [← heq, (table.find?_eq_some_iff entry.1 entry.2).mpr hentry] at hfresh
        exact absurd hfresh.1 nofun
      simpa using hne
    rw [List.foldl_cons, ih _ hnodup.2 fun entry hentry => ?_]
    · simp [Table.insert, herase]
    · rw [Table.find?_insert, if_neg, hfresh.2 entry hentry]
      intro heq
      exact hnodup.1 (heq ▸ List.mem_map_of_mem hentry)

namespace Group

variable {group : Group ν} {now : Instant} {window : Nat}

/-- A group that is not held back keeps its slots. -/
theorem extractLagging_of_not_held (h : group.isHeldBack now window = false) :
    (group.extractLagging now window).1 = [] := by
  rw [extractLagging, if_neg (by simp [h])]

theorem sifted_of_not_held (h : group.isHeldBack now window = false) :
    group.sifted now window = group := sifted_of_nil (extractLagging_of_not_held h)

/-- A group that is held back and not complete misses a value. -/
theorem lagging_of_held (hheld : group.isHeldBack now window = true)
    (hincomplete : group.isComplete = false) : ∃ slot ∈ group.slots, slot.isReady = false := by
  obtain ⟨-, hstage, -, slot, hslot, -⟩ := isHeldBack_iff.mp hheld
  by_contra hnone
  push Not at hnone
  rw [isComplete_iff.mpr ⟨hstage, List.ne_nil_of_mem hslot, fun other hother => by
    simpa using hnone other hother⟩] at hincomplete
  contradiction

/-- A group that is held back keeps the slots that are ready, and becomes ready. -/
theorem sifted_of_incomplete (hheld : group.isHeldBack now window = true)
    (hincomplete : group.isComplete = false) : group.sifted now window =
      { group with slots := group.slots.filter (·.isReady), stage := .ready } := by
  obtain ⟨slot, hslot, hready⟩ := lagging_of_held hheld hincomplete
  rw [sifted_of_held hheld, markReady, if_pos (isComplete_rest hheld)]
  exact List.ne_nil_of_mem (List.mem_filter.mpr ⟨hslot, by simp [hready]⟩)

/-- What leaves a group and what stays in it are its slots. -/
theorem slots_sifted_perm (group : Group ν) (now : Instant) (window : Nat) :
    ((group.sifted now window).slots ++ (group.extractLagging now window).1).Perm group.slots := by
  obtain hnone | ⟨hheld, hlagging, hmoved⟩ := group.extractLagging_cases now window
  · rw [sifted_of_nil hnone, hnone, List.append_nil]
  · rw [sifted_of_held hheld hlagging, hmoved, markReady_slots]
    exact List.filter_append_perm _ _

end Group

namespace Registry

variable {registry later : Registry ν} {now : Instant}

/-! ## Slots that leave -/

/-- The slots that a sweep takes out of one group, each with the group. -/
def departing (registry : Registry ν) (now : Instant) (id : Nat) : List (Group ν × Slot ν) :=
  match registry.groups[id]? with
  | some group =>
    (group.extractLagging now registry.settings.relocateWindow).1.map (Prod.mk group)
  | none => []

/-- The slots that a sweep takes out of all groups, each with its group. -/
def departures (registry : Registry ν) (now : Instant) : List (Group ν × Slot ν) :=
  (registry.normal.entries.map Prod.snd).flatMap (registry.departing now)

theorem departing_eq {id : Nat} {group : Group ν} (hgroup : registry.groups[id]? = some group) :
    registry.departing now id =
      (group.extractLagging now registry.settings.relocateWindow).1.map (Prod.mk group) := by
  rw [departing, hgroup]

theorem mem_departing {id : Nat} {group : Group ν} {slot : Slot ν} :
    (group, slot) ∈ registry.departing now id ↔ registry.groups[id]? = some group ∧
      group.isHeldBack now registry.settings.relocateWindow = true ∧ slot ∈ group.slots ∧
        slot.isReady = false := by
  rw [departing]
  split
  · next same hsame =>
    simp only [hsame, Group.extractLagging, List.mem_map, Prod.mk.injEq, Option.some.injEq]
    constructor
    · rintro ⟨other, hother, rfl, rfl⟩
      split at hother
      · next hheld => simpa [hheld] using hother
      · contradiction
    · rintro ⟨rfl, hheld, hslot, hready⟩
      exact ⟨slot, by simp [hheld, hslot, hready], rfl, rfl⟩
  · next hnone => simp [hnone]

theorem mem_departures {group : Group ν} {slot : Slot ν} :
    (group, slot) ∈ registry.departures now ↔ ∃ key id, registry.normal.find? key = some id ∧
      registry.groups[id]? = some group ∧
      group.isHeldBack now registry.settings.relocateWindow = true ∧ slot ∈ group.slots ∧
        slot.isReady = false := by
  simp only [departures, List.mem_flatMap, List.mem_map, Prod.exists, exists_eq_right,
    mem_departing, Table.find?_eq_some_iff]
  grind

/-- No two entries of the index of normal groups lead to the same group. -/
theorem Indexed.nodup_normal (h : registry.Indexed) :
    (registry.normal.entries.map Prod.snd).Nodup := by
  have hroll := h.nodup_roll
  rw [roll, List.map_append, List.map_map] at hroll
  exact (List.nodup_append.mp hroll).1

/-- The full keys of the slots that leave are different. -/
theorem Routed.nodup_departures (h : registry.Routed) (now : Instant) :
    ((registry.departures now).map fun departure => departure.2.fullKey).Nodup := by
  have hids := h.indexed.nodup_normal
  rw [departures, List.map_flatMap, List.nodup_flatMap]
  refine ⟨fun id _ => ?_, hids.imp_of_mem fun {i j} _ _ hne => ?_⟩
  · rw [departing]
    split
    · next group hgroup =>
      have hkeys := (h.distinct.named id group hgroup).nodup_keys
      rw [List.map_map, Group.extractLagging]
      split
      · exact hkeys.sublist (List.filter_sublist.map _)
      · exact List.nodup_nil
    · exact List.nodup_nil
  · refine List.disjoint_left.mpr fun key hone htwo => ?_
    obtain ⟨⟨one, slot⟩, hslot, rfl⟩ := List.mem_map.mp hone
    obtain ⟨⟨two, other⟩, hother, heq⟩ := List.mem_map.mp htwo
    obtain ⟨hgroup, -, hmem, -⟩ := mem_departing.mp hslot
    obtain ⟨hgroup', -, hmem', -⟩ := mem_departing.mp hother
    refine hne (h.distinct.apart i j one two slot.fullKey hgroup hgroup' ?_ ?_)
    · exact (h.distinct.named i one hgroup).mem_fullKeys hmem
    · dsimp only at heq
      rw [← heq]
      exact (h.distinct.named j two hgroup').mem_fullKeys hmem'

/-! ## The sweep, group by group -/

/-- A sweep that moves slots has moved these out of their groups, and is going to enter them. -/
structure Departed (now : Instant) (registry : Registry ν) (moved : List (Group ν × Slot ν))
    (sweep : Relocation ν) : Prop where
  frame : ∃ groups, sweep.state.registry = { registry with
    groups, counters := registry.counters.add .slotsRelocated moved.length }
  groups : ∃ old : Array (Group ν), old.size = registry.groups.size ∧
    sweep.state.registry.groups = old ++ (moved.map fun departure =>
      delayedFor registry.scheme now departure.1 departure.2).toArray
  moved : sweep.moved = entriesFrom registry.groups.size (moved.map Prod.snd)

theorem entriesFrom_departures (first : Nat) (moved : List (Group ν × Slot ν)) :
    entriesFrom first (moved.map Prod.snd) =
      (moved.zipIdx first).map fun (departure, id) => (departure.2.fullKey, id) := by
  rw [entriesFrom, List.zipIdx_map, List.map_map]
  rfl

theorem entriesFrom_append (first : Nat) (one two : List (Slot ν)) :
    entriesFrom first (one ++ two) =
      entriesFrom first one ++ entriesFrom (first + one.length) two := by
  simp [entriesFrom, List.zipIdx_append]

/-- Relieving one more group moves the slots that leave it. -/
theorem Departed.relieve {moved : List (Group ν × Slot ν)} {sweep : Relocation ν}
    (h : Departed now registry moved sweep) {own : Nat}
    (hsound : (Relocation.relieve now sweep own).broken = false) {group : Group ν}
    (hgroup : registry.groups[own]? = some group)
    (hsame : sweep.state.registry.groups[own]? = some group) :
    Departed now registry (moved ++ registry.departing now own)
      (Relocation.relieve now sweep own) := by
  obtain ⟨groups, hframe⟩ := h.frame
  obtain ⟨old, hsize, hgroups⟩ := h.groups
  have hsettings : sweep.state.registry.settings = registry.settings := by rw [hframe]
  have hscheme : sweep.state.registry.scheme = registry.scheme := by rw [hframe]
  rw [departing_eq hgroup]
  obtain ⟨heq, halone⟩ | ⟨held, hheld, hback, -, hmovable, heq⟩ := relieve_sound_cases hsound
  · have hnothing := halone group hsame
    rw [hsettings] at hnothing
    rw [heq, hnothing, List.map_nil, List.append_nil]
    exact h
  · obtain rfl := Option.some.inj (hsame.symm.trans hheld)
    have hown : own < old.size := by
      rw [hsize]
      exact (Array.getElem?_eq_some_iff.mp hgroup).1
    have hplace : sweep.state.registry.groups.size = registry.groups.size + moved.length := by
      rw [hgroups, Array.size_append, hsize]
      simp
    rw [hscheme] at hmovable
    have hmoved := Group.movable_of_isMovable hmovable
    rw [hsettings] at hback
    rw [heq, Group.extractLagging, if_pos hback]
    refine ⟨⟨(sweep.afterRelief now own group).state.registry.groups, ?_⟩,
      ⟨old.setIfInBounds own (group.leftBehind registry.scheme), ?_, ?_⟩, ?_⟩
    · simp only [Relocation.afterRelief, Counters.add_add, hframe, List.length_append,
        List.length_map, hmoved]
    · rw [Array.size_setIfInBounds, hsize]
    · simp only [Relocation.afterRelief, hscheme, hmoved, hgroups,
        Array.setIfInBounds_append_left hown, Array.append_assoc, List.append_toArray,
        List.map_append, List.map_map]
      rfl
    · rw [Relocation.afterRelief, h.moved, hplace, hscheme, hmoved]
      simp [entriesFrom_append, Function.comp_def]

theorem departed_foldl {ids : List Nat}
    (hsound : (ids.foldl (Relocation.relieve now)
      { state := { answer := (), registry } }).broken = false) (hnodup : ids.Nodup)
    (hids : ∀ id ∈ ids, ∃ group, registry.groups[id]? = some group) :
    Departed now registry (ids.flatMap (registry.departing now))
      (ids.foldl (Relocation.relieve now) { state := { answer := (), registry } }) := by
  induction ids using List.reverseRecOn with
  | nil =>
    refine ⟨⟨registry.groups, ?_⟩, ⟨registry.groups, rfl, by simp⟩, rfl⟩
    rw [List.flatMap_nil, List.length_nil, Counters.add_zero]
    rfl
  | append_singleton ids own ih =>
    rw [List.foldl_concat] at hsound ⊢
    have hbefore := not_broken_of_relieve hsound
    obtain ⟨group, hgroup⟩ := hids own (by simp)
    have hown : own ∉ ids := fun hmem =>
      (List.nodup_append.mp hnodup).2.2 own hmem own List.mem_cons_self rfl
    rw [List.flatMap_append, List.flatMap_singleton]
    refine (ih hbefore (hnodup.sublist (List.sublist_append_left _ _)) fun id hid =>
      hids id (by simp [hid])).relieve hsound hgroup ?_
    rw [(sifted_foldl hbefore).kept own group hgroup, if_neg hown]

/-! ## The whole sweep -/

/-- What every reachable registry is like: keys lead to the groups that they belong to, the group
for reservations is the open one, and a group that is held back is registered. -/
structure Orderly (registry : Registry ν) : Prop where
  routed : registry.Routed
  steered : registry.Steered
  listed : ∀ (id : Nat) (group : Group ν), registry.groups[id]? = some group →
    ∀ now window, group.isHeldBack now window = true → registry.normal.find? group.key = some id

theorem Reordered.orderly {one two : Registry ν} (h : one.Reordered two) (ho : one.Orderly) :
    two.Orderly where
  routed := h.routed ho.routed
  steered := h.steered ho.steered
  listed := fun id group hgroup now window hheld => by
    rw [h.groups_eq] at hgroup
    exact (h.find?_eq .normal group.key).trans (ho.listed id group hgroup now window hheld)

/-- A registry after a sweep that moves slots: every group without those that held it back, and
after them the groups of the slots that left, in the order in which they did. -/
structure Rehoused (now : Instant) (registry later : Registry ν) : Prop where
  frame : ∃ groups delayed, later = { registry with
    groups, delayed
    counters := registry.counters.add .slotsRelocated (registry.departures now).length }
  kept : ∀ (id : Nat) (group : Group ν), registry.groups[id]? = some group →
    later.groups[id]? = some (group.sifted now registry.settings.relocateWindow)
  made : ∀ id, registry.groups.size ≤ id → later.groups[id]? =
    (registry.departures now)[id - registry.groups.size]?.map fun departure =>
      delayedFor registry.scheme now departure.1 departure.2
  entries : later.delayed.entries = registry.delayed.entries ++
    ((registry.departures now).zipIdx registry.groups.size).map fun (departure, id) =>
      (departure.2.fullKey, id)

/-- A sweep that comes to its end rehouses the slots. -/
theorem Orderly.relocate (h : registry.Orderly) (hsound : (registry.relieved now).broken = false) :
    Rehoused now registry (registry.relocate now).registry := by
  have hnodup := h.routed.indexed.nodup_normal
  have hids : ∀ id ∈ registry.normal.entries.map Prod.snd,
      ∃ group, registry.groups[id]? = some group := by
    intro id hid
    obtain ⟨entry, hentry, rfl⟩ := List.mem_map.mp hid
    obtain ⟨group, hgroup, -⟩ := h.routed.indexed.normal entry hentry
    exact ⟨group, hgroup⟩
  have hsifted : Sifted registry now _ (registry.relieved now) := sifted_foldl hsound
  have hdeparted : Departed now registry _ (registry.relieved now) :=
    departed_foldl hsound hnodup hids
  obtain ⟨groups, hframe⟩ := hdeparted.frame
  obtain ⟨old, hsize, hgroups⟩ := hdeparted.groups
  rw [relocate_of_not_broken hsound]
  refine ⟨⟨_, _, by rw [hframe]; rfl⟩, fun id group hgroup => ?_, fun id hid => ?_, ?_⟩
  · refine (hsifted.kept id group hgroup).trans (congrArg some ?_)
    split
    · rfl
    · next hnot =>
      refine (Group.sifted_of_not_held (Bool.eq_false_iff.mpr fun hheld => hnot ?_)).symm
      have hfind := h.listed id group hgroup now _ hheld
      exact List.mem_map_of_mem (f := Prod.snd) ((Table.find?_eq_some_iff _ _ _).mp hfind)
  · dsimp only
    rw [hgroups, Array.getElem?_append_right (by rw [hsize]; exact hid), hsize,
      List.getElem?_toArray, List.getElem?_map]
    rfl
  · have hdelayed : (registry.relieved now).state.registry.delayed = registry.delayed := by
      rw [hframe]
    dsimp only
    rw [hdelayed, hdeparted.moved, ← departures, entriesFrom_departures,
      Table.entries_foldl_insert]
    · rw [List.map_map]
      have hkeys := h.routed.nodup_departures now
      rw [← List.zipIdx_map_fst registry.groups.size (registry.departures now), List.map_map]
        at hkeys
      exact hkeys
    · intro entry hentry
      obtain ⟨⟨⟨group, slot⟩, id⟩, hdeparture, rfl⟩ := List.mem_map.mp hentry
      obtain ⟨_, id, -, hgroup, hheld, hslot, -⟩ :=
        mem_departures.mp (List.fst_mem_of_mem_zipIdx hdeparture)
      exact h.routed.delayed_find?_slot hgroup (Group.isHeldBack_iff.mp hheld).1 hslot

/-! ## In another order -/

/-- In another order the same slots leave. -/
theorem Reordered.departures_perm {one two : Registry ν} (h : one.Reordered two) (now : Instant) :
    (one.departures now).Perm (two.departures now) := by
  have hsame : two.departing now = one.departing now := by
    funext id
    rw [departing, departing, h.groups_eq, h.settings]
  rw [departures, departures, hsame]
  exact (((h.index_perm .normal).map Prod.snd).flatMap_right _).symm

/-- The places of groups that were there before a sweep do not change with the order. -/
theorem map_place_of_below {α : Type} {place : Nat ≃ Nat} {size : Nat}
    (hbelow : ∀ id < size, place id = id) {entries : List (α × Nat)}
    (hentries : ∀ entry ∈ entries, entry.2 < size) :
    entries.map (Prod.map id place) = entries := by
  refine (List.map_congr_left fun entry hentry => ?_).trans (List.map_id _)
  rw [Prod.map, hbelow entry.2 (hentries entry hentry)]
  rfl

theorem Indexed.below (h : registry.Indexed) (kind : GroupKind) :
    ∀ entry ∈ (registry.index kind).entries, entry.2 < registry.groups.size := by
  rintro ⟨key, id⟩ hentry
  obtain ⟨group, hgroup, -⟩ := h.lives kind ((Table.find?_eq_some_iff _ key id).mpr hentry)
  exact (Array.getElem?_eq_some_iff.mp hgroup).1

/-- What a sweep leaves behind is the same in whatever order it goes through the index, but for the
places of the groups that it makes. -/
theorem Rehoused.alike {one two : Registry ν} {later later' : Registry ν} (ho : one.Orderly)
    (h : one.Reordered two) (hone : Rehoused now one later)
    (htwo : Rehoused now two later') :
    ∃ place : Nat ≃ Nat, (∀ id < one.groups.size, place id = id) ∧ Alike place later later' := by
  obtain ⟨place, hbelow, hplaces⟩ := exists_place (h.departures_perm now) one.groups.size
  refine ⟨place, hbelow, ?_⟩
  have hsize : two.groups.size = one.groups.size := by rw [h.groups_eq]
  have hindex : ∀ kind, (one.index kind).entries.map (Prod.map id place) =
      (one.index kind).entries := fun kind =>
    map_place_of_below hbelow (ho.routed.indexed.below kind)
  obtain ⟨groups, delayed, hframe⟩ := hone.frame
  obtain ⟨groups', delayed', hframe'⟩ := htwo.frame
  constructor
  · rw [hframe, hframe']
    exact h.settings
  · rw [hframe, hframe']
    exact h.scheme
  · rw [hframe, hframe']
    exact h.issued
  · rw [hframe, hframe']
    exact h.closed
  · rw [hframe, hframe']
    simp only [h.counters, (h.departures_perm now).length_eq]
  · intro id
    by_cases hid : id < one.groups.size
    · have hgroup := Array.getElem?_eq_getElem hid
      rw [hbelow id hid, hone.kept id _ hgroup, htwo.kept id _ (h.group hgroup), h.settings]
    · obtain ⟨habove, hsame⟩ := getElem?_place hbelow hplaces (Nat.not_lt.mp hid)
      rw [hone.made id (Nat.not_lt.mp hid), htwo.made (place id) (by rwa [hsize]), hsize, hsame,
        h.scheme]
  · rw [hframe, hframe']
    refine h.current_eq.trans ?_
    cases hcurrent : one.current with
    | none => rfl
    | some id =>
      obtain ⟨group, hgroup, -⟩ := ho.steered.listed id hcurrent
      rw [Option.map_some, hbelow id (Array.getElem?_eq_some_iff.mp hgroup).1]
  · rw [hframe, hframe']
    exact (h.index_perm .normal).trans (.of_eq (hindex .normal).symm)
  · rw [hone.entries, htwo.entries, List.map_append, hsize]
    refine ((h.index_perm .delayed).trans (.of_eq (hindex .delayed).symm)).append
      ((hplaces.map _).trans (.of_eq ?_))
    rw [List.map_map, List.map_map]
    rfl
  · rw [hframe, hframe']
    exact h.tombstones

theorem Orderly.relocate_alike {one two : Registry ν} (ho : one.Orderly)
    (hderivable : one.scheme.Derivable) (h : one.Reordered two) (now : Instant) :
    ∃ place : Nat ≃ Nat, (∀ id < one.groups.size, place id = id) ∧
      Alike place (one.relocate now).registry (two.relocate now).registry :=
  (ho.relocate (relieved_of_derivable hderivable now)).alike ho h
    ((h.orderly ho).relocate (relieved_of_derivable (by rwa [h.scheme]) now))

/-! ## The slots of registered groups -/

/-- The slots of the group at a place. -/
def slotsAt (registry : Registry ν) (id : Nat) : List (Slot ν) :=
  (registry.groups[id]?.map Group.slots).getD []

/-- The slots of all registered groups. -/
def liveSlots (registry : Registry ν) : List (Slot ν) :=
  (registry.normal.entries ++ registry.delayed.entries).flatMap fun entry =>
    registry.slotsAt entry.2

theorem slotsAt_eq {id : Nat} {group : Group ν} (hgroup : registry.groups[id]? = some group) :
    registry.slotsAt id = group.slots := by
  rw [slotsAt, hgroup, Option.map_some, Option.getD_some]

/-- The slots of the groups that were made are those that left. -/
theorem Rehoused.slots_made (h : Rehoused now registry later) :
    (((registry.departures now).zipIdx registry.groups.size).map fun (departure, id) =>
      (departure.2.fullKey, id)).flatMap (fun entry => later.slotsAt entry.2) =
        registry.normal.entries.flatMap fun entry =>
          (registry.departing now entry.2).map Prod.snd := by
  have hslots : ∀ entry ∈ (registry.departures now).zipIdx registry.groups.size,
      later.slotsAt entry.2 = [entry.1.2] := by
    rintro ⟨departure, id⟩ hentry
    obtain ⟨hle, hdeparture⟩ := List.mem_zipIdx_iff_le_and_getElem?_sub.mp hentry
    have hnew : later.groups[id]? =
        some (delayedFor registry.scheme now departure.1 departure.2) := by
      rw [h.made id hle, hdeparture, Option.map_some]
    exact slotsAt_eq hnew
  have hleft : ((registry.departures now).zipIdx registry.groups.size).map
      (fun entry => entry.1.2) = (registry.departures now).map Prod.snd :=
    List.map_map.symm.trans (congrArg (List.map Prod.snd) (List.zipIdx_map_fst _ _))
  rw [List.flatMap_map, List.flatMap_congr hslots, ← List.map_eq_flatMap, hleft, departures,
    List.map_flatMap, List.flatMap_map]

/-- No slot is lost, doubled or changed on its way. -/
theorem Rehoused.liveSlots_perm (hindexed : registry.Indexed)
    (h : Rehoused now registry later) : later.liveSlots.Perm registry.liveSlots := by
  have hnormal : later.normal = registry.normal := by
    obtain ⟨groups, delayed, hframe⟩ := h.frame
    rw [hframe]
  -- the slots of a normal group are those that stay and those that leave
  have hstay : ∀ entry ∈ registry.normal.entries,
      (later.slotsAt entry.2 ++ (registry.departing now entry.2).map Prod.snd).Perm
        (registry.slotsAt entry.2) := by
    intro entry hentry
    obtain ⟨group, hgroup, -⟩ := hindexed.normal entry hentry
    rw [slotsAt_eq (h.kept _ _ hgroup), slotsAt_eq hgroup, departing_eq hgroup, List.map_map]
    simpa using group.slots_sifted_perm now registry.settings.relocateWindow
  -- those of a delayed group do not move
  have hsame : ∀ entry ∈ registry.delayed.entries,
      later.slotsAt entry.2 = registry.slotsAt entry.2 := by
    intro entry hentry
    obtain ⟨group, hgroup, hkind, -⟩ := hindexed.delayed entry hentry
    rw [slotsAt_eq (h.kept _ _ hgroup), slotsAt_eq hgroup, Group.sifted_of_not_held]
    simp [Group.isHeldBack, hkind]
  rw [liveSlots, liveSlots, hnormal, h.entries, List.flatMap_append, List.flatMap_append,
    List.flatMap_append, h.slots_made, List.flatMap_congr hsame]
  calc registry.normal.entries.flatMap (fun entry => later.slotsAt entry.2) ++
        (registry.delayed.entries.flatMap (fun entry => registry.slotsAt entry.2) ++
          registry.normal.entries.flatMap fun entry =>
            (registry.departing now entry.2).map Prod.snd)
    _ |>.Perm (registry.normal.entries.flatMap (fun entry => later.slotsAt entry.2) ++
          (registry.normal.entries.flatMap fun entry =>
            (registry.departing now entry.2).map Prod.snd) ++
        registry.delayed.entries.flatMap fun entry => registry.slotsAt entry.2) := by
      rw [List.append_assoc]
      exact List.perm_append_comm.append_left _
    _ |>.Perm (registry.normal.entries.flatMap (fun entry => registry.slotsAt entry.2) ++
        registry.delayed.entries.flatMap fun entry => registry.slotsAt entry.2) :=
      ((List.flatMap_append_perm _ _ _).trans (List.Perm.flatMap_left _ hstay)).append_right _

/-! ## What the sweep does -/

/-- A registry after a sweep that moves slots, as its callers see it. The emit key of a group that
is made follows from the full key of its slot. -/
structure Relocated (emitKey : String → String) (now : Instant) (registry later : Registry ν) :
    Prop where
  /-- Groups change, the index of delayed ones, and the count of moved slots; nothing else does. -/
  frame : ∃ groups delayed, later = { registry with
    groups, delayed
    counters := registry.counters.add .slotsRelocated (registry.departures now).length }
  /-- A group that is held back is registered and misses a value; it keeps the slots that are ready,
  in their order, and becomes ready. -/
  relieved : ∀ (id : Nat) (group : Group ν), registry.groups[id]? = some group →
    group.isHeldBack now registry.settings.relocateWindow = true →
    registry.normal.find? group.key = some id ∧ (∃ slot ∈ group.slots, slot.isReady = false) ∧
      later.groups[id]? =
        some { group with slots := group.slots.filter (·.isReady), stage := .ready }
  /-- No other group changes. -/
  others : ∀ (id : Nat) (group : Group ν), registry.groups[id]? = some group →
    group.isHeldBack now registry.settings.relocateWindow = false → later.groups[id]? = some group
  /-- The slots that are not ready leave the groups that they hold back, -/
  leaving : ∀ (group : Group ν) (slot : Slot ν), (group, slot) ∈ registry.departures now ↔
    ∃ id : Nat, registry.groups[id]? = some group ∧
      group.isHeldBack now registry.settings.relocateWindow = true ∧ slot ∈ group.slots ∧
        slot.isReady = false
  /-- each of them once. -/
  distinct : ((registry.departures now).map fun departure => departure.2.fullKey).Nodup
  /-- Each becomes the only slot of a new group, as old as the one it left, which is entered under
  the full key; no entry stood there. -/
  moved : ∀ (group : Group ν) (slot : Slot ν), (group, slot) ∈ registry.departures now →
    registry.delayed.find? slot.fullKey = none ∧ ∃ id : Nat, registry.groups[id]? = none ∧
      later.delayed.find? slot.fullKey = some id ∧
      later.groups[id]? =
        some (.delayed slot (emitKey slot.fullKey) group.createdAt now)
  /-- There are no other new groups, -/
  made : ∀ (id : Nat) (new : Group ν), registry.groups[id]? = none → later.groups[id]? = some new →
    ∃ group slot, (group, slot) ∈ registry.departures now ∧
      new = .delayed slot (emitKey slot.fullKey) group.createdAt now
  /-- and no other new entries; every old one stays. -/
  entries : ∀ key id, later.delayed.find? key = some id ↔
    registry.delayed.find? key = some id ∨
      registry.groups[id]? = none ∧ ∃ new, later.groups[id]? = some new ∧ new.key = key
  /-- The registered groups have the slots that they had. -/
  slots : later.liveSlots.Perm registry.liveSlots

/-- The slots that leave are those that are not ready in the groups that are held back. -/
theorem Orderly.mem_departures_iff (h : registry.Orderly) {group : Group ν} {slot : Slot ν} :
    (group, slot) ∈ registry.departures now ↔ ∃ id : Nat, registry.groups[id]? = some group ∧
      group.isHeldBack now registry.settings.relocateWindow = true ∧ slot ∈ group.slots ∧
        slot.isReady = false := by
  rw [mem_departures]
  constructor
  · rintro ⟨key, id, -, hrest⟩
    exact ⟨id, hrest⟩
  · rintro ⟨id, hgroup, hheld, hrest⟩
    exact ⟨group.key, id, h.listed id group hgroup _ _ hheld, hgroup, hheld, hrest⟩

/-- The entries of delayed groups are the old ones and those of the groups that were made. -/
theorem Rehoused.find?_delayed_iff (h : Rehoused now registry later) (key : String) (id : Nat) :
    later.delayed.find? key = some id ↔ registry.delayed.find? key = some id ∨
      registry.groups[id]? = none ∧ ∃ new, later.groups[id]? = some new ∧ new.key = key := by
  rw [Table.find?_eq_some_iff, h.entries, List.mem_append, ← Table.find?_eq_some_iff,
    Array.getElem?_eq_none_iff]
  refine or_congr_right ⟨fun hnew => ?_, ?_⟩
  · obtain ⟨⟨departure, place⟩, hdeparture, heq⟩ := List.mem_map.mp hnew
    obtain ⟨rfl, rfl⟩ := Prod.mk.inj heq
    obtain ⟨hle, hdeparture⟩ := List.mem_zipIdx_iff_le_and_getElem?_sub.mp hdeparture
    exact ⟨hle, _, by rw [h.made _ hle, hdeparture, Option.map_some], rfl⟩
  · rintro ⟨hle, new, hnew, rfl⟩
    rw [h.made id hle, Option.map_eq_some_iff] at hnew
    obtain ⟨departure, hdeparture, rfl⟩ := hnew
    exact List.mem_map.mpr ⟨(departure, id),
      List.mem_zipIdx_iff_le_and_getElem?_sub.mpr ⟨hle, hdeparture⟩, rfl⟩

theorem Rehoused.relocated {emitKey : String → String} (ho : registry.Orderly)
    (hincomplete : ∀ (id : Nat) (group : Group ν), registry.groups[id]? = some group →
      group.isComplete = false)
    (hemit : ∀ fullKey, registry.scheme.delayedEmitKey? fullKey = some (emitKey fullKey))
    (h : Rehoused now registry later) : Relocated emitKey now registry later := by
  have hdelayed : ∀ (group : Group ν) (slot : Slot ν), delayedFor registry.scheme now group slot =
      .delayed slot (emitKey slot.fullKey) group.createdAt now := by
    intro group slot
    rw [delayedFor, hemit, Option.getD_some]
  constructor
  · exact h.frame
  · intro id group hgroup hheld
    have hincomplete := hincomplete id group hgroup
    refine ⟨ho.listed id group hgroup _ _ hheld, Group.lagging_of_held hheld hincomplete, ?_⟩
    rw [h.kept id group hgroup, Group.sifted_of_incomplete hheld hincomplete]
  · intro id group hgroup hheld
    rw [h.kept id group hgroup, Group.sifted_of_not_held hheld]
  · exact fun group slot => ho.mem_departures_iff
  · exact ho.routed.nodup_departures now
  · intro group slot hdeparture
    obtain ⟨place, hgroup, hheld, hslot, -⟩ := ho.mem_departures_iff.mp hdeparture
    have hkind := (Group.isHeldBack_iff.mp hheld).1
    obtain ⟨i, hi⟩ := List.mem_iff_getElem?.mp hdeparture
    have hnew : later.groups[registry.groups.size + i]? =
        some (.delayed slot (emitKey slot.fullKey) group.createdAt now) := by
      rw [h.made _ (Nat.le_add_right _ _), Nat.add_sub_cancel_left, hi, Option.map_some, hdelayed]
    have hnone : registry.groups[registry.groups.size + i]? = none :=
      Array.getElem?_eq_none (Nat.le_add_right _ _)
    exact ⟨ho.routed.delayed_find?_slot hgroup hkind hslot, _, hnone,
      (h.find?_delayed_iff _ _).mpr (.inr ⟨hnone, _, hnew, rfl⟩), hnew⟩
  · intro id new hnone hnew
    rw [h.made id (Array.getElem?_eq_none_iff.mp hnone), Option.map_eq_some_iff] at hnew
    obtain ⟨⟨group, slot⟩, hdeparture, rfl⟩ := hnew
    exact ⟨group, slot, List.mem_of_getElem? hdeparture, hdelayed group slot⟩
  · exact h.find?_delayed_iff
  · exact h.liveSlots_perm ho.routed.indexed

end Registry

namespace Committer

open Registry (Relocated Alike)

variable {label : String} {settings : Settings} {scheme : KeyScheme}
  {slotBytes : Nat} {unstartable : Option (Sweeper × String)} {start : Committer ν ε}

/-- In every reachable state that is closed, every group that has slots has ended or was claimed. -/
theorem sealed_of_closed
    (hstart : (launch label settings scheme slotBytes unstartable).1 = .ok start)
    (hseparator : scheme.separator.isDigit = false) (actions : List (Action ν ε))
    (hissued : (start.run actions).registry.issued ≤ scheme.cycle)
    (hclosed : (start.run actions).registry.closed = true) :
    (start.run actions).registry.Sealed := by
  induction actions using List.reverseRecOn with
  | nil =>
    rw [run_nil, (launch_eq_ok hstart).2.1] at hclosed
    contradiction
  | append_singleton actions action ih =>
    have hs : Staffed (start.run actions) := (Staffed.launch hstart).run actions
    have hbefore := Nat.le_trans (issued_le_of_append hstart hseparator actions [action]) hissued
    rw [run_append] at hclosed ⊢
    change ((start.run actions).step action).registry.closed = true at hclosed
    cases hopen : (start.run actions).registry.closed with
    | true =>
      have hcoherent : ∀ (id : Nat) (group : Group ν),
          (start.run actions).registry.groups[id]? = some group → group.Coherent :=
        fun id group hgroup => (hs.attended id group hgroup).coherent
      exact ((ih hbefore hopen).deed (shut_of_closed hstart actions hopen) hcoherent
        (hs.deed action)).1
    | false =>
      obtain ⟨-, hsame⟩ | ⟨now, -, heq⟩ | ⟨counters, -, -, heq⟩ := (hs.deed action).calm
      · rw [hsame, hopen] at hclosed
        contradiction
      · rw [heq, (Registry.expired_abortOld (indexed_of_launch hstart actions) now).closed,
          hopen] at hclosed
        contradiction
      · change ((start.run actions).step action).registry.Sealed
        rw [heq]
        exact (enrolled_run hstart hseparator actions hbefore).sealed_close hopen

/-- In every reachable state a group that is held back is registered. -/
theorem listed_run (hstart : (launch label settings scheme slotBytes unstartable).1 = .ok start)
    (hseparator : scheme.separator.isDigit = false) (actions : List (Action ν ε))
    (hissued : (start.run actions).registry.issued ≤ scheme.cycle) {id : Nat} {group : Group ν}
    (hgroup : (start.run actions).registry.groups[id]? = some group) {now : Instant} {window : Nat}
    (hheld : group.isHeldBack now window = true) :
    (start.run actions).registry.normal.find? group.key = some id := by
  obtain ⟨hkind, hstage, -, slot, hslot, -⟩ := Group.isHeldBack_iff.mp hheld
  have hslots := List.ne_nil_of_mem hslot
  cases hclosed : (start.run actions).registry.closed with
  | true =>
    have hover := sealed_of_closed hstart hseparator actions hissued hclosed id group hgroup hslots
    rw [Group.isAbortable_of_isMutable (by rw [hstage]; rfl)] at hover
    contradiction
  | false =>
    have hfind := enrolled_run hstart hseparator actions hissued hclosed id group hgroup hslots
      (by rw [hstage]; rfl)
    rwa [hkind] at hfind

/-- Every reachable registry is orderly. -/
theorem orderly_run (hstart : (launch label settings scheme slotBytes unstartable).1 = .ok start)
    (hseparator : scheme.separator.isDigit = false)
    (actions : List (Action ν ε)) (hissued : (start.run actions).registry.issued ≤ scheme.cycle) :
    (start.run actions).registry.Orderly where
  routed := routed_run hstart hseparator actions hissued
  steered := steered_run hstart actions
  listed := fun _ _ hgroup _ _ hheld => listed_run hstart hseparator actions hissued hgroup hheld

/-- Where there are all emit keys, no reachable group is complete without being ready. -/
theorem incomplete_run (hstart : (launch label settings scheme slotBytes unstartable).1 = .ok start)
    (hderivable : scheme.Derivable) (actions : List (Action ν ε)) {id : Nat} {group : Group ν}
    (hgroup : (start.run actions).registry.groups[id]? = some group) : group.isComplete = false :=
  group_invariant (P := fun group => group.isComplete = false) hstart
    (fun _ hborn => hborn.not_complete) (fun _ _ hnext h => hnext.not_complete hderivable h)
    actions id group hgroup

/-- In whatever order a sweep that moves slots goes through the index of a reachable registry: it
comes to its end, it has done what `Registry.Relocated` says, and it leaves the same registry as in
any other order, but for the places of the groups that it has made. -/
theorem relocation_in_any_order
    (hstart : (launch label settings scheme slotBytes unstartable).1 = .ok start)
    (hseparator : scheme.separator.isDigit = false) {emitKey : String → String}
    (hemit : ∀ fullKey, scheme.delayedEmitKey? fullKey = some (emitKey fullKey))
    (actions : List (Action ν ε))
    (hissued : (start.run actions).registry.issued ≤ scheme.cycle) (now : Instant)
    {other : Registry ν} (hother : (start.run actions).registry.Reordered other) :
    (other.relocate now).answer = true ∧
      Relocated emitKey now other (other.relocate now).registry ∧
      ∃ place : Nat ≃ Nat,
        (∀ id < (start.run actions).registry.groups.size, place id = id) ∧
          Alike place ((start.run actions).registry.relocate now).registry
            (other.relocate now).registry := by
  have horderly := orderly_run hstart hseparator actions hissued
  have hscheme := (run_constant hstart actions).2
  have hderivable : scheme.Derivable := fun fullKey => by rw [hemit]; rfl
  have hderivable' : other.scheme.Derivable := by rwa [hother.scheme, hscheme]
  have hsound := Registry.relieved_of_derivable hderivable' now
  have hrehoused := (hother.orderly horderly).relocate hsound
  refine ⟨by rw [Registry.relocate_of_not_broken hsound], hrehoused.relocated
    (hother.orderly horderly) (fun id group hgroup => ?_) (by rwa [hother.scheme, hscheme]),
    horderly.relocate_alike (by rwa [hscheme]) hother now⟩
  rw [hother.groups_eq] at hgroup
  exact incomplete_run hstart hderivable actions hgroup

/-- Two groups of two slots, each held back by the second one. -/
def stragglers : List (Action Nat Unit) :=
  [.reserve 0 "a", .reserve 0 "b", .reserve 0 "c", .reserve 0 "d", .store "0000:a" 1,
    .store "0001:c" 2]

/-- The registry with these two groups, enumerated from the second one on. -/
def backwards : Registry Nat :=
  { (pairs.run stragglers).registry with
    normal := { entries := [("0001", 1), ("0000", 0)], nodup := by decide } }

theorem reordered_backwards : (pairs.run stragglers).registry.Reordered backwards := by
  have hentries : (pairs.run stragglers).registry.normal.entries = [("0000", 0), ("0001", 1)] := by
    decide +kernel
  refine { Alike.refl (pairs.run stragglers).registry with normal := ?_ }
  rw [hentries]
  exact .swap _ _ _

/-- In the one order the slot of the second group moves to the last place, in the other one to the
place before it; else the sweep leaves the same. -/
theorem relocation_backwards :
    ((launch "pairs" { Settings.default with slotCapacity := 2 } {} 72 none).1 = .ok pairs ∧
      ({} : KeyScheme).separator.isDigit = false ∧
      (∀ fullKey, ({} : KeyScheme).delayedEmitKey? fullKey = some fullKey) ∧
      (pairs.run stragglers).registry.issued ≤ ({} : KeyScheme).cycle ∧
      (pairs.run stragglers).registry.Reordered backwards) ∧
    ((pairs.run stragglers).registry.relocate 5000).registry.delayed.find? "0001:d" = some 3 ∧
    (backwards.relocate 5000).registry.delayed.find? "0001:d" = some 2 ∧
    ∃ place : Nat ≃ Nat, place 3 = 2 ∧
      Alike place ((pairs.run stragglers).registry.relocate 5000).registry
        (backwards.relocate 5000).registry := by
  have hstart : (launch "pairs" { Settings.default with slotCapacity := 2 } {} 72 none).1 =
      .ok pairs := rfl
  have hseparator : ({} : KeyScheme).separator.isDigit = false := by decide
  have hissued : (pairs.run stragglers).registry.issued ≤ ({} : KeyScheme).cycle := by
    decide +kernel
  have hone : ((pairs.run stragglers).registry.relocate 5000).registry.delayed.find? "0001:d" =
      some 3 := by decide +kernel
  have htwo : (backwards.relocate 5000).registry.delayed.find? "0001:d" = some 2 := by
    decide +kernel
  have hemit : ∀ fullKey, ({} : KeyScheme).delayedEmitKey? fullKey = some fullKey := fun fullKey =>
    congrArg some (String.empty_append (s := fullKey))
  obtain ⟨-, -, place, -, halike⟩ :=
    relocation_in_any_order hstart hseparator hemit stragglers hissued 5000 reordered_backwards
  refine ⟨⟨hstart, hseparator, hemit, hissued, reordered_backwards⟩, hone, htwo, place, ?_, halike⟩
  have hplace := halike.find? .delayed "0001:d"
  rw [Registry.index, Registry.index, hone, htwo, Option.map_some] at hplace
  exact (Option.some.inj hplace).symm

end Committer

end BatchedCommit
