import Mathlib.Data.List.Nodup
import BatchedCommit.Proofs.Index

/-!
# BatchedCommit.Proofs.Expiry

What one sweep that aborts groups leaves behind (`Registry.expired_abortOld`): it aborts exactly
the registered groups that are *due*, that is, older than the window and not claimed; it takes
exactly their entries out of the indexes; and it leaves a tombstone for each of their keys,
beside the older tombstones that have not outlived the window.

The sweep strikes the entries of both indexes one after the other (`Registry.roll`) and buries
what it has struck. No two entries lead to the same group, so whether a group is due does not
depend on the strikes before it.
-/

namespace BatchedCommit

variable {ν : Type}

/-- A look-up in a filtered table finds what passes the test. -/
theorem Table.find?_filter {α : Type} (table : Table α) (test : String × α → Bool) (key : String) :
    (table.filter test).find? key = (table.find? key).filter fun entry => test (key, entry) := by
  ext entry
  rw [Option.filter_eq_some_iff]
  simp only [Table.find?_eq_some_iff, Table.filter, List.mem_filter]

namespace Registry

variable {registry later : Registry ν} {now : Instant} {kind : GroupKind} {key : String} {id : Nat}

/-! ## Groups that are due -/

/-- A group is older than the abort window, and nobody has claimed its emission. -/
def isDue (registry : Registry ν) (now : Instant) (id : Nat) : Bool :=
  registry.groups[id]?.any fun group =>
    decide (registry.settings.abortWindow < group.age now) && group.isAbortable

theorem isDue_iff : registry.isDue now id = true ↔ ∃ group, registry.groups[id]? = some group ∧
    registry.settings.abortWindow < group.age now ∧ group.isAbortable = true := by
  simp [isDue, Option.any_eq_true]

theorem isDue_congr (hgroup : later.groups[id]? = registry.groups[id]?)
    (hsettings : later.settings = registry.settings) :
    later.isDue now id = registry.isDue now id := by
  rw [isDue, isDue, hgroup, hsettings]

/-! ## Striking -/

/-- The entries of both indexes, in the order in which a sweep strikes them. -/
def roll (registry : Registry ν) : List (GroupKind × String × Nat) :=
  registry.normal.entries.map (Prod.mk .normal) ++ registry.delayed.entries.map (Prod.mk .delayed)

theorem mem_roll : (kind, key, id) ∈ registry.roll ↔ (registry.index kind).find? key = some id := by
  rw [Table.find?_eq_some_iff, roll]
  cases kind <;> simp [index]

/-- No two entries lead to the same group. -/
theorem Indexed.nodup_roll (h : registry.Indexed) :
    (registry.roll.map fun entry => entry.2.2).Nodup := by
  have hroll : registry.roll.Nodup := by
    have hentries : ∀ (kind : GroupKind) (table : Table Nat),
        (table.entries.map (Prod.mk kind)).Nodup := fun kind table =>
      (List.Nodup.of_map _ table.nodup).map fun _ _ heq => (Prod.mk.inj heq).2
    refine List.nodup_append.mpr ⟨hentries _ _, hentries _ _, fun one hone two htwo heq => ?_⟩
    obtain ⟨_, -, rfl⟩ := List.mem_map.mp hone
    obtain ⟨_, -, rfl⟩ := List.mem_map.mp htwo
    cases heq
  -- a group has one kind and one key
  refine hroll.map_on fun ⟨kind, key, id⟩ hone ⟨kind', key', id'⟩ htwo heq => ?_
  obtain ⟨group, hgroup, rfl, rfl, -⟩ := h.lives kind (mem_roll.mp hone)
  obtain ⟨group', hgroup', rfl, rfl, -⟩ := h.lives kind' (mem_roll.mp htwo)
  obtain rfl : id = id' := heq
  rw [Option.some.inj (hgroup.symm.trans hgroup')]

theorem strike_of_due {sweep : Abortion ν} {group : Group ν}
    (hgroup : sweep.state.registry.groups[id]? = some group)
    (hdue : sweep.state.registry.isDue now id = true) :
    Abortion.strike now kind sweep (key, id) = sweep.afterStrike now kind key id group := by
  obtain ⟨same, hsame, hold, habort⟩ := isDue_iff.mp hdue
  obtain rfl := Option.some.inj (hgroup.symm.trans hsame)
  simp only [Abortion.strike, hgroup, if_pos (And.intro hold habort), Abortion.afterStrike]

theorem strike_of_not_due {sweep : Abortion ν}
    (hdue : sweep.state.registry.isDue now id = false) :
    Abortion.strike now kind sweep (key, id) = sweep := by
  obtain heq | ⟨group, hgroup, hold, habort, -⟩ := strike_cases now kind sweep key id
  · exact heq
  · rw [isDue_iff.mpr ⟨group, hgroup, hold, habort⟩] at hdue
    contradiction

/-- A sweep that aborts groups after it has struck a list of entries. -/
structure Struck (now : Instant) (sweep swept : Abortion ν)
    (entries : List (GroupKind × String × Nat)) : Prop where
  /-- Nothing changed but groups and counters. -/
  frame : ∃ groups counters, swept.state.registry =
    { sweep.state.registry with groups, counters }
  /-- The entries whose groups were due are going to be buried. -/
  aborted : swept.aborted = sweep.aborted ++
    entries.filter fun entry => sweep.state.registry.isDue now entry.2.2
  /-- Their groups were aborted, -/
  struck : ∀ entry ∈ entries, ∀ group,
    sweep.state.registry.groups[entry.2.2]? = some group →
    sweep.state.registry.isDue now entry.2.2 = true →
    swept.state.registry.groups[entry.2.2]? = some (group.abort (.aborted entry.2.1))
  /-- and no others. -/
  spared : ∀ id, (∀ entry ∈ entries, entry.2.2 = id →
      sweep.state.registry.isDue now id = false) →
    swept.state.registry.groups[id]? = sweep.state.registry.groups[id]?

/-- Striking one entry leaves all other groups as they were. -/
theorem groups_strike (now : Instant) (kind : GroupKind) (sweep : Abortion ν) (key : String)
    (own : Nat) {other : Nat} (hne : own ≠ other) :
    (Abortion.strike now kind sweep (key, own)).state.registry.groups[other]? =
      sweep.state.registry.groups[other]? := by
  obtain heq | ⟨group, -, -, -, heq⟩ := strike_cases now kind sweep key own
  · rw [heq]
  · rw [heq]
    exact Array.getElem?_setIfInBounds_ne hne

theorem frame_strike (now : Instant) (kind : GroupKind) (sweep : Abortion ν) (key : String)
    (id : Nat) : ∃ groups counters, (Abortion.strike now kind sweep (key, id)).state.registry =
      { sweep.state.registry with groups, counters } := by
  obtain heq | ⟨group, -, -, -, heq⟩ := strike_cases now kind sweep key id
  · rw [heq]
    exact ⟨sweep.state.registry.groups, sweep.state.registry.counters, rfl⟩
  · rw [heq]
    exact ⟨_, _, rfl⟩

/-- What a sweep has done after it has struck entries that lead to different groups. -/
theorem struck_foldl (now : Instant) (entries : List (GroupKind × String × Nat))
    (hnodup : (entries.map fun entry => entry.2.2).Nodup) (sweep : Abortion ν) :
    Struck now sweep
      (entries.foldl (fun sweep entry => Abortion.strike now entry.1 sweep entry.2) sweep)
      entries := by
  induction entries generalizing sweep with
  | nil =>
    exact ⟨⟨_, _, rfl⟩, (List.append_nil _).symm, fun _ hentry => by contradiction, fun _ _ => rfl⟩
  | cons first rest ih =>
    obtain ⟨kind, key, own⟩ := first
    rw [List.map_cons, List.nodup_cons] at hnodup
    obtain ⟨hown, hrest⟩ := hnodup
    have hs := ih hrest (Abortion.strike now kind sweep (key, own))
    obtain ⟨groups, counters, hframe⟩ := frame_strike now kind sweep key own
    -- the strike changes the group of no other entry, so the others are as due as before
    have hdue : ∀ entry ∈ rest,
        (Abortion.strike now kind sweep (key, own)).state.registry.isDue now entry.2.2 =
          sweep.state.registry.isDue now entry.2.2 := by
      intro entry hentry
      refine isDue_congr (groups_strike now kind sweep key own ?_) (by rw [hframe])
      rintro rfl
      exact hown (List.mem_map_of_mem (f := fun entry => entry.2.2) hentry)
    have hsame : (Abortion.strike now kind sweep (key, own)).state.registry.groups[own]? =
        (rest.foldl (fun sweep entry => Abortion.strike now entry.1 sweep entry.2)
          (Abortion.strike now kind sweep (key, own))).state.registry.groups[own]? := by
      refine (hs.spared own fun entry hentry hid => ?_).symm
      exact absurd (List.mem_map_of_mem (f := fun entry => entry.2.2) hentry) (hid ▸ hown)
    rw [List.foldl_cons]
    constructor
    · obtain ⟨groups', counters', heq⟩ := hs.frame
      exact ⟨groups', counters', by rw [heq, hframe]⟩
    · rw [hs.aborted, List.filter_congr hdue, List.filter_cons]
      cases hfirst : sweep.state.registry.isDue now own with
      | true =>
        obtain ⟨group, hgroup, -⟩ := isDue_iff.mp hfirst
        rw [strike_of_due hgroup hfirst]
        simp [Abortion.afterStrike]
      | false =>
        rw [strike_of_not_due hfirst]
        simp
    · intro entry hmem group hgroup hentryDue
      obtain rfl | hentry := List.mem_cons.mp hmem
      · have hlt : own < sweep.state.registry.groups.size :=
          (Array.getElem?_eq_some_iff.mp hgroup).1
        rw [← hsame, strike_of_due hgroup hentryDue]
        exact Array.getElem?_setIfInBounds_self_of_lt hlt
      · have hne : own ≠ entry.2.2 := by
          rintro rfl
          exact hown (List.mem_map_of_mem (f := fun entry => entry.2.2) hentry)
        refine hs.struck entry hentry group ?_ ?_
        · rw [groups_strike now kind sweep key own hne, hgroup]
        · rw [hdue entry hentry, hentryDue]
    · intro other hother
      by_cases heq : own = other
      · subst heq
        have hnot := hother _ List.mem_cons_self rfl
        rw [← hsame, strike_of_not_due hnot]
      · rw [hs.spared other fun entry hentry hid => ?_, groups_strike now kind sweep key own heq]
        rw [← hid, hdue entry hentry, hid]
        exact hother entry (List.mem_cons_of_mem _ hentry) hid

/-! ## Burying -/

/-- A registry after a list of aborted groups was buried. -/
structure Buried (now : Instant) (registry later : Registry ν)
    (aborted : List (GroupKind × String × Nat)) : Prop where
  closed : later.closed = registry.closed
  index : ∀ kind key id, (later.index kind).find? key = some id ↔
    (registry.index kind).find? key = some id ∧ (kind, key, id) ∉ aborted
  current : ∀ id, later.current = some id ↔
    registry.current = some id ∧ ∀ entry ∈ aborted, entry.2.2 ≠ id
  /-- Each of their keys has a new tombstone, -/
  marked : ∀ entry ∈ aborted, later.tombstones.find? entry.2.1 = some now
  /-- and the others have the tombstones that they had. -/
  unmarked : ∀ key, (∀ entry ∈ aborted, entry.2.1 ≠ key) →
    later.tombstones.find? key = registry.tombstones.find? key

theorem buried_foldl (now : Instant) (aborted : List (GroupKind × String × Nat))
    (registry : Registry ν) : Buried now registry (aborted.foldl (bury now) registry) aborted := by
  induction aborted generalizing registry with
  | nil =>
    exact ⟨rfl, fun _ _ _ => by simp, fun _ => by simp, fun _ hentry => by contradiction,
      fun _ _ => rfl⟩
  | cons first rest ih =>
    obtain ⟨kind, key, id⟩ := first
    have hb := ih (bury now registry (kind, key, id))
    have htombstones : ∀ name, (bury now registry (kind, key, id)).tombstones.find? name =
        if name = key then some now else registry.tombstones.find? name := by
      intro name
      rw [bury, Table.find?_insert, unregister_tombstones]
    have hindex : (bury now registry (kind, key, id)).index =
        (registry.unregister kind key id).index := index_congr rfl rfl
    have hcurrent : (bury now registry (kind, key, id)).current =
        (registry.unregister kind key id).current := rfl
    rw [List.foldl_cons]
    constructor
    · rw [hb.closed]
      exact unregister_closed registry kind key id
    · intro other name place
      rw [hb.index, hindex, find?_unregister, List.mem_cons, Prod.mk.injEq, Prod.mk.injEq]
      tauto
    · intro place
      rw [hb.current, hcurrent, unregister_current, List.forall_mem_cons]
      by_cases hid : registry.current = some id
      · grind
      · grind
    · intro entry hentry
      by_cases hin : ∃ other ∈ rest, other.2.1 = entry.2.1
      · obtain ⟨other, hother, heq⟩ := hin
        rw [← heq]
        exact hb.marked other hother
      · have hnot : ∀ other ∈ rest, other.2.1 ≠ entry.2.1 := fun other hother heq =>
          hin ⟨other, hother, heq⟩
        rw [hb.unmarked entry.2.1 hnot, htombstones]
        obtain rfl | hentry := List.mem_cons.mp hentry
        · exact if_pos rfl
        · exact absurd rfl (hnot entry hentry)
    · intro name hname
      rw [List.forall_mem_cons] at hname
      rw [hb.unmarked name hname.2, htombstones, if_neg (Ne.symm hname.1)]

/-! ## The whole sweep -/

/-- A registry after a sweep that aborts groups. -/
structure Expired (now : Instant) (registry later : Registry ν) : Prop where
  closed : later.closed = registry.closed
  /-- The registered groups that were due were aborted under their keys, -/
  aborted : ∀ kind key id group, (registry.index kind).find? key = some id →
    registry.groups[id]? = some group → registry.isDue now id = true →
    later.groups[id]? = some (group.abort (.aborted key))
  /-- and no others; -/
  spared : ∀ id, (registry.Registered id → registry.isDue now id = false) →
    later.groups[id]? = registry.groups[id]?
  /-- their entries were taken out, and no others; -/
  index : ∀ kind key id, (later.index kind).find? key = some id ↔
    (registry.index kind).find? key = some id ∧ registry.isDue now id = false
  /-- none of them takes reservations any more. -/
  current : ∀ id, later.current = some id ↔
    registry.current = some id ∧ (registry.Registered id → registry.isDue now id = false)
  /-- Their keys have new tombstones; -/
  marked : ∀ kind key id, (registry.index kind).find? key = some id →
    registry.isDue now id = true → later.tombstones.find? key = some now
  /-- of the older ones, those are left that have not outlived the window. -/
  unmarked : ∀ key, (∀ kind id, (registry.index kind).find? key = some id →
      registry.isDue now id = false) →
    later.tombstones.find? key = (registry.tombstones.find? key).filter fun since =>
      decide (elapsed now since ≤ registry.settings.abortWindow)

theorem expired_abortOld (h : registry.Indexed) (now : Instant) :
    Expired now registry (registry.abortOld now).registry := by
  obtain ⟨swept, hstruck, hlater⟩ : ∃ swept, Struck now
      { state := { answer := (), registry := registry.purge now } } swept registry.roll ∧
      (registry.abortOld now).registry =
        swept.aborted.foldl (bury now) swept.state.registry := by
    refine ⟨_, struck_foldl now registry.roll h.nodup_roll _, ?_⟩
    rw [abortOld, roll, List.foldl_append, List.foldl_map, List.foldl_map]
    rfl
  obtain ⟨groups, counters, hframe⟩ := hstruck.frame
  have hburied := buried_foldl now swept.aborted swept.state.registry
  have hgroups := (foldl_bury_same now swept.aborted swept.state.registry).1
  have hindex : swept.state.registry.index = registry.index := by
    rw [hframe]
    exact index_congr rfl rfl
  have hmem : ∀ kind key id, (kind, key, id) ∈ swept.aborted ↔
      (registry.index kind).find? key = some id ∧ registry.isDue now id = true := by
    intro kind key id
    rw [hstruck.aborted, List.nil_append, List.mem_filter, mem_roll]
    rfl
  rw [← hlater] at hburied hgroups
  constructor
  · rw [hburied.closed, hframe]
    rfl
  · intro kind key id group hfind hgroup hdue
    rw [hgroups]
    exact hstruck.struck (kind, key, id) (mem_roll.mpr hfind) group hgroup hdue
  · intro id hnot
    rw [hgroups]
    refine hstruck.spared id fun entry hentry hid => ?_
    obtain ⟨kind, key, _⟩ := entry
    subst hid
    exact hnot (registered_iff.mpr ⟨kind, key, mem_roll.mp hentry⟩)
  · intro kind key id
    rw [hburied.index, hindex, hmem]
    refine and_congr_right fun hfind => ?_
    simp only [hfind, true_and, Bool.not_eq_true]
  · intro id
    have hcurrent : swept.state.registry.current = registry.current := by rw [hframe]; rfl
    rw [hburied.current, hcurrent, registered_iff]
    refine and_congr_right fun _ => ⟨fun hnone hfound => ?_, fun hnot entry hentry => ?_⟩
    · obtain ⟨kind, key, hfind⟩ := hfound
      by_contra hdue
      rw [Bool.not_eq_false] at hdue
      exact hnone _ ((hmem kind key id).mpr ⟨hfind, hdue⟩) rfl
    · rintro rfl
      obtain ⟨hfind, hdue⟩ := (hmem _ _ _).mp hentry
      rw [hnot ⟨_, _, hfind⟩] at hdue
      contradiction
  · intro kind key id hfind hdue
    exact hburied.marked (kind, key, id) ((hmem kind key id).mpr ⟨hfind, hdue⟩)
  · intro key hnot
    rw [hburied.unmarked key fun entry hentry heq => ?_, hframe]
    · exact Table.find?_filter _ _ key
    · obtain ⟨kind, _, id⟩ := entry
      obtain ⟨hfind, hdue⟩ := (hmem _ _ _).mp hentry
      subst heq
      rw [hnot kind id hfind] at hdue
      contradiction

/-- The entries that are left lead to groups that live. -/
theorem Indexed.abortOld (h : registry.Indexed) (now : Instant) :
    (registry.abortOld now).registry.Indexed := by
  have hexpired := expired_abortOld h now
  have hlives : ∀ (kind : GroupKind) (entry : String × Nat),
      entry ∈ ((registry.abortOld now).registry.index kind).entries →
      (registry.abortOld now).registry.Lives kind entry.1 entry.2 := by
    intro kind ⟨key, id⟩ hentry
    obtain ⟨hfind, hdue⟩ := (hexpired.index kind key id).mp
      ((Table.find?_eq_some_iff _ key id).mpr hentry)
    obtain ⟨group, hgroup, hrest⟩ := h.lives kind hfind
    exact ⟨group, by rw [hexpired.spared id fun _ => hdue, hgroup], hrest⟩
  exact ⟨hlives .normal, hlives .delayed⟩

end Registry

end BatchedCommit
