import BatchedCommit.Proofs.Current
import BatchedCommit.Proofs.Tally

/-!
# BatchedCommit.Proofs.Ledger

What a committer counts, beside what it counts it for. `Registry.Entry` lists the elementary
changes of a registry with the counters that go with them, and `Committer.entries_step` says
that every step is a chain of such changes; a sound one, if the sweeper that moves slots has not
broken down in it. What follows from the list for the counters that a step
leaves alone is here (`Registry.Entries.get_counters`), and so is what follows for the groups of a
class that no live group belongs to (`Registry.Entries.tally_within`); what follows for the counters
that it changes is in `BatchedCommit.Proofs.Books`.

The classes in which a group is counted follow from its stage, its outcome and its slots; every
group is in one of them (`Group.weight_eq_classes`).
-/

namespace BatchedCommit

variable {ν ε : Type}

/-! ## Classes of groups -/

namespace Group

variable {group changed : Group ν}

/-- The number of slots. -/
def slotCount (group : Group ν) : Nat := group.slots.length

/-- The group has slots and has not ended. -/
def isUnderway (group : Group ν) : Bool := !group.slots.isEmpty && !group.stage.isTerminal

/-- The group lost all of its slots before it could end. -/
def isDiscarded (group : Group ν) : Bool := group.slots.isEmpty && !group.stage.isTerminal

/-- The emission of the group is over, with an outcome of this kind. -/
def isDone (test : Verdict → Bool) (group : Group ν) : Bool :=
  group.stage == .done && group.outcome.any test

/-- The emission of the group succeeded. -/
def isEmitted : Group ν → Bool := isDone Except.isOk

/-- The emission of the group failed, or had no emitter. -/
def isFailed : Group ν → Bool := isDone (!·.isOk)

/-- The group was given up at a shutdown. -/
def isAbandoned (group : Group ν) : Bool :=
  group.stage == .aborted && group.outcome == some (.error .closed)

/-- The group was aborted by a sweep. -/
def isExpired (group : Group ν) : Bool :=
  group.stage == .aborted && group.outcome != some (.error .closed)

/-- Every group is in one class. -/
theorem weight_eq_classes (hcoherent : group.Coherent) (weight : Group ν → Nat) :
    weight group = within isUnderway weight group + within isEmitted weight group +
      within isFailed weight group + within isExpired weight group +
      within isAbandoned weight group + within isDiscarded weight group := by
  have houtcome := hcoherent.outcome
  cases hs : group.stage with
  | done =>
    obtain ⟨verdict, hverdict⟩ := Option.isSome_iff_exists.mp
      (houtcome.trans (by rw [hs]; rfl))
    cases hok : verdict.isOk <;>
      simp [within, isUnderway, isEmitted, isFailed, isExpired, isAbandoned, isDiscarded, isDone,
        hs, hverdict, hok, Stage.isTerminal]
  | aborted =>
    by_cases hclosed : group.outcome = some (.error .closed) <;>
      simp [within, isUnderway, isEmitted, isFailed, isExpired, isAbandoned, isDiscarded, isDone,
        hs, hclosed, Stage.isTerminal]
  | _ =>
    cases hempty : group.slots.isEmpty <;>
      simp [within, isUnderway, isEmitted, isFailed, isExpired, isAbandoned, isDiscarded, isDone,
        hs, hempty, Stage.isTerminal]

section Live

variable (h : group.stage.isTerminal = false)

include h

theorem isDone_of_live (test : Verdict → Bool) : group.isDone test = false := by
  cases hs : group.stage <;> simp_all [isDone, Stage.isTerminal]

theorem isAbandoned_of_live : group.isAbandoned = false := by
  cases hs : group.stage <;> simp_all [isAbandoned, Stage.isTerminal]

theorem isExpired_of_live : group.isExpired = false := by
  cases hs : group.stage <;> simp_all [isExpired, Stage.isTerminal]

theorem isDiscarded_of_live : group.isDiscarded = group.slots.isEmpty := by
  simp [isDiscarded, h]

end Live

/-- A group that can be ended without an emission has not ended. -/
theorem live_of_isAbortable (h : group.isAbortable = true) : group.stage.isTerminal = false := by
  rw [Bool.eq_false_iff]
  intro hended
  rw [not_abortable_of_isTerminal hended] at h
  contradiction

/-- A group whose slots may change has not ended. -/
theorem live_of_isMutable (h : group.stage.isMutable = true) : group.stage.isTerminal = false := by
  obtain hs | hs := Stage.isMutable_iff.mp h <;> rw [hs] <;> rfl

end Group

/-! ## Entries -/

namespace Registry

open BatchedCommit.Group (slotCount isDone isAbandoned isExpired isDiscarded)

variable {registry middle later : Registry ν} {sound : Bool} {action : Action ν ε}

/-- A registry after a change: its groups and its counters. -/
structure Posts (later : Registry ν) (groups : Array (Group ν)) (counters : Counters) :
    Prop where
  groups : later.groups = groups
  counters : later.counters = counters

/-- The elementary changes of a registry in a step, each with what is counted for it; in a sound
step no sweep breaks down. -/
inductive Entry (sound : Bool) (registry : Registry ν) : Action ν ε → Registry ν → Prop where
  /-- Neither groups nor counters change. -/
  | frame {action : Action ν ε} {later : Registry ν}
      (h : Posts later registry.groups registry.counters) : Entry sound registry action later
  /-- A group goes on with as many slots. -/
  | alter {action : Action ν ε} {later : Registry ν} {id : Nat} {group changed : Group ν}
      (hgroup : registry.groups[id]? = some group) (hlive : group.stage.isTerminal = false)
      (hlive' : changed.stage.isTerminal = false) (hslots : changed.slotCount = group.slotCount)
      (h : Posts later (registry.groups.setIfInBounds id changed) registry.counters) :
      Entry sound registry action later
  /-- A slot is reserved in a group that has others. -/
  | reserve {now : Instant} {child : String} {later : Registry ν} {id : Nat}
      {group changed : Group ν}
      (hgroup : registry.groups[id]? = some group) (hlive : group.stage.isTerminal = false)
      (hlive' : changed.stage.isTerminal = false) (hsome : group.slotCount ≠ 0)
      (hslots : changed.slotCount = group.slotCount + 1)
      (h : Posts later (registry.groups.setIfInBounds id changed)
        (registry.counters.bump .slotsReserved)) : Entry sound registry (.reserve now child) later
  /-- A group is opened for a slot. -/
  | opened {now : Instant} {child : String} {later : Registry ν} {changed : Group ν}
      (hlive' : changed.stage.isTerminal = false) (hslots : changed.slotCount = 1)
      (h : Posts later (registry.groups.push changed)
        ((registry.counters.bump .groupsOpened).bump .slotsReserved)) :
      Entry sound registry (.reserve now child) later
  /-- A slot is removed from a group that has others. -/
  | remove {fullKey : String} {later : Registry ν} {id : Nat} {group changed : Group ν}
      (hgroup : registry.groups[id]? = some group) (hlive : group.stage.isTerminal = false)
      (hlive' : changed.stage.isTerminal = false) (hsome : changed.slotCount ≠ 0)
      (hslots : changed.slotCount + 1 = group.slotCount)
      (h : Posts later (registry.groups.setIfInBounds id changed)
        (registry.counters.bump .slotsRemoved)) : Entry sound registry (.remove fullKey) later
  /-- The only slot of a group is removed. -/
  | discard {fullKey : String} {later : Registry ν} {id : Nat} {group changed : Group ν}
      (hgroup : registry.groups[id]? = some group) (hlive : group.stage.isTerminal = false)
      (hlive' : changed.stage.isTerminal = false) (hslots : changed.slotCount = 0)
      (hone : group.slotCount = 1)
      (h : Posts later (registry.groups.setIfInBounds id changed)
        ((registry.counters.bump .slotsRemoved).bump .groupsDiscarded)) :
      Entry sound registry (.remove fullKey) later
  /-- Slots of a group are moved into new groups. -/
  | relieve {now : Instant} {later : Registry ν} {id : Nat} {group changed : Group ν}
      {made : Array (Group ν)}
      (hgroup : registry.groups[id]? = some group) (hlive : group.stage.isTerminal = false)
      (hlive' : changed.stage.isTerminal = false) (hsome : changed.slotCount ≠ 0)
      (hmade : ∀ (i : Nat) (other : Group ν), made[i]? = some other →
        other.slotCount = 1 ∧ other.stage.isTerminal = false)
      (hslots : changed.slotCount + made.size = group.slotCount)
      (h : Posts later (registry.groups.setIfInBounds id changed ++ made)
        (registry.counters.add .slotsRelocated made.size)) :
      Entry sound registry (.sweep .relocate now) later
  /-- A sweep that moves slots breaks down: what it has counted stays, and the slots that it has
  taken out of groups are lost. -/
  | lose {now : Instant} {later : Registry ν} {groups : Array (Group ν)} {count : Nat}
      (hsound : sound = false) (hsize : groups.size = registry.groups.size)
      (hspares : registry.Spares now groups)
      (h : Posts later groups (registry.counters.add .slotsRelocated count)) :
      Entry sound registry (.sweep .relocate now) later
  /-- A group has outlived the abort window. -/
  | expire {now : Instant} {later : Registry ν} {id : Nat} {group : Group ν} {key : String}
      (hgroup : registry.groups[id]? = some group) (habort : group.isAbortable = true)
      (hsome : group.slotCount ≠ 0)
      (h : Posts later
        (registry.groups.setIfInBounds id (group.abort (.aborted key)))
        (registry.counters.bump .groupsAborted)) : Entry sound registry (.sweep .abort now) later
  /-- A group is given up at a shutdown. -/
  | abandon {later : Registry ν} {id : Nat} {group : Group ν}
      (hgroup : registry.groups[id]? = some group) (habort : group.isAbortable = true)
      (hsome : group.slotCount ≠ 0)
      (h : Posts later (registry.groups.setIfInBounds id (group.abort .closed))
        registry.counters) : Entry sound registry .close later
  /-- A sweeper turns out to have broken down. -/
  | panic {later : Registry ν} (h : Posts later registry.groups
      (registry.counters.bump .sweeperPanics)) : Entry sound registry .close later
  /-- A group learns how its emission ended. -/
  | finish {n : Nat} {later : Registry ν} {id : Nat} {group : Group ν} {verdict : Verdict}
      (hgroup : registry.groups[id]? = some group) (hlive : group.stage.isTerminal = false)
      (hsome : group.slotCount ≠ 0)
      (h : Posts later (registry.groups.setIfInBounds id (group.finish verdict))
        registry.counters) : Entry sound registry (.conclude n) later
  /-- An emission succeeded. -/
  | emitted {n values : Nat} {answer : Except String Unit} {later : Registry ν}
      (h : Posts later registry.groups (registry.counters.recordEmission values)) :
      Entry sound registry (.complete n answer) later
  /-- An emission failed. -/
  | failed {n : Nat} {answer : Except String Unit} {later : Registry ν}
      (h : Posts later registry.groups (registry.counters.bump .emitFailures)) :
      Entry sound registry (.complete n answer) later
  /-- There was no emitter. -/
  | missing {n : Nat} {later : Registry ν}
      (h : Posts later registry.groups (registry.counters.bump .emitFailures)) :
      Entry sound registry (.begin n) later

/-- A chain of such changes. -/
abbrev Entries (sound : Bool) (action : Action ν ε) : Registry ν → Registry ν → Prop :=
  Relation.ReflTransGen fun registry later => Entry sound registry action later

/-! ## Sections -/

/-- Nothing but the indexes changes. -/
theorem Entries.frame (hgroups : later.groups = registry.groups)
    (hcounters : later.counters = registry.counters) : Entries sound action registry later :=
  .single (.frame ⟨hgroups, hcounters⟩)

theorem unregister_counters (registry : Registry ν) (kind : GroupKind) (key : String) (id : Nat) :
    (registry.unregister kind key id).counters = registry.counters := by
  unfold unregister
  cases kind <;> dsimp only <;> split <;> split <;> rfl

theorem entries_reserve (hindexed : registry.Indexed) (hsteered : registry.Steered)
    (now : Instant) (child : String) :
    Entries sound (.reserve now child : Action ν ε) registry
      (registry.reserve now child).registry := by
  obtain ⟨-, heq⟩ | ⟨_, _, -, -, -, -, -, heq⟩ |
    ⟨id, group, changed, -, hcurrent, hgroup, hreserve, heq⟩ |
    ⟨parent, changed, -, -, -, rfl, hreserve, heq⟩ | ⟨-, -, -, heq⟩ :=
    registry.reserve_cases now child
  · rw [heq]
  · rw [heq]
  · rw [heq]
    obtain ⟨hopen, -, hchanged⟩ := Group.reserve_eq_ok hreserve
    -- the group that takes reservations is registered, so it has slots
    obtain ⟨same, hsame, -, hfind⟩ := hsteered.listed id hcurrent
    obtain ⟨live, hgroup', hslots, -⟩ := hindexed.of_registered (.inl ⟨_, hfind⟩)
    obtain rfl := Option.some.inj (hgroup.symm.trans hgroup')
    refine .single (.reserve hgroup (by rw [hopen]; rfl)
      (Group.live_of_isMutable (isMutable_of_reserve hreserve)) (by simpa [slotCount] using hslots)
      ?_ ⟨rfl, rfl⟩)
    rw [hchanged, slotCount, List.length_append]
    rfl
  · rw [heq]
    refine .single (.opened (Group.live_of_isMutable (isMutable_of_reserve hreserve)) ?_
      ⟨rfl, rfl⟩)
    rw [(Group.reserve_eq_ok hreserve).2.2]
    rfl
  · rw [heq]
    exact Entries.frame rfl rfl

theorem live_markReady {group : Group ν} (h : group.stage.isTerminal = false) :
    group.markReady.stage.isTerminal = false := by
  rw [Group.markReady]
  split
  · rfl
  · exact h

theorem slotCount_markReady (group : Group ν) : group.markReady.slotCount = group.slotCount := by
  rw [slotCount, Group.markReady_slots, slotCount]

theorem entries_store (registry : Registry ν) (fullKey : String) (value : ν) :
    Entries sound (action : Action ν ε) registry (registry.store fullKey value).registry := by
  obtain ⟨_, heq⟩ | ⟨id, group, changed, -, -, hgroup, hput, heq⟩ :=
    registry.store_cases fullKey value
  · rw [heq]
  · rw [heq]
    obtain ⟨hlive, before, slot, after, hslots, -, -, -, rfl⟩ := Group.put_eq_ok hput
    refine .single (.alter hgroup hlive ?_ ?_ ⟨rfl, rfl⟩)
    · exact live_markReady hlive
    · rw [slotCount_markReady]
      simp [slotCount, hslots]

theorem entries_remove (registry : Registry ν) (fullKey : String) :
    Entries sound (.remove fullKey : Action ν ε) registry (registry.remove fullKey).registry := by
  obtain ⟨_, heq⟩ | ⟨id, group, changed, -, -, hgroup, hremove, hempty, heq⟩ |
    ⟨id, group, changed, -, -, hgroup, hremove, hsome, heq⟩ := registry.remove_cases fullKey
  · rw [heq]
  · rw [heq]
    obtain ⟨hmutable, before, slot, after, hslots, -, -, -, hchanged⟩ :=
      Group.remove_eq_ok hremove
    have hlive := Group.live_of_isMutable hmutable
    have hone : group.slotCount = 1 := by
      rw [hchanged] at hempty
      obtain ⟨rfl, rfl⟩ := List.append_eq_nil_iff.mp hempty
      simp [slotCount, hslots]
    have hlive' : changed.stage.isTerminal = false := by rw [hchanged]; exact hlive
    refine .single (.discard hgroup hlive hlive' (by rw [slotCount, hempty]; rfl) hone ⟨?_, ?_⟩)
    · rw [bump, unregister_groups]
      rfl
    · rw [bump, unregister_counters]
      rfl
  · rw [heq]
    obtain ⟨hmutable, before, slot, after, hslots, -, -, -, rfl⟩ := Group.remove_eq_ok hremove
    have hlive := Group.live_of_isMutable hmutable
    refine .single (.remove hgroup hlive ?_ ?_ ?_ ⟨rfl, rfl⟩)
    · exact live_markReady hlive
    · rw [slotCount_markReady, slotCount]
      exact fun hzero => hsome (List.length_eq_zero_iff.mp hzero)
    · rw [slotCount_markReady]
      simp [slotCount, hslots, Nat.add_assoc]

theorem entries_fixSizes (registry : Registry ν) (now : Instant) :
    Entries sound (action : Action ν ε) registry (registry.fixSizes now).registry := by
  refine foldl_keep
    (P := fun state : Section ν Unit => Entries sound action registry state.registry) _
    (fun state id _ hstate => ?_) .refl
  obtain heq | ⟨group, hgroup, -, hopen, heq⟩ := fixSizeOf_cases now state id
  · rw [heq]
    exact hstate
  · rw [heq]
    refine hstate.tail (.alter hgroup (by rw [hopen]; rfl) ?_ ?_ ⟨rfl, rfl⟩)
    · refine live_markReady ?_
      rw [Group.fixSize, if_pos hopen]
      rfl
    · rw [slotCount_markReady, Group.fixSize, if_pos hopen]
      rfl

/-- A group that slots are taken out of because they hold it back goes on with others. -/
theorem live_leftBehind (scheme : KeyScheme) {group : Group ν} {now : Instant} {window : Nat}
    (hheld : group.isHeldBack now window = true) :
    group.stage.isTerminal = false ∧ (group.leftBehind scheme).stage.isTerminal = false ∧
      group.slotCount ≠ 0 ∧ (group.leftBehind scheme).slotCount ≠ 0 := by
  obtain ⟨-, hstage, -, slot, hslot, hready⟩ := Group.isHeldBack_iff.mp hheld
  have hlive : group.stage.isTerminal = false := by rw [hstage]; rfl
  refine ⟨hlive, ?_, ?_, ?_⟩
  · rw [Group.leftBehind]
    split
    · exact live_markReady hlive
    · exact hlive
  · exact List.length_pos_iff.mpr (List.ne_nil_of_mem hslot) |>.ne'
  · rw [slotCount, Group.leftBehind_slots]
    exact List.length_pos_iff.mpr
      (List.ne_nil_of_mem (List.mem_filter.mpr ⟨hslot, hready⟩)) |>.ne'

/-- Taking slots out of groups changes no sum of weights that do not depend on them. -/
theorem Spares.tally_eq {now : Instant} {groups : Array (Group ν)}
    (h : registry.Spares now groups) (hsize : groups.size = registry.groups.size)
    {weight : Group ν → Nat}
    (hsame : ∀ group : Group ν, group.isHeldBack now registry.settings.relocateWindow = true →
      weight (group.leftBehind registry.scheme) = weight group) :
    tally weight groups = tally weight registry.groups := by
  refine tally_eq_of_forall hsize fun id group changed hgroup hchanged => ?_
  obtain ⟨old, hold, hcase⟩ := h.before hsize hchanged
  obtain rfl := Option.some.inj (hgroup.symm.trans hold)
  obtain rfl | ⟨hheld, rfl⟩ := hcase
  · rfl
  · exact hsame group hheld

theorem entry_relieve (now : Instant) (sweep : Relocation ν) (id : Nat)
    (hbroken : (Relocation.relieve now sweep id).broken = false) :
    Entries sound (.sweep .relocate now : Action ν ε) sweep.state.registry
      (Relocation.relieve now sweep id).state.registry := by
  obtain ⟨heq, -⟩ | ⟨group, hgroup, hheld, -, hmovable, heq⟩ := relieve_sound_cases hbroken
  · rw [heq]
  · rw [heq]
    obtain ⟨hlive, hlive', -, hsome⟩ := live_leftBehind sweep.state.registry.scheme hheld
    refine .single (.relieve hgroup hlive hlive' hsome ?_ ?_ ⟨rfl, ?_⟩)
    · intro i other hother
      rw [List.getElem?_toArray, List.getElem?_map] at hother
      obtain ⟨lagging, -, rfl⟩ := Option.map_eq_some_iff.mp hother
      exact ⟨rfl, rfl⟩
    · rw [slotCount, Group.leftBehind_slots, List.size_toArray, List.length_map,
        Group.movable_of_isMovable hmovable]
      exact (List.length_eq_length_filter_add _).symm
    · rw [List.size_toArray, List.length_map]
      rfl

theorem entries_relocate (registry : Registry ν) (now : Instant) :
    Entries (registry.relocate now).answer (.sweep .relocate now : Action ν ε) registry
      (registry.relocate now).registry := by
  cases hbroken : (registry.relieved now).broken with
  | true =>
    obtain ⟨groups, count, hsize, hspares, heq⟩ := relocate_registry_of_broken hbroken
    have hanswer : (registry.relocate now).answer = false := by rw [relocate_of_broken hbroken]
    rw [hanswer, heq]
    exact .single (.lose rfl hsize hspares ⟨rfl, rfl⟩)
  | false =>
    have hsweep : Entries true (.sweep .relocate now : Action ν ε) registry
        (registry.relieved now).state.registry :=
      relieved_keep (P := fun sweep => Entries true (.sweep .relocate now : Action ν ε) registry
        sweep.state.registry) (fun sweep id hnot h => h.trans (entry_relieve now sweep id hnot))
        .refl hbroken
    rw [relocate_of_not_broken hbroken]
    exact hsweep.trans (Entries.frame rfl rfl)

/-- The groups of a registry have kept their slots since an earlier state. -/
def SameSlots (registry later : Registry ν) : Prop :=
  ∀ id : Nat, later.groups[id]?.map Group.slots = registry.groups[id]?.map Group.slots

theorem SameSlots.set {id : Nat} {group changed : Group ν} (h : SameSlots registry later)
    (hgroup : later.groups[id]? = some group) (hslots : changed.slots = group.slots) :
    SameSlots registry (later.setGroup id changed) := by
  intro other
  rw [← h other, setGroup]
  by_cases hother : id = other
  · subst hother
    rw [Array.getElem?_setIfInBounds_self_of_lt (Array.getElem?_eq_some_iff.mp hgroup).1, hgroup,
      Option.map_some, Option.map_some, hslots]
  · rw [Array.getElem?_setIfInBounds_ne hother]

/-- A registered group has slots, also after other groups have ended. -/
theorem SameSlots.slotCount_ne_zero (h : SameSlots registry later) (hindexed : registry.Indexed)
    {id : Nat} (hid : registry.Registered id) {group : Group ν}
    (hgroup : later.groups[id]? = some group) : group.slotCount ≠ 0 := by
  obtain ⟨old, hold, hslots, -⟩ := hindexed.of_registered hid
  have hsame := h id
  rw [hgroup, hold, Option.map_some, Option.map_some] at hsame
  rw [slotCount, Option.some.inj hsame]
  exact fun hzero => hslots (List.length_eq_zero_iff.mp hzero)

theorem slots_abort (group : Group ν) (reason : Failure) :
    (group.abort reason).slots = group.slots := by
  rw [Group.abort]
  split <;> rfl

theorem counters_foldl_bury (now : Instant) (entries : List (GroupKind × String × Nat))
    (registry : Registry ν) :
    (entries.foldl (bury now) registry).counters = registry.counters := by
  refine foldl_keep (P := fun later : Registry ν => later.counters = registry.counters) entries
    (fun later entry _ h => ?_) rfl
  rw [← h]
  exact unregister_counters later _ _ _

theorem entries_abortOld (hindexed : registry.Indexed) (now : Instant) :
    Entries sound (.sweep .abort now : Action ν ε) registry (registry.abortOld now).registry := by
  have hstrike : ∀ (kind : GroupKind) (sweep : Abortion ν), ∀ entry ∈ (registry.index kind).entries,
      (Entries sound (.sweep .abort now : Action ν ε) registry sweep.state.registry ∧
        SameSlots registry sweep.state.registry) →
      (Entries sound (.sweep .abort now : Action ν ε) registry
          (Abortion.strike now kind sweep entry).state.registry ∧
        SameSlots registry (Abortion.strike now kind sweep entry).state.registry) := by
    rintro kind sweep ⟨key, id⟩ hentry ⟨hentries, hslots⟩
    have hid : registry.Registered id :=
      registered_iff.mpr ⟨kind, key, (Table.find?_eq_some_iff _ key id).mpr hentry⟩
    obtain heq | ⟨group, hgroup, -, habort, heq⟩ := strike_cases now kind sweep key id
    · rw [heq]
      exact ⟨hentries, hslots⟩
    · rw [heq]
      exact ⟨hentries.tail (.expire hgroup habort
          (hslots.slotCount_ne_zero hindexed hid hgroup) ⟨rfl, rfl⟩),
        hslots.set hgroup (slots_abort group (.aborted key))⟩
  rw [abortOld]
  dsimp only
  have hpurged : Entries sound (.sweep .abort now : Action ν ε) registry (registry.purge now) ∧
      SameSlots registry (registry.purge now) := ⟨Entries.frame rfl rfl, fun _ => rfl⟩
  have hnormal := foldl_keep registry.normal.entries (hstrike .normal)
    (show _ ∧ SameSlots registry (Abortion.mk { answer := (), registry := registry.purge now }
      []).state.registry from hpurged)
  have hdelayed := foldl_keep registry.delayed.entries (hstrike .delayed) hnormal
  obtain ⟨hgroups, -, -⟩ := foldl_bury_same now
    (registry.delayed.entries.foldl (Abortion.strike now .delayed)
      (registry.normal.entries.foldl (Abortion.strike now .normal)
        { state := { answer := (), registry := registry.purge now } })).aborted
    (registry.delayed.entries.foldl (Abortion.strike now .delayed)
      (registry.normal.entries.foldl (Abortion.strike now .normal)
        { state := { answer := (), registry := registry.purge now } })).state.registry
  exact hdelayed.1.trans (Entries.frame hgroups (counters_foldl_bury _ _ _))

theorem entries_close (hindexed : registry.Indexed) :
    Entries sound (.close : Action ν ε) registry registry.close.registry := by
  refine (foldl_keep (P := fun state : Section ν Unit =>
    Entries sound (.close : Action ν ε) registry state.registry ∧
      SameSlots registry state.registry) _
    (fun state id hid hstate => ?_) ⟨Entries.frame rfl rfl, fun _ => rfl⟩).1
  obtain ⟨hentries, hslots⟩ := hstate
  have hregistered : registry.Registered id := by
    rw [List.mem_append, List.mem_map, List.mem_map] at hid
    obtain ⟨⟨key, _⟩, hentry, rfl⟩ | ⟨⟨key, _⟩, hentry, rfl⟩ := hid
    · exact .inl ⟨key, (Table.find?_eq_some_iff _ key _).mpr hentry⟩
    · exact .inr ⟨key, (Table.find?_eq_some_iff _ key _).mpr hentry⟩
  obtain heq | ⟨group, hgroup, habort, heq⟩ := abandon_cases state id
  · rw [heq]
    exact ⟨hentries, hslots⟩
  · rw [heq]
    exact ⟨hentries.tail (.abandon hgroup habort
        (hslots.slotCount_ne_zero hindexed hregistered hgroup) ⟨rfl, rfl⟩),
      hslots.set hgroup (slots_abort group .closed)⟩

theorem entries_glance (registry : Registry ν) (id : Nat) :
    Entries sound action registry (registry.glance id).registry := by
  obtain ⟨_, _, -, -, heq⟩ | ⟨group, values, changed, hgroup, -, hclaim, heq⟩ | ⟨-, heq⟩ :=
    registry.glance_cases id
  · rw [heq]
  · rw [heq]
    obtain ⟨hstage, -, -, rfl⟩ := Group.claim?_eq_some hclaim
    have hlive : group.stage.isTerminal = false := by rw [hstage]; rfl
    refine .single (.alter hgroup hlive ?_ ?_ ⟨rfl, rfl⟩)
    · exact hlive
    · simp [slotCount]
  · rw [heq]

theorem entries_retire (registry : Registry ν) (id : Nat) :
    Entries sound action registry (registry.retire id) := by
  rw [retire]
  split
  · exact Entries.frame (unregister_groups _ _ _ _) (unregister_counters _ _ _ _)
  · exact .refl

/-! ## What a change leaves alone -/

/-- The counters that a step may change. -/
def counted : Action ν ε → List Counter
  | .reserve _ _ => [.groupsOpened, .slotsReserved]
  | .remove _ => [.slotsRemoved, .groupsDiscarded]
  | .close => [.sweeperPanics]
  | .sweep .relocate _ => [.slotsRelocated]
  | .sweep .abort _ => [.groupsAborted]
  | .begin _ => [.emitFailures]
  | .complete _ _ => [.groupsEmitted, .valuesEmitted, .emitFailures]
  | _ => []

theorem Entry.get_counters (h : Entry sound registry action later) {counter : Counter}
    (hnot : counter ∉ counted action) :
    later.counters.get counter = registry.counters.get counter := by
  cases h with
  | frame h => rw [h.counters]
  | alter _ _ _ _ h => rw [h.counters]
  | abandon _ _ _ h => rw [h.counters]
  | finish _ _ _ h => rw [h.counters]
  | _ =>
    simp only [counted, List.mem_cons, List.not_mem_nil, or_false, not_or] at hnot
    rename Posts _ _ _ => h
    simp [h.counters, Counters.bump, Counters.recordEmission, Counters.get_add, hnot]

/-- How a group ends in a step. -/
inductive Ends (group : Group ν) : Action ν ε → Group ν → Prop where
  | expire (now : Instant) (key : String) :
      Ends group (.sweep .abort now) (group.abort (.aborted key))
  | abandon : Ends group .close (group.abort .closed)
  | finish (n : Nat) (verdict : Verdict) : Ends group (.conclude n) (group.finish verdict)

/-- The groups of a class that no live group belongs to are the same after a change in which no
group ends in that class. -/
theorem Entry.tally_within (h : Entry sound registry action later) {test : Group ν → Bool}
    (weight : Group ν → Nat)
    (hlive : ∀ group, group.stage.isTerminal = false → test group = false)
    (hends : ∀ group changed, group.stage.isTerminal = false → Ends group action changed →
      test changed = false) :
    tally (within test weight) later.groups = tally (within test weight) registry.groups := by
  have hzero : ∀ {group : Group ν}, test group = false → within test weight group = 0 :=
    fun h => by rw [within, h]; rfl
  have hset : ∀ {id : Nat} {group changed : Group ν}, registry.groups[id]? = some group →
      group.stage.isTerminal = false → test changed = false →
      tally (within test weight) (registry.groups.setIfInBounds id changed) =
        tally (within test weight) registry.groups := fun hgroup hold hnew =>
    tally_set_same hgroup (by rw [hzero hnew, hzero (hlive _ hold)])
  cases h with
  | frame h => rw [h.groups]
  | panic h => rw [h.groups]
  | emitted h => rw [h.groups]
  | failed h => rw [h.groups]
  | missing h => rw [h.groups]
  | alter hgroup hold hnew _ h => rw [h.groups, hset hgroup hold (hlive _ hnew)]
  | reserve hgroup hold hnew _ _ h => rw [h.groups, hset hgroup hold (hlive _ hnew)]
  | opened hnew _ h => rw [h.groups, tally_push, hzero (hlive _ hnew), Nat.add_zero]
  | remove hgroup hold hnew _ _ h => rw [h.groups, hset hgroup hold (hlive _ hnew)]
  | discard hgroup hold hnew _ _ h => rw [h.groups, hset hgroup hold (hlive _ hnew)]
  | lose _ hsize hspares h =>
    rw [h.groups]
    refine hspares.tally_eq hsize fun group hheld => ?_
    obtain ⟨hold, hnew, -, -⟩ := live_leftBehind registry.scheme hheld
    rw [hzero (hlive _ hold), hzero (hlive _ hnew)]
  | relieve hgroup hold hnew _ hmade _ h =>
    rw [h.groups, tally_append, hset hgroup hold (hlive _ hnew),
      tally_zero fun i other hother => hzero (hlive _ (hmade i other hother).2), Nat.add_zero]
  | expire hgroup habort _ h =>
    have hold := Group.live_of_isAbortable habort
    rw [h.groups, hset hgroup hold (hends _ _ hold (.expire _ _))]
  | abandon hgroup habort _ h =>
    have hold := Group.live_of_isAbortable habort
    rw [h.groups, hset hgroup hold (hends _ _ hold .abandon)]
  | finish hgroup hold _ h => rw [h.groups, hset hgroup hold (hends _ _ hold (.finish _ _))]

/-! ## Chains -/

theorem Entries.get_counters (h : Entries sound action registry later) {counter : Counter}
    (hnot : counter ∉ counted action) :
    later.counters.get counter = registry.counters.get counter := by
  induction h with
  | refl => rfl
  | tail _ hentry ih => rw [hentry.get_counters hnot, ih]

theorem Entries.tally_within (h : Entries sound action registry later) {test : Group ν → Bool}
    (weight : Group ν → Nat)
    (hlive : ∀ group, group.stage.isTerminal = false → test group = false)
    (hends : ∀ group changed, group.stage.isTerminal = false → Ends group action changed →
      test changed = false) :
    tally (within test weight) later.groups = tally (within test weight) registry.groups := by
  induction h with
  | refl => rfl
  | tail _ hentry ih => rw [hentry.tally_within weight hlive hends, ih]

end Registry

/-! ## Steps -/

namespace Committer

open Registry (Entries)

variable {committer : Committer ν ε} {sound : Bool}

theorem entries_close (hindexed : committer.registry.Indexed) :
    Entries sound (.close : Action ν ε) committer.registry committer.close.registry := by
  rw [close]
  split
  · exact .refl
  · refine Registry.foldl_keep (P := fun later : Committer ν ε =>
      Entries sound (.close : Action ν ε) committer.registry later.registry) Sweeper.all
      (fun later sweeper _ h => ?_) (Registry.entries_close hindexed)
    rw [stop]
    split
    · exact h.tail (.panic ⟨rfl, rfl⟩)
    · exact h

/-- In a reachable committer every step is a chain of entries, a sound one if the sweeper that moves
slots has not broken down after it. -/
theorem entries_step (hs : Staffed committer) (hindexed : committer.registry.Indexed)
    (hsteered : committer.registry.Steered) (action : Action ν ε) :
    Entries (committer.step action).relocating action committer.registry
      (committer.step action).registry := by
  cases action with
  | reserve now child => exact Registry.entries_reserve hindexed hsteered now child
  | store fullKey value =>
    unfold step store
    dsimp only
    split <;> exact Registry.entries_store committer.registry fullKey value
  | remove fullKey => exact Registry.entries_remove committer.registry fullKey
  | install emitter => exact .refl
  | close => exact entries_close hindexed
  | sweep sweeper now =>
    cases sweeper with
    | sizeFix => exact Registry.entries_fixSizes committer.registry now
    | relocate =>
      unfold step sweep
      dsimp only
      split
      · exact Registry.entries_relocate committer.registry now
      · exact .refl
    | abort => exact Registry.entries_abortOld hindexed now
  | deliver id =>
    unfold step deliver
    dsimp only
    split <;> exact .refl
  | stir n =>
    unfold step stir
    dsimp only
    split <;> exact .refl
  | look n =>
    unfold step look
    dsimp only
    split
    · split <;> exact Registry.entries_glance committer.registry _
    · exact .refl
  | begin n =>
    unfold step begin
    dsimp only
    split
    · split
      · exact .single (.missing ⟨rfl, rfl⟩)
      · exact .refl
    · exact .refl
  | complete n answer =>
    unfold step complete
    dsimp only
    split
    · split
      · exact .refl
      · cases answer with
        | ok _ => exact .single (.emitted ⟨rfl, rfl⟩)
        | error cause => exact .single (.failed ⟨rfl, rfl⟩)
    · exact .refl
  | conclude n =>
    unfold step conclude
    dsimp only
    split
    · next id fullKey verdict hcaller =>
      obtain ⟨group, hgroup⟩ : ∃ group, committer.registry.groups[id]? = some group :=
        ⟨_, Array.getElem?_eq_getElem (hs.known n _ hcaller)⟩
      have hattended := hs.attended _ _ hgroup
      have hstage := (hattended.fits n _ hcaller rfl).1
      have hslots := (hattended.coherent.full (.inl hstage)).1
      have hposts : Registry.Posts (committer.registry.finish id verdict)
          (committer.registry.groups.setIfInBounds id (group.finish verdict))
          committer.registry.counters := by
        rw [Registry.finish, hgroup]
        exact ⟨rfl, rfl⟩
      exact .single (.finish hgroup (by rw [hstage]; rfl)
        (fun hzero => hslots (List.length_eq_zero_iff.mp hzero)) hposts)
    · exact .refl
  | announce n =>
    unfold step announce
    dsimp only
    split <;> exact .refl
  | leave n =>
    unfold step leave
    dsimp only
    split
    · exact Registry.entries_retire committer.registry _
    · exact .refl

end Committer

end BatchedCommit
