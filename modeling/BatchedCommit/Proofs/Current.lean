import BatchedCommit.Proofs.Deeds
import BatchedCommit.Proofs.Delivery

/-!
# BatchedCommit.Proofs.Current

The group that takes reservations (`Committer.reservations_have_one_group`). A registry remembers
at most one such group, and that is the only registered group that is open (`Registry.Steered`).
A group stops being open, or being registered, when it is full, when its time for reservations
ends, when it is aborted or emptied, and at shutdown; each of these sections forgets the group.
-/

namespace BatchedCommit

variable {ν ε : Type}

namespace Registry

variable {registry later : Registry ν}

/-! ## The invariant -/

/-- The group that takes reservations is the registered group that is open. -/
structure Steered (registry : Registry ν) : Prop where
  /-- It is open, and registered under its own key. -/
  listed : ∀ id, registry.current = some id → ∃ group, registry.groups[id]? = some group ∧
    group.stage = .opened ∧ registry.normal.find? group.key = some id
  /-- No other registered group is open. -/
  single : ∀ key id group, registry.normal.find? key = some id →
    registry.groups[id]? = some group → group.stage = .opened → registry.current = some id

namespace Steered

theorem empty (settings : Settings) (scheme : KeyScheme) (slotBytes : Nat) :
    (Registry.empty settings scheme slotBytes : Registry ν).Steered where
  listed := fun id hid => by contradiction
  single := fun key id group hfind => by contradiction

/-- A group that takes reservations is open. -/
theorem current_none (h : registry.Steered)
    (hnone : ∀ id group, registry.current = some id → registry.groups[id]? = some group →
      group.stage ≠ .opened) : registry.current = none := by
  cases hcurrent : registry.current with
  | none => rfl
  | some id =>
    obtain ⟨group, hgroup, hopen, -⟩ := h.listed id hcurrent
    exact absurd hopen (hnone id group hcurrent hgroup)

theorem congr (h : registry.Steered) (hgroups : later.groups = registry.groups)
    (hcurrent : later.current = registry.current) (hnormal : later.normal = registry.normal) :
    later.Steered where
  listed := by
    rw [hgroups, hcurrent, hnormal]
    exact h.listed
  single := by
    rw [hgroups, hcurrent, hnormal]
    exact h.single

/-- One group changed, which is as open as it was. -/
theorem set (h : registry.Steered) {own : Nat} {old new : Group ν}
    (hold : registry.groups[own]? = some old)
    (hgroups : later.groups = registry.groups.setIfInBounds own new) (hkey : new.key = old.key)
    (hstage : new.stage = .opened ↔ old.stage = .opened)
    (hcurrent : later.current = registry.current) (hnormal : later.normal = registry.normal) :
    later.Steered where
  listed := fun id hid => by
    rw [hcurrent] at hid
    obtain ⟨group, hgroup, hopen, hfind⟩ := h.listed id hid
    rw [hgroups, hnormal]
    by_cases heq : own = id
    · subst heq
      obtain rfl := Option.some.inj (hold.symm.trans hgroup)
      refine ⟨new, ?_, hstage.mpr hopen, by rw [hkey, hfind]⟩
      exact Array.getElem?_setIfInBounds_self_of_lt (Array.getElem?_eq_some_iff.mp hold).1
    · exact ⟨group, by rw [Array.getElem?_setIfInBounds_ne heq, hgroup], hopen, hfind⟩
  single := fun key id group hfind hgroup hopen => by
    rw [hgroups] at hgroup
    rw [hnormal] at hfind
    rw [hcurrent]
    obtain ⟨rfl, rfl⟩ | ⟨-, hsame⟩ := getElem?_set_cases hgroup
    · exact h.single key id old hfind hold (hstage.mp hopen)
    · exact h.single key id group hfind hsame hopen

/-- One group is not open any more, and is forgotten. -/
theorem settle (h : registry.Steered) {own : Nat} {new : Group ν}
    (hgroups : later.groups = registry.groups.setIfInBounds own new) (hstage : new.stage ≠ .opened)
    (hcurrent : later.current =
      if registry.current = some own then none else registry.current)
    (hnormal : later.normal = registry.normal) : later.Steered where
  listed := fun id hid => by
    rw [hcurrent] at hid
    split at hid
    · contradiction
    · next hne =>
      obtain ⟨group, hgroup, hopen, hfind⟩ := h.listed id hid
      refine ⟨group, ?_, hopen, by rw [hnormal, hfind]⟩
      have hother : own ≠ id := by
        rintro rfl
        exact hne hid
      rw [hgroups, Array.getElem?_setIfInBounds_ne hother, hgroup]
  single := fun key id group hfind hgroup hopen => by
    rw [hgroups] at hgroup
    rw [hnormal] at hfind
    obtain ⟨-, rfl⟩ | ⟨hne, hsame⟩ := getElem?_set_cases hgroup
    · contradiction
    · have hid := h.single key id group hfind hsame hopen
      rw [hcurrent, hid, if_neg fun heq => hne (Option.some.inj heq)]

/-- Groups were made that are not open. -/
theorem grow (h : registry.Steered) {made : Array (Group ν)}
    (hmade : ∀ group ∈ made, group.stage ≠ .opened)
    (hgroups : later.groups = registry.groups ++ made)
    (hcurrent : later.current = registry.current) (hnormal : later.normal = registry.normal) :
    later.Steered where
  listed := fun id hid => by
    rw [hcurrent] at hid
    obtain ⟨group, hgroup, hopen, hfind⟩ := h.listed id hid
    have hlt : id < registry.groups.size := (Array.getElem?_eq_some_iff.mp hgroup).1
    refine ⟨group, ?_, hopen, by rw [hnormal, hfind]⟩
    rw [hgroups, Array.getElem?_append_left hlt, hgroup]
  single := fun key id group hfind hgroup hopen => by
    rw [hgroups, Array.getElem?_append] at hgroup
    rw [hnormal] at hfind
    rw [hcurrent]
    split at hgroup
    · exact h.single key id group hfind hgroup hopen
    · exact absurd hopen (hmade group (Array.mem_of_getElem? hgroup))

/-- A group leaves its index, and is forgotten: one that is open leaves no entry behind. -/
theorem unregister (h : registry.Steered) (kind : GroupKind) (key : String) (own : Nat)
    (hgone : ∀ group, registry.groups[own]? = some group → group.stage = .opened →
      ∀ name, registry.normal.find? name = some own → kind = .normal ∧ name = key) :
    (registry.unregister kind key own).Steered where
  listed := fun id hid => by
    rw [unregister_current] at hid
    split at hid
    · contradiction
    · next hne =>
      obtain ⟨group, hgroup, hopen, hfind⟩ := h.listed id hid
      refine ⟨group, by rw [unregister_groups, hgroup], hopen, ?_⟩
      refine (registry.find?_unregister kind key own .normal group.key id).mpr ⟨hfind, ?_⟩
      rintro ⟨-, -, rfl⟩
      exact hne hid
  single := fun name id group hfind hgroup hopen => by
    rw [unregister_groups] at hgroup
    obtain ⟨hold, hnot⟩ := (registry.find?_unregister kind key own .normal name id).mp hfind
    rw [unregister_current, h.single name id group hold hgroup hopen, if_neg]
    intro heq
    obtain rfl := Option.some.inj heq
    obtain ⟨rfl, rfl⟩ := hgone group hgroup hopen name hold
    exact hnot ⟨rfl, rfl, rfl⟩

/-! ## Sections -/

theorem opened_markReady_iff {group : Group ν} :
    group.markReady.stage = .opened ↔ group.stage = .opened := by
  rw [Group.markReady]
  split
  · next hcomplete => simp [(Group.isComplete_iff.mp hcomplete).1]
  · rfl

theorem reserve (h : registry.Steered) (now : Instant)
    (child : String) : (registry.reserve now child).registry.Steered := by
  obtain ⟨-, heq⟩ | ⟨_, _, -, -, -, -, -, heq⟩ |
    ⟨own, group, changed, -, hcurrent, hgroup, hreserve, heq⟩ |
    ⟨parent, changed, -, hnone, -, rfl, hreserve, heq⟩ | ⟨-, -, -, heq⟩ :=
    registry.reserve_cases now child
  · rw [heq]
    exact h
  · rw [heq]
    exact h
  · rw [heq]
    have hkey := (Group.SameHead.reserve hreserve).key
    have hopen := (Group.reserve_eq_ok hreserve).1
    by_cases hfixed : changed.stage = .sizeFixed
    · refine h.settle rfl (by simp [hfixed]) ?_ rfl
      rw [afterReserve, if_pos hfixed, if_pos hcurrent]
    · have hstage : changed.stage = .opened :=
        (Stage.isMutable_iff.mp (isMutable_of_reserve hreserve)).resolve_right hfixed
      refine h.set hgroup rfl hkey (by simp [hstage, hopen]) ?_ rfl
      rw [afterReserve, if_neg hfixed]
  · rw [heq]
    have hkey : changed.key = registry.scheme.parentKey registry.issued :=
      (Group.SameHead.reserve hreserve).key
    have hmutable := Stage.isMutable_iff.mp (isMutable_of_reserve hreserve)
    constructor
    · intro id hid
      rw [afterOpen] at hid
      split at hid
      · contradiction
      · next hfixed =>
        obtain rfl := Option.some.inj hid
        refine ⟨changed, Array.getElem?_push_size, hmutable.resolve_right hfixed, ?_⟩
        rw [afterOpen, Table.find?_insert, if_pos hkey]
    · intro key id new hfind hnew hopen
      rw [afterOpen, Array.getElem?_push] at hnew
      split at hnew
      · next hid =>
        obtain rfl := Option.some.inj hnew
        rw [afterOpen, if_neg (by simp [hopen]), hid]
      · next hid =>
        -- another open group would have taken the reservation
        rw [afterOpen, Table.find?_insert] at hfind
        split at hfind
        · exact absurd (Option.some.inj hfind).symm hid
        · have hcurrent := h.single key id new hfind hnew hopen
          exact absurd hopen (hnone id new hcurrent hnew)
  · rw [heq]
    exact h.congr rfl rfl rfl

theorem remove (h : registry.Steered) (hindexed : registry.Indexed) (fullKey : String) :
    (registry.remove fullKey).registry.Steered := by
  obtain ⟨_, heq⟩ | ⟨own, group, changed, -, -, hgroup, hremove, -, heq⟩ |
    ⟨own, group, changed, -, -, hgroup, hremove, -, heq⟩ := registry.remove_cases fullKey
  · rw [heq]
    exact h
  · rw [heq]
    have hhead := Group.SameHead.remove hremove
    obtain ⟨-, _, _, _, -, -, -, -, hchanged⟩ := Group.remove_eq_ok hremove
    have hset : (registry.setGroup own changed).Steered :=
      h.set hgroup rfl hhead.key (by rw [hchanged]) rfl rfl
    have hcounted : ((registry.setGroup own changed).bump .slotsRemoved).Steered :=
      hset.congr rfl rfl rfl
    refine (hcounted.unregister changed.kind changed.key own fun other _ _ name hfind => ?_).congr
      rfl rfl rfl
    obtain ⟨same, hsame, hkind, hkey, -⟩ := hindexed.lives .normal hfind
    rw [hhead.kind, hhead.key, Option.some.inj (hgroup.symm.trans hsame)]
    exact ⟨hkind, hkey.symm⟩
  · rw [heq]
    obtain ⟨-, _, _, _, -, -, -, -, hchanged⟩ := Group.remove_eq_ok hremove
    have hhead := (Group.SameHead.remove hremove).trans (.markReady changed)
    exact h.set hgroup rfl hhead.key (opened_markReady_iff.trans (by rw [hchanged])) rfl rfl

theorem fixSizes (h : registry.Steered) (now : Instant) :
    (registry.fixSizes now).registry.Steered := by
  refine foldl_keep (P := fun state : Section ν Unit => state.registry.Steered) _
    (fun state own _ hstate => ?_) h
  obtain heq | ⟨group, hgroup, -, hopen, heq⟩ := fixSizeOf_cases now state own
  · rw [heq]
    exact hstate
  · rw [heq]
    refine hstate.settle rfl ?_ rfl rfl
    rw [Ne, opened_markReady_iff, Group.fixSize, if_pos hopen]
    simp

theorem opened_leftBehind_iff (scheme : KeyScheme) {group : Group ν} :
    (group.leftBehind scheme).stage = .opened ↔ group.stage = .opened := by
  rw [Group.leftBehind]
  split
  · exact opened_markReady_iff
  · exact Iff.rfl

theorem relieve {sweep : Relocation ν} (h : sweep.state.registry.Steered) (now : Instant)
    (own : Nat) : (Relocation.relieve now sweep own).state.registry.Steered := by
  obtain ⟨heq, -⟩ | ⟨group, -, hgroup, hheld, -, heq⟩ := relieve_cases now sweep own
  · rw [heq]
    exact h
  · rw [heq]
    have hset : (sweep.state.registry.setGroup own
        (group.leftBehind sweep.state.registry.scheme)).Steered :=
      h.set hgroup rfl (Group.SameHead.leftBehind _ _).key (opened_leftBehind_iff _) rfl rfl
    refine hset.grow (fun made hmade => ?_) rfl rfl rfl
    obtain ⟨slot, -, rfl⟩ := List.mem_map.mp (List.mem_toArray.mp hmade)
    simp [delayedFor, Group.delayed]

/-- Groups that were held back were not open, and are not open without some of their slots. -/
theorem spare (h : registry.Steered) {now : Instant} {groups : Array (Group ν)}
    (hspares : registry.Spares now groups) (hsize : groups.size = registry.groups.size)
    (hgroups : later.groups = groups) (hcurrent : later.current = registry.current)
    (hnormal : later.normal = registry.normal) : later.Steered where
  listed := fun id hid => by
    rw [hcurrent] at hid
    obtain ⟨group, hgroup, hopen, hfind⟩ := h.listed id hid
    refine ⟨group, ?_, hopen, by rw [hnormal, hfind]⟩
    rw [hgroups]
    refine (hspares id group hgroup).resolve_right fun hleft => ?_
    rw [(Group.isHeldBack_iff.mp hleft.1).2.1] at hopen
    contradiction
  single := fun key id group hfind hgroup hopen => by
    rw [hgroups] at hgroup
    rw [hnormal] at hfind
    rw [hcurrent]
    obtain ⟨old, hold, rfl | ⟨-, rfl⟩⟩ := hspares.before hsize hgroup
    · exact h.single key id group hfind hold hopen
    · exact h.single key id old hfind hold ((opened_leftBehind_iff _).mp hopen)

theorem relocate (h : registry.Steered) (now : Instant) :
    (registry.relocate now).registry.Steered := by
  cases hbroken : (registry.relieved now).broken with
  | true =>
    obtain ⟨groups, count, hsize, hspares, heq⟩ := relocate_registry_of_broken hbroken
    rw [heq]
    exact h.spare hspares hsize rfl rfl rfl
  | false =>
    have hsweep : (registry.relieved now).state.registry.Steered :=
      foldl_keep (P := fun sweep : Relocation ν => sweep.state.registry.Steered) _
        (fun sweep own _ hsweep => hsweep.relieve now own) h
    rw [relocate_of_not_broken hbroken]
    exact hsweep.congr rfl rfl rfl

/-- The group that took reservations is forgotten if it was aborted. -/
theorem expire (h : registry.Steered) {now : Instant} (hexpired : Expired now registry later) :
    later.Steered where
  listed := fun id hid => by
    obtain ⟨hcurrent, hnot⟩ := (hexpired.current id).mp hid
    obtain ⟨group, hgroup, hopen, hfind⟩ := h.listed id hcurrent
    refine ⟨group, by rw [hexpired.spared id hnot, hgroup], hopen, ?_⟩
    exact (hexpired.index .normal group.key id).mpr ⟨hfind, hnot (.inl ⟨_, hfind⟩)⟩
  single := fun key id group hfind hgroup hopen => by
    obtain ⟨hold, hnot⟩ := (hexpired.index .normal key id).mp hfind
    rw [hexpired.spared id fun _ => hnot] at hgroup
    exact (hexpired.current id).mpr ⟨h.single key id group hold hgroup hopen, fun _ => hnot⟩

/-- Every step of a reachable committer keeps the invariant. -/
theorem deed (h : registry.Steered) (hindexed : registry.Indexed) {action : Action ν ε}
    (hdeed : Deed registry action later) : later.Steered := by
  cases hdeed with
  | counted counters => exact h.congr rfl rfl rfl
  | reserve now child => exact h.reserve now child
  | store fullKey value =>
    obtain ⟨_, heq⟩ | ⟨own, group, changed, -, -, hgroup, hput, heq⟩ :=
      registry.store_cases fullKey value
    · rw [heq]
      exact h
    · rw [heq]
      obtain ⟨-, _, _, _, -, -, -, -, hchanged⟩ := Group.put_eq_ok hput
      have hhead := (Group.SameHead.put hput).trans (.markReady changed)
      exact h.set hgroup rfl hhead.key (opened_markReady_iff.trans (by rw [hchanged])) rfl rfl
  | remove fullKey => exact h.remove hindexed fullKey
  | close counters hopen =>
    obtain ⟨groups, heq⟩ := registry.frame_close
    rw [heq]
    exact ⟨fun id hid => by contradiction, fun key id group hfind => by contradiction⟩
  | fixSizes now => exact h.fixSizes now
  | relocate now => exact h.relocate now
  | abortOld now => exact h.expire (expired_abortOld hindexed now)
  | claim hgroup hclaim =>
    refine h.set hgroup rfl (Group.SameHead.claim? hclaim).key ?_ rfl rfl
    simp [(Group.claim?_eq_some hclaim).2.2.2]
  | finish verdict hgroup hstage hclaimed =>
    exact h.set hgroup rfl rfl (by simp [Group.finish, hstage]) rfl rfl
  | @retire _ id group hgroup hended =>
    refine h.unregister _ _ _ fun other hother hopen name hfind => ?_
    obtain ⟨same, hsame, hkind, hkey, -⟩ := hindexed.lives .normal hfind
    rw [Option.some.inj (hgroup.symm.trans hsame)]
    exact ⟨hkind, hkey.symm⟩

end Steered

/-! ## Where a reservation goes -/

/-- A reservation put a slot at the end of the group that took reservations, or into a group that
was opened for it, and left all other groups alone. The group keeps taking reservations unless
the slot has filled it. -/
inductive Placed (registry later : Registry ν) (capacity : Nat) (child fullKey : String) : Prop
  where
  | joined {id : Nat} {group changed : Group ν} (hcurrent : registry.current = some id)
      (hgroup : registry.groups[id]? = some group) (hopen : group.stage = .opened)
      (hchanged : later.groups[id]? = some changed)
      (hslots : changed.slots = group.slots ++ [Slot.reserved child fullKey])
      (hothers : ∀ other, other ≠ id → later.groups[other]? = registry.groups[other]?)
      (hindex : later.index = registry.index)
      (hlater : later.current = if changed.slots.length = capacity then none else some id)
  | founded {id : Nat} {changed : Group ν} (hnone : registry.current = none)
      (hfresh : registry.groups[id]? = none) (hchanged : later.groups[id]? = some changed)
      (hkey : changed.key = registry.scheme.parentKey registry.issued)
      (hslots : changed.slots = [Slot.reserved child fullKey])
      (hothers : ∀ other, other ≠ id → later.groups[other]? = registry.groups[other]?)
      (hindex : later.normal.find? changed.key = some id)
      (hlater : later.current = if changed.slots.length = capacity then none else some id)

/-- Why a reservation is refused: the committer was closed, or the group that takes reservations has
a slot of the same child key. -/
inductive Refused (registry : Registry ν) (child : String) : Failure → Prop where
  | closed (h : registry.closed = true) : Refused registry child .closed
  | duplicate {id : Nat} {group : Group ν} {slot : Slot ν} (hopened : registry.closed = false)
      (hcurrent : registry.current = some id) (hgroup : registry.groups[id]? = some group)
      (hslot : slot ∈ group.slots) (hchild : slot.child = child) :
      Refused registry child (.duplicateKey slot.fullKey)

/-- No reservation is refused for which a group is to be opened. -/
theorem not_refused_of_none {registry : Registry ν} {child : String} {failure : Failure}
    (hopened : registry.closed = false) (hnone : registry.current = none) :
    ¬ registry.Refused child failure := by
  rintro (hclosed | ⟨-, hcurrent, -, -, -⟩)
  · rw [hopened] at hclosed
    contradiction
  · rw [hnone] at hcurrent
    contradiction

end Registry

namespace Committer

variable {label : String} {settings : Settings} {scheme : KeyScheme}
  {slotBytes : Nat} {unstartable : Option (Sweeper × String)} {start : Committer ν ε}

/-! ## Reachable states -/

/-- In every reachable state the group that takes reservations is the registered group that is
open. -/
theorem steered_run (hstart : (launch label settings scheme slotBytes unstartable).1 = .ok start)
    (actions : List (Action ν ε)) : (start.run actions).registry.Steered := by
  induction actions using List.reverseRecOn with
  | nil =>
    rw [run_nil, (launch_eq_ok hstart).2.1]
    exact .empty settings scheme slotBytes
  | append_singleton actions action ih =>
    have hs : Staffed (start.run actions) := (Staffed.launch hstart).run actions
    rw [run_append]
    exact ih.deed (indexed_of_launch hstart actions) (hs.deed action)

/-- A normal group is for as many slots as the settings say. -/
theorem capacity_of_normal
    (hstart : (launch label settings scheme slotBytes unstartable).1 = .ok start)
    (actions : List (Action ν ε)) {id : Nat} {group : Group ν}
    (hgroup : (start.run actions).registry.groups[id]? = some group)
    (hkind : group.kind = .normal) : group.capacity = settings.slotCapacity.toNat := by
  refine group_invariant
    (P := fun group => group.kind = .normal → group.capacity = settings.slotCapacity.toNat) hstart
    (fun group hborn => ?_) (fun group changed hnext h => ?_) actions id group hgroup hkind
  · cases hborn with
    | normal index now child h => exact fun _ => (Group.SameHead.reserve h).capacity
    | delayed slot emitKey createdAt now hready hemit => exact fun hkind => by contradiction
  · rw [hnext.sameHead.kind, hnext.sameHead.capacity]
    exact h

/-- A group that takes reservations has room for one, and is full once it has as many slots as the
settings say. -/
theorem room_of_opened (hstart : (launch label settings scheme slotBytes unstartable).1 = .ok start)
    (actions : List (Action ν ε)) {id : Nat} {group : Group ν}
    (hgroup : (start.run actions).registry.groups[id]? = some group)
    (hopen : group.stage = .opened) : group.slots.length < settings.slotCapacity.toNat := by
  have hs : Staffed (start.run actions) := (Staffed.launch hstart).run actions
  have hkind := (named_run hstart actions hgroup).kind_of_opened hopen
  have hroom := (hs.attended id group hgroup).coherent.room hopen
  have hpos := Settings.slotCapacity_pos (launch_eq_ok hstart).1
  rw [capacity_of_normal hstart actions hgroup hkind] at hroom
  omega

/-- A slot fixes the size of its group exactly when it fills it. -/
theorem sizeFixed_iff_of_reserve {group changed : Group ν} {now : Instant}
    {child fullKey : String} (h : group.reserve now child fullKey = .ok changed)
    (hroom : group.slots.length < group.capacity) :
    changed.stage = .sizeFixed ↔ changed.slots.length = group.capacity := by
  obtain ⟨-, -, rfl⟩ := Group.reserve_eq_ok h
  simp only [List.length_append, List.length_singleton]
  split
  · simp only [true_iff]
    omega
  · simp only [reduceCtorEq, false_iff]
    omega

/-- A reservation that is answered with a full key goes to the group that takes reservations, or to
a new one. -/
theorem placed_of_reserve
    (hstart : (launch label settings scheme slotBytes unstartable).1 = .ok start)
    (actions : List (Action ν ε)) (now : Instant) (child fullKey : String)
    (h : ((start.run actions).registry.reserve now child).answer = some (.ok fullKey)) :
    (start.run actions).registry.Placed ((start.run actions).registry.reserve now child).registry
      settings.slotCapacity.toNat child fullKey := by
  have hsteered := steered_run hstart actions
  have hpos := Settings.slotCapacity_pos (launch_eq_ok hstart).1
  have hsettings := (run_constant hstart actions).1
  obtain ⟨-, heq⟩ | ⟨_, _, -, -, -, -, -, heq⟩ |
    ⟨own, group, changed, -, hcurrent, hgroup, hreserve, heq⟩ |
    ⟨parent, changed, -, hnone, -, rfl, hreserve, heq⟩ | ⟨-, -, -, heq⟩ :=
    (start.run actions).registry.reserve_cases now child
  · simp [heq] at h
  · simp [heq] at h
  · rw [heq] at h ⊢
    obtain ⟨hopen, -, hchanged⟩ := Group.reserve_eq_ok hreserve
    have hroom := room_of_opened hstart actions hgroup hopen
    have hkind := (named_run hstart actions hgroup).kind_of_opened hopen
    have hcapacity := capacity_of_normal hstart actions hgroup hkind
    have hlt : own < (start.run actions).registry.groups.size :=
      (Array.getElem?_eq_some_iff.mp hgroup).1
    have hfull := sizeFixed_iff_of_reserve hreserve (by rwa [hcapacity])
    rw [hcapacity] at hfull
    refine .joined hcurrent hgroup hopen (Array.getElem?_setIfInBounds_self_of_lt hlt)
      (by rw [hchanged, ← Except.ok.inj (Option.some.inj h)])
      (fun other hother => Array.getElem?_setIfInBounds_ne (Ne.symm hother)) rfl ?_
    simp only [Registry.afterReserve, hfull, hcurrent]
  · rw [heq] at h ⊢
    obtain ⟨-, -, hchanged⟩ := Group.reserve_eq_ok hreserve
    have hkey : changed.key =
        (start.run actions).registry.scheme.parentKey (start.run actions).registry.issued :=
      (Group.SameHead.reserve hreserve).key
    have hcapacity : (start.run actions).registry.capacity = settings.slotCapacity.toNat := by
      rw [Registry.capacity, hsettings]
    have hfull : changed.stage = .sizeFixed ↔
        changed.slots.length = settings.slotCapacity.toNat := by
      rw [← hcapacity]
      exact sizeFixed_iff_of_reserve hreserve (by rwa [← hcapacity] at hpos)
    refine .founded (hsteered.current_none hnone) (Array.getElem?_eq_none (Nat.le_refl _))
      Array.getElem?_push_size hkey
      (by rw [hchanged, ← Except.ok.inj (Option.some.inj h)]; rfl) (fun other hother => ?_) ?_ ?_
    · exact (Array.getElem?_push ..).trans (if_neg hother)
    · simp [Registry.afterOpen, Table.find?_insert, hkey]
    · simp only [Registry.afterOpen, hfull]
  · simp [heq] at h

/-- A reservation is refused for these reasons and no others. -/
theorem refused_iff (hstart : (launch label settings scheme slotBytes unstartable).1 = .ok start)
    (actions : List (Action ν ε)) (now : Instant) (child : String) (failure : Failure) :
    ((start.run actions).registry.reserve now child).answer = some (.error failure) ↔
      (start.run actions).registry.Refused child failure := by
  have hsteered := steered_run hstart actions
  have hscheme := (run_constant hstart actions).2
  -- the slots of the group that takes reservations are named by its key
  have hname : ∀ {id : Nat} {group : Group ν}, (start.run actions).registry.current = some id →
      (start.run actions).registry.groups[id]? = some group → ∀ slot ∈ group.slots,
        slot.fullKey = (start.run actions).registry.scheme.fullKey group.key slot.child := by
    intro id group hcurrent hgroup slot hslot
    obtain ⟨same, hsame, hopen, -⟩ := hsteered.listed id hcurrent
    obtain rfl := Option.some.inj (hgroup.symm.trans hsame)
    have hnamed := named_run hstart actions hgroup
    rw [hscheme]
    exact hnamed.children (hnamed.kind_of_opened hopen) _ (List.mem_map_of_mem hslot)
  obtain ⟨hclosed, heq⟩ | ⟨own, group, hopened, hcurrent, hgroup, -, hchild, heq⟩ |
    ⟨own, group, changed, hopened, hcurrent, hgroup, hreserve, heq⟩ |
    ⟨parent, changed, hopened, hnone, -, -, -, heq⟩ | ⟨hopened, hnone, -, heq⟩ :=
    (start.run actions).registry.reserve_cases now child
  · rw [heq]
    constructor
    · intro h
      rw [← Except.error.inj (Option.some.inj h)]
      exact .closed hclosed
    · rintro (_ | ⟨hopened, -, -, -, -⟩)
      · rfl
      · rw [hclosed] at hopened
        contradiction
  · rw [heq]
    constructor
    · intro h
      obtain ⟨slot, hslot, rfl⟩ := List.mem_map.mp hchild
      rw [← Except.error.inj (Option.some.inj h), ← hname hcurrent hgroup slot hslot]
      exact .duplicate hopened hcurrent hgroup hslot rfl
    · rintro (hclosed | ⟨-, hid, hother, hslot, rfl⟩)
      · rw [hopened] at hclosed
        contradiction
      · obtain rfl := Option.some.inj (hcurrent.symm.trans hid)
        obtain rfl := Option.some.inj (hgroup.symm.trans hother)
        rw [hname hcurrent hgroup _ hslot]
  · rw [heq]
    refine ⟨fun h => by simp at h, ?_⟩
    rintro (hclosed | ⟨-, hid, hother, hslot, rfl⟩)
    · rw [hopened] at hclosed
      contradiction
    · obtain rfl := Option.some.inj (hcurrent.symm.trans hid)
      obtain rfl := Option.some.inj (hgroup.symm.trans hother)
      exact absurd (List.mem_map_of_mem hslot) (Group.reserve_eq_ok hreserve).2.1
  · rw [heq]
    exact ⟨fun h => by simp at h,
      fun h => absurd h (Registry.not_refused_of_none hopened (hsteered.current_none hnone))⟩
  · rw [heq]
    exact ⟨fun h => by simp at h,
      fun h => absurd h (Registry.not_refused_of_none hopened (hsteered.current_none hnone))⟩

/-- A reservation that is refused leaves the committer as it was. -/
theorem reserve_of_error {committer : Committer ν ε} {now : Instant} {child : String}
    {failure : Failure} (h : (committer.reserve now child).1 = some (.error failure)) :
    (committer.reserve now child).2 = committer := by
  rw [reserve] at h ⊢
  obtain ⟨-, heq⟩ | ⟨_, _, -, -, -, -, -, heq⟩ | ⟨_, _, _, -, -, -, -, heq⟩ |
    ⟨_, _, -, -, -, -, -, heq⟩ | ⟨-, -, -, heq⟩ := committer.registry.reserve_cases now child
  · rw [heq]
    exact absorb_same _ _
  · rw [heq]
    exact absorb_same _ _
  · simp [heq] at h
  · simp [heq] at h
  · simp [heq] at h

/-- A reservation breaks down exactly when a group is to be opened for it, and there cannot be room
for the slots of one. -/
theorem broken_iff (hstart : (launch label settings scheme slotBytes unstartable).1 = .ok start)
    (actions : List (Action ν ε)) (now : Instant) (child : String) :
    ((start.run actions).reserve now child).1 = none ↔
      (start.run actions).registry.closed = false ∧ (start.run actions).registry.current = none ∧
        Group.roomFor slotBytes settings.slotCapacity.toNat = false := by
  have hsteered := steered_run hstart actions
  rw [← run_hasRoom hstart actions, reserve]
  obtain ⟨hclosed, heq⟩ | ⟨_, _, -, hcurrent, -, -, -, heq⟩ | ⟨_, _, _, -, hcurrent, -, -, heq⟩ |
    ⟨_, _, -, -, hroom, -, -, heq⟩ | ⟨hopened, hnone, hroom, heq⟩ :=
    (start.run actions).registry.reserve_cases now child
  · simp [heq, hclosed]
  · simp [heq, hcurrent]
  · simp [heq, hcurrent]
  · simp [heq, hroom]
  · exact ⟨fun _ => ⟨hopened, hsteered.current_none hnone, hroom⟩,
      fun _ => congrArg Section.answer heq⟩

/-- A reservation that breaks down only uses up a parent key. -/
theorem reserve_of_none {committer : Committer ν ε} {now : Instant} {child : String}
    (h : (committer.reserve now child).1 = none) :
    (committer.reserve now child).2 = { committer with
      registry := { committer.registry with issued := committer.registry.issued + 1 } } := by
  rw [reserve] at h ⊢
  obtain ⟨-, heq⟩ | ⟨_, _, -, -, -, -, -, heq⟩ | ⟨_, _, _, -, -, -, -, heq⟩ |
    ⟨_, _, -, -, -, -, -, heq⟩ | ⟨-, -, -, heq⟩ := committer.registry.reserve_cases now child
  · simp [heq] at h
  · simp [heq] at h
  · simp [heq] at h
  · simp [heq] at h
  · rw [heq]
    simp [absorb]

/-- In every reachable state the group that takes reservations is the registered normal group that
is open; there is at most one registered group that is open, and it is this one, a normal group
that has slots, and fewer than the settings say.

A reservation is refused as closed exactly when the committer was closed, as a duplicate exactly
when that group has a slot of the same child key, and in no other way; a refusal leaves the
committer as it was. Otherwise it puts its slot at the end of that group, or into one that is
opened for it if there is none, and the group takes no further ones exactly when the slot has
filled it; but where there cannot be room for as many slots as the settings say, no group is opened,
and the reservation breaks down and only uses up a parent key. -/
theorem reservations_have_one_group
    (hstart : (launch label settings scheme slotBytes unstartable).1 = .ok start)
    (actions : List (Action ν ε)) :
    (∀ id, (start.run actions).registry.current = some id ↔
      ∃ key group, (start.run actions).registry.normal.find? key = some id ∧
        (start.run actions).registry.groups[id]? = some group ∧ group.stage = .opened) ∧
    (∀ (id : Nat) (group : Group ν), (start.run actions).registry.Registered id →
      (start.run actions).registry.groups[id]? = some group → group.stage = .opened →
      (start.run actions).registry.current = some id ∧ group.kind = .normal ∧
        group.slots ≠ [] ∧ group.slots.length < settings.slotCapacity.toNat) ∧
    ∀ (now : Instant) (child : String),
      (((start.run actions).reserve now child).1 = some (.error .closed) ↔
        (start.run actions).registry.closed = true) ∧
      (∀ key, ((start.run actions).reserve now child).1 = some (.error (.duplicateKey key)) ↔
        (start.run actions).registry.closed = false ∧ ∃ id group slot,
          (start.run actions).registry.current = some id ∧
            (start.run actions).registry.groups[id]? = some group ∧ slot ∈ group.slots ∧
              slot.child = child ∧ slot.fullKey = key) ∧
      (∀ failure, ((start.run actions).reserve now child).1 = some (.error failure) →
        (failure = .closed ∨ ∃ key, failure = .duplicateKey key) ∧
          ((start.run actions).reserve now child).2 = start.run actions) ∧
      (∀ key, ((start.run actions).reserve now child).1 = some (.ok key) →
        (start.run actions).registry.Placed ((start.run actions).reserve now child).2.registry
          settings.slotCapacity.toNat child key) ∧
      (((start.run actions).reserve now child).1 = none ↔
        (start.run actions).registry.closed = false ∧ (start.run actions).registry.current = none ∧
          Group.roomFor slotBytes settings.slotCapacity.toNat = false) ∧
      (((start.run actions).reserve now child).1 = none →
        ((start.run actions).reserve now child).2 = { start.run actions with
          registry := { (start.run actions).registry with
            issued := (start.run actions).registry.issued + 1 } }) := by
  have hindexed := indexed_of_launch hstart actions
  have hsteered := steered_run hstart actions
  refine ⟨fun id => ⟨fun hid => ?_, ?_⟩, fun id group hid hgroup hopen => ?_,
    fun now child => ⟨?_, fun key => ?_, fun failure h => ⟨?_, reserve_of_error h⟩,
      fun key h => placed_of_reserve hstart actions now child key h,
      broken_iff hstart actions now child, reserve_of_none⟩⟩
  · obtain ⟨group, hgroup, hopen, hfind⟩ := hsteered.listed id hid
    exact ⟨group.key, group, hfind, hgroup, hopen⟩
  · rintro ⟨key, group, hfind, hgroup, hopen⟩
    exact hsteered.single key id group hfind hgroup hopen
  · have hkind := (named_run hstart actions hgroup).kind_of_opened hopen
    have hfind := hindexed.find?_of_registered hid hgroup
    rw [hkind] at hfind
    obtain ⟨same, hsame, hslots, -⟩ := hindexed.of_registered hid
    obtain rfl := Option.some.inj (hgroup.symm.trans hsame)
    exact ⟨hsteered.single _ id group hfind hgroup hopen, hkind, hslots,
      room_of_opened hstart actions hgroup hopen⟩
  · rw [reserve, refused_iff hstart]
    exact ⟨fun h => by cases h with | closed hclosed => exact hclosed, .closed⟩
  · rw [reserve, refused_iff hstart]
    constructor
    · intro h
      cases h with
      | duplicate hopened hcurrent hgroup hslot hchild =>
        exact ⟨hopened, _, _, _, hcurrent, hgroup, hslot, hchild, rfl⟩
    · rintro ⟨hopened, id, group, slot, hcurrent, hgroup, hslot, hchild, rfl⟩
      exact .duplicate hopened hcurrent hgroup hslot hchild
  · cases (refused_iff hstart actions now child failure).mp h with
    | closed => exact .inl rfl
    | duplicate => exact .inr ⟨_, rfl⟩

/-- The first slot opens a group; its child key cannot be reserved again, and a second slot fills
the group. -/
theorem reserved_twice_in_pair :
    (launch "pairs" { Settings.default with slotCapacity := 2 } {} 72 none).1 = .ok pairs ∧
    (pairs.run [.reserve 0 "a"]).registry.current = some 0 ∧
    ((pairs.run [.reserve 0 "a"]).reserve 1 "a").1 = some (.error (.duplicateKey "0000:a")) ∧
    (pairs.run [.reserve 0 "a"]).registry.Placed
      ((pairs.run [.reserve 0 "a"]).reserve 1 "b").2.registry 2 "b" "0000:b" ∧
    ((pairs.run [.reserve 0 "a"]).reserve 1 "b").2.registry.current = none := by
  have hstart : (launch "pairs" { Settings.default with slotCapacity := 2 } {} 72 none).1 =
      .ok pairs := rfl
  have hcurrent : (pairs.run [.reserve 0 "a"]).registry.current = some 0 := by decide +kernel
  have hreserve := (reservations_have_one_group hstart [.reserve 0 "a"]).2.2 1
  refine ⟨hstart, hcurrent, ?_, (hreserve "b").2.2.2.1 "0000:b" (by decide +kernel),
    by decide +kernel⟩
  exact ((hreserve "a").2.1 "0000:a").mpr ⟨by decide +kernel, 0, _,
    { child := "a", fullKey := "0000:a" }, hcurrent, rfl, List.mem_cons_self, rfl, rfl⟩

/-- The settings of a committer that may be launched, but whose groups there cannot be room for. -/
def roomless : Settings := { Settings.default with slotCapacity := 18446744073709551615 }

/-- A committer that was just launched with these settings neither refuses the first reservation nor
puts its slot anywhere: it breaks down. -/
theorem reserve_of_roomless :
    ∃ start : Committer Nat Unit, (launch "tx" roomless {} 72 none).1 = .ok start ∧
      start.registry.closed = false ∧ (start.reserve 0 "a").1 = none ∧
      ∀ key, ¬ start.registry.Placed (start.reserve 0 "a").2.registry
        roomless.slotCapacity.toNat "a" key := by
  refine ⟨_, rfl, rfl, by decide +kernel, fun key hplaced => ?_⟩
  cases hplaced with
  | joined hcurrent => contradiction
  | founded hnone hfresh hchanged => contradiction

end Committer

end BatchedCommit
