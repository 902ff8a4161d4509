import BatchedCommit.Committer.Run
import BatchedCommit.Proofs.Changes

/-!
# BatchedCommit.Proofs.Attendance

The callers of one group. `Attended` ties the callers that wait for a group, the wake-ups that
are due and the group itself together:

* a group that is ready and not claimed has a caller that is about to look, or a wake-up is
  due;
* a group that is ready and claimed has exactly one caller that works on its emission;
* a group that has ended has no sleeping caller, unless a wake-up is due or about to be sent.

There is one lemma for each thing that can happen to the group or to one of its callers. What
happens elsewhere is `Attended.frame`.
-/

namespace BatchedCommit

variable {ν : Type}

/-! ## Phases -/

namespace Phase

/-- The caller has claimed an emission, and its group does not know yet how that ended. -/
def isWorking : Phase ν → Bool
  | claimed _ | emitting _ | emitted _ => true
  | looking | asleep | notifying _ | leaving _ | returned _ => false

/-- Where a caller stands agrees with its group. -/
def Fits (group : Group ν) : Phase ν → Prop
  | looking | asleep => True
  | claimed _ | emitting _ | emitted _ => group.stage = .ready ∧ group.claimed = true
  | notifying verdict | leaving verdict | returned verdict => group.outcome = some verdict

/-- Only the emission of a claimed group is worked on. -/
theorem Fits.of_isWorking {group : Group ν} {phase : Phase ν} (h : phase.Fits group)
    (hworking : phase.isWorking = true) : group.stage = .ready ∧ group.claimed = true := by
  cases phase with
  | claimed values => exact h
  | emitting number => exact h
  | emitted verdict => exact h
  | looking => contradiction
  | asleep => contradiction
  | notifying verdict => contradiction
  | leaving verdict => contradiction
  | returned verdict => contradiction

/-- The callers of a group that nobody has claimed, and that has not ended, look or sleep. -/
theorem Fits.waits {group : Group ν} {phase : Phase ν} (h : phase.Fits group)
    (hclaimed : group.claimed = false) (houtcome : group.outcome = none) :
    phase = looking ∨ phase = asleep := by
  cases phase with
  | looking => exact .inl rfl
  | asleep => exact .inr rfl
  | claimed values => rw [h.2] at hclaimed; contradiction
  | emitting number => rw [h.2] at hclaimed; contradiction
  | emitted verdict => rw [h.2] at hclaimed; contradiction
  | notifying verdict => rw [Fits, houtcome] at h; contradiction
  | leaving verdict => rw [Fits, houtcome] at h; contradiction
  | returned verdict => rw [Fits, houtcome] at h; contradiction

/-- A caller that looks or sleeps agrees with every group. -/
theorem fits_of_waits {group : Group ν} {phase : Phase ν}
    (h : phase = looking ∨ phase = asleep) : phase.Fits group := by
  obtain rfl | rfl := h <;> trivial

end Phase

/-! ## Lists of callers -/

section Callers

variable {callers : Array (Caller ν)} {caller other : Caller ν} {phase : Phase ν}
  {id m n : Nat}

/-- The callers after one of them went on to another phase. -/
theorem getElem?_rephase : (callers.modify n fun caller => { caller with phase })[m]? =
      some other ↔
    (m = n ∧ ∃ caller, callers[n]? = some caller ∧ other = { caller with phase }) ∨
      (m ≠ n ∧ callers[m]? = some other) := by
  rw [Array.getElem?_modify]
  by_cases hm : n = m
  · subst hm
    rw [if_pos rfl, Option.map_eq_some_iff]
    constructor
    · rintro ⟨caller, hcaller, rfl⟩
      exact .inl ⟨rfl, caller, hcaller, rfl⟩
    · rintro (⟨-, caller, hcaller, rfl⟩ | ⟨hne, -⟩)
      · exact ⟨caller, hcaller, rfl⟩
      · contradiction
  · rw [if_neg hm]
    constructor
    · exact fun h => .inr ⟨fun heq => hm heq.symm, h⟩
    · rintro (⟨heq, -⟩ | ⟨-, h⟩)
      · exact absurd heq.symm hm
      · exact h

/-- The callers after those that slept on a group were woken. -/
theorem getElem?_rouse : (callers.map (Caller.rouse id))[n]? = some other ↔
    ∃ caller, callers[n]? = some caller ∧ other = caller.rouse id := by
  rw [Array.getElem?_map, Option.map_eq_some_iff]
  constructor
  · rintro ⟨caller, hcaller, rfl⟩
    exact ⟨caller, hcaller, rfl⟩
  · rintro ⟨caller, hcaller, rfl⟩
    exact ⟨caller, hcaller, rfl⟩

namespace Caller

/-- Being woken does not change for what a caller waits. -/
@[simp] theorem rouse_group (id : Nat) (caller : Caller ν) :
    (caller.rouse id).group = caller.group := by
  unfold rouse
  split
  · split <;> rfl
  · rfl

@[simp] theorem rouse_fullKey (id : Nat) (caller : Caller ν) :
    (caller.rouse id).fullKey = caller.fullKey := by
  unfold rouse
  split
  · split <;> rfl
  · rfl

/-- Only callers of the group in question are woken. -/
theorem rouse_of_ne (h : caller.group ≠ id) : caller.rouse id = caller := by
  unfold rouse
  split
  · rw [if_neg h]
  · rfl

/-- A caller that was woken looks, if it slept, and stands where it stood otherwise. -/
theorem rouse_phase (h : caller.group = id) :
    (caller.phase = .asleep ∧ (caller.rouse id).phase = .looking) ∨
      (caller.phase ≠ .asleep ∧ (caller.rouse id).phase = caller.phase) := by
  unfold rouse
  split
  · next hphase =>
    rw [if_pos h]
    exact .inl ⟨hphase, rfl⟩
  · next hphase => exact .inr ⟨hphase, rfl⟩

end Caller

end Callers

/-! ## The invariant -/

/-- What holds of a group and those who call it. -/
structure Attended (callers : Array (Caller ν)) (pending : List Nat) (id : Nat)
    (group : Group ν) : Prop where
  /-- The group is coherent. -/
  coherent : group.Coherent
  /-- A group is only done after a caller has claimed its emission. -/
  done : group.stage = .done → group.claimed = true
  /-- The value of every caller is in a slot of the group. -/
  seated : ∀ (n : Nat) (caller : Caller ν), callers[n]? = some caller → caller.group = id →
    ∃ slot ∈ group.slots, slot.fullKey = caller.fullKey ∧ slot.isReady = true
  /-- Where each caller stands agrees with the group. -/
  fits : ∀ (n : Nat) (caller : Caller ν), callers[n]? = some caller → caller.group = id →
    caller.phase.Fits group
  /-- Somebody waits for every value that has arrived. -/
  manned : ∀ slot ∈ group.slots, slot.isReady = true →
    ∃ (n : Nat) (caller : Caller ν), callers[n]? = some caller ∧ caller.group = id ∧
      caller.fullKey = slot.fullKey
  /-- Somebody works on an emission that was claimed. -/
  worker : group.stage = .ready → group.claimed = true →
    ∃ (n : Nat) (caller : Caller ν), callers[n]? = some caller ∧ caller.group = id ∧
      caller.phase.isWorking = true
  /-- Nobody else does. -/
  alone : ∀ (m n : Nat) (first second : Caller ν), callers[m]? = some first →
    callers[n]? = some second → first.group = id → second.group = id →
    first.phase.isWorking = true → second.phase.isWorking = true → m = n
  /-- Somebody is about to look at an emission that nobody has claimed, or will be woken. -/
  due : group.stage = .ready → group.claimed = false → id ∈ pending ∨
    ∃ (n : Nat) (caller : Caller ν), callers[n]? = some caller ∧ caller.group = id ∧
      caller.phase = .looking
  /-- Whoever sleeps on a group that has ended will be woken. -/
  roused : group.stage.isTerminal = true → ∀ (n : Nat) (caller : Caller ν),
    callers[n]? = some caller → caller.group = id → caller.phase = .asleep → id ∈ pending ∨
    ∃ (m : Nat) (other : Caller ν) (verdict : Verdict), callers[m]? = some other ∧
      other.group = id ∧ other.phase = .notifying verdict

namespace Attended

variable {callers later : Array (Caller ν)} {pending woken : List Nat} {id n : Nat}
  {group changed : Group ν} {caller : Caller ν} {phase : Phase ν}

/-- Nothing happens to a group while its callers stay where they are and wake-ups stay due. -/
theorem frame (h : Attended callers pending id group)
    (hcallers : ∀ (n : Nat) (caller : Caller ν), caller.group = id →
      (later[n]? = some caller ↔ callers[n]? = some caller))
    (hpending : id ∈ pending → id ∈ woken) : Attended later woken id group where
  coherent := h.coherent
  done := h.done
  seated := fun n caller hn hid => h.seated n caller ((hcallers n caller hid).mp hn) hid
  fits := fun n caller hn hid => h.fits n caller ((hcallers n caller hid).mp hn) hid
  manned := fun slot hslot hready => by
    obtain ⟨n, caller, hn, hid, hkey⟩ := h.manned slot hslot hready
    exact ⟨n, caller, (hcallers n caller hid).mpr hn, hid, hkey⟩
  worker := fun hstage hclaimed => by
    obtain ⟨n, caller, hn, hid, hworking⟩ := h.worker hstage hclaimed
    exact ⟨n, caller, (hcallers n caller hid).mpr hn, hid, hworking⟩
  alone := fun m n first second hm hn hfirst hsecond =>
    h.alone m n first second ((hcallers m first hfirst).mp hm)
      ((hcallers n second hsecond).mp hn) hfirst hsecond
  due := fun hstage hclaimed => by
    obtain hmem | ⟨n, caller, hn, hid, hphase⟩ := h.due hstage hclaimed
    · exact .inl (hpending hmem)
    · exact .inr ⟨n, caller, (hcallers n caller hid).mpr hn, hid, hphase⟩
  roused := fun hstage n caller hn hid hphase => by
    obtain hmem | ⟨m, other, verdict, hm, hother, hnotifying⟩ :=
      h.roused hstage n caller ((hcallers n caller hid).mp hn) hid hphase
    · exact .inl (hpending hmem)
    · exact .inr ⟨m, other, verdict, (hcallers m other hother).mpr hm, hother, hnotifying⟩

/-- The callers of a group that can still be ended look or sleep. -/
theorem waits (h : Attended callers pending id group) (habort : group.isAbortable = true)
    (hn : callers[n]? = some caller) (hid : caller.group = id) :
    caller.phase = .looking ∨ caller.phase = .asleep :=
  (h.fits n caller hn hid).waits (h.coherent.claimed_of_isAbortable habort)
    (h.coherent.outcome_of_isAbortable habort)

/-! ## Changes that nobody waits for -/

/-- Quiet changes, if a wake-up is left behind where callers wait for one. -/
theorem shift {scheme : KeyScheme} (h : Attended callers pending id group)
    (hshifts : Group.Shifts scheme group changed)
    (hstage : changed.stage = group.stage ∨ changed.stage.isMutable = true ∨ id ∈ woken) :
    Attended callers (pending ++ woken) id changed := by
  cases habort : group.isAbortable with
  | false =>
    rw [hshifts.eq_of_isAbortable habort]
    exact h.frame (fun _ _ _ => Iff.rfl) (List.mem_append_left _)
  | true =>
    have hclaimed : changed.claimed = false := by
      rw [hshifts.claimed]
      exact h.coherent.claimed_of_isAbortable habort
    have hready : ∀ {slot : Slot ν}, slot.isReady = true →
        (slot ∈ changed.slots ↔ slot ∈ group.slots) := hshifts.mem_iff_of_isReady
    constructor
    case coherent => exact hshifts.coherent h.coherent
    case done =>
      intro hdone
      have hsame : changed = group := hshifts.eq_of_done hdone
      rw [hsame] at hdone ⊢
      exact h.done hdone
    case seated =>
      intro n caller hn hid
      obtain ⟨slot, hslot, hkey, hslotReady⟩ := h.seated n caller hn hid
      exact ⟨slot, (hready hslotReady).mpr hslot, hkey, hslotReady⟩
    case fits => exact fun n caller hn hid => Phase.fits_of_waits (h.waits habort hn hid)
    case manned =>
      intro slot hslot hslotReady
      exact h.manned slot ((hready hslotReady).mp hslot) hslotReady
    case worker =>
      intro _ htrue
      rw [htrue] at hclaimed
      contradiction
    case alone => exact h.alone
    case due =>
      intro hnow _
      obtain hsame | hmutable | hwoken := hstage
      · rw [hsame] at hnow
        exact (h.due hnow (h.coherent.claimed_of_isAbortable habort)).imp_left
          (List.mem_append_left _)
      · rw [hnow] at hmutable
        contradiction
      · exact .inl (List.mem_append_right _ hwoken)
    case roused =>
      intro hnow n caller hn hid hphase
      obtain hsame | hmutable | hwoken := hstage
      · rw [hsame] at hnow
        exact (h.roused hnow n caller hn hid hphase).imp_left (List.mem_append_left _)
      · obtain hs | hs := Stage.isMutable_iff.mp hmutable <;> rw [hs] at hnow <;> contradiction
      · exact .inl (List.mem_append_right _ hwoken)

/-- A group that was made just now has no callers. -/
theorem newborn {scheme : KeyScheme} {capacity : Nat} {born : Group ν}
    (hborn : Group.Newborn scheme capacity born) (hshifts : Group.Shifts scheme born changed)
    (hcallers : ∀ (n : Nat) (caller : Caller ν), callers[n]? = some caller →
      caller.group ≠ id) : Attended callers pending id changed := by
  obtain ⟨hawaits, hmutable⟩ := hborn.awaits
  have hcoherent : changed.Coherent := hshifts.coherent hborn.coherent
  have hnone : ∀ slot ∈ changed.slots, slot.isReady = false := by
    intro slot hslot
    cases hready : slot.isReady with
    | false => rfl
    | true =>
      rw [hawaits slot ((hshifts.mem_iff_of_isReady hready).mp hslot)] at hready
      contradiction
  -- without a value that has arrived, the group is neither ready nor done
  have hnot : ¬ (changed.stage = .ready ∨ changed.stage = .done) := by
    intro hstage
    obtain ⟨hslots, hall⟩ := hcoherent.full hstage
    obtain ⟨slot, hslot⟩ := List.exists_mem_of_ne_nil _ hslots
    exact absurd (hall slot hslot) (by rw [hnone slot hslot]; decide)
  exact {
    coherent := hcoherent
    done := fun hdone => absurd (.inr hdone) hnot
    seated := fun n caller hn hid => absurd hid (hcallers n caller hn)
    fits := fun n caller hn hid => absurd hid (hcallers n caller hn)
    manned := fun slot hslot hready => by rw [hnone slot hslot] at hready; contradiction
    worker := fun hready => absurd (.inl hready) hnot
    alone := fun m n first second hm hn hfirst => absurd hfirst (hcallers m first hm)
    due := fun hready => absurd (.inl hready) hnot
    roused := fun _ n caller hn hid => absurd hid (hcallers n caller hn) }

/-! ## Wake-ups -/

/-- Once the callers of a group were woken, no wake-up has to be due any more. -/
theorem rouse (h : Attended callers pending id group) :
    Attended (callers.map (Caller.rouse id)) woken id group where
  coherent := h.coherent
  done := h.done
  seated := fun n caller hn hid => by
    obtain ⟨old, hold, rfl⟩ := getElem?_rouse.mp hn
    rw [Caller.rouse_group] at hid
    rw [Caller.rouse_fullKey]
    exact h.seated n old hold hid
  fits := fun n caller hn hid => by
    obtain ⟨old, hold, rfl⟩ := getElem?_rouse.mp hn
    rw [Caller.rouse_group] at hid
    obtain ⟨-, hphase⟩ | ⟨-, hphase⟩ := Caller.rouse_phase hid
    · exact Phase.fits_of_waits (.inl hphase)
    · rw [hphase]
      exact h.fits n old hold hid
  manned := fun slot hslot hready => by
    obtain ⟨n, caller, hn, hid, hkey⟩ := h.manned slot hslot hready
    exact ⟨n, caller.rouse id, getElem?_rouse.mpr ⟨caller, hn, rfl⟩,
      by rw [Caller.rouse_group, hid],
      by rw [Caller.rouse_fullKey, hkey]⟩
  worker := fun hstage hclaimed => by
    obtain ⟨n, caller, hn, hid, hworking⟩ := h.worker hstage hclaimed
    refine ⟨n, caller.rouse id, getElem?_rouse.mpr ⟨caller, hn, rfl⟩,
      by rw [Caller.rouse_group, hid], ?_⟩
    obtain ⟨hasleep, -⟩ | ⟨-, hphase⟩ := Caller.rouse_phase hid
    · rw [hasleep] at hworking
      contradiction
    · rw [hphase, hworking]
  alone := fun m n first second hm hn hfirst hsecond hworks hworks' => by
    obtain ⟨one, hone, rfl⟩ := getElem?_rouse.mp hm
    obtain ⟨two, htwo, rfl⟩ := getElem?_rouse.mp hn
    rw [Caller.rouse_group] at hfirst hsecond
    have hsame : ∀ {caller : Caller ν}, caller.group = id →
        (caller.rouse id).phase.isWorking = true → caller.phase.isWorking = true := by
      intro caller hid hworking
      obtain ⟨-, hphase⟩ | ⟨-, hphase⟩ := Caller.rouse_phase hid
      · rw [hphase] at hworking
        contradiction
      · rw [← hphase, hworking]
    exact h.alone m n one two hone htwo hfirst hsecond (hsame hfirst hworks)
      (hsame hsecond hworks')
  due := fun hstage hclaimed => by
    -- the group has a caller, and whoever slept is awake now
    obtain ⟨hslots, hall⟩ := h.coherent.full (.inl hstage)
    obtain ⟨slot, hslot⟩ := List.exists_mem_of_ne_nil _ hslots
    obtain ⟨n, caller, hn, hid, -⟩ := h.manned slot hslot (hall slot hslot)
    have habort : group.isAbortable = true := by simp [Group.isAbortable, hstage, hclaimed]
    refine .inr ⟨n, caller.rouse id, getElem?_rouse.mpr ⟨caller, hn, rfl⟩,
      by rw [Caller.rouse_group, hid], ?_⟩
    obtain ⟨-, hphase⟩ | ⟨hawake, hphase⟩ := Caller.rouse_phase hid
    · exact hphase
    · rw [hphase]
      exact (h.waits habort hn hid).resolve_right hawake
  roused := fun _ n caller hn hid hphase => by
    obtain ⟨old, hold, rfl⟩ := getElem?_rouse.mp hn
    rw [Caller.rouse_group] at hid
    obtain ⟨-, hlooks⟩ | ⟨hawake, hsame⟩ := Caller.rouse_phase hid
    · rw [hphase] at hlooks
      contradiction
    · rw [hsame] at hphase
      contradiction

/-- Callers of other groups are not woken. -/
theorem frame_rouse {other : Nat} (h : Attended callers pending id group) (hne : other ≠ id)
    (hpending : id ∈ pending → id ∈ woken) :
    Attended (callers.map (Caller.rouse other)) woken id group := by
  refine h.frame (fun n caller hid => ?_) hpending
  rw [getElem?_rouse]
  constructor
  · rintro ⟨old, hold, rfl⟩
    rw [Caller.rouse_group] at hid
    rw [Caller.rouse_of_ne (by rw [hid]; exact hne.symm)]
    exact hold
  · intro hn
    exact ⟨caller, hn, (Caller.rouse_of_ne (by rw [hid]; exact hne.symm)).symm⟩

/-! ## Steps of callers -/

/-- A caller of another group goes on to another phase. -/
theorem frame_rephase (h : Attended callers pending id group) (hn : callers[n]? = some caller)
    (hne : caller.group ≠ id) :
    Attended (callers.modify n fun caller => { caller with phase }) pending id group := by
  refine h.frame (fun m other hid => ?_) fun hmem => hmem
  rw [getElem?_rephase]
  constructor
  · rintro (⟨rfl, old, hold, rfl⟩ | ⟨-, hm⟩)
    · rw [hn] at hold
      rw [Option.some.inj hold] at hne
      exact absurd hid hne
    · exact hm
  · intro hm
    refine .inr ⟨fun heq => ?_, hm⟩
    rw [heq, hn] at hm
    rw [Option.some.inj hm] at hne
    exact hne hid

/-- Somebody becomes a caller of another group. -/
theorem frame_push {new : Caller ν} (h : Attended callers pending id group)
    (hne : new.group ≠ id) : Attended (callers.push new) pending id group := by
  refine h.frame (fun m other hid => ?_) fun hmem => hmem
  rw [Array.getElem?_push]
  split
  · next hm =>
    rw [hm, Array.getElem?_size]
    constructor
    · intro hnew
      rw [Option.some.inj hnew] at hne
      exact absurd hid hne
    · exact fun hnone => by contradiction
  · exact Iff.rfl

/-- What a group says about the slots of its callers does not depend on their phases. -/
theorem seated_rephase (h : Attended callers pending id group)
    (hkeys : ∀ slot ∈ group.slots, slot.isReady = true →
      ∃ new ∈ changed.slots, new.fullKey = slot.fullKey ∧ new.isReady = true) (m : Nat)
    (other : Caller ν)
    (hm : (callers.modify n fun caller => { caller with phase })[m]? = some other)
    (hid : other.group = id) :
    ∃ slot ∈ changed.slots, slot.fullKey = other.fullKey ∧ slot.isReady = true := by
  have hold : ∃ (k : Nat) (old : Caller ν), callers[k]? = some old ∧ old.group = id ∧
      old.fullKey = other.fullKey := by
    obtain ⟨-, old, hold, rfl⟩ | ⟨-, hold⟩ := getElem?_rephase.mp hm
    · exact ⟨n, old, hold, hid, rfl⟩
    · exact ⟨m, other, hold, hid, rfl⟩
  obtain ⟨k, old, hold, hgroup, hkey⟩ := hold
  obtain ⟨slot, hslot, hslotKey, hready⟩ := h.seated k old hold hgroup
  obtain ⟨new, hnew, hnewKey, hnewReady⟩ := hkeys slot hslot hready
  exact ⟨new, hnew, by rw [hnewKey, hslotKey, hkey], hnewReady⟩

theorem manned_rephase (h : Attended callers pending id group) {slot : Slot ν}
    (hslot : slot ∈ group.slots) (hready : slot.isReady = true) :
    ∃ (m : Nat) (other : Caller ν),
      (callers.modify n fun caller => { caller with phase })[m]? = some other ∧
        other.group = id ∧ other.fullKey = slot.fullKey := by
  obtain ⟨m, other, hm, hid, hkey⟩ := h.manned slot hslot hready
  by_cases heq : m = n
  · subst heq
    exact ⟨m, _, getElem?_rephase.mpr (.inl ⟨rfl, other, hm, rfl⟩), hid, hkey⟩
  · exact ⟨m, other, getElem?_rephase.mpr (.inr ⟨heq, hm⟩), hid, hkey⟩

/-- A caller goes on to another phase, and the group stays as it is. A caller only stops
looking when there is nothing to claim, only falls asleep on a group that has not ended, and
only goes on from waking the others when nobody sleeps. -/
theorem rephase (h : Attended callers pending id group) (hn : callers[n]? = some caller)
    (hid : caller.group = id) (hfits : phase.Fits group)
    (hworking : phase.isWorking = caller.phase.isWorking)
    (hlooking : caller.phase = .looking → group.stage = .ready → group.claimed = true)
    (hasleep : phase = .asleep → group.stage.isTerminal = false)
    (hnotifying : ∀ (verdict : Verdict), caller.phase = .notifying verdict →
      ∀ (m : Nat) (other : Caller ν), callers[m]? = some other → other.group = id →
        other.phase ≠ .asleep) :
    Attended (callers.modify n fun caller => { caller with phase }) pending id group where
  coherent := h.coherent
  done := h.done
  seated := h.seated_rephase fun slot hslot hready => ⟨slot, hslot, rfl, hready⟩
  fits := fun m other hm hother => by
    obtain ⟨-, old, -, rfl⟩ | ⟨-, hold⟩ := getElem?_rephase.mp hm
    · exact hfits
    · exact h.fits m other hold hother
  manned := fun slot hslot hready => h.manned_rephase hslot hready
  worker := fun hstage hclaimed => by
    obtain ⟨m, other, hm, hother, hworks⟩ := h.worker hstage hclaimed
    by_cases heq : m = n
    · subst heq
      rw [hn] at hm
      refine ⟨m, _, getElem?_rephase.mpr (.inl ⟨rfl, caller, hn, rfl⟩), hid, ?_⟩
      rw [hworking, Option.some.inj hm, hworks]
    · exact ⟨m, other, getElem?_rephase.mpr (.inr ⟨heq, hm⟩), hother, hworks⟩
  alone := fun k m first second hk hm hfirst hsecond hworks hworks' => by
    have hold : ∀ {m : Nat} {other : Caller ν},
        (callers.modify n fun caller => { caller with phase })[m]? = some other →
        other.group = id → other.phase.isWorking = true →
        ∃ old, callers[m]? = some old ∧ old.group = id ∧ old.phase.isWorking = true := by
      intro m other hm hother hworks
      obtain ⟨rfl, old, hold, rfl⟩ | ⟨-, hold⟩ := getElem?_rephase.mp hm
      · rw [hn] at hold
        rw [← Option.some.inj hold] at hother
        exact ⟨caller, hn, hother, by rw [← hworking]; exact hworks⟩
      · exact ⟨other, hold, hother, hworks⟩
    obtain ⟨one, hone, hgroup, hone'⟩ := hold hk hfirst hworks
    obtain ⟨two, htwo, hgroup', htwo'⟩ := hold hm hsecond hworks'
    exact h.alone k m one two hone htwo hgroup hgroup' hone' htwo'
  due := fun hstage hclaimed => by
    obtain hmem | ⟨m, other, hm, hother, hphase⟩ := h.due hstage hclaimed
    · exact .inl hmem
    · by_cases heq : m = n
      · rw [heq, hn] at hm
        rw [← Option.some.inj hm] at hphase
        rw [hlooking hphase hstage] at hclaimed
        contradiction
      · exact .inr ⟨m, other, getElem?_rephase.mpr (.inr ⟨heq, hm⟩), hother, hphase⟩
  roused := fun hstage m other hm hother hphase => by
    obtain ⟨rfl, old, hold, rfl⟩ | ⟨-, hold⟩ := getElem?_rephase.mp hm
    · rw [hasleep hphase] at hstage
      contradiction
    · obtain hmem | ⟨k, awake, verdict, hk, hawake, hverdict⟩ :=
        h.roused hstage m other hold hother hphase
      · exact .inl hmem
      · by_cases heq : k = n
        · rw [heq, hn] at hk
          rw [← Option.some.inj hk] at hverdict
          exact absurd hphase (hnotifying verdict hverdict m other hold hother)
        · exact .inr ⟨k, awake, verdict, getElem?_rephase.mpr (.inr ⟨heq, hk⟩), hawake,
            hverdict⟩

/-- The caller that works on the emission goes on with its work. -/
theorem work (h : Attended callers pending id group) (hn : callers[n]? = some caller)
    (hid : caller.group = id) (hworks : caller.phase.isWorking = true)
    (hphase : phase.isWorking = true) :
    Attended (callers.modify n fun caller => { caller with phase }) pending id group := by
  have hfits := (h.fits n caller hn hid).of_isWorking hworks
  refine h.rephase hn hid ?_ (by rw [hphase, hworks]) (fun hlooking => ?_) (fun hasleep => ?_)
    (fun verdict hnotifying => ?_)
  · cases phase with
    | claimed values => exact hfits
    | emitting number => exact hfits
    | emitted verdict => exact hfits
    | looking => contradiction
    | asleep => contradiction
    | notifying verdict => contradiction
    | leaving verdict => contradiction
    | returned verdict => contradiction
  · rw [hlooking] at hworks
    contradiction
  · rw [hasleep] at hphase
    contradiction
  · rw [hnotifying] at hworks
    contradiction

/-- A caller that looks claims the emission. The others look or sleep: nobody works on it. -/
theorem claim {values : List ν} (h : Attended callers pending id group)
    (hn : callers[n]? = some caller) (hid : caller.group = id)
    (hclaim : group.claim? = some (values, changed)) :
    Attended (callers.modify n fun caller => { caller with phase := .claimed values }) pending id
      changed := by
  obtain ⟨hstage, hunclaimed, -, hchanged⟩ := Group.claim?_eq_some hclaim
  have habort : group.isAbortable = true := by simp [Group.isAbortable, hstage, hunclaimed]
  have hready : changed.stage = .ready := by rw [hchanged]; exact hstage
  have hclaimed : changed.claimed = true := by rw [hchanged]
  have hslots : changed.slots = group.slots.map Slot.handOver := by rw [hchanged]
  have hwaits : ∀ {m : Nat} {other : Caller ν}, callers[m]? = some other → other.group = id →
      other.phase.isWorking = false := by
    intro m other hm hother
    obtain hphase | hphase := h.waits habort hm hother <;> rw [hphase] <;> rfl
  have honly : ∀ {m : Nat} {other : Caller ν},
      (callers.modify n fun caller => { caller with phase := .claimed values })[m]? = some other →
      other.group = id → other.phase.isWorking = true → m = n := by
    intro m other hm hother hworks
    obtain ⟨heq, -⟩ | ⟨-, hold⟩ := getElem?_rephase.mp hm
    · exact heq
    · rw [hwaits hold hother] at hworks
      contradiction
  constructor
  case coherent => exact h.coherent.claim? hclaim
  case done => exact fun _ => hclaimed
  case seated =>
    refine h.seated_rephase fun slot hslot hslotReady => ⟨slot.handOver, ?_, ?_, ?_⟩
    · rw [hslots]
      exact List.mem_map_of_mem hslot
    · rw [Slot.handOver_fullKey]
    · rw [Slot.handOver_isReady, hslotReady]
  case fits =>
    intro m other hm hother
    obtain ⟨-, old, -, rfl⟩ | ⟨-, hold⟩ := getElem?_rephase.mp hm
    · exact ⟨hready, hclaimed⟩
    · exact Phase.fits_of_waits (h.waits habort hold hother)
  case manned =>
    intro slot hslot hslotReady
    rw [hslots, List.mem_map] at hslot
    obtain ⟨old, hold, rfl⟩ := hslot
    rw [Slot.handOver_isReady] at hslotReady
    rw [Slot.handOver_fullKey]
    exact h.manned_rephase hold hslotReady
  case worker =>
    exact fun _ _ => ⟨n, _, getElem?_rephase.mpr (.inl ⟨rfl, caller, hn, rfl⟩), hid, rfl⟩
  case alone =>
    intro k m first second hk hm hfirst hsecond hworks hworks'
    rw [honly hk hfirst hworks, honly hm hsecond hworks']
  case due =>
    intro _ hfalse
    rw [hclaimed] at hfalse
    contradiction
  case roused =>
    intro hterminal
    rw [hready] at hterminal
    contradiction

/-- The caller that worked on the emission tells the group how it ended. It has to wake the
others now. -/
theorem conclude {verdict : Verdict} (h : Attended callers pending id group)
    (hn : callers[n]? = some caller) (hid : caller.group = id)
    (hphase : caller.phase = .emitted verdict) :
    Attended (callers.modify n fun caller => { caller with phase := .notifying verdict }) pending
      id (group.finish verdict) := by
  have hfits := h.fits n caller hn hid
  rw [hphase] at hfits
  have houtcome : group.outcome = none := by
    have hnone := h.coherent.outcome
    rw [hfits.1] at hnone
    exact Option.not_isSome_iff_eq_none.mp (by rw [hnone]; decide)
  -- nobody else works on the emission, and the group has not ended, so the others wait
  have hothers : ∀ {m : Nat} {other : Caller ν}, m ≠ n → callers[m]? = some other →
      other.group = id →
      other.phase = .looking ∨ other.phase = .asleep := by
    intro m other hne hm hother
    have hidle : other.phase.isWorking = false := by
      cases hworks : other.phase.isWorking with
      | false => rfl
      | true =>
        have hsame := h.alone m n other caller hm hn hother hid hworks (by rw [hphase]; rfl)
        contradiction
    have hother' := h.fits m other hm hother
    cases hp : other.phase with
    | looking => exact .inl rfl
    | asleep => exact .inr rfl
    | claimed values => rw [hp] at hidle; contradiction
    | emitting number => rw [hp] at hidle; contradiction
    | emitted verdict => rw [hp] at hidle; contradiction
    | notifying verdict => rw [hp, Phase.Fits, houtcome] at hother'; contradiction
    | leaving verdict => rw [hp, Phase.Fits, houtcome] at hother'; contradiction
    | returned verdict => rw [hp, Phase.Fits, houtcome] at hother'; contradiction
  constructor
  case coherent => exact h.coherent.finish hfits.1 verdict
  case done => exact fun _ => hfits.2
  case seated => exact h.seated_rephase fun slot hslot hready => ⟨slot, hslot, rfl, hready⟩
  case fits =>
    intro m other hm hother
    obtain ⟨-, old, -, rfl⟩ | ⟨hne, hold⟩ := getElem?_rephase.mp hm
    · rfl
    · exact Phase.fits_of_waits (hothers hne hold hother)
  case manned => exact fun slot hslot hready => h.manned_rephase hslot hready
  case worker => exact fun hstage => by contradiction
  case alone =>
    intro k m first second hk hm hfirst hsecond hworks
    obtain ⟨-, old, -, rfl⟩ | ⟨hne, hold⟩ := getElem?_rephase.mp hk
    · contradiction
    · obtain hp | hp := hothers hne hold hfirst <;> rw [hp] at hworks <;> contradiction
  case due => exact fun hstage => by contradiction
  case roused =>
    exact fun _ _ _ _ _ _ => .inr ⟨n, _, verdict,
      getElem?_rephase.mpr (.inl ⟨rfl, caller, hn, rfl⟩), hid, rfl⟩

/-- Somebody stores a value in the group and becomes one of its callers. A group that becomes
ready thereby has a caller that is about to look. -/
theorem store {fullKey : String} {value : ν} (h : Attended callers pending id group)
    (hput : group.put fullKey value = .ok changed) :
    Attended (callers.push { group := id, fullKey }) pending id changed.markReady := by
  obtain ⟨hlive, before, slot, after, hslots, hkey, -, hawaits, hchanged⟩ := Group.put_eq_ok hput
  have hmem : slot ∈ group.slots := by simp [hslots]
  have hunready : group.stage ≠ .ready := fun hstage => by
    rw [(h.coherent.full (.inl hstage)).2 slot hmem] at hawaits
    contradiction
  have habort : group.isAbortable = true := by
    rw [Group.isAbortable]
    cases hs : group.stage with
    | opened => rfl
    | sizeFixed => rfl
    | ready => contradiction
    | done => rw [hs] at hlive; contradiction
    | aborted => rw [hs] at hlive; contradiction
  have hlast : (callers.push { group := id, fullKey })[callers.size]? =
      some { group := id, fullKey } := Array.getElem?_push_size
  have hunclaimed : changed.markReady.claimed = false := by
    rw [Group.markReady_claimed, hchanged]
    exact h.coherent.claimed_of_isAbortable habort
  have hstage : changed.markReady.stage = group.stage ∨ changed.markReady.stage = .ready := by
    rw [Group.markReady]
    split
    · exact .inr rfl
    · rw [hchanged]
      exact .inl rfl
  -- the new caller looks; the others wait, as they did before
  have hwaits : ∀ {m : Nat} {other : Caller ν},
      (callers.push { group := id, fullKey })[m]? = some other →
      other.group = id → other.phase = .looking ∨ other.phase = .asleep := by
    intro m other hm hother
    rw [Array.getElem?_push] at hm
    split at hm
    · rw [← Option.some.inj hm]
      exact .inl rfl
    · exact h.waits habort hm hother
  constructor
  case coherent => exact (h.coherent.put hput).markReady
  case done =>
    intro hdone
    obtain hs | hs := hstage
    · rw [hdone] at hs
      rw [← hs] at hlive
      contradiction
    · rw [hdone] at hs
      contradiction
  case seated =>
    intro m other hm hother
    rw [Group.markReady_slots, hchanged]
    rw [Array.getElem?_push] at hm
    split at hm
    · rw [← Option.some.inj hm]
      exact ⟨{ slot with holding := .held value }, by simp, hkey, rfl⟩
    · obtain ⟨old, hold, holdKey, hready⟩ := h.seated m other hm hother
      rw [hslots] at hold
      refine ⟨old, ?_, holdKey, hready⟩
      obtain hin | hin := List.mem_append.mp hold
      · exact List.mem_append_left _ hin
      · obtain rfl | hin := List.mem_cons.mp hin
        · rw [hready] at hawaits
          contradiction
        · exact List.mem_append_right _ (List.mem_cons_of_mem _ hin)
  case fits => exact fun m other hm hother => Phase.fits_of_waits (hwaits hm hother)
  case manned =>
    intro new hnew hready
    rw [Group.markReady_slots, hchanged] at hnew
    have hold : ∀ old ∈ group.slots, old.isReady = true → ∃ (m : Nat) (other : Caller ν),
        (callers.push { group := id, fullKey })[m]? = some other ∧ other.group = id ∧
          other.fullKey = old.fullKey := by
      intro old hold holdReady
      obtain ⟨m, other, hm, hother, hotherKey⟩ := h.manned old hold holdReady
      have hlt : m < callers.size := (Array.getElem?_eq_some_iff.mp hm).1
      exact ⟨m, other, by rw [Array.getElem?_push, if_neg (by omega), hm], hother, hotherKey⟩
    obtain hin | hin := List.mem_append.mp hnew
    · exact hold new (by simp [hslots, hin]) hready
    · obtain rfl | hin := List.mem_cons.mp hin
      · exact ⟨callers.size, _, hlast, rfl, hkey.symm⟩
      · exact hold new (by simp [hslots, hin]) hready
  case worker =>
    intro _ htrue
    rw [htrue] at hunclaimed
    contradiction
  case alone =>
    intro k m first second hk hm hfirst hsecond hworks
    obtain hp | hp := hwaits hk hfirst <;> rw [hp] at hworks <;> contradiction
  case due => exact fun _ _ => .inr ⟨callers.size, _, hlast, rfl, rfl⟩
  case roused =>
    intro hterminal
    obtain hs | hs := hstage
    · rw [hs, hlive] at hterminal
      contradiction
    · rw [hs] at hterminal
      contradiction

end Attended

end BatchedCommit
