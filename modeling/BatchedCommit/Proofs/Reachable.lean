import Mathlib.Data.List.Induction
import BatchedCommit.Proofs.Attendance
import BatchedCommit.Proofs.Moves

/-!
# BatchedCommit.Proofs.Reachable

The invariant of `BatchedCommit.Proofs.Attendance` holds of every group in every reachable
state (`Committer.Staffed.run`). From it follows how a group changes in one step of a run
(`Committer.Staffed.next`), and so what holds of all groups at all times: whatever holds of a
newborn group and is kept by every change (`Committer.group_invariant`).
-/

namespace BatchedCommit

variable {ν ε : Type}

/-- What an array holds after an entry was replaced. -/
theorem getElem?_set_cases {α : Type} {entries : Array α} {i j : Nat} {new entry : α}
    (h : (entries.setIfInBounds i new)[j]? = some entry) :
    (j = i ∧ entry = new) ∨ (j ≠ i ∧ entries[j]? = some entry) := by
  rw [Array.getElem?_setIfInBounds] at h
  split at h
  · next heq =>
    split at h
    · exact .inl ⟨heq.symm, (Option.some.inj h).symm⟩
    · contradiction
  · next hne => exact .inr ⟨fun heq => hne heq.symm, h⟩

/-- The group that a caller waits for and the slot that its value went into. -/
def Caller.seat (caller : Caller ν) : Nat × String := (caller.group, caller.fullKey)

namespace Committer

/-! ## The invariant of a committer -/

/-- What holds of a committer and its callers in every reachable state. -/
structure Staffed (committer : Committer ν ε) : Prop where
  /-- Callers wait for groups that exist. -/
  known : ∀ (n : Nat) (caller : Caller ν), committer.callers[n]? = some caller →
    caller.group < committer.registry.groups.size
  /-- Every group is attended by its callers. -/
  attended : ∀ (id : Nat) (group : Group ν), committer.registry.groups[id]? = some group →
    Attended committer.callers committer.pending id group

namespace Staffed

variable {committer later : Committer ν ε} {action : Action ν ε}

/-- A committer that was just launched has neither groups nor callers. -/
theorem launch {label : String} {settings : Settings} {scheme : KeyScheme}
    {slotBytes : Nat} {unstartable : Option (Sweeper × String)} {start : Committer ν ε}
    (h : (Committer.launch label settings scheme slotBytes unstartable).1 = .ok start) :
    Staffed start := by
  obtain ⟨-, hregistry, hcallers, -⟩ := launch_eq_ok h
  constructor
  · intro n caller hcaller
    rw [hcallers] at hcaller
    contradiction
  · intro id group hgroup
    rw [hregistry] at hgroup
    contradiction

/-- A caller goes on to another phase, while no group changes. -/
theorem rephase {n : Nat} {caller : Caller ν} {phase : Phase ν} (hs : Staffed committer)
    (hcaller : committer.callers[n]? = some caller)
    (hgroups : later.registry.groups = committer.registry.groups)
    (hcallers : later.callers =
      committer.callers.modify n fun caller => { caller with phase })
    (hpending : later.pending = committer.pending)
    (hown : ∀ group, committer.registry.groups[caller.group]? = some group →
      Attended committer.callers committer.pending caller.group group →
      Attended (committer.callers.modify n fun caller => { caller with phase })
        committer.pending caller.group group) : Staffed later where
  known := fun m other hother => by
    rw [hgroups]
    rw [hcallers] at hother
    obtain ⟨rfl, old, hold, rfl⟩ | ⟨-, hold⟩ := getElem?_rephase.mp hother
    · exact hs.known m old hold
    · exact hs.known m other hold
  attended := fun id group hgroup => by
    rw [hgroups] at hgroup
    rw [hcallers, hpending]
    by_cases hid : caller.group = id
    · subst hid
      exact hown group hgroup (hs.attended _ group hgroup)
    · exact (hs.attended id group hgroup).frame_rephase hcaller hid

/-- A caller goes on to another phase, while its group changes. -/
theorem rephase_set {n : Nat} {caller : Caller ν} {phase : Phase ν} {changed : Group ν}
    (hs : Staffed committer) (hcaller : committer.callers[n]? = some caller)
    (hgroups : later.registry.groups =
      committer.registry.groups.setIfInBounds caller.group changed)
    (hcallers : later.callers =
      committer.callers.modify n fun caller => { caller with phase })
    (hpending : later.pending = committer.pending)
    (hown : Attended (committer.callers.modify n fun caller => { caller with phase })
      committer.pending caller.group changed) : Staffed later where
  known := fun m other hother => by
    rw [hgroups, Array.size_setIfInBounds]
    rw [hcallers] at hother
    obtain ⟨rfl, old, hold, rfl⟩ | ⟨-, hold⟩ := getElem?_rephase.mp hother
    · exact hs.known m old hold
    · exact hs.known m other hold
  attended := fun id group hgroup => by
    rw [hgroups] at hgroup
    rw [hcallers, hpending]
    obtain ⟨rfl, rfl⟩ | ⟨hne, hold⟩ := getElem?_set_cases hgroup
    · exact hown
    · exact (hs.attended id group hold).frame_rephase hcaller (Ne.symm hne)

/-- Groups change and are made, and no caller takes part. -/
theorem turn {woken : List Nat} (hs : Staffed committer)
    (hturn : Registry.Turn committer.registry later.registry woken)
    (hcallers : later.callers = committer.callers)
    (hpending : later.pending = committer.pending ++ woken) : Staffed later where
  known := fun n caller hcaller => by
    rw [hcallers] at hcaller
    have hlt := hs.known n caller hcaller
    obtain ⟨changed, hchanged, -⟩ := hturn.kept _ _ (Array.getElem?_eq_getElem hlt)
    exact (Array.getElem?_eq_some_iff.mp hchanged).1
  attended := fun id changed hchanged => by
    rw [hcallers, hpending]
    cases hgroup : committer.registry.groups[id]? with
    | some group =>
      obtain ⟨other, hother, hshifts, hstage⟩ := hturn.kept id group hgroup
      rw [hchanged] at hother
      rw [← Option.some.inj hother] at hshifts hstage
      exact (hs.attended id group hgroup).shift hshifts hstage
    | none =>
      obtain ⟨born, hborn, hshifts⟩ := hturn.made id changed hgroup hchanged
      -- a caller of a group that is made only now would have been one of an unknown group
      refine .newborn hborn hshifts fun n caller hcaller heq => ?_
      have hlt := hs.known n caller hcaller
      rw [heq] at hlt
      rw [Array.getElem?_eq_getElem hlt] at hgroup
      contradiction

/-- Somebody stores a value in a group, and is a caller of it from now on. -/
theorem store {fullKey : String} {value : ν} {id : Nat} {group changed : Group ν}
    (hs : Staffed committer) (hgroup : committer.registry.groups[id]? = some group)
    (hput : group.put fullKey value = .ok changed)
    (hgroups : later.registry.groups =
      committer.registry.groups.setIfInBounds id changed.markReady)
    (hcallers : later.callers = committer.callers.push { group := id, fullKey })
    (hpending : later.pending = committer.pending) : Staffed later where
  known := fun n caller hcaller => by
    rw [hgroups, Array.size_setIfInBounds]
    rw [hcallers, Array.getElem?_push] at hcaller
    split at hcaller
    · rw [← Option.some.inj hcaller]
      exact (Array.getElem?_eq_some_iff.mp hgroup).1
    · exact hs.known n caller hcaller
  attended := fun other new hnew => by
    rw [hgroups] at hnew
    rw [hcallers, hpending]
    obtain ⟨rfl, rfl⟩ | ⟨hne, hold⟩ := getElem?_set_cases hnew
    · exact (hs.attended other group hgroup).store hput
    · exact (hs.attended other new hold).frame_push (Ne.symm hne)

/-- The callers of a group are woken; wake-ups of other groups stay due. -/
theorem rouse {own : Nat} (hs : Staffed committer)
    (hgroups : later.registry.groups = committer.registry.groups)
    (hcallers : later.callers = committer.callers.map (Caller.rouse own))
    (hpending : ∀ id, own ≠ id → id ∈ committer.pending → id ∈ later.pending) :
    Staffed later where
  known := fun n caller hcaller => by
    rw [hgroups]
    rw [hcallers] at hcaller
    obtain ⟨old, hold, rfl⟩ := getElem?_rouse.mp hcaller
    rw [Caller.rouse_group]
    exact hs.known n old hold
  attended := fun id group hgroup => by
    rw [hgroups] at hgroup
    rw [hcallers]
    by_cases hid : own = id
    · subst hid
      exact (hs.attended own group hgroup).rouse
    · exact (hs.attended id group hgroup).frame_rouse hid (hpending id hid)

/-- A caller wakes the others of its group, and leaves. -/
theorem announce {n : Nat} {caller : Caller ν} {verdict : Verdict} (hs : Staffed committer)
    (hcaller : committer.callers[n]? = some caller) (hphase : caller.phase = .notifying verdict)
    (hgroups : later.registry.groups = committer.registry.groups)
    (hcallers : later.callers = (committer.callers.map (Caller.rouse caller.group)).modify n
      fun other => { other with phase := .leaving verdict })
    (hpending : later.pending = committer.pending) : Staffed later := by
  -- first everybody is woken, then the caller goes on
  have hwoken : Staffed (committer.rouseAll caller.group) :=
    hs.rouse rfl rfl fun _ _ hmem => hmem
  have hself : (committer.rouseAll caller.group).callers[n]? = some caller := by
    refine getElem?_rouse.mpr ⟨caller, hcaller, ?_⟩
    rw [Caller.rouse, hphase]
  refine hwoken.rephase hself hgroups hcallers hpending fun group hgroup h => ?_
  have hfits := h.fits _ _ hself rfl
  rw [hphase] at hfits
  refine h.rephase hself rfl hfits (by rw [hphase]; rfl)
    (fun hlooking => by rw [hphase] at hlooking; contradiction) nofun
    fun _ _ m other hother hid hasleep => ?_
  obtain ⟨old, -, rfl⟩ := getElem?_rouse.mp hother
  rw [Caller.rouse_group] at hid
  obtain ⟨-, hlooks⟩ | ⟨hawake, hsame⟩ := Caller.rouse_phase hid
  · rw [hlooks] at hasleep
    contradiction
  · rw [hsame] at hasleep
    contradiction

/-- Every move keeps the invariant. -/
theorem move (hs : Staffed committer) (hmove : Move committer action later) :
    Staffed later := by
  cases hmove with
  | turn hdeposit hturn hcallers hpending hemissions => exact hs.turn hturn hcallers hpending
  | store hdeposit hfind hgroup hput hlater =>
    exact hs.store hgroup hput hlater.groups hlater.callers hlater.pending
  | deliver hpending hlater =>
    refine hs.rouse hlater.groups hlater.callers fun other hne hmem => ?_
    rw [hlater.pending]
    exact (List.mem_erase_of_ne (Ne.symm hne)).mpr hmem
  | proceed hdeposit hcaller hphase hlater =>
    refine hs.rephase hcaller hlater.groups hlater.callers hlater.pending fun group hgroup h => ?_
    obtain ⟨hold, rfl⟩ | ⟨hold, other, verdict, hother, houtcome, rfl⟩ | ⟨hold, rfl, hnothing⟩ |
      ⟨verdict, hold, rfl⟩ := hphase
    · exact h.rephase hcaller rfl trivial (by rw [hold]; rfl)
        (fun hlooking => by rw [hold] at hlooking; contradiction) nofun
        (fun verdict hnotifying => by rw [hold] at hnotifying; contradiction)
    · rw [Option.some.inj (hother.symm.trans hgroup)] at houtcome
      have hterminal := h.coherent.isTerminal houtcome
      exact h.rephase hcaller rfl houtcome (by rw [hold]; rfl)
        (fun _ hready => by rw [hready] at hterminal; contradiction) nofun
        (fun verdict hnotifying => by rw [hold] at hnotifying; contradiction)
    · obtain ⟨houtcome, hclaim⟩ := hnothing group hgroup
      refine h.rephase hcaller rfl trivial (by rw [hold]; rfl) (fun _ hready => ?_) (fun _ => ?_)
        (fun verdict hnotifying => by rw [hold] at hnotifying; contradiction)
      · exact (Group.claim?_eq_none hclaim).resolve_left (fun hnot => hnot hready)
      · rw [← h.coherent.outcome, houtcome]
        rfl
    · have hfits := h.fits _ _ hcaller rfl
      rw [hold] at hfits
      exact h.rephase hcaller rfl hfits (by rw [hold]; rfl)
        (fun hlooking => by rw [hold] at hlooking; contradiction) nofun
        (fun verdict hnotifying => by rw [hold] at hnotifying; contradiction)
  | claim hcaller hphase hgroup hclaim hlater =>
    exact hs.rephase_set hcaller hlater.groups hlater.callers hlater.pending
      ((hs.attended _ _ hgroup).claim hcaller rfl hclaim)
  | skip hcaller hphase hlater =>
    exact hs.rephase hcaller hlater.groups hlater.callers hlater.pending fun group hgroup h =>
      h.work hcaller rfl (by rw [hphase]; rfl) rfl
  | begin hcaller hphase hlater =>
    exact hs.rephase hcaller hlater.groups hlater.callers hlater.pending fun group hgroup h =>
      h.work hcaller rfl (by rw [hphase]; rfl) rfl
  | complete hcaller hphase hemission hlater =>
    exact hs.rephase hcaller hlater.groups hlater.callers hlater.pending fun group hgroup h =>
      h.work hcaller rfl (by rw [hphase]; rfl) rfl
  | conclude hcaller hphase hgroup hlater =>
    exact hs.rephase_set hcaller hlater.groups hlater.callers hlater.pending
      ((hs.attended _ _ hgroup).conclude hcaller rfl hphase)
  | announce hcaller hphase hlater =>
    exact hs.announce hcaller hphase hlater.groups hlater.callers hlater.pending

theorem step (hs : Staffed committer) (action : Action ν ε) : Staffed (committer.step action) :=
  hs.move (committer.move_step action hs.known)

theorem run (hs : Staffed committer) (actions : List (Action ν ε)) :
    Staffed (committer.run actions) := by
  induction actions generalizing committer with
  | nil => exact hs
  | cons action rest ih => exact ih (hs.step action)

/-! ## What happens to a group in one step -/

/-- Every group is still there after a step, and underwent one of the changes that are listed
by `Group.Next`. -/
theorem next (hs : Staffed committer) (hmove : Move committer action later) {id : Nat}
    {group : Group ν} (hgroup : committer.registry.groups[id]? = some group) :
    ∃ changed, later.registry.groups[id]? = some changed ∧
      Group.Next committer.registry.scheme group changed := by
  have hsame : later.registry.groups = committer.registry.groups →
      ∃ changed, later.registry.groups[id]? = some changed ∧
        Group.Next committer.registry.scheme group changed := fun h =>
    ⟨group, by rw [h]; exact hgroup, .quiet .refl⟩
  have hset : ∀ {own : Nat} {old new : Group ν}, committer.registry.groups[own]? = some old →
      Group.Next committer.registry.scheme old new →
      later.registry.groups = committer.registry.groups.setIfInBounds own new →
      ∃ changed, later.registry.groups[id]? = some changed ∧
        Group.Next committer.registry.scheme group changed := by
    intro own old new hold hnext h
    rw [h]
    by_cases heq : own = id
    · subst heq
      rw [hgroup] at hold
      rw [← Option.some.inj hold] at hnext
      exact ⟨new, Array.getElem?_setIfInBounds_self_of_lt
        (Array.getElem?_eq_some_iff.mp hgroup).1, hnext⟩
    · exact ⟨group, by rw [Array.getElem?_setIfInBounds_ne heq]; exact hgroup, .quiet .refl⟩
  cases hmove with
  | turn hdeposit hturn hcallers hpending hemissions =>
    obtain ⟨changed, hchanged, hshifts, -⟩ := hturn.kept id group hgroup
    exact ⟨changed, hchanged, .quiet hshifts⟩
  | store hdeposit hfind hold hput hlater => exact hset hold (.store _ _ hput) hlater.groups
  | deliver hpending hlater => exact hsame hlater.groups
  | proceed hdeposit hcaller hphase hlater => exact hsame hlater.groups
  | claim hcaller hphase hold hclaim hlater => exact hset hold (.claim _ hclaim) hlater.groups
  | skip hcaller hphase hlater => exact hsame hlater.groups
  | begin hcaller hphase hlater => exact hsame hlater.groups
  | complete hcaller hphase hemission hlater => exact hsame hlater.groups
  | conclude hcaller hphase hold hlater =>
    have hfits := (hs.attended _ _ hold).fits _ _ hcaller rfl
    rw [hphase] at hfits
    exact hset hold (.finish _ hfits.1 hfits.2) hlater.groups
  | announce hcaller hphase hlater => exact hsame hlater.groups

/-- A group that was not there before a step was made by a turn. -/
theorem made (hmove : Move committer action later) {id : Nat} {changed : Group ν}
    (hnone : committer.registry.groups[id]? = none)
    (hchanged : later.registry.groups[id]? = some changed) :
    ∃ born, Group.Newborn committer.registry.scheme committer.registry.capacity born ∧
      Group.Shifts committer.registry.scheme born changed := by
  have hsame : later.registry.groups = committer.registry.groups →
      ∃ born, Group.Newborn committer.registry.scheme committer.registry.capacity born ∧
        Group.Shifts committer.registry.scheme born changed := fun h => by
    rw [h, hnone] at hchanged
    contradiction
  have hset : ∀ {own : Nat} {old new : Group ν}, committer.registry.groups[own]? = some old →
      later.registry.groups = committer.registry.groups.setIfInBounds own new →
      ∃ born, Group.Newborn committer.registry.scheme committer.registry.capacity born ∧
        Group.Shifts committer.registry.scheme born changed := by
    intro own old new hold h
    rw [h] at hchanged
    obtain ⟨rfl, -⟩ | ⟨-, hid⟩ := getElem?_set_cases hchanged
    · rw [hnone] at hold
      contradiction
    · rw [hnone] at hid
      contradiction
  cases hmove with
  | turn hdeposit hturn hcallers hpending hemissions => exact hturn.made id changed hnone hchanged
  | store hdeposit hfind hold hput hlater => exact hset hold hlater.groups
  | deliver hpending hlater => exact hsame hlater.groups
  | proceed hdeposit hcaller hphase hlater => exact hsame hlater.groups
  | claim hcaller hphase hold hclaim hlater => exact hset hold hlater.groups
  | skip hcaller hphase hlater => exact hsame hlater.groups
  | begin hcaller hphase hlater => exact hsame hlater.groups
  | complete hcaller hphase hemission hlater => exact hsame hlater.groups
  | conclude hcaller hphase hold hlater => exact hset hold hlater.groups
  | announce hcaller hphase hlater => exact hsame hlater.groups

end Staffed

/-! ## What happens to callers in one step -/

/-- The groups and the slots of all callers, in the order in which they stored their values. -/
def seats (committer : Committer ν ε) : List (Nat × String) :=
  (committer.callers.map Caller.seat).toList

theorem getElem?_seats {committer : Committer ν ε} {n : Nat} {seat : Nat × String} :
    committer.seats[n]? = some seat ↔
      ∃ caller, committer.callers[n]? = some caller ∧ caller.seat = seat := by
  simp [seats]

theorem map_seat_modify (callers : Array (Caller ν)) (n : Nat) (phase : Phase ν) :
    (callers.modify n fun caller => { caller with phase }).map Caller.seat =
      callers.map Caller.seat := by
  apply Array.ext_getElem?
  intro m
  rw [Array.getElem?_map, Array.getElem?_map, Array.getElem?_modify]
  split
  · cases callers[m]? <;> rfl
  · rfl

theorem map_seat_rouse (callers : Array (Caller ν)) (id : Nat) :
    (callers.map (Caller.rouse id)).map Caller.seat = callers.map Caller.seat := by
  simp [Function.comp_def, Caller.seat]

/-- Callers keep their seats, and one that stores a value takes a seat of its own. -/
theorem Move.seats {committer later : Committer ν ε} {action : Action ν ε}
    (hmove : Move committer action later) :
    (later.seats = committer.seats ∧ committer.deposit action = []) ∨
    ∃ fullKey value id group changed, action = .store fullKey value ∧
      committer.registry.groups[id]? = some group ∧ group.put fullKey value = .ok changed ∧
      later.registry.groups = committer.registry.groups.setIfInBounds id changed.markReady ∧
      later.seats = committer.seats ++ [(id, fullKey)] ∧
      committer.deposit action = [value] := by
  have hmodify : ∀ {n : Nat} {phase : Phase ν}, later.callers =
      (committer.callers.modify n fun caller => { caller with phase }) →
      later.seats = committer.seats := by
    intro n phase h
    rw [Committer.seats, h, map_seat_modify, Committer.seats]
  cases hmove with
  | turn hdeposit hturn hcallers hpending hemissions =>
    exact .inl ⟨by rw [Committer.seats, hcallers, Committer.seats], hdeposit⟩
  | store hdeposit hfind hgroup hput hlater =>
    refine .inr ⟨_, _, _, _, _, rfl, hgroup, hput, hlater.groups, ?_, hdeposit⟩
    simp [Committer.seats, hlater.callers, Caller.seat]
  | deliver hpending hlater =>
    exact .inl ⟨by rw [Committer.seats, hlater.callers, map_seat_rouse, Committer.seats], rfl⟩
  | proceed hdeposit hcaller hphase hlater => exact .inl ⟨hmodify hlater.callers, hdeposit⟩
  | claim hcaller hphase hgroup hclaim hlater => exact .inl ⟨hmodify hlater.callers, rfl⟩
  | skip hcaller hphase hlater => exact .inl ⟨hmodify hlater.callers, rfl⟩
  | begin hcaller hphase hlater => exact .inl ⟨hmodify hlater.callers, rfl⟩
  | complete hcaller hphase hemission hlater => exact .inl ⟨hmodify hlater.callers, rfl⟩
  | conclude hcaller hphase hgroup hlater => exact .inl ⟨hmodify hlater.callers, rfl⟩
  | announce hcaller hphase hlater =>
    refine .inl ⟨?_, rfl⟩
    rw [Committer.seats, hlater.callers, map_seat_modify, map_seat_rouse, Committer.seats]

/-! ## What stays in a run -/

/-- The format of keys and the numbers stay the same in a step. -/
theorem Move.constant {committer later : Committer ν ε} {action : Action ν ε}
    (hmove : Move committer action later) :
    later.registry.settings = committer.registry.settings ∧
      later.registry.scheme = committer.registry.scheme := by
  cases hmove with
  | turn hdeposit hturn hcallers hpending hemissions => exact ⟨hturn.settings, hturn.scheme⟩
  | store hdeposit hfind hgroup hput hlater => exact ⟨hlater.settings, hlater.scheme⟩
  | deliver hpending hlater => exact ⟨hlater.settings, hlater.scheme⟩
  | proceed hdeposit hcaller hphase hlater => exact ⟨hlater.settings, hlater.scheme⟩
  | claim hcaller hphase hgroup hclaim hlater => exact ⟨hlater.settings, hlater.scheme⟩
  | skip hcaller hphase hlater => exact ⟨hlater.settings, hlater.scheme⟩
  | begin hcaller hphase hlater => exact ⟨hlater.settings, hlater.scheme⟩
  | complete hcaller hphase hemission hlater => exact ⟨hlater.settings, hlater.scheme⟩
  | conclude hcaller hphase hgroup hlater => exact ⟨hlater.settings, hlater.scheme⟩
  | announce hcaller hphase hlater => exact ⟨hlater.settings, hlater.scheme⟩

/-- The callers of a state keep their seats in every later state. -/
theorem seats_prefix {committer : Committer ν ε} (hs : Staffed committer)
    (actions : List (Action ν ε)) : committer.seats <+: (committer.run actions).seats := by
  induction actions generalizing committer with
  | nil => exact List.prefix_rfl
  | cons action rest ih =>
    have hstep : committer.seats <+: (committer.step action).seats := by
      obtain ⟨heq, -⟩ | ⟨_, _, _, _, _, -, -, -, -, heq, -⟩ :=
        (committer.move_step action hs.known).seats
      · exact ⟨[], by rw [heq, List.append_nil]⟩
      · exact ⟨_, heq.symm⟩
    exact hstep.trans (ih (hs.step action))

/-- A caller waits for the same group, with the same slot, in every later state. -/
theorem caller_stays {committer : Committer ν ε} (hs : Staffed committer)
    (actions : List (Action ν ε)) {n : Nat} {caller : Caller ν}
    (hcaller : committer.callers[n]? = some caller) :
    ∃ later, (committer.run actions).callers[n]? = some later ∧ later.group = caller.group ∧
      later.fullKey = caller.fullKey := by
  have hseat : committer.seats[n]? = some caller.seat := getElem?_seats.mpr ⟨caller, hcaller, rfl⟩
  obtain ⟨rest, hrest⟩ := seats_prefix hs actions
  have hlater : (committer.run actions).seats[n]? = some caller.seat := by
    rw [← hrest, List.getElem?_append_left (List.getElem?_eq_some_iff.mp hseat).1, hseat]
  obtain ⟨later, hn, heq⟩ := getElem?_seats.mp hlater
  exact ⟨later, hn, congrArg Prod.fst heq, congrArg Prod.snd heq⟩

/-- What every change keeps of a group holds of it in every later state. -/
theorem group_stays {P : Group ν → Prop} {committer : Committer ν ε} (hs : Staffed committer)
    (hP : ∀ group changed, Group.Next committer.registry.scheme group changed → P group → P changed)
    (actions : List (Action ν ε)) {id : Nat} {group : Group ν}
    (hgroup : committer.registry.groups[id]? = some group) (h : P group) :
    ∃ later, (committer.run actions).registry.groups[id]? = some later ∧ P later := by
  induction actions generalizing committer group with
  | nil => exact ⟨group, hgroup, h⟩
  | cons action rest ih =>
    have hmove := committer.move_step action hs.known
    obtain ⟨changed, hchanged, hnext⟩ := hs.next hmove hgroup
    refine ih (hs.step action) (fun old new hnew => ?_) hchanged (hP group changed hnext h)
    rw [hmove.constant.2] at hnew
    exact hP old new hnew

/-- A group keeps what it was made with in every later state. -/
theorem head_stays {committer : Committer ν ε} (hs : Staffed committer)
    (actions : List (Action ν ε)) {id : Nat} {group : Group ν}
    (hgroup : committer.registry.groups[id]? = some group) :
    ∃ later, (committer.run actions).registry.groups[id]? = some later ∧
      Group.SameHead group later :=
  group_stays hs (fun _ _ hnext hhead => hhead.trans hnext.sameHead) actions hgroup (.refl group)

/-- A group that has ended is the same in every later state. -/
theorem ended_stays {committer : Committer ν ε} (hs : Staffed committer)
    (actions : List (Action ν ε)) {id : Nat} {group : Group ν}
    (hgroup : committer.registry.groups[id]? = some group)
    (hended : group.stage.isTerminal = true) :
    (committer.run actions).registry.groups[id]? = some group := by
  obtain ⟨later, hlater, rfl⟩ := group_stays (P := fun later => later = group) hs
    (fun old changed hnext hold => by
      rw [hold] at hnext
      exact hnext.eq_of_isTerminal hended) actions hgroup rfl
  exact hlater

/-! ## What holds of every group -/

section Runs

variable {label : String} {settings : Settings} {scheme : KeyScheme}
  {slotBytes : Nat} {unstartable : Option (Sweeper × String)} {start : Committer ν ε}

/-- In every reachable state the numbers and the format of keys are those of the launch. -/
theorem run_constant (hstart : (launch label settings scheme slotBytes unstartable).1 = .ok start)
    (actions : List (Action ν ε)) :
    (start.run actions).registry.settings = settings ∧
      (start.run actions).registry.scheme = scheme := by
  induction actions using List.reverseRecOn with
  | nil =>
    rw [run_nil, (launch_eq_ok hstart).2.1]
    exact ⟨rfl, rfl⟩
  | append_singleton actions action ih =>
    have hrun : Staffed (start.run actions) := (Staffed.launch hstart).run actions
    have hlater := ((start.run actions).move_step action hrun.known).constant
    rw [run_append]
    exact ⟨hlater.1.trans ih.1, hlater.2.trans ih.2⟩

/-- A group of one time in a run keeps what it was made with until any later time. -/
theorem head_run (hstart : (launch label settings scheme slotBytes unstartable).1 = .ok start)
    (actions more : List (Action ν ε)) {id : Nat} {group : Group ν}
    (hgroup : (start.run actions).registry.groups[id]? = some group) :
    ∃ later, (start.run (actions ++ more)).registry.groups[id]? = some later ∧
      Group.SameHead group later := by
  rw [run_append]
  exact head_stays ((Staffed.launch hstart).run actions) more hgroup

/-- What holds of newborn groups and is kept by every change holds of every group in every
reachable state. -/
theorem group_invariant {P : Group ν → Prop}
    (hstart : (launch label settings scheme slotBytes unstartable).1 = .ok start)
    (hborn : ∀ group, Group.Newborn scheme settings.slotCapacity.toNat group → P group)
    (hnext : ∀ group changed, Group.Next scheme group changed → P group → P changed)
    (actions : List (Action ν ε)) (id : Nat) (group : Group ν)
    (hgroup : (start.run actions).registry.groups[id]? = some group) : P group := by
  induction actions using List.reverseRecOn generalizing id group with
  | nil =>
    rw [run_nil, (launch_eq_ok hstart).2.1] at hgroup
    contradiction
  | append_singleton actions action ih =>
    have hrun : Staffed (start.run actions) := (Staffed.launch hstart).run actions
    have hmove : Move (start.run actions) action ((start.run actions).step action) :=
      (start.run actions).move_step action hrun.known
    obtain ⟨hsettings, hscheme⟩ := run_constant hstart actions
    rw [run_append] at hgroup
    cases hold : (start.run actions).registry.groups[id]? with
    | some old =>
      obtain ⟨changed, hchanged, hchange⟩ := hrun.next hmove hold
      have hsame : changed = group := Option.some.inj (hchanged.symm.trans hgroup)
      rw [hsame, hscheme] at hchange
      exact hnext old group hchange (ih id old hold)
    | none =>
      obtain ⟨born, hmade, hshifts⟩ := Staffed.made hmove hold hgroup
      rw [hscheme] at hmade hshifts
      rw [Registry.capacity, hsettings] at hmade
      exact hnext born group (.quiet hshifts) (hborn born hmade)

end Runs

deriving instance DecidableEq for Phase

deriving instance DecidableEq for Caller

deriving instance DecidableEq for Emission

/-- A committer that was just launched, with two slots to a group, for runs to start from. -/
def pairs : Committer Nat Unit where
  label := "pairs"
  registry := .empty { Settings.default with slotCapacity := 2 } {} 72
  journal := (Sweeper.all.map Event.sweeperStarted ++ [Event.committerStarted 2]).toArray

end Committer

end BatchedCommit
