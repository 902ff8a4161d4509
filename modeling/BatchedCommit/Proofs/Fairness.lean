import Mathlib.Data.Nat.Pairing
import BatchedCommit.Proofs.Emissions
import BatchedCommit.Proofs.Wakeups

/-!
# BatchedCommit.Proofs.Fairness

Infinite runs in which nobody is passed over for ever (`Committer.Fair`): a wake-up that is due is
delivered at some time unless it is not due any more, and a caller that can take a step takes it at
some time. In such a run the callers of a group that has ended return its outcome
(`Fair.returns_of_ended`), and a group whose emission was claimed ends (`Fair.ends_of_claimed`).
-/

namespace BatchedCommit

variable {ν ε : Type}

/-! ## Steps of callers -/

/-- The step that a caller takes next. Whoever sleeps or has returned takes none. -/
def Phase.Steps (n : Nat) : Phase ν → Action ν ε → Prop
  | looking, action => action = .look n
  | claimed _, action => action = .begin n
  | emitting _, action => ∃ answer, action = .complete n answer
  | emitted _, action => action = .conclude n
  | notifying _, action => action = .announce n
  | leaving _, action => action = .leave n
  | asleep, _ | returned _, _ => False

/-- The caller sleeps or has returned. -/
def Phase.rests : Phase ν → Bool
  | asleep | returned _ => true
  | looking | claimed _ | emitting _ | emitted _ | notifying _ | leaving _ => false

namespace Committer

variable {committer : Committer ν ε} {id n : Nat} {phase : Phase ν} {verdict : Verdict}

theorem InPhase.phase? (h : committer.InPhase id n phase) : committer.phase? n = some phase := by
  obtain ⟨caller, hcaller, -, rfl⟩ := h
  rw [Committer.phase?, hcaller]
  rfl

/-- A caller goes on to another phase. -/
theorem InPhase.setPhase (h : committer.InPhase id n phase) {next : Phase ν}
    {later : Committer ν ε} (hlater : later.callers = committer.callers) :
    (later.setPhase n next).InPhase id n next := by
  obtain ⟨caller, hcaller, hid, -⟩ := h
  refine ⟨{ caller with phase := next }, ?_, hid, rfl⟩
  rw [Committer.setPhase, hlater]
  exact getElem?_rephase.mpr (.inl ⟨rfl, caller, hcaller, rfl⟩)

/-- The other callers stay where they are. -/
theorem InPhase.frame (h : committer.InPhase id n phase) {m : Nat} (hne : n ≠ m) {next : Phase ν}
    {later : Committer ν ε} (hlater : later.callers = committer.callers) :
    (later.setPhase m next).InPhase id n phase := by
  obtain ⟨caller, hcaller, hid, hphase⟩ := h
  refine ⟨caller, ?_, hid, hphase⟩
  rw [Committer.setPhase, hlater]
  exact getElem?_rephase.mpr (.inr ⟨hne, hcaller⟩)

theorem InPhase.congr (h : committer.InPhase id n phase) {later : Committer ν ε}
    (hlater : later.callers = committer.callers) : later.InPhase id n phase := by
  rwa [InPhase, hlater]

/-- A caller that is woken looks, if it slept on the group, and stays where it was otherwise. -/
theorem InPhase.rouseAll (h : committer.InPhase id n phase) (own : Nat) :
    (committer.rouseAll own).InPhase id n phase ∨
      phase = .asleep ∧ (committer.rouseAll own).InPhase id n .looking := by
  obtain ⟨caller, hcaller, rfl, rfl⟩ := h
  have hlater : (committer.rouseAll own).callers[n]? = some (caller.rouse own) :=
    getElem?_rouse.mpr ⟨caller, hcaller, rfl⟩
  by_cases hgroup : caller.group = own
  · obtain ⟨hasleep, hlooks⟩ | ⟨-, hsame⟩ := Caller.rouse_phase hgroup
    · exact .inr ⟨hasleep, _, hlater, Caller.rouse_group own caller, hlooks⟩
    · exact .inl ⟨_, hlater, Caller.rouse_group own caller, hsame⟩
  · rw [Caller.rouse_of_ne hgroup] at hlater
    exact .inl ⟨caller, hlater, rfl, rfl⟩

/-- Whoever sleeps on the group that is roused looks at it then. -/
theorem InPhase.awake (h : committer.InPhase id n .asleep) :
    (committer.rouseAll id).InPhase id n .looking := by
  obtain ⟨caller, hcaller, hid, hphase⟩ := h
  obtain ⟨-, hlooks⟩ | ⟨hawake, -⟩ := Caller.rouse_phase hid
  · exact ⟨_, getElem?_rouse.mpr ⟨caller, hcaller, rfl⟩, by rw [Caller.rouse_group, hid], hlooks⟩
  · exact absurd hphase hawake

/-- Where a caller may be after somebody took a step. -/
def Awaits (committer : Committer ν ε) (id n : Nat) (phase : Phase ν) : Prop :=
  committer.InPhase id n phase ∨ phase = .asleep ∧ committer.InPhase id n .looking

/-- The step of a caller leaves the others where they are. -/
theorem InPhase.others (h : committer.InPhase id n phase) {m : Nat} {other : Caller ν}
    (hm : committer.callers[m]? = some other) {action : Action ν ε}
    (hsteps : other.phase.Steps m action) {later : Committer ν ε}
    (hlater : n ≠ m → later.Awaits id n phase) :
    phase.Steps n action ∨ later.Awaits id n phase := by
  obtain ⟨caller, hcaller, -, rfl⟩ := h
  by_cases heq : n = m
  · subst heq
    rw [Option.some.inj (hcaller.symm.trans hm)]
    exact .inl hsteps
  · exact .inr (hlater heq)

/-- A caller stays where it is until it takes its step, unless it sleeps and is woken. -/
theorem InPhase.step (h : committer.InPhase id n phase) (action : Action ν ε) :
    phase.Steps n action ∨ (committer.step action).Awaits id n phase := by
  cases action with
  | reserve now child => exact .inr (.inl (h.congr rfl))
  | store fullKey value =>
    refine .inr (.inl ?_)
    unfold Committer.step store
    dsimp only
    split
    · exact h.congr rfl
    · obtain ⟨caller, hcaller, hid, hphase⟩ := h
      refine ⟨caller, ?_, hid, hphase⟩
      have hlt : n < committer.callers.size := (Array.getElem?_eq_some_iff.mp hcaller).1
      exact (Array.getElem?_push_lt hlt).trans (Array.getElem?_eq_getElem hlt ▸ hcaller)
  | remove fullKey => exact .inr (.inl (h.congr rfl))
  | install emitter => exact .inr (.inl (h.congr rfl))
  | close =>
    refine .inr (.inl (h.congr ?_))
    unfold Committer.step
    dsimp only
    cases hclosed : committer.registry.closed with
    | true => rw [close, if_pos hclosed]
    | false =>
      obtain ⟨journal, counters, heq⟩ := committer.close_eq hclosed
      rw [heq]
      rfl
  | sweep sweeper now =>
    refine .inr (.inl (h.congr ?_))
    cases sweeper with
    | relocate =>
      unfold Committer.step sweep
      dsimp only
      split <;> rfl
    | sizeFix => rfl
    | abort => rfl
  | deliver own =>
    unfold Committer.step deliver
    dsimp only
    split
    · exact .inr ((h.rouseAll own).imp (fun h => h.congr rfl) fun h => ⟨h.1, h.2.congr rfl⟩)
    · exact .inr (.inl h)
  | stir m =>
    unfold Committer.step stir
    dsimp only
    split
    · next hm =>
      by_cases heq : n = m
      · subst heq
        have hlooks : (committer.setPhase n .looking).InPhase id n .looking := h.setPhase rfl
        obtain ⟨caller, hcaller, -, rfl⟩ := h
        rw [Option.some.inj (hcaller.symm.trans hm)]
        exact .inr (.inr ⟨rfl, hlooks⟩)
      · exact .inr (.inl (h.frame heq rfl))
    · exact .inr (.inl h)
  | look m =>
    unfold Committer.step look
    dsimp only
    split
    · next hm =>
      refine h.others hm rfl fun hne => .inl ?_
      split <;> exact h.frame hne rfl
    · exact .inr (.inl h)
  | begin m =>
    unfold Committer.step begin
    dsimp only
    split
    · next hm =>
      refine h.others hm rfl fun hne => .inl ?_
      split <;> exact h.frame hne rfl
    · exact .inr (.inl h)
  | complete m answer =>
    unfold Committer.step complete
    dsimp only
    split
    · next hm =>
      refine h.others hm ⟨answer, rfl⟩ fun hne => .inl ?_
      split
      · exact h
      · split <;> exact h.frame hne rfl
    · exact .inr (.inl h)
  | conclude m =>
    unfold Committer.step conclude
    dsimp only
    split
    · next hm => exact h.others hm rfl fun hne => .inl (h.frame hne rfl)
    · exact .inr (.inl h)
  | announce m =>
    unfold Committer.step announce
    dsimp only
    split
    · next own fullKey verdict hm =>
      exact h.others hm rfl fun hne =>
        (h.rouseAll own).imp (fun h => h.frame hne rfl) fun h => ⟨h.1, h.2.frame hne rfl⟩
    · exact .inr (.inl h)
  | leave m =>
    unfold Committer.step leave
    dsimp only
    split
    · next hm => exact h.others hm rfl fun hne => .inl (h.frame hne rfl)
    · exact .inr (.inl h)

/-! ## Where the steps lead -/

/-- Whoever looks at a group that has ended returns its outcome. -/
theorem InPhase.look (h : committer.InPhase id n .looking) {group : Group ν}
    (hgroup : committer.registry.groups[id]? = some group)
    (houtcome : group.outcome = some verdict) :
    (committer.look n).InPhase id n (.returned verdict) := by
  have hown := h
  obtain ⟨⟨own, key, _⟩, hcaller, rfl, rfl⟩ := h
  have hglance : committer.registry.glance own =
      { answer := .ended verdict, registry := committer.registry } := by
    rw [Registry.glance, hgroup]
    simp only [houtcome]
  rw [Committer.look, hcaller]
  simp only [hglance]
  exact hown.setPhase rfl

/-- The caller that has claimed an emission starts the emitter, or there is none. -/
theorem InPhase.begin {values : List ν} (h : committer.InPhase id n (.claimed values)) :
    (∃ number, (committer.begin n).InPhase id n (.emitting number)) ∨
      ∃ verdict, (committer.begin n).InPhase id n (.emitted verdict) := by
  have hown := h
  obtain ⟨⟨own, key, _⟩, hcaller, rfl, rfl⟩ := h
  rw [Committer.begin, hcaller]
  dsimp only
  split
  · exact .inr ⟨_, hown.setPhase rfl⟩
  · exact .inl ⟨_, hown.setPhase rfl⟩

/-- The emitter answers. -/
theorem InPhase.complete {number : Nat} (h : committer.InPhase id n (.emitting number))
    {emission : Emission ν} (hemission : committer.emissions[number]? = some emission)
    (answer : Except String Unit) :
    ∃ verdict, (committer.complete n answer).InPhase id n (.emitted verdict) := by
  have hown := h
  obtain ⟨⟨own, key, _⟩, hcaller, rfl, rfl⟩ := h
  rw [Committer.complete, hcaller]
  simp only [hemission]
  cases answer with
  | ok _ => exact ⟨_, hown.setPhase rfl⟩
  | error cause => exact ⟨_, hown.setPhase rfl⟩

/-- The group learns how its emission ended. -/
theorem InPhase.conclude (h : committer.InPhase id n (.emitted verdict)) {group : Group ν}
    (hgroup : committer.registry.groups[id]? = some group) :
    (committer.conclude n).registry.groups[id]? = some (group.finish verdict) := by
  obtain ⟨⟨own, key, _⟩, hcaller, rfl, rfl⟩ := h
  rw [Committer.conclude, hcaller]
  show (committer.registry.finish own verdict).groups[own]? = _
  rw [Registry.finish, hgroup]
  exact Array.getElem?_setIfInBounds_self_of_lt (Array.getElem?_eq_some_iff.mp hgroup).1

/-- The caller has woken the others and is about to leave. -/
theorem InPhase.announce (h : committer.InPhase id n (.notifying verdict)) :
    (committer.announce n).InPhase id n (.leaving verdict) ∧
      ∀ m, committer.InPhase id m .asleep → (committer.announce n).InPhase id m .looking := by
  have hown := (h.rouseAll id).resolve_right fun h => by cases h.1
  obtain ⟨⟨own, key, _⟩, hcaller, rfl, rfl⟩ := h
  rw [Committer.announce, hcaller]
  refine ⟨hown.setPhase rfl, fun m hm => ?_⟩
  refine hm.awake.frame ?_ rfl
  rintro rfl
  obtain ⟨other, hother, -, hasleep⟩ := hm
  rw [← Option.some.inj (hcaller.symm.trans hother)] at hasleep
  contradiction

/-- The caller returns. -/
theorem InPhase.leave (h : committer.InPhase id n (.leaving verdict)) :
    (committer.leave n).InPhase id n (.returned verdict) := by
  have hown := h
  obtain ⟨⟨own, key, _⟩, hcaller, rfl, rfl⟩ := h
  rw [Committer.leave, hcaller]
  exact hown.setPhase rfl

/-- Whoever sleeps on a group looks at it when a wake-up is delivered. -/
theorem InPhase.deliver (h : committer.InPhase id n .asleep) (hdue : id ∈ committer.pending) :
    (committer.deliver id).InPhase id n .looking := by
  rw [Committer.deliver, if_pos hdue]
  exact h.awake.congr rfl

/-- A wake-up is due until it is delivered. -/
theorem Staffed.pending_step (hs : Staffed committer) (hdue : id ∈ committer.pending)
    (action : Action ν ε) : action = .deliver id ∨ id ∈ (committer.step action).pending := by
  have hmove := committer.move_step action hs.known
  generalize committer.step action = later at hmove
  cases hmove with
  | turn _ _ _ hpending _ => exact .inr (by rw [hpending]; exact List.mem_append_left _ hdue)
  | @deliver later own _ hlater =>
    by_cases heq : id = own
    · exact .inl (by rw [heq])
    · exact .inr (by rw [hlater.pending]; exact (List.mem_erase_of_ne heq).mpr hdue)
  | store _ _ _ _ hlater => exact .inr (by rwa [hlater.pending])
  | proceed _ _ _ hlater => exact .inr (by rwa [hlater.pending])
  | claim _ _ _ _ hlater => exact .inr (by rwa [hlater.pending])
  | skip _ _ hlater => exact .inr (by rwa [hlater.pending])
  | begin _ _ hlater => exact .inr (by rwa [hlater.pending])
  | complete _ _ _ hlater => exact .inr (by rwa [hlater.pending])
  | conclude _ _ _ hlater => exact .inr (by rwa [hlater.pending])
  | announce _ _ hlater => exact .inr (by rwa [hlater.pending])

/-! ## Infinite runs -/

/-- The committer after the first actions of an infinite schedule. -/
def follow (committer : Committer ν ε) (schedule : Nat → Action ν ε) (time : Nat) :
    Committer ν ε :=
  committer.run ((List.range time).map schedule)

variable {schedule : Nat → Action ν ε}

theorem follow_succ (committer : Committer ν ε) (schedule : Nat → Action ν ε) (time : Nat) :
    committer.follow schedule (time + 1) =
      (committer.follow schedule time).step (schedule time) := by
  rw [follow, List.range_succ, List.map_append, run_append]
  rfl

theorem follow_of_le (committer : Committer ν ε) (schedule : Nat → Action ν ε) {time later : Nat}
    (h : time ≤ later) : ∃ actions,
      committer.follow schedule later = (committer.follow schedule time).run actions := by
  induction later, h using Nat.le_induction with
  | base => exact ⟨[], rfl⟩
  | succ later _ ih =>
    obtain ⟨actions, heq⟩ := ih
    exact ⟨actions ++ [schedule later], by rw [follow_succ, heq, run_append]; rfl⟩

/-- Nobody is passed over for ever in an infinite run. -/
structure Fair (committer : Committer ν ε) (schedule : Nat → Action ν ε) : Prop where
  /-- At some time a wake-up is delivered, or is not due. -/
  delivers : ∀ id time, ∃ later, time ≤ later ∧
    (id ∈ (committer.follow schedule later).pending → schedule later = .deliver id)
  /-- At some time a caller takes its step, or has none to take. -/
  steps : ∀ n time, ∃ later, time ≤ later ∧ ∀ phase,
    (committer.follow schedule later).phase? n = some phase → phase.rests = true ∨
      phase.Steps n (schedule later)

/-- What stays until something happens that has to happen at some time is there when it does. -/
theorem until_happens {P Q : Nat → Prop} {time : Nat} (h : P time)
    (hkeep : ∀ later, P later → Q later ∨ P (later + 1))
    (hfair : ∃ later, time ≤ later ∧ (P later → Q later)) :
    ∃ later, time ≤ later ∧ P later ∧ Q later := by
  obtain ⟨last, hle, hlast⟩ := hfair
  have hstays : (∃ later, time ≤ later ∧ P later ∧ Q later) ∨ P last := by
    clear hlast
    induction last, hle using Nat.le_induction with
    | base => exact .inr h
    | succ later hle ih =>
      obtain hdone | hlater := ih
      · exact .inl hdone
      · exact (hkeep later hlater).imp (fun hhappens => ⟨later, hle, hlater, hhappens⟩) fun h => h
  obtain hdone | hlater := hstays
  · exact hdone
  · exact ⟨last, hle, hlater, hlast hlater⟩

namespace Fair

/-- A caller that can take a step stays where it is and takes it at some time. -/
theorem step (hfair : Fair committer schedule) {time : Nat}
    (h : (committer.follow schedule time).InPhase id n phase) (hrests : phase.rests = false) :
    ∃ later, time ≤ later ∧ (committer.follow schedule later).InPhase id n phase ∧
      phase.Steps n (schedule later) := by
  refine until_happens (P := fun later => (committer.follow schedule later).InPhase id n phase)
    h (fun later hholds => ?_) ?_
  · obtain hsteps | hkept | ⟨hasleep, -⟩ := hholds.step (schedule later)
    · exact .inl hsteps
    · exact .inr (by rwa [follow_succ])
    · rw [hasleep] at hrests
      contradiction
  · obtain ⟨later, hle, hsteps⟩ := hfair.steps n time
    refine ⟨later, hle, fun hholds => (hsteps phase hholds.phase?).resolve_left ?_⟩
    rw [hrests]
    decide

/-- A wake-up that is due stays so and is delivered at some time. -/
theorem deliver (hfair : Fair committer schedule) (hs : Staffed committer) {time : Nat}
    (hdue : id ∈ (committer.follow schedule time).pending) :
    ∃ later, time ≤ later ∧ id ∈ (committer.follow schedule later).pending ∧
      schedule later = .deliver id := by
  refine until_happens (P := fun later => id ∈ (committer.follow schedule later).pending)
    hdue (fun later hholds => ?_) (hfair.delivers id time)
  rw [follow_succ]
  exact Staffed.pending_step (hs.run _) hholds (schedule later)

/-- Whoever sleeps on a group that has ended looks at it at some time. -/
theorem wakes (hfair : Fair committer schedule) (hs : Staffed committer) {time : Nat}
    {group : Group ν} (hgroup : (committer.follow schedule time).registry.groups[id]? = some group)
    (hended : group.stage.isTerminal = true)
    (h : (committer.follow schedule time).InPhase id n .asleep) :
    ∃ later, time ≤ later ∧ (committer.follow schedule later).InPhase id n .looking := by
  have hawakes : ∃ later, time ≤ later ∧
      ((committer.follow schedule later).InPhase id n .asleep →
        (committer.follow schedule (later + 1)).InPhase id n .looking) := by
    have ⟨caller, hcaller, hid, hphase⟩ := h
    obtain hdue | ⟨m, other, verdict, hm, hother, hnotifying⟩ :=
      ((hs.run _).attended id group hgroup).roused hended n caller hcaller hid hphase
    · obtain ⟨later, hle, hdue, haction⟩ := hfair.deliver hs hdue
      refine ⟨later, hle, fun hasleep => ?_⟩
      rw [follow_succ, haction]
      exact hasleep.deliver hdue
    · obtain ⟨later, hle, hnotifies, haction⟩ := hfair.step ⟨other, hm, hother, hnotifying⟩ rfl
      refine ⟨later, hle, fun hasleep => ?_⟩
      rw [follow_succ, haction]
      exact hnotifies.announce.2 n hasleep
  have hkeep : ∀ later, (committer.follow schedule later).InPhase id n .asleep →
      (committer.follow schedule (later + 1)).InPhase id n .looking ∨
        (committer.follow schedule (later + 1)).InPhase id n .asleep := by
    intro later hasleep
    rw [follow_succ]
    obtain hsteps | hkept | ⟨-, hlooks⟩ := hasleep.step (schedule later)
    · exact hsteps.elim
    · exact .inr hkept
    · exact .inl hlooks
  obtain ⟨later, hle, -, hlooks⟩ := until_happens
    (P := fun later => (committer.follow schedule later).InPhase id n .asleep) h hkeep hawakes
  exact ⟨later + 1, Nat.le_succ_of_le hle, hlooks⟩

/-- The callers of a group that has ended return its outcome at some time. -/
theorem returns_of_ended (hfair : Fair committer schedule) (hs : Staffed committer) {time : Nat}
    {group : Group ν} (hgroup : (committer.follow schedule time).registry.groups[id]? = some group)
    (houtcome : group.outcome = some verdict)
    (h : (committer.follow schedule time).InPhase id n phase) :
    ∃ later, time ≤ later ∧
      (committer.follow schedule later).InPhase id n (.returned verdict) := by
  have hattended := (hs.run _).attended id group hgroup
  have hended := hattended.coherent.isTerminal houtcome
  have hlooking : ∀ {time' : Nat}, time ≤ time' →
      (committer.follow schedule time').InPhase id n .looking → ∃ later, time ≤ later ∧
        (committer.follow schedule later).InPhase id n (.returned verdict) := by
    intro time' hle hlooks
    obtain ⟨later, hle', hlooks', haction⟩ := hfair.step hlooks rfl
    obtain ⟨actions, heq⟩ := committer.follow_of_le schedule (hle.trans hle')
    have hsame := ended_stays (hs.run _) actions hgroup hended
    rw [← follow, ← heq] at hsame
    refine ⟨later + 1, Nat.le_succ_of_le (hle.trans hle'), ?_⟩
    rw [follow_succ, haction]
    exact hlooks'.look hsame houtcome
  have hleaving : ∀ {time' : Nat}, time ≤ time' →
      (committer.follow schedule time').InPhase id n (.leaving verdict) → ∃ later, time ≤ later ∧
        (committer.follow schedule later).InPhase id n (.returned verdict) := by
    intro time' hle hleaves
    obtain ⟨later, hle', hleaves', haction⟩ := hfair.step hleaves rfl
    refine ⟨later + 1, Nat.le_succ_of_le (hle.trans hle'), ?_⟩
    rw [follow_succ, haction]
    exact hleaves'.leave
  have ⟨caller, hcaller, hid, hphase⟩ := h
  have hfits := hattended.fits n caller hcaller hid
  rw [hphase] at hfits
  -- nobody works on the emission of a group that has ended
  have hidle : phase.isWorking = false := by
    rw [Bool.eq_false_iff]
    intro hworks
    rw [(hfits.of_isWorking hworks).1] at hended
    contradiction
  cases phase with
  | looking => exact hlooking le_rfl h
  | asleep =>
    obtain ⟨later, hle, hlooks⟩ := hfair.wakes hs hgroup hended h
    exact hlooking hle hlooks
  | claimed values => contradiction
  | emitting number => contradiction
  | emitted verdict' => contradiction
  | notifying verdict' =>
    obtain rfl := Option.some.inj (houtcome.symm.trans hfits)
    obtain ⟨later, hle, hnotifies, haction⟩ := hfair.step h rfl
    refine hleaving (Nat.le_succ_of_le hle) ?_
    rw [follow_succ, haction]
    exact hnotifies.announce.1
  | leaving verdict' =>
    obtain rfl := Option.some.inj (houtcome.symm.trans hfits)
    exact hleaving le_rfl h
  | returned verdict' =>
    obtain rfl := Option.some.inj (houtcome.symm.trans hfits)
    exact ⟨time, le_rfl, h⟩

/-- A group whose emission was claimed ends at some time. -/
theorem ends_of_claimed (hfair : Fair committer schedule) (hs : Staffed committer)
    (ha : Accounted committer) {time : Nat} {group : Group ν}
    (hgroup : (committer.follow schedule time).registry.groups[id]? = some group)
    (hstage : group.stage = .ready) (hclaimed : group.claimed = true) :
    ∃ (later : Nat) (ended : Group ν) (verdict : Verdict), time ≤ later ∧
      (committer.follow schedule later).registry.groups[id]? = some ended ∧
        ended.outcome = some verdict := by
  have hemitted : ∀ {time' : Nat} {m : Nat} {verdict : Verdict}, time ≤ time' →
      (committer.follow schedule time').InPhase id m (.emitted verdict) →
      ∃ (later : Nat) (ended : Group ν) (verdict : Verdict), time ≤ later ∧
        (committer.follow schedule later).registry.groups[id]? = some ended ∧
          ended.outcome = some verdict := by
    intro time' m verdict hle hemitted
    obtain ⟨later, hle', hemitted', haction⟩ := hfair.step hemitted rfl
    obtain ⟨actions, heq⟩ := committer.follow_of_le schedule (hle.trans hle')
    obtain ⟨last, hlast, -⟩ := head_stays (hs.run _) actions hgroup
    rw [← follow, ← heq] at hlast
    refine ⟨later + 1, last.finish verdict, verdict, Nat.le_succ_of_le (hle.trans hle'), ?_, rfl⟩
    rw [follow_succ, haction]
    exact hemitted'.conclude hlast
  have hemitting : ∀ {time' : Nat} {m number : Nat}, time ≤ time' →
      (committer.follow schedule time').InPhase id m (.emitting number) →
      ∃ (later : Nat) (ended : Group ν) (verdict : Verdict), time ≤ later ∧
        (committer.follow schedule later).registry.groups[id]? = some ended ∧
          ended.outcome = some verdict := by
    intro time' m number hle hemitting
    obtain ⟨later, hle', hemitting', answer, haction⟩ := hfair.step hemitting rfl
    have ⟨caller, hcaller, _, hphase⟩ := hemitting'
    obtain ⟨emission, hemission, -⟩ := (ha.run hs _).running m caller number hcaller hphase
    obtain ⟨verdict, hnext⟩ := hemitting'.complete hemission answer
    rw [← Committer.step, ← haction, ← follow_succ] at hnext
    exact hemitted (Nat.le_succ_of_le (hle.trans hle')) hnext
  obtain ⟨m, caller, hcaller, hid, hworks⟩ :=
    ((hs.run _).attended id group hgroup).worker hstage hclaimed
  have hphase : (committer.follow schedule time).InPhase id m caller.phase :=
    ⟨caller, hcaller, hid, rfl⟩
  cases hcase : caller.phase with
  | claimed values =>
    rw [hcase] at hphase
    obtain ⟨later, hle, hclaims, haction⟩ := hfair.step hphase rfl
    have hbegun := hclaims.begin
    rw [← Committer.step, ← haction, ← follow_succ] at hbegun
    obtain ⟨number, hnext⟩ | ⟨verdict, hnext⟩ := hbegun
    · exact hemitting (Nat.le_succ_of_le hle) hnext
    · exact hemitted (Nat.le_succ_of_le hle) hnext
  | emitting number => exact hemitting le_rfl (hcase ▸ hphase)
  | emitted verdict => exact hemitted le_rfl (hcase ▸ hphase)
  | looking => rw [hcase] at hworks; contradiction
  | asleep => rw [hcase] at hworks; contradiction
  | notifying verdict => rw [hcase] at hworks; contradiction
  | leaving verdict => rw [hcase] at hworks; contradiction
  | returned verdict => rw [hcase] at hworks; contradiction

/-- The callers of a group that has ended, or whose emission was claimed, return at some time. -/
theorem returns (hfair : Fair committer schedule) (hs : Staffed committer)
    (ha : Accounted committer) {time : Nat} {group : Group ν}
    (hgroup : (committer.follow schedule time).registry.groups[id]? = some group)
    (hover : group.stage.isTerminal = true ∨ group.stage = .ready ∧ group.claimed = true)
    (h : (committer.follow schedule time).InPhase id n phase) :
    ∃ (later : Nat) (verdict : Verdict), time ≤ later ∧
      (committer.follow schedule later).InPhase id n (.returned verdict) := by
  obtain hended | ⟨hstage, hclaimed⟩ := hover
  · rw [← ((hs.run _).attended id group hgroup).coherent.outcome] at hended
    obtain ⟨verdict, houtcome⟩ := Option.isSome_iff_exists.mp hended
    obtain ⟨later, hle, hreturned⟩ := hfair.returns_of_ended hs hgroup houtcome h
    exact ⟨later, verdict, hle, hreturned⟩
  · obtain ⟨middle, ended, verdict, hle, hended, houtcome⟩ :=
      hfair.ends_of_claimed hs ha hgroup hstage hclaimed
    obtain ⟨actions, heq⟩ := committer.follow_of_le schedule hle
    obtain ⟨caller, hcaller, hid, -⟩ := h
    obtain ⟨last, hlast, hsame, -⟩ := caller_stays (hs.run _) actions hcaller
    rw [← follow, ← heq] at hlast
    obtain ⟨later, hle', hreturned⟩ :=
      hfair.returns_of_ended hs hended houtcome ⟨last, hlast, hsame.trans hid, rfl⟩
    exact ⟨later, verdict, hle.trans hle', hreturned⟩

end Fair

/-! ## A fair schedule -/

/-- It is fair to offer everything again and again. -/
theorem fair_of_offers (committer : Committer ν ε)
    (hdelivers : ∀ id time, ∃ later, time ≤ later ∧ schedule later = .deliver id)
    (hsteps : ∀ n (phase : Phase ν), phase.rests = false → ∀ time, ∃ later, time ≤ later ∧
      phase.Steps n (schedule later)) : Fair committer schedule where
  delivers := fun id time => by
    obtain ⟨later, hle, hdeliver⟩ := hdelivers id time
    exact ⟨later, hle, fun _ => hdeliver⟩
  steps := fun n time => by
    cases hcaller : (committer.follow schedule time).callers[n]? with
    | none =>
      refine ⟨time, le_rfl, fun phase hphase => ?_⟩
      rw [phase?, hcaller] at hphase
      contradiction
    | some caller =>
      have hphase : (committer.follow schedule time).InPhase caller.group n caller.phase :=
        ⟨caller, hcaller, rfl, rfl⟩
      cases hrests : caller.phase.rests with
      | true =>
        refine ⟨time, le_rfl, fun phase hsame => .inl ?_⟩
        rw [← Option.some.inj (hphase.phase?.symm.trans hsame), hrests]
      | false =>
        obtain ⟨last, hle, hlast⟩ := hsteps n caller.phase hrests time
        obtain ⟨later, hle', hlater, htaken⟩ := until_happens
          (P := fun later => (committer.follow schedule later).InPhase caller.group n caller.phase)
          (Q := fun later => caller.phase.Steps n (schedule later)) hphase (fun later hlater => by
            obtain htaken | hkept | ⟨hasleep, -⟩ := hlater.step (schedule later)
            · exact .inl htaken
            · exact .inr (by rwa [follow_succ])
            · rw [hasleep] at hrests
              contradiction) ⟨last, hle, fun _ => hlast⟩
        refine ⟨later, hle', fun phase hsame => .inr ?_⟩
        rwa [← Option.some.inj (hlater.phase?.symm.trans hsame)]

/-- A wake-up of a group, or a step of a caller, for an emitter that always succeeds. -/
def offer (index : Nat) : Nat → Action ν ε
  | 0 => .deliver index
  | 1 => .look index
  | 2 => .begin index
  | 3 => .complete index (.ok ())
  | 4 => .conclude index
  | 5 => .announce index
  | _ => .leave index

/-- The schedule in which all of them come again and again. -/
def roundRobin (time : Nat) : Action ν ε :=
  offer time.unpair.2.unpair.1 time.unpair.1

theorem roundRobin_offers (index kind time : Nat) :
    ∃ later, time ≤ later ∧ (roundRobin later : Action ν ε) = offer index kind := by
  refine ⟨Nat.pair kind (Nat.pair index time),
    (Nat.right_le_pair index time).trans (Nat.right_le_pair kind _), ?_⟩
  simp only [roundRobin, Nat.unpair_pair]

theorem fair_roundRobin (committer : Committer ν ε) : Fair committer roundRobin := by
  refine fair_of_offers committer (fun id time => roundRobin_offers id 0 time)
    fun n phase hrests time => ?_
  cases phase with
  | looking => exact roundRobin_offers n 1 time
  | claimed values => exact roundRobin_offers n 2 time
  | emitting number =>
    obtain ⟨later, hle, heq⟩ := roundRobin_offers n 3 time
    exact ⟨later, hle, .ok (), heq⟩
  | emitted verdict => exact roundRobin_offers n 4 time
  | notifying verdict => exact roundRobin_offers n 5 time
  | leaving verdict => exact roundRobin_offers n 6 time
  | asleep => contradiction
  | returned verdict => contradiction

end Committer

end BatchedCommit
