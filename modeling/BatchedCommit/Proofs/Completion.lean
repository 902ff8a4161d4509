import BatchedCommit.Proofs.Accounting
import BatchedCommit.Proofs.Descent

/-!
# BatchedCommit.Proofs.Completion

What has come of everything once every call has returned (`Committer.AllReturned`): each emission
that began is counted as a success or as a failure, each value that was emitted is that of one call
that succeeded, and a live group lacks the value of some slot.
-/

namespace BatchedCommit

open BatchedCommit.Group (slotCount isUnderway isEmitted isDone)

variable {ν ε : Type}

/-- The emitter has answered that it succeeded. -/
def Emission.isSuccess (emission : Emission ν) : Bool := emission.answer.any Except.isOk

/-- The emitter has answered that it failed. -/
def Emission.isFailure (emission : Emission ν) : Bool := emission.answer.any (!·.isOk)

/-- The call has returned, and its value was emitted. -/
def Phase.isSuccess : Phase ν → Bool
  | returned verdict => verdict.isOk
  | looking | asleep | claimed _ | emitting _ | emitted _ | notifying _ | leaving _ => false

namespace Committer

variable {committer later : Committer ν ε} {action : Action ν ε} {label : String}
  {settings : Settings} {scheme : KeyScheme} {slotBytes : Nat}
  {unstartable : Option (Sweeper × String)}
  {start : Committer ν ε}

/-! ## Answers of the emitter -/

/-- Only the steps in which an emitter starts or answers change the list of its runs. -/
theorem Move.emissions_eq (hmove : Move committer action later) (hbegin : ∀ n, action ≠ .begin n)
    (hcomplete : ∀ n answer, action ≠ .complete n answer) :
    later.emissions = committer.emissions := by
  cases hmove with
  | turn _ _ _ _ hemissions => exact hemissions
  | skip _ _ _ => exact absurd rfl (hbegin _)
  | begin _ _ _ => exact absurd rfl (hbegin _)
  | complete _ _ _ _ => exact absurd rfl (hcomplete _ _)
  | store _ _ _ _ hlater => exact hlater.emissions
  | deliver _ hlater => exact hlater.emissions
  | proceed _ _ _ hlater => exact hlater.emissions
  | claim _ _ _ _ hlater => exact hlater.emissions
  | conclude _ _ _ hlater => exact hlater.emissions
  | announce _ _ hlater => exact hlater.emissions

/-- A caller for whom the emitter runs waits for its answer. -/
theorem InPhase.emitting {id n m : Nat} (h : committer.InPhase id n (.emitting m))
    (action : Action ν ε) (hcomplete : ∀ answer, action ≠ .complete n answer) :
    (committer.step action).InPhase id n (.emitting m) := by
  obtain ⟨answer, heq⟩ | hstays | ⟨heq, -⟩ := h.step action
  · exact absurd heq (hcomplete answer)
  · exact hstays
  · contradiction

/-- The answers of the emitter are counted. -/
structure Replied (committer : Committer ν ε) : Prop where
  /-- There is an emitter. -/
  emitter : committer.emitter.isSome = true
  /-- Emissions that succeeded. -/
  emitted : committer.registry.counters.get .groupsEmitted =
    tally (ones Emission.isSuccess) committer.emissions
  /-- Emissions that failed. -/
  failed : committer.registry.counters.get .emitFailures =
    tally (ones Emission.isFailure) committer.emissions
  /-- As long as an emission has no answer, the emitter runs for some caller. -/
  running : ∀ (m : Nat) (emission : Emission ν), committer.emissions[m]? = some emission →
    emission.answer = none → ∃ id n, committer.InPhase id n (.emitting m)

namespace Replied

/-- The emitter neither starts nor answers. -/
theorem calm (h : Replied committer) (hmove : Move committer action (committer.step action))
    (hbegin : ∀ n, action ≠ .begin n) (hcomplete : ∀ n answer, action ≠ .complete n answer)
    (hcounters : ∀ counter ∈ [Counter.groupsEmitted, .emitFailures],
      (committer.step action).registry.counters.get counter =
        committer.registry.counters.get counter) : Replied (committer.step action) where
  emitter := emitter_step h.emitter action
  emitted := by rw [hcounters _ (by simp), hmove.emissions_eq hbegin hcomplete, h.emitted]
  failed := by rw [hcounters _ (by simp), hmove.emissions_eq hbegin hcomplete, h.failed]
  running := fun m emission hemission hanswer => by
    rw [hmove.emissions_eq hbegin hcomplete] at hemission
    obtain ⟨id, n, hphase⟩ := h.running m emission hemission hanswer
    exact ⟨id, n, hphase.emitting action (hcomplete n)⟩

theorem begin (h : Replied committer) (n : Nat) : Replied (committer.begin n) := by
  obtain heq | ⟨caller, values, hcaller, -, ⟨hnone, -⟩ |
    ⟨hregistry, hemissions, hcallers⟩⟩ := committer.begin_cases n
  · rwa [heq]
  · have hsome := h.emitter
    rw [hnone] at hsome
    contradiction
  · refine ⟨emitter_step h.emitter (.begin n), ?_, ?_, fun m emission hemission hanswer => ?_⟩
    · rw [hregistry, hemissions, tally_push, h.emitted]
      rfl
    · rw [hregistry, hemissions, tally_push, h.failed]
      rfl
    · rw [hemissions, Array.getElem?_push] at hemission
      split at hemission
      · next hm =>
        refine ⟨caller.group, n, { caller with phase := .emitting m }, ?_, rfl, rfl⟩
        rw [hcallers, Array.getElem?_modify, if_pos rfl, hcaller, hm]
        rfl
      · obtain ⟨id, k, hk⟩ := h.running m emission hemission hanswer
        exact ⟨id, k, hk.emitting (.begin n) (by simp)⟩

theorem complete (h : Replied committer) (ha : Accounted committer) (n : Nat)
    (answer : Except String Unit) : Replied (committer.complete n answer) := by
  have hemitter := emitter_step h.emitter (.complete n answer)
  obtain heq | ⟨caller, number, emission, hcaller, hphase, hemission, hregistry, hemissions, -⟩ :=
    committer.complete_cases n answer
  · rwa [heq]
  · obtain ⟨same, hsame, -, hanswer⟩ := ha.running n caller number hcaller hphase
    obtain rfl := Option.some.inj (hemission.symm.trans hsame)
    have hsuccess := tally_set (ones Emission.isSuccess) hemission
      { emission with answer := some answer }
    have hfailure := tally_set (ones Emission.isFailure) hemission
      { emission with answer := some answer }
    rw [← hemissions, ← h.emitted] at hsuccess
    rw [← hemissions, ← h.failed] at hfailure
    have hnone : emission.isSuccess = false ∧ emission.isFailure = false := by
      simp [Emission.isSuccess, Emission.isFailure, hanswer]
    refine ⟨hemitter, ?_, ?_, fun m other hother hnot => ?_⟩
    · rw [hregistry]
      cases answer <;>
        simp_all [within, Emission.isSuccess, Counters.recordEmission, Counters.bump,
          Counters.get_add, Except.isOk, Except.toBool]
    · rw [hregistry]
      cases answer <;>
        simp_all [within, Emission.isFailure, Counters.recordEmission, Counters.bump,
          Counters.get_add, Except.isOk, Except.toBool]
    · rw [hemissions] at hother
      obtain ⟨rfl, rfl⟩ | ⟨hne, hother⟩ := getElem?_set_cases hother
      · contradiction
      · obtain ⟨id, k, hk⟩ := h.running m other hother hnot
        refine ⟨id, k, hk.emitting (.complete n answer) fun answer' heq => ?_⟩
        obtain ⟨rfl, -⟩ := Action.complete.inj heq
        obtain ⟨same, hsame, -, hphase'⟩ := hk
        obtain rfl := Option.some.inj (hcaller.symm.trans hsame)
        exact hne (Phase.emitting.inj (hphase'.symm.trans hphase))

theorem step (h : Replied committer) (hs : Staffed committer) (ha : Accounted committer)
    (hindexed : committer.registry.Indexed) (hsteered : committer.registry.Steered)
    (action : Action ν ε) : Replied (committer.step action) := by
  have hmove := committer.move_step action hs.known
  have hentries := entries_step hs hindexed hsteered action
  cases action with
  | begin n => exact h.begin n
  | complete n answer => exact h.complete ha n answer
  | sweep sweeper now =>
    refine h.calm hmove (by simp) (by simp) fun counter hcounter => hentries.get_counters ?_
    simp only [List.mem_cons, List.not_mem_nil, or_false] at hcounter
    cases sweeper <;> obtain rfl | rfl := hcounter <;> simp [Registry.counted]
  | _ =>
    refine h.calm hmove (by simp) (by simp) fun counter hcounter => hentries.get_counters ?_
    simp only [List.mem_cons, List.not_mem_nil, or_false] at hcounter
    obtain rfl | rfl := hcounter <;> simp [Registry.counted]

end Replied

/-- Once an emitter was installed, its answers are counted. -/
theorem replied_run (hstart : (launch label settings scheme slotBytes unstartable).1 = .ok start)
    (emitter : ε) (actions : List (Action ν ε)) :
    Replied (start.run (.install emitter :: actions)) := by
  induction actions using List.reverseRecOn with
  | nil =>
    obtain ⟨-, hregistry, -, -, hemissions, -⟩ := launch_eq_ok hstart
    refine ⟨rfl, ?_, ?_, fun m emission hemission => ?_⟩
    · change start.registry.counters.get _ = tally _ start.emissions
      rw [hregistry, hemissions]
      rfl
    · change start.registry.counters.get _ = tally _ start.emissions
      rw [hregistry, hemissions]
      rfl
    · change start.emissions[m]? = _ at hemission
      rw [hemissions] at hemission
      contradiction
  | append_singleton actions action ih =>
    rw [← List.cons_append, run_append]
    exact ih.step ((Staffed.launch hstart).run _) (accounted_run hstart _)
      (indexed_of_launch hstart _) (steered_run hstart _) action

/-! ## When every call has returned -/

/-- Every call that has stored a value has returned. -/
def AllReturned (committer : Committer ν ε) : Prop :=
  ∀ (n : Nat) (caller : Caller ν), committer.callers[n]? = some caller →
    ∃ verdict, caller.phase = .returned verdict

/-- The successful calls of one group. -/
def successes (committer : Committer ν ε) (id : Nat) : Finset Nat :=
  (Finset.range committer.callers.size).filter fun n =>
    committer.callers[n]?.any fun caller => caller.group == id && caller.phase.isSuccess

theorem mem_successes {id n : Nat} : n ∈ committer.successes id ↔ ∃ caller,
    committer.callers[n]? = some caller ∧ caller.group = id ∧ caller.phase.isSuccess = true := by
  simp only [successes, Finset.mem_filter, Finset.mem_range, Option.any_eq_true, Bool.and_eq_true,
    beq_iff_eq]
  exact ⟨fun h => h.2, fun ⟨caller, hcaller, h⟩ =>
    ⟨(Array.getElem?_eq_some_iff.mp hcaller).1, caller, hcaller, h⟩⟩

namespace AllReturned

theorem quiet (h : AllReturned committer) (n : Nat) (caller : Caller ν)
    (hcaller : committer.callers[n]? = some caller) : caller.phase.isParting = false := by
  obtain ⟨verdict, hphase⟩ := h n caller hcaller
  rw [hphase]
  rfl

/-- Every emission was answered. -/
theorem answered (h : AllReturned committer) (hr : Replied committer) {m : Nat}
    {emission : Emission ν} (hemission : committer.emissions[m]? = some emission) :
    ∃ answer, emission.answer = some answer := by
  cases hanswer : emission.answer with
  | none =>
    obtain ⟨id, n, caller, hcaller, -, hphase⟩ := hr.running m emission hemission hanswer
    obtain ⟨verdict, hreturned⟩ := h n caller hcaller
    rw [hphase] at hreturned
    contradiction
  | some answer => exact ⟨answer, rfl⟩

/-- Every emission is counted. -/
theorem size_emissions (h : AllReturned committer) (hr : Replied committer) :
    committer.emissions.size = committer.registry.counters.get .groupsEmitted +
      committer.registry.counters.get .emitFailures := by
  rw [hr.emitted, hr.failed, ← tally_add, ← tally_one]
  refine tally_congr _ _ fun m emission hemission => ?_
  obtain ⟨answer, hanswer⟩ := h.answered hr hemission
  cases answer <;> simp [within, Emission.isSuccess, Emission.isFailure, hanswer, Except.isOk,
    Except.toBool]

/-- What a call has returned is the outcome of its group. -/
theorem outcome (h : AllReturned committer) (hs : Staffed committer) {n : Nat} {caller : Caller ν}
    (hcaller : committer.callers[n]? = some caller) {group : Group ν}
    (hgroup : committer.registry.groups[caller.group]? = some group) :
    ∃ verdict, caller.phase = .returned verdict ∧ group.outcome = some verdict := by
  obtain ⟨verdict, hreturned⟩ := h n caller hcaller
  have hfits := (hs.attended _ group hgroup).fits n caller hcaller rfl
  rw [hreturned] at hfits
  exact ⟨verdict, hreturned, hfits⟩

/-- A call has succeeded if the emission of its group has. -/
theorem isSuccess_eq (h : AllReturned committer) (hs : Staffed committer) {n : Nat}
    {caller : Caller ν} (hcaller : committer.callers[n]? = some caller) {group : Group ν}
    (hgroup : committer.registry.groups[caller.group]? = some group) (hended : group.WellEnded) :
    caller.phase.isSuccess = group.isEmitted := by
  obtain ⟨verdict, hreturned, houtcome⟩ := h.outcome hs hcaller hgroup
  have hcoherent := (hs.attended _ group hgroup).coherent
  rw [hreturned, Phase.isSuccess, isEmitted, isDone, houtcome, Option.any_some]
  obtain hdone | haborted := Stage.isTerminal_iff.mp (hcoherent.isTerminal houtcome)
  · rw [hdone]
    rfl
  · rw [haborted]
    obtain hclosed | ⟨key, hkey⟩ := hended haborted
    · obtain rfl := Option.some.inj (houtcome.symm.trans hclosed)
      rfl
    · obtain rfl := Option.some.inj (houtcome.symm.trans hkey)
      rfl

/-- If the emission of a group has succeeded, one call has for each slot of it. -/
theorem card_successes_of_emitted (h : AllReturned committer) (hs : Staffed committer)
    {deposits : List ν} (hd : Deposited committer deposits) {id : Nat} {group : Group ν}
    (hgroup : committer.registry.groups[id]? = some group) (hnamed : group.Named scheme)
    (hended : group.WellEnded) (hemitted : group.isEmitted = true) :
    (committer.successes id).card = group.slotCount := by
  have hattended := hs.attended id group hgroup
  have hdone : group.stage = .done := by
    simp only [isEmitted, isDone, Bool.and_eq_true, beq_iff_eq] at hemitted
    exact hemitted.1
  rw [slotCount, ← List.length_map Slot.fullKey, ← List.toFinset_card_of_nodup hnamed.nodup_keys]
  refine Finset.card_nbij (fun n => (committer.callers[n]?.map Caller.fullKey).getD "")
    (fun n hn => ?_) (fun m hm n hn hsame => ?_) fun key hkey => ?_
  · obtain ⟨caller, hcaller, hid, -⟩ := mem_successes.mp hn
    obtain ⟨slot, hslot, hkey, -⟩ := hattended.seated n caller hcaller hid
    simp only [hcaller, Option.map_some, Option.getD_some]
    exact List.mem_toFinset.mpr (List.mem_map.mpr ⟨slot, hslot, hkey⟩)
  · obtain ⟨first, hfirst, hid, -⟩ := mem_successes.mp hm
    obtain ⟨second, hsecond, hid', -⟩ := mem_successes.mp hn
    have hkeys : first.fullKey = second.fullKey := by simpa [hfirst, hsecond] using hsame
    exact hd.caller_inj hfirst hsecond (by rw [Caller.seat, Caller.seat, hid, hid', hkeys])
  · obtain ⟨slot, hslot, rfl⟩ := List.mem_map.mp (List.mem_toFinset.mp hkey)
    have hready := (hattended.coherent.full (.inr hdone)).2 slot hslot
    obtain ⟨n, caller, hcaller, rfl, hkey⟩ := hattended.manned slot hslot hready
    have hsuccess := (h.isSuccess_eq hs hcaller hgroup hended).trans hemitted
    exact ⟨n, mem_successes.mpr ⟨caller, hcaller, rfl, hsuccess⟩, by simp [hcaller, hkey]⟩

theorem card_successes (h : AllReturned committer) (hs : Staffed committer) {deposits : List ν}
    (hd : Deposited committer deposits) {id : Nat} {group : Group ν}
    (hgroup : committer.registry.groups[id]? = some group) (hnamed : group.Named scheme)
    (hended : group.WellEnded) :
    (committer.successes id).card = within isEmitted slotCount group := by
  cases hemitted : group.isEmitted with
  | true =>
    rw [within, if_pos hemitted]
    exact h.card_successes_of_emitted hs hd hgroup hnamed hended hemitted
  | false =>
    rw [within, hemitted, if_neg Bool.false_ne_true, Finset.card_eq_zero,
      Finset.eq_empty_iff_forall_notMem]
    intro n hn
    obtain ⟨caller, hcaller, rfl, hsuccess⟩ := mem_successes.mp hn
    rw [h.isSuccess_eq hs hcaller hgroup hended, hemitted] at hsuccess
    contradiction

/-- Every value that was emitted is that of one call that succeeded. -/
theorem tally_success (h : AllReturned committer) (hs : Staffed committer) {deposits : List ν}
    (hd : Deposited committer deposits)
    (hnamed : ∀ (id : Nat) (group : Group ν), committer.registry.groups[id]? = some group →
      group.Named scheme)
    (hended : ∀ (id : Nat) (group : Group ν), committer.registry.groups[id]? = some group →
      group.WellEnded) :
    tally (ones fun caller => caller.phase.isSuccess) committer.callers =
      tally (within isEmitted slotCount) committer.registry.groups := by
  rw [tally_ones, tally_eq_sum, Finset.card_eq_sum_card_fiberwise
    (f := fun n => (committer.callers[n]?.map Caller.group).getD 0)
    (t := Finset.range committer.registry.groups.size) fun n hn => ?_]
  · refine Finset.sum_congr rfl fun id hid => ?_
    have hgroup := Array.getElem?_eq_getElem (Finset.mem_range.mp hid)
    rw [hgroup, Option.map_some, Option.getD_some,
      ← h.card_successes hs hd hgroup (hnamed id _ hgroup) (hended id _ hgroup), successes,
      Finset.filter_filter]
    congr 1
    refine Finset.filter_congr fun n hn => ?_
    rw [Array.getElem?_eq_getElem (Finset.mem_range.mp hn)]
    simp [and_comm]
  · obtain ⟨hlt, -⟩ := Finset.mem_filter.mp hn
    have hcaller := Array.getElem?_eq_getElem (Finset.mem_range.mp hlt)
    rw [Finset.mem_coe, Finset.mem_range]
    simpa [hcaller] using hs.known n _ hcaller

/-- A group that is live, and has slots, lacks the value of one of them. -/
theorem misses_of_underway (h : AllReturned committer) (hs : Staffed committer) {id : Nat}
    {group : Group ν} (hgroup : committer.registry.groups[id]? = some group)
    (hunderway : group.isUnderway = true) :
    ∃ fullKey, committer.registry.Misses fullKey := by
  have hattended := hs.attended id group hgroup
  simp only [isUnderway, Bool.and_eq_true, Bool.not_eq_true', List.isEmpty_eq_false_iff]
    at hunderway
  obtain ⟨hsome, hlive⟩ := hunderway
  obtain ⟨slot, hslot⟩ := List.exists_mem_of_ne_nil _ hsome
  cases hready : slot.isReady with
  | false => exact ⟨slot.fullKey, id, group, hgroup, hlive, slot, hslot, rfl, hready⟩
  | true =>
    -- the caller that brought the value has returned, so its group has an outcome
    obtain ⟨n, caller, hcaller, rfl, -⟩ := hattended.manned slot hslot hready
    obtain ⟨verdict, -, houtcome⟩ := h.outcome hs hcaller hgroup
    rw [hattended.coherent.isTerminal houtcome] at hlive
    contradiction

end AllReturned

section Runs

variable (hstart : (launch label settings scheme slotBytes unstartable).1 = .ok start)
  {actions : List (Action ν ε)} (h : (start.run actions).AllReturned)

include hstart h

/-- The values that were emitted are counted by the calls that have succeeded. -/
theorem values_of_allReturned : (start.run actions).registry.counters.get .valuesEmitted =
    tally (ones fun caller => caller.phase.isSuccess) (start.run actions).callers := by
  rw [(reckoned_run hstart actions).values, returned_of_quiet h.quiet]
  exact (h.tally_success ((Staffed.launch hstart).run actions) (deposited_run hstart actions)
    (fun _ _ hgroup => named_run hstart actions hgroup)
    fun _ _ hgroup => wellEnded_run hstart actions hgroup).symm

/-- Before a shutdown, and unless the sweeper that moves slots has broken down, no group is left
alive if no value is missing: each was emitted, or its emission failed, or it was aborted or
discarded. -/
theorem groups_of_allReturned (hopen : (start.run actions).registry.closed = false)
    (hmisses : ∀ fullKey, ¬ (start.run actions).registry.Misses fullKey)
    (hrelocating : (start.run actions).relocating = true) :
    (start.run actions).registry.counters.get .groupsOpened +
        (start.run actions).registry.counters.get .slotsRelocated =
      (start.run actions).registry.counters.get .groupsEmitted +
        (start.run actions).registry.counters.get .emitFailures +
        (start.run actions).registry.counters.get .groupsAborted +
        (start.run actions).registry.counters.get .groupsDiscarded := by
  have hs : Staffed (start.run actions) := (Staffed.launch hstart).run actions
  have hbooked := booked_run hstart actions
  have hreckoned := reckoned_run hstart actions
  have hunderway : tally (ones isUnderway) (start.run actions).registry.groups = 0 := by
    refine tally_zero fun id group hgroup => ?_
    cases hlive : group.isUnderway with
    | false => rw [ones, within, hlive, if_neg Bool.false_ne_true]
    | true =>
      obtain ⟨fullKey, hmissing⟩ := h.misses_of_underway hs hgroup hlive
      exact absurd hmissing (hmisses fullKey)
  have hclasses := hs.tally_classes fun _ => 1
  rw [tally_one, hunderway, Nat.zero_add, tally_abandoned_of_open hstart actions hopen,
    hbooked.expired, hbooked.discarded,
    (balanced_run hstart actions hrelocating).made] at hclasses
  rw [hreckoned.emitted, hreckoned.failed, returned_of_quiet h.quiet, returned_of_quiet h.quiet]
  exact hclasses

end Runs

end Committer

end BatchedCommit
