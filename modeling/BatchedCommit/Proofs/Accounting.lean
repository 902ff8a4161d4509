import BatchedCommit.Proofs.Books
import BatchedCommit.Proofs.Parting
import BatchedCommit.Proofs.Returns
import BatchedCommit.Proofs.Shutdown

/-!
# BatchedCommit.Proofs.Accounting

The counters of a committer balance. Every group that was ever made is live, or is counted in the
class in which it ended; every slot that was reserved is in such a group, or was removed. Both hold
while nobody is between the return of an emitter and the end of its call, because an emission is
counted before its group is told and leaves the index. After a shutdown the place of the live groups
is taken by those that were given up and those whose emitter has not come back.
-/

namespace BatchedCommit

open BatchedCommit.Group (slotCount isUnderway isEmitted isFailed isExpired isAbandoned isDiscarded)

variable {ν ε : Type}

/-- The caller has claimed an emission, and the emitter has not come back. -/
def Phase.isUnreturned : Phase ν → Bool
  | claimed _ | emitting _ => true
  | looking | asleep | emitted _ | notifying _ | leaving _ | returned _ => false

theorem Phase.isWorking_of_isUnreturned {phase : Phase ν} (h : phase.isUnreturned = true) :
    phase.isWorking = true := by
  cases phase <;> first | rfl | contradiction

/-! ## Live groups -/

namespace Registry

variable {registry : Registry ν} {id : Nat}

/-- The sum of the weights of the live groups. -/
def sumLive (weight : Group ν → Nat) (registry : Registry ν) : Nat :=
  (registry.roll.map fun entry => (registry.groups[entry.2.2]?.map weight).getD 0).sum

theorem registered_iff_mem_roll :
    registry.Registered id ↔ id ∈ registry.roll.map fun entry => entry.2.2 := by
  rw [registered_iff, List.mem_map]
  constructor
  · rintro ⟨kind, key, hfind⟩
    exact ⟨(kind, key, id), mem_roll.mpr hfind, rfl⟩
  · rintro ⟨⟨kind, key, _⟩, hmem, rfl⟩
    exact ⟨kind, key, mem_roll.mp hmem⟩

/-- The sum over the live groups is one over all groups, if the others have no weight. -/
theorem Indexed.sumLive_eq_tally (h : registry.Indexed) {weight other : Group ν → Nat}
    (hlive : ∀ id group, registry.Registered id → registry.groups[id]? = some group →
      other group = weight group)
    (hdead : ∀ id group, ¬ registry.Registered id → registry.groups[id]? = some group →
      other group = 0) :
    registry.sumLive weight = tally other registry.groups := by
  have hroll : registry.sumLive weight =
      ∑ id ∈ (registry.roll.map fun entry => entry.2.2).toFinset,
        (registry.groups[id]?.map weight).getD 0 := by
    rw [List.sum_toFinset _ h.nodup_roll, List.map_map]
    rfl
  have hmem : ∀ id, id ∈ (registry.roll.map fun entry => entry.2.2).toFinset ↔
      registry.Registered id := fun id => by rw [List.mem_toFinset, registered_iff_mem_roll]
  rw [hroll, tally_eq_sum]
  refine Finset.sum_subset_zero_on_sdiff (fun id hid => ?_) (fun id hid => ?_) fun id hid => ?_
  · obtain ⟨group, hgroup, -⟩ := h.of_registered ((hmem id).mp hid)
    exact Finset.mem_range.mpr (Array.getElem?_eq_some_iff.mp hgroup).1
  · obtain ⟨hlt, hnot⟩ := Finset.mem_sdiff.mp hid
    have hgroup := Array.getElem?_eq_getElem (Finset.mem_range.mp hlt)
    rw [hgroup, Option.map_some, Option.getD_some]
    exact hdead id _ (fun hreg => hnot ((hmem id).mpr hreg)) hgroup
  · obtain ⟨group, hgroup, -⟩ := h.of_registered ((hmem id).mp hid)
    rw [hgroup, Option.map_some, Option.map_some, Option.getD_some, Option.getD_some]
    exact (hlive id group ((hmem id).mp hid) hgroup).symm

theorem Indexed.sumLive_one (h : registry.Indexed) :
    registry.sumLive (fun _ => 1) = registry.liveCount := by
  have hones : registry.roll.map
      (fun entry => (registry.groups[entry.2.2]?.map fun _ => 1).getD 0) =
      registry.roll.map fun _ => 1 := by
    refine List.map_congr_left fun entry hentry => ?_
    obtain ⟨group, hgroup, -⟩ :=
      h.of_registered (registered_iff_mem_roll.mpr (List.mem_map_of_mem hentry))
    rw [hgroup]
    rfl
  rw [sumLive, hones, List.map_const', List.sum_replicate_nat, Nat.mul_one, roll,
    List.length_append, List.length_map, List.length_map]
  rfl

end Registry

namespace Committer

variable {committer later : Committer ν ε} {action : Action ν ε} {label : String}
  {settings : Settings} {scheme : KeyScheme} {slotBytes : Nat}
  {unstartable : Option (Sweeper × String)}
  {start : Committer ν ε}

/-! ## Classes of groups -/

/-- Every group is in one class. -/
theorem Staffed.tally_classes (hs : Staffed committer) (weight : Group ν → Nat) :
    tally weight committer.registry.groups =
      tally (within isUnderway weight) committer.registry.groups +
      tally (within isEmitted weight) committer.registry.groups +
      tally (within isFailed weight) committer.registry.groups +
      tally (within isExpired weight) committer.registry.groups +
      tally (within isAbandoned weight) committer.registry.groups +
      tally (within isDiscarded weight) committer.registry.groups := by
  simp only [← tally_add]
  exact tally_congr _ _ fun id group hgroup =>
    Group.weight_eq_classes (hs.attended id group hgroup).coherent weight

/-- Only a shutdown gives groups up. -/
theorem tally_abandoned_step {sound : Bool}
    (hentries : Registry.Entries sound action committer.registry later.registry)
    (hnot : action ≠ .close) (weight : Group ν → Nat) :
    tally (within isAbandoned weight) later.registry.groups =
      tally (within isAbandoned weight) committer.registry.groups := by
  refine hentries.tally_within weight (fun group hlive => Group.isAbandoned_of_live hlive)
    fun group changed hlive hends => ?_
  cases hends with
  | expire now key =>
    rw [Group.abort]
    split
    · simp [isAbandoned]
    · exact Group.isAbandoned_of_live hlive
  | abandon => contradiction
  | finish n verdict => rfl

/-- Before a shutdown no group was given up. -/
theorem tally_abandoned_of_open
    (hstart : (launch label settings scheme slotBytes unstartable).1 = .ok start)
    (actions : List (Action ν ε)) (hopen : (start.run actions).registry.closed = false)
    (weight : Group ν → Nat) :
    tally (within isAbandoned weight) (start.run actions).registry.groups = 0 := by
  induction actions using List.reverseRecOn with
  | nil =>
    rw [run_nil, (launch_eq_ok hstart).2.1]
    rfl
  | append_singleton actions action ih =>
    have hs : Staffed (start.run actions) := (Staffed.launch hstart).run actions
    have hentries := entries_step hs (indexed_of_launch hstart actions)
      (steered_run hstart actions) action
    rw [run_append] at hopen ⊢
    change ((start.run actions).step action).registry.closed = false at hopen
    have hbefore : (start.run actions).registry.closed = false := by
      rw [Bool.eq_false_iff]
      intro hclosed
      rw [((shut_of_closed hstart actions hclosed).deed (hs.deed action)).closed] at hopen
      contradiction
    have hnot : action ≠ .close := by
      rintro rfl
      exact absurd (hopen.symm.trans (close_of_open hbefore).2.1) (by decide)
    rw [← ih hbefore]
    exact tally_abandoned_step hentries hnot weight

/-! ## Before a shutdown -/

/-- Before a shutdown the groups that are under way are those that are registered, if nobody is
about to take a group out. -/
theorem tally_underway_of_open
    (hstart : (launch label settings scheme slotBytes unstartable).1 = .ok start)
    (hseparator : scheme.separator.isDigit = false) (actions : List (Action ν ε))
    (hissued : (start.run actions).registry.issued ≤ scheme.cycle)
    (hopen : (start.run actions).registry.closed = false)
    (hquiet : ∀ (n : Nat) (caller : Caller ν), (start.run actions).callers[n]? = some caller →
      caller.phase.isParting = false) (weight : Group ν → Nat) :
    tally (within isUnderway weight) (start.run actions).registry.groups =
      (start.run actions).registry.sumLive weight := by
  have hindexed := indexed_of_launch hstart actions
  have henrolled := enrolled_run hstart hseparator actions hissued
  refine (hindexed.sumLive_eq_tally (fun id group hid hgroup => ?_)
    fun id group hid hgroup => ?_).symm
  · obtain ⟨same, hsame, hslots, haborted⟩ := hindexed.of_registered hid
    obtain rfl := Option.some.inj (hgroup.symm.trans hsame)
    have hdone : group.stage ≠ .done := by
      intro hdone
      obtain ⟨n, verdict, ⟨caller, hcaller, -, hphase⟩ | ⟨caller, hcaller, -, hphase⟩⟩ :=
        parting_run hstart actions id group hid hgroup hdone <;>
        exact absurd (hquiet n caller hcaller) (by rw [hphase]; simp [Phase.isParting])
    have hunderway : group.isUnderway = true := by
      cases hs : group.stage <;> simp_all [isUnderway, Stage.isTerminal]
    rw [within, if_pos hunderway]
  · have hunderway : group.isUnderway = false := by
      rw [Bool.eq_false_iff]
      intro h
      simp only [isUnderway, Bool.and_eq_true, Bool.not_eq_true', List.isEmpty_eq_false_iff] at h
      exact hid (Registry.registered_iff.mpr ⟨_, _, henrolled hopen id group hgroup h.1 h.2⟩)
    rw [within, hunderway]
    rfl

/-- No verdict is on its way if nobody is between the return of an emitter and the end of its
call. -/
theorem returned_of_quiet
    (hquiet : ∀ (n : Nat) (caller : Caller ν), committer.callers[n]? = some caller →
      caller.phase.isParting = false) (test : Verdict → Bool) (weight : Group ν → Nat) :
    committer.returned test weight =
      tally (within (Group.isDone test) weight) committer.registry.groups := by
  have hnone : tally (brought test weight committer.registry.groups) committer.callers = 0 := by
    refine tally_zero fun n caller hcaller => brought_eq_zero fun verdict hphase => ?_
    have hnot := hquiet n caller hcaller
    rw [hphase] at hnot
    contradiction
  rw [returned, hnone, Nat.add_zero]

/-! ## Callers that work on an emission -/

/-- The groups that have a caller whose phase passes a test. -/
def groupsWith (test : Phase ν → Bool) (committer : Committer ν ε) : Finset Nat :=
  (Finset.range committer.registry.groups.size).filter fun id =>
    committer.callers.any fun caller => caller.group == id && test caller.phase

theorem Staffed.mem_groupsWith (hs : Staffed committer) {test : Phase ν → Bool} {id : Nat} :
    id ∈ committer.groupsWith test ↔ ∃ (n : Nat) (caller : Caller ν),
      committer.callers[n]? = some caller ∧ caller.group = id ∧ test caller.phase = true := by
  simp only [groupsWith, Finset.mem_filter, Finset.mem_range, Array.any_eq_true', Bool.and_eq_true,
    beq_iff_eq]
  constructor
  · rintro ⟨-, caller, hmem, hid, hphase⟩
    obtain ⟨n, hcaller⟩ := Array.mem_iff_getElem?.mp hmem
    exact ⟨n, caller, hcaller, hid, hphase⟩
  · rintro ⟨n, caller, hcaller, rfl, hphase⟩
    exact ⟨hs.known n caller hcaller, caller, Array.mem_iff_getElem?.mpr ⟨n, hcaller⟩, rfl, hphase⟩

/-- At most one caller of a group works on its emission, so there are as many callers as groups. -/
theorem Staffed.tally_callers (hs : Staffed committer) {test : Phase ν → Bool}
    (htest : ∀ phase, test phase = true → phase.isWorking = true) :
    tally (ones fun caller => test caller.phase) committer.callers =
      (committer.groupsWith test).card := by
  have hbusy : ∀ {n : Nat}, n ∈ ((Finset.range committer.callers.size).filter fun n =>
      (committer.callers[n]?.any fun caller => test caller.phase) = true) ↔
        ∃ caller, committer.callers[n]? = some caller ∧ test caller.phase = true := by
    intro n
    simp only [Finset.mem_filter, Finset.mem_range, Option.any_eq_true]
    exact ⟨fun h => h.2, fun ⟨caller, hcaller, hphase⟩ =>
      ⟨(Array.getElem?_eq_some_iff.mp hcaller).1, caller, hcaller, hphase⟩⟩
  rw [tally_ones]
  refine Finset.card_nbij (fun n => (committer.callers[n]?.map Caller.group).getD 0)
    (fun n hn => ?_) (fun m hm n hn hsame => ?_) fun id hid => ?_
  · obtain ⟨caller, hcaller, hphase⟩ := hbusy.mp hn
    exact hs.mem_groupsWith.mpr ⟨n, caller, hcaller, by simp [hcaller], hphase⟩
  · obtain ⟨first, hfirst, hfirst'⟩ := hbusy.mp hm
    obtain ⟨second, hsecond, hsecond'⟩ := hbusy.mp hn
    have hown : first.group = second.group := by simpa [hfirst, hsecond] using hsame
    have hgroup := Array.getElem?_eq_getElem (hs.known n second hsecond)
    exact (hs.attended _ _ hgroup).alone m n first second hfirst hsecond hown rfl
      (htest _ hfirst') (htest _ hsecond')
  · obtain ⟨n, caller, hcaller, rfl, hphase⟩ := hs.mem_groupsWith.mp hid
    exact ⟨n, hbusy.mpr ⟨caller, hcaller, hphase⟩, by simp [hcaller]⟩

/-- Emissions are worked on until the emitter comes back, and as long as the verdict is on its
way. -/
theorem Staffed.tally_working (hs : Staffed committer) :
    (committer.groupsWith Phase.isWorking).card =
      (committer.groupsWith Phase.isUnreturned).card +
        tally (brought Except.isOk (fun _ => 1) committer.registry.groups) committer.callers +
        tally (brought (!·.isOk) (fun _ => 1) committer.registry.groups) committer.callers := by
  rw [← hs.tally_callers fun _ h => h,
    ← hs.tally_callers fun _ h => Phase.isWorking_of_isUnreturned h, ← tally_add, ← tally_add]
  refine tally_congr _ _ fun n caller hcaller => ?_
  have hgroup := Array.getElem?_eq_getElem (hs.known n caller hcaller)
  cases hphase : caller.phase with
  | emitted verdict =>
    cases hok : verdict.isOk <;>
      simp [within, brought, hphase, hgroup, hok, Phase.isWorking, Phase.isUnreturned]
  | _ => simp [within, brought, hphase, Phase.isWorking, Phase.isUnreturned]

/-! ## After a shutdown -/

/-- A closed committer in which everything with slots has ended or was claimed. -/
structure Settled (committer : Committer ν ε) : Prop where
  staffed : Staffed committer
  shut : committer.registry.Shut
  sealed : committer.registry.Sealed

namespace Settled

theorem step (h : Settled committer) (action : Action ν ε) : Settled (committer.step action) where
  staffed := h.staffed.step action
  shut := h.shut.deed (h.staffed.deed action)
  sealed := (h.sealed.deed h.shut (fun id group hgroup =>
    (h.staffed.attended id group hgroup).coherent) (h.staffed.deed action)).1

theorem close (hs : Staffed committer) (henrolled : committer.registry.Enrolled)
    (hopen : committer.registry.closed = false) : Settled committer.close where
  staffed := hs.step .close
  shut := by
    obtain ⟨journal, counters, heq⟩ := committer.close_eq hopen
    rw [heq]
    exact Registry.shut_close _ _
  sealed := by
    rw [Registry.Sealed, (close_of_open hopen).1]
    exact henrolled.sealed_close hopen

/-- What is under way has a caller that works on its emission. -/
theorem tally_underway (h : Settled committer) :
    tally (ones isUnderway) committer.registry.groups =
      (committer.groupsWith Phase.isWorking).card := by
  rw [tally_ones]
  congr 1
  ext id
  rw [Finset.mem_filter, Finset.mem_range, h.staffed.mem_groupsWith, Option.any_eq_true]
  constructor
  · rintro ⟨-, group, hgroup, hunderway⟩
    simp only [isUnderway, Bool.and_eq_true, Bool.not_eq_true', List.isEmpty_eq_false_iff]
      at hunderway
    have hover := Group.over_of_not_isAbortable (h.sealed id group hgroup hunderway.1)
    obtain ⟨hready, hclaimed⟩ := hover.resolve_left (by rw [hunderway.2]; decide)
    exact (h.staffed.attended id group hgroup).worker hready hclaimed
  · rintro ⟨n, caller, hcaller, rfl, hphase⟩
    have hgroup := Array.getElem?_eq_getElem (h.staffed.known n caller hcaller)
    have hattended := h.staffed.attended _ _ hgroup
    have hready := ((hattended.fits n caller hcaller rfl).of_isWorking hphase).1
    have hslots := (hattended.coherent.full (.inl hready)).1
    refine ⟨h.staffed.known n caller hcaller, _, hgroup, ?_⟩
    simp [isUnderway, hready, hslots, Stage.isTerminal]

/-- No emission is claimed any more, so whoever has one now had it before. -/
theorem unreturned_step (h : Settled committer) {action : Action ν ε} {n : Nat}
    {caller : Caller ν} (hcaller : (committer.step action).callers[n]? = some caller)
    (hphase : caller.phase.isUnreturned = true) :
    ∃ old, committer.callers[n]? = some old ∧ old.group = caller.group ∧
      old.phase.isUnreturned = true := by
  have hmove := committer.move_step action h.staffed.known
  generalize committer.step action = later at hmove hcaller
  -- a caller that goes on to another phase is not in question, unless it starts the emitter
  have hmodify : ∀ {callers : Array (Caller ν)} {m : Nat} {phase : Phase ν},
      (callers.modify m fun other => { other with phase })[n]? = some caller →
      phase.isUnreturned = false → callers[n]? = some caller := by
    intro callers m phase hn hnot
    obtain ⟨-, old, -, rfl⟩ | ⟨-, hold⟩ := getElem?_rephase.mp hn
    · rw [hnot] at hphase
      contradiction
    · exact hold
  have hsame : committer.callers[n]? = some caller → ∃ old, committer.callers[n]? = some old ∧
      old.group = caller.group ∧ old.phase.isUnreturned = true := fun hn =>
    ⟨caller, hn, rfl, hphase⟩
  have hworking := Phase.isWorking_of_isUnreturned hphase
  cases hmove with
  | turn hdeposit hturn hcallers hpending hemissions =>
    rw [hcallers] at hcaller
    exact hsame hcaller
  | store hdeposit hfind hgroup hput hlater =>
    rw [hlater.callers, Array.getElem?_push] at hcaller
    split at hcaller
    · rw [← Option.some.inj hcaller] at hphase
      contradiction
    · exact hsame hcaller
  | deliver hpending hlater =>
    rw [hlater.callers] at hcaller
    exact hsame (Accounted.working_of_rouse hcaller hworking)
  | proceed hdeposit hm hphases hlater =>
    rw [hlater.callers] at hcaller
    obtain ⟨-, rfl⟩ | ⟨-, _, _, -, -, rfl⟩ | ⟨-, rfl, -⟩ | ⟨_, -, rfl⟩ := hphases <;>
      exact hsame (hmodify hcaller rfl)
  | claim hm hlooks hgroup hclaim hlater =>
    obtain ⟨hready, hunclaimed, -⟩ := Group.claim?_eq_some hclaim
    have hslots := ((h.staffed.attended _ _ hgroup).coherent.full (.inl hready)).1
    have hnot := h.sealed _ _ hgroup hslots
    rw [Group.isAbortable, hready, hunclaimed] at hnot
    contradiction
  | skip hm hclaimed hlater =>
    rw [hlater.callers] at hcaller
    exact hsame (hmodify hcaller rfl)
  | begin hm hclaimed hlater =>
    rw [hlater.callers] at hcaller
    obtain ⟨rfl, old, hold, rfl⟩ | ⟨-, hold⟩ := getElem?_rephase.mp hcaller
    · refine ⟨old, hold, rfl, ?_⟩
      rw [Option.some.inj (hold.symm.trans hm), hclaimed]
      rfl
    · exact hsame hold
  | complete hm hemitting hemission hlater =>
    rw [hlater.callers] at hcaller
    exact hsame (hmodify hcaller rfl)
  | conclude hm hemitted hgroup hlater =>
    rw [hlater.callers] at hcaller
    exact hsame (hmodify hcaller rfl)
  | announce hm hnotifying hlater =>
    rw [hlater.callers] at hcaller
    exact hsame (Accounted.working_of_rouse (hmodify hcaller rfl) hworking)

theorem run (h : Settled committer) (actions : List (Action ν ε)) :
    Settled (committer.run actions) ∧
      (committer.run actions).groupsWith Phase.isUnreturned ⊆
        committer.groupsWith Phase.isUnreturned := by
  induction actions using List.reverseRecOn with
  | nil => exact ⟨h, Finset.Subset.refl _⟩
  | append_singleton actions action ih =>
    rw [run_append]
    refine ⟨ih.1.step action, fun id hid => ih.2 ?_⟩
    obtain ⟨n, caller, hcaller, rfl, hphase⟩ := (ih.1.step action).staffed.mem_groupsWith.mp hid
    obtain ⟨old, hold, hown, hphase'⟩ := ih.1.unreturned_step hcaller hphase
    exact ih.1.staffed.mem_groupsWith.mpr ⟨n, old, hold, hown, hphase'⟩

/-- No group is given up after the shutdown. -/
theorem tally_abandoned {sound : Bool} (h : Settled committer)
    (hentries : Registry.Entries sound action committer.registry (committer.step action).registry)
    (weight : Group ν → Nat) :
    tally (within isAbandoned weight) (committer.step action).registry.groups =
      tally (within isAbandoned weight) committer.registry.groups := by
  by_cases hclose : action = .close
  · rw [hclose, Committer.step, (idle_of_shut h.shut).close]
  · exact tally_abandoned_step hentries hclose weight

end Settled

/-! ## The balance -/

theorem quiet_of_all (h : (committer.callers.all fun caller => !caller.phase.isParting) = true)
    (n : Nat) (caller : Caller ν) (hcaller : committer.callers[n]? = some caller) :
    caller.phase.isParting = false := by
  simpa using Array.all_eq_true'.mp h caller (Array.mem_of_getElem? hcaller)

/-- Before a shutdown, and while nobody is between the return of an emitter and the end of its call,
every group that was made is live or counted in the class in which it ended. -/
theorem groups_balance (hstart : (launch label settings scheme slotBytes unstartable).1 = .ok start)
    (hseparator : scheme.separator.isDigit = false) (actions : List (Action ν ε))
    (hissued : (start.run actions).registry.issued ≤ scheme.cycle)
    (hopen : (start.run actions).registry.closed = false)
    (hquiet : ∀ (n : Nat) (caller : Caller ν), (start.run actions).callers[n]? = some caller →
      caller.phase.isParting = false) :
    (start.run actions).registry.groups.size = (start.run actions).registry.liveCount +
      (start.run actions).registry.counters.get .groupsEmitted +
      (start.run actions).registry.counters.get .emitFailures +
      (start.run actions).registry.counters.get .groupsAborted +
      (start.run actions).registry.counters.get .groupsDiscarded := by
  have hs : Staffed (start.run actions) := (Staffed.launch hstart).run actions
  have hbooked := booked_run hstart actions
  have hreckoned := reckoned_run hstart actions
  have hclasses := hs.tally_classes fun _ => 1
  rw [tally_one, tally_underway_of_open hstart hseparator actions hissued hopen hquiet,
    (indexed_of_launch hstart actions).sumLive_one, tally_abandoned_of_open hstart actions hopen,
    hbooked.expired, hbooked.discarded] at hclasses
  rw [hreckoned.emitted, hreckoned.failed, returned_of_quiet hquiet, returned_of_quiet hquiet]
  exact hclasses

/-- Under the same conditions every slot that was reserved was removed, is in a live group, or ended
with its group, unless the sweeper that moves slots has broken down. -/
theorem slots_balance (hstart : (launch label settings scheme slotBytes unstartable).1 = .ok start)
    (hseparator : scheme.separator.isDigit = false) (actions : List (Action ν ε))
    (hissued : (start.run actions).registry.issued ≤ scheme.cycle)
    (hopen : (start.run actions).registry.closed = false)
    (hquiet : ∀ (n : Nat) (caller : Caller ν), (start.run actions).callers[n]? = some caller →
      caller.phase.isParting = false)
    (hrelocating : (start.run actions).relocating = true) :
    (start.run actions).registry.counters.get .slotsReserved =
      (start.run actions).registry.counters.get .slotsRemoved +
      (start.run actions).registry.counters.get .valuesEmitted +
      (start.run actions).registry.sumLive slotCount +
      tally (within isFailed slotCount) (start.run actions).registry.groups +
      tally (within isExpired slotCount) (start.run actions).registry.groups := by
  have hs : Staffed (start.run actions) := (Staffed.launch hstart).run actions
  have hbalanced := (balanced_run hstart actions hrelocating).slots
  have hdiscarded :
      tally (within isDiscarded slotCount) (start.run actions).registry.groups = 0 := by
    refine tally_zero fun id group _ => ?_
    rw [within]
    split
    · next h =>
      rw [isDiscarded, Bool.and_eq_true, List.isEmpty_iff] at h
      rw [slotCount, h.1]
      rfl
    · rfl
  have hclasses := hs.tally_classes slotCount
  rw [tally_underway_of_open hstart hseparator actions hissued hopen hquiet,
    tally_abandoned_of_open hstart actions hopen, hdiscarded] at hclasses
  have hvalues : (start.run actions).registry.counters.get .valuesEmitted =
      tally (within isEmitted slotCount) (start.run actions).registry.groups := by
    rw [(reckoned_run hstart actions).values, returned_of_quiet hquiet]
    rfl
  omega

/-- After a shutdown, the groups that it gave up and those whose emission was claimed before and has
not returned take the place of the live groups. -/
theorem groups_balance_of_close
    (hstart : (launch label settings scheme slotBytes unstartable).1 = .ok start)
    (hseparator : scheme.separator.isDigit = false) (before after : List (Action ν ε))
    (hissued : (start.run before).registry.issued ≤ scheme.cycle)
    (hopen : (start.run before).registry.closed = false) :
    (start.run (before ++ .close :: after)).registry.groups.size =
      tally (ones isAbandoned) (start.run (before ++ [.close])).registry.groups +
      ((start.run (before ++ [.close])).groupsWith Phase.isUnreturned ∩
        (start.run (before ++ .close :: after)).groupsWith Phase.isUnreturned).card +
      (start.run (before ++ .close :: after)).registry.counters.get .groupsEmitted +
      (start.run (before ++ .close :: after)).registry.counters.get .emitFailures +
      (start.run (before ++ .close :: after)).registry.counters.get .groupsAborted +
      (start.run (before ++ .close :: after)).registry.counters.get .groupsDiscarded := by
  have hs : Staffed (start.run before) := (Staffed.launch hstart).run before
  have hclosed : start.run (before ++ [.close]) = (start.run before).close := by
    rw [run_append]
    rfl
  have hrun : ∀ after : List (Action ν ε),
      start.run (before ++ .close :: after) = (start.run before).close.run after := by
    intro after
    rw [run_append]
    rfl
  have hsettled := Settled.close hs (enrolled_run hstart hseparator before hissued) hopen
  have habandoned :
      tally (ones isAbandoned) (start.run (before ++ .close :: after)).registry.groups =
      tally (ones isAbandoned) (start.run (before ++ [.close])).registry.groups := by
    induction after using List.reverseRecOn with
    | nil => rfl
    | append_singleton after action ih =>
      rw [← ih, ← List.cons_append, ← List.append_assoc, run_append]
      refine Settled.tally_abandoned ?_ (entries_step ((Staffed.launch hstart).run _)
        (indexed_of_launch hstart _) (steered_run hstart _) action) _
      rw [hrun]
      exact (hsettled.run after).1
  obtain ⟨hlater, hsubset⟩ := hsettled.run after
  rw [← hrun] at hlater hsubset
  rw [← hclosed] at hsubset
  have hbooked := booked_run hstart (before ++ .close :: after)
  have hreckoned := reckoned_run hstart (before ++ .close :: after)
  have hclasses := hlater.staffed.tally_classes fun _ => 1
  have hworking := hlater.staffed.tally_working
  have hemitted := hreckoned.emitted
  have hfailed := hreckoned.failed
  rw [tally_one, hlater.tally_underway, habandoned, hbooked.expired, hbooked.discarded] at hclasses
  rw [Finset.inter_eq_right.mpr hsubset]
  simp only [returned] at hemitted hfailed
  simp only [isEmitted, isFailed] at hclasses
  omega

/-- The counters of a committer balance, unless the sweeper that moves slots has broken down. Before
a shutdown, and while nobody is between the return of an emitter and the end of its call:

* every group, opened by a reservation or made for a slot that was moved, is live, or was counted as
  emitted, as failed, as aborted or as discarded;
* every slot that was reserved was removed, or its value was emitted, or it is in a live group, in
  one whose emission failed, or in one that was aborted.

After a shutdown the first holds, at any time, with the groups that were given up and those whose
emission was claimed before and has not returned in the place of the live groups. -/
theorem counters_balance
    (hstart : (launch label settings scheme slotBytes unstartable).1 = .ok start)
    (hseparator : scheme.separator.isDigit = false) :
    (∀ actions : List (Action ν ε),
      (start.run actions).registry.issued ≤ scheme.cycle →
      (start.run actions).registry.closed = false →
      (∀ (n : Nat) (caller : Caller ν), (start.run actions).callers[n]? = some caller →
        caller.phase.isParting = false) →
      (start.run actions).relocating = true →
      (start.run actions).registry.counters.get .groupsOpened +
          (start.run actions).registry.counters.get .slotsRelocated =
        (start.run actions).registry.liveCount +
        (start.run actions).registry.counters.get .groupsEmitted +
        (start.run actions).registry.counters.get .emitFailures +
        (start.run actions).registry.counters.get .groupsAborted +
        (start.run actions).registry.counters.get .groupsDiscarded ∧
      (start.run actions).registry.counters.get .slotsReserved =
        (start.run actions).registry.counters.get .slotsRemoved +
        (start.run actions).registry.counters.get .valuesEmitted +
        (start.run actions).registry.sumLive slotCount +
        tally (within isFailed slotCount) (start.run actions).registry.groups +
        tally (within isExpired slotCount) (start.run actions).registry.groups) ∧
    ∀ before after : List (Action ν ε),
      (start.run before).registry.issued ≤ scheme.cycle →
      (start.run before).registry.closed = false →
      (start.run (before ++ .close :: after)).relocating = true →
      (start.run (before ++ .close :: after)).registry.counters.get .groupsOpened +
          (start.run (before ++ .close :: after)).registry.counters.get .slotsRelocated =
        tally (ones isAbandoned) (start.run (before ++ [.close])).registry.groups +
        ((start.run (before ++ [.close])).groupsWith Phase.isUnreturned ∩
          (start.run (before ++ .close :: after)).groupsWith Phase.isUnreturned).card +
        (start.run (before ++ .close :: after)).registry.counters.get .groupsEmitted +
        (start.run (before ++ .close :: after)).registry.counters.get .emitFailures +
        (start.run (before ++ .close :: after)).registry.counters.get .groupsAborted +
        (start.run (before ++ .close :: after)).registry.counters.get .groupsDiscarded := by
  refine ⟨fun actions hissued hopen hquiet hrelocating => ⟨?_, ?_⟩,
    fun before after hissued hopen hrelocating => ?_⟩
  · rw [← (balanced_run hstart actions hrelocating).made]
    exact groups_balance hstart hseparator actions hissued hopen hquiet
  · exact slots_balance hstart hseparator actions hissued hopen hquiet hrelocating
  · rw [← (balanced_run hstart (before ++ .close :: after) hrelocating).made]
    exact groups_balance_of_close hstart hseparator before after hissued hopen

/-- One of two slots is moved, the emission of the other one fails, and a third one is reserved. -/
def mixed : List (Action Nat Unit) :=
  [.install (), .reserve 0 "a", .reserve 0 "b", .store "0000:a" 1, .sweep .relocate 5000, .look 0,
    .begin 0, .complete 0 (.error "disk full"), .conclude 0, .announce 0, .leave 0,
    .reserve 5000 "c"]

/-- Two values are being emitted while a third slot is reserved. -/
def flushing : List (Action Nat Unit) :=
  [.install (), .reserve 0 "a", .reserve 0 "b", .store "0000:a" 1, .store "0000:b" 2, .look 1,
    .begin 1, .reserve 0 "c"]

/-- A failed emission beside two live groups; and a shutdown that gives one group up during the
emission of another one. -/
theorem balance_of_mixed :
    ((launch "pairs" { Settings.default with slotCapacity := 2 } {} 72 none).1 = .ok pairs ∧
      ({} : KeyScheme).separator.isDigit = false ∧
      (pairs.run mixed).registry.issued ≤ ({} : KeyScheme).cycle ∧
      (pairs.run mixed).registry.closed = false ∧
      (∀ (n : Nat) (caller : Caller Nat), (pairs.run mixed).callers[n]? = some caller →
        caller.phase.isParting = false) ∧
      (pairs.run mixed).relocating = true ∧
      (pairs.run flushing).registry.issued ≤ ({} : KeyScheme).cycle ∧
      (pairs.run flushing).registry.closed = false ∧
      (pairs.run (flushing ++ [.close])).relocating = true) ∧
    2 + 1 = (pairs.run mixed).registry.liveCount + 0 + 1 + 0 + 0 ∧
    3 = 0 + 0 + (pairs.run mixed).registry.sumLive slotCount +
      tally (within isFailed slotCount) (pairs.run mixed).registry.groups +
      tally (within isExpired slotCount) (pairs.run mixed).registry.groups ∧
    2 + 0 = tally (ones isAbandoned) (pairs.run (flushing ++ [.close])).registry.groups +
      ((pairs.run (flushing ++ [.close])).groupsWith Phase.isUnreturned ∩
        (pairs.run (flushing ++ [.close])).groupsWith Phase.isUnreturned).card + 0 + 0 + 0 + 0 := by
  have hstart : (launch "pairs" { Settings.default with slotCapacity := 2 } {} 72 none).1 =
      .ok pairs := rfl
  have hseparator : ({} : KeyScheme).separator.isDigit = false := by decide
  have hissued : (pairs.run mixed).registry.issued ≤ ({} : KeyScheme).cycle := by decide +kernel
  have hopen : (pairs.run mixed).registry.closed = false := by decide +kernel
  have hquiet : ∀ (n : Nat) (caller : Caller Nat), (pairs.run mixed).callers[n]? = some caller →
      caller.phase.isParting = false := quiet_of_all (by decide +kernel)
  have hrelocating : (pairs.run mixed).relocating = true := by decide +kernel
  have hissued' : (pairs.run flushing).registry.issued ≤ ({} : KeyScheme).cycle := by
    decide +kernel
  have hopen' : (pairs.run flushing).registry.closed = false := by decide +kernel
  have hrelocating' : (pairs.run (flushing ++ [.close])).relocating = true := by decide +kernel
  obtain ⟨hbefore, hafter⟩ := counters_balance hstart hseparator
  obtain ⟨hgroups, hslots⟩ := hbefore mixed hissued hopen hquiet hrelocating
  have hclosed := hafter flushing [] hissued' hopen' hrelocating'
  have hcounters : (pairs.run mixed).registry.counters =
      { groupsOpened := 2, slotsReserved := 3, slotsRelocated := 1, emitFailures := 1 } := by
    decide +kernel
  have hcounters' : (pairs.run (flushing ++ [.close])).registry.counters =
      { groupsOpened := 2, slotsReserved := 3 } := by decide +kernel
  rw [hcounters] at hgroups hslots
  rw [hcounters'] at hclosed
  exact ⟨⟨hstart, hseparator, hissued, hopen, hquiet, hrelocating, hissued', hopen',
    hrelocating'⟩, hgroups, hslots, hclosed⟩

/-- A committer that was just launched, and that cannot derive every emit key for slots that are
moved. -/
def brittle (capacity : UInt64) (delayed : DelayedNaming) : Committer Nat Unit where
  label := "pairs"
  registry := .empty { Settings.default with slotCapacity := capacity } { delayed } 72
  journal :=
    (Sweeper.all.map Event.sweeperStarted ++ [Event.committerStarted capacity.toNat]).toArray

/-- There is an emit key for every full key but one. -/
def allBut (exception : String) : DelayedNaming :=
  ⟨fun fullKey => if fullKey = exception then none else some fullKey⟩

/-- The first of some slots has its value, and the others hold their group back until the sweep that
moves slots. -/
def lagging (children : List String) : List (Action Nat Unit) :=
  children.map (.reserve 0) ++ [.store "0000:a" 1, .sweep .relocate 5000]

/-- There was no emit key for the slot that held its group back. -/
def bereft : Committer Nat Unit := (brittle 2 .underivable).run (lagging ["a", "b"])

/-- There was one for the first of two such slots, and none for the second. -/
def halted : Committer Nat Unit := (brittle 3 (allBut "0000:c")).run (lagging ["a", "b", "c"])

/-- Where there is no emit key for a slot, the sweep breaks down, and the slot is in no group any
more: nobody removed it, and nothing was emitted, failed or aborted. A slot that the sweep had moved
before was counted, but the group that was made for it is dropped: it is not live, and a shutdown
does not find it either. -/
theorem slot_lost_in_breakdown :
    ((launch "pairs" { Settings.default with slotCapacity := 2 } { delayed := .underivable } 72
        none).1 = .ok (brittle 2 .underivable) ∧
      bereft.registry.issued ≤ ({} : KeyScheme).cycle ∧
      bereft.registry.closed = false ∧
      (∀ (n : Nat) (caller : Caller Nat), bereft.callers[n]? = some caller →
        caller.phase.isParting = false) ∧
      bereft.registry.counters.get .slotsReserved ≠
        bereft.registry.counters.get .slotsRemoved +
        bereft.registry.counters.get .valuesEmitted +
        bereft.registry.sumLive slotCount +
        tally (within isFailed slotCount) bereft.registry.groups +
        tally (within isExpired slotCount) bereft.registry.groups) ∧
    (launch "pairs" { Settings.default with slotCapacity := 3 } { delayed := allBut "0000:c" } 72
        none).1 = .ok (brittle 3 (allBut "0000:c")) ∧
      halted.registry.issued ≤ ({} : KeyScheme).cycle ∧
      halted.registry.closed = false ∧
      (∀ (n : Nat) (caller : Caller Nat), halted.callers[n]? = some caller →
        caller.phase.isParting = false) ∧
      halted.registry.counters.get .groupsOpened + halted.registry.counters.get .slotsRelocated ≠
        halted.registry.liveCount +
        halted.registry.counters.get .groupsEmitted +
        halted.registry.counters.get .emitFailures +
        halted.registry.counters.get .groupsAborted +
        halted.registry.counters.get .groupsDiscarded ∧
      halted.close.registry.counters.get .groupsOpened +
          halted.close.registry.counters.get .slotsRelocated ≠
        tally (ones isAbandoned) halted.close.registry.groups +
        (halted.close.groupsWith Phase.isUnreturned ∩
          halted.close.groupsWith Phase.isUnreturned).card +
        halted.close.registry.counters.get .groupsEmitted +
        halted.close.registry.counters.get .emitFailures +
        halted.close.registry.counters.get .groupsAborted +
        halted.close.registry.counters.get .groupsDiscarded :=
  ⟨⟨rfl, by decide +kernel, by decide +kernel, quiet_of_all (by decide +kernel),
      by decide +kernel⟩, rfl, by decide +kernel, by decide +kernel,
    quiet_of_all (by decide +kernel), by decide +kernel, by decide +kernel⟩

end Committer

end BatchedCommit
