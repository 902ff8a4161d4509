import BatchedCommit.Proofs.Enrolment
import BatchedCommit.Proofs.Fairness

/-!
# BatchedCommit.Proofs.Shutdown

What a shutdown does and leaves behind (`Committer.closed_for_good`): nothing is accepted and
nothing changes any more but for the emissions that were claimed before, and every caller that
waits is dismissed.

A shutdown gives up the registered groups (`Registry.groups_close`). Every group that has slots and
can still be claimed is registered, so nothing is left to be claimed (`Registry.Sealed`), and
whoever waits belongs to a group that has ended or was claimed before.
-/

namespace BatchedCommit

variable {ν ε : Type}

namespace Group

variable {group : Group ν}

theorem abort_of_isAbortable (h : group.isAbortable = true) (reason : Failure) :
    group.abort reason = { group with stage := .aborted, outcome := some (.error reason) } := by
  rw [abort, if_pos h]

theorem abort_of_not_isAbortable (h : group.isAbortable = false) (reason : Failure) :
    group.abort reason = group := by
  rw [abort, if_neg (by simp [h])]

/-- A group that was given up cannot be given up again. -/
theorem isAbortable_abort (group : Group ν) (reason : Failure) :
    (group.abort reason).isAbortable = false := by
  cases h : group.isAbortable with
  | true =>
    rw [abort_of_isAbortable h]
    rfl
  | false => rw [abort_of_not_isAbortable h, h]

theorem abort_claimed (group : Group ν) (reason : Failure) :
    (group.abort reason).claimed = group.claimed := by
  rw [abort]
  split <;> rfl

/-- A group can be given up unless it has ended or was claimed. -/
theorem isAbortable_of_unclaimed (hlive : group.stage.isTerminal = false)
    (hclaimed : group.claimed = false) : group.isAbortable = true := by
  cases hs : group.stage <;>
    simp_all [isAbortable, Stage.isTerminal, Stage.isMutable]

/-- What cannot be given up has ended or was claimed. -/
theorem over_of_not_isAbortable (h : group.isAbortable = false) :
    group.stage.isTerminal = true ∨ group.stage = .ready ∧ group.claimed = true := by
  cases hended : group.stage.isTerminal with
  | true => exact .inl rfl
  | false =>
    cases hclaimed : group.claimed with
    | false => rw [isAbortable_of_unclaimed hended hclaimed] at h; contradiction
    | true =>
      cases hs : group.stage <;> simp_all [isAbortable, Stage.isTerminal, Stage.isMutable]

end Group

namespace Registry

variable {registry later : Registry ν} {id : Nat} {group : Group ν}

/-! ## Giving groups up -/

theorem groups_abandon (state : Section ν Unit) (own id : Nat) :
    (abandon state own).registry.groups[id]? =
      if own = id then state.registry.groups[id]?.map (·.abort .closed)
      else state.registry.groups[id]? := by
  by_cases heq : own = id
  · subst heq
    rw [if_pos rfl, abandon]
    split
    · next group hgroup =>
      rw [hgroup, Option.map_some]
      split
      · exact Array.getElem?_setIfInBounds_self_of_lt (Array.getElem?_eq_some_iff.mp hgroup).1
      · next hnot => rw [hgroup, Group.abort_of_not_isAbortable (by simpa using hnot)]
    · next hnone =>
      rw [hnone]
      rfl
  · rw [if_neg heq]
    obtain h | ⟨group, -, -, h⟩ := abandon_cases state own
    · rw [h]
    · rw [h]
      exact Array.getElem?_setIfInBounds_ne heq

theorem groups_foldl_abandon (live : List Nat) (state : Section ν Unit) (id : Nat) :
    (live.foldl abandon state).registry.groups[id]? =
      if id ∈ live then state.registry.groups[id]?.map (·.abort .closed)
      else state.registry.groups[id]? := by
  induction live generalizing state with
  | nil => rfl
  | cons own rest ih =>
    rw [List.foldl_cons, ih, groups_abandon]
    by_cases heq : own = id
    · subst heq
      rw [if_pos rfl, if_pos List.mem_cons_self, Option.map_map]
      -- giving a group up twice is giving it up once
      have htwice : (fun group : Group ν => group.abort .closed) ∘
          (fun group : Group ν => group.abort .closed) = fun group => group.abort .closed := by
        funext group
        exact Group.abort_of_not_isAbortable (group.isAbortable_abort _) _
      rw [htwice, ite_self]
    · rw [if_neg heq]
      simp [Ne.symm heq]

open Classical in
/-- A shutdown gives up the groups that are registered. -/
theorem groups_close (registry : Registry ν) (id : Nat) :
    registry.close.registry.groups[id]? =
      if registry.Registered id then registry.groups[id]?.map (·.abort .closed)
      else registry.groups[id]? := by
  have hlive : id ∈ registry.normal.entries.map Prod.snd ++ registry.delayed.entries.map Prod.snd ↔
      registry.Registered id := by
    simp only [List.mem_append, List.mem_map, Prod.exists, exists_eq_right, Registered,
      Table.find?_eq_some_iff]
  rw [close, groups_foldl_abandon]
  simp only [hlive]

/-! ## What is left -/

/-- Every group that has slots has ended or was claimed. -/
def Sealed (registry : Registry ν) : Prop :=
  ∀ (id : Nat) (group : Group ν), registry.groups[id]? = some group → group.slots ≠ [] →
    group.isAbortable = false

/-- Nothing can be claimed after a shutdown. -/
theorem Enrolled.sealed_close (h : registry.Enrolled) (hopen : registry.closed = false) :
    registry.close.registry.Sealed := by
  intro id group hgroup hslots
  rw [groups_close] at hgroup
  split at hgroup
  · obtain ⟨old, -, rfl⟩ := Option.map_eq_some_iff.mp hgroup
    exact old.isAbortable_abort _
  · next hid =>
    rw [Bool.eq_false_iff]
    intro habort
    have hlive : group.stage.isTerminal = false := by
      rw [Bool.eq_false_iff]
      intro hended
      rw [Group.not_abortable_of_isTerminal hended] at habort
      contradiction
    exact hid (registered_iff.mpr ⟨_, _, h hopen id group hgroup hslots hlive⟩)

/-- A group is only claimed if it was before. -/
def NoneClaimed (registry later : Registry ν) : Prop :=
  ∀ (id : Nat) (changed : Group ν), later.groups[id]? = some changed → changed.claimed = true →
    ∃ group, registry.groups[id]? = some group ∧ group.claimed = true

/-- No step after a shutdown claims a group. -/
theorem Sealed.deed (h : registry.Sealed) (hshut : registry.Shut)
    (hcoherent : ∀ (id : Nat) (group : Group ν), registry.groups[id]? = some group → group.Coherent)
    {action : Action ν ε} (hdeed : Deed registry action later) :
    later.Sealed ∧ NoneClaimed registry later := by
  have hsame : later.groups = registry.groups → later.Sealed ∧ NoneClaimed registry later := by
    intro hgroups
    rw [Sealed, NoneClaimed, hgroups]
    exact ⟨h, fun id group hgroup hclaimed => ⟨group, hgroup, hclaimed⟩⟩
  cases hdeed with
  | counted counters => exact hsame rfl
  | reserve now child => exact hsame (by rw [hshut.reserve])
  | store fullKey value => exact hsame (by rw [hshut.store])
  | remove fullKey => exact hsame (by rw [hshut.remove])
  | close counters hopen =>
    rw [hshut.closed] at hopen
    contradiction
  | fixSizes now => exact hsame (by rw [hshut.fixSizes])
  | relocate now => exact hsame (by rw [hshut.relocate])
  | abortOld now => exact hsame (by rw [hshut.abortOld])
  | @claim n id group changed values hgroup hclaim =>
    -- a group that is ready has slots
    obtain ⟨hstage, hclaimed, -⟩ := Group.claim?_eq_some hclaim
    have hslots := ((hcoherent id group hgroup).full (.inl hstage)).1
    have hnot := h id group hgroup hslots
    rw [Group.isAbortable, hstage, hclaimed] at hnot
    contradiction
  | @finish n id group verdict hgroup hstage hclaimed =>
    refine ⟨fun other changed hchanged hslots => ?_, fun other changed hchanged hclaimed' => ?_⟩
    · obtain ⟨-, rfl⟩ | ⟨-, hother⟩ := getElem?_set_cases hchanged
      · rfl
      · exact h other changed hother hslots
    · obtain ⟨rfl, -⟩ | ⟨-, hother⟩ := getElem?_set_cases hchanged
      · exact ⟨group, hgroup, hclaimed⟩
      · exact ⟨changed, hother, hclaimed'⟩
  | retire hgroup hended => exact hsame (by rw [hshut.unregister])

end Registry

namespace Committer

variable {label : String} {settings : Settings} {scheme : KeyScheme}
  {slotBytes : Nat} {unstartable : Option (Sweeper × String)} {start : Committer ν ε}

/-! ## A committer that is closed -/

/-- A committer that accepts nothing, and that sweeps and further shutdowns do not change. -/
structure Idle (committer : Committer ν ε) : Prop where
  shut : committer.registry.Shut
  reserve : ∀ now child, committer.reserve now child = (some (.error .closed), committer)
  store : ∀ fullKey value, committer.store fullKey value = (.error .closed, committer)
  remove : ∀ fullKey, committer.remove fullKey = (.error .closed, committer)
  stageOf? : ∀ fullKey, committer.registry.stageOf? fullKey = none
  sweep : ∀ sweeper now, committer.sweep now sweeper = committer
  close : committer.close = committer

/-- A committer with a registry that was closed is idle. -/
theorem idle_of_shut {committer : Committer ν ε} (h : committer.registry.Shut) :
    committer.Idle where
  shut := h
  reserve := fun now child => by
    rw [Committer.reserve, h.reserve]
    exact congrArg _ (committer.absorb_same _)
  store := fun fullKey value => by
    rw [Committer.store, h.store]
    exact congrArg _ (committer.absorb_same _)
  remove := fun fullKey => by
    rw [Committer.remove, h.remove]
    exact congrArg _ (committer.absorb_same _)
  stageOf? := h.stageOf?
  sweep := fun sweeper now => by
    cases sweeper with
    | sizeFix =>
      rw [Committer.sweep, h.fixSizes]
      exact committer.absorb_same ()
    | relocate =>
      rw [Committer.sweep]
      split
      · next hrelocating =>
        rw [h.relocate]
        dsimp only
        rw [committer.absorb_same, ← hrelocating]
      · rfl
    | abort =>
      rw [Committer.sweep, h.abortOld]
      exact committer.absorb_same ()
  close := by rw [Committer.close, if_pos h.closed]

/-- A shutdown leaves callers and emissions as they are, and gives up registered groups. -/
theorem close_of_open {committer : Committer ν ε} (hopen : committer.registry.closed = false) :
    committer.close.registry.groups = committer.registry.close.registry.groups ∧
      committer.close.registry.closed = true ∧ committer.close.callers = committer.callers := by
  obtain ⟨journal, counters, heq⟩ := committer.close_eq hopen
  rw [heq]
  exact ⟨rfl, (Registry.shut_close committer.registry counters).closed, rfl⟩

/-- Nothing is registered after a shutdown, and in any later state. -/
theorem shut_of_close (hstart : (launch label settings scheme slotBytes unstartable).1 = .ok start)
    (before after : List (Action ν ε)) :
    (start.run (before ++ .close :: after)).registry.Shut := by
  induction after using List.reverseRecOn with
  | nil =>
    refine shut_of_closed hstart _ ?_
    rw [run_append]
    show (start.run before).close.registry.closed = true
    cases hclosed : (start.run before).registry.closed with
    | true => rw [close, if_pos hclosed, hclosed]
    | false => exact (close_of_open hclosed).2.1
  | append_singleton after action ih =>
    have hs : Staffed (start.run (before ++ .close :: after)) := (Staffed.launch hstart).run _
    rw [← List.cons_append, ← List.append_assoc, run_append]
    exact ih.deed (hs.deed action)

/-! ## Those who are left -/

/-- A group with slots is given up by a shutdown, unless its emission was claimed or it has
ended. -/
theorem group_of_close {committer : Committer ν ε} (henrolled : committer.registry.Enrolled)
    (hopen : committer.registry.closed = false) {id : Nat} {group : Group ν}
    (hgroup : committer.registry.groups[id]? = some group) (hslots : group.slots ≠ []) :
    committer.close.registry.groups[id]? = some (group.abort .closed) := by
  rw [(close_of_open hopen).1, Registry.groups_close]
  split
  · rw [hgroup, Option.map_some]
  · next hid =>
    have hsealed := henrolled.sealed_close hopen id group
      (by rw [Registry.groups_close, if_neg hid, hgroup]) hslots
    rw [hgroup, Group.abort_of_not_isAbortable hsealed]

/-- No group is claimed after a shutdown that was not claimed before. -/
theorem noneClaimed_of_close {committer : Committer ν ε} (hs : Staffed committer)
    (henrolled : committer.registry.Enrolled) (hopen : committer.registry.closed = false)
    (after : List (Action ν ε)) :
    Registry.NoneClaimed committer.registry (committer.close.run after).registry := by
  suffices h : (committer.close.run after).registry.Shut ∧
      (committer.close.run after).registry.Sealed ∧
        Registry.NoneClaimed committer.registry (committer.close.run after).registry from h.2.2
  have hstaffed : Staffed committer.close := hs.step .close
  induction after using List.reverseRecOn with
  | nil =>
    rw [run_nil]
    obtain ⟨journal, counters, heq⟩ := committer.close_eq hopen
    refine ⟨by rw [heq]; exact Registry.shut_close _ _, ?_, ?_⟩
    · rw [Registry.Sealed, (close_of_open hopen).1]
      exact henrolled.sealed_close hopen
    · intro id changed hchanged hclaimed
      rw [(close_of_open hopen).1, Registry.groups_close] at hchanged
      split at hchanged
      · obtain ⟨group, hgroup, rfl⟩ := Option.map_eq_some_iff.mp hchanged
        exact ⟨group, hgroup, by rwa [Group.abort_claimed] at hclaimed⟩
      · exact ⟨changed, hchanged, hclaimed⟩
  | append_singleton after action ih =>
    obtain ⟨hshut, hsealed, hclaimed⟩ := ih
    have hrun : Staffed (committer.close.run after) := hstaffed.run after
    obtain ⟨hsealed', hclaimed'⟩ := hsealed.deed hshut
      (fun id group hgroup => (hrun.attended id group hgroup).coherent) (hrun.deed action)
    rw [run_append]
    refine ⟨hshut.deed (hrun.deed action), hsealed', fun id changed hchanged hdone => ?_⟩
    obtain ⟨group, hgroup, hbefore⟩ := hclaimed' id changed hchanged hdone
    exact hclaimed id group hgroup hbefore

/-- How the callers of a group end that are left at a shutdown: with the outcome of the group if it
had ended, with what the emission says if that was claimed, and as closed otherwise. -/
def Dismisses (group : Group ν) (emissions : Array (Emission ν)) (id : Nat) (verdict : Verdict) :
    Prop :=
  if group.stage.isTerminal then group.outcome = some verdict
  else if group.claimed then Settles emissions id verdict
  else verdict = .error .closed

/-- What a caller returns after a shutdown is what its group dismisses it with. -/
theorem dismissed_of_returned {committer : Committer ν ε} (hs : Staffed committer)
    (ha : Accounted committer) {id : Nat} {group : Group ν} {verdict : Verdict}
    (hcoherent : group.Coherent)
    (hgroup : committer.registry.groups[id]? = some (group.abort .closed))
    (after : List (Action ν ε)) {n : Nat}
    (hreturned : (committer.run after).InPhase id n (.returned verdict)) :
    Dismisses group (committer.run after).emissions id verdict := by
  obtain ⟨caller, hcaller, hid, hphase⟩ := hreturned
  have houtcome : ∀ {last : Group ν}, (committer.run after).registry.groups[id]? = some last →
      last.outcome = some verdict := by
    intro last hlast
    have hfits := ((hs.run after).attended id last hlast).fits n caller hcaller hid
    rwa [hphase] at hfits
  rw [Dismisses]
  cases hended : group.stage.isTerminal with
  | true =>
    have hnot := Group.not_abortable_of_isTerminal hended
    rw [Group.abort_of_not_isAbortable hnot] at hgroup
    exact houtcome (ended_stays hs after hgroup hended)
  | false =>
    rw [if_neg (by decide)]
    cases hclaimed : group.claimed with
    | true =>
      have hready : group.stage = .ready := by
        refine (hcoherent.claim hclaimed).resolve_right fun hdone => ?_
        rw [hdone] at hended
        contradiction
      have hnot := Group.not_abortable_of_claimed hcoherent hclaimed
      rw [Group.abort_of_not_isAbortable hnot] at hgroup
      obtain ⟨last, hlast, hemitting⟩ :=
        group_stays hs (fun _ _ hnext h => hnext.isEmitting h) after hgroup
          (.inl ⟨hready, hclaimed⟩)
      have hover := ((hs.run after).attended id last hlast).coherent.isTerminal (houtcome hlast)
      have hdone : last.stage = .done := hemitting.resolve_left fun h => by
        rw [h.1] at hover
        contradiction
      exact (ha.run hs after).outcome id last verdict hlast hdone (houtcome hlast)
    | false =>
      have habort := Group.isAbortable_of_unclaimed hended hclaimed
      rw [Group.abort_of_isAbortable habort] at hgroup
      exact (Option.some.inj (houtcome (ended_stays hs after hgroup rfl))).symm

/-- A shutdown dismisses every caller, and in a fair run after it every caller returns. -/
theorem callers_dismissed {committer : Committer ν ε} (hs : Staffed committer)
    (ha : Accounted committer) (henrolled : committer.registry.Enrolled)
    (hopen : committer.registry.closed = false) {n : Nat} {caller : Caller ν}
    (hcaller : committer.callers[n]? = some caller) :
    ∃ group, committer.registry.groups[caller.group]? = some group ∧
      (∀ (after : List (Action ν ε)) (verdict : Verdict),
        (committer.close.run after).phase? n = some (.returned verdict) →
        Dismisses group (committer.close.run after).emissions caller.group verdict) ∧
      ∀ schedule, Fair committer.close schedule → ∃ time verdict,
        (committer.close.follow schedule time).phase? n = some (.returned verdict) ∧
          Dismisses group (committer.close.follow schedule time).emissions caller.group
            verdict := by
  obtain ⟨group, hgroup⟩ : ∃ group, committer.registry.groups[caller.group]? = some group :=
    ⟨_, Array.getElem?_eq_getElem (hs.known n caller hcaller)⟩
  have hattended := hs.attended caller.group group hgroup
  obtain ⟨slot, hslot, -⟩ := hattended.seated n caller hcaller rfl
  have hclosed := group_of_close henrolled hopen hgroup (List.ne_nil_of_mem hslot)
  have hs' : Staffed committer.close := hs.step .close
  have ha' : Accounted committer.close := ha.step hs .close
  have hcaller' : committer.close.callers[n]? = some caller := by
    rw [(close_of_open hopen).2.2, hcaller]
  have hdismissed : ∀ (after : List (Action ν ε)) (verdict : Verdict),
      (committer.close.run after).phase? n = some (.returned verdict) →
      Dismisses group (committer.close.run after).emissions caller.group verdict := by
    intro after verdict hreturned
    obtain ⟨last, hlast, hphase⟩ := Option.map_eq_some_iff.mp hreturned
    obtain ⟨same, hsame, hid, -⟩ := caller_stays hs' after hcaller'
    obtain rfl := Option.some.inj (hsame.symm.trans hlast)
    exact dismissed_of_returned hs' ha' hattended.coherent hclosed after
      ⟨same, hlast, hid, hphase⟩
  refine ⟨group, hgroup, hdismissed, fun schedule hfair => ?_⟩
  have hover := Group.over_of_not_isAbortable (group.isAbortable_abort .closed)
  have hclosed' : (committer.close.follow schedule 0).registry.groups[caller.group]? =
      some (group.abort .closed) := hclosed
  obtain ⟨time, verdict, -, hreturned⟩ :=
    hfair.returns hs' ha' hclosed' hover ⟨caller, hcaller', rfl, rfl⟩
  exact ⟨time, verdict, hreturned.phase?, hdismissed _ verdict hreturned.phase?⟩

/-- After a shutdown, whatever steps follow, the committer is idle: its tables are empty, it accepts
nothing, and sweeps and further shutdowns change nothing.

The first shutdown dismisses everybody who has called, wherever they stand: with the outcome of
their group if it had ended, with the result of its emission if that was claimed, and as closed
otherwise. That is what they return, if they do; and in every infinite run in which nobody is passed
over for ever, so that emitters come back, they do return. All emissions that there ever are belong
to groups that were claimed before. -/
theorem closed_for_good
    (hstart : (launch label settings scheme slotBytes unstartable).1 = .ok start)
    (before : List (Action ν ε)) :
    (∀ after : List (Action ν ε), (start.run (before ++ .close :: after)).Idle) ∧
    (scheme.separator.isDigit = false → (start.run before).registry.issued ≤ scheme.cycle →
      (start.run before).registry.closed = false →
      (∀ (n : Nat) (caller : Caller ν), (start.run before).callers[n]? = some caller →
        ∃ group, (start.run before).registry.groups[caller.group]? = some group ∧
          (∀ (after : List (Action ν ε)) (verdict : Verdict),
            (start.run (before ++ .close :: after)).phase? n = some (.returned verdict) →
            Dismisses group (start.run (before ++ .close :: after)).emissions caller.group
              verdict) ∧
          ∀ schedule, Fair (start.run (before ++ [.close])) schedule → ∃ time verdict,
            ((start.run (before ++ [.close])).follow schedule time).phase? n =
                some (.returned verdict) ∧
              Dismisses group ((start.run (before ++ [.close])).follow schedule time).emissions
                caller.group verdict) ∧
      ∀ (after : List (Action ν ε)) (m : Nat) (emission : Emission ν),
        (start.run (before ++ .close :: after)).emissions[m]? = some emission →
        ∃ group, (start.run before).registry.groups[emission.group]? = some group ∧
          group.claimed = true) := by
  refine ⟨fun after => idle_of_shut (shut_of_close hstart before after),
    fun hseparator hissued hopen => ?_⟩
  have hs : Staffed (start.run before) := (Staffed.launch hstart).run before
  have ha : Accounted (start.run before) := accounted_run hstart before
  have henrolled := enrolled_run hstart hseparator before hissued
  have hrun : ∀ after : List (Action ν ε),
      start.run (before ++ .close :: after) = (start.run before).close.run after := by
    intro after
    rw [run_append]
    rfl
  refine ⟨fun n caller hcaller => ?_, fun after m emission hemission => ?_⟩
  · simp only [hrun]
    exact callers_dismissed hs ha henrolled hopen hcaller
  · rw [hrun] at hemission
    have hlater := (ha.step hs .close).run (hs.step .close) after
    obtain ⟨group, hgroup, hclaimed, -⟩ := hlater.emission m emission hemission
    exact noneClaimed_of_close hs henrolled hopen after emission.group group hgroup hclaimed

/-- A caller that waits for the value of another slot returns as closed at some time, if nobody is
passed over. -/
theorem dismissed_of_pair :
    ((launch "pairs" { Settings.default with slotCapacity := 2 } {} 72 none).1 = .ok pairs ∧
      ({} : KeyScheme).separator.isDigit = false ∧
      (pairs.run [.reserve 0 "a", .reserve 0 "b", .store "0000:a" 1]).registry.issued ≤
        ({} : KeyScheme).cycle ∧
      (pairs.run [.reserve 0 "a", .reserve 0 "b", .store "0000:a" 1]).registry.closed = false) ∧
    ∃ time, ((pairs.run [.reserve 0 "a", .reserve 0 "b", .store "0000:a" 1, .close]).follow
      roundRobin time).phase? 0 = some (.returned (.error .closed)) := by
  have hstart : (launch "pairs" { Settings.default with slotCapacity := 2 } {} 72 none).1 =
      .ok pairs := rfl
  have hseparator : ({} : KeyScheme).separator.isDigit = false := by decide
  have hissued : (pairs.run [.reserve 0 "a", .reserve 0 "b", .store "0000:a" 1]).registry.issued ≤
      ({} : KeyScheme).cycle := by decide +kernel
  have hopen : (pairs.run [.reserve 0 "a", .reserve 0 "b",
      .store "0000:a" 1]).registry.closed = false := by decide +kernel
  refine ⟨⟨hstart, hseparator, hissued, hopen⟩, ?_⟩
  obtain ⟨group, hgroup, -, hfair⟩ := ((closed_for_good hstart _).2 hseparator hissued hopen).1 0
    { group := 0, fullKey := "0000:a" } (by decide +kernel)
  obtain ⟨time, verdict, hreturned, hdismissed⟩ := hfair roundRobin (fair_roundRobin _)
  have hstage : group.stage = .sizeFixed := by
    rw [← Option.some.inj hgroup]
    rfl
  have hclaimed : group.claimed = false := by
    rw [← Option.some.inj hgroup]
    rfl
  have hverdict : verdict = .error .closed := by
    simpa [Dismisses, hstage, hclaimed, Stage.isTerminal] using hdismissed
  exact ⟨time, hverdict ▸ hreturned⟩

end Committer

end BatchedCommit
