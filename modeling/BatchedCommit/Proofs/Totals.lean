import Mathlib.Data.Nat.Factorization.Basic
import BatchedCommit.Proofs.Commits
import BatchedCommit.Proofs.Reports
import BatchedCommit.Simulation.Schedule

/-!
# BatchedCommit.Proofs.Totals

What the report of a simulation says when every worker has made its commits
(`Simulation.Report.Totals`). How the commits fall into groups, which slots are moved, which groups
are aborted, and which commits fail depends on the order of the moves; the totals do not.
-/

namespace BatchedCommit

namespace Simulation

variable {label : String} {settings : Settings} {scheme : KeyScheme}
  {slotBytes : Nat}
  {unstartable : Option (Sweeper × String)} {committer : Committer Nat Unit} {options : Options}
  {simulation later : Simulation}

/-! ## What holds at every moment -/

/-- What is known of a simulation that began with a given committer. -/
structure Sound (committer : Committer Nat Unit) (scheme : KeyScheme) (options : Options)
    (simulation : Simulation) : Prop where
  asked : simulation.options = options
  led : Led committer simulation
  undisturbed : Undisturbed simulation
  rostered : Rostered simulation
  stocked : Stocked simulation
  watched : Watched simulation
  tended : Tended scheme simulation
  numbered : Numbered simulation

namespace Sound

theorem start
    (hlaunch : (Committer.launch label settings scheme slotBytes unstartable).1 = .ok committer)
    (options : Options) : Sound committer scheme options (start options committer) := by
  obtain ⟨-, hregistry, hcallers, -, hemissions, -⟩ := Committer.launch_eq_ok hlaunch
  have hempty : (Simulation.start options committer).committer.registry =
      .empty settings scheme slotBytes :=
    hregistry
  have hnone : ∀ (id : Nat) (group : Group Nat),
      (Simulation.start options committer).committer.registry.groups[id]? ≠ some group := by
    intro id group hgroup
    rw [hempty] at hgroup
    contradiction
  have hbegun : tally Worker.begun (Simulation.start options committer).workers = 0 := by
    refine tally_zero fun n worker hworker => ?_
    obtain ⟨hlt, rfl⟩ := Array.getElem?_eq_some_iff.mp hworker
    simp [Simulation.start, Worker.begun]
  have hbroken : tally (ones Worker.isBroken) (Simulation.start options committer).workers = 0 := by
    refine tally_zero fun n worker hworker => ?_
    obtain ⟨hlt, rfl⟩ := Array.getElem?_eq_some_iff.mp hworker
    simp [Simulation.start, within, Worker.isBroken]
  refine ⟨rfl, .start options committer, ⟨?_, ?_, ?_⟩, .start options committer, ⟨?_, ?_, ?_⟩,
    .start options hcallers, ?_, ?_⟩
  · rw [hempty]
    rfl
  · rw [hempty]
    rfl
  · rw [hempty]
    rfl
  · rw [hempty, hbegun, hbroken]
    rfl
  · rw [hempty, hbroken]
    rfl
  · rintro child ⟨id, group, hgroup, -⟩
    exact absurd hgroup (hnone id group)
  · rintro - fullKey ⟨id, group, hgroup, -⟩
    exact absurd hgroup (hnone id group)
  · intro m emission answer hemission
    change committer.emissions[m]? = some emission at hemission
    rw [hemissions] at hemission
    contradiction

theorem next
    (hlaunch : (Committer.launch label settings scheme slotBytes unstartable).1 = .ok committer)
    (hseparator : scheme.separator.isDigit = false)
    (h : Sound committer scheme options simulation) (hnext : Next simulation later) :
    Sound committer scheme options later where
  asked := hnext.options_eq.trans h.asked
  led := h.led.next hnext
  undisturbed := h.undisturbed.next hlaunch h.led hnext
  rostered := h.rostered.next hnext
  stocked := h.stocked.next hlaunch h.led h.undisturbed hnext
  watched := h.watched.next hlaunch h.led hnext
  tended := h.tended.next hlaunch h.led hseparator h.undisturbed hnext
  numbered := h.numbered.next (h.led.staffed hlaunch) hnext

end Sound

/-- Whatever moves are made, and in whatever order. -/
theorem sound_run
    (hlaunch : (Committer.launch label settings scheme slotBytes unstartable).1 = .ok committer)
    (hseparator : scheme.separator.isDigit = false) (options : Options) (moves : List Move) :
    Sound committer scheme options ((start options committer).run moves) := by
  induction moves using List.reverseRecOn with
  | nil => exact .start hlaunch options
  | append_singleton moves move ih =>
    rw [run_append]
    exact ih.next hlaunch hseparator (next_step _ move)

/-! ## What holds at the end -/

namespace Sound

variable (hlaunch : (Committer.launch label settings scheme slotBytes unstartable).1 =
  .ok committer)
  (h : Sound committer scheme options simulation)

section Idle

variable (hidle : ∀ (n : Nat) (activity : Activity), activity ≠ .reserving →
  ¬ Does simulation n activity)

include h hidle

/-- While no worker is in the middle of a commit, every call has returned. -/
theorem allReturned_of_idle : simulation.committer.AllReturned := by
  intro m caller hcaller
  have hphase : simulation.committer.phase? m = some caller.phase := by
    rw [Committer.phase?, hcaller, Option.map_some]
  obtain ⟨verdict, hreturned⟩ | ⟨n, hwaits⟩ := h.watched.covered m (Committer.lt_of_phase? hphase)
  · exact ⟨verdict, Option.some.inj (hphase.symm.trans hreturned)⟩
  · exact absurd hwaits (hidle n _ (by simp))

/-- While no worker is in the middle of a commit, no value is missing. -/
theorem not_misses_of_idle (hissued : simulation.committer.registry.issued ≤ scheme.cycle)
    (fullKey : String) : ¬ simulation.committer.registry.Misses fullKey := by
  intro hmisses
  obtain ⟨n, hdoes⟩ := h.tended hissued fullKey hmisses
  exact hidle n _ (by simp) hdoes

end Idle

section Over

variable (hover : simulation.isOver = true)

include h hover

/-- No worker is in the middle of a commit. -/
theorem not_does (n : Nat) (activity : Activity) (hbusy : activity ≠ .reserving) :
    ¬ Does simulation n activity := by
  rintro ⟨worker, hworker, rfl⟩
  rw [h.rostered.worker_of_isOver hover hworker] at hbusy
  exact hbusy rfl

theorem allReturned : simulation.committer.AllReturned :=
  h.allReturned_of_idle (h.not_does hover)

/-- The commits that succeeded are the calls that did. -/
theorem committed_eq : simulation.committed =
    tally (ones fun caller => caller.phase.isSuccess) simulation.committer.callers := by
  obtain ⟨seen, hcard, hseen⟩ := h.watched.noted
  rw [tally_ones, ← hcard]
  congr 1
  ext m
  rw [hseen, Finset.mem_filter, Finset.mem_range, Option.any_eq_true]
  constructor
  · rintro ⟨hphase, -⟩
    obtain ⟨caller, hcaller, hreturned⟩ := Option.map_eq_some_iff.mp hphase
    exact ⟨Committer.lt_of_phase? hphase, caller, hcaller, by rw [hreturned]; rfl⟩
  · rintro ⟨-, caller, hcaller, hsuccess⟩
    obtain ⟨verdict, hreturned⟩ := h.allReturned hover m caller hcaller
    rw [hreturned] at hsuccess
    refine ⟨?_, fun n => h.not_does hover n _ (by simp)⟩
    rw [Committer.phase?, hcaller, Option.map_some, hreturned]
    cases verdict with
    | ok _ => rfl
    | error failure => contradiction

/-- Every commit has reserved one slot. -/
theorem reserved_eq : simulation.committer.registry.counters.get .slotsReserved =
    options.workers * options.commits := by
  have hreserved := h.stocked.reserved
  rwa [h.rostered.broken_of_isOver hover, h.rostered.tally_of_isOver hover fun _ => rfl,
    h.asked] at hreserved

/-- A parent key was taken for each group that was opened, and for nothing else. -/
theorem issued_eq : simulation.committer.registry.issued =
    simulation.committer.registry.counters.get .groupsOpened := by
  rw [h.stocked.issued, h.rostered.broken_of_isOver hover, Nat.add_zero]

include hlaunch

/-- A value was emitted for each commit that succeeded. -/
theorem emitted_eq : simulation.committer.registry.counters.get .valuesEmitted =
    simulation.committed := by
  have hreturned := h.allReturned hover
  rw [h.committed_eq hover]
  obtain ⟨actions, hactions⟩ := h.led
  rw [hactions] at hreturned ⊢
  exact Committer.values_of_allReturned hlaunch hreturned

/-- Every emission was answered and counted. -/
theorem emissions_eq : simulation.committer.emissions.size =
    simulation.committer.registry.counters.get .groupsEmitted +
      simulation.committer.registry.counters.get .emitFailures := by
  have hreturned := h.allReturned hover
  obtain ⟨actions, hactions⟩ := h.led
  rw [hactions] at hreturned ⊢
  exact hreturned.size_emissions (Committer.replied_run hlaunch () actions)

/-- The emissions whose numbers are divided by `k` have failed. -/
theorem failures_eq : simulation.committer.registry.counters.get .emitFailures =
    options.failEvery.elim 0 fun k => simulation.committer.emissions.size / k := by
  have hreturned := h.allReturned hover
  have hnumbered := h.numbered
  rw [Numbered, h.asked] at hnumbered
  obtain ⟨actions, hactions⟩ := h.led
  rw [hactions] at hreturned hnumbered ⊢
  have hreplied := Committer.replied_run hlaunch () actions
  rw [hreplied.failed, tally_ones]
  have hfails : ∀ m ∈ Finset.range (committer.run (.install () :: actions)).emissions.size,
      ((committer.run (.install () :: actions)).emissions[m]?.any Emission.isFailure = true ↔
        fails options.failEvery (m + 1) = true) := by
    intro m hm
    have hemission := Array.getElem?_eq_getElem (Finset.mem_range.mp hm)
    obtain ⟨answer, hanswer⟩ := hreturned.answered hreplied hemission
    have hok := hnumbered m _ answer hemission hanswer
    rw [hemission, Option.any_some, Emission.isFailure, hanswer, Option.any_some, hok, Bool.not_not]
  rw [Finset.filter_congr hfails]
  cases options.failEvery with
  | none => simp [fails]
  | some k =>
    rw [Option.elim_some, ← Nat.card_multiples]
    simp [fails, Nat.dvd_iff_mod_eq_zero]

/-- No group is left alive. -/
theorem groups_eq (hderivable : scheme.Derivable)
    (hissued : simulation.committer.registry.issued ≤ scheme.cycle) :
    simulation.committer.registry.counters.get .groupsOpened +
        simulation.committer.registry.counters.get .slotsRelocated =
      simulation.committer.registry.counters.get .groupsEmitted +
        simulation.committer.registry.counters.get .emitFailures +
        simulation.committer.registry.counters.get .groupsAborted := by
  have hreturned := h.allReturned hover
  have hmisses := h.not_misses_of_idle (h.not_does hover) hissued
  obtain ⟨hopened, -, hdiscarded⟩ := h.undisturbed
  obtain ⟨actions, hactions⟩ := h.led
  rw [hactions] at hreturned hmisses hopened hdiscarded ⊢
  rw [Committer.groups_of_allReturned hlaunch hreturned hopened hmisses
    (Committer.intact_run hlaunch hderivable _).relocating, hdiscarded, Nat.add_zero]

end Over

end Sound

/-- What a report says when every worker has made its commits. -/
structure Report.Totals (options : Options) (report : Report) : Prop where
  /-- Every commit has succeeded or failed. -/
  commits : report.committed + report.failed = options.workers * options.commits
  /-- A slot was reserved for each of them: no reservation is refused. -/
  reserved : report.counters.get .slotsReserved = options.workers * options.commits
  /-- Every emission that began has succeeded or failed. -/
  emissions : report.emissions =
    report.counters.get .groupsEmitted + report.counters.get .emitFailures
  /-- Exactly those have failed whose number is divided by the one asked for. -/
  failures : report.counters.get .emitFailures =
    options.failEvery.elim 0 fun k => report.emissions / k
  /-- The commits whose values were emitted are those that succeeded. -/
  values : report.counters.get .valuesEmitted = report.committed
  removed : report.counters.get .slotsRemoved = 0
  discarded : report.counters.get .groupsDiscarded = 0
  /-- No group is left alive. With more groups than 64 bits can count, the parent keys start again,
  and a new group may take the key over from a live one. -/
  groups : report.counters.get .groupsOpened ≤ UInt64.size →
    report.counters.get .groupsOpened + report.counters.get .slotsRelocated =
      report.counters.get .groupsEmitted + report.counters.get .emitFailures +
        report.counters.get .groupsAborted

theorem Sound.totals
    (hlaunch : (Committer.launch label settings {} slotBytes unstartable).1 = .ok committer)
    (h : Sound committer {} options simulation) (hover : simulation.isOver = true)
    (elapsedMillis : Nat) : (simulation.report elapsedMillis).Totals options where
  commits := by
    refine h.rostered.counted.trans ?_
    rw [h.rostered.tally_of_isOver hover fun _ => rfl, h.asked]
  reserved := h.reserved_eq hover
  emissions := h.emissions_eq hlaunch hover
  failures := h.failures_eq hlaunch hover
  values := h.emitted_eq hlaunch hover
  removed := h.undisturbed.removed
  discarded := h.undisturbed.discarded
  groups := fun hopened => h.groups_eq hlaunch hover (KeyScheme.derivable_of_prefixed rfl)
    ((h.issued_eq hover).trans_le hopened)

/-- In whatever order the workers, their callers, the sweepers and the emitter make their moves, and
at whatever times: when every worker has made its commits, the totals are these. -/
theorem totals_of_any_order
    (hlaunch : (Committer.launch label settings {} slotBytes unstartable).1 = .ok committer)
    (options : Options) (moves : List Move)
    (hover : ((start options committer).run moves).isOver = true) (elapsedMillis : Nat) :
    (((start options committer).run moves).report elapsedMillis).Totals options :=
  (sound_run hlaunch (by decide) options moves).totals hlaunch hover elapsedMillis

/-- Two workers with two commits each, for whom every second emission fails. -/
def twoByTwo : Options where
  workers := 2
  commits := 2
  emitDelay := 0
  failEvery := some 2

/-- The first commits of the workers are emitted together. The second ones are moved apart: one
emission fails, and the other group is aborted before its value comes. -/
def crossing : List Move :=
  [.reserve 0 0, .reserve 1 0, .store 1, .store 0, .look 1, .look 0, .begin 1, .complete 1,
    .conclude 1, .announce 1, .leave 1, .collect 0, .look 0, .collect 1, .reserve 0 0, .reserve 1 0,
    .store 0, .sweep .relocate 5000, .look 2, .begin 2, .complete 2, .conclude 2, .announce 2,
    .leave 2, .collect 0, .sweep .abort 1000000, .store 1]

theorem totals_of_crossing :
    ((Committer.launch "pairs" { Settings.default with slotCapacity := 2 } {} 72 none).1 =
        .ok Committer.pairs ∧
      ((start twoByTwo Committer.pairs).run crossing).isOver = true ∧
      (((start twoByTwo Committer.pairs).run crossing).report 0).counters.get .groupsOpened ≤
        UInt64.size) ∧
    (((start twoByTwo Committer.pairs).run crossing).report 0).Totals twoByTwo ∧
    ((start twoByTwo Committer.pairs).run crossing).report 0 =
      { workers := 2, commitsPerWorker := 2, committed := 2, failed := 2, emissions := 2,
        elapsedMillis := 0,
        counters := {
          groupsOpened := 2, slotsReserved := 4, slotsRelocated := 1, groupsEmitted := 1,
          valuesEmitted := 2, emitFailures := 1, groupsAborted := 1 } } := by
  have hlaunch : (Committer.launch "pairs" { Settings.default with slotCapacity := 2 } {} 72
      none).1 = .ok Committer.pairs := rfl
  have hover : ((start twoByTwo Committer.pairs).run crossing).isOver = true := by decide +kernel
  exact ⟨⟨hlaunch, hover, by decide +kernel⟩,
    totals_of_any_order hlaunch twoByTwo crossing hover 0, by decide +kernel⟩

/-! ## The simulation that is run -/

namespace Timeline

/-- One timeline goes on to another one by moves. -/
def Leads (timeline later : Timeline) : Prop :=
  ∃ moves, later.simulation = timeline.simulation.run moves

variable {timeline middle final : Timeline}

theorem Leads.refl (timeline : Timeline) : timeline.Leads timeline := ⟨[], rfl⟩

theorem Leads.trans (h : timeline.Leads middle) (h' : middle.Leads final) :
    timeline.Leads final := by
  obtain ⟨first, hfirst⟩ := h
  obtain ⟨second, hsecond⟩ := h'
  exact ⟨first ++ second, by rw [hsecond, hfirst, run_append]⟩

theorem leads_make (timeline : Timeline) (move : Move) : timeline.Leads (timeline.make move) :=
  ⟨[move], by cases move <;> rfl⟩

theorem leads_settle (fuel : Nat) (timeline : Timeline) :
    timeline.Leads (timeline.settle fuel) := by
  induction fuel generalizing timeline with
  | zero => exact .refl timeline
  | succ fuel ih =>
    rw [settle]
    split
    · exact .refl timeline
    · next move _ => exact (leads_make timeline move).trans (ih _)

theorem leads_pass (fuel : Nat) (timeline : Timeline) : timeline.Leads (timeline.pass fuel) := by
  have hreached : ∀ now, timeline.Leads ({ timeline with now }.settle fuel) := fun now =>
    leads_settle fuel { timeline with now }
  rw [pass]
  split
  · exact Registry.foldl_keep (P := timeline.Leads) _ (fun state sweeper _ h =>
      h.trans ((leads_make state _).trans (leads_settle fuel _))) (hreached _)
  · exact hreached _

theorem leads_finish (fuel instants : Nat) (timeline : Timeline) :
    timeline.Leads (timeline.finish fuel instants) := by
  induction instants generalizing timeline with
  | zero => exact .refl timeline
  | succ instants ih =>
    rw [finish]
    split
    · exact .refl timeline
    · exact (leads_pass fuel timeline).trans (ih _)

end Timeline

/-- A simulation that is run makes its moves in one of the orders. -/
theorem report_of_simulate {report : Report} {events : List Event}
    (h : simulate settings options = .ok (report, events)) : ∃ committer moves,
      (Committer.launch "simulate" settings {} Simulation.slotBytes none).1 = .ok committer ∧
        report = ((start options committer).run moves).report report.elapsedMillis ∧
        events = ((start options committer).run moves).committer.close.journal.toList := by
  rw [simulate] at h
  split at h
  · contradiction
  · split at h
    · contradiction
    · next committer hlaunch =>
      obtain ⟨moves, hmoves⟩ := (Timeline.leads_settle options.moves
        { simulation := start options committer }).trans
          (Timeline.leads_finish options.moves (options.instants settings) _)
      dsimp only at h
      split at h
      · contradiction
      · obtain ⟨rfl, rfl⟩ := Prod.mk.inj (Except.ok.inj h)
        exact ⟨committer, moves, hlaunch, by rw [hmoves]; rfl, by rw [hmoves]⟩

/-- Its report says whether it has come to its end. -/
theorem isOver_of_report
    (hlaunch : (Committer.launch label settings {} slotBytes unstartable).1 = .ok committer)
    {moves : List Move} {report : Report}
    (hreport : report = ((start options committer).run moves).report report.elapsedMillis)
    (hall : report.committed + report.failed = options.workers * options.commits) :
    ((start options committer).run moves).isOver = true := by
  have hsound := sound_run hlaunch (by decide) options moves
  refine hsound.rostered.isOver_of_counted ?_
  rw [hsound.asked, ← hall, hreport]
  rfl

/-- If it has, its report says the same. -/
theorem totals_of_simulate {report : Report} {events : List Event}
    (h : simulate settings options = .ok (report, events))
    (hall : report.committed + report.failed = options.workers * options.commits) :
    report.Totals options := by
  obtain ⟨committer, moves, hlaunch, hreport, -⟩ := report_of_simulate h
  have hover := isOver_of_report hlaunch hreport hall
  rw [hreport]
  exact (sound_run hlaunch (by decide) options moves).totals hlaunch hover _

end Simulation

end BatchedCommit
