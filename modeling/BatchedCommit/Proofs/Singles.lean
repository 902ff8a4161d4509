import BatchedCommit.Proofs.Reports
import BatchedCommit.Proofs.Totals

/-!
# BatchedCommit.Proofs.Singles

A simulation in which every commit has a group of its own. That is so where a group has room for
one slot, and where there is one worker: it waits for the outcome of a commit before it begins the
next one, and by then no group is open (`current_eq_none`). A group with one slot is never held
back, so no slot is moved (`Registry.Single`).

Every move keeps it so (`single_run`). When every worker has made its commits, the counters, the
emissions and the errors that were reported can be told from what was asked for (`Alone`), up to the
groups that were aborted; without those, everything can (`Calm`).
-/

namespace BatchedCommit

open BatchedCommit.Group (slotCount isEmitted)

variable {ν ε : Type}

/-! ## Groups with one slot -/

namespace Registry

variable {registry later : Registry ν} {action : Action ν ε}

/-- Every group has one slot, and no slot was moved. -/
structure Single (registry : Registry ν) : Prop where
  slots : ∀ (id : Nat) (group : Group ν), registry.groups[id]? = some group → group.slotCount = 1
  still : registry.counters.get .slotsRelocated = 0

namespace Single

theorem empty (settings : Settings) (scheme : KeyScheme) (slotBytes : Nat) :
    (Registry.empty settings scheme slotBytes : Registry ν).Single where
  slots := fun id group hgroup => by simp [Registry.empty] at hgroup
  still := rfl

/-- A group is replaced by one with as many slots. -/
theorem set (h : registry.Single) {id : Nat} {group changed : Group ν} {counters : Counters}
    (hgroup : registry.groups[id]? = some group) (hslots : changed.slotCount = group.slotCount)
    (hposts : Posts later (registry.groups.setIfInBounds id changed) counters)
    (hstill : counters.get .slotsRelocated = 0) : later.Single where
  slots := fun other own hown => by
    rw [hposts.groups, Array.getElem?_setIfInBounds] at hown
    split at hown
    · split at hown
      · rw [← Option.some.inj hown, hslots]
        exact h.slots id group hgroup
      · contradiction
    · exact h.slots other own hown
  still := by rw [hposts.counters, hstill]

/-- No group changes. -/
theorem frame (h : registry.Single) {counters : Counters}
    (hposts : Posts later registry.groups counters)
    (hstill : counters.get .slotsRelocated = 0) : later.Single where
  slots := fun id group hgroup => h.slots id group (by rwa [hposts.groups] at hgroup)
  still := by rw [hposts.counters, hstill]

end Single

/-- Whatever is neither a reservation nor a removal leaves every group its slot: a group with one
slot cannot lose it to a sweep, for another one would have to be ready in it. -/
theorem Entry.single (h : Entry true registry action later) (hsingle : registry.Single)
    (hreserve : ∀ now child, action ≠ .reserve now child)
    (hremove : ∀ fullKey, action ≠ .remove fullKey) : later.Single := by
  have hstill := hsingle.still
  cases h with
  | frame hposts => exact hsingle.frame hposts hstill
  | alter hgroup _ _ hslots hposts => exact hsingle.set hgroup hslots hposts hstill
  | reserve => exact absurd rfl (hreserve _ _)
  | opened => exact absurd rfl (hreserve _ _)
  | remove => exact absurd rfl (hremove _)
  | discard => exact absurd rfl (hremove _)
  | @relieve _ _ id group changed made hgroup _ _ hsome _ hslots hposts =>
    have hone := hsingle.slots id group hgroup
    obtain rfl : made = #[] := Array.eq_empty_of_size_eq_zero (by omega)
    refine hsingle.set hgroup (by simpa using hslots) ⟨?_, hposts.counters⟩ ?_
    · rw [hposts.groups, Array.append_empty]
    · simpa [Counters.add_zero] using hstill
  | lose hsound _ _ _ => contradiction
  | expire hgroup _ _ hposts =>
    refine hsingle.set hgroup ?_ hposts hstill
    rw [slotCount, slots_abort, slotCount]
  | abandon hgroup _ _ hposts =>
    refine hsingle.set hgroup ?_ hposts hstill
    rw [slotCount, slots_abort, slotCount]
  | panic hposts => exact hsingle.frame hposts hstill
  | finish hgroup _ _ hposts =>
    refine hsingle.set hgroup ?_ hposts hstill
    rfl
  | emitted hposts => exact hsingle.frame hposts hstill
  | failed hposts => exact hsingle.frame hposts hstill
  | missing hposts => exact hsingle.frame hposts hstill

theorem Entries.single (h : Entries true action registry later) (hsingle : registry.Single)
    (hreserve : ∀ now child, action ≠ .reserve now child)
    (hremove : ∀ fullKey, action ≠ .remove fullKey) : later.Single := by
  induction h with
  | refl => exact hsingle
  | tail _ hentry ih => exact hentry.single ih hreserve hremove

/-- A reservation for which no group is open founds one. -/
theorem Single.place {capacity : Nat} {child fullKey : String} (h : registry.Single)
    (hcurrent : registry.current = none)
    (hplaced : registry.Placed later capacity child fullKey)
    (hstill : later.counters.get .slotsRelocated = registry.counters.get .slotsRelocated) :
    later.Single where
  slots := fun other own hown => by
    cases hplaced with
    | joined hjoined => rw [hcurrent] at hjoined; contradiction
    | @founded id changed _ _ hchanged _ hslots hothers =>
      by_cases hother : other = id
      · rw [hother, hchanged] at hown
        rw [← Option.some.inj hown, slotCount, hslots]
        rfl
      · rw [hothers other hother] at hown
        exact h.slots other own hown
  still := by rw [hstill, h.still]

end Registry

namespace Simulation

variable {label : String} {settings : Settings} {scheme : KeyScheme}
  {slotBytes : Nat}
  {unstartable : Option (Sweeper × String)} {committer : Committer Nat Unit} {options : Options}
  {simulation later : Simulation}

/-! ## No group is open for a second slot -/

/-- There is one worker, or room for one slot. -/
def KeepsApart (settings : Settings) (options : Options) : Prop :=
  options.workers = 1 ∨ settings.slotCapacity = 1

/-- Where groups have room for one slot, none stays open. -/
theorem current_of_capacity (h : Led committer simulation)
    (hlaunch : (Committer.launch label settings scheme slotBytes unstartable).1 = .ok committer)
    (hcapacity : settings.slotCapacity = 1) : simulation.committer.registry.current = none := by
  have hsteered := h.steered hlaunch
  have hindexed := h.indexed hlaunch
  cases hcurrent : simulation.committer.registry.current with
  | none => rfl
  | some id =>
    obtain ⟨group, hgroup, hopen, hfind⟩ := hsteered.listed id hcurrent
    obtain ⟨same, hsame, hslots, -⟩ := hindexed.of_registered (.inl ⟨_, hfind⟩)
    obtain rfl := Option.some.inj (hgroup.symm.trans hsame)
    have hroom : group.slots.length < settings.slotCapacity.toNat := by
      obtain ⟨actions, hactions⟩ := h
      rw [hactions] at hgroup
      exact Committer.room_of_opened hlaunch _ hgroup hopen
    rw [hcapacity] at hroom
    exact absurd (List.length_eq_zero_iff.mp (Nat.lt_one_iff.mp hroom)) hslots

/-- A worker that is alone, and about to reserve a slot, has no commit under way, so no group is
open. -/
theorem current_of_worker
    (hlaunch : (Committer.launch label settings scheme slotBytes unstartable).1 = .ok committer)
    (h : Sound committer scheme options simulation) (hworkers : options.workers = 1)
    (hissued : simulation.committer.registry.issued ≤ scheme.cycle) {number finished : Nat}
    (hworker : simulation.workers[number]? = some { finished, activity := .reserving }) :
    simulation.committer.registry.current = none := by
  have hsize : simulation.workers.size = 1 := by rw [h.rostered.size, h.asked, hworkers]
  have hidle : ∀ (n : Nat) (activity : Activity), activity ≠ .reserving →
      ¬ Does simulation n activity := by
    rintro n activity hbusy ⟨worker, hn, rfl⟩
    obtain rfl : n = number := by
      have hlt := (Array.getElem?_eq_some_iff.mp hn).1
      have hlt' := (Array.getElem?_eq_some_iff.mp hworker).1
      omega
    rw [← Option.some.inj (hworker.symm.trans hn)] at hbusy
    exact hbusy rfl
  cases hcurrent : simulation.committer.registry.current with
  | none => rfl
  | some id =>
    obtain ⟨group, hgroup, hopen, hfind⟩ := (h.led.steered hlaunch).listed id hcurrent
    obtain ⟨same, hsame, hslots, -⟩ := (h.led.indexed hlaunch).of_registered (.inl ⟨_, hfind⟩)
    obtain rfl := Option.some.inj (hgroup.symm.trans hsame)
    have hunderway : group.isUnderway = true := by
      simp [Group.isUnderway, hslots, hopen, Stage.isTerminal]
    obtain ⟨fullKey, hmisses⟩ := (h.allReturned_of_idle hidle).misses_of_underway
      (h.led.staffed hlaunch) hgroup hunderway
    exact absurd hmisses (h.not_misses_of_idle hidle hissued fullKey)

theorem current_eq_none
    (hlaunch : (Committer.launch label settings scheme slotBytes unstartable).1 = .ok committer)
    (h : Sound committer scheme options simulation) (hapart : KeepsApart settings options)
    (hissued : simulation.committer.registry.issued ≤ scheme.cycle) {number finished : Nat}
    (hworker : simulation.workers[number]? = some { finished, activity := .reserving }) :
    simulation.committer.registry.current = none := by
  obtain hworkers | hcapacity := hapart
  · exact current_of_worker hlaunch h hworkers hissued hworker
  · exact current_of_capacity h.led hlaunch hcapacity

/-! ## Every group has one slot -/

/-- Where there are all emit keys, no sweep breaks down. -/
theorem Led.sound_entries (h : Led committer simulation)
    (hlaunch : (Committer.launch label settings scheme slotBytes unstartable).1 = .ok committer)
    (hderivable : scheme.Derivable) (action : Action Nat Unit) :
    Registry.Entries true action simulation.committer.registry
      (simulation.committer.step action).registry := by
  have hentries := h.entries hlaunch action
  obtain ⟨actions, hactions⟩ := h
  have hintact := Committer.intact_run hlaunch hderivable (.install () :: actions ++ [action])
  rw [Committer.run_append, ← hactions] at hintact
  have hrelocating : (simulation.committer.step action).relocating = true := hintact.relocating
  rwa [hrelocating] at hentries

/-- No move gives a second slot to a group. -/
theorem single_next
    (hlaunch : (Committer.launch label settings scheme slotBytes unstartable).1 = .ok committer)
    (h : Sound committer scheme options simulation) (hapart : KeepsApart settings options)
    (hissued : simulation.committer.registry.issued ≤ scheme.cycle)
    (hderivable : scheme.Derivable)
    (hsingle : simulation.committer.registry.Single) (hnext : Next simulation later) :
    later.committer.registry.Single := by
  cases hnext with
  | idle => exact hsingle
  | act action hbackground _ =>
    refine (h.led.sound_entries hlaunch hderivable action).single hsingle ?_ ?_
    · rintro now child rfl
      contradiction
    · rintro fullKey rfl
      contradiction
  | reserve hworker _ hanswer =>
    refine hsingle.place (current_eq_none hlaunch h hapart hissued hworker)
      (h.led.placed hlaunch hanswer) ?_
    exact (h.led.entries hlaunch (.reserve _ _)).get_counters (by simp [Registry.counted])
  | breakDown _ _ hanswer =>
    rw [setWorker, Simulation.act, Committer.step, Committer.reserve_of_none hanswer]
    exact ⟨hsingle.slots, hsingle.still⟩
  | refuse => exact (committer_count ..).symm ▸ hsingle
  | store =>
    exact (h.led.sound_entries hlaunch hderivable (.store _ _)).single hsingle (by simp) (by simp)
  | lose => exact (committer_count ..).symm ▸ hsingle
  | collect => exact (committer_count ..).symm ▸ hsingle

/-- Workers begin at most the commits that were asked for. -/
theorem Sound.begun_le (h : Sound committer scheme options simulation) :
    tally Worker.begun simulation.workers ≤ options.workers * options.commits := by
  rw [← h.asked, ← h.rostered.size, ← tally_const]
  exact tally_mono h.rostered.bounded

/-- With one slot for each group, there are as many groups as slots were reserved. -/
theorem Sound.opened_eq
    (hlaunch : (Committer.launch label settings scheme slotBytes unstartable).1 = .ok committer)
    (hderivable : scheme.Derivable) (h : Sound committer scheme options simulation)
    (hsingle : simulation.committer.registry.Single) :
    simulation.committer.registry.counters.get .groupsOpened =
      simulation.committer.registry.counters.get .slotsReserved := by
  have hremoved := h.undisturbed.removed
  obtain ⟨actions, hactions⟩ := h.led
  rw [hactions] at hsingle hremoved ⊢
  obtain ⟨hmade, hslots⟩ := Committer.balanced_run hlaunch (.install () :: actions)
    (Committer.intact_run hlaunch hderivable (.install () :: actions)).relocating
  rw [tally_congr slotCount (fun _ => 1) hsingle.slots, tally_one] at hslots
  have hstill := hsingle.still
  omega

/-- No parent key is given to a second group. -/
theorem Sound.issued_le
    (hlaunch : (Committer.launch label settings scheme slotBytes unstartable).1 = .ok committer)
    (hderivable : scheme.Derivable) (h : Sound committer scheme options simulation)
    (hsingle : simulation.committer.registry.Single)
    (hcycle : options.workers * options.commits ≤ scheme.cycle) :
    simulation.committer.registry.issued ≤ scheme.cycle := by
  rw [h.stocked.issued, h.opened_eq hlaunch hderivable hsingle, h.stocked.reserved]
  exact h.begun_le.trans hcycle

/-- Whatever moves are made, every group has one slot. -/
theorem single_run
    (hlaunch : (Committer.launch label settings scheme slotBytes unstartable).1 = .ok committer)
    (hseparator : scheme.separator.isDigit = false) (hderivable : scheme.Derivable)
    (hapart : KeepsApart settings options)
    (hcycle : options.workers * options.commits ≤ scheme.cycle) (moves : List Move) :
    ((start options committer).run moves).committer.registry.Single := by
  induction moves using List.reverseRecOn with
  | nil =>
    have hregistry : (start options committer).committer.registry =
        .empty settings scheme slotBytes :=
      (Committer.launch_eq_ok hlaunch).2.1
    rw [run, List.foldl_nil, hregistry]
    exact .empty settings scheme slotBytes
  | append_singleton moves move ih =>
    have hsound := sound_run hlaunch hseparator options moves
    rw [run_append]
    exact single_next hlaunch hsound hapart (hsound.issued_le hlaunch hderivable ih hcycle)
      hderivable ih (next_step _ move)

/-! ## What it comes to -/

/-- How a simulation ends in which every commit had a group of its own. -/
structure Alone (options : Options) (simulation : Simulation) : Prop where
  /-- A group was opened for each commit. -/
  opened : simulation.committer.registry.counters.get .groupsOpened =
    options.workers * options.commits
  reserved : simulation.committer.registry.counters.get .slotsReserved =
    options.workers * options.commits
  /-- It was emitted or aborted. -/
  emissions : simulation.committer.emissions.size +
      simulation.committer.registry.counters.get .groupsAborted =
    options.workers * options.commits
  /-- A commit failed with the emission of its group, or because its group was aborted. -/
  failed : simulation.failed = simulation.committer.registry.counters.get .emitFailures +
    simulation.committer.registry.counters.get .groupsAborted
  committed : simulation.committed = simulation.committer.registry.counters.get .groupsEmitted
  values : simulation.committer.registry.counters.get .valuesEmitted =
    simulation.committer.registry.counters.get .groupsEmitted
  relocated : simulation.committer.registry.counters.get .slotsRelocated = 0
  removed : simulation.committer.registry.counters.get .slotsRemoved = 0
  discarded : simulation.committer.registry.counters.get .groupsDiscarded = 0
  /-- Every emission was answered: with an error if its number, counted from one, is divided by the
  one asked for, and otherwise with success. -/
  answers : ∀ (m : Nat) (emission : Emission Nat),
    simulation.committer.emissions[m]? = some emission → ∃ answer, emission.answer = some answer ∧
      (answer.isOk = false ↔ ∃ k, options.failEvery = some k ∧ k ∣ m + 1)
  /-- Each failure was reported as an error, and the shutdown reports no further one. -/
  errors : simulation.committer.errors =
    simulation.committer.registry.counters.get .emitFailures
  shutdown : simulation.committer.close.errors = simulation.committer.errors

/-- How it ends if no group was aborted: the failures are those that were asked for. -/
structure Calm (options : Options) (simulation : Simulation) : Prop where
  emissions : simulation.committer.emissions.size = options.workers * options.commits
  failures : simulation.committer.registry.counters.get .emitFailures =
    options.failEvery.elim 0 fun k => options.workers * options.commits / k
  failed : simulation.failed =
    options.failEvery.elim 0 fun k => options.workers * options.commits / k
  errors : simulation.committer.close.errors =
    options.failEvery.elim 0 fun k => options.workers * options.commits / k

theorem fails_iff (failEvery : Option Nat) (number : Nat) :
    fails failEvery number = true ↔ ∃ k, failEvery = some k ∧ k ∣ number := by
  simp [fails, Option.any_eq_true, Nat.dvd_iff_mod_eq_zero]

namespace Sound

variable (hlaunch : (Committer.launch label settings scheme slotBytes unstartable).1 =
  .ok committer)
  (h : Sound committer scheme options simulation)

include hlaunch h

/-- The errors that were reported, before and after a shutdown. -/
theorem errors_eq (hderivable : scheme.Derivable) :
    simulation.committer.errors = simulation.committer.registry.counters.get .emitFailures ∧
      simulation.committer.close.errors = simulation.committer.errors := by
  obtain ⟨actions, hactions⟩ := h.led
  have hclosed := Committer.errors_eq_emitFailures hlaunch hderivable
    (.install () :: actions ++ [.close])
  have hopened := Committer.errors_eq_emitFailures hlaunch hderivable (.install () :: actions)
  rw [Committer.run_append, ← hactions] at hclosed
  rw [← hactions] at hopened
  refine ⟨hopened, ?_⟩
  have hcounters : (simulation.committer.step .close).registry.counters.get .emitFailures =
      simulation.committer.registry.counters.get .emitFailures :=
    (h.led.entries hlaunch .close).get_counters (by simp [Registry.counted])
  exact hclosed.trans (hcounters.trans hopened.symm)

variable (hover : simulation.isOver = true)

include hover

/-- With one slot for each group, a value is emitted with each group. -/
theorem values_of_single (hsingle : simulation.committer.registry.Single) :
    simulation.committer.registry.counters.get .valuesEmitted =
      simulation.committer.registry.counters.get .groupsEmitted := by
  have hreturned := h.allReturned hover
  obtain ⟨actions, hactions⟩ := h.led
  rw [hactions] at hreturned hsingle ⊢
  have hreckoned := Committer.reckoned_run hlaunch (.install () :: actions)
  rw [hreckoned.values, hreckoned.emitted, Committer.returned_of_quiet hreturned.quiet,
    Committer.returned_of_quiet hreturned.quiet]
  refine tally_congr _ _ fun id group hgroup => ?_
  rw [within, within, hsingle.slots id group hgroup]

/-- Every emission has an answer, and it is an error where one was asked for. -/
theorem answers {m : Nat} {emission : Emission Nat}
    (hemission : simulation.committer.emissions[m]? = some emission) :
    ∃ answer, emission.answer = some answer ∧
      (answer.isOk = false ↔ ∃ k, options.failEvery = some k ∧ k ∣ m + 1) := by
  have hreturned := h.allReturned hover
  have hnumbered := h.numbered m emission
  rw [h.asked] at hnumbered
  obtain ⟨actions, hactions⟩ := h.led
  rw [hactions] at hreturned hnumbered hemission
  have hreplied := Committer.replied_run hlaunch () actions
  obtain ⟨answer, hanswer⟩ := hreturned.answered hreplied hemission
  refine ⟨answer, hanswer, ?_⟩
  rw [hnumbered answer hemission hanswer, Bool.not_eq_false', fails_iff]

theorem alone (hderivable : scheme.Derivable)
    (hcycle : options.workers * options.commits ≤ scheme.cycle)
    (hsingle : simulation.committer.registry.Single) : Alone options simulation := by
  have hreserved := h.reserved_eq hover
  have hopened := (h.opened_eq hlaunch hderivable hsingle).trans hreserved
  have hvalues := h.values_of_single hlaunch hover hsingle
  have hcommitted := (h.emitted_eq hlaunch hover).symm.trans hvalues
  have hemissions := h.emissions_eq hlaunch hover
  have hgroups := h.groups_eq hlaunch hover hderivable
    (h.issued_le hlaunch hderivable hsingle hcycle)
  have hstill := hsingle.still
  have hcounted := h.rostered.counted
  rw [h.rostered.tally_of_isOver hover fun _ => rfl, h.asked] at hcounted
  exact
    { opened := hopened
      reserved := hreserved
      emissions := by omega
      failed := by omega
      committed := hcommitted
      values := hvalues
      relocated := hstill
      removed := h.undisturbed.removed
      discarded := h.undisturbed.discarded
      answers := fun m emission hemission => h.answers hlaunch hover hemission
      errors := (h.errors_eq hlaunch hderivable).1
      shutdown := (h.errors_eq hlaunch hderivable).2 }

/-- Without an abortion every group is emitted, and the failures are those that were asked for. -/
theorem calm (halone : Alone options simulation)
    (hexpired : simulation.committer.registry.counters.get .groupsAborted = 0) :
    Calm options simulation := by
  have hemissions := halone.emissions
  rw [hexpired, Nat.add_zero] at hemissions
  have hfailures := h.failures_eq hlaunch hover
  rw [hemissions] at hfailures
  have hfailed := halone.failed
  rw [hexpired, Nat.add_zero, hfailures] at hfailed
  exact ⟨hemissions, hfailures, hfailed, halone.shutdown.trans (halone.errors.trans hfailures)⟩

end Sound

theorem alone_run
    (hlaunch : (Committer.launch label settings {} slotBytes unstartable).1 = .ok committer)
    (hapart : KeepsApart settings options)
    (hcycle : options.workers * options.commits ≤ UInt64.size) {moves : List Move}
    (hover : ((start options committer).run moves).isOver = true) :
    Alone options ((start options committer).run moves) :=
  have hderivable : ({} : KeyScheme).Derivable := KeyScheme.derivable_of_prefixed rfl
  (sound_run hlaunch (by decide) options moves).alone hlaunch hover hderivable hcycle
    (single_run hlaunch (by decide) hderivable hapart hcycle moves)

/-- In whatever order the workers, their callers, the sweepers and the emitter make their moves, and
at whatever times: a worker that is alone, and workers whose groups have room for one slot, commit
each value in a group of its own, and when they have made their commits the totals are these. With
more groups than 64 bits can count, the parent keys would start again. -/
theorem commits_stay_apart
    (hlaunch : (Committer.launch label settings {} slotBytes unstartable).1 = .ok committer)
    (hapart : KeepsApart settings options)
    (hcycle : options.workers * options.commits ≤ UInt64.size) (moves : List Move) :
    ((start options committer).run moves).committer.registry.Single ∧
      (((start options committer).run moves).isOver = true →
        Alone options ((start options committer).run moves) ∧
        (((start options committer).run moves).committer.registry.counters.get .groupsAborted = 0 →
          Calm options ((start options committer).run moves))) := by
  refine ⟨single_run hlaunch (by decide) (KeyScheme.derivable_of_prefixed rfl) hapart hcycle moves,
    fun hover => ?_⟩
  have halone := alone_run hlaunch hapart hcycle hover
  exact ⟨halone, (sound_run hlaunch (by decide) options moves).calm hlaunch hover halone⟩

/-- One worker with three commits, for whom every second emission fails. -/
def threefold : Options where
  workers := 1
  commits := 3
  emitDelay := 0
  failEvery := some 2

/-- Each of its groups has room for a second slot, and is closed for it by a sweep. The sweep comes
before the value or after it. -/
def patience : List Move :=
  [.reserve 0 0, .store 0, .look 0, .sweep .sizeFix 5000, .deliver 0, .look 0, .begin 0,
    .complete 0, .conclude 0, .announce 0, .leave 0, .collect 0, .reserve 0 5000,
    .sweep .sizeFix 10000, .store 0, .look 1, .begin 1, .complete 1, .conclude 1, .announce 1,
    .leave 1, .collect 0, .reserve 0 10000, .sweep .sizeFix 15000, .store 0, .look 2, .begin 2,
    .complete 2, .conclude 2, .announce 2, .leave 2, .collect 0]

theorem apart_of_patience :
    ((Committer.launch "pairs" { Settings.default with slotCapacity := 2 } {} 72 none).1 =
        .ok Committer.pairs ∧
      KeepsApart { Settings.default with slotCapacity := 2 } threefold ∧
      threefold.workers * threefold.commits ≤ UInt64.size ∧
      ((start threefold Committer.pairs).run patience).isOver = true ∧
      ((start threefold Committer.pairs).run patience).committer.registry.counters.get
        .groupsAborted = 0) ∧
    Alone threefold ((start threefold Committer.pairs).run patience) ∧
      Calm threefold ((start threefold Committer.pairs).run patience) := by
  have hlaunch : (Committer.launch "pairs" { Settings.default with slotCapacity := 2 } {} 72
      none).1 = .ok Committer.pairs := rfl
  have hapart : KeepsApart { Settings.default with slotCapacity := 2 } threefold := .inl rfl
  have hcycle : threefold.workers * threefold.commits ≤ UInt64.size := by decide
  have hover : ((start threefold Committer.pairs).run patience).isOver = true := by decide +kernel
  have hexpired : ((start threefold Committer.pairs).run patience).committer.registry.counters.get
      .groupsAborted = 0 := by decide +kernel
  have hends := (commits_stay_apart hlaunch hapart hcycle patience).2 hover
  exact ⟨⟨hlaunch, hapart, hcycle, hover, hexpired⟩, hends.1, hends.2 hexpired⟩

/-- If a simulation that is run has come to its end, its report is one of these, and it shows as
many errors as failures are counted. -/
theorem alone_of_simulate {report : Report} {events : List Event}
    (h : simulate settings options = .ok (report, events)) (hapart : KeepsApart settings options)
    (hcycle : options.workers * options.commits ≤ UInt64.size)
    (hall : report.committed + report.failed = options.workers * options.commits) :
    ∃ simulation, Alone options simulation ∧ report = simulation.report report.elapsedMillis ∧
      events.countP Event.isError = report.counters.get .emitFailures := by
  obtain ⟨committer, moves, hlaunch, hreport, hevents⟩ := report_of_simulate h
  have halone := alone_run hlaunch hapart hcycle (isOver_of_report hlaunch hreport hall)
  refine ⟨_, halone, hreport, ?_⟩
  rw [hevents, hreport]
  exact halone.shutdown.trans halone.errors

end Simulation

end BatchedCommit
