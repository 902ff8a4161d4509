import BatchedCommit.Simulation
import BatchedCommit.Proofs.Completion
import BatchedCommit.Proofs.Refusals

/-!
# BatchedCommit.Proofs.Workload

What the moves of a simulation come to (`Simulation.Next`): the committer takes a step of its own,
or a worker goes on with its commit. A worker reserves a slot for each of its commits, and is never
refused (`Simulation.Stocked.accepted`): the child keys of its commits are its own, and no two of
them are the same.
-/

namespace BatchedCommit

/-- The step is one of a waiting caller, of a sweeper or of an emitter. -/
def Action.isBackground {ν ε : Type} : Action ν ε → Bool
  | .sweep _ _ | .deliver _ | .look _ | .begin _ | .complete _ _ | .conclude _ | .announce _
  | .leave _ => true
  | .reserve _ _ | .store _ _ | .remove _ | .install _ | .close | .stir _ => false

namespace Simulation

/-! ## Child keys -/

/-- The child key tells the worker and the commit. -/
theorem childKey_inj {worker worker' commit commit' : Nat}
    (h : childKey worker commit = childKey worker' commit') :
    worker = worker' ∧ commit = commit' := by
  have htoList : ∀ n : Nat, (toString n).toList = paddedDigits 0 n := fun n => by
    simp [paddedDigits, toString, Nat.repr]
  have hparent : ∀ n : Nat, KeyScheme.IsParent (toString n) := fun n c hc => by
    rw [htoList] at hc
    exact isDigit_of_mem_paddedDigits hc
  have hinj : ∀ m n : Nat, toString m = toString n → m = n := fun m n hsame => by
    have hdigits := congrArg String.toList hsame
    rw [htoList, htoList] at hdigits
    exact paddedDigits_inj hdigits
  -- behind its first letter a child key is a full key with another separator
  have hkey : ∀ m n : Nat, childKey m n =
      "w" ++ KeyScheme.fullKey { separator := '-' } (toString m) (toString n) := fun m n => by
    simp only [childKey, KeyScheme.fullKey, String.append_assoc]
    rfl
  rw [hkey, hkey] at h
  have hlists := congrArg String.toList h
  rw [String.toList_append, String.toList_append] at hlists
  have hkeys := String.toList_injective (List.append_cancel_left hlists)
  obtain ⟨hworker, hcommit⟩ := KeyScheme.fullKey_inj (by decide) (hparent _) (hparent _) hkeys
  exact ⟨hinj _ _ hworker, hinj _ _ hcommit⟩

/-! ## Parts of moves -/

variable {simulation later : Simulation} {number : Nat} {worker : Worker} {verdict : Verdict}

@[simp] theorem workers_count : (simulation.count number worker verdict).workers =
    simulation.workers.setIfInBounds number worker.advance := by
  cases verdict <;> rfl

@[simp] theorem committer_count :
    (simulation.count number worker verdict).committer = simulation.committer := by
  cases verdict <;> rfl

@[simp] theorem options_count :
    (simulation.count number worker verdict).options = simulation.options := by
  cases verdict <;> rfl

@[simp] theorem committed_count : (simulation.count number worker verdict).committed =
    simulation.committed + if verdict.isOk then 1 else 0 := by
  cases verdict <;> rfl

@[simp] theorem failed_count : (simulation.count number worker verdict).failed =
    simulation.failed + if verdict.isOk then 0 else 1 := by
  cases verdict <;> rfl

/-- How many commits a worker has begun. -/
def Worker.begun (worker : Worker) : Nat :=
  match worker.activity with
  | .reserving => worker.finished
  | .storing _ | .waiting _ | .broken => worker.finished + 1

theorem Worker.finished_le_begun (worker : Worker) : worker.finished ≤ worker.begun := by
  obtain ⟨finished, activity⟩ := worker
  cases activity with
  | reserving => exact Nat.le_refl finished
  | storing fullKey => exact Nat.le_succ finished
  | waiting caller => exact Nat.le_succ finished
  | broken => exact Nat.le_succ finished

/-- The worker has broken down over a reservation. -/
def Worker.isBroken (worker : Worker) : Bool := worker.activity == .broken

/-! ## What a move comes to -/

/-- The simulation after a step of its committer. -/
def act (simulation : Simulation) (action : Action Nat Unit) : Simulation :=
  { simulation with committer := simulation.committer.step action }

/-- The simulation after a move. -/
inductive Next (simulation : Simulation) : Simulation → Prop where
  /-- Nobody is in the position to make it. -/
  | idle : Next simulation simulation
  /-- No worker takes part in it. The emitter answers as the number of its emission demands. -/
  | act (action : Action Nat Unit) (hbackground : action.isBackground = true)
      (hflush : ∀ n answer, action = .complete n answer → ∃ m emission,
        simulation.committer.phase? n = some (.emitting m) ∧
          answer = flush simulation.options.failEvery (m + 1) emission) :
      Next simulation (simulation.act action)
  /-- A worker reserves a slot. -/
  | reserve {number finished : Nat} {now : Instant} {fullKey : String}
      (hworker : simulation.workers[number]? = some { finished, activity := .reserving })
      (hmore : finished < simulation.options.commits)
      (hanswer : (simulation.committer.reserve now (childKey number finished)).1 =
        some (.ok fullKey)) :
      Next simulation ((simulation.act (.reserve now (childKey number finished))).setWorker number
        { finished, activity := .storing fullKey })
  /-- A worker breaks down over a slot. -/
  | breakDown {number finished : Nat} {now : Instant}
      (hworker : simulation.workers[number]? = some { finished, activity := .reserving })
      (hmore : finished < simulation.options.commits)
      (hanswer : (simulation.committer.reserve now (childKey number finished)).1 = none) :
      Next simulation ((simulation.act (.reserve now (childKey number finished))).setWorker number
        { finished, activity := .broken })
  /-- A worker is refused a slot. -/
  | refuse {number finished : Nat} {now : Instant} {failure : Failure}
      (hworker : simulation.workers[number]? = some { finished, activity := .reserving })
      (hmore : finished < simulation.options.commits)
      (hanswer : (simulation.committer.reserve now (childKey number finished)).1 =
        some (.error failure)) :
      Next simulation (simulation.count number { finished } (.error failure))
  /-- A worker stores its value. -/
  | store {number finished : Nat} {fullKey : String} {caller : Nat}
      (hworker : simulation.workers[number]? = some { finished, activity := .storing fullKey })
      (hanswer : (simulation.committer.store fullKey finished).1 = .ok caller) :
      Next simulation ((simulation.act (.store fullKey finished)).setWorker number
        { finished, activity := .waiting caller })
  /-- The value of a worker comes too late. -/
  | lose {number finished : Nat} {fullKey : String} {failure : Failure}
      (hworker : simulation.workers[number]? = some { finished, activity := .storing fullKey })
      (hanswer : (simulation.committer.store fullKey finished).1 = .error failure) :
      Next simulation (simulation.count number { finished } (.error failure))
  /-- A worker takes note of the outcome of its commit. -/
  | collect {number finished caller : Nat} {verdict : Verdict}
      (hworker : simulation.workers[number]? = some { finished, activity := .waiting caller })
      (hphase : simulation.committer.phase? caller = some (.returned verdict)) :
      Next simulation (simulation.count number { finished } verdict)

theorem next_reserve (simulation : Simulation) (number : Nat) (now : Instant) :
    Next simulation (simulation.reserve number now) := by
  unfold Simulation.reserve
  split
  · next finished hworker =>
    split
    · next hmore =>
      cases hanswer : (simulation.committer.reserve now (childKey number finished)).1 with
      | none =>
        have hpair : simulation.committer.reserve now (childKey number finished) =
            (none, simulation.committer.step (.reserve now (childKey number finished))) :=
          Prod.ext hanswer rfl
        rw [hpair]
        exact .breakDown hworker hmore hanswer
      | some answer =>
        cases answer with
        | ok fullKey =>
          have hpair : simulation.committer.reserve now (childKey number finished) =
              (some (.ok fullKey),
                simulation.committer.step (.reserve now (childKey number finished))) :=
            Prod.ext hanswer rfl
          rw [hpair]
          exact .reserve hworker hmore hanswer
        | error failure =>
          have hpair : simulation.committer.reserve now (childKey number finished) =
              (some (.error failure), simulation.committer) :=
            Prod.ext hanswer (Committer.reserve_of_error hanswer)
          rw [hpair]
          exact .refuse hworker hmore hanswer
    · exact .idle
  · exact .idle

theorem next_store (simulation : Simulation) (number : Nat) :
    Next simulation (simulation.store number) := by
  unfold Simulation.store
  split
  · next finished fullKey hworker =>
    cases hanswer : (simulation.committer.store fullKey finished).1 with
    | ok caller =>
      have hpair : simulation.committer.store fullKey finished =
          (.ok caller, simulation.committer.step (.store fullKey finished)) :=
        Prod.ext hanswer rfl
      rw [hpair]
      exact .store hworker hanswer
    | error failure =>
      have hpair : simulation.committer.store fullKey finished =
          (.error failure, simulation.committer) :=
        Prod.ext hanswer (Committer.store_of_error hanswer)
      rw [hpair]
      exact .lose hworker hanswer
  · exact .idle

theorem next_collect (simulation : Simulation) (number : Nat) :
    Next simulation (simulation.collect number) := by
  unfold Simulation.collect
  split
  · next finished caller hworker =>
    split
    · next verdict hphase => exact .collect hworker hphase
    · exact .idle
  · exact .idle

theorem next_complete (simulation : Simulation) (caller : Nat) :
    Next simulation (simulation.complete caller) := by
  unfold Simulation.complete
  split
  · next m hphase =>
    split
    · next emission hemission =>
      refine .act (.complete caller (flush simulation.options.failEvery (m + 1) emission))
        rfl fun n answer heq => ?_
      obtain ⟨rfl, rfl⟩ := Action.complete.inj heq
      exact ⟨m, emission, hphase, rfl⟩
    · exact .idle
  · exact .idle

theorem next_step (simulation : Simulation) (move : Move) :
    Next simulation (simulation.step move) := by
  cases move with
  | reserve worker now => exact next_reserve simulation worker now
  | store worker => exact next_store simulation worker
  | collect worker => exact next_collect simulation worker
  | sweep sweeper now => exact .act (.sweep sweeper now) rfl (by simp)
  | deliver group => exact .act (.deliver group) rfl (by simp)
  | look caller => exact .act (.look caller) rfl (by simp)
  | begin caller => exact .act (.begin caller) rfl (by simp)
  | complete caller => exact next_complete simulation caller
  | conclude caller => exact .act (.conclude caller) rfl (by simp)
  | announce caller => exact .act (.announce caller) rfl (by simp)
  | leave caller => exact .act (.leave caller) rfl (by simp)

theorem Next.options_eq (h : Next simulation later) : later.options = simulation.options := by
  cases h <;> first | rfl | exact options_count

/-- The committer takes no step, or one that neither removes a slot nor shuts it down. -/
theorem Next.committer_cases (h : Next simulation later) :
    later.committer = simulation.committer ∨ ∃ action : Action Nat Unit,
      (action ≠ .close ∧ ∀ fullKey, action ≠ .remove fullKey) ∧
        later.committer = simulation.committer.step action := by
  cases h with
  | idle => exact .inl rfl
  | act action hbackground _ =>
    refine .inr ⟨action, ⟨?_, fun fullKey => ?_⟩, rfl⟩ <;>
      exact fun heq => by rw [heq] at hbackground; contradiction
  | @reserve number finished now _ _ _ _ =>
    exact .inr ⟨.reserve now (childKey number finished), ⟨by simp, by simp⟩, rfl⟩
  | @breakDown number finished now _ _ _ =>
    exact .inr ⟨.reserve now (childKey number finished), ⟨by simp, by simp⟩, rfl⟩
  | @store _ finished fullKey _ _ _ => exact .inr ⟨.store fullKey finished, ⟨by simp, by simp⟩, rfl⟩
  | refuse _ _ _ => exact .inl committer_count
  | lose _ _ => exact .inl committer_count
  | collect _ _ => exact .inl committer_count

/-! ## The committer of a simulation -/

/-- The committer of the simulation is one that was launched, and that has run since then with an
emitter. -/
def Led (committer : Committer Nat Unit) (simulation : Simulation) : Prop :=
  ∃ actions, simulation.committer = committer.run (.install () :: actions)

namespace Led

variable {label : String} {settings : Settings} {scheme : KeyScheme}
  {slotBytes : Nat} {unstartable : Option (Sweeper × String)} {committer : Committer Nat Unit}

theorem start (options : Options) (committer : Committer Nat Unit) :
    Led committer (start options committer) := ⟨[], rfl⟩

theorem next (h : Led committer simulation) (hnext : Next simulation later) :
    Led committer later := by
  obtain ⟨actions, hactions⟩ := h
  obtain heq | ⟨action, -, heq⟩ := hnext.committer_cases
  · exact ⟨actions, heq.trans hactions⟩
  · refine ⟨actions ++ [action], ?_⟩
    rw [heq, hactions, ← List.cons_append, Committer.run_append]
    rfl

variable (h : Led committer simulation)
  (hlaunch : (Committer.launch label settings scheme slotBytes unstartable).1 = .ok committer)

include h hlaunch

theorem staffed : simulation.committer.Staffed := by
  obtain ⟨actions, hactions⟩ := h
  rw [hactions]
  exact (Committer.Staffed.launch hlaunch).run _

theorem indexed : simulation.committer.registry.Indexed := by
  obtain ⟨actions, hactions⟩ := h
  rw [hactions]
  exact Committer.indexed_of_launch hlaunch _

theorem steered : simulation.committer.registry.Steered := by
  obtain ⟨actions, hactions⟩ := h
  rw [hactions]
  exact Committer.steered_run hlaunch _

theorem entries (action : Action Nat Unit) :
    Registry.Entries (simulation.committer.step action).relocating action
      simulation.committer.registry (simulation.committer.step action).registry :=
  Committer.entries_step (h.staffed hlaunch) (h.indexed hlaunch) (h.steered hlaunch) action

theorem scheme_eq : simulation.committer.registry.scheme = scheme := by
  obtain ⟨actions, hactions⟩ := h
  rw [hactions]
  exact (Committer.run_constant hlaunch _).2

/-- A reservation that is granted adds a slot to a group that is open. -/
theorem placed {now : Instant} {child fullKey : String}
    (hanswer : (simulation.committer.reserve now child).1 = some (.ok fullKey)) :
    simulation.committer.registry.Placed
      (simulation.committer.step (.reserve now child)).registry settings.slotCapacity.toNat
        child fullKey := by
  obtain ⟨actions, hactions⟩ := h
  rw [hactions] at hanswer ⊢
  exact Committer.placed_of_reserve hlaunch _ now child fullKey hanswer

/-- Why a reservation is refused. -/
theorem refused {now : Instant} {child : String} {failure : Failure}
    (hanswer : (simulation.committer.reserve now child).1 = some (.error failure)) :
    simulation.committer.registry.Refused child failure := by
  obtain ⟨actions, hactions⟩ := h
  rw [hactions] at hanswer ⊢
  exact (Committer.refused_iff hlaunch _ now child failure).mp hanswer

end Led

/-- Nobody has shut the committer down, or removed a slot. -/
structure Undisturbed (simulation : Simulation) : Prop where
  opened : simulation.committer.registry.closed = false
  removed : simulation.committer.registry.counters.get .slotsRemoved = 0
  discarded : simulation.committer.registry.counters.get .groupsDiscarded = 0

section Steps

variable {label : String} {settings : Settings} {scheme : KeyScheme}
  {slotBytes : Nat} {unstartable : Option (Sweeper × String)} {committer : Committer Nat Unit}
  (hlaunch : (Committer.launch label settings scheme slotBytes unstartable).1 = .ok committer)
  (hled : Led committer simulation)

include hlaunch hled

theorem Undisturbed.next (h : Undisturbed simulation) (hnext : Next simulation later) :
    Undisturbed later := by
  obtain heq | ⟨action, ⟨hclose, hremove⟩, heq⟩ := hnext.committer_cases
  · obtain ⟨hopened, hremoved, hdiscarded⟩ := h
    constructor <;> rwa [heq]
  · have hcounters : ∀ counter ∈ [Counter.slotsRemoved, .groupsDiscarded],
        later.committer.registry.counters.get counter =
          simulation.committer.registry.counters.get counter := by
      intro counter hcounter
      rw [heq]
      refine (hled.entries hlaunch action).get_counters ?_
      simp only [List.mem_cons, List.not_mem_nil, or_false] at hcounter
      cases action with
      | remove fullKey => exact absurd rfl (hremove fullKey)
      | sweep sweeper now =>
        cases sweeper <;> obtain rfl | rfl := hcounter <;> simp [Registry.counted]
      | _ => obtain rfl | rfl := hcounter <;> simp [Registry.counted]
    refine ⟨?_, ?_, ?_⟩
    · rw [heq]
      obtain ⟨-, hclosed⟩ | ⟨now, -, hlater⟩ | ⟨counters, hbad, -⟩ :=
        ((hled.staffed hlaunch).deed action).calm
      · exact hclosed.trans h.opened
      · rw [hlater]
        exact (Registry.expired_abortOld (hled.indexed hlaunch) now).closed.trans h.opened
      · exact absurd hbad hclose
    · exact (hcounters _ (by simp)).trans h.removed
    · exact (hcounters _ (by simp)).trans h.discarded

end Steps

/-! ## Commits that have begun -/

/-- The worker list after a change of one worker. -/
structure Changes (simulation later : Simulation) (number : Nat) (old new : Worker) : Prop where
  before : simulation.workers[number]? = some old
  workers : later.workers = simulation.workers.setIfInBounds number new
  options : later.options = simulation.options

namespace Changes

variable {old new : Worker} (h : Changes simulation later number old new)

include h

theorem after : later.workers[number]? = some new := by
  rw [h.workers]
  exact Array.getElem?_setIfInBounds_self_of_lt (Array.getElem?_eq_some_iff.mp h.before).1

theorem others {n : Nat} (hne : n ≠ number) : later.workers[n]? = simulation.workers[n]? := by
  rw [h.workers, Array.getElem?_setIfInBounds_ne hne.symm]

theorem tally (weight : Worker → Nat) : BatchedCommit.tally weight later.workers + weight old =
    BatchedCommit.tally weight simulation.workers + weight new := by
  rw [h.workers]
  exact tally_set weight h.before new

end Changes

/-- The list of workers, and how many commits they have finished. -/
structure Rostered (simulation : Simulation) : Prop where
  size : simulation.workers.size = simulation.options.workers
  /-- No worker begins more commits than were asked for. -/
  bounded : ∀ (n : Nat) (worker : Worker), simulation.workers[n]? = some worker →
    worker.begun ≤ simulation.options.commits
  /-- Every commit that is finished has succeeded or failed. -/
  counted : simulation.committed + simulation.failed = tally Worker.finished simulation.workers

namespace Rostered

theorem start (options : Options) (committer : Committer Nat Unit) :
    Rostered (start options committer) where
  size := Array.size_replicate
  bounded := fun n worker hworker => by
    obtain ⟨-, rfl⟩ := Array.getElem?_eq_some_iff.mp hworker
    simp [Simulation.start, Worker.begun]
  counted := by
    refine (tally_zero fun n worker hworker => ?_).symm
    obtain ⟨-, rfl⟩ := Array.getElem?_eq_some_iff.mp hworker
    simp [Simulation.start]

theorem change (h : Rostered simulation) {old new : Worker}
    (hchange : Changes simulation later number old new)
    (hbegun : new.begun ≤ simulation.options.commits)
    (hcounted : later.committed + later.failed + old.finished =
      simulation.committed + simulation.failed + new.finished) : Rostered later where
  size := by rw [hchange.workers, Array.size_setIfInBounds, h.size, hchange.options]
  bounded := fun n worker hworker => by
    rw [hchange.workers] at hworker
    rw [hchange.options]
    obtain ⟨-, rfl⟩ | ⟨-, hworker⟩ := getElem?_set_cases hworker
    · exact hbegun
    · exact h.bounded n worker hworker
  counted := by
    have htally := hchange.tally Worker.finished
    have hbefore := h.counted
    omega

/-- A commit of a worker ends. -/
theorem finish (h : Rostered simulation) {old : Worker} {finished : Nat} {verdict : Verdict}
    (hworker : simulation.workers[number]? = some old) (hold : old.finished = finished)
    (hmore : finished < simulation.options.commits) :
    Rostered (simulation.count number { finished } verdict) := by
  refine h.change ⟨hworker, workers_count, options_count⟩ hmore ?_
  rw [committed_count, failed_count, hold]
  cases verdict.isOk <;> simp [Worker.advance] <;> omega

theorem next (h : Rostered simulation) (hnext : Next simulation later) : Rostered later := by
  cases hnext with
  | idle => exact h
  | act _ _ _ => exact ⟨h.size, h.bounded, h.counted⟩
  | reserve hworker hmore _ => exact h.change ⟨hworker, rfl, rfl⟩ hmore rfl
  | breakDown hworker hmore _ => exact h.change ⟨hworker, rfl, rfl⟩ hmore rfl
  | refuse hworker hmore _ => exact h.finish hworker rfl hmore
  | store hworker _ =>
    have hbegun := h.bounded _ _ hworker
    exact h.change ⟨hworker, rfl, rfl⟩ hbegun rfl
  | lose hworker _ =>
    have hbegun := h.bounded _ _ hworker
    exact h.finish hworker rfl hbegun
  | collect hworker _ =>
    have hbegun := h.bounded _ _ hworker
    exact h.finish hworker rfl hbegun

/-- At the end no worker has anything to do. -/
theorem worker_of_isOver (h : Rostered simulation) (hover : simulation.isOver = true) {n : Nat}
    {worker : Worker} (hworker : simulation.workers[n]? = some worker) :
    worker = { finished := simulation.options.commits, activity := .reserving } := by
  have hbegun := h.bounded n worker hworker
  obtain ⟨hlt, hget⟩ := Array.getElem?_eq_some_iff.mp hworker
  have hfinished := of_decide_eq_true (Array.all_eq_true.mp hover n hlt)
  rw [hget] at hfinished
  obtain ⟨finished, activity⟩ := worker
  cases activity with
  | reserving =>
    have hle : finished ≤ simulation.options.commits := hbegun
    rw [Nat.le_antisymm hle hfinished]
  | storing fullKey => exact absurd (Nat.lt_of_succ_le hbegun) (Nat.not_lt.mpr hfinished)
  | waiting caller => exact absurd (Nat.lt_of_succ_le hbegun) (Nat.not_lt.mpr hfinished)
  | broken => exact absurd (Nat.lt_of_succ_le hbegun) (Nat.not_lt.mpr hfinished)

/-- No worker has broken down then. -/
theorem broken_of_isOver (h : Rostered simulation) (hover : simulation.isOver = true) :
    tally (ones Worker.isBroken) simulation.workers = 0 :=
  tally_zero fun n worker hworker => by
    rw [h.worker_of_isOver hover hworker]
    rfl

/-- When as many commits have ended as were asked for, the simulation is over. -/
theorem isOver_of_counted (h : Rostered simulation) (hall : simulation.committed +
    simulation.failed = simulation.options.workers * simulation.options.commits) :
    simulation.isOver = true := by
  rw [h.counted, ← h.size, ← tally_const] at hall
  rw [isOver, Array.all_eq_true]
  intro n hn
  have hfinished := eq_of_tally_eq (fun m worker hworker =>
    Nat.le_trans worker.finished_le_begun (h.bounded m worker hworker)) hall
    (Array.getElem?_eq_getElem hn)
  exact decide_eq_true (Nat.le_of_eq hfinished.symm)

/-- At the end, every weight that a worker has by its commits is that of all of them. -/
theorem tally_of_isOver (h : Rostered simulation) (hover : simulation.isOver = true)
    {weight : Worker → Nat} (hweight : ∀ commits, weight { finished := commits } = commits) :
    tally weight simulation.workers = simulation.options.workers * simulation.options.commits := by
  rw [← h.size, ← tally_const]
  refine tally_congr _ _ fun n worker hworker => ?_
  rw [h.worker_of_isOver hover hworker, hweight]

end Rostered

end Simulation

/-! ## Reservations -/

section Reservations

variable {ν ε : Type}

/-- A reservation that is granted is counted, and takes a parent key if it opens a group. -/
theorem Registry.counted_of_reserve {registry : Registry ν} {now : Instant} {child fullKey : String}
    {spent : Nat} (h : (registry.reserve now child).answer = some (.ok fullKey))
    (hissued : registry.issued = registry.counters.get .groupsOpened + spent) :
    (registry.reserve now child).registry.counters.get .slotsReserved =
        registry.counters.get .slotsReserved + 1 ∧
      (registry.reserve now child).registry.issued =
        (registry.reserve now child).registry.counters.get .groupsOpened + spent := by
  obtain ⟨-, heq⟩ | ⟨id, group, -, -, -, -, -, heq⟩ | ⟨id, group, changed, -, -, -, -, heq⟩ |
    ⟨parent, changed, -, -, -, -, -, heq⟩ | ⟨-, -, -, heq⟩ := registry.reserve_cases now child
  · simp [heq] at h
  · simp [heq] at h
  · rw [heq]
    simp [afterReserve, Counters.bump, Counters.get_add, hissued]
  · rw [heq]
    simp [afterOpen, Counters.bump, Counters.get_add, hissued, Nat.add_right_comm]
  · simp [heq] at h

namespace Committer

variable {committer : Committer ν ε} {action : Action ν ε}

/-- Only reservations take parent keys. -/
theorem issued_step (committer : Committer ν ε) (hnot : ∀ now child, action ≠ .reserve now child) :
    (committer.step action).registry.issued = committer.registry.issued := by
  cases action with
  | reserve now child => exact absurd rfl (hnot now child)
  | remove fullKey => exact (Registry.shrunk_remove committer.registry fullKey).issued
  | sweep sweeper now =>
    cases sweeper with
    | relocate =>
      unfold step sweep
      dsimp only
      split
      · obtain ⟨groups, delayed, counters, heq⟩ := committer.registry.frame_relocate now
        simp only [absorb, heq]
      · rfl
    | _ => exact (committer.steady_step rfl).issued
  | _ => exact (committer.steady_step rfl).issued

/-- Only reservations are counted as such, and open groups. -/
theorem notMem_counted (hnot : ∀ now child, action ≠ .reserve now child) :
    Counter.slotsReserved ∉ Registry.counted action ∧
      Counter.groupsOpened ∉ Registry.counted action := by
  cases action with
  | reserve now child => exact absurd rfl (hnot now child)
  | sweep sweeper now => cases sweeper <;> simp [Registry.counted]
  | _ => simp [Registry.counted]

end Committer

end Reservations

namespace Simulation

variable {simulation later : Simulation} {number : Nat} {old new : Worker} {child : String}

/-- The child key is that of a commit that has begun. -/
def Begun (simulation : Simulation) (child : String) : Prop :=
  ∃ (n : Nat) (worker : Worker) (commit : Nat), simulation.workers[n]? = some worker ∧
    commit < worker.begun ∧ child = childKey n commit

theorem Begun.change (h : Begun simulation child)
    (hchange : Changes simulation later number old new) (hle : old.begun ≤ new.begun) :
    Begun later child := by
  obtain ⟨n, worker, commit, hworker, hlt, hchild⟩ := h
  by_cases hn : n = number
  · subst hn
    obtain rfl := Option.some.inj (hworker.symm.trans hchange.before)
    exact ⟨n, new, commit, hchange.after, Nat.lt_of_lt_of_le hlt hle, hchild⟩
  · exact ⟨n, worker, commit, (hchange.others hn).trans hworker, hlt, hchild⟩

/-- One slot was reserved for each commit that has begun, unless its worker broke down, and none for
any other. -/
structure Stocked (simulation : Simulation) : Prop where
  reserved : simulation.committer.registry.counters.get .slotsReserved +
    tally (ones Worker.isBroken) simulation.workers = tally Worker.begun simulation.workers
  /-- A parent key was taken for each group that was opened, and for each worker that broke down. -/
  issued : simulation.committer.registry.issued =
    simulation.committer.registry.counters.get .groupsOpened +
      tally (ones Worker.isBroken) simulation.workers
  own : ∀ child, simulation.committer.registry.Uses child → Begun simulation child

namespace Stocked

/-- No slot is reserved, and no commit begins. -/
theorem calm (h : Stocked simulation)
    (hreserved : later.committer.registry.counters.get .slotsReserved =
      simulation.committer.registry.counters.get .slotsReserved)
    (hopened : later.committer.registry.counters.get .groupsOpened =
      simulation.committer.registry.counters.get .groupsOpened)
    (hissued : later.committer.registry.issued = simulation.committer.registry.issued)
    (hdescends : Registry.Descends simulation.committer.registry later.committer.registry)
    (htally : tally Worker.begun later.workers = tally Worker.begun simulation.workers)
    (hbroken : tally (ones Worker.isBroken) later.workers =
      tally (ones Worker.isBroken) simulation.workers)
    (hbegun : ∀ child, Begun simulation child → Begun later child) : Stocked later where
  reserved := by rw [hreserved, htally, hbroken, h.reserved]
  issued := by rw [hopened, hissued, hbroken, h.issued]
  own := fun child huses => hbegun child (h.own child (hdescends.uses huses))

/-- The committer stands still while a commit ends. -/
theorem finish (h : Stocked simulation) (hchange : Changes simulation later number old new)
    (hcommitter : later.committer = simulation.committer) (hbegun : new.begun = old.begun)
    (hbroken : new.isBroken = old.isBroken) : Stocked later := by
  have htally := hchange.tally Worker.begun
  have hones := hchange.tally (ones Worker.isBroken)
  have hsame : ones Worker.isBroken new = ones Worker.isBroken old := by
    simp only [within, hbroken]
  exact h.calm (by rw [hcommitter]) (by rw [hcommitter]) (by rw [hcommitter])
    (.same (by rw [hcommitter])) (by omega) (by omega) fun child hchild =>
      hchild.change hchange (by omega)

/-- A worker breaks down over a slot, and a parent key is used up. -/
theorem breakDown (h : Stocked simulation) {finished : Nat} {now : Instant}
    (hchange : Changes simulation later number { finished } { finished, activity := .broken })
    (hlater : later.committer =
      simulation.committer.step (.reserve now (childKey number finished)))
    (hanswer : (simulation.committer.reserve now (childKey number finished)).1 = none) :
    Stocked later := by
  have hbegun := hchange.tally Worker.begun
  have hbroken := hchange.tally (ones Worker.isBroken)
  have hbefore := h.reserved
  have hissued := h.issued
  have hstep : simulation.committer.step (.reserve now (childKey number finished)) =
      { simulation.committer with registry := { simulation.committer.registry with
        issued := simulation.committer.registry.issued + 1 } } :=
    Committer.reserve_of_none hanswer
  have hold : Worker.begun { finished } = finished := rfl
  have hnew : Worker.begun { finished, activity := .broken } = finished + 1 := rfl
  have hone : tally (ones Worker.isBroken) later.workers =
      tally (ones Worker.isBroken) simulation.workers + 1 := hbroken
  refine ⟨?_, ?_, fun child huses => ?_⟩
  · rw [hlater, hstep]
    dsimp only
    omega
  · rw [hlater, hstep]
    dsimp only
    omega
  · rw [hlater, hstep] at huses
    exact (h.own child huses).change hchange (Nat.le_succ finished)

section Steps

variable {label : String} {settings : Settings} {scheme : KeyScheme}
  {slotBytes : Nat} {unstartable : Option (Sweeper × String)} {committer : Committer Nat Unit}
  (hlaunch : (Committer.launch label settings scheme slotBytes unstartable).1 = .ok committer)
  (hled : Led committer simulation)

include hlaunch hled

/-- A reservation of a worker is never refused: the slots of the group that is open belong to other
commits, and so have other child keys. -/
theorem not_refused (h : Stocked simulation) (hundisturbed : Undisturbed simulation)
    {finished : Nat}
    (hworker : simulation.workers[number]? = some { finished, activity := .reserving })
    (now : Instant) (failure : Failure) :
    (simulation.committer.reserve now (childKey number finished)).1 ≠ some (.error failure) := by
  intro hanswer
  cases hled.refused hlaunch hanswer with
  | closed hclosed => exact Bool.false_ne_true (hundisturbed.opened.symm.trans hclosed)
  | @duplicate id group slot _ _ hgroup hslot hchild =>
    obtain ⟨n, worker, commit, hn, hlt, hsame⟩ := h.own _ ⟨id, group, hgroup, slot, hslot, hchild⟩
    obtain ⟨rfl, rfl⟩ := childKey_inj hsame
    obtain rfl := Option.some.inj (hworker.symm.trans hn)
    exact Nat.lt_irrefl _ hlt

/-- The committer takes a step in which nothing is reserved. -/
theorem act (h : Stocked simulation) {action : Action Nat Unit}
    (hnot : ∀ now child, action ≠ .reserve now child) : Stocked (simulation.act action) := by
  have hentries := hled.entries hlaunch action
  obtain ⟨hreserved, hopened⟩ := Committer.notMem_counted hnot
  exact h.calm (hentries.get_counters hreserved) (hentries.get_counters hopened)
    (Committer.issued_step _ hnot) (((hled.staffed hlaunch).deed action).descends hnot) rfl rfl
    fun _ hchild => hchild

/-- A worker reserves a slot for its next commit. -/
theorem reserve (h : Stocked simulation) {finished : Nat} {now : Instant} {fullKey : String}
    (hchange : Changes simulation later number { finished }
      { finished, activity := .storing fullKey })
    (hlater : later.committer =
      simulation.committer.step (.reserve now (childKey number finished)))
    (hanswer : (simulation.committer.reserve now (childKey number finished)).1 =
      some (.ok fullKey)) : Stocked later := by
  have hbegun := hchange.tally Worker.begun
  have hbroken := hchange.tally (ones Worker.isBroken)
  have hbefore := h.reserved
  obtain ⟨hcounter, hissued⟩ : (simulation.committer.step
        (.reserve now (childKey number finished))).registry.counters.get .slotsReserved =
      simulation.committer.registry.counters.get .slotsReserved + 1 ∧ _ :=
    Registry.counted_of_reserve hanswer h.issued
  have hold : Worker.begun { finished } = finished := rfl
  have hnew : Worker.begun { finished, activity := .storing fullKey } = finished + 1 := rfl
  have hsame : tally (ones Worker.isBroken) later.workers =
      tally (ones Worker.isBroken) simulation.workers := hbroken
  refine ⟨?_, ?_, fun child huses => ?_⟩
  · rw [hlater]
    omega
  · rw [hlater, hsame]
    exact hissued
  · rw [hlater] at huses
    obtain rfl | hbefore := (hled.placed hlaunch hanswer).uses huses
    · exact ⟨number, _, finished, hchange.after, Nat.lt_succ_self finished, rfl⟩
    · exact (h.own child hbefore).change hchange (Nat.le_succ finished)

theorem next (h : Stocked simulation) (hundisturbed : Undisturbed simulation)
    (hnext : Next simulation later) : Stocked later := by
  cases hnext with
  | idle => exact h
  | act _ hbackground _ =>
    refine h.act hlaunch hled fun now child heq => ?_
    rw [heq] at hbackground
    contradiction
  | reserve hworker _ hanswer => exact h.reserve hlaunch hled ⟨hworker, rfl, rfl⟩ rfl hanswer
  | breakDown hworker _ hanswer => exact h.breakDown ⟨hworker, rfl, rfl⟩ rfl hanswer
  | refuse hworker _ hanswer =>
    exact absurd hanswer (h.not_refused hlaunch hled hundisturbed hworker _ _)
  | @store number finished fullKey _ hworker _ =>
    have hact : Stocked (simulation.act (.store fullKey finished)) :=
      h.act hlaunch hled (by simp)
    exact hact.finish ⟨hworker, rfl, rfl⟩ rfl rfl rfl
  | lose hworker _ =>
    exact h.finish ⟨hworker, workers_count, options_count⟩ committer_count rfl rfl
  | collect hworker _ =>
    exact h.finish ⟨hworker, workers_count, options_count⟩ committer_count rfl rfl

end Steps

end Stocked

end Simulation

end BatchedCommit
