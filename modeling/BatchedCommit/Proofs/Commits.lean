import BatchedCommit.Proofs.Workload

/-!
# BatchedCommit.Proofs.Commits

How the commits of workers end. Every call that has not returned is waited for by one worker, and
`committed` counts the successful calls that nobody waits for any more (`Simulation.Watched`). A
live group misses a value only as long as a worker is about to store it (`Simulation.Tended`), for
a value that is missing is never refused. The answers of the emitter follow the numbers of its runs
(`Simulation.Numbered`).
-/

namespace BatchedCommit

/-! ## Calls -/

namespace Committer

variable {ν ε : Type} {committer : Committer ν ε} {action : Action ν ε} {n : Nat}
  {verdict : Verdict}

theorem lt_of_phase? {phase : Phase ν} (h : committer.phase? n = some phase) :
    n < committer.callers.size := by
  obtain ⟨caller, hcaller, -⟩ := Option.map_eq_some_iff.mp h
  exact (Array.getElem?_eq_some_iff.mp hcaller).1

/-- What a call has returned stays. -/
theorem returned_stays (h : committer.phase? n = some (.returned verdict)) (action : Action ν ε) :
    (committer.step action).phase? n = some (.returned verdict) := by
  obtain ⟨caller, hcaller, hphase⟩ := Option.map_eq_some_iff.mp h
  have hin : committer.InPhase caller.group n (.returned verdict) := ⟨caller, hcaller, rfl, hphase⟩
  obtain hsteps | hstays | ⟨heq, -⟩ := hin.step action
  · exact hsteps.elim
  · exact hstays.phase?
  · contradiction

/-- Calls come by storing values only. -/
theorem size_callers_step (hs : Staffed committer)
    (hnot : ∀ fullKey value, action ≠ .store fullKey value) :
    (committer.step action).callers.size = committer.callers.size := by
  obtain ⟨hseats, -⟩ | ⟨fullKey, value, -, -, -, heq, -⟩ :=
    (committer.move_step action hs.known).seats
  · have hlength := congrArg List.length hseats
    rwa [seats, seats, Array.length_toList, Array.length_toList, Array.size_map, Array.size_map]
      at hlength
  · exact absurd heq (hnot fullKey value)

/-- A value that is accepted makes a new call. -/
theorem store_eq_ok {fullKey : String} {value : ν} (h : (committer.store fullKey value).1 = .ok n) :
    n = committer.callers.size ∧ ∃ id, (committer.step (.store fullKey value)).callers =
      committer.callers.push { group := id, fullKey } := by
  unfold step
  dsimp only
  unfold store at h ⊢
  dsimp only at h ⊢
  cases hanswer : (committer.registry.store fullKey value).answer with
  | error failure =>
    rw [hanswer] at h
    contradiction
  | ok id =>
    rw [hanswer] at h
    exact ⟨(Except.ok.inj h).symm, id, rfl⟩

/-- An emission began now, was there before, or is answered now. -/
theorem Move.emission_cases {later : Committer ν ε} (hmove : Move committer action later) {m : Nat}
    {emission : Emission ν} (hemission : later.emissions[m]? = some emission) :
    committer.emissions[m]? = some emission ∨ emission.answer = none ∨
      ∃ n answer, action = .complete n answer ∧ committer.phase? n = some (.emitting m) ∧
        emission.answer = some answer := by
  by_cases hsame : later.emissions = committer.emissions
  · exact .inl (hsame ▸ hemission)
  · cases hmove with
    | begin hcaller hphase hlater =>
      rw [hlater.emissions, Array.getElem?_push] at hemission
      split at hemission
      · rw [← Option.some.inj hemission]
        exact .inr (.inl rfl)
      · exact .inl hemission
    | @complete _ n number caller old answer hcaller hphase hold hlater =>
      rw [hlater.emissions] at hemission
      obtain ⟨rfl, rfl⟩ | ⟨-, hemission⟩ := getElem?_set_cases hemission
      · have hown : committer.phase? n = some (.emitting m) := by
          rw [Committer.phase?, hcaller, Option.map_some, hphase]
        exact .inr (.inr ⟨n, answer, rfl, hown, rfl⟩)
      · exact .inl hemission
    | turn _ _ _ _ hemissions => exact absurd hemissions hsame
    | store _ _ _ _ hlater => exact absurd hlater.emissions hsame
    | deliver _ hlater => exact absurd hlater.emissions hsame
    | proceed _ _ _ hlater => exact absurd hlater.emissions hsame
    | claim _ _ _ _ hlater => exact absurd hlater.emissions hsame
    | skip _ _ hlater => exact absurd hlater.emissions hsame
    | conclude _ _ _ hlater => exact absurd hlater.emissions hsame
    | announce _ _ hlater => exact absurd hlater.emissions hsame

end Committer

namespace Simulation

variable {simulation later : Simulation} {number : Nat} {old new : Worker}

/-! ## Waiting for calls -/

/-- A worker is doing this for its present commit. -/
def Does (simulation : Simulation) (n : Nat) (activity : Activity) : Prop :=
  ∃ worker, simulation.workers[n]? = some worker ∧ worker.activity = activity

/-- A worker waits for the return of a call. -/
abbrev WaitsFor (simulation : Simulation) (n m : Nat) : Prop := Does simulation n (.waiting m)

theorem Changes.does_iff (h : Changes simulation later number old new) {n : Nat}
    {activity : Activity} : Does later n activity ↔
      if n = number then new.activity = activity else Does simulation n activity := by
  split
  · next hn =>
    subst hn
    constructor
    · rintro ⟨worker, hworker, hactivity⟩
      rwa [Option.some.inj (h.after.symm.trans hworker)]
    · exact fun hactivity => ⟨new, h.after, hactivity⟩
  · next hn => rw [Does, h.others hn, Does]

/-- Workers that do not change go on with what they do. -/
theorem Does.change {n : Nat} {activity : Activity} (h : Does simulation n activity)
    (hchange : Changes simulation later number old new) (hne : old.activity ≠ activity) :
    Does later n activity := by
  rw [hchange.does_iff, if_neg]
  · exact h
  · rintro rfl
    obtain ⟨worker, hworker, hactivity⟩ := h
    rw [Option.some.inj (hworker.symm.trans hchange.before)] at hactivity
    exact hne hactivity

/-- A worker that neither waited before nor waits now makes no difference. -/
theorem Changes.waitsFor_same (h : Changes simulation later number old new)
    (hold : ∀ m, old.activity ≠ .waiting m) (hnew : ∀ m, new.activity ≠ .waiting m) (n m : Nat) :
    WaitsFor later n m ↔ WaitsFor simulation n m := by
  refine ⟨fun hlater => ?_, fun hbefore => hbefore.change h (hold m)⟩
  rw [WaitsFor, h.does_iff] at hlater
  split at hlater
  · exact absurd hlater (hnew m)
  · exact hlater

/-- Who waits for which calls. -/
structure Watched (simulation : Simulation) : Prop where
  /-- A call has returned, or some worker waits for it. -/
  covered : ∀ m < simulation.committer.callers.size,
    (∃ verdict, simulation.committer.phase? m = some (.returned verdict)) ∨
      ∃ n, WaitsFor simulation n m
  known : ∀ n m, WaitsFor simulation n m → m < simulation.committer.callers.size
  /-- No two workers wait for the same call. -/
  alone : ∀ n k m, WaitsFor simulation n m → WaitsFor simulation k m → n = k
  /-- The calls that have succeeded, and of which their worker has taken note, are counted. -/
  noted : ∃ seen : Finset Nat, seen.card = simulation.committed ∧ ∀ m, m ∈ seen ↔
    simulation.committer.phase? m = some (.returned (.ok ())) ∧ ∀ n, ¬ WaitsFor simulation n m

namespace Watched

theorem start (options : Options) {committer : Committer Nat Unit}
    (hcallers : committer.callers = #[]) : Watched (start options committer) := by
  have hwaits : ∀ n m, ¬ WaitsFor (Simulation.start options committer) n m := by
    rintro n m ⟨worker, hworker, hactivity⟩
    obtain ⟨hlt, rfl⟩ := Array.getElem?_eq_some_iff.mp hworker
    simp [Simulation.start] at hactivity
  have hphase : ∀ m, (Simulation.start options committer).committer.phase? m = none := fun m => by
    simp [Simulation.start, Committer.install, Committer.phase?, hcallers]
  refine ⟨fun m hm => ?_, fun n m h => absurd h (hwaits n m), fun n k m h => absurd h (hwaits n m),
    ∅, rfl, fun m => ?_⟩
  · simp [Simulation.start, Committer.install, hcallers] at hm
  · simp [hphase]

/-- No call is taken note of: those that have returned stay, and new ones are waited for. -/
theorem carry (h : Watched simulation)
    (hreturned : ∀ m verdict, simulation.committer.phase? m = some (.returned verdict) →
      later.committer.phase? m = some (.returned verdict))
    (hnew : ∀ m < later.committer.callers.size, m < simulation.committer.callers.size ∨
      ∃ n, WaitsFor later n m)
    (hwaits : ∀ n, ∀ m < simulation.committer.callers.size,
      WaitsFor later n m ↔ WaitsFor simulation n m)
    (hknown : ∀ n m, WaitsFor later n m → m < later.committer.callers.size)
    (halone : ∀ n k m, WaitsFor later n m → WaitsFor later k m → n = k)
    (hcommitted : later.committed = simulation.committed) : Watched later where
  covered := fun m hm => by
    obtain hlt | hnew := hnew m hm
    · obtain ⟨verdict, hphase⟩ | ⟨n, hn⟩ := h.covered m hlt
      · exact .inl ⟨verdict, hreturned m verdict hphase⟩
      · exact .inr ⟨n, (hwaits n m hlt).mpr hn⟩
    · exact .inr hnew
  known := hknown
  alone := halone
  noted := by
    obtain ⟨seen, hcard, hseen⟩ := h.noted
    refine ⟨seen, hcard.trans hcommitted.symm, fun m => (hseen m).trans ⟨?_, ?_⟩⟩
    · rintro ⟨hphase, hnone⟩
      have hlt := Committer.lt_of_phase? hphase
      exact ⟨hreturned m _ hphase, fun n hn => hnone n ((hwaits n m hlt).mp hn)⟩
    · rintro ⟨hphase, hnone⟩
      obtain hlt | ⟨n, hn⟩ := hnew m (Committer.lt_of_phase? hphase)
      · have hnone' : ∀ n, ¬ WaitsFor simulation n m := fun n hn =>
          hnone n ((hwaits n m hlt).mpr hn)
        obtain ⟨verdict, hverdict⟩ | ⟨n, hn⟩ := h.covered m hlt
        · rw [hreturned m verdict hverdict] at hphase
          obtain rfl := Phase.returned.inj (Option.some.inj hphase)
          exact ⟨hverdict, hnone'⟩
        · exact absurd hn (hnone' n)
      · exact absurd hn (hnone n)

/-- There are no new calls, and everybody waits as before. -/
theorem calm (h : Watched simulation)
    (hreturned : ∀ m verdict, simulation.committer.phase? m = some (.returned verdict) →
      later.committer.phase? m = some (.returned verdict))
    (hsize : later.committer.callers.size = simulation.committer.callers.size)
    (hwaits : ∀ n m, WaitsFor later n m ↔ WaitsFor simulation n m)
    (hcommitted : later.committed = simulation.committed) : Watched later :=
  h.carry hreturned (fun _ hm => .inl (hsize ▸ hm)) (fun n m _ => hwaits n m)
    (fun n m hn => hsize ▸ h.known n m ((hwaits n m).mp hn))
    (fun n k m hn hk => h.alone n k m ((hwaits n m).mp hn) ((hwaits k m).mp hk)) hcommitted

/-- A worker stores its value, and waits for the new call. -/
theorem store (h : Watched simulation) {finished caller : Nat} {fullKey : String}
    (hworker : simulation.workers[number]? = some { finished, activity := .storing fullKey })
    (hanswer : (simulation.committer.store fullKey finished).1 = .ok caller) :
    Watched ((simulation.act (.store fullKey finished)).setWorker number
      { finished, activity := .waiting caller }) := by
  obtain ⟨rfl, id, hcallers⟩ := Committer.store_eq_ok hanswer
  have hsize : (simulation.committer.step (.store fullKey finished)).callers.size =
      simulation.committer.callers.size + 1 := by rw [hcallers, Array.size_push]
  have hchange : Changes simulation ((simulation.act (.store fullKey finished)).setWorker number
      { finished, activity := .waiting simulation.committer.callers.size }) number _ _ :=
    ⟨hworker, rfl, rfl⟩
  have hwaits : ∀ n m, WaitsFor ((simulation.act (.store fullKey finished)).setWorker number
      { finished, activity := .waiting simulation.committer.callers.size }) n m ↔
        n = number ∧ m = simulation.committer.callers.size ∨ WaitsFor simulation n m := by
    intro n m
    rw [WaitsFor, hchange.does_iff]
    by_cases hn : n = number
    · have hnot : ¬ WaitsFor simulation n m := by
        rintro ⟨worker, hother, hactivity⟩
        rw [hn, hworker] at hother
        rw [← Option.some.inj hother] at hactivity
        contradiction
      rw [if_pos hn, or_iff_left hnot]
      simp [hn, eq_comm]
    · rw [if_neg hn]
      simp [hn]
  have hfresh : ∀ n, ¬ WaitsFor simulation n simulation.committer.callers.size := fun n hn =>
    Nat.lt_irrefl _ (h.known n _ hn)
  refine h.carry (fun m verdict hphase => Committer.returned_stays hphase _) (fun m hm => ?_)
    (fun n m hm => ?_) (fun n m hn => ?_) (fun n k m hn hk => ?_) rfl
  · change m < (simulation.committer.step (.store fullKey finished)).callers.size at hm
    obtain hlt | rfl : m < simulation.committer.callers.size ∨
        m = simulation.committer.callers.size := by omega
    · exact .inl hlt
    · exact .inr ⟨number, (hwaits _ _).mpr (.inl ⟨rfl, rfl⟩)⟩
  · rw [hwaits]
    exact or_iff_right fun heq => absurd heq.2 (Nat.ne_of_lt hm)
  · change m < (simulation.committer.step (.store fullKey finished)).callers.size
    obtain ⟨-, rfl⟩ | hold := (hwaits n m).mp hn
    · omega
    · have hlt := h.known n m hold
      omega
  · obtain ⟨rfl, rfl⟩ | hold := (hwaits n m).mp hn
    · obtain ⟨rfl, -⟩ | hold := (hwaits k _).mp hk
      · rfl
      · exact absurd hold (hfresh k)
    · obtain ⟨-, rfl⟩ | hold' := (hwaits k m).mp hk
      · exact absurd hold (hfresh n)
      · exact h.alone n k m hold hold'

/-- A worker takes note of the outcome of its call. -/
theorem collect (h : Watched simulation) {finished caller : Nat} {verdict : Verdict}
    (hworker : simulation.workers[number]? = some { finished, activity := .waiting caller })
    (hphase : simulation.committer.phase? caller = some (.returned verdict)) :
    Watched (simulation.count number { finished } verdict) := by
  have hown : WaitsFor simulation number caller := ⟨_, hworker, rfl⟩
  have hwaits : ∀ n m, WaitsFor (simulation.count number { finished } verdict) n m ↔
      WaitsFor simulation n m ∧ m ≠ caller := by
    intro n m
    rw [WaitsFor, Changes.does_iff ⟨hworker, workers_count, options_count⟩]
    split
    · next hn =>
      subst hn
      refine ⟨fun hactivity => by contradiction, ?_⟩
      rintro ⟨⟨worker, hother, hactivity⟩, hne⟩
      rw [← Option.some.inj (hworker.symm.trans hother)] at hactivity
      exact absurd (Activity.waiting.inj hactivity).symm hne
    · next hn =>
      refine ⟨fun hold => ⟨hold, ?_⟩, fun hold => hold.1⟩
      rintro rfl
      exact hn (h.alone n number m hold hown)
  obtain ⟨seen, hcard, hseen⟩ := h.noted
  have hnone : (∀ n, ¬ (WaitsFor simulation n caller ∧ caller ≠ caller)) := fun n hn => hn.2 rfl
  refine ⟨fun m hm => ?_, fun n m hn => ?_, fun n k m hn hk => ?_, ?_⟩
  · rw [committer_count] at hm ⊢
    obtain hreturned | ⟨n, hn⟩ := h.covered m hm
    · exact .inl hreturned
    · by_cases hm : m = caller
      · exact .inl ⟨verdict, hm ▸ hphase⟩
      · exact .inr ⟨n, (hwaits n m).mpr ⟨hn, hm⟩⟩
  · rw [committer_count]
    exact h.known n m ((hwaits n m).mp hn).1
  · exact h.alone n k m ((hwaits n m).mp hn).1 ((hwaits k m).mp hk).1
  · have hfresh : caller ∉ seen := fun hmem => ((hseen caller).mp hmem).2 number hown
    simp only [hwaits, committer_count, committed_count]
    cases verdict with
    | ok _ =>
      refine ⟨insert caller seen, by rw [Finset.card_insert_of_notMem hfresh, hcard]; rfl,
        fun m => ?_⟩
      rw [Finset.mem_insert, hseen]
      by_cases hm : m = caller
      · subst hm
        simp [hphase]
      · simp [hm]
    | error failure =>
      refine ⟨seen, hcard, fun m => (hseen m).trans ?_⟩
      by_cases hm : m = caller
      · subst hm
        simp [hphase]
      · simp [hm]

section Steps

variable {label : String} {settings : Settings} {scheme : KeyScheme}
  {slotBytes : Nat} {unstartable : Option (Sweeper × String)} {committer : Committer Nat Unit}
  (hlaunch : (Committer.launch label settings scheme slotBytes unstartable).1 = .ok committer)
  (hled : Led committer simulation)

include hlaunch hled

theorem next (h : Watched simulation) (hnext : Next simulation later) : Watched later := by
  cases hnext with
  | idle => exact h
  | act _ hbackground _ =>
    refine h.calm (fun m verdict hphase => Committer.returned_stays hphase _)
      (Committer.size_callers_step (hled.staffed hlaunch) fun fullKey value heq => ?_)
      (fun _ _ => Iff.rfl) rfl
    rw [heq] at hbackground
    contradiction
  | reserve hworker _ _ =>
    exact h.calm (fun m verdict hphase => Committer.returned_stays hphase _)
      (Committer.size_callers_step (hled.staffed hlaunch) (by simp))
      (Changes.waitsFor_same ⟨hworker, rfl, rfl⟩ (by simp) (by simp)) rfl
  | breakDown hworker _ _ =>
    exact h.calm (fun m verdict hphase => Committer.returned_stays hphase _)
      (Committer.size_callers_step (hled.staffed hlaunch) (by simp))
      (Changes.waitsFor_same ⟨hworker, rfl, rfl⟩ (by simp) (by simp)) rfl
  | refuse hworker _ _ =>
    exact h.calm (by simp) (by simp) (Changes.waitsFor_same
      ⟨hworker, workers_count, options_count⟩ (by simp) (by simp [Worker.advance])) rfl
  | store hworker hanswer => exact h.store hworker hanswer
  | lose hworker _ =>
    exact h.calm (by simp) (by simp) (Changes.waitsFor_same
      ⟨hworker, workers_count, options_count⟩ (by simp) (by simp [Worker.advance])) rfl
  | collect hworker hphase => exact h.collect hworker hphase

end Steps

end Watched

/-! ## Values that are missing -/

section Missing

variable {label : String} {settings : Settings} {scheme : KeyScheme}
  {slotBytes : Nat}
  {unstartable : Option (Sweeper × String)} {committer : Committer Nat Unit} {fullKey : String}

/-- Whose values the live groups miss: each one is about to be stored. The parent keys must not have
started again, for otherwise a group may have lost its entry to another one. -/
def Tended (scheme : KeyScheme) (simulation : Simulation) : Prop :=
  simulation.committer.registry.issued ≤ scheme.cycle →
    ∀ fullKey, simulation.committer.registry.Misses fullKey →
      ∃ n, Does simulation n (.storing fullKey)

namespace Tended

/-- The committer stands still, and no worker stops storing a value that is missing. -/
theorem change (h : Tended scheme simulation) (hchange : Changes simulation later number old new)
    (hcommitter : later.committer = simulation.committer)
    (hold : simulation.committer.registry.issued ≤ scheme.cycle → ∀ fullKey,
      simulation.committer.registry.Misses fullKey → old.activity ≠ .storing fullKey) :
    Tended scheme later := fun hissued fullKey hmisses => by
  rw [hcommitter] at hissued hmisses
  obtain ⟨n, hdoes⟩ := h hissued fullKey hmisses
  exact ⟨n, hdoes.change hchange (hold hissued fullKey hmisses)⟩

variable (hlaunch : (Committer.launch label settings scheme slotBytes unstartable).1 =
  .ok committer)
  (hled : Led committer simulation) (hseparator : scheme.separator.isDigit = false)

include hlaunch hled hseparator

theorem issued_le (action : Action Nat Unit) : simulation.committer.registry.issued ≤
    (simulation.committer.step action).registry.issued :=
  (Committer.keeps_step _ (by rwa [hled.scheme_eq hlaunch]) action).issued

/-- A value that is missing is not refused. -/
theorem not_refused (hundisturbed : Undisturbed simulation)
    (hissued : simulation.committer.registry.issued ≤ scheme.cycle) {value : Nat}
    {failure : Failure} (hanswer : (simulation.committer.store fullKey value).1 = .error failure) :
    ¬ simulation.committer.registry.Misses fullKey := by
  intro hmisses
  have hopened := hundisturbed.opened
  obtain ⟨actions, hactions⟩ := hled
  rw [hactions] at hissued hanswer hmisses hopened
  obtain ⟨n, hok⟩ := Committer.store_of_misses hlaunch hseparator _ hissued hopened value hmisses
  rw [hanswer] at hok
  contradiction

/-- A value that is stored is not missing any more. -/
theorem not_misses_of_store {value caller : Nat}
    (hanswer : (simulation.committer.store fullKey value).1 = .ok caller)
    (hissued : (simulation.committer.step (.store fullKey value)).registry.issued ≤ scheme.cycle) :
    ¬ (simulation.committer.step (.store fullKey value)).registry.Misses fullKey := by
  obtain ⟨-, id, hcallers⟩ := Committer.store_eq_ok hanswer
  have hcaller : (simulation.committer.step (.store fullKey value)).callers[
      simulation.committer.callers.size]? = some { group := id, fullKey } := by
    rw [hcallers, Array.getElem?_push_size]
  obtain ⟨actions, hactions⟩ := hled
  have hrun : simulation.committer.step (.store fullKey value) =
      committer.run (.install () :: actions ++ [.store fullKey value]) := by
    rw [hactions, Committer.run_append]
    rfl
  rw [hrun] at hcaller hissued ⊢
  exact Committer.not_misses_of_caller hlaunch hseparator _ hissued hcaller

theorem next (h : Tended scheme simulation) (hundisturbed : Undisturbed simulation)
    (hnext : Next simulation later) : Tended scheme later := by
  have hle := issued_le hlaunch hled hseparator
  cases hnext with
  | idle => exact h
  | act action hbackground _ =>
    refine fun hissued fullKey hmisses => h (Nat.le_trans (hle action) hissued) fullKey
      ((((hled.staffed hlaunch).deed action).descends fun now child heq => ?_).misses hmisses)
    rw [heq] at hbackground
    contradiction
  | @reserve number finished now fullKey hworker _ hanswer =>
    intro hissued other hmisses
    have hchange : Changes simulation ((simulation.act (.reserve now
        (childKey number finished))).setWorker number { finished, activity := .storing fullKey })
        number _ _ := ⟨hworker, rfl, rfl⟩
    obtain rfl | hbefore := (hled.placed hlaunch hanswer).misses hmisses
    · exact ⟨number, hchange.does_iff.mpr (by rw [if_pos rfl])⟩
    · obtain ⟨n, hdoes⟩ := h (Nat.le_trans (hle _) hissued) other hbefore
      exact ⟨n, hdoes.change hchange (by simp)⟩
  | @breakDown number finished now hworker _ hanswer =>
    intro hissued other hmisses
    have hchange : Changes simulation ((simulation.act (.reserve now
        (childKey number finished))).setWorker number { finished, activity := .broken })
        number _ _ := ⟨hworker, rfl, rfl⟩
    have hbefore : simulation.committer.registry.Misses other := by
      rw [Simulation.setWorker, Simulation.act, Committer.step,
        Committer.reserve_of_none hanswer] at hmisses
      exact hmisses
    obtain ⟨n, hdoes⟩ := h (Nat.le_trans (hle _) hissued) other hbefore
    exact ⟨n, hdoes.change hchange (by simp)⟩
  | refuse hworker _ _ =>
    exact h.change ⟨hworker, workers_count, options_count⟩ committer_count (by simp)
  | @store number finished fullKey caller hworker hanswer =>
    intro hissued other hmisses
    have hchange : Changes simulation ((simulation.act (.store fullKey finished)).setWorker number
        { finished, activity := .waiting caller }) number _ _ := ⟨hworker, rfl, rfl⟩
    have hbefore := (((hled.staffed hlaunch).deed (.store fullKey finished)).descends
      (by simp)).misses hmisses
    obtain ⟨n, hdoes⟩ := h (Nat.le_trans (hle _) hissued) other hbefore
    refine ⟨n, hdoes.change hchange fun heq => ?_⟩
    obtain rfl := Activity.storing.inj heq
    exact not_misses_of_store hlaunch hled hseparator hanswer hissued hmisses
  | lose hworker hanswer =>
    refine h.change ⟨hworker, workers_count, options_count⟩ committer_count
      fun hissued other hmisses heq => ?_
    obtain rfl := Activity.storing.inj heq
    exact not_refused hlaunch hled hseparator hundisturbed hissued hanswer hmisses
  | collect hworker _ =>
    exact h.change ⟨hworker, workers_count, options_count⟩ committer_count (by simp)

end Tended

end Missing

/-! ## Numbers of emissions -/

/-- The emission of this number fails. -/
def fails (failEvery : Option Nat) (number : Nat) : Bool := failEvery.any fun k => number % k == 0

theorem isOk_flush (failEvery : Option Nat) (number : Nat) (emission : Emission Nat) :
    (flush failEvery number emission).isOk = !fails failEvery number := by
  cases failEvery with
  | none => rfl
  | some k =>
    rw [flush]
    by_cases h : number % k = 0 <;> simp [fails, h, Except.isOk, Except.toBool]

/-- The numbers of the emissions tell which of them have failed. -/
def Numbered (simulation : Simulation) : Prop :=
  ∀ (m : Nat) (emission : Emission Nat) (answer : Except String Unit),
    simulation.committer.emissions[m]? = some emission → emission.answer = some answer →
      answer.isOk = !fails simulation.options.failEvery (m + 1)

namespace Numbered

theorem act (h : Numbered simulation) (hs : simulation.committer.Staffed) (action : Action Nat Unit)
    (hflush : ∀ n answer, action = .complete n answer → ∃ m emission,
      simulation.committer.phase? n = some (.emitting m) ∧
        answer = flush simulation.options.failEvery (m + 1) emission) :
    Numbered (simulation.act action) := fun m emission answer hemission hanswer => by
  obtain hbefore | hnone | ⟨n, same, heq, hphase, hsame⟩ :=
    (simulation.committer.move_step action hs.known).emission_cases hemission
  · exact h m emission answer hbefore hanswer
  · rw [hnone] at hanswer
    contradiction
  · obtain rfl := Option.some.inj (hsame.symm.trans hanswer)
    obtain ⟨k, run, hphase', rfl⟩ := hflush n same heq
    obtain rfl := Phase.emitting.inj (Option.some.inj (hphase.symm.trans hphase'))
    exact isOk_flush _ _ _

theorem next (h : Numbered simulation) (hs : simulation.committer.Staffed)
    (hnext : Next simulation later) : Numbered later := by
  cases hnext with
  | idle => exact h
  | act action _ hflush => exact h.act hs action hflush
  | @reserve number finished now _ _ _ _ =>
    exact h.act hs (.reserve now (childKey number finished)) (by simp)
  | @breakDown number finished now _ _ _ =>
    exact h.act hs (.reserve now (childKey number finished)) (by simp)
  | @store _ finished fullKey _ _ _ => exact h.act hs (.store fullKey finished) (by simp)
  | refuse _ _ _ => exact h
  | lose _ _ => exact h
  | @collect _ _ _ verdict _ _ =>
    rw [Numbered, committer_count, options_count]
    exact h

end Numbered

end Simulation

end BatchedCommit
