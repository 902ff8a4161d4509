import BatchedCommit.Proofs.Current
import BatchedCommit.Proofs.Outcomes

/-!
# BatchedCommit.Proofs.Refusals

Calls that fail. A call that is refused leaves the committer as it was. A call that has stored its
value is not refused any more: it ends with the outcome of its group, which is a success or a
failure that the whole group shares. So a failure that is not shared tells its caller that nothing
has happened.
-/

namespace BatchedCommit

variable {ν ε : Type}

/-! ## Groups -/

/-- An operation on a group that fails leaves the group as it was. -/
theorem Group.perform_of_error {group : Group ν} {operation : GroupOperation ν}
    {failure : Failure} (h : (group.perform operation).1 = .verdict (.error failure)) :
    (group.perform operation).2 = group := by
  have hsettle : ∀ answer : Except Failure (Group ν),
      (group.settle answer).1 = .verdict (.error failure) → (group.settle answer).2 = group := by
    intro answer hanswer
    cases answer with
    | ok changed => injection hanswer; contradiction
    | error other => rfl
  cases operation with
  | reserve now child fullKey => exact hsettle _ h
  | put fullKey value => exact hsettle _ h
  | remove fullKey => exact hsettle _ h
  | claim =>
    rw [perform] at h
    split at h <;> contradiction
  | fixSize now => contradiction
  | markReady => contradiction
  | extractLagging now window => contradiction
  | finish verdict => contradiction
  | abort reason => contradiction

namespace Committer

/-! ## Calls that are refused -/

variable {committer : Committer ν ε} {fullKey : String} {value : ν} {failure : Failure}

/-- A value that is refused leaves the committer as it was. -/
theorem store_of_error (h : (committer.store fullKey value).1 = .error failure) :
    (committer.store fullKey value).2 = committer := by
  rw [store] at h ⊢
  obtain ⟨refusal, heq⟩ | ⟨id, group, changed, -, -, -, -, heq⟩ :=
    committer.registry.store_cases fullKey value
  · rw [heq]
    exact absorb_same _ _
  · rw [heq] at h
    contradiction

/-- A removal that is refused leaves the committer as it was. -/
theorem remove_of_error (h : (committer.remove fullKey).1 = .error failure) :
    (committer.remove fullKey).2 = committer := by
  rw [remove] at h ⊢
  obtain ⟨refusal, heq⟩ | ⟨id, group, changed, -, -, -, -, -, heq⟩ |
    ⟨id, group, changed, -, -, -, -, -, heq⟩ := committer.registry.remove_cases fullKey
  · rw [heq]
    exact absorb_same _ _
  · rw [heq] at h
    contradiction
  · rw [heq] at h
    contradiction

/-! ## Calls that have stored their value -/

/-- What a waiting call returns as a failure is shared by its group. -/
theorem isShared_of_returned (hs : Staffed committer) (ha : Accounted committer)
    (hended : ∀ (id : Nat) (group : Group ν), committer.registry.groups[id]? = some group →
      group.WellEnded)
    {n : Nat} (hphase : committer.phase? n = some (.returned (.error failure))) :
    failure.isShared = true := by
  obtain ⟨caller, hcaller, hreturned⟩ := Option.map_eq_some_iff.mp hphase
  have hgroup := Array.getElem?_eq_getElem (hs.known n caller hcaller)
  have houtcome := (hs.attended _ _ hgroup).fits n caller hcaller rfl
  rw [hreturned] at houtcome
  obtain ⟨m, emission, answer, -, -, -, hverdict⟩ | ⟨-, hverdict⟩ :=
    outcome_cases hs ha hgroup (hended _ _ hgroup) houtcome
  · cases answer with
    | ok done => contradiction
    | error cause => rw [Except.error.inj hverdict]; rfl
  · obtain hclosed | ⟨key, haborted⟩ | ⟨key, hmissing⟩ := hverdict
    · rw [Except.error.inj hclosed]; rfl
    · rw [Except.error.inj haborted]; rfl
    · rw [Except.error.inj hmissing]; rfl

/-- How a call ends that is to store a value and to wait for its group, while others act in the
meantime. -/
inductive Answered (committer : Committer ν ε) (fullKey : String) (value : ν)
    (meanwhile : List (Action ν ε)) : Verdict → Prop where
  /-- The value is refused. -/
  | refused {failure : Failure} (h : (committer.store fullKey value).1 = .error failure) :
      Answered committer fullKey value meanwhile (.error failure)
  /-- The value is stored, and the call returns what its group has come to. -/
  | returned {n : Nat} {verdict : Verdict} (hstore : (committer.store fullKey value).1 = .ok n)
      (hphase : ((committer.step (.store fullKey value)).run meanwhile).phase? n =
        some (.returned verdict)) :
      Answered committer fullKey value meanwhile verdict

/-- Failed calls change nothing, in every reachable state.

A reservation, a removal or a value that is refused leaves the whole committer as it was: its
groups and their slots, its tombstones, the number of parent keys and all counters. A call whose
value was stored returns a success or a shared failure. So a call with a value that returns a
failure that is not shared, at whatever time, was refused, and has changed nothing. In the same
way every operation on a single group that fails leaves the group as it was. -/
theorem failures_change_nothing {label : String} {settings : Settings} {scheme : KeyScheme}
    {slotBytes : Nat} {unstartable : Option (Sweeper × String)} {start : Committer ν ε}
    (hstart : (launch label settings scheme slotBytes unstartable).1 = .ok start)
    (actions : List (Action ν ε)) :
    (∀ now child failure, ((start.run actions).reserve now child).1 = some (.error failure) →
      ((start.run actions).reserve now child).2 = start.run actions) ∧
    (∀ fullKey failure, ((start.run actions).remove fullKey).1 = .error failure →
      ((start.run actions).remove fullKey).2 = start.run actions) ∧
    (∀ fullKey value failure, ((start.run actions).store fullKey value).1 = .error failure →
      ((start.run actions).store fullKey value).2 = start.run actions) ∧
    (∀ fullKey value n meanwhile verdict, ((start.run actions).store fullKey value).1 = .ok n →
      (((start.run actions).step (.store fullKey value)).run meanwhile).phase? n =
        some (.returned verdict) →
      verdict = .ok () ∨ ∃ failure, verdict = .error failure ∧ failure.isShared = true) ∧
    (∀ fullKey value meanwhile failure,
      Answered (start.run actions) fullKey value meanwhile (.error failure) →
      failure.isShared = false →
      ((start.run actions).store fullKey value).1 = .error failure ∧
        ((start.run actions).store fullKey value).2 = start.run actions) ∧
    ∀ (group : Group ν) (operation : GroupOperation ν) (failure : Failure),
      (group.perform operation).1 = .verdict (.error failure) →
      (group.perform operation).2 = group := by
  have hshared : ∀ {fullKey : String} {value : ν} {n : Nat} {meanwhile : List (Action ν ε)}
      {failure : Failure},
      (((start.run actions).step (.store fullKey value)).run meanwhile).phase? n =
        some (.returned (.error failure)) → failure.isShared = true := by
    intro fullKey value n meanwhile failure hphase
    rw [← run_cons, ← run_append] at hphase
    exact isShared_of_returned ((Staffed.launch hstart).run _) (accounted_run hstart _)
      (fun _ _ hgroup => wellEnded_run hstart _ hgroup) hphase
  refine ⟨fun now child failure h => reserve_of_error h, fun key failure h => remove_of_error h,
    fun key value failure h => store_of_error h, fun key value n meanwhile verdict _ hphase => ?_,
    fun key value meanwhile failure hanswered hnot => ?_,
    fun group operation failure h => Group.perform_of_error h⟩
  · cases verdict with
    | ok done => exact .inl rfl
    | error failure => exact .inr ⟨failure, rfl, hshared hphase⟩
  · cases hanswered with
    | refused h => exact ⟨h, store_of_error h⟩
    | returned hstore hphase =>
      rw [hshared hphase] at hnot
      contradiction

/-- A value for a slot of the pair that has one is refused, and nothing has changed; the call that
stored the first one is told that the committer was closed. -/
theorem second_value_refused_in_pair :
    (pairs.run [.reserve 0 "a", .store "0000:a" 1]).store "0000:a" 2 =
        (.error (.alreadyReady "0000:a"), pairs.run [.reserve 0 "a", .store "0000:a" 1]) ∧
      ((pairs.run [.reserve 0 "a"]).store "0000:a" 1).1 = .ok 0 ∧
      (((pairs.run [.reserve 0 "a"]).step (.store "0000:a" 1)).run [.close, .look 0]).phase? 0 =
        some (.returned (.error .closed)) ∧
      Failure.closed.isShared = true := by
  have hstart : (launch "pairs" { Settings.default with slotCapacity := 2 } {} 72 none).1 =
      .ok pairs := rfl
  have hrefused : ((pairs.run [.reserve 0 "a", .store "0000:a" 1]).store "0000:a" 2).1 =
      .error (.alreadyReady "0000:a") := by decide +kernel
  have hsame := (failures_change_nothing hstart _).2.2.1 _ _ _ hrefused
  have hstored : ((pairs.run [.reserve 0 "a"]).store "0000:a" 1).1 = .ok 0 := by decide +kernel
  have hphase : (((pairs.run [.reserve 0 "a"]).step (.store "0000:a" 1)).run
      [.close, .look 0]).phase? 0 = some (.returned (.error .closed)) := by decide +kernel
  refine ⟨Prod.ext hrefused hsame, hstored, hphase, ?_⟩
  obtain hok | ⟨failure, hfailure, hshared⟩ :=
    (failures_change_nothing hstart _).2.2.2.1 _ _ _ _ _ hstored hphase
  · injection hok
  · rw [Except.error.inj hfailure]
    exact hshared

end Committer

end BatchedCommit
