import BatchedCommit.Proofs.Notices

/-!
# BatchedCommit.Proofs.Journal

What a committer reports agrees with what it counts, in every reachable state
(`Committer.events_agree_with_counters`). What a step adds to the journal says what has happened in
it (`tells_step`), so the journal says what has happened since the launch (`tells_run`), when the
registry was empty.
-/

namespace BatchedCommit

variable {ν ε α : Type}

/-! ## Steps -/

namespace Committer

open Registry (Tells)

variable {committer middle later : Committer ν ε}

/-- From one committer to a later one, what was added to the journal says what has happened. -/
def Tells (committer later : Committer ν ε) : Prop :=
  ∃ events, later.journal.toList = committer.journal.toList ++ events ∧
    committer.registry.Tells events later.registry

namespace Tells

theorem refl (committer : Committer ν ε) : Tells committer committer :=
  ⟨[], by simp, .refl _⟩

theorem trans (h : Tells committer middle) (h' : Tells middle later) : Tells committer later := by
  obtain ⟨first, hfirst, htells⟩ := h
  obtain ⟨second, hsecond, htells'⟩ := h'
  exact ⟨first ++ second, by rw [hsecond, hfirst, List.append_assoc], htells.trans htells'⟩

theorem absorb {state : Section ν α} (h : committer.registry.Tells state.events state.registry)
    (hjournal : later.journal = committer.journal ++ state.events)
    (hregistry : later.registry = state.registry) : Tells committer later :=
  ⟨state.events, by simp [hjournal], by rwa [hregistry]⟩

/-- A step that reports nothing. -/
theorem silent (h : committer.registry.Tells [] later.registry)
    (hjournal : later.journal = committer.journal) : Tells committer later :=
  ⟨[], by simp [hjournal], h⟩

/-- A step that reports one event. -/
theorem single {event : Event} (h : committer.registry.Tells [event] later.registry)
    (hjournal : later.journal = committer.journal.push event) : Tells committer later :=
  ⟨[event], by simp [hjournal], h⟩

end Tells

theorem tells_stop (committer : Committer ν ε) (sweeper : Sweeper) :
    Tells committer (committer.stop sweeper) := by
  rw [stop]
  split
  · exact .single (.single (Registry.plain_bump _ _) .sweeperPanics rfl rfl rfl rfl) rfl
  · exact .single (.remark (.same rfl rfl rfl) rfl .sweeperStopped rfl (by decide) rfl rfl) rfl

theorem tells_close (committer : Committer ν ε) : Tells committer committer.close := by
  rw [close]
  split
  · exact .refl committer
  · have habsorbed : Tells committer (committer.absorb committer.registry.close) :=
      .absorb (Registry.tells_close _) rfl rfl
    have hstopped := Registry.foldl_keep (P := Tells committer) Sweeper.all
      (fun later sweeper _ hlater => hlater.trans (later.tells_stop sweeper)) habsorbed
    refine hstopped.trans (.single (.remark ?_ rfl .committerClosed rfl (by decide) rfl rfl) rfl)
    exact .same rfl rfl rfl

theorem tells_begin (committer : Committer ν ε) (n : Nat) :
    Tells committer (committer.begin n) := by
  rw [begin]
  split
  · dsimp only
    split
    · exact .single (.single (Registry.plain_bump _ _) .emitFailures rfl rfl rfl rfl) rfl
    · exact .silent (.refl _) rfl
  · exact .refl committer

theorem tells_complete (committer : Committer ν ε) (n : Nat) (answer : Except String Unit) :
    Tells committer (committer.complete n answer) := by
  rw [complete]
  split
  · split
    · exact .refl committer
    · cases answer with
      | ok _ =>
        refine .single (.of_plain (.same rfl rfl rfl) rfl fun counter _ => ?_) rfl
        cases counter <;> rfl
      | error cause =>
        exact .single (.single (Registry.plain_bump _ _) .emitFailures rfl rfl rfl rfl) rfl
  · exact .refl committer

/-- What a step adds to the journal says what has happened in it. -/
theorem tells_step (hdated : committer.registry.Dated) (action : Action ν ε) :
    Tells committer (committer.step action) := by
  cases action with
  | reserve now child => exact .absorb (Registry.tells_reserve hdated now child) rfl rfl
  | store fullKey value =>
    have hstore := Registry.tells_store committer.registry fullKey value
    unfold step store
    dsimp only
    split <;> exact .absorb hstore rfl rfl
  | remove fullKey => exact .absorb (Registry.tells_remove _ fullKey) rfl rfl
  | install emitter => exact .silent (.refl _) rfl
  | close => exact committer.tells_close
  | sweep sweeper now =>
    cases sweeper with
    | sizeFix => exact .absorb (Registry.tells_fixSizes hdated now) rfl rfl
    | relocate =>
      unfold step sweep
      dsimp only
      split
      · exact .absorb (Registry.tells_relocate _ now) rfl rfl
      · exact .refl committer
    | abort => exact .absorb (Registry.tells_abortOld _ now) rfl rfl
  | deliver id =>
    unfold step deliver
    dsimp only
    split <;> exact .silent (.refl _) rfl
  | stir n =>
    unfold step stir
    dsimp only
    split <;> exact .silent (.refl _) rfl
  | look n =>
    unfold step look
    dsimp only
    split
    · next id _ _ =>
      have hglance := Registry.tells_glance committer.registry id
      split <;> exact .absorb hglance rfl rfl
    · exact .refl committer
  | begin n => exact committer.tells_begin n
  | complete n answer => exact committer.tells_complete n answer
  | conclude n =>
    unfold step conclude
    dsimp only
    split
    · exact .silent (Registry.tells_finish _ _ _) rfl
    · exact .refl committer
  | announce n =>
    unfold step announce
    dsimp only
    split <;> exact .silent (.refl _) rfl
  | leave n =>
    unfold step leave
    dsimp only
    split
    · exact .silent (Registry.tells_retire _ _) rfl
    · exact .refl committer

/-! ## Runs -/

/-- The parent keys of the groups whose size was reported as fixed. -/
def notices (committer : Committer ν ε) : List String :=
  committer.journal.toList.filterMap Event.fixed?

section Runs

variable {label : String} {settings : Settings} {scheme : KeyScheme}
  {slotBytes : Nat} {unstartable : Option (Sweeper × String)} {start : Committer ν ε}
  (hstart : (launch label settings scheme slotBytes unstartable).1 = .ok start)

include hstart

theorem dated_run (actions : List (Action ν ε)) : (start.run actions).registry.Dated :=
  group_invariant hstart (fun _ hborn => .newborn hborn) (fun _ _ hnext h => h.next hnext) actions

theorem tells_launch :
    (Registry.empty settings scheme slotBytes).Tells start.journal.toList start.registry := by
  unfold launch at hstart
  cases hvalid : settings.validate with
  | error failure =>
    rw [hvalid] at hstart
    contradiction
  | ok _ =>
    rw [hvalid] at hstart
    cases unstartable with
    | some worker => contradiction
    | none =>
      rw [← Except.ok.inj hstart]
      refine .of_plain (.same rfl rfl rfl) rfl fun counter _ => ?_
      cases counter <;> rfl

/-- The journal says what has happened since the launch. -/
theorem tells_run (actions : List (Action ν ε)) :
    (Registry.empty settings scheme slotBytes).Tells (start.run actions).journal.toList
      (start.run actions).registry := by
  induction actions using List.reverseRecOn with
  | nil => exact tells_launch hstart
  | append_singleton actions action ih =>
    obtain ⟨events, hjournal, htells⟩ := tells_step (dated_run hstart actions) action
    rw [run_append]
    show Registry.Tells _ ((start.run actions).step action).journal.toList
      ((start.run actions).step action).registry
    rw [hjournal]
    exact ih.trans htells

/-- A thing that has a kind of events was counted as often as there are such events. -/
theorem count_of_kind (actions : List (Action ν ε)) (counter : Counter) {kind : EventKind}
    (hkind : counter.kind? = some kind) :
    (start.run actions).journal.toList.countP (·.kind == kind) =
      (start.run actions).registry.counters.get counter := by
  have hreported : counter.isReported = true := by
    cases counter <;> first | rfl | contradiction
  have hzero :
      (Registry.empty settings scheme slotBytes : Registry ν).counters.get counter = 0 := by
    cases counter <;> rfl
  rw [(tells_run hstart actions).counters counter hreported, reported_of_kind hkind, hzero,
    Nat.zero_add]

/-- There are as many notices under a key as groups of this key whose size was fixed. -/
theorem count_notices (actions : List (Action ν ε)) (key : String) :
    (start.run actions).notices.count key =
      tally (ones (Group.isFixedUnder key)) (start.run actions).registry.groups := by
  rw [(tells_run hstart actions).notices key]
  exact (Nat.zero_add _).symm

/-- Apart from their order, the notices are the parent keys of the groups whose size was fixed. -/
theorem notices_perm (actions : List (Action ν ε)) : (start.run actions).notices.Perm
    (((start.run actions).registry.groups.toList.filter Group.isFixed).map Group.key) := by
  refine List.perm_iff_count.mpr fun key => ?_
  rw [count_notices hstart, tally_ones_eq_countP, List.count, List.countP_map, List.countP_filter]
  exact List.countP_congr fun group _ => by simp [Group.isFixedUnder, and_comm]

/-- Before the counter of parent keys comes round, no key is in two notices. -/
theorem count_notices_le_one (actions : List (Action ν ε))
    (hissued : (start.run actions).registry.issued ≤ scheme.cycle) (key : String) :
    (start.run actions).notices.count key ≤ 1 := by
  have hscheme := (run_constant hstart actions).2
  have hnumbered : (start.run actions).registry.Numbered :=
    (tells_run hstart actions).numbered fun _ => Nat.le_refl 0
  have hnodup : ((List.range (start.run actions).registry.issued).map scheme.parentKey).Nodup :=
    List.Nodup.map_on (fun m hm n hn heq => KeyScheme.parentKey_inj
      (Nat.lt_of_lt_of_le (List.mem_range.mp hm) hissued)
      (Nat.lt_of_lt_of_le (List.mem_range.mp hn) hissued) heq) List.nodup_range
  calc (start.run actions).notices.count key
      = tally (ones (Group.isFixedUnder key)) (start.run actions).registry.groups :=
        count_notices hstart actions key
    _ ≤ tally (ones (Group.bears key)) (start.run actions).registry.groups := by
        refine tally_mono fun i group _ => ?_
        simp only [within, Group.isFixedUnder, Group.isFixed, Group.bears, Bool.and_eq_true]
        split <;> split <;> simp_all
    _ ≤ ((List.range (start.run actions).registry.issued).map scheme.parentKey).count key :=
        hscheme ▸ hnumbered key
    _ ≤ 1 := List.nodup_iff_count_le_one.mp hnodup key

/-- A normal group that was found beyond `opened` at some time, and not aborted, is one whose size
was fixed. -/
theorem isFixed_of_left {earlier actions : List (Action ν ε)} (hearlier : earlier <+: actions)
    {id : Nat} {before group : Group ν}
    (hbefore : (start.run earlier).registry.groups[id]? = some before)
    (hkind : before.kind = .normal) (hopen : before.stage ≠ .opened)
    (haborted : before.stage ≠ .aborted)
    (hgroup : (start.run actions).registry.groups[id]? = some group) : group.isFixed = true := by
  obtain ⟨more, rfl⟩ := hearlier
  have hsome := (dated_run hstart earlier id before hbefore).fixed hopen haborted
  obtain ⟨later, hlater, hhead, hfixed⟩ :=
    group_stays (P := fun later => Group.SameHead before later ∧ later.fixedAt.isSome = true)
      ((Staffed.launch hstart).run earlier)
      (fun _ _ hnext h => ⟨h.1.trans hnext.sameHead, hnext.fixedAt_isSome h.2⟩) more hbefore
      ⟨.refl before, hsome⟩
  rw [← run_append] at hlater
  rw [← Option.some.inj (hlater.symm.trans hgroup)]
  simp [Group.isFixed, hhead.kind, hkind, hfixed]

end Runs

/-- In every reachable state, whatever the order of the steps was:

* each thing that has a kind of events was counted as often as there are such events in the journal,
  and the numbers of values in the events of emissions that succeeded add up to the values that were
  counted;
* there is one notice for each normal group whose size was fixed, under its parent key, and there
  are no other notices. Such is every normal group that was ever found beyond `opened` and not
  aborted;
* before the counter of parent keys comes round, no normal group has two notices under its key, and
  it has one if its size was fixed. -/
theorem events_agree_with_counters {label : String} {settings : Settings} {scheme : KeyScheme}
    {slotBytes : Nat} {unstartable : Option (Sweeper × String)} {start : Committer ν ε}
    (hstart : (launch label settings scheme slotBytes unstartable).1 = .ok start)
    (actions : List (Action ν ε)) :
    (∀ counter kind, Counter.kind? counter = some kind →
      (start.run actions).journal.toList.countP (·.kind == kind) =
        (start.run actions).registry.counters.get counter) ∧
    ((start.run actions).journal.toList.map Event.values).sum =
      (start.run actions).registry.counters.get .valuesEmitted ∧
    (start.run actions).notices.Perm
      (((start.run actions).registry.groups.toList.filter Group.isFixed).map Group.key) ∧
    (∀ (earlier : List (Action ν ε)) (id : Nat) (before group : Group ν), earlier <+: actions →
      (start.run earlier).registry.groups[id]? = some before → before.kind = .normal →
      before.stage ≠ .opened → before.stage ≠ .aborted →
      (start.run actions).registry.groups[id]? = some group → group.isFixed = true) ∧
    ((start.run actions).registry.issued ≤ scheme.cycle → ∀ (id : Nat) (group : Group ν),
      (start.run actions).registry.groups[id]? = some group → group.kind = .normal →
      (start.run actions).notices.count group.key ≤ 1 ∧
      (group.isFixed = true → (start.run actions).notices.count group.key = 1)) := by
  have hperm := notices_perm hstart actions
  refine ⟨fun counter _ => count_of_kind hstart actions counter, ?_, hperm,
    fun earlier id before group hearlier hbefore hkind hopen haborted hgroup =>
      isFixed_of_left hstart hearlier hbefore hkind hopen haborted hgroup,
    fun hissued id group hgroup _ =>
      ⟨count_notices_le_one hstart actions hissued _, fun hfixed => ?_⟩⟩
  · rw [(tells_run hstart actions).counters .valuesEmitted rfl, reported_valuesEmitted]
    exact (Nat.zero_add _).symm
  · have hmem : group.key ∈ (start.run actions).notices :=
      hperm.mem_iff.mpr (List.mem_map_of_mem (List.mem_filter.mpr
        ⟨Array.mem_toList_iff.mpr (Array.mem_of_getElem? hgroup), hfixed⟩))
    exact Nat.le_antisymm (count_notices_le_one hstart actions hissued _)
      (List.count_pos_iff.mpr hmem)

/-- A pair that was emitted, and a third slot in a group of its own. -/
def pairAndThird : List (Action Nat Unit) :=
  [.install (), .reserve 0 "a", .reserve 0 "b", .reserve 0 "c", .store "0000:a" 1,
    .store "0000:b" 2, .look 0, .begin 0, .complete 0 (.ok ())]

/-- The emission of the pair was reported once, with both of its values; the size of the pair was
reported as fixed, that of the other group was not. -/
theorem reports_of_pair :
    (launch "pairs" { Settings.default with slotCapacity := 2 } {} 72 none).1 = .ok pairs ∧
    (pairs.run pairAndThird).journal.toList.countP (·.kind == .groupOpened) = 2 ∧
    ((pairs.run pairAndThird).journal.toList.map Event.values).sum = 2 ∧
    (pairs.run pairAndThird).notices.Perm ["0000"] := by
  have hstart : (launch "pairs" { Settings.default with slotCapacity := 2 } {} 72 none).1 =
      .ok pairs := rfl
  obtain ⟨hcounts, hvalues, hnotices, -⟩ := events_agree_with_counters hstart pairAndThird
  exact ⟨hstart, hcounts .groupsOpened .groupOpened rfl, hvalues, hnotices⟩

end Committer

end BatchedCommit
