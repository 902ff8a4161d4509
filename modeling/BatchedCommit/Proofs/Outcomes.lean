import BatchedCommit.Proofs.Distinct
import BatchedCommit.Proofs.Emissions

/-!
# BatchedCommit.Proofs.Outcomes

The callers of a group share one outcome (`Committer.shared_outcome`): their slots stay in the
group, the emitter runs at most once for it and under a key of its own, and what that run
answered is what all of them return.
-/

namespace BatchedCommit

variable {ν ε : Type}

/-! ## Keys lead to one group -/

namespace Registry.Distinct

variable {registry : Registry ν}

/-- No two groups are emitted under the same key. -/
theorem emitKey_inj (h : registry.Distinct) (hscheme : registry.scheme.Sequential) {i j : Nat}
    {one two : Group ν} (hone : registry.groups[i]? = some one)
    (htwo : registry.groups[j]? = some two) (heq : one.emitKey = two.emitKey) : i = j := by
  have hderived : ∀ {id : Nat} {group : Group ν}, registry.groups[id]? = some group →
      group.kind = .delayed → group.emitKey = group.key := by
    intro id group hgroup hkind
    have hkey := (h.named id group hgroup).derived hkind
    rw [KeyScheme.delayedEmitKey?, hscheme.delayed] at hkey
    simpa using (Option.some.inj hkey).symm
  -- the full key of a slot is not a parent key
  have hmixed : ∀ {i j : Nat} {one two : Group ν}, registry.groups[i]? = some one →
      registry.groups[j]? = some two → one.kind = .normal → two.kind = .delayed →
      one.emitKey ≠ two.emitKey := by
    intro i j one two hone htwo hnormal hdelayed heq
    rw [(h.named i one hone).parent hnormal, hderived htwo hdelayed] at heq
    obtain ⟨place, origin, child, -, -, -, hkey⟩ := h.source j two htwo hdelayed
    rw [hkey] at heq
    exact KeyScheme.fullKey_ne_parent hscheme.separator (h.isParent_key hone hnormal) heq.symm
  cases hkind : one.kind with
  | normal =>
    cases hkind' : two.kind with
    | normal =>
      rw [(h.named i one hone).parent hkind, (h.named j two htwo).parent hkind'] at heq
      exact h.unique i j one two hone htwo hkind hkind' heq
    | delayed => exact absurd heq (hmixed hone htwo hkind hkind')
  | delayed =>
    cases hkind' : two.kind with
    | normal => exact absurd heq.symm (hmixed htwo hone hkind' hkind)
    | delayed =>
      rw [hderived hone hkind, hderived htwo hkind'] at heq
      refine h.apart i j one two one.key hone htwo ?_ ?_
      · rw [Group.fullKeys_delayed hkind]
        exact List.mem_singleton_self _
      · rw [Group.fullKeys_delayed hkind', heq]
        exact List.mem_singleton_self _

/-- No full key names slots of two groups. -/
theorem slot_inj (h : registry.Distinct) {i j : Nat} {one two : Group ν} {slot other : Slot ν}
    (hone : registry.groups[i]? = some one) (htwo : registry.groups[j]? = some two)
    (hslot : slot ∈ one.slots) (hother : other ∈ two.slots)
    (heq : slot.fullKey = other.fullKey) : i = j := by
  refine h.apart i j one two slot.fullKey hone htwo
    ((h.named i one hone).mem_fullKeys hslot) ?_
  rw [heq]
  exact (h.named j two htwo).mem_fullKeys hother

end Registry.Distinct

namespace Committer

/-! ## What stays in a run -/

/-- How a group has ended stays recorded in every later state. -/
theorem outcome_stays {committer : Committer ν ε} (hs : Staffed committer)
    (actions : List (Action ν ε)) {id : Nat} {group : Group ν} {verdict : Verdict}
    (hgroup : committer.registry.groups[id]? = some group)
    (houtcome : group.outcome = some verdict) :
    ∃ later, (committer.run actions).registry.groups[id]? = some later ∧
      later.outcome = some verdict := by
  induction actions generalizing committer group with
  | nil => exact ⟨group, hgroup, houtcome⟩
  | cons action rest ih =>
    have hmove : Move committer action (committer.step action) :=
      committer.move_step action hs.known
    obtain ⟨changed, hchanged, hnext⟩ := hs.next hmove hgroup
    exact ih (hs.step action) hchanged
      (hnext.outcome (hs.attended id group hgroup).coherent houtcome)

/-! ## How a group ends -/

/-- In every reachable state, a group that is aborted ended as aborted or as closed. -/
theorem wellEnded_run {label : String} {settings : Settings} {scheme : KeyScheme}
    {slotBytes : Nat} {unstartable : Option (Sweeper × String)} {start : Committer ν ε}
    (hstart : (launch label settings scheme slotBytes unstartable).1 = .ok start)
    (actions : List (Action ν ε)) {id : Nat} {group : Group ν}
    (hgroup : (start.run actions).registry.groups[id]? = some group) : group.WellEnded :=
  (group_invariant (P := fun group => group.Coherent ∧ group.WellEnded) hstart
    (fun _ hborn => ⟨hborn.coherent, hborn.wellEnded⟩)
    (fun _ _ hnext hgroup => ⟨hnext.coherent hgroup.1, hnext.wellEnded hgroup.1 hgroup.2⟩)
    actions id group hgroup).2

/-- A group that was aborted was never emitted. -/
theorem unemitted_of_aborted {committer : Committer ν ε} (hs : Staffed committer)
    (ha : Accounted committer) {id : Nat} {group : Group ν}
    (hgroup : committer.registry.groups[id]? = some group) (haborted : group.stage = .aborted) :
    Unemitted committer.emissions id := by
  rintro m emission hemission rfl
  obtain ⟨other, hother, hclaimed, -⟩ := ha.emission m emission hemission
  rw [hgroup] at hother
  rw [← Option.some.inj hother] at hclaimed
  have hstage := (hs.attended _ group hgroup).coherent.claim hclaimed
  rw [haborted] at hstage
  cases hstage <;> contradiction

/-- The outcome of a group is what its emission says; a group without one was aborted or given
up, or had no emitter. -/
theorem outcome_cases {committer : Committer ν ε} (hs : Staffed committer)
    (ha : Accounted committer) {id : Nat} {group : Group ν} {verdict : Verdict}
    (hgroup : committer.registry.groups[id]? = some group) (hended : group.WellEnded)
    (houtcome : group.outcome = some verdict) :
    (∃ (m : Nat) (emission : Emission ν) (answer : Except String Unit),
      committer.emissions[m]? = some emission ∧ emission.group = id ∧
        emission.answer = some answer ∧ verdict = verdictOf emission.emitKey answer) ∨
    (Unemitted committer.emissions id ∧
      (verdict = .error .closed ∨ (∃ key, verdict = .error (.aborted key)) ∨
        ∃ key, verdict = .error (.emitterNotSet key))) := by
  have hterminal := (hs.attended id group hgroup).coherent.isTerminal houtcome
  cases Stage.isTerminal_iff.mp hterminal with
  | inl hdone =>
    obtain hemitted | ⟨hnone, key, rfl⟩ := ha.outcome id group verdict hgroup hdone houtcome
    · exact .inl hemitted
    · exact .inr ⟨hnone, .inr (.inr ⟨key, rfl⟩)⟩
  | inr haborted =>
    have hnone := unemitted_of_aborted hs ha hgroup haborted
    obtain hclosed | ⟨key, hkey⟩ := hended haborted
    · exact .inr ⟨hnone, .inl (Option.some.inj (houtcome.symm.trans hclosed))⟩
    · exact .inr ⟨hnone, .inr (.inl ⟨key, Option.some.inj (houtcome.symm.trans hkey)⟩)⟩

/-- The outcome of a group is a success exactly if its emission succeeded. -/
theorem outcome_ok_iff {committer : Committer ν ε} (hs : Staffed committer)
    (ha : Accounted committer) {id : Nat} {group : Group ν} {verdict : Verdict}
    (hgroup : committer.registry.groups[id]? = some group) (hended : group.WellEnded)
    (houtcome : group.outcome = some verdict) :
    verdict = .ok () ↔ ∃ (m : Nat) (emission : Emission ν),
      committer.emissions[m]? = some emission ∧ emission.group = id ∧
        emission.answer = some (.ok ()) := by
  obtain ⟨m, emission, answer, hemission, hid, hanswer, rfl⟩ | ⟨hnone, hverdict⟩ :=
    outcome_cases hs ha hgroup hended houtcome
  · constructor
    · intro hok
      cases answer with
      | ok _ => exact ⟨m, emission, hemission, hid, hanswer⟩
      | error cause => contradiction
    · rintro ⟨k, other, hother, hotherId, hok⟩
      have hsame : k = m := ha.once k m other emission hother hemission (by rw [hid, hotherId])
      rw [hsame, hemission] at hother
      rw [Option.some.inj hother, hok] at hanswer
      rw [← Option.some.inj hanswer]
      rfl
  · constructor
    · rintro rfl
      obtain hverdict | ⟨_, hverdict⟩ | ⟨_, hverdict⟩ := hverdict <;> contradiction
    · rintro ⟨m, emission, hemission, hid, -⟩
      exact absurd hid (hnone m emission hemission)

/-! ## The shared outcome -/

/-- Under a sequential scheme, before the counter of parent keys comes round, in every
reachable state, whatever the order of the steps was:

* no group has two emissions, and no two emissions have the same key;
* the slot of a caller is in the group that it waits for, no other group has a slot of that
  key, and the caller never waits for another group or slot;
* what callers return is the outcome of their group, so that all of them return the same; it is
  a success exactly if the emission of the group succeeded, and it never changes;
* a group that was aborted or given up was not emitted. -/
theorem shared_outcome {label : String} {settings : Settings} {scheme : KeyScheme}
    {slotBytes : Nat} {unstartable : Option (Sweeper × String)} {start : Committer ν ε}
    (hstart : (launch label settings scheme slotBytes unstartable).1 = .ok start)
    (hscheme : scheme.Sequential) (actions : List (Action ν ε))
    (hissued : (start.run actions).registry.issued ≤ UInt64.size) :
    (∀ (m n : Nat) (one two : Emission ν), (start.run actions).emissions[m]? = some one →
      (start.run actions).emissions[n]? = some two →
      one.group = two.group ∨ one.emitKey = two.emitKey → m = n) ∧
    (∀ (n : Nat) (caller : Caller ν), (start.run actions).callers[n]? = some caller →
      (∃ group, (start.run actions).registry.groups[caller.group]? = some group ∧
        ∃ slot ∈ group.slots, slot.fullKey = caller.fullKey ∧ slot.isReady = true) ∧
      (∀ (id : Nat) (group : Group ν), (start.run actions).registry.groups[id]? = some group →
        (∃ slot ∈ group.slots, slot.fullKey = caller.fullKey) → id = caller.group) ∧
      ∀ more : List (Action ν ε), ∃ later, (start.run (actions ++ more)).callers[n]? = some later ∧
        later.group = caller.group ∧ later.fullKey = caller.fullKey) ∧
    (∀ (n : Nat) (caller : Caller ν) (verdict : Verdict),
      (start.run actions).callers[n]? = some caller → caller.phase = .returned verdict →
      ∃ group, (start.run actions).registry.groups[caller.group]? = some group ∧
        group.outcome = some verdict) ∧
    (∀ (m n : Nat) (one two : Caller ν) (verdict other : Verdict),
      (start.run actions).callers[m]? = some one → (start.run actions).callers[n]? = some two →
      one.group = two.group → one.phase = .returned verdict → two.phase = .returned other →
      verdict = other) ∧
    (∀ (id : Nat) (group : Group ν) (verdict : Verdict),
      (start.run actions).registry.groups[id]? = some group → group.outcome = some verdict →
      (verdict = .ok () ↔ ∃ (m : Nat) (emission : Emission ν),
        (start.run actions).emissions[m]? = some emission ∧ emission.group = id ∧
          emission.answer = some (.ok ())) ∧
      ∀ more : List (Action ν ε), ∃ later,
        (start.run (actions ++ more)).registry.groups[id]? = some later ∧
          later.outcome = some verdict) ∧
    (∀ (id : Nat) (group : Group ν), (start.run actions).registry.groups[id]? = some group →
      group.stage = .aborted → ∀ (m : Nat) (emission : Emission ν),
        (start.run actions).emissions[m]? = some emission → emission.group ≠ id) := by
  have hs : Staffed (start.run actions) := (Staffed.launch hstart).run actions
  have ha : Accounted (start.run actions) := accounted_run hstart actions
  have hd : (start.run actions).registry.Distinct :=
    distinct_run hstart hscheme.separator actions (by rw [hscheme.cycle]; exact hissued)
  have hsequential : (start.run actions).registry.scheme.Sequential := by
    rw [(run_constant hstart actions).2]
    exact hscheme
  have hreturned : ∀ (n : Nat) (caller : Caller ν) (verdict : Verdict),
      (start.run actions).callers[n]? = some caller → caller.phase = .returned verdict →
      ∃ group, (start.run actions).registry.groups[caller.group]? = some group ∧
        group.outcome = some verdict := by
    intro n caller verdict hcaller hphase
    have hgroup := Array.getElem?_eq_getElem (hs.known n caller hcaller)
    have hfits := (hs.attended _ _ hgroup).fits n caller hcaller rfl
    rw [hphase] at hfits
    exact ⟨_, hgroup, hfits⟩
  refine ⟨fun m n one two hone htwo heq => ?_, fun n caller hcaller => ⟨?_, ?_, fun more => ?_⟩,
    hreturned, fun m n one two verdict other hone htwo hgroup hphase hphase' => ?_,
    fun id group verdict hgroup houtcome => ⟨?_, fun more => ?_⟩,
    fun id group hgroup haborted => unemitted_of_aborted hs ha hgroup haborted⟩
  · cases heq with
    | inl hgroup => exact ha.once m n one two hone htwo hgroup
    | inr hkey =>
      obtain ⟨group, hgroup, -, hemit⟩ := ha.emission m one hone
      obtain ⟨group', hgroup', -, hemit'⟩ := ha.emission n two htwo
      refine ha.once m n one two hone htwo (hd.emitKey_inj hsequential hgroup hgroup' ?_)
      rw [← hemit, ← hemit', hkey]
  · have hgroup := Array.getElem?_eq_getElem (hs.known n caller hcaller)
    exact ⟨_, hgroup, (hs.attended _ _ hgroup).seated n caller hcaller rfl⟩
  · rintro id group hgroup ⟨slot, hslot, hkey⟩
    have hown := Array.getElem?_eq_getElem (hs.known n caller hcaller)
    obtain ⟨seat, hseat, hseatKey, -⟩ := (hs.attended _ _ hown).seated n caller hcaller rfl
    exact hd.slot_inj hgroup hown hslot hseat (by rw [hkey, hseatKey])
  · rw [run_append]
    exact caller_stays hs more hcaller
  · obtain ⟨group, hown, houtcome⟩ := hreturned m one verdict hone hphase
    obtain ⟨group', hown', houtcome'⟩ := hreturned n two other htwo hphase'
    rw [hgroup, hown'] at hown
    rw [← Option.some.inj hown, houtcome'] at houtcome
    exact (Option.some.inj houtcome).symm
  · exact outcome_ok_iff hs ha hgroup (wellEnded_run hstart actions hgroup) houtcome
  · rw [run_append]
    exact outcome_stays hs more hgroup houtcome

/-- Two callers fill a group, the second one emits it, and the first one, which was woken, returns
the outcome of the group. -/
theorem shared_success_of_pair :
    ((launch "pairs" { Settings.default with slotCapacity := 2 } {} 72 none).1 = .ok pairs ∧
      ({} : KeyScheme).Sequential ∧
      (pairs.run [.install (), .reserve 0 "a", .reserve 0 "b", .store "0000:a" 1, .look 0,
        .store "0000:b" 2, .look 1, .begin 1, .complete 1 (.ok ()), .conclude 1,
        .announce 1, .leave 1, .look 0]).registry.issued ≤ UInt64.size) ∧
    ∃ group, (pairs.run [.install (), .reserve 0 "a", .reserve 0 "b", .store "0000:a" 1, .look 0,
        .store "0000:b" 2, .look 1, .begin 1, .complete 1 (.ok ()), .conclude 1,
        .announce 1, .leave 1, .look 0]).registry.groups[0]? = some group ∧
      group.outcome = some (.ok ()) := by
  have hstart : (launch "pairs" { Settings.default with slotCapacity := 2 } {} 72 none).1 =
      .ok pairs := rfl
  have hscheme : ({} : KeyScheme).Sequential := ⟨by decide, rfl, rfl⟩
  have hissued : (pairs.run [.install (), .reserve 0 "a", .reserve 0 "b", .store "0000:a" 1,
      .look 0, .store "0000:b" 2, .look 1, .begin 1, .complete 1 (.ok ()), .conclude 1,
      .announce 1, .leave 1, .look 0]).registry.issued ≤ UInt64.size := by decide +kernel
  have hreturned := (shared_outcome hstart hscheme _ hissued).2.2.1
  exact ⟨⟨hstart, hscheme, hissued⟩, hreturned 0
    { group := 0, fullKey := "0000:a", phase := .returned (.ok ()) } _ (by decide +kernel) rfl⟩

end Committer

end BatchedCommit
