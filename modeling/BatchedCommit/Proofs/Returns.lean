import BatchedCommit.Proofs.Deposits
import BatchedCommit.Proofs.Ledger

/-!
# BatchedCommit.Proofs.Returns

What is counted of emissions. An emission is counted when the emitter comes back, which is before
its group learns of it; in the meantime the verdict is with the caller that has claimed the
emission. So the counters of emissions agree with the groups that are done and the verdicts that
are on their way (`Committer.returned`, `Committer.Reckoned`).
-/

namespace BatchedCommit

open BatchedCommit.Group (slotCount isDone)

variable {ν ε : Type}

/-! ## Verdicts on their way -/

/-- A weight of the group whose verdict is on its way with a caller, if it passes a test. -/
def brought (test : Verdict → Bool) (weight : Group ν → Nat) (groups : Array (Group ν))
    (caller : Caller ν) : Nat :=
  match caller.phase with
  | .emitted verdict => if test verdict then (groups[caller.group]?.map weight).getD 0 else 0
  | _ => 0

section Brought

variable {test : Verdict → Bool} {weight : Group ν → Nat} {groups later : Array (Group ν)}
  {callers : Array (Caller ν)} {caller : Caller ν} {n : Nat}

/-- Only a caller whose emission is over brings a verdict. -/
theorem brought_eq_zero (h : ∀ verdict, caller.phase ≠ .emitted verdict) :
    brought test weight groups caller = 0 := by
  rw [brought]
  split
  · next verdict hphase => exact absurd hphase (h verdict)
  · rfl

theorem brought_rouse (id : Nat) :
    brought test weight groups (caller.rouse id) = brought test weight groups caller := by
  unfold Caller.rouse
  split
  · next hphase =>
    split
    · rw [brought_eq_zero (by simp), brought_eq_zero (by simp [hphase])]
    · rfl
  · rfl

/-- A caller that neither brings a verdict before nor after a change of its phase. -/
theorem tally_rephase {phase : Phase ν} (hcaller : callers[n]? = some caller)
    (hold : ∀ verdict, caller.phase ≠ .emitted verdict)
    (hnew : ∀ verdict, phase ≠ .emitted verdict) :
    tally (brought test weight groups) (callers.modify n fun other => { other with phase }) =
      tally (brought test weight groups) callers := by
  have hmodify := tally_modify (brought test weight groups) hcaller
    fun other => { other with phase }
  rwa [brought_eq_zero hold, brought_eq_zero hnew] at hmodify

end Brought

namespace Committer

variable {committer later : Committer ν ε} {action : Action ν ε} {test : Verdict → Bool}
  {weight : Group ν → Nat} {n : Nat} {caller : Caller ν} {group : Group ν}

/-- The weights of the groups whose emission came back with a verdict that passes a test: of those
that are done, and of those whose verdict is on its way. -/
def returned (test : Verdict → Bool) (weight : Group ν → Nat) (committer : Committer ν ε) : Nat :=
  tally (within (isDone test) weight) committer.registry.groups +
    tally (brought test weight committer.registry.groups) committer.callers

/-! ## The steps of an emission -/

/-- A caller that has a verdict tells it to its group; any other caller does nothing. -/
theorem conclude_cases (committer : Committer ν ε) (hs : Staffed committer) (n : Nat) :
    committer.conclude n = committer ∨
    ∃ caller verdict group, committer.callers[n]? = some caller ∧
      caller.phase = .emitted verdict ∧ committer.registry.groups[caller.group]? = some group ∧
      committer.conclude n = { committer with
        registry := committer.registry.setGroup caller.group (group.finish verdict) }.setPhase n
          (.notifying verdict) := by
  unfold conclude
  split
  · next id fullKey verdict hcaller =>
    have hgroup := Array.getElem?_eq_getElem (hs.known n _ hcaller)
    exact .inr ⟨_, verdict, _, hcaller, rfl, hgroup, by rw [Registry.finish, hgroup]⟩
  · exact .inl rfl

/-- A caller that has claimed an emission finds no emitter, or starts it; any other caller does
nothing. -/
theorem begin_cases (committer : Committer ν ε) (n : Nat) :
    committer.begin n = committer ∨
    ∃ caller values, committer.callers[n]? = some caller ∧ caller.phase = .claimed values ∧
      ((committer.emitter = none ∧ ∃ key,
          (committer.begin n).registry = committer.registry.bump .emitFailures ∧
          (committer.begin n).emissions = committer.emissions ∧
          (committer.begin n).callers = committer.callers.modify n fun other =>
            { other with phase := .emitted (.error (.emitterNotSet key)) }) ∨
        ((committer.begin n).registry = committer.registry ∧
          (committer.begin n).emissions = committer.emissions.push
            { group := caller.group, emitKey := committer.emitKeyOf caller.group, values } ∧
          (committer.begin n).callers = committer.callers.modify n fun other =>
            { other with phase := .emitting committer.emissions.size })) := by
  unfold begin
  split
  · next id fullKey values hcaller =>
    refine .inr ⟨_, values, hcaller, rfl, ?_⟩
    dsimp only
    split
    · next hnone => exact .inl ⟨hnone, _, rfl, rfl, rfl⟩
    · exact .inr ⟨rfl, rfl, rfl⟩
  · exact .inl rfl

/-- The emitter that runs for a caller comes back, and that is counted; for any other caller
nothing happens. -/
theorem complete_cases (committer : Committer ν ε) (n : Nat) (answer : Except String Unit) :
    committer.complete n answer = committer ∨
    ∃ caller number emission, committer.callers[n]? = some caller ∧
      caller.phase = .emitting number ∧ committer.emissions[number]? = some emission ∧
      (committer.complete n answer).registry = { committer.registry with
        counters := match answer with
          | .ok () => committer.registry.counters.recordEmission emission.values.length
          | .error _ => committer.registry.counters.bump .emitFailures } ∧
      (committer.complete n answer).emissions = committer.emissions.setIfInBounds number
        { emission with answer := some answer } ∧
      (committer.complete n answer).callers = committer.callers.modify n fun other =>
        { other with phase := .emitted (verdictOf emission.emitKey answer) } := by
  unfold complete
  split
  · next id fullKey number hcaller =>
    split
    · exact .inl rfl
    · next emission hemission =>
      refine .inr ⟨_, number, emission, hcaller, rfl, hemission, ?_⟩
      cases answer with
      | ok _ => exact ⟨rfl, rfl, rfl⟩
      | error cause => exact ⟨rfl, rfl, rfl⟩
  · exact .inl rfl

/-! ## Verdicts in a step -/

/-- A group whose verdict is on its way keeps its slots in every step. -/
theorem brought_step (hs : Staffed committer) (hmove : Move committer action later)
    (hweight : ∀ group changed : Group ν, changed.slotCount = group.slotCount →
      weight changed = weight group)
    (hcaller : committer.callers[n]? = some caller) :
    brought test weight later.registry.groups caller =
      brought test weight committer.registry.groups caller := by
  rw [brought, brought]
  split
  · next verdict hphase =>
    have hgroup := Array.getElem?_eq_getElem (hs.known n caller hcaller)
    have hattended := hs.attended _ _ hgroup
    have hfits := hattended.fits n caller hcaller rfl
    rw [hphase] at hfits
    obtain ⟨changed, hchanged, hnext⟩ := hs.next hmove hgroup
    have hslots := hnext.slots_of_claimed hattended.coherent hfits.2
    rw [hchanged, hgroup, Option.map_some, Option.map_some,
      hweight _ changed (congrArg List.length hslots)]
  · rfl

/-- Steps that bring no verdict and take none over change nothing of it. -/
theorem returned_of_move {sound : Bool} (hs : Staffed committer)
    (hmove : Move committer action later)
    (hentries : Registry.Entries sound action committer.registry later.registry)
    (hweight : ∀ group changed : Group ν, changed.slotCount = group.slotCount →
      weight changed = weight group)
    (hbegin : ∀ n, action ≠ .begin n) (hcomplete : ∀ n answer, action ≠ .complete n answer)
    (hconclude : ∀ n, action ≠ .conclude n) :
    later.returned test weight = committer.returned test weight := by
  have hdone : tally (within (isDone test) weight) later.registry.groups =
      tally (within (isDone test) weight) committer.registry.groups := by
    refine hentries.tally_within weight (fun group hlive => Group.isDone_of_live hlive test)
      fun group changed hlive hends => ?_
    have habort : ∀ reason, (group.abort reason).isDone test = false := by
      intro reason
      rw [Group.abort]
      split
      · rfl
      · exact Group.isDone_of_live hlive test
    cases hends with
    | expire now key => exact habort _
    | abandon => exact habort _
    | finish n verdict => exact absurd rfl (hconclude n)
  have hbrought : tally (brought test weight later.registry.groups) committer.callers =
      tally (brought test weight committer.registry.groups) committer.callers :=
    tally_congr _ _ fun n caller hcaller => brought_step hs hmove hweight hcaller
  have hcallers : tally (brought test weight later.registry.groups) later.callers =
      tally (brought test weight later.registry.groups) committer.callers := by
    cases hmove with
    | turn hdeposit hturn hcallers hpending hemissions => rw [hcallers]
    | store hdeposit hfind hgroup hput hlater =>
      rw [hlater.callers, tally_push, brought_eq_zero (by simp), Nat.add_zero]
    | deliver hpending hlater =>
      rw [hlater.callers, tally_map]
      exact tally_congr _ _ fun m caller _ => brought_rouse _
    | proceed hdeposit hcaller hphase hlater =>
      rw [hlater.callers]
      obtain ⟨hold, rfl⟩ | ⟨hold, _, _, -, -, rfl⟩ | ⟨hold, rfl, -⟩ | ⟨_, hold, rfl⟩ := hphase <;>
        exact tally_rephase hcaller (by simp [hold]) (by simp)
    | claim hcaller hphase hgroup hclaim hlater =>
      rw [hlater.callers]
      exact tally_rephase hcaller (by simp [hphase]) (by simp)
    | skip hcaller hphase hlater => exact absurd rfl (hbegin _)
    | begin hcaller hphase hlater => exact absurd rfl (hbegin _)
    | complete hcaller hphase hemission hlater => exact absurd rfl (hcomplete _ _)
    | conclude hcaller hphase hgroup hlater => exact absurd rfl (hconclude _)
    | @announce _ n caller verdict hcaller hphase hlater =>
      have hself : (committer.callers.map (Caller.rouse caller.group))[n]? = some caller :=
        getElem?_rouse.mpr ⟨caller, hcaller, by rw [Caller.rouse, hphase]⟩
      rw [hlater.callers, tally_rephase hself (by simp [hphase]) (by simp), tally_map]
      exact tally_congr _ _ fun m caller _ => brought_rouse _
  rw [returned, returned, hdone, hcallers, hbrought]

/-- A caller takes a verdict on its way. -/
theorem returned_of_emitted {verdict : Verdict} (hcaller : committer.callers[n]? = some caller)
    (hphase : ∀ verdict, caller.phase ≠ .emitted verdict)
    (hgroup : committer.registry.groups[caller.group]? = some group)
    (hgroups : later.registry.groups = committer.registry.groups)
    (hcallers : later.callers =
      committer.callers.modify n fun other => { other with phase := .emitted verdict }) :
    later.returned test weight =
      committer.returned test weight + if test verdict then weight group else 0 := by
  have hmodify := tally_modify (brought test weight committer.registry.groups) hcaller
    fun other => { other with phase := .emitted verdict }
  have hnew : brought test weight committer.registry.groups
      { caller with phase := .emitted verdict } = if test verdict then weight group else 0 := by
    rw [brought, hgroup]
    rfl
  rw [brought_eq_zero hphase, hnew] at hmodify
  rw [returned, hgroups, hcallers, returned]
  omega

/-- A group takes over the verdict that a caller has brought. -/
theorem returned_conclude (hs : Staffed committer)
    (hweight : ∀ group changed : Group ν, changed.slotCount = group.slotCount →
      weight changed = weight group) (n : Nat) :
    (committer.step (.conclude n)).returned test weight = committer.returned test weight := by
  have hmove := committer.move_step (.conclude n) hs.known
  obtain heq | ⟨caller, verdict, group, hcaller, hphase, hgroup, heq⟩ :=
    committer.conclude_cases hs n
  · rw [step, heq]
  · have hfits := (hs.attended _ _ hgroup).fits n caller hcaller rfl
    rw [hphase] at hfits
    have hsame : weight (group.finish verdict) = weight group := hweight group _ rfl
    have hbrought : tally (brought test weight (committer.step (.conclude n)).registry.groups)
        committer.callers = tally (brought test weight committer.registry.groups)
          committer.callers :=
      tally_congr _ _ fun m other hother => brought_step hs hmove hweight hother
    rw [step, heq] at hbrought ⊢
    have hgroups := tally_set (within (isDone test) weight) hgroup (group.finish verdict)
    have hcallers := tally_modify (brought test weight
      (committer.registry.groups.setIfInBounds caller.group (group.finish verdict))) hcaller
      fun other => { other with phase := .notifying verdict }
    have hlive : within (isDone test) weight group = 0 := by
      rw [within, Group.isDone_of_live (by rw [hfits.1]; rfl)]
      rfl
    have hdone : within (isDone test) weight (group.finish verdict) =
        if test verdict then weight group else 0 := by
      rw [within, hsame]
      rfl
    have hold : brought test weight
        (committer.registry.groups.setIfInBounds caller.group (group.finish verdict)) caller =
          if test verdict then weight group else 0 := by
      rw [brought, hphase, Array.getElem?_setIfInBounds_self_of_lt (hs.known n caller hcaller)]
      dsimp only
      rw [Option.map_some, Option.getD_some, hsame]
    have hnew : brought test weight
        (committer.registry.groups.setIfInBounds caller.group (group.finish verdict))
          { caller with phase := .notifying verdict } = 0 := brought_eq_zero (by simp)
    rw [hnew, hold] at hcallers
    rw [hlive, hdone] at hgroups
    simp only [returned, setPhase, Registry.setGroup] at hbrought ⊢
    omega

/-! ## The counters of emissions -/

/-- What is counted of emissions is there. -/
structure Reckoned (committer : Committer ν ε) : Prop where
  /-- Emissions that succeeded. -/
  emitted : committer.registry.counters.get .groupsEmitted =
    committer.returned Except.isOk fun _ => 1
  /-- Emissions that failed, or had no emitter. -/
  failed : committer.registry.counters.get .emitFailures =
    committer.returned (!·.isOk) fun _ => 1
  /-- Values in the emissions that succeeded: one for each slot. -/
  values : committer.registry.counters.get .valuesEmitted =
    committer.returned Except.isOk slotCount

/-- Neither verdicts nor counters of emissions change. -/
theorem Reckoned.congr (h : Reckoned committer)
    (hreturned : ∀ (test : Verdict → Bool) (weight : Group ν → Nat),
      (∀ group changed : Group ν, changed.slotCount = group.slotCount →
        weight changed = weight group) →
      later.returned test weight = committer.returned test weight)
    (hcounters : ∀ counter ∈ [Counter.groupsEmitted, .emitFailures, .valuesEmitted],
      later.registry.counters.get counter = committer.registry.counters.get counter) :
    Reckoned later where
  emitted := by
    rw [hcounters _ (by simp), hreturned _ _ (fun _ _ _ => rfl), h.emitted]
  failed := by
    rw [hcounters _ (by simp), hreturned _ _ (fun _ _ _ => rfl), h.failed]
  values := by
    rw [hcounters _ (by simp), hreturned _ _ (fun _ _ hsame => hsame), h.values]

/-- An emission came back and was counted. -/
theorem Reckoned.emission {verdict : Verdict} (h : Reckoned committer)
    (hcaller : committer.callers[n]? = some caller)
    (hphase : ∀ verdict, caller.phase ≠ .emitted verdict)
    (hgroup : committer.registry.groups[caller.group]? = some group)
    (hregistry : later.registry = { committer.registry with
      counters := if verdict.isOk then committer.registry.counters.recordEmission group.slotCount
        else committer.registry.counters.bump .emitFailures })
    (hcallers : later.callers =
      committer.callers.modify n fun other => { other with phase := .emitted verdict }) :
    Reckoned later := by
  have hreturned : ∀ (test : Verdict → Bool) (weight : Group ν → Nat),
      later.returned test weight =
        committer.returned test weight + if test verdict then weight group else 0 := fun _ _ =>
    returned_of_emitted hcaller hphase hgroup (by rw [hregistry]) hcallers
  obtain ⟨hemitted, hfailed, hvalues⟩ := h
  cases hok : verdict.isOk with
  | true =>
    rw [hok, if_pos rfl] at hregistry
    constructor <;>
      simp [hreturned, hregistry, hok, Counters.recordEmission, Counters.bump, Counters.get_add,
        hemitted, hfailed, hvalues]
  | false =>
    rw [hok, if_neg (by decide)] at hregistry
    constructor <;>
      simp [hreturned, hregistry, hok, Counters.bump, Counters.get_add, hemitted, hfailed, hvalues]

theorem Reckoned.begin (h : Reckoned committer) (hs : Staffed committer) (n : Nat) :
    Reckoned (committer.begin n) := by
  obtain heq | ⟨caller, values, hcaller, hphase, ⟨-, key, hregistry, -, hcallers⟩ |
    ⟨hregistry, -, hcallers⟩⟩ := committer.begin_cases n
  · rwa [heq]
  · refine h.emission hcaller (by simp [hphase])
      (Array.getElem?_eq_getElem (hs.known n caller hcaller)) ?_ hcallers
    rw [hregistry]
    rfl
  · refine h.congr (fun test weight _ => ?_) (fun counter _ => by rw [hregistry])
    rw [returned, returned, hregistry, hcallers, tally_rephase hcaller (by simp [hphase]) (by simp)]

/-- The emitter is given one value for each slot. -/
theorem length_values (ha : Accounted committer) {deposits : List ν}
    (hd : Deposited committer deposits) {m : Nat} {emission : Emission ν}
    (hemission : committer.emissions[m]? = some emission) :
    ∃ group, committer.registry.groups[emission.group]? = some group ∧
      emission.values.length = group.slotCount := by
  obtain ⟨group, hgroup, -, -⟩ := ha.emission m emission hemission
  have htaken := (hd.taken emission.group emission.values (.emitted hemission rfl rfl)).length_eq
  rw [Registry.keysOf, hgroup, List.length_map] at htaken
  exact ⟨group, hgroup, htaken.symm⟩

theorem Reckoned.complete (h : Reckoned committer) (ha : Accounted committer) {deposits : List ν}
    (hd : Deposited committer deposits) (n : Nat) (answer : Except String Unit) :
    Reckoned (committer.complete n answer) := by
  obtain heq | ⟨caller, number, emission, hcaller, hphase, hemission, hregistry, -, hcallers⟩ :=
    committer.complete_cases n answer
  · rwa [heq]
  · obtain ⟨same, hsame, hown, -⟩ := ha.running n caller number hcaller hphase
    obtain rfl := Option.some.inj (hemission.symm.trans hsame)
    obtain ⟨group, hgroup, hlength⟩ := length_values ha hd hemission
    rw [hown] at hgroup
    refine h.emission hcaller (by simp [hphase]) hgroup ?_ hcallers
    rw [hregistry]
    cases answer with
    | ok _ =>
      dsimp only [verdictOf]
      rw [hlength]
      rfl
    | error cause => rfl

theorem Reckoned.step (h : Reckoned committer) (hs : Staffed committer) (ha : Accounted committer)
    {deposits : List ν} (hd : Deposited committer deposits)
    (hindexed : committer.registry.Indexed) (hsteered : committer.registry.Steered)
    (action : Action ν ε) : Reckoned (committer.step action) := by
  have hmove := committer.move_step action hs.known
  have hentries := entries_step hs hindexed hsteered action
  have hcalm : (∀ n, action ≠ .begin n) → (∀ n answer, action ≠ .complete n answer) →
      (∀ n, action ≠ .conclude n) → Reckoned (committer.step action) := by
    intro hbegin hcomplete hconclude
    refine h.congr (fun test weight hweight =>
      returned_of_move hs hmove hentries hweight hbegin hcomplete hconclude) fun counter hcounter =>
        hentries.get_counters ?_
    simp only [List.mem_cons, List.not_mem_nil, or_false] at hcounter
    cases action with
    | begin n => exact absurd rfl (hbegin n)
    | complete n answer => exact absurd rfl (hcomplete n answer)
    | sweep sweeper now =>
      cases sweeper <;> obtain rfl | rfl | rfl := hcounter <;> simp [Registry.counted]
    | _ => obtain rfl | rfl | rfl := hcounter <;> simp [Registry.counted]
  cases action with
  | begin n => exact h.begin hs n
  | complete n answer => exact h.complete ha hd n answer
  | conclude n =>
    exact h.congr (fun test weight hweight => returned_conclude hs hweight n) fun counter _ =>
      hentries.get_counters (by simp [Registry.counted])
  | _ => exact hcalm (by simp) (by simp) (by simp)

/-- In every reachable state, what is counted of emissions is there. -/
theorem reckoned_run {label : String} {settings : Settings} {scheme : KeyScheme}
    {slotBytes : Nat} {unstartable : Option (Sweeper × String)} {start : Committer ν ε}
    (hstart : (launch label settings scheme slotBytes unstartable).1 = .ok start)
    (actions : List (Action ν ε)) : Reckoned (start.run actions) := by
  induction actions using List.reverseRecOn with
  | nil =>
    obtain ⟨-, hregistry, hcallers, -⟩ := launch_eq_ok hstart
    rw [run_nil]
    constructor <;> rw [returned, hregistry, hcallers] <;> rfl
  | append_singleton actions action ih =>
    rw [run_append]
    exact ih.step ((Staffed.launch hstart).run actions) (accounted_run hstart actions)
      (deposited_run hstart actions) (indexed_of_launch hstart actions)
      (steered_run hstart actions) action

end Committer

end BatchedCommit
