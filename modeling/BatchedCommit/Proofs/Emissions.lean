import BatchedCommit.Proofs.Reachable

/-!
# BatchedCommit.Proofs.Emissions

The runs of the emitter in every reachable state (`Committer.accounted_run`): there is at most
one for each group, it belongs to a group that was claimed, and its answer decides what the
callers of the group are told. A group that was done without a run of the emitter had none
installed.
-/

namespace BatchedCommit

variable {ν ε : Type}

/-! ## What emissions say about a group -/

/-- A group was not emitted. -/
def Unemitted (emissions : Array (Emission ν)) (id : Nat) : Prop :=
  ∀ (m : Nat) (emission : Emission ν), emissions[m]? = some emission → emission.group ≠ id

/-- A verdict on a group follows from its emission, or from the want of an emitter. -/
def Settles (emissions : Array (Emission ν)) (id : Nat) (verdict : Verdict) : Prop :=
  (∃ (m : Nat) (emission : Emission ν) (answer : Except String Unit),
    emissions[m]? = some emission ∧ emission.group = id ∧ emission.answer = some answer ∧
      verdict = Committer.verdictOf emission.emitKey answer) ∨
  (Unemitted emissions id ∧ ∃ key, verdict = .error (.emitterNotSet key))

section Emissions

variable {emissions : Array (Emission ν)} {id number : Nat} {verdict : Verdict}
  {emission new : Emission ν} {answer : Except String Unit}

theorem Unemitted.push (h : Unemitted emissions id) (hnew : new.group ≠ id) :
    Unemitted (emissions.push new) id := by
  intro m other hother
  rw [Array.getElem?_push] at hother
  split at hother
  · rw [← Option.some.inj hother]
    exact hnew
  · exact h m other hother

theorem Unemitted.answered (h : Unemitted emissions id)
    (hold : emissions[number]? = some emission) :
    Unemitted (emissions.setIfInBounds number { emission with answer := some answer }) id := by
  intro m other hother
  obtain ⟨rfl, rfl⟩ | ⟨-, hsame⟩ := getElem?_set_cases hother
  · exact h m emission hold
  · exact h m other hsame

/-- A verdict that follows keeps following when another group is emitted. -/
theorem Settles.push (h : Settles emissions id verdict) (hnew : new.group ≠ id) :
    Settles (emissions.push new) id verdict := by
  obtain ⟨m, other, reply, hother, hrest⟩ | ⟨hnone, hverdict⟩ := h
  · have hlt : m < emissions.size := (Array.getElem?_eq_some_iff.mp hother).1
    exact .inl ⟨m, other, reply, by rw [Array.getElem?_push, if_neg (by omega), hother], hrest⟩
  · exact .inr ⟨hnone.push hnew, hverdict⟩

/-- It keeps following when an emission is answered that was not before. -/
theorem Settles.answered (h : Settles emissions id verdict)
    (hold : emissions[number]? = some emission) (hnone : emission.answer = none) :
    Settles (emissions.setIfInBounds number { emission with answer := some answer }) id
      verdict := by
  obtain ⟨m, other, reply, hother, hid, hreply, hverdict⟩ | ⟨hunemitted, hverdict⟩ := h
  · have hne : number ≠ m := by
      rintro rfl
      rw [hold] at hother
      rw [← Option.some.inj hother, hnone] at hreply
      contradiction
    refine .inl ⟨m, other, reply, ?_, hid, hreply, hverdict⟩
    rw [Array.getElem?_setIfInBounds_ne hne, hother]
  · exact .inr ⟨hunemitted.answered hold, hverdict⟩

end Emissions

namespace Committer

/-! ## The invariant -/

/-- The runs of the emitter agree with the groups and with the callers. -/
structure Accounted (committer : Committer ν ε) : Prop where
  /-- Every emission is one of a claimed group, under its key. -/
  emission : ∀ (m : Nat) (emission : Emission ν), committer.emissions[m]? = some emission →
    ∃ group, committer.registry.groups[emission.group]? = some group ∧ group.claimed = true ∧
      emission.emitKey = group.emitKey
  /-- No group has two emissions. -/
  once : ∀ (m n : Nat) (one two : Emission ν), committer.emissions[m]? = some one →
    committer.emissions[n]? = some two → one.group = two.group → m = n
  /-- A caller that has not started the emitter yet is the first to do so. -/
  waiting : ∀ (n : Nat) (caller : Caller ν) (values : List ν),
    committer.callers[n]? = some caller → caller.phase = .claimed values →
    Unemitted committer.emissions caller.group
  /-- The emission of a caller has no answer while it runs. -/
  running : ∀ (n : Nat) (caller : Caller ν) (m : Nat), committer.callers[n]? = some caller →
    caller.phase = .emitting m → ∃ emission, committer.emissions[m]? = some emission ∧
      emission.group = caller.group ∧ emission.answer = none
  /-- What a caller is going to tell its group follows from the emission. -/
  ended : ∀ (n : Nat) (caller : Caller ν) (verdict : Verdict),
    committer.callers[n]? = some caller → caller.phase = .emitted verdict →
    Settles committer.emissions caller.group verdict
  /-- How a group was done follows from its emission. -/
  outcome : ∀ (id : Nat) (group : Group ν) (verdict : Verdict),
    committer.registry.groups[id]? = some group → group.stage = .done →
    group.outcome = some verdict → Settles committer.emissions id verdict

variable {committer later : Committer ν ε} {action : Action ν ε}

/-- A group that is done was done before, or the caller that worked on it said so. -/
theorem Move.done_before (hmove : Move committer action later)
    {id : Nat} {changed : Group ν} (hchanged : later.registry.groups[id]? = some changed)
    (hdone : changed.stage = .done) :
    committer.registry.groups[id]? = some changed ∨
      ∃ (n : Nat) (caller : Caller ν) (verdict : Verdict) (group : Group ν),
        committer.callers[n]? = some caller ∧ caller.group = id ∧
          caller.phase = .emitted verdict ∧ committer.registry.groups[id]? = some group ∧
          changed = group.finish verdict := by
  have hset : ∀ {own : Nat} {new : Group ν},
      later.registry.groups = committer.registry.groups.setIfInBounds own new →
      new.stage ≠ .done → committer.registry.groups[id]? = some changed := by
    intro own new hgroups hnew
    rw [hgroups] at hchanged
    obtain ⟨-, rfl⟩ | ⟨-, hold⟩ := getElem?_set_cases hchanged
    · contradiction
    · exact hold
  cases hmove with
  | turn hdeposit hturn hcallers hpending hemissions =>
    cases hold : committer.registry.groups[id]? with
    | some group =>
      obtain ⟨other, hother, hshifts, -⟩ := hturn.kept id group hold
      rw [Option.some.inj (hother.symm.trans hchanged)] at hshifts
      rw [hshifts.eq_of_done hdone]
      exact .inl rfl
    | none =>
      obtain ⟨born, hborn, hshifts⟩ := hturn.made id changed hold hchanged
      have hmutable := hborn.awaits.2
      rw [← hshifts.eq_of_done hdone, hdone] at hmutable
      contradiction
  | store hdeposit hfind hgroup hput hlater =>
    refine .inl (hset hlater.groups ?_)
    obtain ⟨hlive, _, _, _, -, -, -, -, hput⟩ := Group.put_eq_ok hput
    rw [Group.markReady]
    split
    · simp
    · intro hstage
      rw [hput] at hstage
      rw [show _ = Stage.done from hstage] at hlive
      contradiction
  | deliver hpending hlater => exact .inl (by rw [← hlater.groups, hchanged])
  | proceed hdeposit hcaller hphase hlater => exact .inl (by rw [← hlater.groups, hchanged])
  | claim hcaller hphase hgroup hclaim hlater =>
    refine .inl (hset hlater.groups ?_)
    obtain ⟨hstage, -, -, rfl⟩ := Group.claim?_eq_some hclaim
    simp [hstage]
  | skip hcaller hphase hlater => exact .inl (by rw [← hlater.groups, hchanged])
  | begin hcaller hphase hlater => exact .inl (by rw [← hlater.groups, hchanged])
  | complete hcaller hphase hemission hlater => exact .inl (by rw [← hlater.groups, hchanged])
  | @conclude _ n caller group verdict hcaller hphase hgroup hlater =>
    rw [hlater.groups] at hchanged
    obtain ⟨rfl, rfl⟩ | ⟨-, hold⟩ := getElem?_set_cases hchanged
    · exact .inr ⟨n, caller, verdict, group, hcaller, rfl, hphase, hgroup, rfl⟩
    · exact .inl hold
  | announce hcaller hphase hlater => exact .inl (by rw [← hlater.groups, hchanged])

namespace Accounted

/-- The emissions and the callers that work on them stay as they are. -/
theorem calm (h : Accounted committer) (hs : Staffed committer)
    (hmove : Move committer action later) (hemissions : later.emissions = committer.emissions)
    (hcallers : ∀ (m : Nat) (other : Caller ν), later.callers[m]? = some other →
      other.phase.isWorking = true → committer.callers[m]? = some other) : Accounted later where
  emission := fun m emission hemission => by
    rw [hemissions] at hemission
    obtain ⟨group, hgroup, hclaimed, hkey⟩ := h.emission m emission hemission
    obtain ⟨changed, hchanged, hnext⟩ := hs.next hmove hgroup
    exact ⟨changed, hchanged, hnext.claimed hclaimed, by rw [hnext.sameHead.emitKey, hkey]⟩
  once := by
    rw [hemissions]
    exact h.once
  waiting := fun n caller values hn hphase => by
    rw [hemissions]
    exact h.waiting n caller values (hcallers n caller hn (by rw [hphase]; rfl)) hphase
  running := fun n caller m hn hphase => by
    rw [hemissions]
    exact h.running n caller m (hcallers n caller hn (by rw [hphase]; rfl)) hphase
  ended := fun n caller verdict hn hphase => by
    rw [hemissions]
    exact h.ended n caller verdict (hcallers n caller hn (by rw [hphase]; rfl)) hphase
  outcome := fun id changed verdict hchanged hdone houtcome => by
    rw [hemissions]
    obtain hold | ⟨n, caller, told, group, hcaller, rfl, hphase, -, rfl⟩ :=
      hmove.done_before hchanged hdone
    · exact h.outcome id changed verdict hold hdone houtcome
    · rw [← Option.some.inj houtcome]
      exact h.ended n caller told hcaller hphase

/-- A caller that was woken, or not, works as it did. -/
theorem working_of_rouse {callers : Array (Caller ν)} {id m : Nat} {other : Caller ν}
    (h : (callers.map (Caller.rouse id))[m]? = some other) (hworks : other.phase.isWorking = true) :
    callers[m]? = some other := by
  obtain ⟨old, hold, rfl⟩ := getElem?_rouse.mp h
  by_cases hid : old.group = id
  · have hawake : old.phase ≠ .asleep := by
      intro hasleep
      rw [Caller.rouse, hasleep, if_pos hid] at hworks
      contradiction
    have hsame : old.rouse id = old := by
      unfold Caller.rouse
      split
      · contradiction
      · rfl
    rw [hsame]
    exact hold
  · rw [Caller.rouse_of_ne hid]
    exact hold

/-- When a caller goes on, the others work as they did. -/
theorem working_of_rephase {callers : Array (Caller ν)} {n m : Nat} {other : Caller ν}
    {phase : Phase ν}
    (h : (callers.modify n fun caller => { caller with phase })[m]? = some other)
    (hworks : other.phase.isWorking = true) (hidle : phase.isWorking = false) :
    callers[m]? = some other := by
  obtain ⟨-, old, -, rfl⟩ | ⟨-, hold⟩ := getElem?_rephase.mp h
  · rw [hidle] at hworks
    contradiction
  · exact hold

/-- The emission of a group that is claimed still belongs to it after a move. -/
theorem kept (hs : Staffed committer) (hmove : Move committer action later)
    {emission : Emission ν}
    (h : ∃ group, committer.registry.groups[emission.group]? = some group ∧
      group.claimed = true ∧ emission.emitKey = group.emitKey) :
    ∃ group, later.registry.groups[emission.group]? = some group ∧ group.claimed = true ∧
      emission.emitKey = group.emitKey := by
  obtain ⟨group, hgroup, hclaimed, hkey⟩ := h
  obtain ⟨changed, hchanged, hnext⟩ := hs.next hmove hgroup
  exact ⟨changed, hchanged, hnext.claimed hclaimed, by rw [hnext.sameHead.emitKey, hkey]⟩

/-- Only one caller works for a group. -/
theorem alone (hs : Staffed committer) {m n : Nat} {one two : Caller ν}
    (hone : committer.callers[m]? = some one) (htwo : committer.callers[n]? = some two)
    (hgroup : one.group = two.group) (hworks : one.phase.isWorking = true)
    (hworks' : two.phase.isWorking = true) : m = n := by
  have hlt := hs.known n two htwo
  exact (hs.attended two.group _ (Array.getElem?_eq_getElem hlt)).alone m n one two hone htwo
    hgroup rfl hworks hworks'

/-- A group whose caller works is not done. -/
theorem not_done (hs : Staffed committer) {n : Nat} {caller : Caller ν} {group : Group ν}
    (hcaller : committer.callers[n]? = some caller) (hworks : caller.phase.isWorking = true)
    (hgroup : committer.registry.groups[caller.group]? = some group) : group.stage ≠ .done := by
  have hfits := (hs.attended _ group hgroup).fits n caller hcaller rfl
  simp [(hfits.of_isWorking hworks).1]

/-- A caller claims the emission of a group that has none: nobody had claimed it before. -/
theorem claim (h : Accounted committer) (hs : Staffed committer) {n : Nat} {caller : Caller ν}
    {group changed : Group ν} {values : List ν} (hmove : Move committer action later)
    (hcaller : committer.callers[n]? = some caller)
    (hgroup : committer.registry.groups[caller.group]? = some group)
    (hclaim : group.claim? = some (values, changed))
    (hlater : Leaves committer later
      (committer.registry.groups.setIfInBounds caller.group changed)
      (committer.callers.modify n fun caller => { caller with phase := .claimed values })
      committer.pending committer.emissions) : Accounted later := by
  obtain ⟨hstage, hunclaimed, -, hchanged⟩ := Group.claim?_eq_some hclaim
  constructor
  · intro m emission hemission
    rw [hlater.emissions] at hemission
    exact kept hs hmove (h.emission m emission hemission)
  · rw [hlater.emissions]
    exact h.once
  · intro m other values' hm hphase
    rw [hlater.callers] at hm
    rw [hlater.emissions]
    obtain ⟨rfl, old, hold, rfl⟩ | ⟨-, hold⟩ := getElem?_rephase.mp hm
    · intro k emission hemission heq
      obtain ⟨other, hother, hclaimed, -⟩ := h.emission k emission hemission
      rw [hcaller] at hold
      rw [heq, ← Option.some.inj hold, hgroup] at hother
      rw [← Option.some.inj hother, hunclaimed] at hclaimed
      contradiction
    · exact h.waiting m other values' hold hphase
  · intro m other number hm hphase
    rw [hlater.callers] at hm
    rw [hlater.emissions]
    obtain ⟨-, old, -, rfl⟩ | ⟨-, hold⟩ := getElem?_rephase.mp hm
    · contradiction
    · exact h.running m other number hold hphase
  · intro m other verdict hm hphase
    rw [hlater.callers] at hm
    rw [hlater.emissions]
    obtain ⟨-, old, -, rfl⟩ | ⟨-, hold⟩ := getElem?_rephase.mp hm
    · contradiction
    · exact h.ended m other verdict hold hphase
  · intro id new verdict hnew hdone houtcome
    rw [hlater.groups] at hnew
    rw [hlater.emissions]
    obtain ⟨-, rfl⟩ | ⟨-, hold⟩ := getElem?_set_cases hnew
    · rw [hchanged] at hdone
      rw [show group.stage = .done from hdone] at hstage
      contradiction
    · exact h.outcome id new verdict hold hdone houtcome

/-- A caller without an emitter: its group was not emitted and is not going to be. -/
theorem skip (h : Accounted committer) (hs : Staffed committer) {n : Nat} {caller : Caller ν}
    {values : List ν} {key : String} (hmove : Move committer action later)
    (hcaller : committer.callers[n]? = some caller) (hphase : caller.phase = .claimed values)
    (hlater : Leaves committer later committer.registry.groups
      (committer.callers.modify n fun other => { other with
        phase := .emitted (.error (.emitterNotSet key)) })
      committer.pending committer.emissions) : Accounted later := by
  constructor
  · intro m emission hemission
    rw [hlater.emissions] at hemission
    exact kept hs hmove (h.emission m emission hemission)
  · rw [hlater.emissions]
    exact h.once
  · intro m other values' hm hother
    rw [hlater.callers] at hm
    rw [hlater.emissions]
    obtain ⟨-, old, -, rfl⟩ | ⟨-, hold⟩ := getElem?_rephase.mp hm
    · contradiction
    · exact h.waiting m other values' hold hother
  · intro m other number hm hother
    rw [hlater.callers] at hm
    rw [hlater.emissions]
    obtain ⟨-, old, -, rfl⟩ | ⟨-, hold⟩ := getElem?_rephase.mp hm
    · contradiction
    · exact h.running m other number hold hother
  · intro m other verdict hm hother
    rw [hlater.callers] at hm
    rw [hlater.emissions]
    obtain ⟨-, old, hold, rfl⟩ | ⟨-, hold⟩ := getElem?_rephase.mp hm
    · rw [hcaller] at hold
      rw [← Option.some.inj hold]
      exact .inr ⟨h.waiting n caller values hcaller hphase, key, (Phase.emitted.inj hother).symm⟩
    · exact h.ended m other verdict hold hother
  · intro id group verdict hgroup hdone houtcome
    rw [hlater.groups] at hgroup
    rw [hlater.emissions]
    exact h.outcome id group verdict hgroup hdone houtcome

/-- A caller starts the emitter, for a group that was not emitted. -/
theorem begin (h : Accounted committer) (hs : Staffed committer) {n : Nat} {caller : Caller ν}
    {values : List ν} (hmove : Move committer action later)
    (hcaller : committer.callers[n]? = some caller) (hphase : caller.phase = .claimed values)
    (hlater : Leaves committer later committer.registry.groups
      (committer.callers.modify n fun other => { other with
        phase := .emitting committer.emissions.size })
      committer.pending
      (committer.emissions.push
        { group := caller.group, emitKey := committer.emitKeyOf caller.group, values })) :
    Accounted later := by
  have hunemitted : Unemitted committer.emissions caller.group :=
    h.waiting n caller values hcaller hphase
  have hworks : caller.phase.isWorking = true := by rw [hphase]; rfl
  have hgroup := Array.getElem?_eq_getElem (hs.known n caller hcaller)
  -- the others that work do so for other groups
  have hother : ∀ {m : Nat} {other : Caller ν}, m ≠ n → committer.callers[m]? = some other →
      other.phase.isWorking = true → caller.group ≠ other.group := by
    intro m other hne hm hother heq
    exact hne (alone hs hm hcaller heq.symm hother hworks)
  have hcases : ∀ {m : Nat} {one : Emission ν}, later.emissions[m]? = some one →
      (m = committer.emissions.size ∧
        one = { group := caller.group, emitKey := committer.emitKeyOf caller.group, values }) ∨
        committer.emissions[m]? = some one := by
    intro m one hone
    rw [hlater.emissions, Array.getElem?_push] at hone
    split at hone
    · next hm => exact .inl ⟨hm, (Option.some.inj hone).symm⟩
    · exact .inr hone
  constructor
  · intro m emission hemission
    obtain ⟨-, rfl⟩ | hold := hcases hemission
    · refine kept hs hmove ⟨_, hgroup, ?_, ?_⟩
      · exact (((hs.attended _ _ hgroup).fits n caller hcaller rfl).of_isWorking hworks).2
      · rw [emitKeyOf, hgroup]
        rfl
    · exact kept hs hmove (h.emission m emission hold)
  · intro k m one two hone htwo heq
    obtain ⟨rfl, rfl⟩ | hold := hcases hone
    · obtain ⟨rfl, -⟩ | hold' := hcases htwo
      · rfl
      · exact absurd heq.symm (hunemitted m two hold')
    · obtain ⟨-, rfl⟩ | hold' := hcases htwo
      · exact absurd heq (hunemitted k one hold)
      · exact h.once k m one two hold hold' heq
  · intro m other values' hm hwaits
    rw [hlater.callers] at hm
    rw [hlater.emissions]
    obtain ⟨-, old, -, rfl⟩ | ⟨hne, hold⟩ := getElem?_rephase.mp hm
    · contradiction
    · exact (h.waiting m other values' hold hwaits).push (hother hne hold (by rw [hwaits]; rfl))
  · intro m other number hm hruns
    rw [hlater.callers] at hm
    rw [hlater.emissions]
    obtain ⟨-, old, hold, rfl⟩ | ⟨-, hold⟩ := getElem?_rephase.mp hm
    · rw [hcaller] at hold
      rw [← Option.some.inj hold, ← Phase.emitting.inj hruns]
      exact ⟨_, Array.getElem?_push_size, rfl, rfl⟩
    · obtain ⟨emission, hemission, hrest⟩ := h.running m other number hold hruns
      have hlt : number < committer.emissions.size := (Array.getElem?_eq_some_iff.mp hemission).1
      exact ⟨emission, by rw [Array.getElem?_push, if_neg (by omega), hemission], hrest⟩
  · intro m other verdict hm hends
    rw [hlater.callers] at hm
    rw [hlater.emissions]
    obtain ⟨-, old, -, rfl⟩ | ⟨hne, hold⟩ := getElem?_rephase.mp hm
    · contradiction
    · exact (h.ended m other verdict hold hends).push (hother hne hold (by rw [hends]; rfl))
  · intro id group verdict hid hdone houtcome
    rw [hlater.groups] at hid
    rw [hlater.emissions]
    refine (h.outcome id group verdict hid hdone houtcome).push ?_
    rintro rfl
    exact not_done hs hcaller hworks hid hdone

/-- The emitter of a caller answers. -/
theorem complete (h : Accounted committer) (hs : Staffed committer) {n number : Nat}
    {caller : Caller ν} {emission : Emission ν} {answer : Except String Unit}
    (hmove : Move committer action later) (hcaller : committer.callers[n]? = some caller)
    (hphase : caller.phase = .emitting number)
    (hemission : committer.emissions[number]? = some emission)
    (hlater : Leaves committer later committer.registry.groups
      (committer.callers.modify n fun other => { other with
        phase := .emitted (verdictOf emission.emitKey answer) })
      committer.pending
      (committer.emissions.setIfInBounds number { emission with answer := some answer })) :
    Accounted later := by
  obtain ⟨same, hsame, hgroup, hnone⟩ := h.running n caller number hcaller hphase
  rw [← Option.some.inj (hemission.symm.trans hsame)] at hgroup hnone
  have hworks : caller.phase.isWorking = true := by rw [hphase]; rfl
  have hbefore : ∀ {m : Nat} {one : Emission ν}, later.emissions[m]? = some one →
      ∃ old, committer.emissions[m]? = some old ∧ one.group = old.group ∧
        one.emitKey = old.emitKey := by
    intro m one hone
    rw [hlater.emissions] at hone
    obtain ⟨rfl, rfl⟩ | ⟨-, hold⟩ := getElem?_set_cases hone
    · exact ⟨emission, hemission, rfl, rfl⟩
    · exact ⟨one, hold, rfl, rfl⟩
  constructor
  · intro m one hone
    obtain ⟨old, hold, heq, hkey⟩ := hbefore hone
    rw [heq, hkey]
    exact kept hs hmove (h.emission m old hold)
  · intro k m one two hone htwo heq
    obtain ⟨old, hold, holdGroup, -⟩ := hbefore hone
    obtain ⟨old', hold', holdGroup', -⟩ := hbefore htwo
    exact h.once k m old old' hold hold' (by rw [← holdGroup, ← holdGroup', heq])
  · intro m other values hm hwaits
    rw [hlater.callers] at hm
    rw [hlater.emissions]
    obtain ⟨-, old, -, rfl⟩ | ⟨-, hold⟩ := getElem?_rephase.mp hm
    · contradiction
    · exact (h.waiting m other values hold hwaits).answered hemission
  · intro m other place hm hruns
    rw [hlater.callers] at hm
    rw [hlater.emissions]
    obtain ⟨-, old, -, rfl⟩ | ⟨hne, hold⟩ := getElem?_rephase.mp hm
    · contradiction
    · obtain ⟨running, hrunning, hown, hopen⟩ := h.running m other place hold hruns
      have hplace : number ≠ place := by
        rintro rfl
        rw [hemission] at hrunning
        rw [← Option.some.inj hrunning, hgroup] at hown
        exact hne (alone hs hold hcaller hown.symm (by rw [hruns]; rfl) hworks)
      exact ⟨running, by rw [Array.getElem?_setIfInBounds_ne hplace, hrunning], hown, hopen⟩
  · intro m other verdict hm hends
    rw [hlater.callers] at hm
    rw [hlater.emissions]
    obtain ⟨-, old, hold, rfl⟩ | ⟨-, hold⟩ := getElem?_rephase.mp hm
    · rw [hcaller] at hold
      rw [← Option.some.inj hold]
      have hlt : number < committer.emissions.size := (Array.getElem?_eq_some_iff.mp hemission).1
      exact .inl ⟨number, _, answer, Array.getElem?_setIfInBounds_self_of_lt hlt, hgroup, rfl,
        (Phase.emitted.inj hends).symm⟩
    · exact (h.ended m other verdict hold hends).answered hemission hnone
  · intro id group verdict hid hdone houtcome
    rw [hlater.groups] at hid
    rw [hlater.emissions]
    exact (h.outcome id group verdict hid hdone houtcome).answered hemission hnone

/-- Every move keeps emissions accounted for. -/
theorem move (h : Accounted committer) (hs : Staffed committer)
    (hmove : Move committer action later) : Accounted later := by
  have hmoved := hmove
  cases hmove with
  | turn hdeposit hturn hcallers hpending hemissions =>
    refine h.calm hs hmoved hemissions fun m other hm _ => ?_
    rw [← hcallers, hm]
  | store hdeposit hfind hgroup hput hlater =>
    refine h.calm hs hmoved hlater.emissions fun m other hm hworks => ?_
    rw [hlater.callers, Array.getElem?_push] at hm
    split at hm
    · rw [← Option.some.inj hm] at hworks
      contradiction
    · exact hm
  | deliver hpending hlater =>
    refine h.calm hs hmoved hlater.emissions fun m other hm hworks => ?_
    rw [hlater.callers] at hm
    exact working_of_rouse hm hworks
  | proceed hdeposit hcaller hphase hlater =>
    refine h.calm hs hmoved hlater.emissions fun m other hm hworks => ?_
    rw [hlater.callers] at hm
    refine working_of_rephase hm hworks ?_
    obtain ⟨-, rfl⟩ | ⟨-, _, _, -, -, rfl⟩ | ⟨-, rfl, -⟩ | ⟨_, -, rfl⟩ := hphase <;> rfl
  | claim hcaller hphase hgroup hclaim hlater =>
    exact h.claim hs hmoved hcaller hgroup hclaim hlater
  | skip hcaller hphase hlater => exact h.skip hs hmoved hcaller hphase hlater
  | begin hcaller hphase hlater => exact h.begin hs hmoved hcaller hphase hlater
  | complete hcaller hphase hemission hlater =>
    exact h.complete hs hmoved hcaller hphase hemission hlater
  | conclude hcaller hphase hgroup hlater =>
    refine h.calm hs hmoved hlater.emissions fun m other hm hworks => ?_
    rw [hlater.callers] at hm
    exact working_of_rephase hm hworks rfl
  | announce hcaller hphase hlater =>
    refine h.calm hs hmoved hlater.emissions fun m other hm hworks => ?_
    rw [hlater.callers] at hm
    exact working_of_rouse (working_of_rephase hm hworks rfl) hworks

theorem step (h : Accounted committer) (hs : Staffed committer) (action : Action ν ε) :
    Accounted (committer.step action) :=
  h.move hs (committer.move_step action hs.known)

theorem run (h : Accounted committer) (hs : Staffed committer) (actions : List (Action ν ε)) :
    Accounted (committer.run actions) := by
  induction actions generalizing committer with
  | nil => exact h
  | cons action rest ih => exact ih (h.step hs action) (hs.step action)

end Accounted

/-- In every reachable state the emissions are accounted for. -/
theorem accounted_run {label : String} {settings : Settings} {scheme : KeyScheme}
    {slotBytes : Nat} {unstartable : Option (Sweeper × String)} {start : Committer ν ε}
    (hstart : (launch label settings scheme slotBytes unstartable).1 = .ok start)
    (actions : List (Action ν ε)) : Accounted (start.run actions) := by
  obtain ⟨-, hregistry, hcallers, -, hemissions, -⟩ := launch_eq_ok hstart
  refine Accounted.run ?_ (.launch hstart) actions
  constructor
  · intro m emission hemission
    rw [hemissions] at hemission
    contradiction
  · intro m n one two hone
    rw [hemissions] at hone
    contradiction
  · intro n caller values hcaller
    rw [hcallers] at hcaller
    contradiction
  · intro n caller m hcaller
    rw [hcallers] at hcaller
    contradiction
  · intro n caller verdict hcaller
    rw [hcallers] at hcaller
    contradiction
  · intro id group verdict hgroup
    rw [hregistry] at hgroup
    contradiction

end Committer

end BatchedCommit
