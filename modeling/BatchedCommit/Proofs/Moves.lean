import BatchedCommit.Committer.Run
import BatchedCommit.Proofs.Turns

/-!
# BatchedCommit.Proofs.Moves

What one step of a run does to the groups, the callers, the wake-ups that are due and the
emissions. `Committer.Move` lists the possibilities, and `Committer.move_step` says that there
are no others; every invariant of runs is proved by cases on it.
-/

namespace BatchedCommit

variable {ν ε : Type}

namespace Committer

/-! ## Launching -/

/-- A committer that was launched has valid settings, no groups and no callers. -/
theorem launch_eq_ok {label : String} {settings : Settings} {scheme : KeyScheme}
    {slotBytes : Nat} {unstartable : Option (Sweeper × String)} {start : Committer ν ε}
    (h : (launch label settings scheme slotBytes unstartable).1 = .ok start) :
    settings.validate = .ok () ∧ start.registry = .empty settings scheme slotBytes ∧
      start.callers = #[] ∧ start.pending = [] ∧ start.emissions = #[] ∧
      start.relocating = true := by
  unfold launch at h
  cases hvalid : settings.validate with
  | error failure =>
    rw [hvalid] at h
    contradiction
  | ok _ =>
    rw [hvalid] at h
    cases unstartable with
    | some worker => contradiction
    | none =>
      rw [← Except.ok.inj h]
      exact ⟨rfl, rfl, rfl, rfl, rfl, rfl⟩

/-! ## Values -/

/-- The value that an action stores, if it stores one. -/
def deposit (committer : Committer ν ε) : Action ν ε → List ν
  | .store fullKey value =>
    match (committer.store fullKey value).1 with
    | .ok _ => [value]
    | .error _ => []
  | _ => []

/-- The values that a list of actions stores, in order. -/
def stored (committer : Committer ν ε) : List (Action ν ε) → List ν
  | [] => []
  | action :: actions => committer.deposit action ++ (committer.step action).stored actions

theorem stored_append (committer : Committer ν ε) (first second : List (Action ν ε)) :
    committer.stored (first ++ second) =
      committer.stored first ++ (committer.run first).stored second := by
  induction first generalizing committer with
  | nil => rfl
  | cons action rest ih =>
    rw [List.cons_append, stored, ih, stored, List.append_assoc, run_cons]

theorem stored_singleton (committer : Committer ν ε) (action : Action ν ε) :
    committer.stored [action] = committer.deposit action :=
  List.append_nil _

/-! ## Moves -/

/-- A step left these groups, callers, wake-ups and emissions behind. -/
structure Leaves (committer later : Committer ν ε) (groups : Array (Group ν))
    (callers : Array (Caller ν)) (pending : List Nat) (emissions : Array (Emission ν)) : Prop where
  groups : later.registry.groups = groups
  callers : later.callers = callers
  pending : later.pending = pending
  emissions : later.emissions = emissions
  settings : later.registry.settings = committer.registry.settings
  scheme : later.registry.scheme = committer.registry.scheme

/-- What a caller is told when the emitter answers. -/
def verdictOf (emitKey : String) : Except String Unit → Verdict
  | .ok () => .ok ()
  | .error cause => .error (.emitFailed emitKey cause)

/-- What a step may do. -/
inductive Move (committer : Committer ν ε) : Action ν ε → Committer ν ε → Prop where
  /-- No caller takes part in it. -/
  | turn {action : Action ν ε} {later : Committer ν ε} {woken : List Nat}
      (hdeposit : committer.deposit action = [])
      (hturn : Registry.Turn committer.registry later.registry woken)
      (hcallers : later.callers = committer.callers)
      (hpending : later.pending = committer.pending ++ woken)
      (hemissions : later.emissions = committer.emissions) : Move committer action later
  /-- Somebody stores a value, and waits from now on. -/
  | store {later : Committer ν ε} {fullKey : String} {value : ν} {id : Nat}
      {group changed : Group ν} (hdeposit : committer.deposit (.store fullKey value) = [value])
      (hfind : committer.registry.find fullKey = .ok id)
      (hgroup : committer.registry.groups[id]? = some group)
      (hput : group.put fullKey value = .ok changed)
      (hlater : Leaves committer later
        (committer.registry.groups.setIfInBounds id changed.markReady)
        (committer.callers.push { group := id, fullKey }) committer.pending committer.emissions) :
      Move committer (.store fullKey value) later
  /-- A wake-up is delivered. -/
  | deliver {later : Committer ν ε} {id : Nat} (hpending : id ∈ committer.pending)
      (hlater : Leaves committer later committer.registry.groups
        (committer.callers.map (Caller.rouse id)) (committer.pending.erase id)
        committer.emissions) : Move committer (.deliver id) later
  /-- A caller goes on while its group stays as it is: it wakes up of its own accord, returns
  the outcome of its group, falls asleep, or leaves. -/
  | proceed {action : Action ν ε} {later : Committer ν ε} {n : Nat} {caller : Caller ν}
      {phase : Phase ν} (hdeposit : committer.deposit action = [])
      (hcaller : committer.callers[n]? = some caller)
      (hphase : (caller.phase = .asleep ∧ phase = .looking) ∨
        (caller.phase = .looking ∧ ∃ group verdict,
          committer.registry.groups[caller.group]? = some group ∧
            group.outcome = some verdict ∧ phase = .returned verdict) ∨
        (caller.phase = .looking ∧ phase = .asleep ∧
          ∀ group, committer.registry.groups[caller.group]? = some group →
            group.outcome = none ∧ group.claim? = none) ∨
        ∃ verdict, caller.phase = .leaving verdict ∧ phase = .returned verdict)
      (hlater : Leaves committer later committer.registry.groups
        (committer.callers.modify n fun caller => { caller with phase }) committer.pending
        committer.emissions) : Move committer action later
  /-- A caller claims the emission of its group. -/
  | claim {later : Committer ν ε} {n : Nat} {caller : Caller ν} {group changed : Group ν}
      {values : List ν} (hcaller : committer.callers[n]? = some caller)
      (hphase : caller.phase = .looking)
      (hgroup : committer.registry.groups[caller.group]? = some group)
      (hclaim : group.claim? = some (values, changed))
      (hlater : Leaves committer later
        (committer.registry.groups.setIfInBounds caller.group changed)
        (committer.callers.modify n fun caller => { caller with phase := .claimed values })
        committer.pending committer.emissions) : Move committer (.look n) later
  /-- A caller finds no emitter installed. -/
  | skip {later : Committer ν ε} {n : Nat} {caller : Caller ν} {values : List ν}
      (hcaller : committer.callers[n]? = some caller) (hphase : caller.phase = .claimed values)
      (hlater : Leaves committer later committer.registry.groups
        (committer.callers.modify n fun other => { other with
          phase := .emitted (.error (.emitterNotSet (committer.emitKeyOf caller.group))) })
        committer.pending committer.emissions) : Move committer (.begin n) later
  /-- A caller starts the emitter. -/
  | begin {later : Committer ν ε} {n : Nat} {caller : Caller ν} {values : List ν}
      (hcaller : committer.callers[n]? = some caller) (hphase : caller.phase = .claimed values)
      (hlater : Leaves committer later committer.registry.groups
        (committer.callers.modify n fun other => { other with
          phase := .emitting committer.emissions.size })
        committer.pending
        (committer.emissions.push
          { group := caller.group, emitKey := committer.emitKeyOf caller.group, values })) :
      Move committer (.begin n) later
  /-- The emitter of a caller answers. -/
  | complete {later : Committer ν ε} {n number : Nat} {caller : Caller ν}
      {emission : Emission ν} {answer : Except String Unit}
      (hcaller : committer.callers[n]? = some caller) (hphase : caller.phase = .emitting number)
      (hemission : committer.emissions[number]? = some emission)
      (hlater : Leaves committer later committer.registry.groups
        (committer.callers.modify n fun other => { other with
          phase := .emitted (verdictOf emission.emitKey answer) })
        committer.pending
        (committer.emissions.setIfInBounds number { emission with answer := some answer })) :
      Move committer (.complete n answer) later
  /-- A caller tells its group how the emission ended. -/
  | conclude {later : Committer ν ε} {n : Nat} {caller : Caller ν} {group : Group ν}
      {verdict : Verdict} (hcaller : committer.callers[n]? = some caller)
      (hphase : caller.phase = .emitted verdict)
      (hgroup : committer.registry.groups[caller.group]? = some group)
      (hlater : Leaves committer later
        (committer.registry.groups.setIfInBounds caller.group (group.finish verdict))
        (committer.callers.modify n fun other => { other with phase := .notifying verdict })
        committer.pending committer.emissions) : Move committer (.conclude n) later
  /-- A caller wakes the others. -/
  | announce {later : Committer ν ε} {n : Nat} {caller : Caller ν} {verdict : Verdict}
      (hcaller : committer.callers[n]? = some caller)
      (hphase : caller.phase = .notifying verdict)
      (hlater : Leaves committer later committer.registry.groups
        ((committer.callers.map (Caller.rouse caller.group)).modify n fun other =>
          { other with phase := .leaving verdict })
        committer.pending committer.emissions) : Move committer (.announce n) later

/-- Nothing happens. -/
theorem Move.stay (committer : Committer ν ε) {action : Action ν ε}
    (hdeposit : committer.deposit action = []) : Move committer action committer :=
  .turn hdeposit (.same rfl rfl rfl) rfl (List.append_nil _).symm rfl

/-- A section of the registry that none of the callers takes part in. -/
theorem Move.absorb {α : Type} {committer : Committer ν ε} {action : Action ν ε}
    {state : Section ν α} (hdeposit : committer.deposit action = [])
    (hturn : Registry.Turn committer.registry state.registry state.woken) :
    Move committer action (committer.absorb state) :=
  .turn hdeposit hturn rfl rfl rfl

/-! ## Every step is a move -/

theorem move_store (committer : Committer ν ε) (fullKey : String) (value : ν) :
    Move committer (.store fullKey value) (committer.store fullKey value).2 := by
  obtain ⟨failure, h⟩ | ⟨id, group, changed, -, hfind, hgroup, hput, h⟩ :=
    committer.registry.store_cases fullKey value
  · have hstore : committer.store fullKey value = (.error failure, committer.absorb
        { answer := Except.error (α := Nat) failure, registry := committer.registry }) := by
      rw [store, h]
    rw [hstore]
    exact .absorb (by simp only [deposit, hstore]) (.same rfl rfl rfl)
  · refine .store ?_ hfind hgroup hput ?_
    · simp only [deposit, store, h]
    · rw [store, h]
      exact ⟨rfl, rfl, List.append_nil _, rfl, rfl, rfl⟩

theorem move_look (committer : Committer ν ε) (n : Nat) :
    Move committer (.look n) (committer.look n) := by
  unfold look
  split
  · next id fullKey hcaller =>
    obtain ⟨group, verdict, hgroup, houtcome, h⟩ |
      ⟨group, values, changed, hgroup, houtcome, hclaim, h⟩ | ⟨hnothing, h⟩ :=
      committer.registry.glance_cases id
    · rw [h]
      exact .proceed rfl hcaller (.inr (.inl ⟨rfl, group, verdict, hgroup, houtcome, rfl⟩))
        ⟨rfl, rfl, List.append_nil _, rfl, rfl, rfl⟩
    · rw [h]
      exact .claim hcaller rfl hgroup hclaim ⟨rfl, rfl, List.append_nil _, rfl, rfl, rfl⟩
    · rw [h]
      exact .proceed rfl hcaller (.inr (.inr (.inl ⟨rfl, rfl, hnothing⟩)))
        ⟨rfl, rfl, List.append_nil _, rfl, rfl, rfl⟩
  · exact .stay committer rfl

theorem move_begin (committer : Committer ν ε) (n : Nat) :
    Move committer (.begin n) (committer.begin n) := by
  unfold begin
  split
  · next id fullKey values hcaller =>
    dsimp only
    split
    · exact .skip hcaller rfl ⟨rfl, rfl, rfl, rfl, rfl, rfl⟩
    · exact .begin hcaller rfl ⟨rfl, rfl, rfl, rfl, rfl, rfl⟩
  · exact .stay committer rfl

theorem move_complete (committer : Committer ν ε) (n : Nat) (answer : Except String Unit) :
    Move committer (.complete n answer) (committer.complete n answer) := by
  unfold complete
  split
  · next id fullKey number hcaller =>
    split
    · exact .stay committer rfl
    · next emission hemission =>
      cases answer with
      | ok _ => exact .complete hcaller rfl hemission ⟨rfl, rfl, rfl, rfl, rfl, rfl⟩
      | error cause => exact .complete hcaller rfl hemission ⟨rfl, rfl, rfl, rfl, rfl, rfl⟩
  · exact .stay committer rfl

theorem move_conclude (committer : Committer ν ε) (n : Nat)
    (hknown : ∀ (n : Nat) (caller : Caller ν), committer.callers[n]? = some caller →
      caller.group < committer.registry.groups.size) :
    Move committer (.conclude n) (committer.conclude n) := by
  unfold conclude
  split
  · next id fullKey verdict hcaller =>
    have hgroup := Array.getElem?_eq_getElem (hknown n _ hcaller)
    refine .conclude hcaller rfl hgroup ⟨?_, rfl, rfl, rfl, ?_, ?_⟩
    · show (committer.registry.finish id verdict).groups = _
      rw [Registry.finish, hgroup]
      rfl
    · show (committer.registry.finish id verdict).settings = _
      rw [Registry.finish, hgroup]
      rfl
    · show (committer.registry.finish id verdict).scheme = _
      rw [Registry.finish, hgroup]
      rfl
  · exact .stay committer rfl

theorem move_leave (committer : Committer ν ε) (n : Nat) :
    Move committer (.leave n) (committer.leave n) := by
  unfold leave
  split
  · next id fullKey verdict hcaller =>
    refine .proceed rfl hcaller (.inr (.inr (.inr ⟨verdict, rfl, rfl⟩)))
      ⟨?_, rfl, rfl, rfl, ?_, ?_⟩
    · show (committer.registry.retire id).groups = _
      unfold Registry.retire
      split
      · exact Registry.unregister_groups _ _ _ _
      · rfl
    · show (committer.registry.retire id).settings = _
      unfold Registry.retire
      split
      · exact Registry.unregister_settings _ _ _ _
      · rfl
    · show (committer.registry.retire id).scheme = _
      unfold Registry.retire
      split
      · exact Registry.unregister_scheme _ _ _ _
      · rfl
  · exact .stay committer rfl

/-- Stopping sweepers is reported and counted, and that is all. -/
theorem stop_eq (committer : Committer ν ε) (sweeper : Sweeper) :
    ∃ journal counters, committer.stop sweeper = { committer with
      journal, registry := { committer.registry with counters } } := by
  unfold stop
  split
  · exact ⟨_, _, rfl⟩
  · exact ⟨_, committer.registry.counters, rfl⟩

theorem foldl_stop_eq (committer : Committer ν ε) (sweepers : List Sweeper) :
    ∃ journal counters, sweepers.foldl stop committer = { committer with
      journal, registry := { committer.registry with counters } } := by
  induction sweepers generalizing committer with
  | nil => exact ⟨committer.journal, committer.registry.counters, rfl⟩
  | cons sweeper rest ih =>
    obtain ⟨journal, counters, hstop⟩ := committer.stop_eq sweeper
    obtain ⟨journal', counters', hrest⟩ := ih (committer.stop sweeper)
    refine ⟨journal', counters', ?_⟩
    rw [List.foldl_cons, hrest, hstop]

/-- Closing a committer shuts its registry down, beside reports and counters. -/
theorem close_eq (committer : Committer ν ε) (hopen : committer.registry.closed = false) :
    ∃ journal counters, committer.close = { committer.absorb committer.registry.close with
      journal
      registry := { committer.registry.close.registry with counters } } := by
  obtain ⟨journal, counters, h⟩ :=
    (committer.absorb committer.registry.close).foldl_stop_eq Sweeper.all
  refine ⟨journal.push .committerClosed, counters, ?_⟩
  rw [close, if_neg (by rw [hopen]; decide), h]
  rfl

theorem move_close (committer : Committer ν ε) : Move committer .close committer.close := by
  cases hclosed : committer.registry.closed with
  | true =>
    rw [close, if_pos hclosed]
    exact .stay committer rfl
  | false =>
    obtain ⟨journal, counters, h⟩ := committer.close_eq hclosed
    rw [h]
    exact .turn rfl
      ((Registry.turn_close committer.registry).trans (.same rfl rfl rfl) (List.Subset.refl _))
      rfl rfl rfl

theorem move_sweep (committer : Committer ν ε) (sweeper : Sweeper) (now : Instant) :
    Move committer (.sweep sweeper now) (committer.sweep now sweeper) := by
  cases sweeper with
  | sizeFix => exact .absorb rfl (Registry.turn_fixSizes _ now)
  | relocate =>
    rw [sweep]
    split
    · exact .turn rfl (Registry.turn_relocate committer.registry now) rfl rfl rfl
    · exact .stay committer rfl
  | abort => exact .absorb rfl (Registry.turn_abortOld _ now)

/-- Every step is a move, if the callers wait for groups that exist. -/
theorem move_step (committer : Committer ν ε) (action : Action ν ε)
    (hknown : ∀ (n : Nat) (caller : Caller ν), committer.callers[n]? = some caller →
      caller.group < committer.registry.groups.size) :
    Move committer action (committer.step action) := by
  cases action with
  | reserve now child => exact .absorb rfl (Registry.turn_reserve _ now child)
  | store fullKey value => exact committer.move_store fullKey value
  | remove fullKey => exact .absorb rfl (Registry.turn_remove _ fullKey)
  | install emitter =>
    exact .turn rfl (.same rfl rfl rfl) rfl (List.append_nil _).symm rfl
  | close => exact committer.move_close
  | sweep sweeper now => exact committer.move_sweep sweeper now
  | deliver id =>
    rw [step, deliver]
    split
    · next hmem => exact .deliver hmem ⟨rfl, rfl, rfl, rfl, rfl, rfl⟩
    · exact .stay committer rfl
  | stir n =>
    unfold step stir
    dsimp only
    split
    · next hcaller =>
      exact .proceed rfl hcaller (.inl ⟨rfl, rfl⟩) ⟨rfl, rfl, rfl, rfl, rfl, rfl⟩
    · exact .stay committer rfl
  | look n => exact committer.move_look n
  | begin n => exact committer.move_begin n
  | complete n answer => exact committer.move_complete n answer
  | conclude n => exact committer.move_conclude n hknown
  | announce n =>
    unfold step announce
    dsimp only
    split
    · next hcaller => exact .announce hcaller rfl ⟨rfl, rfl, rfl, rfl, rfl, rfl⟩
    · exact .stay committer rfl
  | leave n => exact committer.move_leave n

/-! ## What a step does to the registry -/

/-- A registry after a step: one section was carried out, or things were counted. -/
inductive SectionOf (registry : Registry ν) : Action ν ε → Registry ν → Prop where
  | counted {action : Action ν ε} (counters : Counters) :
      SectionOf registry action { registry with counters }
  | reserve (now : Instant) (child : String) :
      SectionOf registry (.reserve now child) (registry.reserve now child).registry
  | store (fullKey : String) (value : ν) :
      SectionOf registry (.store fullKey value) (registry.store fullKey value).registry
  | remove (fullKey : String) :
      SectionOf registry (.remove fullKey) (registry.remove fullKey).registry
  | close (counters : Counters) :
      SectionOf registry .close { registry.close.registry with counters }
  | fixSizes (now : Instant) :
      SectionOf registry (.sweep .sizeFix now) (registry.fixSizes now).registry
  | relocate (now : Instant) :
      SectionOf registry (.sweep .relocate now) (registry.relocate now).registry
  | abortOld (now : Instant) :
      SectionOf registry (.sweep .abort now) (registry.abortOld now).registry
  | glance (n id : Nat) : SectionOf registry (.look n) (registry.glance id).registry
  | finish (n id : Nat) (verdict : Verdict) :
      SectionOf registry (.conclude n) (registry.finish id verdict)
  | retire (n id : Nat) : SectionOf registry (.leave n) (registry.retire id)

theorem step_section (committer : Committer ν ε) (action : Action ν ε) :
    SectionOf committer.registry action (committer.step action).registry := by
  have hsame : SectionOf committer.registry action committer.registry :=
    .counted committer.registry.counters
  cases action with
  | reserve now child => exact .reserve now child
  | store fullKey value =>
    have hstore : SectionOf committer.registry (.store fullKey value : Action ν ε)
        (committer.registry.store fullKey value).registry := .store fullKey value
    unfold step store
    dsimp only
    split <;> exact hstore
  | remove fullKey => exact .remove fullKey
  | install emitter => exact hsame
  | close =>
    unfold step
    dsimp only
    cases hclosed : committer.registry.closed with
    | true => rwa [close, if_pos hclosed]
    | false =>
      obtain ⟨journal, counters, heq⟩ := committer.close_eq hclosed
      rw [heq]
      exact .close counters
  | sweep sweeper now =>
    cases sweeper with
    | sizeFix => exact .fixSizes now
    | relocate =>
      unfold step sweep
      dsimp only
      split
      · exact .relocate now
      · exact hsame
    | abort => exact .abortOld now
  | deliver id =>
    unfold step deliver
    dsimp only
    split <;> exact hsame
  | stir n =>
    unfold step stir
    dsimp only
    split <;> exact hsame
  | look n =>
    unfold step look
    dsimp only
    split
    · next id _ _ =>
      have hglance : SectionOf committer.registry (.look n : Action ν ε)
          (committer.registry.glance id).registry := .glance n id
      split <;> exact hglance
    · exact hsame
  | begin n =>
    unfold step begin
    dsimp only
    split
    · split
      · exact .counted _
      · exact hsame
    · exact hsame
  | complete n answer =>
    unfold step complete
    dsimp only
    split
    · split
      · exact hsame
      · cases answer <;> exact .counted _
    · exact hsame
  | conclude n =>
    unfold step conclude
    dsimp only
    split
    · exact .finish n _ _
    · exact hsame
  | announce n =>
    unfold step announce
    dsimp only
    split <;> exact hsame
  | leave n =>
    unfold step leave
    dsimp only
    split
    · exact .retire n _
    · exact hsame

end Committer

end BatchedCommit
