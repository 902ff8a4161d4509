import BatchedCommit.Proofs.Expiry

/-!
# BatchedCommit.Proofs.Deeds

What a step does to the registry of a reachable committer. `Registry.Deed` lists the sections
once more, with what the callers guarantee about them: an emission is finished on a ready group
whose emission was claimed, and a group is taken out of its index only when it has ended.

Every section keeps what `BatchedCommit.Proofs.Index` says of the indexes, so it holds in every
reachable state (`Committer.indexed_run`).
-/

namespace BatchedCommit

variable {ν ε : Type}

namespace Registry

variable {registry later : Registry ν}

/-! ## Steps of a reachable committer -/

/-- A registry after a step of a reachable committer. -/
inductive Deed (registry : Registry ν) : Action ν ε → Registry ν → Prop where
  | counted {action : Action ν ε} (counters : Counters) :
      Deed registry action { registry with counters }
  | reserve (now : Instant) (child : String) :
      Deed registry (.reserve now child) (registry.reserve now child).registry
  | store (fullKey : String) (value : ν) :
      Deed registry (.store fullKey value) (registry.store fullKey value).registry
  | remove (fullKey : String) :
      Deed registry (.remove fullKey) (registry.remove fullKey).registry
  | close (counters : Counters) (hopen : registry.closed = false) :
      Deed registry .close { registry.close.registry with counters }
  | fixSizes (now : Instant) :
      Deed registry (.sweep .sizeFix now) (registry.fixSizes now).registry
  | relocate (now : Instant) :
      Deed registry (.sweep .relocate now) (registry.relocate now).registry
  | abortOld (now : Instant) :
      Deed registry (.sweep .abort now) (registry.abortOld now).registry
  /-- A caller claims the emission of its group. -/
  | claim {n id : Nat} {group changed : Group ν} {values : List ν}
      (hgroup : registry.groups[id]? = some group)
      (hclaim : group.claim? = some (values, changed)) :
      Deed registry (.look n) (registry.setGroup id changed)
  /-- The emission that a caller has claimed comes to its end. -/
  | finish {n id : Nat} {group : Group ν} (verdict : Verdict)
      (hgroup : registry.groups[id]? = some group) (hstage : group.stage = .ready)
      (hclaimed : group.claimed = true) :
      Deed registry (.conclude n) (registry.setGroup id (group.finish verdict))
  /-- A group that has ended leaves its index. -/
  | retire {n id : Nat} {group : Group ν} (hgroup : registry.groups[id]? = some group)
      (hended : group.stage.isTerminal = true) :
      Deed registry (.leave n) (registry.unregister group.kind group.key id)

/-- A shutdown empties the indexes and the tombstones, and otherwise only changes groups. -/
theorem frame_close (registry : Registry ν) : ∃ groups, registry.close.registry =
    { registry with
      groups, closed := true, current := none, normal := {}, delayed := {}, tombstones := {} } := by
  refine foldl_keep (P := fun state : Section ν Unit => ∃ groups, state.registry =
    { registry with groups, closed := true, current := none, normal := {}, delayed := {},
                    tombstones := {} }) _ (fun state id _ hstate => ?_) ⟨registry.groups, rfl⟩
  obtain ⟨groups, hstate⟩ := hstate
  obtain heq | ⟨group, -, -, heq⟩ := abandon_cases state id
  · exact ⟨groups, by rw [heq, hstate]⟩
  · exact ⟨_, by rw [heq, hstate]; rfl⟩

/-- The sweep that fixes sizes changes groups, and the choice of the one for reservations. -/
theorem frame_fixSizes (registry : Registry ν) (now : Instant) : ∃ groups current,
    (registry.fixSizes now).registry = { registry with groups, current } := by
  refine foldl_keep (P := fun state : Section ν Unit => ∃ groups current,
    state.registry = { registry with groups, current }) _ (fun state id _ hstate => ?_)
    ⟨registry.groups, registry.current, rfl⟩
  obtain ⟨groups, current, hstate⟩ := hstate
  obtain heq | ⟨_, -, -, -, heq⟩ := fixSizeOf_cases now state id
  · exact ⟨groups, current, by rw [heq, hstate]⟩
  · exact ⟨_, _, by rw [heq, afterFix, hstate]⟩

/-- The sweep that moves slots changes groups, and enters new ones into the delayed index. -/
theorem frame_relocate (registry : Registry ν) (now : Instant) : ∃ groups delayed counters,
    (registry.relocate now).registry = { registry with groups, delayed, counters } := by
  obtain ⟨groups, count, -, -, hregistry⟩ := registry.relieved_registry now
  cases hbroken : (registry.relieved now).broken with
  | true => exact ⟨_, registry.delayed, _, by rw [relocate_of_broken hbroken, hregistry]⟩
  | false => exact ⟨groups, _, _, by rw [relocate_of_not_broken hbroken, hregistry]⟩

theorem unregister_slotBytes (registry : Registry ν) (kind : GroupKind) (key : String)
    (id : Nat) : (registry.unregister kind key id).slotBytes = registry.slotBytes := by
  unfold unregister
  cases kind <;> dsimp only <;> split <;> split <;> rfl

theorem slotBytes_abortOld (registry : Registry ν) (now : Instant) :
    (registry.abortOld now).registry.slotBytes = registry.slotBytes := by
  have hstrikes : ∀ (kind : GroupKind) (entries : List (String × Nat)) (sweep : Abortion ν),
      (entries.foldl (Abortion.strike now kind) sweep).state.registry.slotBytes =
        sweep.state.registry.slotBytes := by
    intro kind entries sweep
    refine foldl_keep (P := fun other : Abortion ν =>
      other.state.registry.slotBytes = sweep.state.registry.slotBytes) _
      (fun other entry _ hother => ?_) rfl
    obtain ⟨_, _, heq⟩ := frame_strike now kind other entry.1 entry.2
    rw [heq]
    exact hother
  have hbury : ∀ (entries : List (GroupKind × String × Nat)) (middle : Registry ν),
      (entries.foldl (bury now) middle).slotBytes = middle.slotBytes := by
    intro entries middle
    refine foldl_keep (P := fun other : Registry ν => other.slotBytes = middle.slotBytes) _
      (fun other entry _ hother => ?_) rfl
    exact (unregister_slotBytes other _ _ _).trans hother
  rw [abortOld]
  exact (hbury _ _).trans ((hstrikes _ _ _).trans (hstrikes _ _ _))

/-- Only a sweep that aborts groups and the shutdown change tombstones, and only the shutdown
closes the committer. -/
theorem Deed.calm {action : Action ν ε} (h : Deed registry action later) :
    (later.tombstones = registry.tombstones ∧ later.closed = registry.closed) ∨
    (∃ now, action = .sweep .abort now ∧ later = (registry.abortOld now).registry) ∨
    (∃ counters, action = .close ∧ registry.closed = false ∧
      later = { registry.close.registry with counters }) := by
  cases h with
  | counted counters => exact .inl ⟨rfl, rfl⟩
  | reserve now child =>
    obtain ⟨-, heq⟩ | ⟨_, _, -, -, -, -, -, heq⟩ | ⟨_, _, _, -, -, -, -, heq⟩ |
      ⟨_, _, -, -, -, -, -, heq⟩ | ⟨-, -, -, heq⟩ := registry.reserve_cases now child <;>
      exact .inl (by rw [heq]; exact ⟨rfl, rfl⟩)
  | store fullKey value =>
    obtain ⟨_, heq⟩ | ⟨_, _, _, -, -, -, -, heq⟩ := registry.store_cases fullKey value <;>
      exact .inl (by rw [heq]; exact ⟨rfl, rfl⟩)
  | remove fullKey =>
    refine .inl ?_
    obtain ⟨_, heq⟩ | ⟨_, _, _, -, -, -, -, -, heq⟩ | ⟨_, _, _, -, -, -, -, -, heq⟩ :=
      registry.remove_cases fullKey
    · rw [heq]
      exact ⟨rfl, rfl⟩
    · rw [heq]
      exact ⟨unregister_tombstones _ _ _ _, unregister_closed _ _ _ _⟩
    · rw [heq]
      exact ⟨rfl, rfl⟩
  | close counters hopen => exact .inr (.inr ⟨counters, rfl, hopen, rfl⟩)
  | fixSizes now =>
    obtain ⟨groups, current, heq⟩ := registry.frame_fixSizes now
    exact .inl (by rw [heq]; exact ⟨rfl, rfl⟩)
  | relocate now =>
    obtain ⟨groups, delayed, counters, heq⟩ := registry.frame_relocate now
    exact .inl (by rw [heq]; exact ⟨rfl, rfl⟩)
  | abortOld now => exact .inr (.inl ⟨now, rfl, rfl⟩)
  | claim hgroup hclaim => exact .inl ⟨rfl, rfl⟩
  | finish verdict hgroup hstage hclaimed => exact .inl ⟨rfl, rfl⟩
  | retire hgroup hended =>
    exact .inl ⟨unregister_tombstones _ _ _ _, unregister_closed _ _ _ _⟩

theorem indexed_close (registry : Registry ν) : registry.close.registry.Indexed := by
  obtain ⟨groups, heq⟩ := registry.frame_close
  rw [heq]
  exact ⟨fun entry hentry => by contradiction, fun entry hentry => by contradiction⟩

end Registry

namespace Committer

open Registry (Deed)

/-- A section that changed and reported nothing. -/
theorem absorb_same {α : Type} (committer : Committer ν ε) (answer : α) :
    committer.absorb { answer, registry := committer.registry } = committer := by
  simp [absorb]

/-- No step changes how many bytes a slot takes. -/
theorem SectionOf.slotBytes {registry later : Registry ν} {action : Action ν ε}
    (h : SectionOf registry action later) : later.slotBytes = registry.slotBytes := by
  cases h with
  | counted counters => rfl
  | reserve now child =>
    obtain ⟨-, heq⟩ | ⟨_, _, -, -, -, -, -, heq⟩ | ⟨_, _, _, -, -, -, -, heq⟩ |
      ⟨_, _, -, -, -, -, -, heq⟩ | ⟨-, -, -, heq⟩ := registry.reserve_cases now child <;>
      simp only [heq, Registry.afterReserve, Registry.afterOpen]
  | store fullKey value =>
    obtain ⟨_, heq⟩ | ⟨_, _, _, -, -, -, -, heq⟩ := registry.store_cases fullKey value <;>
      simp only [heq, Registry.setGroup]
  | remove fullKey =>
    obtain ⟨_, heq⟩ | ⟨_, _, _, -, -, -, -, -, heq⟩ | ⟨_, _, _, -, -, -, -, -, heq⟩ :=
      registry.remove_cases fullKey
    · rw [heq]
    · rw [heq]
      exact Registry.unregister_slotBytes _ _ _ _
    · rw [heq]
      rfl
  | close counters =>
    obtain ⟨groups, heq⟩ := registry.frame_close
    rw [heq]
  | fixSizes now =>
    obtain ⟨groups, current, heq⟩ := registry.frame_fixSizes now
    rw [heq]
  | relocate now =>
    obtain ⟨groups, delayed, counters, heq⟩ := registry.frame_relocate now
    rw [heq]
  | abortOld now => exact registry.slotBytes_abortOld now
  | glance n id =>
    obtain ⟨_, _, -, -, heq⟩ | ⟨_, _, _, -, -, -, heq⟩ | ⟨-, heq⟩ := registry.glance_cases id <;>
      simp only [heq, Registry.setGroup]
  | finish n id verdict =>
    rw [Registry.finish]
    split <;> rfl
  | retire n id =>
    rw [Registry.retire]
    split
    · exact Registry.unregister_slotBytes _ _ _ _
    · rfl

/-- In a reachable committer every step is such a deed. -/
theorem Staffed.deed {committer : Committer ν ε} (hs : Staffed committer) (action : Action ν ε) :
    Deed committer.registry action (committer.step action).registry := by
  have hsame : Deed committer.registry action committer.registry :=
    .counted committer.registry.counters
  have hfits : ∀ {n : Nat} {caller : Caller ν}, committer.callers[n]? = some caller →
      ∃ group, committer.registry.groups[caller.group]? = some group ∧
        caller.phase.Fits group := by
    intro n caller hcaller
    have hgroup := Array.getElem?_eq_getElem (hs.known n caller hcaller)
    exact ⟨_, hgroup, (hs.attended _ _ hgroup).fits n caller hcaller rfl⟩
  have hsection := committer.step_section action
  cases action with
  | close =>
    unfold Committer.step at hsection ⊢
    dsimp only at hsection ⊢
    cases hclosed : committer.registry.closed with
    | true => rwa [close, if_pos hclosed]
    | false =>
      obtain ⟨journal, counters, heq⟩ := committer.close_eq hclosed
      rw [heq]
      exact .close counters hclosed
  | look n =>
    generalize (committer.step (.look n)).registry = later at hsection
    cases hsection with
    | counted counters => exact .counted counters
    | glance _ id =>
      obtain ⟨_, _, -, -, heq⟩ | ⟨group, values, changed, hgroup, -, hclaim, heq⟩ | ⟨-, heq⟩ :=
        committer.registry.glance_cases id
      · rw [heq]
        exact hsame
      · rw [heq]
        exact .claim hgroup hclaim
      · rw [heq]
        exact hsame
  | conclude n =>
    unfold Committer.step conclude
    dsimp only
    split
    · next id fullKey verdict hcaller =>
      obtain ⟨group, hgroup, hstage, hclaimed⟩ := hfits hcaller
      show Deed committer.registry _ (committer.registry.finish id verdict)
      rw [Registry.finish, hgroup]
      exact .finish verdict hgroup hstage hclaimed
    · exact hsame
  | leave n =>
    unfold Committer.step leave
    dsimp only
    split
    · next id fullKey verdict hcaller =>
      obtain ⟨group, hgroup, houtcome⟩ := hfits hcaller
      show Deed committer.registry _ (committer.registry.retire id)
      rw [Registry.retire, hgroup]
      exact .retire hgroup ((hs.attended _ _ hgroup).coherent.isTerminal houtcome)
    · exact hsame
  | _ =>
    generalize (committer.step _).registry = later at hsection
    cases hsection <;> constructor

/-! ## Indexes of reachable committers -/

theorem indexed_step {committer : Committer ν ε} (h : committer.registry.Indexed)
    (action : Action ν ε) : (committer.step action).registry.Indexed := by
  have hsection := committer.step_section action
  generalize (committer.step action).registry = later at hsection
  cases hsection with
  | counted counters => exact h.keep rfl rfl fun _ _ _ hlives => hlives.congr rfl
  | reserve now child => exact h.reserve now child
  | store fullKey value => exact h.store fullKey value
  | remove fullKey => exact h.remove fullKey
  | close counters =>
    exact (Registry.indexed_close committer.registry).keep rfl rfl
      fun _ _ _ hlives => hlives.congr rfl
  | fixSizes now => exact h.fixSizes now
  | relocate now => exact h.relocate now
  | abortOld now => exact h.abortOld now
  | glance n id => exact h.glance id
  | finish n id verdict => exact h.finish id verdict
  | retire n id => exact h.retire id

theorem indexed_run {committer : Committer ν ε} (h : committer.registry.Indexed)
    (actions : List (Action ν ε)) : (committer.run actions).registry.Indexed := by
  induction actions generalizing committer with
  | nil => exact h
  | cons action rest ih => exact ih (indexed_step h action)

/-- In every reachable state a slot takes as many bytes as at the launch. -/
theorem run_slotBytes {label : String} {settings : Settings} {scheme : KeyScheme}
    {slotBytes : Nat} {unstartable : Option (Sweeper × String)} {start : Committer ν ε}
    (hstart : (launch label settings scheme slotBytes unstartable).1 = .ok start)
    (actions : List (Action ν ε)) : (start.run actions).registry.slotBytes = slotBytes := by
  induction actions using List.reverseRecOn with
  | nil =>
    rw [run_nil, (launch_eq_ok hstart).2.1]
    rfl
  | append_singleton actions action ih =>
    rw [run_append]
    exact ((start.run actions).step_section action).slotBytes.trans ih

/-- There can be room for the slots of a group in all reachable states or in none. -/
theorem run_hasRoom {label : String} {settings : Settings} {scheme : KeyScheme}
    {slotBytes : Nat} {unstartable : Option (Sweeper × String)} {start : Committer ν ε}
    (hstart : (launch label settings scheme slotBytes unstartable).1 = .ok start)
    (actions : List (Action ν ε)) : (start.run actions).registry.hasRoom =
      Group.roomFor slotBytes settings.slotCapacity.toNat := by
  rw [Registry.hasRoom, Registry.capacity, run_slotBytes hstart, (run_constant hstart actions).1]

/-- In every reachable state the indexes lead to groups that live. -/
theorem indexed_of_launch {label : String} {settings : Settings} {scheme : KeyScheme}
    {slotBytes : Nat} {unstartable : Option (Sweeper × String)} {start : Committer ν ε}
    (hstart : (launch label settings scheme slotBytes unstartable).1 = .ok start)
    (actions : List (Action ν ε)) : (start.run actions).registry.Indexed := by
  refine indexed_run ?_ actions
  rw [(launch_eq_ok hstart).2.1]
  exact ⟨fun entry hentry => by contradiction, fun entry hentry => by contradiction⟩

end Committer

end BatchedCommit
