import BatchedCommit.Proofs.Emissions
import BatchedCommit.Proofs.History

/-!
# BatchedCommit.Proofs.Deposits

Where the values are that were stored (`Committer.Deposited`). A value is known by the call that
stored it, and a call by its seat: the slot that the value went into, and its group. No two calls
have the same seat. A value stays in its slot until the emission of the group is claimed; from
then on it is among the values that were taken out of the group, which are those of its slots in
their order.
-/

namespace BatchedCommit

variable {ν ε : Type}

namespace Committer

variable {committer later : Committer ν ε} {action : Action ν ε} {id : Nat} {values : List ν}

/-! ## Values that were taken -/

/-- These values were taken out of a group: a caller is about to give them to the emitter, or
the emitter was given them. -/
inductive Took (committer : Committer ν ε) (id : Nat) (values : List ν) : Prop where
  /-- The caller has claimed the emission. -/
  | claimed {n : Nat} {caller : Caller ν} (hcaller : committer.callers[n]? = some caller)
      (hgroup : caller.group = id) (hphase : caller.phase = .claimed values)
  /-- The emission has begun. -/
  | emitted {m : Nat} {emission : Emission ν} (hemission : committer.emissions[m]? = some emission)
      (hgroup : emission.group = id) (hvalues : emission.values = values)

/-- A group whose values were taken is claimed. -/
theorem Took.group_claimed (h : Took committer id values) (hs : Staffed committer)
    (ha : Accounted committer) :
    ∃ group, committer.registry.groups[id]? = some group ∧ group.claimed = true := by
  cases h with
  | @claimed n caller hcaller hgroup hphase =>
    subst hgroup
    have hgroup := Array.getElem?_eq_getElem (hs.known n caller hcaller)
    have hfits := (hs.attended _ _ hgroup).fits n caller hcaller rfl
    rw [hphase] at hfits
    exact ⟨_, hgroup, hfits.2⟩
  | @emitted m emission hemission hgroup hvalues =>
    subst hgroup
    obtain ⟨group, hgroup, hclaimed, -⟩ := ha.emission m emission hemission
    exact ⟨group, hgroup, hclaimed⟩

/-- The values of an emission were taken before. -/
theorem Move.took_emitted (hmove : Move committer action later) {m : Nat} {emission : Emission ν}
    (hemission : later.emissions[m]? = some emission) :
    Took committer emission.group emission.values := by
  have hsame : later.emissions = committer.emissions →
      Took committer emission.group emission.values := by
    intro heq
    rw [heq] at hemission
    exact .emitted hemission rfl rfl
  cases hmove with
  | turn hdeposit hturn hcallers hpending hemissions => exact hsame hemissions
  | store hdeposit hfind hgroup hput hlater => exact hsame hlater.emissions
  | deliver hpending hlater => exact hsame hlater.emissions
  | proceed hdeposit hcaller hphase hlater => exact hsame hlater.emissions
  | claim hcaller hphase hgroup hclaim hlater => exact hsame hlater.emissions
  | skip hcaller hphase hlater => exact hsame hlater.emissions
  | begin hcaller hphase hlater =>
    rw [hlater.emissions, Array.getElem?_push] at hemission
    split at hemission
    · obtain rfl := Option.some.inj hemission
      exact .claimed hcaller rfl hphase
    · exact .emitted hemission rfl rfl
  | complete hcaller hphase hold hlater =>
    rw [hlater.emissions] at hemission
    obtain ⟨rfl, rfl⟩ | ⟨-, hsame⟩ := getElem?_set_cases hemission
    · exact .emitted hold rfl rfl
    · exact .emitted hsame rfl rfl
  | conclude hcaller hphase hgroup hlater => exact hsame hlater.emissions
  | announce hcaller hphase hlater => exact hsame hlater.emissions

/-- A caller that has claimed an emission had done so before, or it looked and claimed it. -/
theorem Move.claimed_before (hmove : Move committer action later) {m : Nat} {caller : Caller ν}
    (hcaller : later.callers[m]? = some caller) (hphase : caller.phase = .claimed values) :
    committer.callers[m]? = some caller ∨
    ∃ group changed, action = .look m ∧
      committer.registry.groups[caller.group]? = some group ∧
      group.claim? = some (values, changed) ∧
      later.registry.groups[caller.group]? = some changed := by
  have hworks : caller.phase.isWorking = true := by rw [hphase]; rfl
  have hmodify : ∀ {callers : Array (Caller ν)} {n : Nat} {phase : Phase ν},
      (callers.modify n fun caller => { caller with phase })[m]? = some caller →
      phase ≠ .claimed values → callers[m]? = some caller := by
    intro callers n phase hm hne
    obtain ⟨-, old, -, rfl⟩ | ⟨-, hold⟩ := getElem?_rephase.mp hm
    · exact absurd hphase hne
    · exact hold
  cases hmove with
  | turn hdeposit hturn hcallers hpending hemissions =>
    rw [hcallers] at hcaller
    exact .inl hcaller
  | store hdeposit hfind hfound hput hlater =>
    rw [hlater.callers, Array.getElem?_push] at hcaller
    split at hcaller
    · rw [← Option.some.inj hcaller] at hphase
      contradiction
    · exact .inl hcaller
  | deliver hpending hlater =>
    rw [hlater.callers] at hcaller
    exact .inl (Accounted.working_of_rouse hcaller hworks)
  | proceed hdeposit hn hnext hlater =>
    rw [hlater.callers] at hcaller
    refine .inl (hmodify hcaller ?_)
    obtain ⟨-, rfl⟩ | ⟨-, _, _, -, -, rfl⟩ | ⟨-, rfl, -⟩ | ⟨_, -, rfl⟩ := hnext <;> nofun
  | @claim _ n other group changed taken hn hlooks hfound hclaim hlater =>
    rw [hlater.callers] at hcaller
    obtain ⟨rfl, old, hold, rfl⟩ | ⟨-, hold⟩ := getElem?_rephase.mp hcaller
    · obtain rfl := Option.some.inj (hn.symm.trans hold)
      obtain rfl : taken = values := by simpa using hphase
      refine .inr ⟨group, changed, rfl, hfound, hclaim, ?_⟩
      rw [hlater.groups]
      exact Array.getElem?_setIfInBounds_self_of_lt (Array.getElem?_eq_some_iff.mp hfound).1
    · exact .inl hold
  | skip hn hclaimed hlater =>
    rw [hlater.callers] at hcaller
    exact .inl (hmodify hcaller nofun)
  | begin hn hclaimed hlater =>
    rw [hlater.callers] at hcaller
    exact .inl (hmodify hcaller nofun)
  | complete hn hemitting hemission hlater =>
    rw [hlater.callers] at hcaller
    exact .inl (hmodify hcaller nofun)
  | conclude hn hemitted hfound hlater =>
    rw [hlater.callers] at hcaller
    exact .inl (hmodify hcaller nofun)
  | announce hn hnotifying hlater =>
    rw [hlater.callers] at hcaller
    exact .inl (Accounted.working_of_rouse (hmodify hcaller nofun) hworks)

/-- Values that were taken after a step were taken before, or a caller looked and took them. -/
theorem Took.before (h : Took later id values) (hmove : Move committer action later) :
    Took committer id values ∨
    ∃ n group changed, action = .look n ∧ committer.registry.groups[id]? = some group ∧
      group.claim? = some (values, changed) ∧
      later.registry.groups[id]? = some changed ∧
      later.phase? n = some (.claimed values) := by
  cases h with
  | @claimed m caller hcaller hgroup hphase =>
    subst hgroup
    obtain hold | ⟨group, changed, rfl, hfound, hclaim, hchanged⟩ :=
      hmove.claimed_before hcaller hphase
    · exact .inl (.claimed hold rfl hphase)
    · refine .inr ⟨m, group, changed, rfl, hfound, hclaim, hchanged, ?_⟩
      rw [phase?, hcaller, Option.map_some, hphase]
  | @emitted m emission hemission hgroup hvalues =>
    subst hgroup hvalues
    exact .inl (hmove.took_emitted hemission)

/-- The keys of the slots of a claimed group stay as they are. -/
theorem keysOf_of_claimed (hs : Staffed committer) (hmove : Move committer action later)
    {group : Group ν} (hgroup : committer.registry.groups[id]? = some group)
    (hclaimed : group.claimed = true) :
    later.registry.keysOf id = committer.registry.keysOf id := by
  obtain ⟨changed, hchanged, hnext⟩ := hs.next hmove hgroup
  have hslots := hnext.slots_of_claimed (hs.attended id group hgroup).coherent hclaimed
  rw [Registry.keysOf_eq hchanged, Registry.keysOf_eq hgroup, hslots]

/-- A claim leaves the keys of the slots as they are. -/
theorem keysOf_of_claim {group changed : Group ν}
    (hgroup : committer.registry.groups[id]? = some group)
    (hchanged : later.registry.groups[id]? = some changed)
    (hclaim : group.claim? = some (values, changed)) :
    later.registry.keysOf id = committer.registry.keysOf id := by
  obtain ⟨-, -, -, rfl⟩ := Group.claim?_eq_some hclaim
  rw [Registry.keysOf_eq hchanged, Registry.keysOf_eq hgroup]
  simp [Function.comp_def]

/-! ## Values that are held -/

/-- A value that a slot holds after a step was in the slot before, or a caller stored it. -/
theorem Move.held (hmove : Move committer action later) {changed : Group ν} {slot : Slot ν}
    {value : ν} (hchanged : later.registry.groups[id]? = some changed)
    (hslot : slot ∈ changed.slots) (hvalue : slot.value? = some value) :
    (∃ group, committer.registry.groups[id]? = some group ∧ slot ∈ group.slots) ∨
      later.seats = committer.seats ++ [(id, slot.fullKey)] ∧
        committer.deposit action = [value] := by
  have hready : slot.isReady = true := by
    unfold Slot.value? at hvalue
    unfold Slot.isReady
    split at hvalue <;> simp_all
  have hsame : later.registry.groups = committer.registry.groups →
      ∃ group, committer.registry.groups[id]? = some group ∧ slot ∈ group.slots := fun heq =>
    ⟨changed, by rw [← heq, hchanged], hslot⟩
  cases hmove with
  | turn hdeposit hturn hcallers hpending hemissions =>
    cases hgroup : committer.registry.groups[id]? with
    | some group =>
      obtain ⟨other, hother, hshifts, -⟩ := hturn.kept id group hgroup
      obtain rfl := Option.some.inj (hother.symm.trans hchanged)
      exact .inl ⟨group, rfl, (hshifts.mem_iff_of_isReady hready).mp hslot⟩
    | none =>
      obtain ⟨born, hborn, hshifts⟩ := hturn.made id changed hgroup hchanged
      have hawaits := hborn.awaits.1 slot ((hshifts.mem_iff_of_isReady hready).mp hslot)
      rw [hready] at hawaits
      contradiction
  | store hdeposit hfind hgroup hput hlater =>
    rw [hlater.groups] at hchanged
    obtain ⟨rfl, rfl⟩ | ⟨-, hold⟩ := getElem?_set_cases hchanged
    · obtain ⟨-, before, awaiting, after, hslots, hkey, -, -, rfl⟩ := Group.put_eq_ok hput
      rw [Group.markReady_slots, List.mem_append, List.mem_cons] at hslot
      obtain hbefore | rfl | hafter := hslot
      · exact .inl ⟨_, hgroup, by simp [hslots, hbefore]⟩
      · obtain rfl := Option.some.inj hvalue
        exact .inr ⟨by simp [Committer.seats, hlater.callers, Caller.seat, hkey], hdeposit⟩
      · exact .inl ⟨_, hgroup, by simp [hslots, hafter]⟩
    · exact .inl ⟨_, hold, hslot⟩
  | deliver hpending hlater => exact .inl (hsame hlater.groups)
  | proceed hdeposit hcaller hphase hlater => exact .inl (hsame hlater.groups)
  | claim hcaller hphase hgroup hclaim hlater =>
    rw [hlater.groups] at hchanged
    obtain ⟨rfl, rfl⟩ | ⟨-, hold⟩ := getElem?_set_cases hchanged
    · -- nothing is left in the slots of a group that was claimed
      obtain ⟨-, -, -, rfl⟩ := Group.claim?_eq_some hclaim
      obtain ⟨other, -, rfl⟩ := List.mem_map.mp hslot
      rw [Slot.value?_handOver] at hvalue
      contradiction
    · exact .inl ⟨_, hold, hslot⟩
  | skip hcaller hphase hlater => exact .inl (hsame hlater.groups)
  | begin hcaller hphase hlater => exact .inl (hsame hlater.groups)
  | complete hcaller hphase hemission hlater => exact .inl (hsame hlater.groups)
  | conclude hcaller hphase hgroup hlater =>
    rw [hlater.groups] at hchanged
    obtain ⟨rfl, rfl⟩ | ⟨-, hold⟩ := getElem?_set_cases hchanged
    · exact .inl ⟨_, hgroup, hslot⟩
    · exact .inl ⟨_, hold, hslot⟩
  | announce hcaller hphase hlater => exact .inl (hsame hlater.groups)

/-! ## The invariant -/

/-- What became of the values that were stored, in the order in which they were. -/
structure Deposited (committer : Committer ν ε) (deposits : List ν) : Prop where
  /-- Every caller has stored one value. -/
  count : committer.seats.length = deposits.length
  /-- No two callers have the same seat. -/
  own : committer.seats.Nodup
  /-- What a slot holds is the value that was stored there. -/
  held : ∀ (id : Nat) (group : Group ν) (slot : Slot ν) (value : ν),
    committer.registry.groups[id]? = some group → slot ∈ group.slots →
    slot.value? = some value → ((id, slot.fullKey), value) ∈ committer.seats.zip deposits
  /-- What was taken out of a group is one value for each slot of it, in the order of the
  slots. -/
  taken : ∀ (id : Nat) (values : List ν), Took committer id values →
    List.Forall₂ (fun key value => ((id, key), value) ∈ committer.seats.zip deposits)
      (committer.registry.keysOf id) values

/-- Nobody has the seat that a value is stored in: the value of a caller is in its slot, and no
other slot of the group has the key of that slot. -/
theorem seat_notMem_of_put (hs : Staffed committer) {group changed : Group ν} {fullKey : String}
    {value : ν} (hgroup : committer.registry.groups[id]? = some group)
    (hnodup : (group.slots.map Slot.fullKey).Nodup)
    (hput : group.put fullKey value = .ok changed) : (id, fullKey) ∉ committer.seats := by
  intro hmem
  obtain ⟨n, hn⟩ := List.mem_iff_getElem?.mp hmem
  obtain ⟨caller, hcaller, hseat⟩ := getElem?_seats.mp hn
  obtain ⟨rfl, rfl⟩ : caller.group = id ∧ caller.fullKey = fullKey := Prod.mk.inj hseat
  obtain ⟨slot, hslot, hkey, hready⟩ :=
    (hs.attended caller.group group hgroup).seated n caller hcaller rfl
  obtain ⟨-, before, awaiting, after, hslots, hkey', -, hawaiting, -⟩ := Group.put_eq_ok hput
  have hsame : slot = awaiting :=
    List.inj_on_of_nodup_map hnodup hslot (by simp [hslots]) (by rw [hkey, hkey'])
  rw [hsame, hawaiting] at hready
  contradiction

theorem Deposited.move {deposits : List ν} (h : Deposited committer deposits)
    (hs : Staffed committer) (ha : Accounted committer)
    (hnodup : ∀ (id : Nat) (group : Group ν), committer.registry.groups[id]? = some group →
      (group.slots.map Slot.fullKey).Nodup)
    (hmove : Move committer action later) :
    Deposited later (deposits ++ committer.deposit action) := by
  -- what was stored is known by the same seat as before
  have hgrow : committer.seats.zip deposits ⊆
      later.seats.zip (deposits ++ committer.deposit action) := by
    obtain ⟨hseats, hdeposit⟩ | ⟨_, _, _, _, _, -, -, -, -, hseats, hdeposit⟩ := hmove.seats
    · rw [hseats, hdeposit, List.append_nil]
      exact List.Subset.refl _
    · rw [hseats, hdeposit, List.zip_append h.count]
      exact List.subset_append_left _ _
  constructor
  · obtain ⟨hseats, hdeposit⟩ | ⟨_, _, _, _, _, -, -, -, -, hseats, hdeposit⟩ := hmove.seats
    · rw [hseats, hdeposit, List.append_nil, h.count]
    · simp [hseats, hdeposit, h.count]
  · obtain ⟨hseats, -⟩ | ⟨fullKey, value, own, group, changed, -, hgroup, hput, -, hseats, -⟩ :=
      hmove.seats
    · rw [hseats]
      exact h.own
    · have hnew := seat_notMem_of_put hs hgroup (hnodup own group hgroup) hput
      rw [hseats]
      exact List.nodup_append.mpr ⟨h.own, by simp, fun seat hseat other hother heq =>
        hnew (by rw [← List.mem_singleton.mp hother, ← heq]; exact hseat)⟩
  · intro id changed slot value hchanged hslot hvalue
    obtain ⟨group, hgroup, hin⟩ | ⟨hseats, hdeposit⟩ := hmove.held hchanged hslot hvalue
    · exact hgrow (h.held id group slot value hgroup hin hvalue)
    · rw [hseats, hdeposit, List.zip_append h.count]
      simp
  · intro id values htook
    obtain htook | ⟨n, group, changed, -, hgroup, hclaim, hchanged, -⟩ := htook.before hmove
    · obtain ⟨group, hgroup, hclaimed⟩ := htook.group_claimed hs ha
      rw [keysOf_of_claimed hs hmove hgroup hclaimed]
      exact (h.taken id values htook).imp fun _ _ hmem => hgrow hmem
    · obtain ⟨hstage, hunclaimed, rfl, -⟩ := Group.claim?_eq_some hclaim
      have hcoherent := (hs.attended id group hgroup).coherent
      rw [keysOf_of_claim hgroup hchanged hclaim, Registry.keysOf_eq hgroup]
      refine List.forall₂_map_left_iff.mpr (Slot.forall₂_filterMap_value fun slot hslot => ?_)
      have hready := (hcoherent.full (.inl hstage)).2 slot hslot
      obtain ⟨value, hvalue⟩ :=
        Option.isSome_iff_exists.mp (hcoherent.present hunclaimed slot hslot hready)
      exact ⟨value, hvalue, hgrow (h.held id group slot value hgroup hslot hvalue)⟩

/-! ## Runs -/

/-- Somewhere in a run, a caller looks at a group that is ready, and takes these values out of
it; and the keys of the slots of the group are the same ever after. -/
def Traced (start : Committer ν ε) (actions : List (Action ν ε)) (id : Nat) (values : List ν) :
    Prop :=
  ∃ (before after : List (Action ν ε)) (n : Nat) (group changed : Group ν),
    actions = before ++ .look n :: after ∧
      (start.run before).registry.groups[id]? = some group ∧
      group.claim? = some (values, changed) ∧
      (start.run (before ++ [.look n])).phase? n = some (.claimed values) ∧
      (start.run actions).registry.keysOf id = (start.run before).registry.keysOf id

section Runs

variable {label : String} {settings : Settings} {scheme : KeyScheme}
  {slotBytes : Nat} {unstartable : Option (Sweeper × String)} {start : Committer ν ε}

/-- Nothing was taken out of a group of a committer that was just launched. -/
theorem not_took_launch
    (hstart : (launch label settings scheme slotBytes unstartable).1 = .ok start)
    {id : Nat} {values : List ν} : ¬ Took start id values := by
  obtain ⟨-, -, hcallers, -, hemissions, -⟩ := launch_eq_ok hstart
  intro htook
  cases htook with
  | claimed hcaller hgroup hphase =>
    rw [hcallers] at hcaller
    contradiction
  | emitted hemission hgroup hvalues =>
    rw [hemissions] at hemission
    contradiction

/-- In every reachable state, the values are where `Deposited` says. -/
theorem deposited_run (hstart : (launch label settings scheme slotBytes unstartable).1 = .ok start)
    (actions : List (Action ν ε)) : Deposited (start.run actions) (start.stored actions) := by
  have hs : Staffed start := .launch hstart
  obtain ⟨-, hregistry, hcallers, -⟩ := launch_eq_ok hstart
  induction actions using List.reverseRecOn with
  | nil =>
    have hseats : start.seats = [] := by simp [seats, hcallers]
    rw [run_nil]
    refine ⟨by rw [hseats]; rfl, by simp [hseats], fun id group slot value hgroup => ?_,
      fun id values htook => absurd htook (not_took_launch hstart)⟩
    rw [hregistry] at hgroup
    contradiction
  | append_singleton actions action ih =>
    have hrun : Staffed (start.run actions) := hs.run actions
    have hmove := (start.run actions).move_step action hrun.known
    have hlater := ih.move hrun (accounted_run hstart actions)
      (fun _ _ hgroup => (named_run hstart actions hgroup).nodup_keys) hmove
    rw [run_append, stored_append, stored_singleton]
    exact hlater

/-- All values that were ever taken out of a group were taken at once, by a caller that looked. -/
theorem traced_run (hstart : (launch label settings scheme slotBytes unstartable).1 = .ok start)
    (actions : List (Action ν ε)) {id : Nat} {values : List ν}
    (htook : Took (start.run actions) id values) : Traced start actions id values := by
  have hs : Staffed start := .launch hstart
  induction actions using List.reverseRecOn with
  | nil => exact absurd htook (not_took_launch hstart)
  | append_singleton actions action ih =>
    have hrun : Staffed (start.run actions) := hs.run actions
    have hmove := (start.run actions).move_step action hrun.known
    have hlater : start.run (actions ++ [action]) = (start.run actions).step action :=
      run_append start actions [action]
    rw [hlater] at htook
    obtain hold | ⟨n, group, changed, rfl, hgroup, hclaim, hchanged, hphase⟩ :=
      htook.before hmove
    · obtain ⟨before, after, n, group, changed, rfl, hgroup, hclaim, hphase, hkeys⟩ := ih hold
      obtain ⟨last, hlast, hclaimed⟩ := hold.group_claimed hrun (accounted_run hstart _)
      refine ⟨before, after ++ [action], n, group, changed, by simp, hgroup, hclaim, hphase, ?_⟩
      rw [hlater, keysOf_of_claimed hrun hmove hlast hclaimed, hkeys]
    · refine ⟨actions, [], n, group, changed, rfl, hgroup, hclaim, ?_, ?_⟩
      · rw [hlater]
        exact hphase
      · rw [hlater]
        exact keysOf_of_claim hgroup hchanged hclaim

end Runs

end Committer

end BatchedCommit
