import BatchedCommit.Proofs.Enrolment

/-!
# BatchedCommit.Proofs.Origins

The group that the slot of a delayed group was taken out of, its *origin* (`Registry.HasOrigin`). It
was made ready when the slot left, and it was created when the delayed group is said to have been;
so no sweep aborts the one and spares the other, unless the origin was claimed. As long as a delayed
group can be aborted its origin is ready or done (`Registry.Rooted`).
-/

namespace BatchedCommit

variable {ν ε : Type}

namespace Group

variable {group : Group ν}

theorem isAbortable_of_isMutable (h : group.stage.isMutable = true) : group.isAbortable = true := by
  rw [isAbortable, h, Bool.true_or]

/-- Making a group ready changes one that can be aborted, or nothing. -/
theorem isAbortable_of_markReady (h : group.markReady.isAbortable = true) :
    group.isAbortable = true := by
  rw [markReady] at h
  split at h
  · next hcomplete =>
    exact isAbortable_of_isMutable (by rw [(isComplete_iff.mp hcomplete).1]; rfl)
  · exact h

end Group

namespace Registry

variable {registry later : Registry ν} {group : Group ν}

/-- A group was made for a slot of a normal group that is ready or done, and counts as created when
that one was. -/
def HasOrigin (registry : Registry ν) (group : Group ν) : Prop :=
  ∃ (place : Nat) (origin : Group ν) (child : String), registry.groups[place]? = some origin ∧
    origin.kind = .normal ∧ origin.createdAt = group.createdAt ∧
      group.key = registry.scheme.fullKey origin.key child ∧
        (origin.stage = .ready ∨ origin.stage = .done)

/-- Until the committer is closed, every delayed group that has a slot and can be aborted has an
origin. -/
def Rooted (registry : Registry ν) : Prop :=
  registry.closed = false → ∀ (id : Nat) (group : Group ν), registry.groups[id]? = some group →
    group.kind = .delayed → group.slots ≠ [] → group.isAbortable = true → registry.HasOrigin group

/-- An origin is one as long as the groups that are ready or done stay so. -/
theorem HasOrigin.keep (h : registry.HasOrigin group) (hscheme : later.scheme = registry.scheme)
    (hforth : ∀ (place : Nat) (origin : Group ν), registry.groups[place]? = some origin →
      origin.stage = .ready ∨ origin.stage = .done → ∃ changed,
        later.groups[place]? = some changed ∧ Group.SameHead origin changed ∧
          (changed.stage = .ready ∨ changed.stage = .done)) : later.HasOrigin group := by
  obtain ⟨place, origin, child, horigin, hkind, hcreated, hkey, hstage⟩ := h
  obtain ⟨changed, hchanged, hhead, hstage'⟩ := hforth place origin horigin hstage
  exact ⟨place, changed, child, hchanged, by rw [hhead.kind, hkind],
    by rw [hhead.createdAt, hcreated], by rw [hhead.key, hscheme, hkey], hstage'⟩

namespace Rooted

theorem empty (settings : Settings) (scheme : KeyScheme) (slotBytes : Nat) :
    (Registry.empty settings scheme slotBytes : Registry ν).Rooted :=
  fun _ id group hgroup => by contradiction

theorem congr (h : registry.Rooted) (hgroups : later.groups = registry.groups)
    (hscheme : later.scheme = registry.scheme) (hclosed : later.closed = registry.closed) :
    later.Rooted := by
  intro hopen id group hgroup hkind hslots habort
  rw [hclosed] at hopen
  rw [hgroups] at hgroup
  refine (h hopen id group hgroup hkind hslots habort).keep hscheme
    fun place origin horigin hs => ?_
  exact ⟨origin, by rw [hgroups, horigin], .refl origin, hs⟩

/-- One group changed. It stays ready or done if it was, and a delayed one does not become one that
can be aborted. -/
theorem set (h : registry.Rooted) {own : Nat} {old new : Group ν}
    (hold : registry.groups[own]? = some old)
    (hgroups : later.groups = registry.groups.setIfInBounds own new)
    (hhead : Group.SameHead old new)
    (hback : old.kind = .delayed → new.slots ≠ [] → new.isAbortable = true →
      old.slots ≠ [] ∧ old.isAbortable = true)
    (hforth : old.stage = .ready ∨ old.stage = .done → new.stage = .ready ∨ new.stage = .done)
    (hscheme : later.scheme = registry.scheme) (hclosed : later.closed = registry.closed) :
    later.Rooted := by
  have hkeep : ∀ {group : Group ν}, registry.HasOrigin group → later.HasOrigin group := by
    intro group horigin
    refine horigin.keep hscheme fun place origin hplace hs => ?_
    rw [hgroups]
    by_cases heq : own = place
    · subst heq
      obtain rfl := Option.some.inj (hold.symm.trans hplace)
      exact ⟨new, Array.getElem?_setIfInBounds_self_of_lt (Array.getElem?_eq_some_iff.mp hold).1,
        hhead, hforth hs⟩
    · exact ⟨origin, by rw [Array.getElem?_setIfInBounds_ne heq, hplace], .refl origin, hs⟩
  intro hopen id group hgroup hkind hslots habort
  rw [hclosed] at hopen
  rw [hgroups] at hgroup
  obtain ⟨rfl, rfl⟩ | ⟨-, hsame⟩ := getElem?_set_cases hgroup
  · rw [hhead.kind] at hkind
    obtain ⟨hslots', habort'⟩ := hback hkind hslots habort
    obtain ⟨place, origin, child, horigin, hnormal, hcreated, hkey, hs⟩ :=
      hkeep (h hopen id old hold hkind hslots' habort')
    exact ⟨place, origin, child, horigin, hnormal, by rw [hcreated, hhead.createdAt],
      by rw [hhead.key, hkey], hs⟩
  · exact hkeep (h hopen id group hsame hkind hslots habort)

/-- Groups were made, each delayed one with an origin. -/
theorem grow (h : registry.Rooted) {made : Array (Group ν)}
    (hgroups : later.groups = registry.groups ++ made)
    (hmade : ∀ group ∈ made, group.kind = .delayed → later.HasOrigin group)
    (hscheme : later.scheme = registry.scheme) (hclosed : later.closed = registry.closed) :
    later.Rooted := by
  intro hopen id group hgroup hkind hslots habort
  rw [hclosed] at hopen
  rw [hgroups, Array.getElem?_append] at hgroup
  split at hgroup
  · refine (h hopen id group hgroup hkind hslots habort).keep hscheme
      fun place origin hplace hs => ?_
    have hlt : place < registry.groups.size := (Array.getElem?_eq_some_iff.mp hplace).1
    exact ⟨origin, by rw [hgroups, Array.getElem?_append_left hlt, hplace], .refl origin, hs⟩
  · exact hmade group (Array.mem_of_getElem? hgroup) hkind

/-! ## Sections -/

theorem reserve (h : registry.Rooted) (hdistinct : registry.Distinct) (now : Instant)
    (child : String) : (registry.reserve now child).registry.Rooted := by
  obtain ⟨-, heq⟩ | ⟨_, _, -, -, -, -, -, heq⟩ |
    ⟨own, group, changed, -, -, hgroup, hreserve, heq⟩ |
    ⟨parent, changed, -, -, -, rfl, hreserve, heq⟩ | ⟨-, -, -, heq⟩ :=
    registry.reserve_cases now child
  · rwa [heq]
  · rwa [heq]
  · rw [heq]
    have hopen := (Group.reserve_eq_ok hreserve).1
    refine h.set hgroup rfl (.reserve hreserve) (fun hdelayed => ?_) (fun hs => ?_) rfl rfl
    · rw [(hdistinct.named own group hgroup).kind_of_opened hopen] at hdelayed
      contradiction
    · rw [hopen] at hs
      cases hs <;> contradiction
  · rw [heq]
    have hgroups : (registry.afterOpen changed).groups = registry.groups ++ #[changed] :=
      Array.push_eq_append
    refine h.grow hgroups (fun made hmade hdelayed => ?_) rfl rfl
    rw [List.mem_singleton.mp (List.mem_toArray.mp hmade),
      (Group.SameHead.reserve hreserve).kind] at hdelayed
    contradiction
  · rw [heq]
    exact h.congr rfl rfl rfl

theorem store (h : registry.Rooted) (fullKey : String) (value : ν) :
    (registry.store fullKey value).registry.Rooted := by
  obtain ⟨_, heq⟩ | ⟨own, group, changed, -, -, hgroup, hput, heq⟩ :=
    registry.store_cases fullKey value
  · rwa [heq]
  · rw [heq]
    have hhead := (Group.SameHead.put hput).trans (.markReady changed)
    obtain ⟨-, before, slot, after, hslots, -, -, -, hchanged⟩ := Group.put_eq_ok hput
    refine h.set hgroup rfl hhead (fun _ _ habort => ⟨by simp [hslots], ?_⟩) (fun hs => ?_) rfl rfl
    · have habort' := Group.isAbortable_of_markReady habort
      rwa [hchanged] at habort'
    · have hsame : changed.stage = group.stage := by rw [hchanged]
      rw [Group.markReady_of_stage (by rwa [hsame]), hsame]
      exact hs

theorem remove (h : registry.Rooted) (fullKey : String) :
    (registry.remove fullKey).registry.Rooted := by
  obtain ⟨_, heq⟩ | ⟨own, group, changed, -, -, hgroup, hremove, -, heq⟩ |
    ⟨own, group, changed, -, -, hgroup, hremove, -, heq⟩ := registry.remove_cases fullKey
  · rwa [heq]
  · rw [heq]
    obtain ⟨hmutable, before, slot, after, hslots, -⟩ := Group.remove_eq_ok hremove
    have hset : ((registry.setGroup own changed).bump .slotsRemoved).Rooted :=
      h.set hgroup rfl (.remove hremove)
        (fun _ _ _ => ⟨by simp [hslots], Group.isAbortable_of_isMutable hmutable⟩)
        (fun hs => by obtain hs | hs := hs <;> rw [hs] at hmutable <;> contradiction) rfl rfl
    exact hset.congr (unregister_groups _ _ _ _) (unregister_scheme _ _ _ _)
      (unregister_closed _ _ _ _)
  · rw [heq]
    obtain ⟨hmutable, before, slot, after, hslots, -⟩ := Group.remove_eq_ok hremove
    exact h.set hgroup rfl ((Group.SameHead.remove hremove).trans (.markReady changed))
      (fun _ _ _ => ⟨by simp [hslots], Group.isAbortable_of_isMutable hmutable⟩)
      (fun hs => by obtain hs | hs := hs <;> rw [hs] at hmutable <;> contradiction) rfl rfl

theorem fixSizes (h : registry.Rooted) (now : Instant) :
    (registry.fixSizes now).registry.Rooted := by
  refine foldl_keep (P := fun state : Section ν Unit => state.registry.Rooted) _
    (fun state own _ hstate => ?_) h
  obtain heq | ⟨group, hgroup, -, hopen, heq⟩ := fixSizeOf_cases now state own
  · rwa [heq]
  · rw [heq]
    refine hstate.set hgroup rfl ((Group.SameHead.fixSize group now).trans (.markReady _))
      (fun _ hslots _ => ⟨?_, Group.isAbortable_of_isMutable (by rw [hopen]; rfl)⟩)
      (fun hs => ?_) rfl rfl
    · rwa [Group.markReady_slots, Group.fixSize, if_pos hopen] at hslots
    · rw [hopen] at hs
      cases hs <;> contradiction

/-- A group that is relieved is the origin of the groups that are made for its slots. -/
theorem relieve {sweep : Relocation ν} {now : Instant} {own : Nat}
    (h : sweep.state.registry.Rooted) (hdistinct : sweep.state.registry.Distinct)
    (hsound : (Relocation.relieve now sweep own).broken = false) :
    (Relocation.relieve now sweep own).state.registry.Rooted := by
  obtain ⟨heq, -⟩ | ⟨group, hgroup, hheld, -, hmovable, heq⟩ := relieve_sound_cases hsound
  · rwa [heq]
  · rw [heq]
    have hready := Group.ready_leftBehind hheld hmovable
    obtain ⟨hkind, hstage, -, slot, hslot, -⟩ := Group.isHeldBack_iff.mp hheld
    have hhead := Group.SameHead.leftBehind sweep.state.registry.scheme group
    have hset : (sweep.state.registry.setGroup own
        (group.leftBehind sweep.state.registry.scheme)).Rooted :=
      h.set hgroup rfl hhead (fun _ _ _ => ⟨List.ne_nil_of_mem hslot,
        Group.isAbortable_of_isMutable (by rw [hstage]; rfl)⟩) (fun _ => .inl hready) rfl rfl
    refine hset.grow rfl (fun made hmade _ => ?_) rfl rfl
    obtain ⟨moved, hmoved, rfl⟩ := List.mem_map.mp (List.mem_toArray.mp hmade)
    have hlt : own < sweep.state.registry.groups.size := (Array.getElem?_eq_some_iff.mp hgroup).1
    refine ⟨own, _, moved.child, ?_, by rw [hhead.kind, hkind], hhead.createdAt, ?_, .inl hready⟩
    · change (sweep.state.registry.groups.setIfInBounds own _ ++ _)[own]? = _
      rw [Array.getElem?_append_left (by rwa [Array.size_setIfInBounds])]
      exact Array.getElem?_setIfInBounds_self_of_lt hlt
    · rw [hhead.key]
      exact (hdistinct.named own group hgroup).children hkind _
        (List.mem_map_of_mem (Group.of_mem_movable hmoved).1)

/-- A sweep that breaks down leaves the delayed groups and their origins as they are. -/
theorem spare (h : registry.Rooted) {now : Instant} {groups : Array (Group ν)}
    (hspares : registry.Spares now groups) (hsize : groups.size = registry.groups.size)
    (hgroups : later.groups = groups) (hscheme : later.scheme = registry.scheme)
    (hclosed : later.closed = registry.closed) : later.Rooted := by
  intro hopen id changed hchanged hkind hslots habort
  rw [hclosed] at hopen
  rw [hgroups] at hchanged
  obtain ⟨group, hgroup, rfl | ⟨hheld, rfl⟩⟩ := hspares.before hsize hchanged
  · refine (h hopen id changed hgroup hkind hslots habort).keep hscheme
      fun place origin horigin hs => ?_
    obtain hsame | ⟨hheld, -⟩ := hspares place origin horigin
    · exact ⟨origin, by rw [hgroups, hsame], .refl origin, hs⟩
    · rw [(Group.isHeldBack_iff.mp hheld).2.1] at hs
      cases hs <;> contradiction
  · rw [(Group.SameHead.leftBehind registry.scheme group).kind,
      (Group.isHeldBack_iff.mp hheld).1] at hkind
    contradiction

theorem relocate (h : registry.Rooted) (hdistinct : registry.Distinct) (now : Instant) :
    (registry.relocate now).registry.Rooted := by
  cases hbroken : (registry.relieved now).broken with
  | true =>
    obtain ⟨groups, count, hsize, hspares, heq⟩ := relocate_registry_of_broken hbroken
    rw [heq]
    exact h.spare hspares hsize rfl rfl rfl
  | false =>
    have hsweep := (relieved_keep (P := fun sweep =>
        sweep.state.registry.Rooted ∧ sweep.state.registry.Distinct)
      (fun sweep own hsound hsweep =>
        ⟨hsweep.1.relieve hsweep.2 hsound, hsweep.2.relieve now own⟩) ⟨h, hdistinct⟩ hbroken).1
    rw [relocate_of_not_broken hbroken]
    exact hsweep.congr rfl rfl rfl

/-- A sweep that aborts the origin of a group aborts the group as well: they count as created at the
same time. -/
theorem expire (h : registry.Rooted) (henrolled : registry.Enrolled) {now : Instant}
    (hexpired : Expired now registry later) (hscheme : later.scheme = registry.scheme) :
    later.Rooted := by
  intro hopen id group hgroup hkind hslots habort
  rw [hexpired.closed] at hopen
  have hspared : ∀ {id : Nat} {group : Group ν}, later.groups[id]? = some group →
      group.isAbortable = true → ¬ (registry.Registered id ∧ registry.isDue now id = true) := by
    rintro id group hgroup habort ⟨hid, hdue⟩
    obtain ⟨kind, key, hfind⟩ := registered_iff.mp hid
    obtain ⟨old, hold, -, habort'⟩ := isDue_iff.mp hdue
    rw [hexpired.aborted kind key id old hfind hold hdue, Group.abort, if_pos habort'] at hgroup
    rw [← Option.some.inj hgroup] at habort
    contradiction
  have hsame : ∀ {id : Nat}, ¬ (registry.Registered id ∧ registry.isDue now id = true) →
      later.groups[id]? = registry.groups[id]? := fun hnot =>
    hexpired.spared _ fun hid => Bool.eq_false_iff.mpr fun hdue => hnot ⟨hid, hdue⟩
  have hnot := hspared hgroup habort
  rw [hsame hnot] at hgroup
  have hlive : group.stage.isTerminal = false := by
    cases hterminal : group.stage.isTerminal with
    | false => rfl
    | true =>
      rw [Group.not_abortable_of_isTerminal hterminal] at habort
      contradiction
  have hid : registry.Registered id :=
    registered_iff.mpr ⟨_, _, henrolled hopen id group hgroup hslots hlive⟩
  obtain ⟨place, origin, child, horigin, hnormal, hcreated, hkey, hs⟩ :=
    h hopen id group hgroup hkind hslots habort
  refine ⟨place, origin, child, ?_, hnormal, hcreated, by rw [hscheme, hkey], hs⟩
  rw [hsame, horigin]
  rintro ⟨-, hdue⟩
  obtain ⟨same, hsame, hold, -⟩ := isDue_iff.mp hdue
  rw [← Option.some.inj (horigin.symm.trans hsame), Group.age, hcreated] at hold
  exact hnot ⟨hid, isDue_iff.mpr ⟨group, hgroup, hold, habort⟩⟩

/-- Every step of a reachable committer keeps the origins. -/
theorem deed (h : registry.Rooted) (hindexed : registry.Indexed) (henrolled : registry.Enrolled)
    (hdistinct : registry.Distinct) (hscheme : later.scheme = registry.scheme)
    {action : Action ν ε} (hdeed : Deed registry action later) : later.Rooted := by
  cases hdeed with
  | counted counters => exact h.congr rfl rfl rfl
  | reserve now child => exact h.reserve hdistinct now child
  | store fullKey value => exact h.store fullKey value
  | remove fullKey => exact h.remove fullKey
  | close counters hopen =>
    intro hclosed
    rw [(shut_close registry counters).closed] at hclosed
    contradiction
  | fixSizes now => exact h.fixSizes now
  | relocate now => exact h.relocate hdistinct now
  | abortOld now => exact h.expire henrolled (expired_abortOld hindexed now) hscheme
  | claim hgroup hclaim =>
    obtain ⟨hstage, -, -, hchanged⟩ := Group.claim?_eq_some hclaim
    refine h.set hgroup rfl (.claim? hclaim) (fun _ _ habort => ?_) (fun _ => .inl ?_) rfl rfl
    · rw [Group.isAbortable, hchanged] at habort
      simp [hstage, Stage.isMutable] at habort
    · simp [hchanged, hstage]
  | finish verdict hgroup hstage hclaimed =>
    refine h.set hgroup rfl ⟨rfl, rfl, rfl, rfl, rfl⟩ (fun _ _ habort => ?_) (fun _ => .inr rfl)
      rfl rfl
    contradiction
  | retire hgroup hended =>
    exact h.congr (unregister_groups _ _ _ _) (unregister_scheme _ _ _ _)
      (unregister_closed _ _ _ _)

end Rooted

end Registry

/-- In every reachable state that is open, the delayed groups that can be aborted have origins, as
long as the counter of parent keys has not come round. -/
theorem Committer.rooted_run {label : String} {settings : Settings} {scheme : KeyScheme}
    {slotBytes : Nat} {unstartable : Option (Sweeper × String)} {start : Committer ν ε}
    (hstart : (launch label settings scheme slotBytes unstartable).1 = .ok start)
    (hseparator : scheme.separator.isDigit = false) (actions : List (Action ν ε))
    (hissued : (start.run actions).registry.issued ≤ scheme.cycle) :
    (start.run actions).registry.Rooted := by
  induction actions using List.reverseRecOn with
  | nil =>
    rw [run_nil, (launch_eq_ok hstart).2.1]
    exact .empty settings scheme slotBytes
  | append_singleton actions action ih =>
    have hs : Staffed (start.run actions) := (Staffed.launch hstart).run actions
    have hscheme := (run_constant hstart actions).2
    have hlater := (run_constant hstart (actions ++ [action])).2
    have hbefore := Nat.le_trans (issued_le_of_append hstart hseparator actions [action]) hissued
    rw [run_append] at hlater ⊢
    exact (ih hbefore).deed (indexed_of_launch hstart actions)
      (enrolled_run hstart hseparator actions hbefore)
      (distinct_run hstart hseparator actions hbefore) (hlater.trans hscheme.symm) (hs.deed action)

end BatchedCommit
