import BatchedCommit.Proofs.Sections

/-!
# BatchedCommit.Proofs.Turns

What a section does to the groups of a registry when no waiting caller takes part in it: every
group that was there undergoes quiet changes, a change that its callers wait for leaves a
wake-up behind, and groups that are made are newborn ones. `Registry.Turn` says so, and
reservations, removals, the three sweeps and the shutdown are all turns.
-/

namespace BatchedCommit

namespace Registry

variable {ν : Type} {registry middle later : Registry ν} {woken : List Nat}

/-- From one registry to a later one, groups only underwent quiet changes. A group that became
ready, or ended, is among those whose callers are to be woken. -/
structure Turn (registry later : Registry ν) (woken : List Nat) : Prop where
  /-- The committer works by the same numbers. -/
  settings : later.settings = registry.settings
  /-- The format of keys is the same. -/
  scheme : later.scheme = registry.scheme
  /-- Every group is still there. -/
  kept : ∀ (id : Nat) (group : Group ν), registry.groups[id]? = some group → ∃ changed,
    later.groups[id]? = some changed ∧ Group.Shifts registry.scheme group changed ∧
      (changed.stage = group.stage ∨ changed.stage.isMutable = true ∨ id ∈ woken)
  /-- Every other group is new. -/
  made : ∀ (id : Nat) (changed : Group ν), registry.groups[id]? = none →
    later.groups[id]? = some changed →
    ∃ newborn, Group.Newborn registry.scheme registry.capacity newborn ∧
      Group.Shifts registry.scheme newborn changed

namespace Turn

/-! ## Composing turns -/

/-- Nothing happened to the groups. -/
theorem same (hgroups : later.groups = registry.groups)
    (hsettings : later.settings = registry.settings) (hscheme : later.scheme = registry.scheme) :
    Turn registry later woken where
  settings := hsettings
  scheme := hscheme
  kept := fun id group hgroup => ⟨group, by rw [hgroups]; exact hgroup, .refl, .inl rfl⟩
  made := fun id changed hnone hsome => by
    rw [hgroups, hnone] at hsome
    contradiction

/-- One group changed quietly. -/
theorem set {id : Nat} {group changed : Group ν} (hgroup : registry.groups[id]? = some group)
    (hquiet : Group.Quiet registry.scheme group changed)
    (hstage : changed.stage = group.stage ∨ changed.stage.isMutable = true ∨ id ∈ woken)
    (hgroups : later.groups = registry.groups.setIfInBounds id changed)
    (hsettings : later.settings = registry.settings) (hscheme : later.scheme = registry.scheme) :
    Turn registry later woken where
  settings := hsettings
  scheme := hscheme
  kept := fun other old hold => by
    rw [hgroups]
    by_cases hother : id = other
    · subst hother
      rw [hgroup] at hold
      rw [← Option.some.inj hold]
      have hlt : id < registry.groups.size := (Array.getElem?_eq_some_iff.mp hgroup).1
      exact ⟨changed, Array.getElem?_setIfInBounds_self_of_lt hlt, .single hquiet, hstage⟩
    · rw [Array.getElem?_setIfInBounds_ne hother]
      exact ⟨old, hold, .refl, .inl rfl⟩
  made := fun other new hnone hsome => by
    have hle : registry.groups.size ≤ other := Array.getElem?_eq_none_iff.mp hnone
    rw [hgroups, Array.getElem?_eq_none (by simpa using hle)] at hsome
    contradiction

/-- New groups were made. -/
theorem grow {made : Array (Group ν)} (hgroups : later.groups = registry.groups ++ made)
    (hmade : ∀ newborn ∈ made, Group.Newborn registry.scheme registry.capacity newborn)
    (hsettings : later.settings = registry.settings) (hscheme : later.scheme = registry.scheme) :
    Turn registry later woken where
  settings := hsettings
  scheme := hscheme
  kept := fun id group hgroup => by
    have hlt : id < registry.groups.size := (Array.getElem?_eq_some_iff.mp hgroup).1
    rw [hgroups, Array.getElem?_append_left hlt]
    exact ⟨group, hgroup, .refl, .inl rfl⟩
  made := fun id new hnone hsome => by
    have hle : registry.groups.size ≤ id := Array.getElem?_eq_none_iff.mp hnone
    rw [hgroups, Array.getElem?_append_right hle] at hsome
    exact ⟨new, hmade new (Array.mem_of_getElem? hsome), .refl⟩

/-- Groups that were made are dropped. -/
theorem drop (h : Turn registry middle woken)
    (hgroups : later.groups = middle.groups.take registry.groups.size)
    (hsettings : later.settings = middle.settings) (hscheme : later.scheme = middle.scheme) :
    Turn registry later woken where
  settings := hsettings.trans h.settings
  scheme := hscheme.trans h.scheme
  kept := fun id group hgroup => by
    rw [hgroups, getElem?_take, if_pos (Array.getElem?_eq_some_iff.mp hgroup).1]
    exact h.kept id group hgroup
  made := fun id changed hnone hsome => by
    have hle : registry.groups.size ≤ id := Array.getElem?_eq_none_iff.mp hnone
    rw [hgroups, getElem?_take, if_neg (Nat.not_lt.mpr hle)] at hsome
    contradiction

/-- One turn after another. -/
theorem trans {earlier : List Nat} (h : Turn registry middle earlier)
    (h' : Turn middle later woken) (hwoken : earlier ⊆ woken) : Turn registry later woken where
  settings := h'.settings.trans h.settings
  scheme := h'.scheme.trans h.scheme
  kept := fun id group hgroup => by
    obtain ⟨between, hbetween, hshifts, hstage⟩ := h.kept id group hgroup
    obtain ⟨changed, hchanged, hshifts', hstage'⟩ := h'.kept id between hbetween
    rw [h.scheme] at hshifts'
    refine ⟨changed, hchanged, hshifts.trans hshifts', ?_⟩
    obtain hsame | hmutable | hmem := hstage'
    · rw [hsame]
      exact hstage.imp_right (Or.imp_right (@hwoken id))
    · exact .inr (.inl hmutable)
    · exact .inr (.inr hmem)
  made := fun id changed hnone hsome => by
    cases hbetween : middle.groups[id]? with
    | none =>
      obtain ⟨newborn, hnewborn, hshifts⟩ := h'.made id changed hbetween hsome
      rw [h.scheme] at hnewborn hshifts
      rw [capacity, h.settings] at hnewborn
      exact ⟨newborn, hnewborn, hshifts⟩
    | some between =>
      obtain ⟨newborn, hnewborn, hshifts⟩ := h.made id between hnone hbetween
      obtain ⟨other, hother, hshifts', -⟩ := h'.kept id between hbetween
      rw [hsome] at hother
      rw [h.scheme, ← Option.some.inj hother] at hshifts'
      exact ⟨newborn, hnewborn, hshifts.trans hshifts'⟩

/-- A fold whose every step is a turn is a turn. -/
theorem foldl {σ β : Type} {step : σ → β → σ} (registryOf : σ → Registry ν)
    (wokenOf : σ → List Nat)
    (hstep : ∀ state item, Turn (registryOf state) (registryOf (step state item))
      (wokenOf (step state item)) ∧ wokenOf state ⊆ wokenOf (step state item))
    (items : List β) (state : σ) :
    Turn (registryOf state) (registryOf (items.foldl step state))
      (wokenOf (items.foldl step state)) ∧
      wokenOf state ⊆ wokenOf (items.foldl step state) := by
  induction items generalizing state with
  | nil => exact ⟨.same rfl rfl rfl, List.Subset.refl _⟩
  | cons item rest ih =>
    obtain ⟨hturn, hsubset⟩ := hstep state item
    obtain ⟨hrest, hsubset'⟩ := ih (step state item)
    exact ⟨hturn.trans hrest hsubset', List.Subset.trans hsubset hsubset'⟩

end Turn

/-! ## Calls -/

theorem unregister_groups (registry : Registry ν) (kind : GroupKind) (key : String) (id : Nat) :
    (registry.unregister kind key id).groups = registry.groups := by
  unfold unregister
  cases kind <;> dsimp only <;> split <;> split <;> rfl

theorem unregister_settings (registry : Registry ν) (kind : GroupKind) (key : String)
    (id : Nat) : (registry.unregister kind key id).settings = registry.settings := by
  unfold unregister
  cases kind <;> dsimp only <;> split <;> split <;> rfl

theorem unregister_scheme (registry : Registry ν) (kind : GroupKind) (key : String)
    (id : Nat) : (registry.unregister kind key id).scheme = registry.scheme := by
  unfold unregister
  cases kind <;> dsimp only <;> split <;> split <;> rfl

/-- A group that accepted a reservation still takes others, or waits for values. -/
theorem isMutable_of_reserve {group changed : Group ν} {now : Instant} {child fullKey : String}
    (h : group.reserve now child fullKey = .ok changed) : changed.stage.isMutable = true := by
  rw [(Group.reserve_eq_ok h).2.2]
  dsimp only
  split <;> rfl

theorem turn_reserve (registry : Registry ν) (now : Instant) (child : String) :
    Turn registry (registry.reserve now child).registry (registry.reserve now child).woken := by
  obtain ⟨-, h⟩ | ⟨_, _, -, -, -, -, -, h⟩ | ⟨id, group, changed, -, -, hgroup, hreserve, h⟩ |
    ⟨parent, changed, -, -, -, rfl, hreserve, h⟩ | ⟨-, -, -, h⟩ := registry.reserve_cases now child
  · rw [h]
    exact .same rfl rfl rfl
  · rw [h]
    exact .same rfl rfl rfl
  · rw [h]
    exact .set hgroup (.reserve now child hreserve) (.inr (.inl (isMutable_of_reserve hreserve)))
      rfl rfl rfl
  · rw [h]
    refine .grow (by exact Array.push_eq_append) (fun newborn hnewborn => ?_) rfl rfl
    rw [List.mem_toArray.mp hnewborn |> List.mem_singleton.mp]
    exact .normal registry.issued now child hreserve
  · rw [h]
    exact .same rfl rfl rfl

/-- A group from which a slot was removed is ready, if its callers are to be woken, or as it
was. -/
theorem stage_of_remove {group changed : Group ν} {fullKey : String}
    (h : group.remove fullKey = .ok changed) (id : Nat) :
    changed.markReady.stage = group.stage ∨ changed.markReady.stage.isMutable = true ∨
      id ∈ if changed.isComplete then [id] else [] := by
  obtain ⟨-, _, _, _, -, -, -, -, hchanged⟩ := Group.remove_eq_ok h
  rw [Group.markReady]
  by_cases hcomplete : changed.isComplete = true
  · rw [if_pos hcomplete, if_pos hcomplete]
    exact .inr (.inr (List.mem_singleton_self id))
  · rw [if_neg hcomplete, hchanged]
    exact .inl rfl

theorem turn_remove (registry : Registry ν) (fullKey : String) :
    Turn registry (registry.remove fullKey).registry (registry.remove fullKey).woken := by
  obtain ⟨_, h⟩ | ⟨id, group, changed, -, -, hgroup, hremove, hempty, h⟩ |
    ⟨id, group, changed, -, -, hgroup, hremove, -, h⟩ := registry.remove_cases fullKey
  · rw [h]
    exact .same rfl rfl rfl
  · rw [h]
    -- a group without slots is not complete, so making it ready changes nothing
    have hcomplete : changed.isComplete = false := by simp [Group.isComplete, hempty]
    have hready : changed.markReady = changed := by
      rw [Group.markReady, hcomplete]
      rfl
    refine .set hgroup (.remove fullKey hremove) ?_ ?_ ?_ ?_
    · have hstage := stage_of_remove hremove id
      rw [if_neg (by rw [hcomplete]; decide)] at hstage
      exact hstage
    · rw [hready, bump, unregister_groups]
      rfl
    · rw [bump, unregister_settings]
      rfl
    · rw [bump, unregister_scheme]
      rfl
  · rw [h]
    exact .set hgroup (.remove fullKey hremove) (stage_of_remove hremove id) rfl rfl rfl

/-! ## Sweeps -/

theorem turn_fixSizeOf (now : Instant) (state : Section ν Unit) (id : Nat) :
    Turn state.registry (fixSizeOf now state id).registry (fixSizeOf now state id).woken ∧
      state.woken ⊆ (fixSizeOf now state id).woken := by
  obtain h | ⟨group, hgroup, -, hopen, h⟩ := fixSizeOf_cases now state id
  · rw [h]
    exact ⟨.same rfl rfl rfl, List.Subset.refl _⟩
  · rw [h]
    by_cases hcomplete : (group.fixSize now).isComplete = true
    · simp only [afterFix, if_pos hcomplete]
      exact ⟨.set hgroup (.fixSize now hopen) (.inr (.inr (by simp))) rfl rfl rfl,
        List.subset_append_left _ _⟩
    · simp only [afterFix, if_neg hcomplete]
      refine ⟨.set hgroup (.fixSize now hopen) (.inr (.inl ?_)) rfl rfl rfl,
        List.Subset.refl _⟩
      rw [Group.markReady, if_neg hcomplete, Group.fixSize, if_pos hopen]
      rfl

theorem turn_fixSizes (registry : Registry ν) (now : Instant) :
    Turn registry (registry.fixSizes now).registry (registry.fixSizes now).woken :=
  (Turn.foldl Section.registry Section.woken (turn_fixSizeOf now)
    (registry.normal.entries.map Prod.snd) { answer := (), registry }).1

theorem turn_relieve (now : Instant) (sweep : Relocation ν) (id : Nat) :
    Turn sweep.state.registry (Relocation.relieve now sweep id).state.registry
        (Relocation.relieve now sweep id).state.woken ∧
      sweep.state.woken ⊆ (Relocation.relieve now sweep id).state.woken := by
  obtain ⟨h, -⟩ | ⟨group, -, hgroup, hheld, -, h⟩ := relieve_cases now sweep id
  · rw [h]
    exact ⟨.same rfl rfl rfl, List.Subset.refl _⟩
  · rw [h]
    have hwoken : (group.leftBehind sweep.state.registry.scheme).stage = group.stage ∨
        id ∈ (sweep.afterRelief now id group).state.woken := by
      rw [Relocation.afterRelief, Group.leftBehind]
      split
      · exact .inr (by simp)
      · exact .inl rfl
    have hset : Turn sweep.state.registry (sweep.state.registry.setGroup id _)
        (sweep.afterRelief now id group).state.woken :=
      .set hgroup (.leftBehind hheld) (hwoken.imp_right .inr) rfl rfl rfl
    refine ⟨hset.trans (.grow (by exact rfl) (fun newborn hnewborn => ?_) rfl rfl)
      (List.Subset.refl _), ?_⟩
    · rw [List.mem_toArray, List.mem_map] at hnewborn
      obtain ⟨slot, hslot, rfl⟩ := hnewborn
      obtain ⟨-, hready, emitKey, hemit⟩ := Group.of_mem_movable hslot
      exact .delayed slot _ _ _ hready (by rw [hemit]; exact hemit)
    · rw [Relocation.afterRelief]
      dsimp only
      split
      · exact List.subset_append_left _ _
      · exact List.Subset.refl _

theorem turn_relocate (registry : Registry ν) (now : Instant) :
    Turn registry (registry.relocate now).registry (registry.relocate now).woken := by
  have hturn : Turn registry (registry.relieved now).state.registry
      (registry.relieved now).state.woken :=
    (Turn.foldl (fun sweep : Relocation ν => sweep.state.registry)
      (fun sweep => sweep.state.woken) (turn_relieve now)
      (registry.normal.entries.map Prod.snd) { state := { answer := (), registry } }).1
  cases hbroken : (registry.relieved now).broken with
  | true =>
    rw [relocate_of_broken hbroken]
    exact hturn.drop rfl rfl rfl
  | false =>
    rw [relocate_of_not_broken hbroken]
    exact hturn.trans (.same rfl rfl rfl) (List.Subset.refl _)

theorem turn_strike (now : Instant) (kind : GroupKind) (sweep : Abortion ν)
    (entry : String × Nat) :
    Turn sweep.state.registry (Abortion.strike now kind sweep entry).state.registry
        (Abortion.strike now kind sweep entry).state.woken ∧
      sweep.state.woken ⊆ (Abortion.strike now kind sweep entry).state.woken := by
  obtain ⟨key, id⟩ := entry
  obtain h | ⟨group, hgroup, -, habort, h⟩ := strike_cases now kind sweep key id
  · rw [h]
    exact ⟨.same rfl rfl rfl, List.Subset.refl _⟩
  · rw [h]
    exact ⟨.set hgroup (.expire key habort)
      (.inr (.inr (by simp [Abortion.afterStrike]))) rfl rfl rfl, List.subset_append_left _ _⟩

/-- Burying groups changes none of them. -/
theorem foldl_bury_same (now : Instant) (entries : List (GroupKind × String × Nat))
    (registry : Registry ν) :
    (entries.foldl (bury now) registry).groups = registry.groups ∧
      (entries.foldl (bury now) registry).settings = registry.settings ∧
      (entries.foldl (bury now) registry).scheme = registry.scheme := by
  induction entries generalizing registry with
  | nil => exact ⟨rfl, rfl, rfl⟩
  | cons entry rest ih =>
    obtain ⟨hgroups, hsettings, hscheme⟩ := ih (bury now registry entry)
    rw [List.foldl_cons, hgroups, hsettings, hscheme]
    exact ⟨unregister_groups _ _ _ _, unregister_settings _ _ _ _, unregister_scheme _ _ _ _⟩

theorem turn_bury (now : Instant) (registry : Registry ν)
    (entries : List (GroupKind × String × Nat)) :
    Turn registry (entries.foldl (bury now) registry) woken := by
  obtain ⟨hgroups, hsettings, hscheme⟩ := foldl_bury_same now entries registry
  exact .same hgroups hsettings hscheme

theorem turn_abortOld (registry : Registry ν) (now : Instant) :
    Turn registry (registry.abortOld now).registry (registry.abortOld now).woken := by
  obtain ⟨hnormal, -⟩ := Turn.foldl (fun sweep : Abortion ν => sweep.state.registry)
    (fun sweep => sweep.state.woken) (turn_strike now .normal)
    (registry.purge now).normal.entries
    { state := { answer := (), registry := registry.purge now } }
  obtain ⟨hdelayed, hsubset⟩ := Turn.foldl (fun sweep : Abortion ν => sweep.state.registry)
    (fun sweep => sweep.state.woken) (turn_strike now .delayed)
    (registry.purge now).delayed.entries
    ((registry.purge now).normal.entries.foldl (Abortion.strike now .normal)
      { state := { answer := (), registry := registry.purge now } })
  have hpurge : Turn registry (registry.purge now) [] := .same rfl rfl rfl
  rw [abortOld]
  exact ((hpurge.trans hnormal (List.nil_subset _)).trans hdelayed hsubset).trans
    (turn_bury now _ _) (List.Subset.refl _)

/-! ## Closing -/

theorem turn_abandon (state : Section ν Unit) (id : Nat) :
    Turn state.registry (abandon state id).registry (abandon state id).woken ∧
      state.woken ⊆ (abandon state id).woken := by
  obtain h | ⟨group, hgroup, habort, h⟩ := abandon_cases state id
  · rw [h]
    exact ⟨.same rfl rfl rfl, List.Subset.refl _⟩
  · rw [h]
    exact ⟨.set hgroup (.close habort) (.inr (.inr (by simp))) rfl rfl rfl,
      List.subset_append_left _ _⟩

theorem turn_close (registry : Registry ν) :
    Turn registry registry.close.registry registry.close.woken := by
  rw [close]
  refine Turn.trans (.same ?_ ?_ ?_)
    (Turn.foldl Section.registry Section.woken turn_abandon _ _).1 (List.nil_subset _)
  · rfl
  · rfl
  · rfl

end Registry

end BatchedCommit
