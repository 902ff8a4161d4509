import BatchedCommit.Proofs.Abortions

/-!
# BatchedCommit.Proofs.Sweeps

How sweeps at one instant combine (`Committer.sweeps_at_one_instant`). A sweep that fixes sizes
changes at most one group, the one that takes reservations (`Registry.SizesFixed`).

A sweep that comes again finds nothing to do: a group whose size was fixed is not open any more, one
that was relieved is ready, one that was aborted is not registered, and a new tombstone has not
outlived the window. Fixing sizes and moving slots do not get in the way of each other, because they
work on different groups: one whose size was fixed just now has not waited for its slots yet.
-/

namespace BatchedCommit

variable {ν ε : Type}

/-- A table keeps all entries if all of them pass the test. -/
theorem Table.filter_eq_self {α : Type} {table : Table α} {test : String × α → Bool}
    (h : ∀ entry ∈ table.entries, test entry = true) : table.filter test = table := by
  simp only [filter, List.filter_eq_self.mpr h]

namespace Group

variable {group : Group ν} {now : Instant}

/-- An open group with slots is ready after its size was fixed if all of its slots are. -/
theorem markReady_fixSize (hopen : group.stage = .opened) (hslots : group.slots ≠ []) :
    (group.fixSize now).markReady = { group with
      fixedAt := some now
      stage := if group.slots.all (·.isReady) then .ready else .sizeFixed } := by
  rw [fixSize, if_pos hopen, markReady]
  by_cases hall : group.slots.all (·.isReady) = true
  · rw [if_pos hall, if_pos]
    simpa [isComplete, hslots] using hall
  · rw [if_neg hall, if_neg]
    simpa [isComplete, hslots] using hall

/-- A group whose size is fixed now has not been held back yet, nor is an open one. -/
theorem isHeldBack_markReady_fixSize (hopen : group.stage = .opened) (window : Nat) :
    (group.fixSize now).markReady.isHeldBack now window = false := by
  rw [Bool.eq_false_iff]
  intro hheld
  obtain ⟨-, -, ⟨since, hsince, hlate⟩, -⟩ := isHeldBack_iff.mp hheld
  have hfixed : (group.fixSize now).markReady.fixedAt = some now := by
    rw [fixSize, if_pos hopen, markReady]
    split <;> rfl
  rw [hfixed] at hsince
  obtain rfl := Option.some.inj hsince
  simp [elapsed] at hlate

theorem isHeldBack_of_opened (hopen : group.stage = .opened) (window : Nat) :
    group.isHeldBack now window = false := by
  simp [isHeldBack, hopen]

end Group

namespace Registry

variable {registry later : Registry ν} {now : Instant}

/-! ## Fixing sizes -/

/-- The registry after the size of one group was fixed, which takes no reservations any more. -/
def settle (registry : Registry ν) (now : Instant) (id : Nat) (group : Group ν) : Registry ν :=
  { registry with
    groups := registry.groups.setIfInBounds id (group.fixSize now).markReady
    current := none }

theorem registry_fixSizeOf {state : Section ν Unit} {id : Nat} {group : Group ν}
    (hgroup : state.registry.groups[id]? = some group)
    (hold : state.registry.settings.sizeFixWindow < group.age now) (hopen : group.stage = .opened)
    (hcurrent : state.registry.current = some id) :
    (fixSizeOf now state id).registry = state.registry.settle now id group := by
  simp [fixSizeOf, hgroup, hold, hopen, setGroup, hcurrent, settle]

/-- Going through groups none of which is open and old enough changes nothing. -/
theorem registry_foldl_fixSizeOf (ids : List Nat) (state : Section ν Unit)
    (hids : ∀ id ∈ ids, ∀ group, state.registry.groups[id]? = some group → group.stage = .opened →
      group.age now ≤ state.registry.settings.sizeFixWindow) :
    (ids.foldl (fixSizeOf now) state).registry = state.registry := by
  refine foldl_keep (P := fun other : Section ν Unit => other.registry = state.registry) ids
    (fun other id hid hother => ?_) rfl
  obtain heq | ⟨group, hgroup, hold, hopen, -⟩ := fixSizeOf_cases now other id
  · rw [heq, hother]
  · rw [hother] at hgroup hold
    exact absurd hold (Nat.not_lt.mpr (hids id hid group hgroup hopen))

/-- A group in the index of normal groups that is open takes reservations. -/
theorem Steered.current_of_opened (h : registry.Steered) {id : Nat} {group : Group ν}
    (hid : id ∈ registry.normal.entries.map Prod.snd) (hgroup : registry.groups[id]? = some group)
    (hopen : group.stage = .opened) : registry.current = some id := by
  obtain ⟨⟨key, _⟩, hentry, rfl⟩ := List.mem_map.mp hid
  exact h.single key _ group ((Table.find?_eq_some_iff _ _ _).mpr hentry) hgroup hopen

/-- The group at this place takes reservations and is older than the window for them. -/
structure Overstays (registry : Registry ν) (now : Instant) (id : Nat) (group : Group ν) :
    Prop where
  current : registry.current = some id
  stands : registry.groups[id]? = some group
  old : registry.settings.sizeFixWindow < group.age now

/-- The sweep fixes the size of the group that takes reservations, if that is old enough. -/
theorem fixSizes_of_overstays {id : Nat} {group : Group ν} (hindexed : registry.Indexed)
    (hsteered : registry.Steered) (h : registry.Overstays now id group) :
    (registry.fixSizes now).registry = registry.settle now id group := by
  obtain ⟨same, hsame, hstage, hfind⟩ := hsteered.listed id h.current
  obtain rfl := Option.some.inj (h.stands.symm.trans hsame)
  have hmem : id ∈ registry.normal.entries.map Prod.snd :=
    List.mem_map_of_mem (f := Prod.snd) ((Table.find?_eq_some_iff _ _ _).mp hfind)
  obtain ⟨before, after, hids⟩ := List.append_of_mem hmem
  have hnodup := hindexed.nodup_normal
  rw [hids, List.nodup_middle, List.nodup_cons] at hnodup
  -- no group before or after it is open
  have hclosed : ∀ other ∈ before ++ after, ∀ held, registry.groups[other]? = some held →
      held.stage ≠ .opened := by
    intro other hother held hheld hopen
    have hlisted : other ∈ registry.normal.entries.map Prod.snd := by
      rw [hids]
      exact List.perm_middle.mem_iff.mpr (List.mem_cons_of_mem id hother)
    have hcurrent := hsteered.current_of_opened hlisted hheld hopen
    rw [Option.some.inj (hcurrent.symm.trans h.current)] at hother
    exact hnodup.1 hother
  have hfirst : (before.foldl (fixSizeOf now) { answer := (), registry }).registry = registry :=
    registry_foldl_fixSizeOf before _ fun other hother held hheld hopen =>
      absurd hopen (hclosed other (List.mem_append_left _ hother) held hheld)
  have hfixed : (fixSizeOf now (before.foldl (fixSizeOf now) { answer := (), registry })
      id).registry = registry.settle now id group := by
    rw [registry_fixSizeOf (by rw [hfirst, h.stands]) (by rw [hfirst]; exact h.old) hstage
      (by rw [hfirst, h.current]), hfirst]
  rw [fixSizes, hids, List.foldl_append, List.foldl_cons, registry_foldl_fixSizeOf, hfixed]
  intro other hother held hheld hopen
  have hmem := List.mem_append_right before hother
  have hne : id ≠ other := fun heq => hnodup.1 (heq ▸ hmem)
  rw [hfixed, settle, Array.getElem?_setIfInBounds_ne hne] at hheld
  exact absurd hopen (hclosed other hmem held hheld)

/-- Otherwise it changes nothing. -/
theorem fixSizes_of_not_overstays (hsteered : registry.Steered)
    (h : ∀ id group, ¬ registry.Overstays now id group) :
    (registry.fixSizes now).registry = registry := by
  refine registry_foldl_fixSizeOf _ _ fun id hid group hgroup hopen => ?_
  by_contra hold
  exact h id group ⟨hsteered.current_of_opened hid hgroup hopen, hgroup, Nat.not_le.mp hold⟩

/-- A registry after a sweep that fixes sizes, as its callers see it. -/
structure SizesFixed (now : Instant) (registry later : Registry ν) : Prop where
  /-- The one registered group that is open is the one that takes reservations. -/
  single : ∀ (id : Nat) (group : Group ν), registry.Registered id →
    registry.groups[id]? = some group → (group.stage = .opened ↔ registry.current = some id)
  /-- If it is older than the window, its size is fixed now, and it is ready if all of its slots
  are; it takes no reservations any more, and nothing else changes. -/
  fixed : ∀ (id : Nat) (group : Group ν), registry.current = some id →
    registry.groups[id]? = some group → registry.settings.sizeFixWindow < group.age now →
    later = { registry with
      current := none
      groups := registry.groups.setIfInBounds id { group with
        fixedAt := some now
        stage := if group.slots.all (·.isReady) then .ready else .sizeFixed } }
  /-- Otherwise nothing changes. -/
  kept : (∀ (id : Nat) (group : Group ν), registry.current = some id →
    registry.groups[id]? = some group → group.age now ≤ registry.settings.sizeFixWindow) →
    later = registry

theorem sizesFixed_fixSizes (hindexed : registry.Indexed) (hsteered : registry.Steered)
    (hsettled : ∀ (id : Nat) (group : Group ν), registry.groups[id]? = some group →
      group.kind = .delayed → group.stage ≠ .opened) (now : Instant) :
    SizesFixed now registry (registry.fixSizes now).registry := by
  constructor
  · intro id group hid hgroup
    have hfind := hindexed.find?_of_registered hid hgroup
    constructor
    · intro hopen
      cases hkind : group.kind with
      | normal =>
        rw [hkind] at hfind
        exact hsteered.single group.key id group hfind hgroup hopen
      | delayed => exact absurd hopen (hsettled id group hgroup hkind)
    · intro hcurrent
      obtain ⟨same, hsame, hopen, -⟩ := hsteered.listed id hcurrent
      rwa [Option.some.inj (hgroup.symm.trans hsame)]
  · intro id group hcurrent hgroup hold
    obtain ⟨same, hsame, hopen, hfind⟩ := hsteered.listed id hcurrent
    obtain rfl := Option.some.inj (hgroup.symm.trans hsame)
    obtain ⟨also, halso, hslots, -⟩ := hindexed.of_registered (.inl ⟨_, hfind⟩)
    obtain rfl := Option.some.inj (hgroup.symm.trans halso)
    rw [fixSizes_of_overstays hindexed hsteered ⟨hcurrent, hgroup, hold⟩, settle,
      Group.markReady_fixSize hopen hslots]
  · intro hyoung
    refine fixSizes_of_not_overstays hsteered fun id group h => ?_
    exact absurd (hyoung id group h.current h.stands) (Nat.not_le.mpr h.old)

theorem Alike.overstays_iff {place : Nat ≃ Nat} {one two : Registry ν} (h : Alike place one two)
    {id : Nat} {group : Group ν} :
    two.Overstays now (place id) group ↔ one.Overstays now id group := by
  have hcurrent : two.current = some (place id) ↔ one.current = some id := by
    rw [h.current, Option.map_eq_some_iff]
    simp
  constructor
  · intro hdue
    exact ⟨hcurrent.mp hdue.current, (h.groups id).symm.trans hdue.stands, h.settings ▸ hdue.old⟩
  · intro hdue
    exact ⟨hcurrent.mpr hdue.current, h.group hdue.stands, h.settings ▸ hdue.old⟩

theorem Alike.settle {place : Nat ≃ Nat} {one two : Registry ν} (h : Alike place one two) {id : Nat}
    {group : Group ν} (hgroup : one.groups[id]? = some group) (now : Instant) :
    Alike place (one.settle now id group) (two.settle now (place id) group) :=
  { h with
    groups := fun other => by
      have hlt := (Array.getElem?_eq_some_iff.mp hgroup).1
      have hlt' := (Array.getElem?_eq_some_iff.mp (h.group hgroup)).1
      simp only [Registry.settle]
      by_cases hsame : id = other
      · rw [← hsame, Array.getElem?_setIfInBounds_self_of_lt hlt,
          Array.getElem?_setIfInBounds_self_of_lt hlt']
      · rw [Array.getElem?_setIfInBounds_ne hsame,
          Array.getElem?_setIfInBounds_ne (fun heq => hsame (place.injective heq)), h.groups]
    current := rfl }

/-- Registries that are alike still are after a sweep that fixes sizes. -/
theorem Alike.fixSizes {place : Nat ≃ Nat} {one two : Registry ν} (h : Alike place one two)
    (hindexed : one.Indexed) (hsteered : one.Steered) (now : Instant) :
    Alike place (one.fixSizes now).registry (two.fixSizes now).registry := by
  by_cases hdue : ∃ id group, one.Overstays now id group
  · obtain ⟨id, group, hdue⟩ := hdue
    rw [fixSizes_of_overstays hindexed hsteered hdue,
      fixSizes_of_overstays (h.indexed hindexed) (h.steered hsteered) (h.overstays_iff.mpr hdue)]
    exact h.settle hdue.stands now
  · push Not at hdue
    rw [fixSizes_of_not_overstays hsteered hdue,
      fixSizes_of_not_overstays (h.steered hsteered) fun id group hdue' => ?_]
    · exact h
    · rw [← place.apply_symm_apply id, h.overstays_iff] at hdue'
      exact hdue _ group hdue'

/-- What the sweep has fixed, it leaves as it is when it comes again at the same instant. -/
theorem fixSizes_again {again : Registry ν} (hindexed : registry.Indexed)
    (hsteered : registry.Steered) (h : (registry.fixSizes now).registry.Reordered again) :
    (again.fixSizes now).registry = again := by
  refine fixSizes_of_not_overstays (h.steered (hsteered.fixSizes now)) fun id group hdue => ?_
  have hstill : (registry.fixSizes now).registry.Overstays now id group := h.overstays_iff.mp hdue
  by_cases hfirst : ∃ id group, registry.Overstays now id group
  · obtain ⟨_, _, hfirst⟩ := hfirst
    rw [fixSizes_of_overstays hindexed hsteered hfirst] at hstill
    have hnone : none = some id := hstill.current
    contradiction
  · push Not at hfirst
    rw [fixSizes_of_not_overstays hsteered hfirst] at hstill
    exact hfirst id group hstill

/-! ## Aborting twice -/

/-- A sweep that has nothing to forget and nothing to abort changes nothing. -/
theorem abortOld_of_calm (htombstones : ∀ key since, registry.tombstones.find? key = some since →
      elapsed now since ≤ registry.settings.abortWindow)
    (hdue : ∀ id, registry.Registered id → registry.isDue now id = false) :
    (registry.abortOld now).registry = registry := by
  have hpurge : registry.purge now = registry := by
    rw [purge, Table.filter_eq_self]
    intro entry hentry
    simpa using htombstones entry.1 entry.2 ((Table.find?_eq_some_iff _ _ _).mpr hentry)
  have hstruck : registry.struck now = { state := { answer := (), registry } } := by
    rw [struck, hpurge]
    refine foldl_keep (P := (· = ({ state := { answer := (), registry } } : Abortion ν))) _
      (fun sweep entry hentry hsweep => ?_) rfl
    obtain heq | ⟨group, hgroup, hold, habort, -⟩ :=
      strike_cases now entry.1 sweep entry.2.1 entry.2.2
    · rw [heq, hsweep]
    · rw [hsweep] at hgroup hold
      have hnot := hdue entry.2.2 (registered_iff.mpr ⟨_, _, mem_roll.mp hentry⟩)
      rw [isDue_iff.mpr ⟨group, hgroup, hold, habort⟩] at hnot
      contradiction
  rw [abortOld_registry, hstruck]
  rfl

/-- What the sweep has left, it leaves as it is when it comes again at the same instant. -/
theorem Lapsed.abortOld_again {again : Registry ν} (hlapsed : Lapsed now registry later)
    (h : later.Reordered again) : (again.abortOld now).registry = again := by
  refine abortOld_of_calm (fun key since hfind => ?_) fun id hid => ?_
  · rw [h.tombstone, hlapsed.tombstones] at hfind
    rw [h.settings, hlapsed.settings]
    obtain ⟨-, hyoung⟩ | ⟨rfl, -⟩ := hfind
    · exact hyoung
    · simp [elapsed]
  · obtain ⟨kind, key, hfind⟩ := registered_iff.mp (h.registered_iff.mp hid)
    obtain ⟨-, hdue⟩ := (hlapsed.index kind key id).mp hfind
    rw [h.isDue_eq, ← hdue]
    refine isDue_congr (hlapsed.spared id fun hnot => ?_) hlapsed.settings
    rw [hdue] at hnot
    exact absurd hnot.2 nofun

/-! ## Moving slots twice -/

/-- No group has slots that a sweep would take out of it. -/
def Calm (registry : Registry ν) (now : Instant) : Prop :=
  ∀ key id group, registry.normal.find? key = some id → registry.groups[id]? = some group →
    (group.extractLagging now registry.settings.relocateWindow).1 = []

theorem relieve_of_calm {sweep : Relocation ν} {own : Nat} (h : sweep.broken = false →
      ∀ group, sweep.state.registry.groups[own]? = some group →
        (group.extractLagging now sweep.state.registry.settings.relocateWindow).1 = []) :
    Relocation.relieve now sweep own = sweep := by
  obtain ⟨heq, -⟩ | ⟨group, hbroken, hgroup, hheld, hlagging, -⟩ := relieve_cases now sweep own
  · exact heq
  · have hnone := h hbroken group hgroup
    rw [Group.extractLagging, if_pos hheld] at hnone
    contradiction

/-- A sweep that finds no slots to move changes nothing. -/
theorem relocate_of_calm (h : registry.Calm now) : (registry.relocate now).registry = registry := by
  have hsweep : registry.relieved now = { state := { answer := (), registry } } := by
    refine foldl_keep (P := (· = ({ state := { answer := (), registry } } : Relocation ν))) _
      (fun sweep id hid hsweep => ?_) rfl
    obtain ⟨⟨key, _⟩, hentry, rfl⟩ := List.mem_map.mp hid
    rw [hsweep]
    exact relieve_of_calm fun _ group hgroup =>
      h key _ group ((Table.find?_eq_some_iff _ _ _).mpr hentry) hgroup
  rw [relocate_of_not_broken (by rw [hsweep]), hsweep]
  rfl

/-- A group that was relieved is not held back any more. -/
theorem lagging_sifted (group : Group ν) (now : Instant) (window : Nat) :
    ((group.sifted now window).extractLagging now window).1 = [] := by
  obtain hnone | ⟨hheld, hlagging, -⟩ := group.extractLagging_cases now window
  · rw [Group.sifted_of_nil hnone, hnone]
  · rw [Group.sifted_of_held hheld hlagging, Group.markReady,
      if_pos (Group.isComplete_rest hheld)]
    simp [Group.extractLagging, Group.isHeldBack]

/-- A sweep that came to its end leaves no slots behind that it would move at the same instant. -/
theorem calm_relocate (h : (registry.relocate now).answer = true) :
    (registry.relocate now).registry.Calm now := by
  cases hbroken : (registry.relieved now).broken with
  | true =>
    rw [relocate_of_broken hbroken] at h
    contradiction
  | false =>
    intro key id group hfind hgroup
    obtain ⟨_, _, _, hframe⟩ := registry.frame_relocate now
    have hid : id ∈ registry.normal.entries.map Prod.snd := by
      rw [hframe] at hfind
      exact List.mem_map_of_mem (f := Prod.snd) ((Table.find?_eq_some_iff _ _ _).mp hfind)
    have hsettings : (registry.relocate now).registry.settings = registry.settings := by
      rw [hframe]
    have hsifted : Sifted registry now _ (registry.relieved now) := sifted_foldl hbroken
    rw [relocate_of_not_broken hbroken] at hgroup
    rw [hsettings]
    cases hold : registry.groups[id]? with
    | none => simp [Group.extractLagging, Group.isHeldBack, hsifted.made id group hold hgroup]
    | some old =>
      have hkept := hsifted.kept id old hold
      rw [if_pos hid] at hkept
      rw [Option.some.inj (hgroup.symm.trans hkept)]
      exact lagging_sifted old now _

theorem Calm.reordered {again : Registry ν} (hcalm : registry.Calm now)
    (h : registry.Reordered again) : again.Calm now := by
  intro key id group hfind hgroup
  rw [h.settings]
  exact hcalm key id group ((h.find?_eq .normal key).symm.trans hfind)
    (by rw [← h.groups_eq]; exact hgroup)

/-! ## Fixing sizes and moving slots -/

/-- The slots are taken out that hold a group back. -/
theorem relieve_of_held (now : Instant) (sweep : Relocation ν) {own : Nat} {group : Group ν}
    (hbroken : sweep.broken = false) (hgroup : sweep.state.registry.groups[own]? = some group)
    (hheld : group.isHeldBack now sweep.state.registry.settings.relocateWindow = true)
    (hlagging : group.slots.filter (!·.isReady) ≠ []) :
    Relocation.relieve now sweep own = sweep.afterRelief now own group := by
  obtain ⟨-, halone⟩ | ⟨same, -, hsame, -, -, heq⟩ := relieve_cases now sweep own
  · have hnone := halone hbroken group hgroup
    rw [Group.extractLagging, if_pos hheld] at hnone
    contradiction
  · rwa [Option.some.inj (hgroup.symm.trans hsame)]

/-- A sweep that moves slots, with the size of one group fixed as well. -/
def Relocation.settle (sweep : Relocation ν) (now : Instant) (id : Nat) (group : Group ν) :
    Relocation ν :=
  { sweep with state := { sweep.state with registry := sweep.state.registry.settle now id group } }

theorem afterRelief_settle {sweep : Relocation ν} {id own : Nat} {group held : Group ν}
    (hlt : id < sweep.state.registry.groups.size) (hown : own ≠ id) :
    (sweep.settle now id group).afterRelief now own held =
      (sweep.afterRelief now own held).settle now id group := by
  simp only [Relocation.afterRelief, Relocation.settle, settle]
  rw [Array.setIfInBounds_comm _ _ (Ne.symm hown),
    Array.setIfInBounds_append_left (by simpa using hlt), Array.size_setIfInBounds]
  rfl

/-- Neither before nor after its size was fixed is an open group held back. -/
theorem relieve_settle_self {sweep : Relocation ν} {id : Nat} {group : Group ν}
    (hgroup : sweep.state.registry.groups[id]? = some group) (hopen : group.stage = .opened) :
    Relocation.relieve now sweep id = sweep ∧
      Relocation.relieve now (sweep.settle now id group) id = sweep.settle now id group := by
  have hlt := (Array.getElem?_eq_some_iff.mp hgroup).1
  have hfixed : (sweep.settle now id group).state.registry.groups[id]? =
      some (group.fixSize now).markReady := Array.getElem?_setIfInBounds_self_of_lt hlt
  constructor
  · refine relieve_of_calm fun _ same hsame => ?_
    rw [Option.some.inj (hsame.symm.trans hgroup)]
    exact Group.extractLagging_of_not_held (Group.isHeldBack_of_opened hopen _)
  · refine relieve_of_calm fun _ same hsame => ?_
    rw [Option.some.inj (hsame.symm.trans hfixed)]
    exact Group.extractLagging_of_not_held (Group.isHeldBack_markReady_fixSize hopen _)

/-- Relieving one group and fixing the size of an open one do not touch the same group. -/
theorem relieve_settle {sweep : Relocation ν} {id : Nat} {group : Group ν}
    (hgroup : sweep.state.registry.groups[id]? = some group) (hopen : group.stage = .opened)
    (own : Nat) :
    (Relocation.relieve now sweep own).state.registry.groups[id]? = some group ∧
      Relocation.relieve now (sweep.settle now id group) own =
        (Relocation.relieve now sweep own).settle now id group := by
  have hlt := (Array.getElem?_eq_some_iff.mp hgroup).1
  by_cases hown : own = id
  · obtain ⟨hcalm, hcalm'⟩ := relieve_settle_self hgroup hopen
    rw [hown, hcalm, hcalm']
    exact ⟨hgroup, rfl⟩
  have hsame : (sweep.settle now id group).state.registry.groups[own]? =
      sweep.state.registry.groups[own]? := Array.getElem?_setIfInBounds_ne (Ne.symm hown)
  obtain ⟨heq, halone⟩ | ⟨held, hbroken, hheld, hback, hlagging, heq⟩ :=
    relieve_cases now sweep own
  · rw [heq]
    refine ⟨hgroup, relieve_of_calm fun hbroken other hother => ?_⟩
    exact halone hbroken other (hsame.symm.trans hother)
  · rw [heq, relieve_of_held now (sweep.settle now id group) hbroken (hsame.trans hheld) hback
      hlagging]
    refine ⟨?_, afterRelief_settle hlt hown⟩
    simp only [Relocation.afterRelief]
    rw [Array.getElem?_append_left (by simpa using hlt),
      Array.getElem?_setIfInBounds_ne hown, hgroup]

theorem foldl_relieve_settle (ids : List Nat) {sweep : Relocation ν} {id : Nat} {group : Group ν}
    (hgroup : sweep.state.registry.groups[id]? = some group) (hopen : group.stage = .opened) :
    (ids.foldl (Relocation.relieve now) sweep).state.registry.groups[id]? = some group ∧
      ids.foldl (Relocation.relieve now) (sweep.settle now id group) =
        (ids.foldl (Relocation.relieve now) sweep).settle now id group := by
  induction ids generalizing sweep with
  | nil => exact ⟨hgroup, rfl⟩
  | cons own rest ih =>
    obtain ⟨hlater, heq⟩ := relieve_settle hgroup hopen own
    rw [List.foldl_cons, List.foldl_cons, heq]
    exact ih hlater

theorem take_setIfInBounds {α : Type} (entries : Array α) (size id : Nat) (new : α) :
    (entries.setIfInBounds id new).take size = (entries.take size).setIfInBounds id new := by
  rw [← Array.toList_inj]
  simp [List.take_set]

/-- A sweep that moves slots does not touch an open group, whose size may be fixed before or
after it. -/
theorem relocate_settle {id : Nat} {group : Group ν} (hgroup : registry.groups[id]? = some group)
    (hopen : group.stage = .opened) (now : Instant) :
    (registry.relocate now).registry.groups[id]? = some group ∧
      ((registry.settle now id group).relocate now).registry =
        (registry.relocate now).registry.settle now id group := by
  obtain ⟨hlater, heq⟩ : (registry.relieved now).state.registry.groups[id]? = some group ∧
      (registry.settle now id group).relieved now = (registry.relieved now).settle now id group :=
    foldl_relieve_settle _ hgroup hopen
  cases hbroken : (registry.relieved now).broken with
  | true =>
    have hlt : id < registry.groups.size := (Array.getElem?_eq_some_iff.mp hgroup).1
    have hsize : (registry.settle now id group).groups.size = registry.groups.size :=
      Array.size_setIfInBounds
    rw [relocate_of_broken hbroken, relocate_of_broken (by rw [heq]; exact hbroken), heq, hsize]
    refine ⟨?_, ?_⟩
    · rw [getElem?_take, if_pos hlt, hlater]
    · simp only [Relocation.settle, settle, take_setIfInBounds]
  | false =>
    rw [relocate_of_not_broken hbroken, relocate_of_not_broken (by rw [heq]; exact hbroken), heq]
    exact ⟨hlater, rfl⟩

/-- The group that takes reservations is open, so a sweep that moves slots does not touch it. -/
theorem Steered.overstays_relocate_iff (h : registry.Steered) {id : Nat} {group : Group ν} :
    (registry.relocate now).registry.Overstays now id group ↔ registry.Overstays now id group := by
  obtain ⟨_, _, _, hframe⟩ := registry.frame_relocate now
  have hcurrent : (registry.relocate now).registry.current = registry.current := by rw [hframe]
  have hsettings : (registry.relocate now).registry.settings = registry.settings := by rw [hframe]
  constructor
  · rintro ⟨hid, hgroup, hold⟩
    rw [hcurrent] at hid
    rw [hsettings] at hold
    obtain ⟨same, hsame, hopen, -⟩ := h.listed id hid
    rw [(relocate_settle hsame hopen now).1] at hgroup
    exact ⟨hid, hsame.trans hgroup, hold⟩
  · rintro ⟨hid, hgroup, hold⟩
    obtain ⟨same, hsame, hopen, -⟩ := h.listed id hid
    obtain rfl := Option.some.inj (hgroup.symm.trans hsame)
    exact ⟨hcurrent.trans hid, (relocate_settle hgroup hopen now).1, hsettings ▸ hold⟩

/-- At one instant it makes no difference whether sizes are fixed first, or slots moved. -/
theorem fixSizes_relocate_comm (hindexed : registry.Indexed) (hsteered : registry.Steered)
    (now : Instant) : ((registry.fixSizes now).registry.relocate now).registry =
      ((registry.relocate now).registry.fixSizes now).registry := by
  by_cases hdue : ∃ id group, registry.Overstays now id group
  · obtain ⟨id, group, hdue⟩ := hdue
    obtain ⟨same, hgroup, hopen, -⟩ := hsteered.listed id hdue.current
    obtain rfl := Option.some.inj (hdue.stands.symm.trans hgroup)
    rw [fixSizes_of_overstays hindexed hsteered hdue, (relocate_settle hgroup hopen now).2,
      fixSizes_of_overstays (hindexed.relocate now) (hsteered.relocate now)
        (hsteered.overstays_relocate_iff.mpr hdue)]
  · push Not at hdue
    rw [fixSizes_of_not_overstays hsteered hdue,
      fixSizes_of_not_overstays (hsteered.relocate now) fun id group h =>
        hdue id group (hsteered.overstays_relocate_iff.mp h)]

end Registry

namespace Committer

open Registry (SizesFixed Alike)

variable {label : String} {settings : Settings} {scheme : KeyScheme}
  {slotBytes : Nat} {unstartable : Option (Sweeper × String)} {start : Committer ν ε}

/-- The committer after a sweep that finds the tables enumerated as they are in this registry. -/
def swept (committer : Committer ν ε) (registry : Registry ν) (sweeper : Sweeper) (now : Instant) :
    Committer ν ε :=
  { committer with registry }.sweep now sweeper

theorem swept_self (committer : Committer ν ε) (sweeper : Sweeper) (now : Instant) :
    committer.swept committer.registry sweeper now = committer.sweep now sweeper := rfl

/-- The sweeper that moves slots does nothing once it has broken down. -/
theorem swept_relocate_of_broken (committer : Committer ν ε) (h : committer.relocating = false)
    (registry : Registry ν) (now : Instant) :
    (committer.swept registry .relocate now).registry = registry ∧
      (committer.swept registry .relocate now).relocating = false := by
  rw [swept, sweep, if_neg (by simp [h])]
  exact ⟨rfl, h⟩

theorem swept_relocate (committer : Committer ν ε) (h : committer.relocating = true)
    (registry : Registry ν) (now : Instant) :
    (committer.swept registry .relocate now).registry = (registry.relocate now).registry ∧
      (committer.swept registry .relocate now).relocating = (registry.relocate now).answer := by
  rw [swept, sweep, if_pos h]
  exact ⟨rfl, rfl⟩

/-- In every reachable state each sweep, made twice at one instant, leaves what it leaves if it is
made once, in whatever orders the tables are enumerated. -/
theorem swept_again (hstart : (launch label settings scheme slotBytes unstartable).1 = .ok start)
    (hseparator : scheme.separator.isDigit = false) (actions : List (Action ν ε))
    (hissued : (start.run actions).registry.issued ≤ scheme.cycle) (now : Instant)
    (sweeper : Sweeper) {other again : Registry ν}
    (hother : (start.run actions).registry.Reordered other)
    (hagain : ((start.run actions).swept other sweeper now).registry.Reordered again) :
    (((start.run actions).swept other sweeper now).swept again sweeper now).registry = again := by
  cases sweeper with
  | sizeFix =>
    exact Registry.fixSizes_again (hother.indexed (indexed_of_launch hstart actions))
      (hother.steered (steered_run hstart actions)) hagain
  | abort =>
    exact (lapsed_run hstart hseparator actions hissued now hother).abortOld_again hagain
  | relocate =>
    cases hrelocating : (start.run actions).relocating with
    | false =>
      have hbroken := (swept_relocate_of_broken _ hrelocating other now).2
      exact (swept_relocate_of_broken _ hbroken again now).1
    | true =>
      obtain ⟨hlater, hanswer⟩ := swept_relocate _ hrelocating other now
      cases hended : (other.relocate now).answer with
      | false => exact (swept_relocate_of_broken _ (hanswer.trans hended) again now).1
      | true =>
        rw [(swept_relocate _ (hanswer.trans hended) again now).1]
        rw [hlater] at hagain
        exact Registry.relocate_of_calm ((Registry.calm_relocate hended).reordered hagain)

/-- In every reachable state it makes no difference whether sizes are fixed first, or slots
moved. -/
theorem swept_comm (hstart : (launch label settings scheme slotBytes unstartable).1 = .ok start)
    (actions : List (Action ν ε)) (now : Instant) {other : Registry ν}
    (hother : (start.run actions).registry.Reordered other) :
    (((start.run actions).swept other .sizeFix now).sweep now .relocate).registry =
      (((start.run actions).swept other .relocate now).sweep now .sizeFix).registry := by
  have hcomm := Registry.fixSizes_relocate_comm
    (hother.indexed (indexed_of_launch hstart actions))
    (hother.steered (steered_run hstart actions)) now
  change _ = (((start.run actions).swept other .relocate now).registry.fixSizes now).registry
  cases hrelocating : (start.run actions).relocating with
  | false =>
    rw [(swept_relocate_of_broken _ hrelocating other now).1]
    exact (swept_relocate_of_broken ((start.run actions).swept other .sizeFix now) hrelocating _
      now).1
  | true =>
    rw [(swept_relocate _ hrelocating other now).1, ← hcomm]
    exact (swept_relocate ((start.run actions).swept other .sizeFix now) hrelocating _ now).1

/-- It makes no difference either if each of the sweeps finds the tables in an order of its own, but
for the places of the groups that are made. -/
theorem swept_comm_in_any_order
    (hstart : (launch label settings scheme slotBytes unstartable).1 = .ok start)
    (hseparator : scheme.separator.isDigit = false) (hderivable : scheme.Derivable)
    (actions : List (Action ν ε)) (hissued : (start.run actions).registry.issued ≤ scheme.cycle)
    (now : Instant) {one two fixed relocated : Registry ν}
    (hone : (start.run actions).registry.Reordered one)
    (hfixed : (one.fixSizes now).registry.Reordered fixed)
    (htwo : (start.run actions).registry.Reordered two)
    (hrelocated : (two.relocate now).registry.Reordered relocated) :
    ∃ place : Nat ≃ Nat, (∀ id < (start.run actions).registry.groups.size, place id = id) ∧
      Alike place (fixed.relocate now).registry (relocated.fixSizes now).registry := by
  have hindexed := indexed_of_launch hstart actions
  have hsteered := steered_run hstart actions
  have horderly := orderly_run hstart hseparator actions hissued
  have hsteady := (start.run actions).registry.steady_fixSizes now
  have hsettled : ((start.run actions).registry.fixSizes now).registry.Orderly := by
    have hrun := orderly_run hstart hseparator (actions ++ [.sweep .sizeFix now]) (by
      rw [run_append]
      exact hsteady.issued.trans_le hissued)
    rwa [run_append] at hrun
  have hscheme : (start.run actions).registry.scheme.Derivable := by
    rwa [(run_constant hstart actions).2]
  obtain ⟨place, hbelow, hplace⟩ := hsettled.relocate_alike (hsteady.scheme ▸ hscheme)
    ((hone.fixSizes hindexed hsteered now).trans hfixed) now
  obtain ⟨place', hbelow', hplace'⟩ := horderly.relocate_alike hscheme htwo now
  have hlast :=
    (hplace'.trans hrelocated).fixSizes (hindexed.relocate now) (hsteered.relocate now) now
  rw [← Registry.fixSizes_relocate_comm hindexed hsteered now] at hlast
  refine ⟨_, fun id hid => ?_, hplace.symm.trans hlast⟩
  have hid' := hbelow id (by rwa [hsteady.size])
  have hback : place.symm id = id := by rw [Equiv.symm_apply_eq, hid']
  simp only [Equiv.trans_apply, Equiv.refl_apply, hback, hbelow' id hid]

/-- The sweeps of a reachable registry, in whatever order its tables are enumerated. One that fixes
sizes has done what `Registry.SizesFixed` says, and it leaves the same registry in any order. Any of
them, made again at the same instant, changes nothing. Whether sizes are fixed first at an instant,
or slots moved, makes no difference; it makes none either if each of these sweeps finds the tables
in an order of its own, but for the places of the groups that are made. -/
theorem sweeps_at_one_instant
    (hstart : (launch label settings scheme slotBytes unstartable).1 = .ok start)
    (hseparator : scheme.separator.isDigit = false) (actions : List (Action ν ε))
    (hissued : (start.run actions).registry.issued ≤ scheme.cycle) (now : Instant) :
    (∀ other : Registry ν, (start.run actions).registry.Reordered other →
      SizesFixed now other (other.fixSizes now).registry ∧
        ((start.run actions).registry.fixSizes now).registry.Reordered
          (other.fixSizes now).registry) ∧
    (∀ (sweeper : Sweeper) (other again : Registry ν),
      (start.run actions).registry.Reordered other →
      ((start.run actions).swept other sweeper now).registry.Reordered again →
      (((start.run actions).swept other sweeper now).swept again sweeper now).registry = again) ∧
    (∀ other : Registry ν, (start.run actions).registry.Reordered other →
      (((start.run actions).swept other .sizeFix now).sweep now .relocate).registry =
        (((start.run actions).swept other .relocate now).sweep now .sizeFix).registry) ∧
    (scheme.Derivable → ∀ one two fixed relocated : Registry ν,
      (start.run actions).registry.Reordered one →
      (one.fixSizes now).registry.Reordered fixed →
      (start.run actions).registry.Reordered two →
      (two.relocate now).registry.Reordered relocated →
      ∃ place : Nat ≃ Nat, (∀ id < (start.run actions).registry.groups.size, place id = id) ∧
        Alike place (fixed.relocate now).registry (relocated.fixSizes now).registry) := by
  have hindexed := indexed_of_launch hstart actions
  have hsteered := steered_run hstart actions
  refine ⟨fun other hother => ⟨?_, hother.fixSizes hindexed hsteered now⟩,
    fun sweeper other again => swept_again hstart hseparator actions hissued now sweeper,
    fun other => swept_comm hstart actions now, fun hderivable one two fixed relocated =>
      swept_comm_in_any_order hstart hseparator hderivable actions hissued now⟩
  refine Registry.sizesFixed_fixSizes (hother.indexed hindexed) (hother.steered hsteered)
    (fun id group hgroup => ?_) now
  rw [hother.groups_eq] at hgroup
  exact (named_run hstart actions hgroup).settled

/-- Two groups are held back, a third one is open. -/
def crowd : List (Action Nat Unit) := stragglers ++ [.reserve 0 "e"]

/-- At 5 s the open group is old enough for its size to be fixed, and the second slots of the other
two move. Both happen in either order, and neither happens twice. -/
theorem sweeps_of_crowd :
    ((launch "pairs" { Settings.default with slotCapacity := 2 } {} 72 none).1 = .ok pairs ∧
      ({} : KeyScheme).separator.isDigit = false ∧
      (pairs.run crowd).registry.issued ≤ ({} : KeyScheme).cycle) ∧
    ((pairs.run crowd).registry.fixSizes 5000).registry.current = none ∧
    (((pairs.run crowd).sweep 5000 .sizeFix).sweep 5000 .relocate).registry.delayed.entries =
      [("0000:b", 3), ("0001:d", 4)] ∧
    (((pairs.run crowd).sweep 5000 .sizeFix).sweep 5000 .relocate).registry =
      (((pairs.run crowd).sweep 5000 .relocate).sweep 5000 .sizeFix).registry ∧
    (((pairs.run crowd).sweep 5000 .relocate).sweep 5000 .relocate).registry =
      ((pairs.run crowd).sweep 5000 .relocate).registry := by
  have hstart : (launch "pairs" { Settings.default with slotCapacity := 2 } {} 72 none).1 =
      .ok pairs := rfl
  have hseparator : ({} : KeyScheme).separator.isDigit = false := by decide
  have hissued : (pairs.run crowd).registry.issued ≤ ({} : KeyScheme).cycle := by decide +kernel
  have hcurrent : (pairs.run crowd).registry.current = some 2 := by decide +kernel
  obtain ⟨hfixed, hagain, hcomm, -⟩ :=
    sweeps_at_one_instant hstart hseparator crowd hissued 5000
  refine ⟨⟨hstart, hseparator, hissued⟩, ?_, by decide +kernel, ?_, ?_⟩
  · have hdue : (pairs.run crowd).registry.groups[2]?.any fun group =>
        decide ((pairs.run crowd).registry.settings.sizeFixWindow < group.age 5000) := by
      decide +kernel
    obtain ⟨group, hgroup, hold⟩ := Option.any_eq_true _ _ |>.mp hdue
    have hone := hfixed (pairs.run crowd).registry (Alike.refl _)
    have hlater := hone.1.fixed 2 group hcurrent hgroup (of_decide_eq_true hold)
    exact congrArg Registry.current hlater
  · have hboth := hcomm _ (Alike.refl _)
    rwa [swept_self, swept_self] at hboth
  · have htwice := hagain .relocate _ _ (Alike.refl _) (Alike.refl _)
    rwa [swept_self, swept_self] at htwice

end Committer

end BatchedCommit
