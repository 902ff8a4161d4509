import BatchedCommit.Proofs.Ledger
import BatchedCommit.Proofs.Parting
import BatchedCommit.Proofs.Relocations
import BatchedCommit.Proofs.Tombstones

/-!
# BatchedCommit.Proofs.Abortions

What one sweep that aborts groups does, as callers see it (`Registry.Lapsed`), and what that says
about the age of slots (`Committer.abortion_in_any_order`).

A slot is as old as the group that it was reserved in, wherever it stands: the normal group of its
parent key, and the delayed groups of its full keys, stem from one group and have its age
(`Registry.StemsFrom`). After a sweep that finds this group too old, those of them that are still
registered were claimed (`Registry.Spent`); and no slot is moved out of a group that was claimed, so
that stays so.
-/

namespace BatchedCommit

variable {ν ε : Type}

/-- Among the groups that are not aborted, those can be that were neither claimed nor are done. -/
theorem Group.isAbortable_iff {group : Group ν} (hcoherent : group.Coherent)
    (hlive : group.stage ≠ .aborted) :
    group.isAbortable = true ↔ group.claimed = false ∧ group.stage ≠ .done := by
  constructor
  · intro habort
    refine ⟨hcoherent.claimed_of_isAbortable habort, fun hdone => ?_⟩
    rw [not_abortable_of_isTerminal (by rw [hdone]; rfl)] at habort
    contradiction
  · rintro ⟨hclaimed, hdone⟩
    refine isAbortable_of_unclaimed (Bool.eq_false_iff.mpr fun hended => ?_) hclaimed
    exact (Stage.isTerminal_iff.mp hended).elim hdone hlive

namespace Registry

variable {registry later : Registry ν} {now : Instant}

/-! ## Counting -/

/-- The registered groups that are due. -/
def dueList (registry : Registry ν) (now : Instant) : List Nat :=
  (registry.roll.map fun entry => entry.2.2).filter (registry.isDue now)

theorem mem_dueList {id : Nat} : id ∈ registry.dueList now ↔
    registry.Registered id ∧ registry.isDue now id = true := by
  simp only [dueList, List.mem_filter, List.mem_map, Prod.exists, exists_eq_right, mem_roll,
    registered_iff]

theorem Indexed.nodup_dueList (h : registry.Indexed) (now : Instant) :
    (registry.dueList now).Nodup := h.nodup_roll.filter _

/-- The sweep after it has struck the entries of both indexes. -/
def struck (registry : Registry ν) (now : Instant) : Abortion ν :=
  registry.roll.foldl (fun sweep entry => Abortion.strike now entry.1 sweep entry.2)
    { state := { answer := (), registry := registry.purge now } }

theorem abortOld_registry (registry : Registry ν) (now : Instant) :
    (registry.abortOld now).registry =
      (registry.struck now).aborted.foldl (bury now) (registry.struck now).state.registry := by
  rw [abortOld, struck, roll, List.foldl_append, List.foldl_map, List.foldl_map]
  rfl

/-- The sweep counts every group that it aborts. -/
theorem counters_abortOld (h : registry.Indexed) (now : Instant) :
    (registry.abortOld now).registry.counters =
      registry.counters.add .groupsAborted (registry.dueList now).length := by
  have hcounted : (registry.struck now).state.registry.counters =
      registry.counters.add .groupsAborted (registry.struck now).aborted.length := by
    refine foldl_keep (P := fun sweep : Abortion ν => sweep.state.registry.counters =
      registry.counters.add .groupsAborted sweep.aborted.length) _
      (fun sweep entry _ hsweep => ?_) (Counters.add_zero _ _).symm
    obtain heq | ⟨group, -, -, -, heq⟩ := strike_cases now entry.1 sweep entry.2.1 entry.2.2
    · rwa [heq]
    · rw [heq]
      simp only [Abortion.afterStrike, bump, setGroup, Counters.bump, hsweep, Counters.add_add,
        List.length_append, List.length_singleton]
  have haborted : (registry.struck now).aborted.length = (registry.dueList now).length := by
    have hstruck := struck_foldl now registry.roll h.nodup_roll
      { state := { answer := (), registry := registry.purge now } }
    rw [struck, hstruck.aborted, List.nil_append, dueList, List.filter_map, List.length_map]
    rfl
  rw [abortOld_registry, counters_foldl_bury, hcounted, haborted]

/-! ## What the sweep does -/

/-- A registry after a sweep that aborts groups, as its callers see it. -/
structure Lapsed (now : Instant) (registry later : Registry ν) : Prop where
  settings : later.settings = registry.settings
  scheme : later.scheme = registry.scheme
  issued : later.issued = registry.issued
  closed : later.closed = registry.closed
  /-- A registered group is due if it is older than the window, and neither claimed nor done. -/
  due : ∀ (id : Nat) (group : Group ν), registry.Registered id →
    registry.groups[id]? = some group → (registry.isDue now id = true ↔
      registry.settings.abortWindow < group.age now ∧ group.claimed = false ∧ group.stage ≠ .done)
  /-- The registered groups that are due are aborted, under their own keys; -/
  aborted : ∀ (kind : GroupKind) (key : String) (id : Nat) (group : Group ν),
    (registry.index kind).find? key = some id → registry.groups[id]? = some group →
    registry.isDue now id = true → group.key = key ∧ later.groups[id]? =
      some { group with stage := .aborted, outcome := some (.error (.aborted key)) }
  /-- no other group changes. -/
  spared : ∀ id : Nat, ¬ (registry.Registered id ∧ registry.isDue now id = true) →
    later.groups[id]? = registry.groups[id]?
  /-- They leave their index, and no other entry changes. -/
  index : ∀ kind key id, (later.index kind).find? key = some id ↔
    (registry.index kind).find? key = some id ∧ registry.isDue now id = false
  /-- If the group that takes reservations is one of them, it does so no more. -/
  current : ∀ id, later.current = some id ↔
    registry.current = some id ∧ registry.isDue now id = false
  /-- Each of their keys gets a tombstone; those that are older than the window are forgotten, and
  the others stay. -/
  tombstones : ∀ key since, later.tombstones.find? key = some since ↔
    (registry.tombstones.find? key = some since ∧
      elapsed now since ≤ registry.settings.abortWindow) ∨
    (since = now ∧ ∃ kind id, (registry.index kind).find? key = some id ∧
      registry.isDue now id = true)
  /-- Each of them is counted. -/
  counters : ∃ due : List Nat, due.Nodup ∧
    (∀ id, id ∈ due ↔ registry.Registered id ∧ registry.isDue now id = true) ∧
      later.counters = registry.counters.add .groupsAborted due.length

theorem lapsed_abortOld (hrouted : registry.Routed) (hsteered : registry.Steered)
    (hcoherent : ∀ (id : Nat) (group : Group ν), registry.groups[id]? = some group →
      group.Coherent) (now : Instant) : Lapsed now registry (registry.abortOld now).registry := by
  have hexpired := expired_abortOld hrouted.indexed now
  have hturn := turn_abortOld registry now
  have hsteady := steady_abortOld registry now
  constructor
  · exact hturn.settings
  · exact hturn.scheme
  · exact hsteady.issued
  · exact hexpired.closed
  · intro id group hid hgroup
    obtain ⟨same, hsame, -, hlive⟩ := hrouted.indexed.of_registered hid
    obtain rfl := Option.some.inj (hgroup.symm.trans hsame)
    rw [← Group.isAbortable_iff (hcoherent id group hgroup) hlive, isDue_iff]
    simp [hgroup]
  · intro kind key id group hfind hgroup hdue
    obtain ⟨same, hsame, -, hkey, -⟩ := hrouted.indexed.lives kind hfind
    obtain rfl := Option.some.inj (hgroup.symm.trans hsame)
    obtain ⟨other, hother, -, habort⟩ := isDue_iff.mp hdue
    obtain rfl := Option.some.inj (hgroup.symm.trans hother)
    exact ⟨hkey, by rw [hexpired.aborted kind key id group hfind hgroup hdue,
      Group.abort_of_isAbortable habort]⟩
  · intro id hnot
    exact hexpired.spared id fun hid => Bool.eq_false_iff.mpr fun hdue => hnot ⟨hid, hdue⟩
  · exact hexpired.index
  · intro id
    rw [hexpired.current]
    refine and_congr_right fun hid => ⟨fun h => h ?_, fun h _ => h⟩
    obtain ⟨group, -, -, hfind⟩ := hsteered.listed id hid
    exact .inl ⟨_, hfind⟩
  · intro key since
    refine ⟨hexpired.tombstone_cases, ?_⟩
    rintro (⟨hfind, hyoung⟩ | ⟨rfl, kind, id, hfind, hdue⟩)
    · rw [hexpired.unmarked key fun kind id hid => ?_, hfind]
      · simpa using hyoung
      · -- a group that is registered has no tombstone
        obtain ⟨group, hgroup, -, hkey, -, hlive⟩ := hrouted.indexed.lives kind hid
        have hnone := hrouted.tombstone_of_live hgroup hlive
        rw [hkey, hfind] at hnone
        contradiction
    · exact hexpired.marked kind key id hfind hdue
  · exact ⟨registry.dueList now, hrouted.indexed.nodup_dueList now, fun _ => mem_dueList,
      counters_abortOld hrouted.indexed now⟩

/-- What the sweep leaves behind is the same in whatever order it goes through the indexes. -/
theorem Lapsed.reordered {one two later' : Registry ν} (hindexed : one.Indexed)
    (h : one.Reordered two) (hone : Lapsed now one later) (htwo : Lapsed now two later') :
    later.Reordered later' := by
  have hdue := h.isDue_eq now
  refine .of_find? ?_ ?_ ?_ ?_ ?_ (fun id => ?_) ?_ (fun kind key => ?_) fun key => ?_
  · rw [htwo.settings, hone.settings, h.settings]
  · rw [htwo.scheme, hone.scheme, h.scheme]
  · rw [htwo.issued, hone.issued, h.issued]
  · rw [htwo.closed, hone.closed, h.closed]
  · obtain ⟨due, hnodup, hmem, hcounters⟩ := hone.counters
    obtain ⟨due', hnodup', hmem', hcounters'⟩ := htwo.counters
    have hperm : due'.Perm due := (List.perm_ext_iff_of_nodup hnodup' hnodup).mpr fun id => by
      rw [hmem, hmem', h.registered_iff, hdue]
    rw [hcounters', hcounters, h.counters, hperm.length_eq]
  · rw [Equiv.refl_apply]
    by_cases hid : one.Registered id ∧ one.isDue now id = true
    · obtain ⟨kind, key, hfind⟩ := registered_iff.mp hid.1
      obtain ⟨group, hgroup, -⟩ := hindexed.lives kind hfind
      rw [(hone.aborted kind key id group hfind hgroup hid.2).2,
        (htwo.aborted kind key id group (by rw [h.find?_eq, hfind]) (h.group hgroup)
          (by rw [hdue, hid.2])).2]
    · rw [hone.spared id hid, htwo.spared id (by rwa [h.registered_iff, hdue]), h.groups_eq]
  · rw [Equiv.coe_refl, Option.map_id_fun, id_eq]
    ext id
    rw [htwo.current, hone.current, h.current_eq, hdue]
  · rw [Equiv.coe_refl, Option.map_id_fun, id_eq]
    ext id
    rw [htwo.index, hone.index, h.find?_eq, hdue]
  · ext since
    rw [htwo.tombstones, hone.tombstones, h.tombstone, h.settings]
    simp only [h.find?_eq, hdue]

/-! ## The slots of one group, wherever they are -/

/-- A group has the slots that were reserved in the normal group of a key: it is that group, or was
made for one of them. -/
def StemsFrom (registry : Registry ν) (parent : String) (group : Group ν) : Prop :=
  match group.kind with
  | .normal => group.key = parent
  | .delayed => ∃ child, group.key = registry.scheme.fullKey parent child

/-- Every registered group that has slots of the normal group of a key was claimed. -/
def Spent (registry : Registry ν) (parent : String) : Prop :=
  ∀ (id : Nat) (group : Group ν), registry.Registered id → registry.groups[id]? = some group →
    registry.StemsFrom parent group → group.claimed = true

theorem StemsFrom.congr {parent : String} {group changed : Group ν}
    (h : later.StemsFrom parent changed) (hhead : Group.SameHead group changed)
    (hscheme : later.scheme = registry.scheme) : registry.StemsFrom parent group := by
  rwa [StemsFrom, hhead.kind, hhead.key, hscheme] at h

/-- A group with a slot that was reserved in a normal group stems from that. -/
theorem Distinct.stemsFrom (h : registry.Distinct)
    (hseparator : registry.scheme.separator.isDigit = false) {parent child : String}
    (hparent : KeyScheme.IsParent parent) {id : Nat} {group : Group ν} {slot : Slot ν}
    (hgroup : registry.groups[id]? = some group) (hslot : slot ∈ group.slots)
    (hkey : slot.fullKey = registry.scheme.fullKey parent child) :
    registry.StemsFrom parent group := by
  have hnamed := h.named id group hgroup
  rw [StemsFrom]
  split
  · next hkind =>
    have hname : slot.fullKey = registry.scheme.fullKey group.key slot.child :=
      hnamed.children hkind _ (List.mem_map_of_mem hslot)
    exact (KeyScheme.fullKey_inj hseparator (h.isParent_key hgroup hkind) hparent
      (hname.symm.trans hkey)).1
  · next hkind =>
    have hname : slot.fullKey = group.key := hnamed.own hkind _ (List.mem_map_of_mem hslot)
    exact ⟨child, hname.symm.trans hkey⟩

/-- A group that stems from another one, and can be aborted, is as old as that one. -/
theorem StemsFrom.createdAt {parent own : Nat} {origin group : Group ν}
    (hdistinct : registry.Distinct) (hseparator : registry.scheme.separator.isDigit = false)
    (hrooted : registry.Rooted) (hopen : registry.closed = false)
    (horigin : registry.groups[parent]? = some origin) (hnormal : origin.kind = .normal)
    (hgroup : registry.groups[own]? = some group) (hslots : group.slots ≠ [])
    (habort : group.isAbortable = true) (h : registry.StemsFrom origin.key group) :
    group.createdAt = origin.createdAt := by
  cases hkind : group.kind with
  | normal =>
    rw [StemsFrom, hkind] at h
    obtain rfl := hdistinct.unique own parent group origin hgroup horigin hkind hnormal h
    rw [Option.some.inj (hgroup.symm.trans horigin)]
  | delayed =>
    rw [StemsFrom, hkind] at h
    obtain ⟨child, hkey⟩ := h
    obtain ⟨place, source, child', hsource, hsourceKind, hcreated, hsourceKey, -⟩ :=
      hrooted hopen own group hgroup hkind hslots habort
    obtain ⟨rfl, -⟩ := hdistinct.origin_inj hseparator hsource horigin hsourceKind hnormal
      (hsourceKey.symm.trans hkey)
    rw [← hcreated, Option.some.inj (hsource.symm.trans horigin)]

/-- A sweep leaves no unclaimed group registered that stems from one that is too old. -/
theorem Lapsed.spent {parent : Nat} {origin : Group ν} (h : Lapsed now registry later)
    (hrouted : registry.Routed) (hrooted : registry.Rooted) (hopen : registry.closed = false)
    (hdone : ∀ (id : Nat) (group : Group ν), registry.groups[id]? = some group →
      group.Coherent ∧ (group.stage = .done → group.claimed = true))
    (horigin : registry.groups[parent]? = some origin) (hnormal : origin.kind = .normal)
    (hold : registry.settings.abortWindow < origin.age now) : later.Spent origin.key := by
  intro own group hid hgroup hstems
  obtain ⟨kind, key, hfind⟩ := registered_iff.mp hid
  obtain ⟨hfind, hdue⟩ := (h.index kind key own).mp hfind
  rw [h.spared own fun hnot => by rw [hdue] at hnot; exact absurd hnot.2 nofun] at hgroup
  have hid : registry.Registered own := registered_iff.mpr ⟨kind, key, hfind⟩
  obtain ⟨same, hsame, hslots, hlive⟩ := hrouted.indexed.of_registered hid
  obtain rfl := Option.some.inj (hgroup.symm.trans hsame)
  obtain ⟨hcoherent, hclaimed⟩ := hdone own group hgroup
  by_contra hnot
  rw [Bool.not_eq_true] at hnot
  have hstage : group.stage ≠ .done := fun heq => by
    rw [hclaimed heq] at hnot
    contradiction
  have hcreated := StemsFrom.createdAt hrouted.distinct hrouted.separator hrooted hopen horigin
    hnormal hgroup hslots ((Group.isAbortable_iff hcoherent hlive).mpr ⟨hnot, hstage⟩)
    (hstems.congr (.refl group) h.scheme)
  rw [(h.due own group hid hgroup).mpr ⟨by rwa [Group.age, hcreated], hnot, hstage⟩] at hdue
  contradiction

/-- No slot of a group is moved once the groups with its slots were claimed. -/
theorem Spent.not_moved {parent child : String} (h : registry.Spent parent)
    (horderly : registry.Orderly) (hcoherent : ∀ (id : Nat) (group : Group ν),
      registry.groups[id]? = some group → group.Coherent) (hparent : KeyScheme.IsParent parent)
    {group : Group ν} {slot : Slot ν} (hleaving : (group, slot) ∈ registry.departures now) :
    slot.fullKey ≠ registry.scheme.fullKey parent child := by
  intro hkey
  obtain ⟨place, hplace, hheld, hslot, -⟩ := horderly.mem_departures_iff.mp hleaving
  have hclaimed := h place group (.inl ⟨_, horderly.listed place group hplace _ _ hheld⟩) hplace
    (horderly.routed.distinct.stemsFrom horderly.routed.separator hparent hplace hslot hkey)
  -- a group that is held back cannot have been claimed
  have hready := (hcoherent place group hplace).claim hclaimed
  rw [(Group.isHeldBack_iff.mp hheld).2.1] at hready
  cases hready <;> contradiction

/-- A group that a reservation makes is a normal one of that instant. -/
theorem born_of_reserve {child : String} {id : Nat} {born : Group ν}
    (hnone : registry.groups[id]? = none)
    (hborn : (registry.reserve now child).registry.groups[id]? = some born) :
    born.kind = .normal ∧ born.createdAt = now := by
  obtain ⟨-, heq⟩ | ⟨_, _, -, -, -, -, -, heq⟩ | ⟨own, old, changed, -, -, hold, -, heq⟩ |
    ⟨parent, changed, -, -, -, rfl, hreserve, heq⟩ | ⟨-, -, -, heq⟩ :=
    registry.reserve_cases now child
  · rw [heq, hnone] at hborn
    contradiction
  · rw [heq, hnone] at hborn
    contradiction
  · rw [heq] at hborn
    obtain ⟨rfl, -⟩ | ⟨-, hsame⟩ := getElem?_set_cases hborn
    · rw [hnone] at hold
      contradiction
    · rw [hnone] at hsame
      contradiction
  · rw [heq] at hborn
    change (registry.groups.push changed)[id]? = some born at hborn
    rw [Array.getElem?_push] at hborn
    split at hborn
    · rw [← Option.some.inj hborn]
      exact ⟨(Group.SameHead.reserve hreserve).kind, (Group.SameHead.reserve hreserve).createdAt⟩
    · rw [hnone] at hborn
      contradiction
  · rw [heq, hnone] at hborn
    contradiction

end Registry

namespace Committer

open Registry (Alike Lapsed)

variable {label : String} {settings : Settings} {scheme : KeyScheme}
  {slotBytes : Nat} {unstartable : Option (Sweeper × String)} {start : Committer ν ε}

/-- Delayed groups are only made by sweeps that move slots. -/
theorem relocate_of_made {committer : Committer ν ε} (action : Action ν ε) {own : Nat}
    {made : Group ν} (hnone : committer.registry.groups[own]? = none)
    (hmade : (committer.step action).registry.groups[own]? = some made)
    (hkind : made.kind = .delayed) :
    ∃ now, (committer.step action).registry = (committer.registry.relocate now).registry := by
  have hgrown : ¬ (committer.step action).registry.groups.size =
      committer.registry.groups.size := fun hsize => by
    have hlt := (Array.getElem?_eq_some_iff.mp hmade).1
    have hle := Array.getElem?_eq_none_iff.mp hnone
    omega
  have hsection := committer.step_section action
  cases hslots : action.leavesSlots with
  | true => exact absurd (committer.steady_step hslots).size hgrown
  | false =>
    generalize (committer.step action).registry = later at *
    cases hsection with
    | counted counters => exact absurd rfl hgrown
    | reserve now child =>
      rw [(Registry.born_of_reserve hnone hmade).1] at hkind
      contradiction
    | remove fullKey => exact absurd (Registry.shrunk_remove _ fullKey).size hgrown
    | relocate now => exact ⟨now, rfl⟩
    | _ => contradiction

/-- Once the groups with slots of a group were claimed, that stays so. -/
theorem spent_step (hstart : (launch label settings scheme slotBytes unstartable).1 = .ok start)
    (hseparator : scheme.separator.isDigit = false) (actions : List (Action ν ε))
    (action : Action ν ε)
    (hissued : (start.run (actions ++ [action])).registry.issued ≤ scheme.cycle) {parent : Nat}
    {origin : Group ν} (horigin : (start.run actions).registry.groups[parent]? = some origin)
    (hnormal : origin.kind = .normal) (h : (start.run actions).registry.Spent origin.key) :
    (start.run (actions ++ [action])).registry.Spent origin.key := by
  have hs : Staffed (start.run actions) := (Staffed.launch hstart).run actions
  have hindexed := indexed_of_launch hstart actions
  have hbefore := Nat.le_trans (issued_le_of_append hstart hseparator actions [action]) hissued
  have hscheme := (run_constant hstart actions).2
  have hdistinct := distinct_run hstart hseparator (actions ++ [action]) hissued
  have hlater := (run_constant hstart (actions ++ [action])).2
  have hmove := (start.run actions).move_step action hs.known
  rw [run_append] at hlater hdistinct ⊢
  change ((start.run actions).step action).registry.scheme = scheme at hlater
  intro own changed hid hchanged hstems
  change ((start.run actions).step action).registry.groups[own]? = some changed at hchanged
  cases hgroup : (start.run actions).registry.groups[own]? with
  | some group =>
    -- a group that was there was registered, and claimed
    obtain ⟨same, hsame, hnext⟩ := hs.next hmove hgroup
    obtain rfl := Option.some.inj (hsame.symm.trans hchanged)
    obtain hold | hnone := (hs.deed action).registered hindexed hid
    · exact hnext.claimed (h own group hold hgroup
        (hstems.congr hnext.sameHead (hlater.trans hscheme.symm)))
    · rw [hnone] at hgroup
      contradiction
  | none =>
    exfalso
    obtain ⟨later, hlaterOrigin, hhead⟩ := head_stays hs [action] horigin
    cases hkind : changed.kind with
    | normal =>
      -- no other normal group bears the key
      rw [Registry.StemsFrom, hkind] at hstems
      have hsame := hdistinct.unique own parent changed later hchanged hlaterOrigin hkind
        (by rw [hhead.kind, hnormal]) (by rw [hhead.key]; exact hstems)
      rw [hsame, horigin] at hgroup
      contradiction
    | delayed =>
      -- the slot would have held back a group that was claimed
      obtain ⟨now, heq⟩ := relocate_of_made action hgroup hchanged hkind
      cases hbroken : ((start.run actions).registry.relieved now).broken with
      | true =>
        -- a sweep that breaks down makes no groups
        have hsize := (Registry.shrunk_relocate hbroken).size
        have hlt := (Array.getElem?_eq_some_iff.mp hchanged).1
        have hle := Array.getElem?_eq_none_iff.mp hgroup
        rw [heq] at hlt
        omega
      | false =>
        have horderly := orderly_run hstart hseparator actions hbefore
        rw [heq, (horderly.relocate hbroken).made own (Array.getElem?_eq_none_iff.mp hgroup),
          Option.map_eq_some_iff] at hchanged
        obtain ⟨⟨group, slot⟩, hdeparture, rfl⟩ := hchanged
        have hleaving := List.mem_of_getElem? hdeparture
        rw [Registry.StemsFrom, hkind] at hstems
        obtain ⟨child, hkey⟩ := hstems
        change slot.fullKey =
          ((start.run actions).step action).registry.scheme.fullKey origin.key child at hkey
        rw [hlater, ← hscheme] at hkey
        refine h.not_moved horderly (fun id group hgroup => ?_)
          (horderly.routed.distinct.isParent_key horigin hnormal) hleaving hkey
        exact (hs.attended id group hgroup).coherent

theorem spent_run (hstart : (launch label settings scheme slotBytes unstartable).1 = .ok start)
    (hseparator : scheme.separator.isDigit = false) (actions more : List (Action ν ε))
    (hissued : (start.run (actions ++ more)).registry.issued ≤ scheme.cycle) {parent : Nat}
    {origin : Group ν} (horigin : (start.run actions).registry.groups[parent]? = some origin)
    (hnormal : origin.kind = .normal) (h : (start.run actions).registry.Spent origin.key) :
    (start.run (actions ++ more)).registry.Spent origin.key := by
  induction more using List.reverseRecOn with
  | nil => rwa [List.append_nil]
  | append_singleton more action ih =>
    rw [← List.append_assoc] at hissued ⊢
    have hspent := ih (Nat.le_trans (issued_le_of_append hstart hseparator _ [action]) hissued)
    obtain ⟨later, hlater, hhead⟩ := head_run hstart actions more horigin
    rw [← hhead.key] at hspent ⊢
    exact spent_step hstart hseparator _ action hissued hlater (by rw [hhead.kind, hnormal]) hspent

/-! ## Groups that are too old -/

/-- A reservation at an instant of the run opened a group, and a slot of this full key was in the
group at some time since. -/
def ReservedSince (start : Committer ν ε) (actions : List (Action ν ε)) (opened : Instant)
    (id : Nat) (fullKey : String) : Prop :=
  ∃ (before middle rest : List (Action ν ε)) (child : String),
    actions = before ++ .reserve opened child :: (middle ++ rest) ∧
    (start.run before).registry.groups[id]? = none ∧
    (start.run (before ++ [.reserve opened child])).registry.groups[id]? ≠ none ∧
    ∃ group, (start.run (before ++ .reserve opened child :: middle)).registry.groups[id]? =
      some group ∧ ∃ slot ∈ group.slots, slot.fullKey = fullKey

/-- The group is as old as the reservation, and its key is in the full key. -/
theorem ReservedSince.origin
    (hstart : (launch label settings scheme slotBytes unstartable).1 = .ok start)
    {actions : List (Action ν ε)} {opened : Instant} {id : Nat} {fullKey : String}
    (h : ReservedSince start actions opened id fullKey) :
    ∃ origin, (start.run actions).registry.groups[id]? = some origin ∧ origin.kind = .normal ∧
      origin.createdAt = opened ∧ ∃ child, fullKey = scheme.fullKey origin.key child := by
  obtain ⟨before, middle, rest, child, rfl, hnone, hsome, group, hgroup, slot, hslot, rfl⟩ := h
  obtain ⟨born, hborn⟩ := Option.ne_none_iff_exists'.mp hsome
  have hmade : born.kind = .normal ∧ born.createdAt = opened := by
    rw [run_append] at hborn
    exact Registry.born_of_reserve hnone hborn
  obtain ⟨same, hsame, hhead⟩ := head_run hstart _ middle hborn
  rw [List.append_assoc, List.singleton_append, hgroup] at hsame
  obtain rfl := Option.some.inj hsame
  obtain ⟨origin, horigin, hhead'⟩ := head_run hstart _ rest hgroup
  rw [List.append_assoc, List.cons_append] at horigin
  have hnamed := named_run hstart _ hgroup
  refine ⟨origin, horigin, by rw [hhead'.kind, hhead.kind, hmade.1],
    by rw [hhead'.createdAt, hhead.createdAt, hmade.2], slot.child, ?_⟩
  rw [hhead'.key]
  exact hnamed.children (by rw [hhead.kind, hmade.1]) _ (List.mem_map_of_mem hslot)

/-- What a sweep does to the registry of a reachable committer. -/
theorem lapsed_run (hstart : (launch label settings scheme slotBytes unstartable).1 = .ok start)
    (hseparator : scheme.separator.isDigit = false) (actions : List (Action ν ε))
    (hissued : (start.run actions).registry.issued ≤ scheme.cycle) (now : Instant)
    {other : Registry ν} (hother : (start.run actions).registry.Reordered other) :
    Lapsed now other (other.abortOld now).registry := by
  have hs : Staffed (start.run actions) := (Staffed.launch hstart).run actions
  refine Registry.lapsed_abortOld (hother.routed (routed_run hstart hseparator actions hissued))
    (hother.steered (steered_run hstart actions)) (fun id group hgroup => ?_) now
  rw [hother.groups_eq] at hgroup
  exact (hs.attended id group hgroup).coherent

/-- A sweep leaves no unclaimed group registered that stems from one that is too old. -/
theorem spent_of_sweep (hstart : (launch label settings scheme slotBytes unstartable).1 = .ok start)
    (hseparator : scheme.separator.isDigit = false) (actions : List (Action ν ε)) (now : Instant)
    (hissued : (start.run (actions ++ [.sweep .abort now])).registry.issued ≤ scheme.cycle)
    {parent : Nat} {origin : Group ν}
    (horigin : (start.run actions).registry.groups[parent]? = some origin)
    (hnormal : origin.kind = .normal) (hold : settings.abortWindow < origin.age now) :
    (start.run (actions ++ [.sweep .abort now])).registry.Spent origin.key := by
  have hs : Staffed (start.run actions) := (Staffed.launch hstart).run actions
  have hbefore := Nat.le_trans (issued_le_of_append hstart hseparator actions _) hissued
  have hlapsed := lapsed_run hstart hseparator actions hbefore now (Alike.refl _)
  cases hclosed : (start.run actions).registry.closed with
  | true =>
    intro own group hid
    have hshut := shut_of_closed hstart (actions ++ [.sweep .abort now]) (by
      rw [run_append]
      exact hlapsed.closed.trans hclosed)
    obtain ⟨kind, key, hfind⟩ := Registry.registered_iff.mp hid
    rw [hshut.find?_index] at hfind
    contradiction
  | false =>
    rw [run_append]
    refine hlapsed.spent (routed_run hstart hseparator actions hbefore)
      (rooted_run hstart hseparator actions hbefore) hclosed (fun id group hgroup => ?_) horigin
      hnormal (by rwa [(run_constant hstart actions).1])
    exact ⟨(hs.attended id group hgroup).coherent, (hs.attended id group hgroup).done⟩

/-- In whatever order a sweep that aborts groups goes through the indexes of a reachable registry:
it has done what `Registry.Lapsed` says, and it leaves the same registry as in any other order.

After a sweep that is later than the abort window from the opening of a group, every registered
group with a slot that was reserved in it, moved or not, was claimed. -/
theorem abortion_in_any_order
    (hstart : (launch label settings scheme slotBytes unstartable).1 = .ok start)
    (hseparator : scheme.separator.isDigit = false) (actions : List (Action ν ε))
    (hissued : (start.run actions).registry.issued ≤ scheme.cycle) :
    (∀ (now : Instant) (other : Registry ν), (start.run actions).registry.Reordered other →
      Lapsed now other (other.abortOld now).registry ∧
        ((start.run actions).registry.abortOld now).registry.Reordered
          (other.abortOld now).registry) ∧
    ∀ (earlier later : List (Action ν ε)) (now opened : Instant) (id : Nat) (fullKey : String),
      actions = earlier ++ .sweep .abort now :: later →
      ReservedSince start earlier opened id fullKey →
      settings.abortWindow < elapsed now opened →
      ∀ (own : Nat) (holder : Group ν), (start.run actions).registry.Registered own →
        (start.run actions).registry.groups[own]? = some holder →
        (∃ slot ∈ holder.slots, slot.fullKey = fullKey) → holder.claimed = true := by
  constructor
  · intro now other hother
    have hlapsed := lapsed_run hstart hseparator actions hissued now (Alike.refl _)
    have hlapsed' := lapsed_run hstart hseparator actions hissued now hother
    exact ⟨hlapsed', hlapsed.reordered (indexed_of_launch hstart actions) hother hlapsed'⟩
  · rintro earlier later now opened id fullKey rfl hreserved hold own holder hid hholder
      ⟨slot, hslot, hkey⟩
    obtain ⟨origin, horigin, hnormal, rfl, child, rfl⟩ := hreserved.origin hstart
    rw [List.append_cons] at hissued hid hholder
    have hswept := Nat.le_trans (issued_le_of_append hstart hseparator _ later) hissued
    obtain ⟨between, hbetween, hhead⟩ :=
      head_stays ((Staffed.launch hstart).run earlier) [.sweep .abort now] horigin
    rw [← run_append] at hbetween
    have hspent := spent_of_sweep hstart hseparator earlier now hswept horigin hnormal hold
    rw [← hhead.key] at hspent hkey
    have hdistinct := distinct_run hstart hseparator _ hissued
    have hscheme := (run_constant hstart (earlier ++ [.sweep .abort now] ++ later)).2
    rw [← hscheme] at hkey
    refine spent_run hstart hseparator _ later hissued hbetween (by rw [hhead.kind, hnormal]) hspent
      own holder hid hholder (hdistinct.stemsFrom (by rw [hscheme, hseparator]) ?_ hholder hslot
        hkey)
    exact (distinct_run hstart hseparator _ hswept).isParent_key hbetween
      (by rw [hhead.kind, hnormal])

/-- Two groups that are held back are aborted together at 100 s, in either order. A slot that was
moved out of its group at 5 s goes with it, but for a claim on what is left. -/
theorem abortion_of_stragglers :
    ((launch "pairs" { Settings.default with slotCapacity := 2 } {} 72 none).1 = .ok pairs ∧
      ({} : KeyScheme).separator.isDigit = false ∧
      (pairs.run stragglers).registry.issued ≤ ({} : KeyScheme).cycle ∧
      (pairs.run (straggler ++ [.sweep .abort 100000])).registry.issued ≤
        ({} : KeyScheme).cycle) ∧
    ((pairs.run stragglers).registry.abortOld 100000).registry.Reordered
      (backwards.abortOld 100000).registry ∧
    (backwards.abortOld 100000).registry.counters.groupsAborted = 2 ∧
    ReservedSince pairs straggler 0 0 "0000:a" ∧
    (pairs.run (straggler ++ [.sweep .abort 100000])).registry.delayed.find? "0000:b" = none ∧
    (pairs.run (straggler ++ [.sweep .abort 100000])).registry.normal.find? "0000" = some 0 ∧
    ∃ holder, (pairs.run (straggler ++ [.sweep .abort 100000])).registry.groups[0]? = some holder ∧
      holder.claimed = true := by
  have hstart : (launch "pairs" { Settings.default with slotCapacity := 2 } {} 72 none).1 =
      .ok pairs := rfl
  have hseparator : ({} : KeyScheme).separator.isDigit = false := by decide
  have hissued : (pairs.run stragglers).registry.issued ≤ ({} : KeyScheme).cycle := by
    decide +kernel
  have hissued' : (pairs.run (straggler ++ [.sweep .abort 100000])).registry.issued ≤
      ({} : KeyScheme).cycle := by decide +kernel
  have hreserved : ReservedSince pairs straggler 0 0 "0000:a" :=
    ⟨[], [], straggler.tail, "a", rfl, rfl, nofun, _, rfl, _, List.mem_cons_self, rfl⟩
  have hfind : (pairs.run (straggler ++ [.sweep .abort 100000])).registry.normal.find? "0000" =
      some 0 := by decide +kernel
  refine ⟨⟨hstart, hseparator, hissued, hissued'⟩, ?_, by decide +kernel, hreserved,
    by decide +kernel, hfind, _, rfl, ?_⟩
  · exact ((abortion_in_any_order hstart hseparator stragglers hissued).1 100000 backwards
      reordered_backwards).2
  · exact (abortion_in_any_order hstart hseparator _ hissued').2 straggler [] 100000 0 0 "0000:a"
      rfl hreserved (by decide) 0 _ (.inl ⟨_, hfind⟩) rfl ⟨_, List.mem_cons_self, rfl⟩

end Committer

end BatchedCommit
