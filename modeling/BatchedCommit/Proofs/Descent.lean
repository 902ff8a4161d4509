import BatchedCommit.Proofs.Enrolment
import BatchedCommit.Proofs.Outcomes
import BatchedCommit.Proofs.Routing

/-!
# BatchedCommit.Proofs.Descent

Where slots come from. In every step but a reservation each group *descends* from one that was
there (`Registry.Deed.descends`): each of its slots is a slot of that one, whose value had not
arrived if it has not arrived now, and the group is live only if that one was. So a live group
misses a value only since the reservation of the slot (`Registry.Misses`), until the value is
stored.
-/

namespace BatchedCommit

variable {ν ε : Type}

namespace Slot

/-- One slot at two moments: the value did not go missing in between. -/
structure Precedes (old slot : Slot ν) : Prop where
  names : old.names = slot.names
  awaited : slot.isReady = false → old.isReady = false

namespace Precedes

variable {old slot : Slot ν}

theorem refl (slot : Slot ν) : Precedes slot slot := ⟨rfl, id⟩

theorem trans {middle : Slot ν} (h : Precedes old middle) (h' : Precedes middle slot) :
    Precedes old slot := ⟨h.names.trans h'.names, h.awaited ∘ h'.awaited⟩

theorem child (h : Precedes old slot) : old.child = slot.child := congrArg Prod.fst h.names

theorem fullKey (h : Precedes old slot) : old.fullKey = slot.fullKey := congrArg Prod.snd h.names

theorem handOver (slot : Slot ν) : Precedes slot slot.handOver :=
  ⟨slot.names_handOver.symm, fun h => slot.handOver_isReady ▸ h⟩

end Precedes

end Slot

namespace Group

variable {group changed : Group ν}

/-- A group is made of slots of an earlier one, and is live only if that one was. -/
structure Descends (group changed : Group ν) : Prop where
  live : changed.stage.isTerminal = false → group.stage.isTerminal = false
  slots : ∀ slot ∈ changed.slots, ∃ old ∈ group.slots, old.Precedes slot

namespace Descends

theorem of_slots (hlive : changed.stage.isTerminal = false → group.stage.isTerminal = false)
    (hslots : changed.slots ⊆ group.slots) : Descends group changed where
  live := hlive
  slots := fun slot hslot => ⟨slot, hslots hslot, .refl slot⟩

theorem refl (group : Group ν) : Descends group group := .of_slots id (List.Subset.refl _)

theorem trans {middle : Group ν} (h : Descends group middle) (h' : Descends middle changed) :
    Descends group changed where
  live := h.live ∘ h'.live
  slots := fun slot hslot => by
    obtain ⟨between, hbetween, hlast⟩ := h'.slots slot hslot
    obtain ⟨old, hold, hfirst⟩ := h.slots between hbetween
    exact ⟨old, hold, hfirst.trans hlast⟩

theorem markReady (group : Group ν) : Descends group group.markReady := by
  refine .of_slots (fun h => ?_) (by rw [markReady_slots]; exact List.Subset.refl _)
  rwa [Registry.Enrolled.isTerminal_markReady] at h

theorem fixSize (group : Group ν) (now : Instant) : Descends group (group.fixSize now) := by
  rw [Group.fixSize]
  split
  · next hopen => exact .of_slots (fun _ => by rw [hopen]; rfl) (List.Subset.refl _)
  · exact .refl group

theorem put {fullKey : String} {value : ν} (h : group.put fullKey value = .ok changed) :
    Descends group changed := by
  obtain ⟨hlive, before, slot, after, hslots, -, -, hready, rfl⟩ := put_eq_ok h
  refine ⟨fun _ => hlive, fun new hnew => ?_⟩
  rw [hslots]
  rcases List.mem_append.mp hnew with hbefore | hrest
  · exact ⟨new, List.mem_append_left _ hbefore, .refl new⟩
  · rcases List.mem_cons.mp hrest with rfl | hafter
    · exact ⟨slot, List.mem_append_right _ List.mem_cons_self, rfl, fun _ => hready⟩
    · exact ⟨new, List.mem_append_right _ (List.mem_cons_of_mem _ hafter), .refl new⟩

theorem remove {fullKey : String} (h : group.remove fullKey = .ok changed) :
    Descends group changed := by
  obtain ⟨-, before, slot, after, hslots, -, -, -, rfl⟩ := remove_eq_ok h
  refine .of_slots id fun new hnew => ?_
  rw [hslots]
  exact List.mem_append.mpr ((List.mem_append.mp hnew).imp id (List.mem_cons_of_mem _))

theorem leftBehind (scheme : KeyScheme) (group : Group ν) :
    Descends group (group.leftBehind scheme) := by
  have hrest : Descends group { group with slots := group.slots.filter (·.isReady) } :=
    .of_slots id fun _ hslot => (List.mem_filter.mp hslot).1
  rw [Group.leftBehind]
  split
  · exact hrest.trans (.markReady _)
  · exact hrest

theorem claim? {values : List ν} (h : group.claim? = some (values, changed)) :
    Descends group changed := by
  obtain ⟨hstage, -, -, rfl⟩ := claim?_eq_some h
  refine ⟨id, fun new hnew => ?_⟩
  obtain ⟨slot, hslot, rfl⟩ := List.mem_map.mp hnew
  exact ⟨slot, hslot, .handOver slot⟩

theorem finish (group : Group ν) (verdict : Verdict) : Descends group (group.finish verdict) :=
  .of_slots (fun h => by contradiction) (List.Subset.refl _)

theorem abort (group : Group ν) (reason : Failure) : Descends group (group.abort reason) := by
  rw [Group.abort]
  split
  · exact .of_slots (fun h => by contradiction) (List.Subset.refl _)
  · exact .refl group

/-- A delayed group descends from the one whose slot it was made for. -/
theorem delayedFor (scheme : KeyScheme) (now : Instant) {slot : Slot ν}
    (hlive : group.stage.isTerminal = false) (hslot : slot ∈ group.slots) :
    Descends group (Registry.delayedFor scheme now group slot) :=
  .of_slots (fun _ => hlive) (List.cons_subset.mpr ⟨hslot, List.nil_subset _⟩)

end Descends

end Group

namespace Registry

variable {registry middle later : Registry ν}

/-! ## Steps in which every group descends from an earlier one -/

/-- Every group of a later registry descends from one of an earlier registry. -/
def Descends (registry later : Registry ν) : Prop :=
  ∀ (id : Nat) (changed : Group ν), later.groups[id]? = some changed →
    ∃ (place : Nat) (group : Group ν), registry.groups[place]? = some group ∧
      group.Descends changed

namespace Descends

theorem same (hgroups : later.groups = registry.groups) : Descends registry later :=
  fun id group hgroup => ⟨id, group, hgroups ▸ hgroup, .refl group⟩

theorem trans (h : Descends registry middle) (h' : Descends middle later) :
    Descends registry later := fun id changed hchanged => by
  obtain ⟨between, group, hgroup, hlast⟩ := h' id changed hchanged
  obtain ⟨place, old, hold, hfirst⟩ := h between group hgroup
  exact ⟨place, old, hold, hfirst.trans hlast⟩

theorem set {own : Nat} {old new : Group ν} (hold : registry.groups[own]? = some old)
    (hdescends : old.Descends new)
    (hgroups : later.groups = registry.groups.setIfInBounds own new) :
    Descends registry later := fun id changed hchanged => by
  rw [hgroups] at hchanged
  obtain ⟨rfl, rfl⟩ | ⟨-, hsame⟩ := getElem?_set_cases hchanged
  · exact ⟨id, old, hold, hdescends⟩
  · exact ⟨id, changed, hsame, .refl changed⟩

theorem grow {own : Nat} {source : Group ν} {made : List (Group ν)}
    (hsource : registry.groups[own]? = some source)
    (hmade : ∀ new ∈ made, source.Descends new)
    (hgroups : later.groups = registry.groups ++ made.toArray) : Descends registry later :=
  fun id changed hchanged => by
    rw [hgroups, Array.getElem?_append] at hchanged
    split at hchanged
    · exact ⟨id, changed, hchanged, .refl changed⟩
    · rw [List.getElem?_toArray] at hchanged
      exact ⟨own, source, hsource, hmade changed (List.mem_of_getElem? hchanged)⟩

end Descends

theorem descends_remove (registry : Registry ν) (fullKey : String) :
    Descends registry (registry.remove fullKey).registry := by
  obtain ⟨failure, heq⟩ | ⟨own, group, changed, -, -, hgroup, hremove, -, heq⟩ |
    ⟨own, group, changed, -, -, hgroup, hremove, -, heq⟩ := registry.remove_cases fullKey
  · rw [heq]
    exact .same rfl
  · rw [heq]
    exact .set hgroup (.remove hremove) (unregister_groups _ _ _ _)
  · rw [heq]
    exact .set hgroup ((Group.Descends.remove hremove).trans (.markReady _)) rfl

theorem descends_store (registry : Registry ν) (fullKey : String) (value : ν) :
    Descends registry (registry.store fullKey value).registry := by
  obtain ⟨failure, heq⟩ | ⟨own, group, changed, -, -, hgroup, hput, heq⟩ :=
    registry.store_cases fullKey value
  · rw [heq]
    exact .same rfl
  · rw [heq]
    exact .set hgroup ((Group.Descends.put hput).trans (.markReady _)) rfl

theorem descends_fixSizes (registry : Registry ν) (now : Instant) :
    Descends registry (registry.fixSizes now).registry := by
  refine foldl_keep (P := fun state : Section ν Unit => Descends registry state.registry) _
    (fun state own _ hstate => hstate.trans ?_) (.same rfl)
  obtain heq | ⟨group, hgroup, -, -, heq⟩ := fixSizeOf_cases now state own
  · rw [heq]
    exact .same rfl
  · rw [heq]
    exact .set hgroup ((Group.Descends.fixSize group now).trans (.markReady _)) rfl

/-- The slots that are moved were slots of a live group. -/
theorem descends_relieve (now : Instant) (sweep : Relocation ν) (own : Nat) :
    Descends sweep.state.registry (Relocation.relieve now sweep own).state.registry := by
  obtain ⟨heq, -⟩ | ⟨group, -, hgroup, hheld, -, heq⟩ := relieve_cases now sweep own
  · rw [heq]
    exact .same rfl
  · let made := (group.movable sweep.state.registry.scheme).map
      (delayedFor sweep.state.registry.scheme now group)
    have hlive : group.stage.isTerminal = false := by
      rw [(Group.isHeldBack_iff.mp hheld).2.1]
      rfl
    have hgrown : Descends sweep.state.registry { sweep.state.registry with
        groups := sweep.state.registry.groups ++ made.toArray } := by
      refine .grow hgroup (fun new hnew => ?_) rfl
      obtain ⟨slot, hslot, rfl⟩ := List.mem_map.mp hnew
      exact .delayedFor _ now hlive (Group.of_mem_movable hslot).1
    have hlt : own < sweep.state.registry.groups.size := (Array.getElem?_eq_some_iff.mp hgroup).1
    have hstill : (sweep.state.registry.groups ++ made.toArray)[own]? = some group := by
      rwa [Array.getElem?_append_left hlt]
    rw [heq]
    refine hgrown.trans (.set hstill (.leftBehind sweep.state.registry.scheme group) ?_)
    simp only [Relocation.afterRelief]
    rw [Array.setIfInBounds_append_left hlt]

theorem descends_relocate (registry : Registry ν) (now : Instant) :
    Descends registry (registry.relocate now).registry := by
  cases hbroken : (registry.relieved now).broken with
  | true =>
    obtain ⟨groups, count, hsize, hspares, heq⟩ := relocate_registry_of_broken hbroken
    rw [heq]
    intro id changed hchanged
    obtain ⟨group, hgroup, rfl | ⟨-, rfl⟩⟩ := hspares.before hsize hchanged
    · exact ⟨id, changed, hgroup, .refl changed⟩
    · exact ⟨id, group, hgroup, .leftBehind _ group⟩
  | false =>
    have hsweep : Descends registry (registry.relieved now).state.registry :=
      foldl_keep (P := fun sweep : Relocation ν => Descends registry sweep.state.registry) _
        (fun sweep own _ h => h.trans (descends_relieve now sweep own)) (.same rfl)
    rw [relocate_of_not_broken hbroken]
    exact hsweep.trans (.same rfl)

theorem descends_strikes (now : Instant) (kind : GroupKind) (entries : List (String × Nat))
    (sweep : Abortion ν) : Descends sweep.state.registry
      (entries.foldl (Abortion.strike now kind) sweep).state.registry := by
  refine foldl_keep
    (P := fun other : Abortion ν => Descends sweep.state.registry other.state.registry) _
    (fun other entry _ hother => hother.trans ?_) (.same rfl)
  obtain heq | ⟨group, hgroup, -, -, heq⟩ := strike_cases now kind other entry.1 entry.2
  · rw [heq]
    exact .same rfl
  · rw [heq]
    exact .set hgroup (.abort group _) rfl

theorem descends_abortOld (registry : Registry ν) (now : Instant) :
    Descends registry (registry.abortOld now).registry := by
  have hnormal := descends_strikes now .normal (registry.purge now).normal.entries
    { state := { answer := (), registry := registry.purge now } }
  have hdelayed := hnormal.trans
    (descends_strikes now .delayed (registry.purge now).delayed.entries _)
  exact hdelayed.trans (.same (foldl_bury_same now _ _).1)

theorem descends_close (registry : Registry ν) : Descends registry registry.close.registry := by
  refine foldl_keep (P := fun state : Section ν Unit => Descends registry state.registry) _
    (fun state own _ hstate => hstate.trans ?_) (.same rfl)
  obtain heq | ⟨group, hgroup, -, heq⟩ := abandon_cases state own
  · rw [heq]
    exact .same rfl
  · rw [heq]
    exact .set hgroup (.abort group _) rfl

/-- In every step but a reservation every group descends from one that was there. -/
theorem Deed.descends {action : Action ν ε} (h : Deed registry action later)
    (hnot : ∀ now child, action ≠ .reserve now child) : Descends registry later := by
  cases h with
  | counted counters => exact .same rfl
  | reserve now child => exact absurd rfl (hnot now child)
  | store fullKey value => exact descends_store registry fullKey value
  | remove fullKey => exact descends_remove registry fullKey
  | close counters hopen => exact (descends_close registry).trans (.same rfl)
  | fixSizes now => exact descends_fixSizes registry now
  | relocate now => exact descends_relocate registry now
  | abortOld now => exact descends_abortOld registry now
  | claim hgroup hclaim => exact .set hgroup (.claim? hclaim) rfl
  | finish verdict hgroup _ _ => exact .set hgroup (.finish _ verdict) rfl
  | retire hgroup _ => exact .same (unregister_groups _ _ _ _)

/-! ## Child keys in use, and values that are missing -/

/-- Some group has a slot of this child key. -/
def Uses (registry : Registry ν) (child : String) : Prop :=
  ∃ (id : Nat) (group : Group ν), registry.groups[id]? = some group ∧
    ∃ slot ∈ group.slots, slot.child = child

/-- Some live group has a slot of this full key whose value has not arrived. -/
def Misses (registry : Registry ν) (fullKey : String) : Prop :=
  ∃ (id : Nat) (group : Group ν), registry.groups[id]? = some group ∧
    group.stage.isTerminal = false ∧
      ∃ slot ∈ group.slots, slot.fullKey = fullKey ∧ slot.isReady = false

theorem Descends.uses (h : Descends registry later) {child : String} (huses : later.Uses child) :
    registry.Uses child := by
  obtain ⟨id, changed, hchanged, slot, hslot, hchild⟩ := huses
  obtain ⟨place, group, hgroup, hdescends⟩ := h id changed hchanged
  obtain ⟨old, hold, hprecedes⟩ := hdescends.slots slot hslot
  exact ⟨place, group, hgroup, old, hold, hprecedes.child.trans hchild⟩

theorem Descends.misses (h : Descends registry later) {fullKey : String}
    (hmisses : later.Misses fullKey) : registry.Misses fullKey := by
  obtain ⟨id, changed, hchanged, hlive, slot, hslot, hkey, hready⟩ := hmisses
  obtain ⟨place, group, hgroup, hdescends⟩ := h id changed hchanged
  obtain ⟨old, hold, hprecedes⟩ := hdescends.slots slot hslot
  exact ⟨place, group, hgroup, hdescends.live hlive, old, hold, hprecedes.fullKey.trans hkey,
    hprecedes.awaited hready⟩

/-- A reservation adds one slot, to a group that is open. -/
theorem Placed.slot_cases {capacity : Nat} {child fullKey : String}
    (h : registry.Placed later capacity child fullKey) {id : Nat} {changed : Group ν}
    (hchanged : later.groups[id]? = some changed) {slot : Slot ν} (hslot : slot ∈ changed.slots) :
    slot = Slot.reserved child fullKey ∨ ∃ group, registry.groups[id]? = some group ∧
      slot ∈ group.slots ∧ (changed.stage.isTerminal = false → group.stage.isTerminal = false) := by
  cases h with
  | @joined own group new hcurrent hgroup hopen hnew hslots hothers =>
    by_cases hid : id = own
    · subst hid
      obtain rfl := Option.some.inj (hnew.symm.trans hchanged)
      rw [hslots, List.mem_append, List.mem_singleton] at hslot
      exact hslot.symm.imp_right fun hold => ⟨group, hgroup, hold, fun _ => by rw [hopen]; rfl⟩
    · exact .inr ⟨changed, hothers id hid ▸ hchanged, hslot, fun h => h⟩
  | @founded own new hnone hfresh hnew hkey hslots hothers =>
    by_cases hid : id = own
    · subst hid
      obtain rfl := Option.some.inj (hnew.symm.trans hchanged)
      rw [hslots, List.mem_singleton] at hslot
      exact .inl hslot
    · exact .inr ⟨changed, hothers id hid ▸ hchanged, hslot, fun h => h⟩

theorem Placed.uses {capacity : Nat} {child fullKey other : String}
    (h : registry.Placed later capacity child fullKey) (huses : later.Uses other) :
    other = child ∨ registry.Uses other := by
  obtain ⟨id, changed, hchanged, slot, hslot, hchild⟩ := huses
  obtain rfl | ⟨group, hgroup, hold, -⟩ := h.slot_cases hchanged hslot
  · exact .inl hchild.symm
  · exact .inr ⟨id, group, hgroup, slot, hold, hchild⟩

theorem Placed.misses {capacity : Nat} {child fullKey other : String}
    (h : registry.Placed later capacity child fullKey) (hmisses : later.Misses other) :
    other = fullKey ∨ registry.Misses other := by
  obtain ⟨id, changed, hchanged, hlive, slot, hslot, hkey, hready⟩ := hmisses
  obtain rfl | ⟨group, hgroup, hold, hlive'⟩ := h.slot_cases hchanged hslot
  · exact .inl hkey.symm
  · exact .inr ⟨id, group, hgroup, hlive' hlive, slot, hold, hkey, hready⟩

end Registry

/-! ## Storing a value that is missing -/

namespace Group

/-- The value of a slot that is missing can be put in, if no other slot bears its key. -/
theorem putIn_of_missing {fullKey : String} (value : ν) {slots : List (Slot ν)}
    (hnodup : (slots.map Slot.fullKey).Nodup) {slot : Slot ν} (hslot : slot ∈ slots)
    (hkey : slot.fullKey = fullKey) (hready : slot.isReady = false) :
    ∃ put, putIn fullKey value slots = .ok put := by
  induction slots with
  | nil => contradiction
  | cons first rest ih =>
    rw [List.map_cons, List.nodup_cons] at hnodup
    rw [putIn]
    rcases List.mem_cons.mp hslot with rfl | hrest
    · rw [if_pos hkey, Slot.put, hready]
      exact ⟨_, rfl⟩
    · have hne : first.fullKey ≠ fullKey := fun hfirst =>
        hnodup.1 (hfirst.trans hkey.symm ▸ List.mem_map_of_mem hrest)
      obtain ⟨put, hput⟩ := ih hnodup.2 hrest
      rw [if_neg hne, hput]
      exact ⟨_, rfl⟩

theorem put_of_missing {group : Group ν} {fullKey : String} (value : ν)
    (hnodup : (group.slots.map Slot.fullKey).Nodup) (hlive : group.stage.isTerminal = false)
    {slot : Slot ν} (hslot : slot ∈ group.slots) (hkey : slot.fullKey = fullKey)
    (hready : slot.isReady = false) : ∃ changed, group.put fullKey value = .ok changed := by
  obtain ⟨put, hput⟩ := putIn_of_missing value hnodup hslot hkey hready
  refine ⟨{ group with slots := put }, ?_⟩
  rw [Group.put]
  cases hstage : group.stage <;> simp_all [Stage.isTerminal, Except.map]

end Group

namespace Committer

variable {label : String} {settings : Settings} {scheme : KeyScheme}
  {slotBytes : Nat} {unstartable : Option (Sweeper × String)} {start : Committer ν ε}

/-- A value that is missing is accepted. -/
theorem store_of_misses
    (hstart : (launch label settings scheme slotBytes unstartable).1 = .ok start)
    (hseparator : scheme.separator.isDigit = false) (actions : List (Action ν ε))
    (hissued : (start.run actions).registry.issued ≤ scheme.cycle)
    (hopen : (start.run actions).registry.closed = false) {fullKey : String} (value : ν)
    (h : (start.run actions).registry.Misses fullKey) :
    ∃ n, ((start.run actions).store fullKey value).1 = .ok n := by
  obtain ⟨id, group, hgroup, hlive, slot, hslot, rfl, hready⟩ := h
  have hregistered := Registry.registered_iff.mpr ⟨_, _, enrolled_run hstart hseparator actions
    hissued hopen id group hgroup (List.ne_nil_of_mem hslot) hlive⟩
  have hfind := (routed_run hstart hseparator actions hissued).find_slot hregistered hgroup hslot
  obtain ⟨changed, hput⟩ := Group.put_of_missing value
    (named_run hstart actions hgroup).nodup_keys hlive hslot rfl hready
  refine ⟨(start.run actions).callers.size, ?_⟩
  simp only [store, Registry.store, hopen, Registry.lookup, hfind, hgroup, hput]
  rfl

/-- A value that has arrived is not missing any more. -/
theorem not_misses_of_caller
    (hstart : (launch label settings scheme slotBytes unstartable).1 = .ok start)
    (hseparator : scheme.separator.isDigit = false) (actions : List (Action ν ε))
    (hissued : (start.run actions).registry.issued ≤ scheme.cycle) {n : Nat} {caller : Caller ν}
    (hcaller : (start.run actions).callers[n]? = some caller) :
    ¬ (start.run actions).registry.Misses caller.fullKey := by
  rintro ⟨id, group, hgroup, -, slot, hslot, hkey, hready⟩
  have hs : Staffed (start.run actions) := (Staffed.launch hstart).run actions
  have hown := Array.getElem?_eq_getElem (hs.known n caller hcaller)
  obtain ⟨other, hother, hkey', hready'⟩ := (hs.attended _ _ hown).seated n caller hcaller rfl
  obtain rfl := (distinct_run hstart hseparator actions hissued).slot_inj hgroup hown hslot hother
    (hkey.trans hkey'.symm)
  obtain rfl := Option.some.inj (hgroup.symm.trans hown)
  obtain rfl := List.inj_on_of_nodup_map (named_run hstart actions hgroup).nodup_keys hslot hother
    (hkey.trans hkey'.symm)
  exact Bool.false_ne_true (hready.symm.trans hready')

end Committer

end BatchedCommit
