import BatchedCommit.Proofs.Steady

/-!
# BatchedCommit.Proofs.History

The slots of a normal group are those that its history leaves in it: what was reserved there,
less what was removed and what was moved out, in the order of reservation
(`Committer.keys_of_normal`). The history is read off the actions and their answers
(`Committer.kept`), so it says what is emitted without looking into any group.
-/

namespace BatchedCommit

variable {ν ε : Type}

namespace Registry

/-- The full keys of the slots of a group, in the order of their reservation. -/
def keysOf (registry : Registry ν) (id : Nat) : List String :=
  match registry.groups[id]? with
  | some group => group.slots.map Slot.fullKey
  | none => []

/-- The full keys of the slots that a sweep at this time moves out of a group. -/
def lagging (registry : Registry ν) (now : Instant) (id : Nat) : List String :=
  if id ∈ registry.normal.entries.map Prod.snd then
    match registry.groups[id]? with
    | some group =>
      (group.extractLagging now registry.settings.relocateWindow).1.map Slot.fullKey
    | none => []
  else []

end Registry

namespace Committer

/-- What an action leaves of the full keys that were kept in a group: a successful reservation
in the group adds one, a successful removal from it takes one out, and a sweep takes out those
of the slots that it moves. -/
def keep (committer : Committer ν ε) (id : Nat) (keys : List String) :
    Action ν ε → List String
  | .reserve now child =>
    match (committer.reserve now child).1 with
    | some (.ok fullKey) =>
      if (committer.registry.openGroup now).1.map Prod.fst = some id then keys ++ [fullKey]
      else keys
    | _ => keys
  | .remove fullKey =>
    match (committer.remove fullKey).1, committer.registry.find fullKey with
    | .ok (), .ok found => if found = id then keys.erase fullKey else keys
    | _, _ => keys
  | .sweep .relocate now =>
    if committer.relocating then
      keys.filter fun key => !(committer.registry.lagging now id).contains key
    else keys
  | _ => keys

/-- The full keys that a list of actions leaves in a group. -/
def kept (committer : Committer ν ε) (id : Nat) : List (Action ν ε) → List String → List String
  | [], keys => keys
  | action :: actions, keys =>
    (committer.step action).kept id actions (committer.keep id keys action)

theorem kept_append (committer : Committer ν ε) (id : Nat) (first second : List (Action ν ε))
    (keys : List String) : committer.kept id (first ++ second) keys =
      (committer.run first).kept id second (committer.kept id first keys) := by
  induction first generalizing committer keys with
  | nil => rfl
  | cons action rest ih => rw [List.cons_append, kept, ih, kept, run_cons]

end Committer

/-! ## What a section leaves of the keys -/

namespace Registry

variable {registry later : Registry ν}

theorem keysOf_eq {id : Nat} {group : Group ν} (h : registry.groups[id]? = some group) :
    registry.keysOf id = group.slots.map Slot.fullKey := by
  rw [keysOf, h]

theorem keysOf_none {id : Nat} (h : registry.groups[id]? = none) : registry.keysOf id = [] := by
  rw [keysOf, h]

theorem keysOf_set {own : Nat} {old new : Group ν} (hold : registry.groups[own]? = some old)
    (hgroups : later.groups = registry.groups.setIfInBounds own new) (id : Nat) :
    later.keysOf id = if own = id then new.slots.map Slot.fullKey else registry.keysOf id := by
  have hlt : own < registry.groups.size := (Array.getElem?_eq_some_iff.mp hold).1
  by_cases heq : own = id
  · subst heq
    rw [if_pos rfl]
    refine keysOf_eq ?_
    rw [hgroups]
    exact Array.getElem?_setIfInBounds_self_of_lt hlt
  · rw [if_neg heq, keysOf, keysOf, hgroups, Array.getElem?_setIfInBounds_ne heq]

/-- A section that leaves the slots in place leaves the keys. -/
theorem Steady.keysOf (h : Steady registry later) (id : Nat) :
    later.keysOf id = registry.keysOf id := by
  cases hgroup : registry.groups[id]? with
  | none =>
    have hnone : later.groups[id]? = none := by
      rw [Array.getElem?_eq_none_iff] at hgroup ⊢
      rw [h.size]
      exact hgroup
    rw [keysOf_none hgroup, keysOf_none hnone]
  | some group =>
    have hlt : id < later.groups.size := by
      rw [h.size]
      exact (Array.getElem?_eq_some_iff.mp hgroup).1
    have hchanged := Array.getElem?_eq_getElem hlt
    rw [keysOf_eq hgroup, keysOf_eq hchanged, ← Group.keys_of_names, ← Group.keys_of_names,
      (h.kept id group _ hgroup hchanged).names]

theorem keysOf_reserve (registry : Registry ν) (now : Instant) (child : String) (id : Nat) :
    (registry.reserve now child).registry.keysOf id =
      match (registry.reserve now child).answer with
      | some (.ok fullKey) =>
        if (registry.openGroup now).1.map Prod.fst = some id then registry.keysOf id ++ [fullKey]
        else registry.keysOf id
      | _ => registry.keysOf id := by
  obtain ⟨-, heq⟩ | ⟨_, _, -, -, -, -, -, heq⟩ | ⟨own, group, changed, -, hcurrent, hgroup,
    hreserve, heq⟩ | ⟨parent, changed, -, hnone, hroom, rfl, hreserve, heq⟩ |
    ⟨-, -, -, heq⟩ := registry.reserve_cases now child
  · rw [heq]
  · rw [heq]
  · have hown : (registry.openGroup now).1.map Prod.fst = some own := by
      obtain ⟨other, found, hother, -, -, hopen⟩ | ⟨hnone, -⟩ := registry.openGroup_cases now
      · rw [hopen]
        exact hother.symm.trans hcurrent
      · exact absurd (Group.reserve_eq_ok hreserve).1 (hnone own group hcurrent hgroup)
    rw [heq]
    dsimp only
    rw [hown, keysOf_set hgroup rfl]
    obtain ⟨-, -, rfl⟩ := Group.reserve_eq_ok hreserve
    by_cases hid : own = id
    · simp [← hid, keysOf_eq hgroup, Slot.reserved]
    · simp [hid]
  · have hown : (registry.openGroup now).1.map Prod.fst = some registry.groups.size := by
      obtain ⟨other, found, hother, hfound, hstage, -⟩ | ⟨-, hopen⟩ := registry.openGroup_cases now
      · exact absurd hstage (hnone other found hother hfound)
      · rw [hopen, openFresh_of_room hroom]
        rfl
    rw [heq]
    dsimp only
    rw [hown]
    obtain ⟨-, -, rfl⟩ := Group.reserve_eq_ok hreserve
    by_cases hid : registry.groups.size = id
    · simp [← hid, keysOf, afterOpen, Group.normal, Slot.reserved]
    · simp only [Option.some.injEq, if_neg hid, keysOf, afterOpen]
      rw [Array.getElem?_push, if_neg fun h => hid h.symm]
  · rw [heq]
    rfl

theorem keysOf_remove (registry : Registry ν) (fullKey : String) (id : Nat) :
    (registry.remove fullKey).registry.keysOf id =
      match (registry.remove fullKey).answer, registry.find fullKey with
      | .ok (), .ok found =>
        if found = id then (registry.keysOf id).erase fullKey else registry.keysOf id
      | _, _ => registry.keysOf id := by
  -- what is left of the keys of the group that the slot was taken out of
  have hleft : ∀ {own : Nat} {group changed : Group ν}, registry.groups[own]? = some group →
      group.remove fullKey = .ok changed →
      changed.slots.map Slot.fullKey = (registry.keysOf own).erase fullKey := by
    intro own group changed hgroup hremove
    obtain ⟨-, before, slot, after, hslots, hkey, hbefore, -, rfl⟩ := Group.remove_eq_ok hremove
    have hnot : fullKey ∉ before.map Slot.fullKey := by
      simpa using hbefore
    rw [keysOf_eq hgroup, hslots, List.map_append, List.map_append, List.map_cons, hkey,
      List.erase_append_right _ hnot, List.erase_cons_head]
  obtain ⟨failure, heq⟩ | ⟨own, group, changed, -, hfind, hgroup, hremove, -, heq⟩ |
    ⟨own, group, changed, -, hfind, hgroup, hremove, -, heq⟩ := registry.remove_cases fullKey
  · rw [heq]
  · have hcounted := (steady_unregister ((registry.setGroup own changed).bump .slotsRemoved)
      changed.kind changed.key own).trans (steady_bump _ .groupsDiscarded)
    rw [heq, hfind]
    dsimp only
    rw [hcounted.keysOf, keysOf_set hgroup rfl, hleft hgroup hremove]
    split
    · next hid => rw [hid]
    · rfl
  · rw [heq, hfind]
    dsimp only
    rw [keysOf_set hgroup rfl, Group.markReady_slots, hleft hgroup hremove]
    split
    · next hid => rw [hid]
    · rfl

end Registry

/-! ## Moving slots -/

namespace Group

variable {group : Group ν}

/-- The group after a sweep that moves slots: without those that held it back, if there were
any. -/
def sifted (now : Instant) (window : Nat) (group : Group ν) : Group ν :=
  if (group.extractLagging now window).1.isEmpty then group
  else (group.extractLagging now window).2.markReady

theorem sifted_of_nil {now : Instant} {window : Nat}
    (h : (group.extractLagging now window).1 = []) : group.sifted now window = group := by
  rw [sifted, if_pos (by rw [h]; rfl)]

theorem sifted_of_held {now : Instant} {window : Nat}
    (hheld : group.isHeldBack now window = true) (hlagging : group.slots.filter (!·.isReady) ≠ []) :
    group.sifted now window =
      { group with slots := group.slots.filter (·.isReady) }.markReady := by
  rw [sifted, extractLagging, if_pos hheld, if_neg (by simpa using hlagging)]

/-- No slot is moved, or those that are not ready are moved out of a group that they held
back. -/
theorem extractLagging_cases (group : Group ν) (now : Instant) (window : Nat) :
    (group.extractLagging now window).1 = [] ∨
      group.isHeldBack now window = true ∧ group.slots.filter (!·.isReady) ≠ [] ∧
        (group.extractLagging now window).1 = group.slots.filter (!·.isReady) := by
  rw [extractLagging]
  split
  · next hheld =>
    by_cases hlagging : group.slots.filter (!·.isReady) = []
    · exact .inl hlagging
    · exact .inr ⟨hheld, hlagging, rfl⟩
  · exact .inl rfl

theorem kind_sifted (group : Group ν) (now : Instant) (window : Nat) :
    (group.sifted now window).kind = group.kind := by
  rw [sifted]
  split
  · rfl
  · exact (Shrinks.extractLagging group now window).markReady.head.kind

/-- A group that was relieved is ready, and no slot holds it back any more. -/
theorem sifted_sifted (group : Group ν) (now : Instant) (window : Nat) :
    (group.sifted now window).sifted now window = group.sifted now window := by
  obtain hnone | ⟨hheld, hlagging, -⟩ := group.extractLagging_cases now window
  · rw [sifted_of_nil hnone, sifted_of_nil hnone]
  · rw [sifted_of_held hheld hlagging, markReady, if_pos (isComplete_rest hheld)]
    exact sifted_of_nil (by simp [extractLagging, isHeldBack])

/-- The keys that a sweep leaves in a group are those of the slots that it does not move. -/
theorem keys_sifted (hnodup : (group.slots.map Slot.fullKey).Nodup) (now : Instant)
    (window : Nat) : (group.sifted now window).slots.map Slot.fullKey =
      (group.slots.map Slot.fullKey).filter fun key =>
        !((group.extractLagging now window).1.map Slot.fullKey).contains key := by
  obtain hnone | ⟨hheld, hlagging, hmoved⟩ := group.extractLagging_cases now window
  · simp [sifted_of_nil hnone, hnone]
  · rw [sifted_of_held hheld hlagging, hmoved, markReady_slots, List.filter_map]
    refine congrArg _ (List.filter_congr fun slot hslot => ?_)
    cases hready : slot.isReady with
    | true =>
      -- no other slot has the key of this one
      have hstays : ∀ other ∈ group.slots, other.isReady = false →
          other.fullKey ≠ slot.fullKey := by
        intro other hother hlagging heq
        rw [List.inj_on_of_nodup_map hnodup hother hslot heq, hready] at hlagging
        contradiction
      simpa using hstays
    | false => simpa using ⟨slot, ⟨hslot, hready⟩, rfl⟩

end Group

namespace Registry

variable {registry : Registry ν}

/-- A sweep that moves slots has gone through some groups of a registry and has not broken down. -/
structure Sifted (registry : Registry ν) (now : Instant) (ids : List Nat)
    (sweep : Relocation ν) : Prop where
  settings : sweep.state.registry.settings = registry.settings
  scheme : sweep.state.registry.scheme = registry.scheme
  /-- It took the slots that held back each of these groups out of it, and changed no other. -/
  kept : ∀ (id : Nat) (group : Group ν), registry.groups[id]? = some group →
    sweep.state.registry.groups[id]? =
      some (if id ∈ ids then group.sifted now registry.settings.relocateWindow else group)
  /-- All groups that it made are delayed ones. -/
  made : ∀ (id : Nat) (group : Group ν), registry.groups[id]? = none →
    sweep.state.registry.groups[id]? = some group → group.kind = .delayed

/-- What relieving one group does to all groups. -/
theorem relieve_groups {now : Instant} {sweep : Relocation ν} {own : Nat}
    (hsound : (Relocation.relieve now sweep own).broken = false) :
    (Relocation.relieve now sweep own).state.registry.settings = sweep.state.registry.settings ∧
    (Relocation.relieve now sweep own).state.registry.scheme = sweep.state.registry.scheme ∧
    (∀ (id : Nat) (group : Group ν), sweep.state.registry.groups[id]? = some group →
      (Relocation.relieve now sweep own).state.registry.groups[id]? =
        some (if id = own then group.sifted now sweep.state.registry.settings.relocateWindow
          else group)) ∧
    ∀ (id : Nat) (group : Group ν), sweep.state.registry.groups[id]? = none →
      (Relocation.relieve now sweep own).state.registry.groups[id]? = some group →
      group.kind = .delayed := by
  obtain ⟨heq, halone⟩ | ⟨held, hheld, hback, hlagging, hmovable, heq⟩ :=
    relieve_sound_cases hsound
  · rw [heq]
    refine ⟨rfl, rfl, fun id group hgroup => ?_, fun id group hnone hsome => ?_⟩
    · rw [hgroup]
      split
      · next hid =>
        rw [Group.sifted_of_nil (halone group (hid ▸ hgroup))]
      · rfl
    · rw [hnone] at hsome
      contradiction
  · rw [heq]
    refine ⟨rfl, rfl, fun id group hgroup => ?_, fun id group hnone hsome => ?_⟩
    · have hlt : id < sweep.state.registry.groups.size :=
        (Array.getElem?_eq_some_iff.mp hgroup).1
      simp only [Relocation.afterRelief]
      rw [Array.getElem?_append_left (by simpa using hlt)]
      split
      · next hid =>
        subst hid
        rw [Array.getElem?_setIfInBounds_self_of_lt hlt,
          Option.some.inj (hgroup.symm.trans hheld), Group.sifted_of_held hback hlagging,
          Group.leftBehind_of_isMovable hmovable]
      · next hid => rw [Array.getElem?_setIfInBounds_ne fun h => hid h.symm, hgroup]
    · have hle : sweep.state.registry.groups.size ≤ id := Array.getElem?_eq_none_iff.mp hnone
      simp only [Relocation.afterRelief] at hsome
      rw [Array.getElem?_append_right (by simpa using hle)] at hsome
      obtain ⟨slot, -, rfl⟩ : ∃ slot, (held.movable sweep.state.registry.scheme)[id -
          sweep.state.registry.groups.size]? = some slot ∧
          delayedFor sweep.state.registry.scheme now held slot = group := by
        simpa using hsome
      rfl

/-- A sweep that goes through some groups relieves these, and makes delayed ones only. -/
theorem sifted_foldl {now : Instant} {ids : List Nat}
    (hsound : (ids.foldl (Relocation.relieve now)
      { state := { answer := (), registry } }).broken = false) :
    Sifted registry now ids
      (ids.foldl (Relocation.relieve now) { state := { answer := (), registry } }) := by
  induction ids using List.reverseRecOn with
  | nil =>
    refine ⟨rfl, rfl, fun id group hgroup => by simpa using hgroup,
      fun id group hnone hsome => ?_⟩
    rw [List.foldl_nil, hnone] at hsome
    contradiction
  | append_singleton ids own ih =>
    rw [List.foldl_concat] at hsound ⊢
    have ih := ih (not_broken_of_relieve hsound)
    obtain ⟨hsettings, hscheme, hkept, hmade⟩ := relieve_groups hsound
    refine ⟨hsettings.trans ih.settings, hscheme.trans ih.scheme,
      fun id group hgroup => ?_, fun id group hnone hsome => ?_⟩
    · rw [hkept id _ (ih.kept id group hgroup), ih.settings]
      by_cases hmem : id ∈ ids
      · simp [hmem, Group.sifted_sifted]
      · simp [hmem]
    · cases hold : (ids.foldl (Relocation.relieve now)
          { state := { answer := (), registry } }).state.registry.groups[id]? with
      | none => exact hmade id group hold hsome
      | some old =>
        rw [hkept id old hold] at hsome
        have hkind := ih.made id old hnone hold
        rw [← Option.some.inj hsome]
        split
        · rw [Group.kind_sifted, hkind]
        · exact hkind

/-- What a sweep that moves slots leaves of the keys of a normal group. -/
theorem keysOf_relocate (now : Instant) (hderivable : registry.scheme.Derivable) {id : Nat}
    (hnodup : (registry.keysOf id).Nodup)
    (hnormal : ∀ group, (registry.relocate now).registry.groups[id]? = some group →
      group.kind = .normal) :
    (registry.relocate now).registry.keysOf id =
      (registry.keysOf id).filter fun key => !(registry.lagging now id).contains key := by
  have hsound := relieved_of_derivable hderivable now
  have hsifted : Sifted registry now (registry.normal.entries.map Prod.snd)
      (registry.relieved now) := sifted_foldl hsound
  have hgroups : (registry.relocate now).registry.groups =
      (registry.relieved now).state.registry.groups := by
    rw [relocate_of_not_broken hsound]
  rw [hgroups] at hnormal
  cases hgroup : registry.groups[id]? with
  | none =>
    rw [keysOf_none hgroup, keysOf, hgroups]
    split
    · next born hborn =>
      have hkind := hsifted.made id born hgroup hborn
      rw [hnormal born hborn] at hkind
      contradiction
    · rfl
  | some group =>
    rw [keysOf_eq hgroup] at hnodup
    have hafter := hsifted.kept id group hgroup
    rw [← hgroups] at hafter
    rw [keysOf_eq hafter, keysOf_eq hgroup, lagging, hgroup]
    split
    · exact Group.keys_sifted hnodup now _
    · simp

end Registry

/-! ## Runs -/

namespace Committer

theorem keep_of_leavesSlots (committer : Committer ν ε) (id : Nat) (keys : List String)
    {action : Action ν ε} (h : action.leavesSlots = true) :
    committer.keep id keys action = keys := by
  cases action with
  | sweep sweeper now =>
    cases sweeper with
    | relocate => contradiction
    | _ => rfl
  | reserve now child => contradiction
  | remove fullKey => contradiction
  | _ => rfl

/-- What a step leaves of the keys of a normal group. -/
theorem keysOf_step (committer : Committer ν ε) (action : Action ν ε)
    (hderivable : committer.registry.scheme.Derivable) {id : Nat}
    (hnodup : (committer.registry.keysOf id).Nodup)
    (hnormal : ∀ group, (committer.step action).registry.groups[id]? = some group →
      group.kind = .normal) :
    (committer.step action).registry.keysOf id =
      committer.keep id (committer.registry.keysOf id) action := by
  cases hslots : action.leavesSlots with
  | true => rw [committer.keep_of_leavesSlots _ _ hslots, (committer.steady_step hslots).keysOf]
  | false =>
    cases action with
    | reserve now child => exact committer.registry.keysOf_reserve now child id
    | remove fullKey => exact committer.registry.keysOf_remove fullKey id
    | sweep sweeper now =>
      cases sweeper with
      | relocate =>
        rw [step, sweep] at hnormal ⊢
        rw [keep]
        split
        · next hrelocating =>
          rw [if_pos hrelocating] at hnormal
          exact Registry.keysOf_relocate now hderivable hnodup hnormal
        · rfl
      | _ => contradiction
    | _ => contradiction

section Runs

variable {label : String} {settings : Settings} {scheme : KeyScheme}
  {slotBytes : Nat} {unstartable : Option (Sweeper × String)} {start : Committer ν ε}

/-- No two slots of a group have the same full key. -/
theorem nodup_keysOf_run
    (hstart : (launch label settings scheme slotBytes unstartable).1 = .ok start)
    (actions : List (Action ν ε)) (id : Nat) : ((start.run actions).registry.keysOf id).Nodup := by
  cases hgroup : (start.run actions).registry.groups[id]? with
  | none =>
    rw [Registry.keysOf_none hgroup]
    exact List.nodup_nil
  | some group =>
    rw [Registry.keysOf_eq hgroup]
    exact (named_run hstart actions hgroup).nodup_keys

/-- The slots of a normal group are those that its history leaves in it, in the order of their
reservation. -/
theorem keys_of_normal (hstart : (launch label settings scheme slotBytes unstartable).1 = .ok start)
    (hderivable : scheme.Derivable) (actions : List (Action ν ε)) (id : Nat)
    (hnormal : ∀ group, (start.run actions).registry.groups[id]? = some group →
      group.kind = .normal) :
    (start.run actions).registry.keysOf id = start.kept id actions [] := by
  have hs : Staffed start := .launch hstart
  obtain ⟨-, hregistry, -⟩ := launch_eq_ok hstart
  induction actions using List.reverseRecOn with
  | nil =>
    rw [run_nil, hregistry]
    rfl
  | append_singleton actions action ih =>
    have hrun : Staffed (start.run actions) := hs.run actions
    have hmove : Move (start.run actions) action ((start.run actions).step action) :=
      (start.run actions).move_step action hrun.known
    have hscheme := (run_constant hstart actions).2
    rw [run_append] at hnormal ⊢
    have hbefore : ∀ group, (start.run actions).registry.groups[id]? = some group →
        group.kind = .normal := by
      intro group hgroup
      obtain ⟨changed, hchanged, hnext⟩ := hrun.next hmove hgroup
      rw [← hnext.sameHead.kind]
      exact hnormal changed hchanged
    have hnodup := nodup_keysOf_run hstart actions id
    rw [kept_append, ← ih hbefore]
    exact (start.run actions).keysOf_step action (by rw [hscheme]; exact hderivable) hnodup hnormal

end Runs

end Committer

end BatchedCommit
