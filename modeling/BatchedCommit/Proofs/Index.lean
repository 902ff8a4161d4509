import BatchedCommit.Proofs.Reachable

/-!
# BatchedCommit.Proofs.Index

What the indexes of a registry lead to: an entry leads to a group of its kind that bears its
key, has slots and was not aborted (`Registry.Indexed`). Every section keeps that, because it
takes the entry of a group out as soon as it empties or aborts the group. The two indexes are read
as one table for each kind of group (`Registry.index`).
-/

namespace BatchedCommit

variable {ν ε : Type}

/-! ## Entries -/

namespace Table

variable {α : Type}

theorem mem_filter_entries {table : Table α} {test : String × α → Bool} {entry : String × α}
    (h : entry ∈ (table.filter test).entries) : entry ∈ table.entries :=
  (List.mem_filter.mp h).1

theorem mem_insert_entries {table : Table α} {key : String} {new : α} {entry : String × α}
    (h : entry ∈ (table.insert key new).entries) :
    entry ∈ table.entries ∨ entry = (key, new) := by
  rw [insert, List.mem_append, List.mem_singleton] at h
  exact h.imp_left mem_filter_entries

/-- The entry of a key is taken out if it leads to a given group; no other entry changes. -/
theorem mem_erase_if {table : Table Nat} {key : String} {id : Nat} {entry : String × Nat}
    (h : entry ∈ (if table.find? key = some id then table.erase key else table).entries) :
    entry ∈ table.entries ∧ entry ≠ (key, id) := by
  split at h
  · refine ⟨mem_filter_entries h, fun heq => ?_⟩
    rw [heq] at h
    exact table.key_notMem_erase key (List.mem_map_of_mem h)
  · next hfind =>
    refine ⟨h, fun heq => ?_⟩
    rw [heq] at h
    exact hfind ((table.find?_eq_some_iff key id).mpr h)

end Table

namespace Registry

variable {registry later : Registry ν} {kind : GroupKind} {key : String} {id : Nat}

theorem unregister_normal (registry : Registry ν) (kind : GroupKind) (key : String) (id : Nat) :
    (registry.unregister kind key id).normal =
      if kind = .normal then
        if registry.normal.find? key = some id then registry.normal.erase key
        else registry.normal
      else registry.normal := by
  unfold unregister
  cases kind with
  | normal => dsimp only; split <;> split <;> simp_all
  | delayed => dsimp only; split <;> split <;> simp

theorem unregister_delayed (registry : Registry ν) (kind : GroupKind) (key : String) (id : Nat) :
    (registry.unregister kind key id).delayed =
      if kind = .delayed then
        if registry.delayed.find? key = some id then registry.delayed.erase key
        else registry.delayed
      else registry.delayed := by
  unfold unregister
  cases kind with
  | normal => dsimp only; split <;> split <;> simp
  | delayed => dsimp only; split <;> split <;> simp_all

theorem unregister_current (registry : Registry ν) (kind : GroupKind) (key : String) (id : Nat) :
    (registry.unregister kind key id).current =
      if registry.current = some id then none else registry.current := by
  unfold unregister
  cases kind <;> dsimp only <;> split <;> split <;> simp_all

theorem unregister_tombstones (registry : Registry ν) (kind : GroupKind) (key : String)
    (id : Nat) : (registry.unregister kind key id).tombstones = registry.tombstones := by
  unfold unregister
  cases kind <;> dsimp only <;> split <;> split <;> rfl

theorem unregister_closed (registry : Registry ν) (kind : GroupKind) (key : String) (id : Nat) :
    (registry.unregister kind key id).closed = registry.closed := by
  unfold unregister
  cases kind <;> dsimp only <;> split <;> split <;> rfl

/-- A group that leaves its index leaves none of its entries behind, and no other entry
changes. -/
theorem mem_unregister_normal {entry : String × Nat}
    (h : entry ∈ (registry.unregister kind key id).normal.entries) :
    entry ∈ registry.normal.entries ∧ (kind = .normal → entry ≠ (key, id)) := by
  rw [unregister_normal] at h
  split at h
  · obtain ⟨hold, hne⟩ := Table.mem_erase_if h
    exact ⟨hold, fun _ => hne⟩
  · next hkind => exact ⟨h, fun heq => absurd heq hkind⟩

theorem mem_unregister_delayed {entry : String × Nat}
    (h : entry ∈ (registry.unregister kind key id).delayed.entries) :
    entry ∈ registry.delayed.entries ∧ (kind = .delayed → entry ≠ (key, id)) := by
  rw [unregister_delayed] at h
  split at h
  · obtain ⟨hold, hne⟩ := Table.mem_erase_if h
    exact ⟨hold, fun _ => hne⟩
  · next hkind => exact ⟨h, fun heq => absurd heq hkind⟩

/-! ## Groups that an index may lead to -/

/-- A group of this kind and key exists, has slots and was not aborted. -/
def Lives (registry : Registry ν) (kind : GroupKind) (key : String) (id : Nat) : Prop :=
  ∃ group, registry.groups[id]? = some group ∧ group.kind = kind ∧ group.key = key ∧
    group.slots ≠ [] ∧ group.stage ≠ .aborted

theorem Lives.congr (h : registry.Lives kind key id) (hgroups : later.groups = registry.groups) :
    later.Lives kind key id := by
  rw [Lives, hgroups]
  exact h

theorem Lives.grow {made : Array (Group ν)} (h : registry.Lives kind key id)
    (hgroups : later.groups = registry.groups ++ made) : later.Lives kind key id := by
  obtain ⟨group, hgroup, hrest⟩ := h
  have hlt : id < registry.groups.size := (Array.getElem?_eq_some_iff.mp hgroup).1
  refine ⟨group, ?_, hrest⟩
  rw [hgroups, Array.getElem?_append_left hlt, hgroup]

theorem Lives.set {own : Nat} {old new : Group ν} (h : registry.Lives kind key id)
    (hold : registry.groups[own]? = some old)
    (hgroups : later.groups = registry.groups.setIfInBounds own new)
    (hhead : Group.SameHead old new) (hslots : own = id → old.slots ≠ [] → new.slots ≠ [])
    (hstage : own = id → old.stage ≠ .aborted → new.stage ≠ .aborted) :
    later.Lives kind key id := by
  obtain ⟨group, hgroup, hkind, hkey, hgroupSlots, hgroupStage⟩ := h
  rw [Lives, hgroups]
  by_cases heq : own = id
  · have hsame : old = group := by
      rw [← heq, hold] at hgroup
      exact Option.some.inj hgroup
    subst heq hsame
    refine ⟨new, ?_, by rw [hhead.kind, hkind], by rw [hhead.key, hkey],
      hslots rfl hgroupSlots, hstage rfl hgroupStage⟩
    exact Array.getElem?_setIfInBounds_self_of_lt (Array.getElem?_eq_some_iff.mp hold).1
  · refine ⟨group, ?_, hkind, hkey, hgroupSlots, hgroupStage⟩
    rw [Array.getElem?_setIfInBounds_ne heq, hgroup]

/-- What the indexes of a registry lead to. -/
structure Indexed (registry : Registry ν) : Prop where
  normal : ∀ entry ∈ registry.normal.entries, registry.Lives .normal entry.1 entry.2
  delayed : ∀ entry ∈ registry.delayed.entries, registry.Lives .delayed entry.1 entry.2

/-- Entries may be taken out as long as the groups of the others live. -/
theorem Indexed.shrink (h : registry.Indexed)
    (hnormal : ∀ entry ∈ later.normal.entries, entry ∈ registry.normal.entries ∧
      (registry.Lives .normal entry.1 entry.2 → later.Lives .normal entry.1 entry.2))
    (hdelayed : ∀ entry ∈ later.delayed.entries, entry ∈ registry.delayed.entries ∧
      (registry.Lives .delayed entry.1 entry.2 → later.Lives .delayed entry.1 entry.2)) :
    later.Indexed where
  normal := fun entry hentry => by
    obtain ⟨hold, hlives⟩ := hnormal entry hentry
    exact hlives (h.normal entry hold)
  delayed := fun entry hentry => by
    obtain ⟨hold, hlives⟩ := hdelayed entry hentry
    exact hlives (h.delayed entry hold)

/-- No entry changes, and all groups that were alive are. -/
theorem Indexed.keep (h : registry.Indexed) (hnormal : later.normal = registry.normal)
    (hdelayed : later.delayed = registry.delayed)
    (hlives : ∀ kind key id, registry.Lives kind key id → later.Lives kind key id) :
    later.Indexed := by
  refine h.shrink (fun entry hentry => ?_) (fun entry hentry => ?_)
  · rw [hnormal] at hentry
    exact ⟨hentry, hlives _ _ _⟩
  · rw [hdelayed] at hentry
    exact ⟨hentry, hlives _ _ _⟩

/-- Groups that leave their index do no harm. -/
theorem Indexed.unregister (h : registry.Indexed) (kind : GroupKind) (key : String) (id : Nat) :
    (registry.unregister kind key id).Indexed := by
  have hgroups := registry.unregister_groups kind key id
  refine h.shrink (fun entry hentry => ?_) (fun entry hentry => ?_)
  · exact ⟨(mem_unregister_normal hentry).1, fun hlives => hlives.congr hgroups⟩
  · exact ⟨(mem_unregister_delayed hentry).1, fun hlives => hlives.congr hgroups⟩

/-! ## Calls -/

theorem markReady_stage_ne_aborted {group : Group ν} (h : group.stage ≠ .aborted) :
    group.markReady.stage ≠ .aborted := by
  rw [Group.markReady]
  split
  · simp
  · exact h

theorem Indexed.reserve (h : registry.Indexed) (now : Instant) (child : String) :
    (registry.reserve now child).registry.Indexed := by
  have hmutable : ∀ {group changed : Group ν} {fullKey : String},
      group.reserve now child fullKey = .ok changed →
      changed.slots ≠ [] ∧ changed.stage ≠ .aborted := by
    intro group changed fullKey hreserve
    refine ⟨by simp [(Group.reserve_eq_ok hreserve).2.2], fun haborted => ?_⟩
    have hstage := isMutable_of_reserve hreserve
    rw [haborted] at hstage
    contradiction
  obtain ⟨-, heq⟩ | ⟨_, _, -, -, -, -, -, heq⟩ |
    ⟨own, group, changed, -, -, hgroup, hreserve, heq⟩ |
    ⟨parent, changed, -, -, -, rfl, hreserve, heq⟩ | ⟨-, -, -, heq⟩ :=
    registry.reserve_cases now child
  · rw [heq]
    exact h
  · rw [heq]
    exact h
  · rw [heq]
    refine h.keep rfl rfl fun kind key id hlives => ?_
    exact hlives.set hgroup rfl (.reserve hreserve) (fun _ _ => (hmutable hreserve).1)
      (fun _ _ => (hmutable hreserve).2)
  · rw [heq]
    have hgrow : ∀ {kind : GroupKind} {key : String} {id : Nat}, registry.Lives kind key id →
        (registry.afterOpen changed).Lives kind key id := fun hlives =>
      hlives.grow (show _ = registry.groups ++ #[changed] from Array.push_eq_append)
    constructor
    · intro entry hentry
      cases Table.mem_insert_entries hentry with
      | inl hold => exact hgrow (h.normal entry hold)
      | inr hnew =>
        rw [hnew]
        have hhead := Group.SameHead.reserve hreserve
        exact ⟨changed, Array.getElem?_push_size, hhead.kind, hhead.key, hmutable hreserve⟩
    · exact fun entry hentry => hgrow (h.delayed entry hentry)
  · rw [heq]
    exact h.keep rfl rfl fun kind key id hlives => hlives.congr rfl

theorem Indexed.store (h : registry.Indexed) (fullKey : String) (value : ν) :
    (registry.store fullKey value).registry.Indexed := by
  obtain ⟨failure, heq⟩ | ⟨own, group, changed, -, -, hgroup, hput, heq⟩ :=
    registry.store_cases fullKey value
  · rw [heq]
    exact h
  · rw [heq]
    have hhead := (Group.SameHead.put hput).trans (.markReady changed)
    obtain ⟨hlive, before, slot, after, -, -, -, -, hchanged⟩ := Group.put_eq_ok hput
    refine h.keep rfl rfl fun kind key id hlives => ?_
    refine hlives.set hgroup rfl hhead (fun _ _ => ?_) (fun _ _ => ?_)
    · rw [Group.markReady_slots, hchanged]
      simp
    · refine markReady_stage_ne_aborted fun haborted => ?_
      rw [hchanged] at haborted
      rw [show group.stage = .aborted from haborted] at hlive
      contradiction

/-- A group that leaves its index may change in any way. -/
theorem Indexed.drop {own : Nat} {old new : Group ν} (h : registry.Indexed)
    (hold : registry.groups[own]? = some old) (hhead : Group.SameHead old new)
    (hgroups : later.groups = registry.groups.setIfInBounds own new)
    (hnormal : later.normal = registry.normal) (hdelayed : later.delayed = registry.delayed) :
    (later.unregister new.kind new.key own).Indexed := by
  -- an entry that leads to the group bears its kind and its key, so it was taken out
  have hother : ∀ {kind : GroupKind} {entry : String × Nat},
      (new.kind = kind → entry ≠ (new.key, own)) → registry.Lives kind entry.1 entry.2 →
      (later.unregister new.kind new.key own).Lives kind entry.1 entry.2 := by
    intro kind entry hne hlives
    have hid : own ≠ entry.2 := by
      rintro rfl
      obtain ⟨group, hgroup, hkind, hkey, -⟩ := hlives
      have hsame : old = group := Option.some.inj (hold.symm.trans hgroup)
      refine hne (by rw [hhead.kind, hsame, hkind]) ?_
      rw [hhead.key, hsame, hkey]
    exact (hlives.set hold hgroups hhead (fun heq => absurd heq hid)
      (fun heq => absurd heq hid)).congr (later.unregister_groups new.kind new.key own)
  refine h.shrink (fun entry hentry => ?_) (fun entry hentry => ?_)
  · obtain ⟨hmem, hne⟩ := mem_unregister_normal hentry
    rw [hnormal] at hmem
    exact ⟨hmem, hother hne⟩
  · obtain ⟨hmem, hne⟩ := mem_unregister_delayed hentry
    rw [hdelayed] at hmem
    exact ⟨hmem, hother hne⟩

theorem Indexed.remove (h : registry.Indexed) (fullKey : String) :
    (registry.remove fullKey).registry.Indexed := by
  obtain ⟨failure, heq⟩ | ⟨own, group, changed, -, -, hgroup, hremove, -, heq⟩ |
    ⟨own, group, changed, -, -, hgroup, hremove, hslots, heq⟩ := registry.remove_cases fullKey
  · rw [heq]
    exact h
  · rw [heq]
    have hdropped : (((registry.setGroup own changed).bump .slotsRemoved).unregister
        changed.kind changed.key own).Indexed := h.drop hgroup (.remove hremove) rfl rfl rfl
    exact hdropped.keep rfl rfl fun _ _ _ hlives => hlives.congr rfl
  · rw [heq]
    have hhead := (Group.SameHead.remove hremove).trans (.markReady changed)
    obtain ⟨hmutable, _, _, _, -, -, -, -, hchanged⟩ := Group.remove_eq_ok hremove
    refine h.keep rfl rfl fun kind key id hlives => ?_
    refine hlives.set hgroup rfl hhead (fun _ _ => ?_) (fun _ _ => ?_)
    · rw [Group.markReady_slots]
      exact hslots
    · refine markReady_stage_ne_aborted fun haborted => ?_
      rw [hchanged] at haborted
      rw [show group.stage = .aborted from haborted] at hmutable
      contradiction

/-! ## Waiting callers -/

theorem Indexed.glance (h : registry.Indexed) (own : Nat) :
    (registry.glance own).registry.Indexed := by
  obtain ⟨group, verdict, -, -, heq⟩ | ⟨group, values, changed, hgroup, -, hclaim, heq⟩ |
    ⟨-, heq⟩ := registry.glance_cases own
  · rw [heq]
    exact h
  · rw [heq]
    obtain ⟨hstage, -, -, hchanged⟩ := Group.claim?_eq_some hclaim
    refine h.keep rfl rfl fun kind key id hlives => ?_
    refine hlives.set hgroup rfl (.claim? hclaim) (fun _ hslots => ?_) (fun _ _ => ?_)
    · rw [hchanged]
      simpa using hslots
    · rw [hchanged]
      intro haborted
      rw [show group.stage = .aborted from haborted] at hstage
      contradiction
  · rw [heq]
    exact h

theorem Indexed.finish (h : registry.Indexed) (own : Nat) (verdict : Verdict) :
    (registry.finish own verdict).Indexed := by
  rw [Registry.finish]
  split
  · next group hgroup =>
    refine h.keep rfl rfl fun kind key id hlives => ?_
    exact hlives.set hgroup rfl ⟨rfl, rfl, rfl, rfl, rfl⟩ (fun _ hslots => hslots)
      (fun _ _ => by simp [Group.finish])
  · exact h

theorem Indexed.retire (h : registry.Indexed) (own : Nat) : (registry.retire own).Indexed := by
  rw [Registry.retire]
  split
  · exact h.unregister _ _ _
  · exact h

/-! ## Fixing sizes and moving slots -/

theorem Indexed.fixSizes (h : registry.Indexed) (now : Instant) :
    (registry.fixSizes now).registry.Indexed := by
  refine foldl_keep (P := fun state : Section ν Unit => state.registry.Indexed) _
    (fun state own _ hstate => ?_) h
  obtain heq | ⟨group, hgroup, -, hopen, heq⟩ := fixSizeOf_cases now state own
  · rw [heq]
    exact hstate
  · rw [heq]
    have hhead := (Group.SameHead.fixSize group now).trans (.markReady _)
    refine hstate.keep rfl rfl fun kind key id hlives => ?_
    refine hlives.set hgroup rfl hhead (fun _ hslots => ?_) (fun _ _ => ?_)
    · rw [Group.markReady_slots, Group.fixSize, if_pos hopen]
      exact hslots
    · refine markReady_stage_ne_aborted ?_
      simp [Group.fixSize, if_pos hopen]

/-- The indexes of a sweep that moves slots, while it is under way: its new groups are not
entered yet. -/
structure Relocation.Indexed (sweep : Relocation ν) : Prop where
  registry : sweep.state.registry.Indexed
  moved : ∀ entry ∈ sweep.moved, sweep.state.registry.Lives .delayed entry.1 entry.2

/-- The entries for moved slots lead to the groups that were made for them. -/
theorem lives_of_mem_entriesFrom (make : Slot ν → Group ν) {groups : Array (Group ν)}
    {slots : List (Slot ν)} {entry : String × Nat}
    (hmake : ∀ slot, (make slot).kind = .delayed ∧ (make slot).key = slot.fullKey ∧
      (make slot).slots ≠ [] ∧ (make slot).stage ≠ .aborted)
    (hgroups : later.groups = groups ++ (slots.map make).toArray)
    (hentry : entry ∈ entriesFrom groups.size slots) : later.Lives .delayed entry.1 entry.2 := by
  rw [entriesFrom, List.mem_map] at hentry
  obtain ⟨⟨slot, place⟩, hmem, rfl⟩ := hentry
  obtain ⟨hle, hslot⟩ := List.mem_zipIdx_iff_le_and_getElem?_sub.mp hmem
  obtain ⟨hkind, hkey, hslots, hstage⟩ := hmake slot
  refine ⟨make slot, ?_, hkind, hkey, hslots, hstage⟩
  rw [hgroups, Array.getElem?_append_right hle]
  simp [hslot]

theorem Relocation.Indexed.relieve {sweep : Relocation ν} (h : sweep.Indexed) (now : Instant)
    (own : Nat) : (Relocation.relieve now sweep own).Indexed := by
  obtain ⟨heq, -⟩ | ⟨group, -, hgroup, hheld, -, heq⟩ := relieve_cases now sweep own
  · rw [heq]
    exact h
  · rw [heq]
    obtain ⟨-, hstage, -, slot, hslot, hready⟩ := Group.isHeldBack_iff.mp hheld
    have hlives : ∀ kind key id, sweep.state.registry.Lives kind key id →
        (sweep.afterRelief now own group).state.registry.Lives kind key id := by
      intro kind key id hlives
      have hset : (sweep.state.registry.setGroup own
          (group.leftBehind sweep.state.registry.scheme)).Lives kind key id := by
        refine hlives.set hgroup rfl (.leftBehind _ _) (fun _ _ => ?_) (fun _ hold => ?_)
        · rw [Group.leftBehind_slots]
          exact List.ne_nil_of_mem (List.mem_filter.mpr ⟨hslot, hready⟩)
        · rw [Group.leftBehind]
          split
          · exact markReady_stage_ne_aborted hold
          · exact hold
      exact hset.grow rfl
    constructor
    · exact h.registry.keep rfl rfl hlives
    · intro entry hentry
      cases List.mem_append.mp hentry with
      | inl hold => exact hlives _ _ _ (h.moved entry hold)
      | inr hnew =>
        refine lives_of_mem_entriesFrom (delayedFor sweep.state.registry.scheme now group)
          (fun slot => ⟨rfl, rfl, by simp [delayedFor, Group.delayed],
            by simp [delayedFor, Group.delayed]⟩) rfl ?_
        rw [Array.size_setIfInBounds]
        exact hnew

/-- Entering groups that live into the index of delayed ones. -/
theorem Indexed.enter (h : registry.Indexed) (entries : List (String × Nat))
    (hentries : ∀ entry ∈ entries, registry.Lives .delayed entry.1 entry.2) :
    Indexed { registry with
      delayed := entries.foldl (fun table entry => table.insert entry.1 entry.2)
        registry.delayed } := by
  have hmem : ∀ (entries : List (String × Nat)) (table : Table Nat), ∀ entry ∈
      (entries.foldl (fun table entry => table.insert entry.1 entry.2) table).entries,
      entry ∈ table.entries ∨ entry ∈ entries := by
    intro entries
    induction entries with
    | nil => exact fun table entry hentry => .inl hentry
    | cons first rest ih =>
      intro table entry hentry
      cases ih (table.insert first.1 first.2) entry hentry with
      | inl hold =>
        cases Table.mem_insert_entries hold with
        | inl hold => exact .inl hold
        | inr hnew => exact .inr (by rw [hnew]; exact List.mem_cons_self)
      | inr hnew => exact .inr (List.mem_cons_of_mem _ hnew)
  constructor
  · exact fun entry hentry => (h.normal entry hentry).congr rfl
  · intro entry hentry
    cases hmem entries registry.delayed entry hentry with
    | inl hold => exact (h.delayed entry hold).congr rfl
    | inr hnew => exact (hentries entry hnew).congr rfl

/-- An entry that was there before groups were made leads to a group that is not dropped with
them. -/
theorem Lives.drop {middle : Registry ν} (h : registry.Lives kind key id)
    (hmiddle : middle.Lives kind key id)
    (hgroups : later.groups = middle.groups.take registry.groups.size) :
    later.Lives kind key id := by
  obtain ⟨_, hold, -⟩ := h
  rw [Lives, hgroups, getElem?_take, if_pos (Array.getElem?_eq_some_iff.mp hold).1]
  exact hmiddle

theorem Indexed.relocate (h : registry.Indexed) (now : Instant) :
    (registry.relocate now).registry.Indexed := by
  have hsweep : (registry.relieved now).Indexed :=
    foldl_keep (P := Relocation.Indexed) _ (fun sweep own _ hsweep => hsweep.relieve now own)
      ⟨h, fun entry hentry => by contradiction⟩
  cases hbroken : (registry.relieved now).broken with
  | false =>
    rw [relocate_of_not_broken hbroken]
    exact hsweep.registry.enter _ hsweep.moved
  | true =>
    rw [relocate_of_broken hbroken]
    obtain ⟨hnormal, hdelayed⟩ := hsweep.registry
    obtain ⟨groups, count, -, -, hregistry⟩ := registry.relieved_registry now
    rw [hregistry] at hnormal hdelayed ⊢
    exact h.shrink
      (fun entry hentry => ⟨hentry, fun hlives => hlives.drop (hnormal entry hentry) rfl⟩)
      (fun entry hentry => ⟨hentry, fun hlives => hlives.drop (hdelayed entry hentry) rfl⟩)

/-! ## Looking groups up -/

/-- The index of the live groups of a kind. -/
def index (registry : Registry ν) : GroupKind → Table Nat
  | .normal => registry.normal
  | .delayed => registry.delayed

theorem index_congr (hnormal : later.normal = registry.normal)
    (hdelayed : later.delayed = registry.delayed) : later.index = registry.index := by
  funext kind
  cases kind with
  | normal => exact hnormal
  | delayed => exact hdelayed

/-- An index leads to a group. -/
def Registered (registry : Registry ν) (id : Nat) : Prop :=
  (∃ key, registry.normal.find? key = some id) ∨ ∃ key, registry.delayed.find? key = some id

theorem registered_iff {id : Nat} :
    registry.Registered id ↔ ∃ kind key, (registry.index kind).find? key = some id := by
  constructor
  · rintro (⟨key, hkey⟩ | ⟨key, hkey⟩)
    · exact ⟨.normal, key, hkey⟩
    · exact ⟨.delayed, key, hkey⟩
  · rintro ⟨_ | _, key, hkey⟩
    · exact .inl ⟨key, hkey⟩
    · exact .inr ⟨key, hkey⟩

/-- What the index of a kind leads to is a group of this kind and key. -/
theorem Indexed.lives (h : registry.Indexed) (kind : GroupKind) {key : String} {id : Nat}
    (hfind : (registry.index kind).find? key = some id) : registry.Lives kind key id := by
  have hentry := (Table.find?_eq_some_iff _ key id).mp hfind
  cases kind with
  | normal => exact h.normal (key, id) hentry
  | delayed => exact h.delayed (key, id) hentry

/-- What an index leads to exists, has slots and was not aborted. -/
theorem Indexed.of_registered (h : registry.Indexed) {id : Nat}
    (hid : registry.Registered id) :
    ∃ group, registry.groups[id]? = some group ∧ group.slots ≠ [] ∧ group.stage ≠ .aborted := by
  cases hid with
  | inl hnormal =>
    obtain ⟨key, hkey⟩ := hnormal
    obtain ⟨group, hgroup, -, -, hrest⟩ :=
      h.normal _ ((registry.normal.find?_eq_some_iff key id).mp hkey)
    exact ⟨group, hgroup, hrest⟩
  | inr hdelayed =>
    obtain ⟨key, hkey⟩ := hdelayed
    obtain ⟨group, hgroup, -, -, hrest⟩ :=
      h.delayed _ ((registry.delayed.find?_eq_some_iff key id).mp hkey)
    exact ⟨group, hgroup, hrest⟩

/-- A registered group is entered under its own kind and key. -/
theorem Indexed.find?_of_registered (h : registry.Indexed) {id : Nat} {group : Group ν}
    (hid : registry.Registered id) (hgroup : registry.groups[id]? = some group) :
    (registry.index group.kind).find? group.key = some id := by
  obtain ⟨kind, key, hfind⟩ := registered_iff.mp hid
  obtain ⟨same, hsame, rfl, rfl, -⟩ := h.lives kind hfind
  rw [Option.some.inj (hgroup.symm.trans hsame)]
  exact hfind

/-- A group that leaves its index takes its own entry out, and no other one. -/
theorem find?_unregister (registry : Registry ν) (kind : GroupKind) (key : String) (id : Nat)
    (other : GroupKind) (name : String) (place : Nat) :
    ((registry.unregister kind key id).index other).find? name = some place ↔
      (registry.index other).find? name = some place ∧
        ¬ (other = kind ∧ name = key ∧ place = id) := by
  have herase : ∀ table : Table Nat,
      ((if table.find? key = some id then table.erase key else table).find? name = some place ↔
        table.find? name = some place ∧ ¬ (name = key ∧ place = id)) := by
    intro table
    by_cases hfind : table.find? key = some id
    · rw [if_pos hfind, Table.find?_erase]
      grind
    · rw [if_neg hfind]
      grind
  cases other with
  | normal =>
    have h := registry.unregister_normal kind key id
    cases kind <;> simp_all [index]
  | delayed =>
    have h := registry.unregister_delayed kind key id
    cases kind <;> simp_all [index]

end Registry

end BatchedCommit
