import BatchedCommit.Proofs.Deeds
import BatchedCommit.Proofs.Outcomes

/-!
# BatchedCommit.Proofs.Routing

Where a full key leads (`Committer.keys_lead_home`): the key of a slot in a registered group
leads to that group and to no other, whether the slot stands in the group that it was reserved
in or was moved into one of its own. A look-up tries the delayed groups, the tombstones, the
normal groups and the tombstones again; it takes no wrong turn because no full key belongs to
two groups (`Registry.Distinct`), because the indexes tell the truth (`Registry.Indexed`), and
because a tombstone stands for a group that was aborted (`Registry.AbortedUnder`).
-/

namespace BatchedCommit

variable {ν ε : Type}

namespace Registry

variable {registry later : Registry ν}

/-! ## Tombstones -/

/-- A group of this key was aborted. -/
def AbortedUnder (registry : Registry ν) (key : String) : Prop :=
  ∃ (id : Nat) (group : Group ν),
    registry.groups[id]? = some group ∧ group.key = key ∧ group.stage = .aborted

/-- What a sweep that aborts groups leaves of the tombstone of a key: the one it had, unless
that has outlived the window, or a new one because a group of the key was due. -/
theorem Expired.tombstone_cases {now since : Instant} {key : String}
    (h : Expired now registry later) (hfind : later.tombstones.find? key = some since) :
    (registry.tombstones.find? key = some since ∧
      elapsed now since ≤ registry.settings.abortWindow) ∨
    (since = now ∧ ∃ kind id, (registry.index kind).find? key = some id ∧
      registry.isDue now id = true) := by
  by_cases hdue : ∃ kind id, (registry.index kind).find? key = some id ∧
      registry.isDue now id = true
  · obtain ⟨kind, id, hid, hold⟩ := hdue
    rw [h.marked kind key id hid hold] at hfind
    exact .inr ⟨(Option.some.inj hfind).symm, kind, id, hid, hold⟩
  · push Not at hdue
    rw [h.unmarked key fun kind id hid => by simpa using hdue kind id hid,
      Option.filter_eq_some_iff, decide_eq_true_eq] at hfind
    exact .inl hfind

/-- A group that was due is aborted after the sweep. -/
theorem Expired.abortedUnder {now : Instant} {kind : GroupKind} {key : String} {id : Nat}
    (h : Expired now registry later) (hindexed : registry.Indexed)
    (hfind : (registry.index kind).find? key = some id) (hdue : registry.isDue now id = true) :
    later.AbortedUnder key := by
  obtain ⟨group, hgroup, -, hkey, -⟩ := hindexed.lives kind hfind
  obtain ⟨same, hsame, -, habort⟩ := isDue_iff.mp hdue
  rw [← Option.some.inj (hgroup.symm.trans hsame)] at habort
  refine ⟨id, _, h.aborted kind key id group hfind hgroup hdue, ?_, ?_⟩
  · rw [(Group.SameHead.abort group _).key, hkey]
  · rw [Group.abort, if_pos habort]

/-! ## Look-ups -/

theorem find_of_delayed {key : String} {id : Nat} (h : registry.delayed.find? key = some id) :
    registry.find key = .ok id := by
  rw [find, h]

/-- A key that names no delayed group leads to the normal group of its parent key, as long as
there is no tombstone for it. -/
theorem find_of_normal {key parent : String} {id : Nat}
    (hdelayed : registry.delayed.find? key = none)
    (htombstone : registry.tombstones.find? key = none)
    (hparent : registry.scheme.parentOf? key = some parent)
    (h : registry.normal.find? parent = some id) : registry.find key = .ok id := by
  simp only [find, hdelayed, Table.contains, htombstone, Option.isSome_none, hparent, h,
    Bool.false_eq_true, if_false]

/-- A look-up only answers groups that are registered. -/
theorem registered_of_find {key : String} {id : Nat} (h : registry.find key = .ok id) :
    registry.Registered id := by
  rw [find] at h
  split at h
  · next hdelayed =>
    rw [← Except.ok.inj h]
    exact .inr ⟨key, hdelayed⟩
  · split at h
    · contradiction
    · split at h
      · contradiction
      · next parent hparent =>
        split at h
        · next hnormal =>
          rw [← Except.ok.inj h]
          exact .inl ⟨parent, hnormal⟩
        · split at h <;> contradiction

/-- What makes keys lead to the groups that they belong to. -/
structure Routed (registry : Registry ν) : Prop where
  indexed : registry.Indexed
  distinct : registry.Distinct
  separator : registry.scheme.separator.isDigit = false
  marked : ∀ key since, registry.tombstones.find? key = some since → registry.AbortedUnder key

namespace Routed

variable {id : Nat} {group : Group ν} {slot : Slot ν}

/-- The full key of a slot of a normal group comes apart into the key of the group and the
child key of the slot. -/
theorem split?_slot (h : registry.Routed) (hgroup : registry.groups[id]? = some group)
    (hkind : group.kind = .normal) (hslot : slot ∈ group.slots) :
    registry.scheme.split? slot.fullKey = some (group.key, slot.child) := by
  have hkey : slot.fullKey = registry.scheme.fullKey group.key slot.child :=
    (h.distinct.named id group hgroup).children hkind _ (List.mem_map_of_mem hslot)
  rw [hkey]
  refine KeyScheme.split?_fullKey h.separator (h.distinct.isParent_key hgroup hkind) ?_
  obtain ⟨index, -, hparent⟩ := h.distinct.parent id group hgroup hkind
  rw [hparent]
  exact KeyScheme.parentKey_ne_empty _ index

/-- A group of a different identity whose key is the full key of a slot of a normal group does
not exist: it would be a delayed one, and the full key would belong to both. -/
theorem key_ne_fullKey (h : registry.Routed) (hgroup : registry.groups[id]? = some group)
    (hkind : group.kind = .normal) (hslot : slot ∈ group.slots) {place : Nat} {other : Group ν}
    (hother : registry.groups[place]? = some other) : other.key ≠ slot.fullKey := by
  intro hkey
  have hnamed := h.distinct.named id group hgroup
  cases hkind' : other.kind with
  | normal =>
    have hname : slot.fullKey = registry.scheme.fullKey group.key slot.child :=
      hnamed.children hkind _ (List.mem_map_of_mem hslot)
    rw [hname] at hkey
    exact KeyScheme.fullKey_ne_parent h.separator (h.distinct.isParent_key hother hkind') hkey.symm
  | delayed =>
    have hsame : place = id := by
      refine h.distinct.apart place id other group slot.fullKey hother hgroup ?_
        (hnamed.mem_fullKeys hslot)
      rw [Group.fullKeys_delayed hkind', hkey]
      exact List.mem_singleton_self _
    rw [hsame, hgroup] at hother
    rw [← Option.some.inj hother, hkind] at hkind'
    contradiction

/-- No key is that of a registered delayed group and of a slot of a normal group at once. -/
theorem delayed_find?_slot (h : registry.Routed) (hgroup : registry.groups[id]? = some group)
    (hkind : group.kind = .normal) (hslot : slot ∈ group.slots) :
    registry.delayed.find? slot.fullKey = none := by
  cases hfind : registry.delayed.find? slot.fullKey with
  | none => rfl
  | some place =>
    obtain ⟨other, hother, -, hkey, -⟩ := h.indexed.lives .delayed hfind
    exact absurd hkey (h.key_ne_fullKey hgroup hkind hslot hother)

/-- There is no tombstone for the full key of a slot of a normal group. -/
theorem tombstone_slot (h : registry.Routed) (hgroup : registry.groups[id]? = some group)
    (hkind : group.kind = .normal) (hslot : slot ∈ group.slots) :
    registry.tombstones.find? slot.fullKey = none := by
  cases hfind : registry.tombstones.find? slot.fullKey with
  | none => rfl
  | some since =>
    obtain ⟨place, other, hother, hkey, -⟩ := h.marked _ since hfind
    exact absurd hkey (h.key_ne_fullKey hgroup hkind hslot hother)

/-- The full key of a slot in a registered group leads to that group. -/
theorem find_slot (h : registry.Routed) (hid : registry.Registered id)
    (hgroup : registry.groups[id]? = some group) (hslot : slot ∈ group.slots) :
    registry.find slot.fullKey = .ok id := by
  have hindex := h.indexed.find?_of_registered hid hgroup
  cases hkind : group.kind with
  | delayed =>
    have hkey : slot.fullKey = group.key :=
      (h.distinct.named id group hgroup).own hkind _ (List.mem_map_of_mem hslot)
    rw [hkind] at hindex
    rw [hkey]
    exact find_of_delayed hindex
  | normal =>
    rw [hkind] at hindex
    exact find_of_normal (h.delayed_find?_slot hgroup hkind hslot)
      (h.tombstone_slot hgroup hkind hslot)
      (by rw [KeyScheme.parentOf?, h.split?_slot hgroup hkind hslot]; rfl) hindex

/-- The stage that is reported for a key is that of the registered group with a slot of it. -/
theorem stageOf?_eq_some_iff (h : registry.Routed) {key : String} {stage : Stage} :
    registry.stageOf? key = some stage ↔ ∃ id group, registry.Registered id ∧
      registry.groups[id]? = some group ∧ group.stage = stage ∧
        ∃ slot ∈ group.slots, slot.fullKey = key := by
  constructor
  · intro hstage
    rw [stageOf?] at hstage
    split at hstage
    · next id group hlookup =>
      obtain ⟨hfind, hgroup⟩ := lookup_eq_ok hlookup
      split at hstage
      · next hcontains =>
        refine ⟨id, group, registered_of_find hfind, hgroup, Option.some.inj hstage, ?_⟩
        simpa [Group.contains] using hcontains
      · contradiction
    · contradiction
  · rintro ⟨id, group, hid, hgroup, rfl, slot, hslot, rfl⟩
    have hcontains : group.contains slot.fullKey = true := by
      simpa [Group.contains] using ⟨slot, hslot, rfl⟩
    rw [stageOf?, lookup, h.find_slot hid hgroup hslot]
    simp only [hgroup, if_pos hcontains]

end Routed

end Registry

namespace Committer

variable {label : String} {settings : Settings} {scheme : KeyScheme}
  {slotBytes : Nat} {unstartable : Option (Sweeper × String)} {start : Committer ν ε}

/-! ## Reachable states -/

/-- A group that was aborted stays so in a step. -/
theorem abortedUnder_step {committer : Committer ν ε} (hs : Staffed committer)
    (action : Action ν ε) {key : String} (h : committer.registry.AbortedUnder key) :
    (committer.step action).registry.AbortedUnder key := by
  obtain ⟨id, group, hgroup, hkey, hstage⟩ := h
  obtain ⟨changed, hchanged, hnext⟩ := hs.next (committer.move_step action hs.known) hgroup
  rw [hnext.eq_of_isTerminal (by rw [hstage]; rfl)] at hchanged
  exact ⟨id, group, hchanged, hkey, hstage⟩

/-- In every reachable state, a tombstone stands for a group that was aborted. -/
theorem abortedUnder_run
    (hstart : (launch label settings scheme slotBytes unstartable).1 = .ok start)
    (actions : List (Action ν ε)) {key : String} {since : Instant}
    (h : (start.run actions).registry.tombstones.find? key = some since) :
    (start.run actions).registry.AbortedUnder key := by
  induction actions using List.reverseRecOn generalizing since with
  | nil =>
    rw [run_nil, (launch_eq_ok hstart).2.1] at h
    contradiction
  | append_singleton actions action ih =>
    have hs : Staffed (start.run actions) := (Staffed.launch hstart).run actions
    have hkept : ∀ {since : Instant},
        (start.run actions).registry.tombstones.find? key = some since →
        ((start.run actions).step action).registry.AbortedUnder key := fun hfind =>
      abortedUnder_step hs action (ih hfind)
    rw [run_append] at h ⊢
    change ((start.run actions).step action).registry.tombstones.find? key = some since at h
    obtain ⟨hsame, -⟩ | ⟨now, -, heq⟩ | ⟨counters, -, -, heq⟩ := (hs.deed action).calm
    · rw [hsame] at h
      exact hkept h
    · have hindexed := indexed_of_launch hstart actions
      have hexpired := Registry.expired_abortOld hindexed now
      rw [← heq] at hexpired
      obtain ⟨hold, -⟩ | ⟨-, kind, id, hfind, hdue⟩ := hexpired.tombstone_cases h
      · exact hkept hold
      · exact hexpired.abortedUnder hindexed hfind hdue
    · obtain ⟨groups, hclose⟩ := (start.run actions).registry.frame_close
      rw [heq, hclose] at h
      contradiction

/-- In every reachable state keys lead to the groups that they belong to, as long as the counter
of parent keys has not come round. -/
theorem routed_run (hstart : (launch label settings scheme slotBytes unstartable).1 = .ok start)
    (hseparator : scheme.separator.isDigit = false) (actions : List (Action ν ε))
    (hissued : (start.run actions).registry.issued ≤ scheme.cycle) :
    (start.run actions).registry.Routed where
  indexed := indexed_of_launch hstart actions
  distinct := distinct_run hstart hseparator actions hissued
  separator := by rw [(run_constant hstart actions).2, hseparator]
  marked := fun _ _ hfind => abortedUnder_run hstart actions hfind

/-- In every reachable state before the counter of parent keys comes round:

* the full keys of all slots in registered groups are different;
* a registered normal group is indexed by its own key, and the full key of each of its slots
  comes apart into that key and the child key of the slot;
* no key is that of a registered delayed group and of a slot in a registered normal group;
* the full key of a slot in a registered group leads to this group;
* the stage that is reported for a key is that of the registered group with a slot of this full
  key, and there is no report without such a slot. -/
theorem keys_lead_home (hstart : (launch label settings scheme slotBytes unstartable).1 = .ok start)
    (hseparator : scheme.separator.isDigit = false) (actions : List (Action ν ε))
    (hissued : (start.run actions).registry.issued ≤ scheme.cycle) :
    (∀ (i j p q : Nat) (one two : Group ν) (slot other : Slot ν),
      (start.run actions).registry.Registered i → (start.run actions).registry.Registered j →
      (start.run actions).registry.groups[i]? = some one →
      (start.run actions).registry.groups[j]? = some two →
      one.slots[p]? = some slot → two.slots[q]? = some other → slot.fullKey = other.fullKey →
      i = j ∧ p = q) ∧
    (∀ (key : String) (id : Nat), (start.run actions).registry.normal.find? key = some id →
      ∃ group, (start.run actions).registry.groups[id]? = some group ∧ group.kind = .normal ∧
        group.key = key ∧ ∀ slot ∈ group.slots,
          scheme.split? slot.fullKey = some (key, slot.child)) ∧
    (∀ (id : Nat) (group : Group ν), (start.run actions).registry.Registered id →
      (start.run actions).registry.groups[id]? = some group → group.kind = .normal →
      (start.run actions).registry.normal.find? group.key = some id ∧
        ∀ slot ∈ group.slots,
          (start.run actions).registry.delayed.find? slot.fullKey = none) ∧
    (∀ (id : Nat) (group : Group ν), (start.run actions).registry.Registered id →
      (start.run actions).registry.groups[id]? = some group →
      ∀ slot ∈ group.slots, (start.run actions).registry.find slot.fullKey = .ok id) ∧
    ∀ (key : String) (stage : Stage),
      (start.run actions).registry.stageOf? key = some stage ↔
        ∃ id group, (start.run actions).registry.Registered id ∧
          (start.run actions).registry.groups[id]? = some group ∧ group.stage = stage ∧
            ∃ slot ∈ group.slots, slot.fullKey = key := by
  have h := routed_run hstart hseparator actions hissued
  have hscheme := (run_constant hstart actions).2
  refine ⟨fun i j p q one two slot other _ _ hone htwo hslot hother heq => ?_,
    fun key id hfind => ?_, fun id group hid hgroup hkind => ⟨?_, fun slot hslot => ?_⟩,
    fun id group hid hgroup slot hslot => h.find_slot hid hgroup hslot,
    fun key stage => h.stageOf?_eq_some_iff⟩
  · have hid : i = j := h.distinct.slot_inj hone htwo (List.mem_of_getElem? hslot)
      (List.mem_of_getElem? hother) heq
    subst hid
    rw [← Option.some.inj (hone.symm.trans htwo)] at hother
    have hnodup := (h.distinct.named i one hone).nodup_keys
    have hlt : p < (one.slots.map Slot.fullKey).length := by
      rw [List.length_map]
      exact (List.getElem?_eq_some_iff.mp hslot).1
    refine ⟨rfl, (List.getElem?_inj hlt hnodup).mp ?_⟩
    simp [hslot, hother, heq]
  · obtain ⟨group, hgroup, hkind, hkey, -⟩ := h.indexed.lives .normal hfind
    refine ⟨group, hgroup, hkind, hkey, fun slot hslot => ?_⟩
    rw [← hscheme, ← hkey]
    exact h.split?_slot hgroup hkind hslot
  · have hindex := h.indexed.find?_of_registered hid hgroup
    rwa [hkind] at hindex
  · exact h.delayed_find?_slot hgroup hkind hslot

/-- A slot was moved out of a group that is still registered, and its key leads to the group that
was made for it. -/
theorem relocated_key_of_pair :
    ((launch "pairs" { Settings.default with slotCapacity := 2 } {} 72 none).1 = .ok pairs ∧
      ({} : KeyScheme).separator.isDigit = false ∧
      (pairs.run [.reserve 0 "a", .reserve 0 "b", .store "0000:a" 1,
        .sweep .relocate 5000]).registry.issued ≤ ({} : KeyScheme).cycle) ∧
    (pairs.run [.reserve 0 "a", .reserve 0 "b", .store "0000:a" 1,
      .sweep .relocate 5000]).registry.normal.find? "0000" = some 0 ∧
    (pairs.run [.reserve 0 "a", .reserve 0 "b", .store "0000:a" 1,
      .sweep .relocate 5000]).registry.find "0000:b" = .ok 1 := by
  have hstart : (launch "pairs" { Settings.default with slotCapacity := 2 } {} 72 none).1 =
      .ok pairs := rfl
  have hseparator : ({} : KeyScheme).separator.isDigit = false := by decide
  have hissued : (pairs.run [.reserve 0 "a", .reserve 0 "b", .store "0000:a" 1,
      .sweep .relocate 5000]).registry.issued ≤ ({} : KeyScheme).cycle := by decide +kernel
  have hdelayed : (pairs.run [.reserve 0 "a", .reserve 0 "b", .store "0000:a" 1,
      .sweep .relocate 5000]).registry.delayed.find? "0000:b" = some 1 := by decide +kernel
  refine ⟨⟨hstart, hseparator, hissued⟩, by decide +kernel, ?_⟩
  exact (keys_lead_home hstart hseparator _ hissued).2.2.2.1 1 _ (.inr ⟨_, hdelayed⟩) rfl
    { child := "b", fullKey := "0000:b" } List.mem_cons_self

end Committer

end BatchedCommit
