import BatchedCommit.Proofs.Current
import BatchedCommit.Proofs.Distinct
import BatchedCommit.Proofs.Shut

/-!
# BatchedCommit.Proofs.Enrolment

The converse of `BatchedCommit.Proofs.Index`: until the committer is closed, a group that has slots
and has not ended is registered (`Registry.Enrolled`). A section that takes a group out of its index
empties or ends it, so the sweeps and the shutdown reach every group for which somebody may wait.
-/

namespace BatchedCommit

variable {ν ε : Type}

namespace Table

/-- A table into which entries were inserted has an entry for each of their keys, and for those
that it had one for. -/
theorem find?_foldl_insert_ne_none {entries : List (String × Nat)} {table : Table Nat}
    {key : String} (h : table.find? key ≠ none ∨ key ∈ entries.map Prod.fst) :
    (entries.foldl (fun table entry => table.insert entry.1 entry.2) table).find? key ≠ none := by
  induction entries generalizing table with
  | nil => simpa using h
  | cons first rest ih =>
    refine ih ?_
    rw [find?_insert]
    split
    · simp
    · next hne => simpa [hne] using h

end Table

namespace Registry

variable {registry later : Registry ν}

/-- Two groups of one kind and key are the same. -/
theorem Distinct.id_of_key (h : registry.Distinct) {i j : Nat} {one two : Group ν}
    (hone : registry.groups[i]? = some one) (htwo : registry.groups[j]? = some two)
    (hkind : one.kind = two.kind) (hkey : one.key = two.key) : i = j := by
  cases hone' : one.kind with
  | normal => exact h.unique i j one two hone htwo hone' (by rw [← hkind, hone']) hkey
  | delayed =>
    refine h.apart i j one two one.key hone htwo ?_ ?_
    · rw [Group.fullKeys_delayed hone']
      exact List.mem_singleton_self _
    · rw [Group.fullKeys_delayed (by rw [← hkind, hone']), hkey]
      exact List.mem_singleton_self _

/-- An entry under the kind and the key of a group leads to that group. -/
theorem Distinct.find?_of_ne_none (h : registry.Distinct) (hindexed : registry.Indexed) {id : Nat}
    {group : Group ν} (hgroup : registry.groups[id]? = some group)
    (hfind : (registry.index group.kind).find? group.key ≠ none) :
    (registry.index group.kind).find? group.key = some id := by
  obtain ⟨place, hplace⟩ := Option.ne_none_iff_exists'.mp hfind
  obtain ⟨other, hother, hkind, hkey, -⟩ := hindexed.lives group.kind hplace
  rw [hplace, h.id_of_key hother hgroup hkind hkey]

/-- Until the committer is closed, a group with slots that has not ended is registered. -/
def Enrolled (registry : Registry ν) : Prop :=
  registry.closed = false → ∀ (id : Nat) (group : Group ν), registry.groups[id]? = some group →
    group.slots ≠ [] → group.stage.isTerminal = false →
    (registry.index group.kind).find? group.key = some id

namespace Enrolled

theorem empty (settings : Settings) (scheme : KeyScheme) (slotBytes : Nat) :
    (Registry.empty settings scheme slotBytes : Registry ν).Enrolled :=
  fun _ id group hgroup => by contradiction

theorem congr (h : registry.Enrolled) (hgroups : later.groups = registry.groups)
    (hindex : later.index = registry.index) (hclosed : later.closed = registry.closed) :
    later.Enrolled := by
  rw [Enrolled, hgroups, hindex, hclosed]
  exact h

/-- One group changed, and neither took its first slot nor came back from its end. -/
theorem set (h : registry.Enrolled) {own : Nat} {old new : Group ν}
    (hold : registry.groups[own]? = some old)
    (hgroups : later.groups = registry.groups.setIfInBounds own new)
    (hhead : Group.SameHead old new) (hslots : new.slots ≠ [] → old.slots ≠ [])
    (hstage : new.stage.isTerminal = false → old.stage.isTerminal = false)
    (hindex : later.index = registry.index) (hclosed : later.closed = registry.closed) :
    later.Enrolled := by
  intro hopen id group hgroup hsome hlive
  rw [hclosed] at hopen
  rw [hgroups] at hgroup
  rw [hindex]
  obtain ⟨rfl, rfl⟩ | ⟨-, hsame⟩ := getElem?_set_cases hgroup
  · rw [hhead.kind, hhead.key]
    exact h hopen id old hold (hslots hsome) (hstage hlive)
  · exact h hopen id group hsame hsome hlive

/-- A group leaves its index that has no slots or has ended. -/
theorem unregister (h : registry.Enrolled) (kind : GroupKind) (key : String) (own : Nat)
    (hgone : ∀ group, registry.groups[own]? = some group →
      group.slots = [] ∨ group.stage.isTerminal = true) :
    (registry.unregister kind key own).Enrolled := by
  intro hopen id group hgroup hsome hlive
  rw [unregister_closed] at hopen
  rw [unregister_groups] at hgroup
  refine (registry.find?_unregister kind key own group.kind group.key id).mpr
    ⟨h hopen id group hgroup hsome hlive, ?_⟩
  rintro ⟨-, -, rfl⟩
  obtain hempty | hended := hgone group hgroup
  · exact hsome hempty
  · rw [hlive] at hended
    contradiction

theorem isTerminal_markReady {group : Group ν} :
    group.markReady.stage.isTerminal = group.stage.isTerminal := by
  rw [Group.markReady]
  split
  · next hcomplete =>
    rw [(Group.isComplete_iff.mp hcomplete).1]
    rfl
  · rfl

/-! ## Sections -/

theorem reserve (h : registry.Enrolled) (hindexed : registry.Indexed)
    (hsteered : registry.Steered) {now : Instant} {child : String}
    (hlater : (registry.reserve now child).registry.Indexed)
    (hdistinct : (registry.reserve now child).registry.Distinct) :
    (registry.reserve now child).registry.Enrolled := by
  obtain ⟨-, heq⟩ | ⟨_, _, -, -, -, -, -, heq⟩ |
    ⟨own, group, changed, -, hcurrent, hgroup, hreserve, heq⟩ |
    ⟨parent, changed, -, -, -, rfl, hreserve, heq⟩ | ⟨-, -, -, heq⟩ :=
    registry.reserve_cases now child
  · rwa [heq]
  · rwa [heq]
  · rw [heq]
    obtain ⟨same, hsame, -, hfind⟩ := hsteered.listed own hcurrent
    obtain ⟨other, hother, hslots, -⟩ := hindexed.of_registered (.inl ⟨_, hfind⟩)
    obtain rfl := Option.some.inj (hgroup.symm.trans hother)
    refine h.set hgroup rfl (.reserve hreserve) (fun _ => hslots) (fun _ => ?_) rfl rfl
    rw [(Group.reserve_eq_ok hreserve).1]
    rfl
  · rw [heq] at hlater hdistinct ⊢
    have hhead := Group.SameHead.reserve hreserve
    intro hopen id new hnew hsome hlive
    refine hdistinct.find?_of_ne_none hlater hnew ?_
    rw [afterOpen, Array.getElem?_push] at hnew
    have hnormal : ∀ {key : String}, key = registry.scheme.parentKey registry.issued ∨
        registry.normal.find? key ≠ none →
        (registry.afterOpen changed).normal.find? key ≠ none := by
      intro key hkey
      rw [afterOpen, Table.find?_insert]
      split
      · simp
      · next hne => exact hkey.resolve_left hne
    split at hnew
    · obtain rfl := Option.some.inj hnew
      rw [show changed.kind = .normal from hhead.kind]
      exact hnormal (.inl hhead.key)
    · have hfind := h hopen id new hnew hsome hlive
      cases hkind : new.kind with
      | normal =>
        rw [hkind] at hfind
        have hold : registry.normal.find? new.key = some id := hfind
        exact hnormal (.inr (by simp [hold]))
      | delayed =>
        rw [hkind] at hfind
        have hold : (registry.afterOpen changed).delayed.find? new.key = some id := hfind
        simp [index, hold]
  · rw [heq]
    exact h.congr rfl (index_congr rfl rfl) rfl

theorem remove (h : registry.Enrolled) (fullKey : String) :
    (registry.remove fullKey).registry.Enrolled := by
  obtain ⟨_, heq⟩ | ⟨own, group, changed, -, -, hgroup, hremove, hempty, heq⟩ |
    ⟨own, group, changed, -, -, hgroup, hremove, -, heq⟩ := registry.remove_cases fullKey
  · rwa [heq]
  · rw [heq]
    have hlt : own < registry.groups.size := (Array.getElem?_eq_some_iff.mp hgroup).1
    obtain ⟨-, _, _, _, -, -, -, -, hchanged⟩ := Group.remove_eq_ok hremove
    have hset : ((registry.setGroup own changed).bump .slotsRemoved).Enrolled :=
      h.set hgroup rfl (.remove hremove) (fun hsome => absurd hempty hsome)
        (fun hlive => by rwa [hchanged] at hlive) rfl rfl
    refine (hset.unregister changed.kind changed.key own fun other hother => ?_).congr rfl
      (index_congr rfl rfl) rfl
    rw [show ((registry.setGroup own changed).bump .slotsRemoved).groups[own]? = some changed from
      Array.getElem?_setIfInBounds_self_of_lt hlt] at hother
    obtain rfl := Option.some.inj hother
    exact .inl hempty
  · rw [heq]
    obtain ⟨-, before, slot, after, hslots, -, -, -, hchanged⟩ := Group.remove_eq_ok hremove
    refine h.set hgroup rfl ((Group.SameHead.remove hremove).trans (.markReady changed))
      (fun _ => by simp [hslots]) (fun hlive => ?_) rfl rfl
    rwa [isTerminal_markReady, hchanged] at hlive

theorem fixSizes (h : registry.Enrolled) (now : Instant) :
    (registry.fixSizes now).registry.Enrolled := by
  refine foldl_keep (P := fun state : Section ν Unit => state.registry.Enrolled) _
    (fun state own _ hstate => ?_) h
  obtain heq | ⟨group, hgroup, -, hopen, heq⟩ := fixSizeOf_cases now state own
  · rwa [heq]
  · rw [heq]
    refine hstate.set hgroup rfl ((Group.SameHead.fixSize group now).trans (.markReady _))
      (fun hsome => ?_) (fun _ => by rw [hopen]; rfl) rfl rfl
    rwa [Group.markReady_slots, Group.fixSize, if_pos hopen] at hsome

/-- The groups of a sweep that moves slots, while it is under way: those that it has made are going
to be entered. -/
def Underway (sweep : Relocation ν) : Prop :=
  sweep.state.registry.closed = false → ∀ (id : Nat) (group : Group ν),
    sweep.state.registry.groups[id]? = some group → group.slots ≠ [] →
    group.stage.isTerminal = false →
    (sweep.state.registry.index group.kind).find? group.key = some id ∨
      (group.kind = .delayed ∧ (group.key, id) ∈ sweep.moved)

theorem mem_entriesFrom (first : Nat) {i : Nat} {slots : List (Slot ν)} {slot : Slot ν}
    (h : slots[i]? = some slot) : (slot.fullKey, first + i) ∈ entriesFrom first slots := by
  refine List.mem_map.mpr ⟨(slot, first + i), ?_, rfl⟩
  rw [List.mem_zipIdx_iff_le_and_getElem?_sub]
  exact ⟨Nat.le_add_right _ _, by rw [Nat.add_sub_cancel_left, h]⟩

theorem Underway.relieve {sweep : Relocation ν} (h : Underway sweep) (now : Instant) (own : Nat) :
    Underway (Relocation.relieve now sweep own) := by
  obtain ⟨heq, -⟩ | ⟨group, -, hgroup, hheld, -, heq⟩ := relieve_cases now sweep own
  · rwa [heq]
  · rw [heq]
    obtain ⟨-, hstage, -, slot, hslot, -⟩ := Group.isHeldBack_iff.mp hheld
    intro hopen id new hnew hsome hlive
    change (sweep.state.registry.groups.setIfInBounds own _ ++ _)[id]? = some new at hnew
    rw [Array.getElem?_append, Array.size_setIfInBounds] at hnew
    split at hnew
    · obtain ⟨rfl, rfl⟩ | ⟨-, hsame⟩ := getElem?_set_cases hnew
      · have hhead := Group.SameHead.leftBehind sweep.state.registry.scheme group
        rw [hhead.kind, hhead.key]
        refine (h hopen id group hgroup (List.ne_nil_of_mem hslot)
          (by rw [hstage]; rfl)).imp_right fun hmoved => ?_
        exact ⟨hmoved.1, List.mem_append_left _ hmoved.2⟩
      · exact (h hopen id new hsame hsome hlive).imp_right fun hmoved =>
          ⟨hmoved.1, List.mem_append_left _ hmoved.2⟩
    · next hle =>
      rw [List.getElem?_toArray, List.getElem?_map, Option.map_eq_some_iff] at hnew
      obtain ⟨moved, hmoved, rfl⟩ := hnew
      have hentry := mem_entriesFrom sweep.state.registry.groups.size hmoved
      rw [Nat.add_sub_cancel' (Nat.le_of_not_lt hle)] at hentry
      exact .inr ⟨rfl, List.mem_append_right _ hentry⟩

/-- Groups that lose some of their slots stay registered. -/
theorem spare (h : registry.Enrolled) {now : Instant} {groups : Array (Group ν)}
    (hspares : registry.Spares now groups) (hsize : groups.size = registry.groups.size)
    (hgroups : later.groups = groups) (hindex : later.index = registry.index)
    (hclosed : later.closed = registry.closed) : later.Enrolled := by
  intro hopen id group hgroup hsome hlive
  rw [hclosed] at hopen
  rw [hgroups] at hgroup
  rw [hindex]
  obtain ⟨old, hold, rfl | ⟨hheld, rfl⟩⟩ := hspares.before hsize hgroup
  · exact h hopen id group hold hsome hlive
  · obtain ⟨-, hstage, -, slot, hslot, -⟩ := Group.isHeldBack_iff.mp hheld
    have hhead := Group.SameHead.leftBehind registry.scheme old
    rw [hhead.kind, hhead.key]
    exact h hopen id old hold (List.ne_nil_of_mem hslot) (by rw [hstage]; rfl)

theorem relocate (h : registry.Enrolled) {now : Instant}
    (hlater : (registry.relocate now).registry.Indexed)
    (hdistinct : (registry.relocate now).registry.Distinct) :
    (registry.relocate now).registry.Enrolled := by
  cases hbroken : (registry.relieved now).broken with
  | true =>
    obtain ⟨groups, count, hsize, hspares, heq⟩ := relocate_registry_of_broken hbroken
    rw [heq]
    exact h.spare hspares hsize rfl (index_congr rfl rfl) rfl
  | false =>
    have hsweep : Underway (registry.relieved now) :=
      foldl_keep (P := Underway) _ (fun sweep own _ hsweep => hsweep.relieve now own)
        fun hopen id group hgroup hsome hlive => .inl (h hopen id group hgroup hsome hlive)
    intro hopen id group hgroup hsome hlive
    refine hdistinct.find?_of_ne_none hlater hgroup ?_
    rw [relocate_of_not_broken hbroken] at hopen hgroup ⊢
    have hentered := hsweep hopen id group hgroup hsome hlive
    cases hkind : group.kind with
    | normal =>
      rw [hkind] at hentered
      obtain hfind | ⟨hdelayed, -⟩ := hentered
      · have hsame : (registry.relieved now).state.registry.normal.find? group.key = some id :=
          hfind
        show (registry.relieved now).state.registry.normal.find? group.key ≠ none
        simp [hsame]
      · contradiction
    | delayed =>
      rw [hkind] at hentered
      refine Table.find?_foldl_insert_ne_none (hentered.imp (fun hfind => ?_) fun hmoved => ?_)
      · have hsame : (registry.relieved now).state.registry.delayed.find? group.key = some id :=
          hfind
        simp [hsame]
      · exact List.mem_map_of_mem (f := Prod.fst) hmoved.2

/-- Every registered group that ended in a sweep has left its index, and no other one. -/
theorem expire (h : registry.Enrolled) {now : Instant} (hexpired : Expired now registry later) :
    later.Enrolled := by
  intro hopen id group hgroup hsome hlive
  rw [hexpired.closed] at hopen
  by_cases hdue : registry.Registered id ∧ registry.isDue now id = true
  · obtain ⟨hid, hdue⟩ := hdue
    obtain ⟨kind, key, hfind⟩ := registered_iff.mp hid
    obtain ⟨old, hold, -, habort⟩ := isDue_iff.mp hdue
    rw [hexpired.aborted kind key id old hfind hold hdue, Group.abort, if_pos habort] at hgroup
    rw [← Option.some.inj hgroup] at hlive
    contradiction
  · have hnot : registry.Registered id → registry.isDue now id = false := fun hid =>
      Bool.eq_false_iff.mpr fun hold => hdue ⟨hid, hold⟩
    rw [hexpired.spared id hnot] at hgroup
    have hfind := h hopen id group hgroup hsome hlive
    exact (hexpired.index _ _ _).mpr ⟨hfind, hnot (registered_iff.mpr ⟨_, _, hfind⟩)⟩

/-- Every step of a reachable committer keeps the groups registered. -/
theorem deed (h : registry.Enrolled) (hindexed : registry.Indexed) (hsteered : registry.Steered)
    (hlater : later.Indexed) (hdistinct : later.Distinct) {action : Action ν ε}
    (hdeed : Deed registry action later) : later.Enrolled := by
  cases hdeed with
  | counted counters => exact h.congr rfl rfl rfl
  | reserve now child => exact h.reserve hindexed hsteered hlater hdistinct
  | store fullKey value =>
    obtain ⟨_, heq⟩ | ⟨own, group, changed, -, -, hgroup, hput, heq⟩ :=
      registry.store_cases fullKey value
    · rwa [heq]
    · rw [heq]
      obtain ⟨-, before, slot, after, hslots, -, -, -, hchanged⟩ := Group.put_eq_ok hput
      refine h.set hgroup rfl ((Group.SameHead.put hput).trans (.markReady changed))
        (fun _ => by simp [hslots]) (fun hlive => ?_) rfl rfl
      rwa [isTerminal_markReady, hchanged] at hlive
  | remove fullKey => exact h.remove fullKey
  | close counters hopen =>
    intro hclosed
    rw [(shut_close registry counters).closed] at hclosed
    contradiction
  | fixSizes now => exact h.fixSizes now
  | relocate now => exact h.relocate hlater hdistinct
  | abortOld now => exact h.expire (expired_abortOld hindexed now)
  | claim hgroup hclaim =>
    obtain ⟨hstage, -, -, hchanged⟩ := Group.claim?_eq_some hclaim
    exact h.set hgroup rfl (.claim? hclaim) (fun hsome => by simpa [hchanged] using hsome)
      (fun _ => by rw [hstage]; rfl) rfl rfl
  | finish verdict hgroup hstage hclaimed =>
    exact h.set hgroup rfl ⟨rfl, rfl, rfl, rfl, rfl⟩ id (fun _ => by rw [hstage]; rfl) rfl rfl
  | retire hgroup hended =>
    refine h.unregister _ _ _ fun other hother => .inr ?_
    rwa [← Option.some.inj (hgroup.symm.trans hother)]

end Enrolled

end Registry

namespace Committer

variable {label : String} {settings : Settings} {scheme : KeyScheme}
  {slotBytes : Nat} {unstartable : Option (Sweeper × String)} {start : Committer ν ε}

/-- The counter of parent keys never goes back. -/
theorem issued_le_of_append
    (hstart : (launch label settings scheme slotBytes unstartable).1 = .ok start)
    (hseparator : scheme.separator.isDigit = false) (actions more : List (Action ν ε)) :
    (start.run actions).registry.issued ≤ (start.run (actions ++ more)).registry.issued := by
  induction more using List.reverseRecOn with
  | nil => simp
  | append_singleton more action ih =>
    have hscheme := (run_constant hstart (actions ++ more)).2
    have hkeeps := (start.run (actions ++ more)).keeps_step (by rw [hscheme, hseparator]) action
    rw [← List.append_assoc, run_append]
    exact Nat.le_trans ih hkeeps.issued

/-- In every reachable state that is open, a group with slots that has not ended is registered, as
long as the counter of parent keys has not come round. -/
theorem enrolled_run (hstart : (launch label settings scheme slotBytes unstartable).1 = .ok start)
    (hseparator : scheme.separator.isDigit = false) (actions : List (Action ν ε))
    (hissued : (start.run actions).registry.issued ≤ scheme.cycle) :
    (start.run actions).registry.Enrolled := by
  induction actions using List.reverseRecOn with
  | nil =>
    rw [run_nil, (launch_eq_ok hstart).2.1]
    exact .empty settings scheme slotBytes
  | append_singleton actions action ih =>
    have hs : Staffed (start.run actions) := (Staffed.launch hstart).run actions
    have hlater := indexed_of_launch hstart (actions ++ [action])
    have hdistinct := distinct_run hstart hseparator (actions ++ [action]) hissued
    have hbefore := Nat.le_trans (issued_le_of_append hstart hseparator actions [action]) hissued
    rw [run_append] at hlater hdistinct ⊢
    exact (ih hbefore).deed (indexed_of_launch hstart actions) (steered_run hstart actions) hlater
      hdistinct (hs.deed action)

end Committer

end BatchedCommit
