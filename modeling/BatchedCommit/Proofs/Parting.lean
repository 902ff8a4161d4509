import BatchedCommit.Proofs.Deeds
import BatchedCommit.Proofs.Fairness

/-!
# BatchedCommit.Proofs.Parting

How a group leaves its index after its emission. The caller that has told a group how its emission
ended takes it out; until then it is on its way out itself (`Committer.Parting`). Nothing enters the
group again, because no section enters a group that it has not made (`Registry.Deed.registered`).
-/

namespace BatchedCommit

variable {ν ε : Type}

/-! ## What is entered -/

namespace Registry

variable {registry later : Registry ν} {id : Nat}

/-- Nothing is entered when a group leaves its index. -/
theorem registered_unregister {kind : GroupKind} {key : String} {own : Nat}
    (h : (registry.unregister kind key own).Registered id) : registry.Registered id := by
  obtain ⟨other, name, hfind⟩ := registered_iff.mp h
  exact registered_iff.mpr ⟨other, name, ((find?_unregister _ _ _ _ _ _ _).mp hfind).1⟩

/-- A group that has left its index is not registered. -/
theorem Indexed.not_registered_unregister (h : registry.Indexed) {group : Group ν}
    (hgroup : registry.groups[id]? = some group) :
    ¬ (registry.unregister group.kind group.key id).Registered id := by
  intro hid
  obtain ⟨kind, key, hfind⟩ := registered_iff.mp hid
  obtain ⟨hold, hnot⟩ := (find?_unregister _ _ _ _ _ _ _).mp hfind
  obtain ⟨same, hsame, hkind, hkey, -⟩ := h.lives kind hold
  rw [← Option.some.inj (hgroup.symm.trans hsame)] at hkind hkey
  exact hnot ⟨hkind.symm, hkey.symm, rfl⟩

theorem le_of_mem_entriesFrom {first : Nat} {slots : List (Slot ν)} {entry : String × Nat}
    (h : entry ∈ entriesFrom first slots) : first ≤ entry.2 := by
  obtain ⟨⟨slot, place⟩, hmem, rfl⟩ := List.mem_map.mp h
  exact (List.mem_zipIdx_iff_le_and_getElem?_sub.mp hmem).1

/-- A sweep that moves slots, under way: what it is going to enter was made by it. -/
structure Relocation.Fresh (registry : Registry ν) (sweep : Relocation ν) : Prop where
  normal : sweep.state.registry.normal = registry.normal
  delayed : sweep.state.registry.delayed = registry.delayed
  size : registry.groups.size ≤ sweep.state.registry.groups.size
  moved : ∀ entry ∈ sweep.moved, registry.groups.size ≤ entry.2

theorem Relocation.Fresh.relieve {sweep : Relocation ν} (h : sweep.Fresh registry)
    (now : Instant) (own : Nat) : (Relocation.relieve now sweep own).Fresh registry := by
  obtain ⟨heq, -⟩ | ⟨group, -, -, -, -, heq⟩ := relieve_cases now sweep own
  · rwa [heq]
  · rw [heq]
    refine ⟨h.normal, h.delayed, ?_, fun entry hentry => ?_⟩
    · rw [afterRelief, Array.size_append, Array.size_setIfInBounds]
      exact Nat.le_add_right_of_le h.size
    · cases List.mem_append.mp hentry with
      | inl hold => exact h.moved entry hold
      | inr hnew => exact Nat.le_trans h.size (le_of_mem_entriesFrom hnew)

/-- What is found in a table after entries were made was there, or is one of them. -/
theorem find?_foldl_insert {entries : List (String × Nat)} {table : Table Nat} {key : String}
    (h : (entries.foldl (fun table entry => table.insert entry.1 entry.2) table).find? key =
      some id) : table.find? key = some id ∨ (key, id) ∈ entries := by
  induction entries generalizing table with
  | nil => exact .inl h
  | cons first rest ih =>
    obtain hold | hnew := ih h
    · rw [Table.find?_insert] at hold
      split at hold
      · next heq =>
        rw [heq, ← Option.some.inj hold]
        exact .inr List.mem_cons_self
      · exact .inl hold
    · exact .inr (List.mem_cons_of_mem _ hnew)

theorem registered_relocate {now : Instant}
    (h : (registry.relocate now).registry.Registered id) :
    registry.Registered id ∨ registry.groups[id]? = none := by
  cases hbroken : (registry.relieved now).broken with
  | true =>
    obtain ⟨groups, count, -, -, heq⟩ := relocate_registry_of_broken hbroken
    rw [heq] at h
    exact .inl h
  | false =>
    have hfresh : (registry.relieved now).Fresh registry :=
      foldl_keep (P := Relocation.Fresh registry) _
        (fun sweep own _ hsweep => hsweep.relieve now own)
        ⟨rfl, rfl, Nat.le_refl _, fun _ hentry => by contradiction⟩
    rw [relocate_of_not_broken hbroken] at h
    obtain ⟨key, hnormal⟩ | ⟨key, hdelayed⟩ := h
    · rw [show _ = registry.normal from hfresh.normal] at hnormal
      exact .inl (.inl ⟨key, hnormal⟩)
    · obtain hold | hmoved := find?_foldl_insert hdelayed
      · rw [hfresh.delayed] at hold
        exact .inl (.inr ⟨key, hold⟩)
      · exact .inr (Array.getElem?_eq_none (hfresh.moved _ hmoved))

/-- A group that is registered after a step was registered before, or was made in the step. -/
theorem Deed.registered (hindexed : registry.Indexed) {action : Action ν ε}
    (h : Deed registry action later) (hid : later.Registered id) :
    registry.Registered id ∨ registry.groups[id]? = none := by
  cases h with
  | counted counters => exact .inl hid
  | reserve now child =>
    obtain ⟨-, heq⟩ | ⟨_, _, -, -, -, -, -, heq⟩ | ⟨_, _, _, -, -, -, -, heq⟩ |
      ⟨parent, changed, -, -, -, -, -, heq⟩ | ⟨-, -, -, heq⟩ :=
      registry.reserve_cases now child
    · rw [heq] at hid
      exact .inl hid
    · rw [heq] at hid
      exact .inl hid
    · rw [heq] at hid
      exact .inl hid
    · rw [heq] at hid
      obtain ⟨key, hnormal⟩ | hdelayed := hid
      · change (registry.normal.insert (registry.scheme.parentKey registry.issued)
          registry.groups.size).find? key = some id at hnormal
        rw [Table.find?_insert] at hnormal
        split at hnormal
        · exact .inr (Array.getElem?_eq_none (Option.some.inj hnormal).le)
        · exact .inl (.inl ⟨key, hnormal⟩)
      · exact .inl (.inr hdelayed)
    · rw [heq] at hid
      exact .inl hid
  | store fullKey value =>
    obtain ⟨_, heq⟩ | ⟨_, _, _, -, -, -, -, heq⟩ := registry.store_cases fullKey value <;>
      rw [heq] at hid <;> exact .inl hid
  | remove fullKey =>
    obtain ⟨_, heq⟩ | ⟨own, group, changed, -, -, -, -, -, heq⟩ | ⟨_, _, _, -, -, -, -, -, heq⟩ :=
      registry.remove_cases fullKey
    · rw [heq] at hid
      exact .inl hid
    · rw [heq] at hid
      have hbefore : ((registry.setGroup own changed).bump .slotsRemoved).Registered id :=
        registered_unregister hid
      exact .inl hbefore
    · rw [heq] at hid
      exact .inl hid
  | close counters hopen =>
    obtain ⟨groups, heq⟩ := registry.frame_close
    rw [heq] at hid
    obtain ⟨key, hnormal⟩ | ⟨key, hdelayed⟩ := hid <;> contradiction
  | fixSizes now =>
    obtain ⟨groups, current, heq⟩ := registry.frame_fixSizes now
    rw [heq] at hid
    exact .inl hid
  | relocate now => exact registered_relocate hid
  | abortOld now =>
    obtain ⟨kind, key, hfind⟩ := registered_iff.mp hid
    have hold := ((expired_abortOld hindexed now).index kind key id).mp hfind
    exact .inl (registered_iff.mpr ⟨kind, key, hold.1⟩)
  | claim hgroup hclaim => exact .inl hid
  | finish verdict hgroup hstage hclaimed => exact .inl hid
  | retire hgroup hended => exact .inl (registered_unregister hid)

end Registry

/-! ## Who takes a group out -/

/-- The emission of the caller is over, and it has not taken its group out of the index yet. -/
def Phase.isParting : Phase ν → Bool
  | emitted _ | notifying _ | leaving _ => true
  | looking | asleep | claimed _ | emitting _ | returned _ => false

namespace Committer

variable {committer : Committer ν ε} {id n : Nat} {verdict : Verdict}

/-- The caller has told its group, and is about to wake the others. -/
theorem InPhase.notifying (h : committer.InPhase id n (.emitted verdict)) :
    (committer.conclude n).InPhase id n (.notifying verdict) := by
  have hown := h
  obtain ⟨⟨own, key, _⟩, hcaller, rfl, rfl⟩ := h
  rw [Committer.conclude, hcaller]
  exact hown.setPhase rfl

/-- The caller has taken its group out. -/
theorem InPhase.taken_out (h : committer.InPhase id n (.leaving verdict))
    (hindexed : committer.registry.Indexed) {group : Group ν}
    (hgroup : committer.registry.groups[id]? = some group) :
    ¬ (committer.leave n).registry.Registered id := by
  obtain ⟨⟨own, key, _⟩, hcaller, rfl, rfl⟩ := h
  rw [Committer.leave, hcaller]
  show ¬ (committer.registry.retire own).Registered own
  rw [Registry.retire, hgroup]
  exact hindexed.not_registered_unregister hgroup

/-- Where a group is registered although its emission is over, a caller is about to take it out. -/
def Parting (committer : Committer ν ε) : Prop :=
  ∀ (id : Nat) (group : Group ν), committer.registry.Registered id →
    committer.registry.groups[id]? = some group → group.stage = .done →
    ∃ n verdict, committer.InPhase id n (.notifying verdict) ∨
      committer.InPhase id n (.leaving verdict)

theorem Parting.step (h : committer.Parting) (hs : Staffed committer)
    (hindexed : committer.registry.Indexed) (action : Action ν ε) :
    (committer.step action).Parting := by
  intro id changed hid hchanged hdone
  obtain hgroup | ⟨n, caller, verdict, group, hcaller, hown, hphase, hgroup, rfl⟩ :=
    (committer.move_step action hs.known).done_before hchanged hdone
  · -- the group was done before, so its caller goes on, and it does not leave: the group is listed
    have hbefore : committer.registry.Registered id := by
      refine ((hs.deed action).registered hindexed hid).resolve_right fun hnone => ?_
      rw [hnone] at hgroup
      contradiction
    obtain ⟨n, verdict, hnotifying | hleaving⟩ := h id changed hbefore hgroup hdone
    · obtain rfl | hstays | ⟨hasleep, -⟩ := hnotifying.step action
      · exact ⟨n, verdict, .inr hnotifying.announce.1⟩
      · exact ⟨n, verdict, .inl hstays⟩
      · contradiction
    · obtain rfl | hstays | ⟨hasleep, -⟩ := hleaving.step action
      · exact absurd hid (hleaving.taken_out hindexed hgroup)
      · exact ⟨n, verdict, .inr hstays⟩
      · contradiction
  · -- the group is done now, so its caller has told it
    have hemitted : committer.InPhase id n (.emitted verdict) := ⟨caller, hcaller, hown, hphase⟩
    obtain rfl | ⟨other, hother, hsame, hstays⟩ | ⟨hasleep, -⟩ := hemitted.step action
    · exact ⟨n, verdict, .inl hemitted.notifying⟩
    · have hfits := ((hs.step action).attended id _ hchanged).fits n other hother hsame
      rw [hstays] at hfits
      exact absurd hfits.1 (by simp [Group.finish])
    · contradiction

/-- In every reachable state, whoever has a group that is done and registered takes it out. -/
theorem parting_run {label : String} {settings : Settings} {scheme : KeyScheme}
    {slotBytes : Nat} {unstartable : Option (Sweeper × String)} {start : Committer ν ε}
    (hstart : (launch label settings scheme slotBytes unstartable).1 = .ok start)
    (actions : List (Action ν ε)) : (start.run actions).Parting := by
  induction actions using List.reverseRecOn with
  | nil =>
    intro id group _ hgroup
    rw [run_nil, (launch_eq_ok hstart).2.1] at hgroup
    contradiction
  | append_singleton actions action ih =>
    rw [run_append]
    exact ih.step ((Staffed.launch hstart).run actions) (indexed_of_launch hstart actions) action

end Committer

end BatchedCommit
