import BatchedCommit.Proofs.Naming

/-!
# BatchedCommit.Proofs.Steady

Most sections leave the slots of all groups in place, under the keys that they have
(`Registry.Steady`). The exceptions are reservations, removals and relocations.
-/

namespace BatchedCommit

variable {ν ε : Type}

namespace Registry

variable {registry middle later : Registry ν}

/-- From one registry to a later one, the slots of all groups stayed in place. -/
structure Steady (registry later : Registry ν) : Prop where
  issued : later.issued = registry.issued
  scheme : later.scheme = registry.scheme
  size : later.groups.size = registry.groups.size
  kept : ∀ (id : Nat) (group changed : Group ν), registry.groups[id]? = some group →
    later.groups[id]? = some changed → Group.Steady group changed

namespace Steady

theorem same (hgroups : later.groups = registry.groups) (hissued : later.issued = registry.issued)
    (hscheme : later.scheme = registry.scheme) : Steady registry later where
  issued := hissued
  scheme := hscheme
  size := by rw [hgroups]
  kept := fun id group changed hgroup hchanged => by
    rw [hgroups, hgroup] at hchanged
    rw [Option.some.inj hchanged]
    exact .refl changed

theorem set {own : Nat} {old new : Group ν} (hold : registry.groups[own]? = some old)
    (hsteady : Group.Steady old new)
    (hgroups : later.groups = registry.groups.setIfInBounds own new)
    (hissued : later.issued = registry.issued) (hscheme : later.scheme = registry.scheme) :
    Steady registry later where
  issued := hissued
  scheme := hscheme
  size := by rw [hgroups, Array.size_setIfInBounds]
  kept := fun id group changed hgroup hchanged => by
    rw [hgroups] at hchanged
    obtain ⟨rfl, rfl⟩ | ⟨-, hsame⟩ := getElem?_set_cases hchanged
    · rw [← Option.some.inj (hold.symm.trans hgroup)]
      exact hsteady
    · rw [Option.some.inj (hgroup.symm.trans hsame)]
      exact .refl changed

theorem trans (h : Steady registry middle) (h' : Steady middle later) :
    Steady registry later where
  issued := h'.issued.trans h.issued
  scheme := h'.scheme.trans h.scheme
  size := h'.size.trans h.size
  kept := fun id group changed hgroup hchanged => by
    have hlt : id < middle.groups.size := by
      rw [h.size]
      exact (Array.getElem?_eq_some_iff.mp hgroup).1
    have hbetween := Array.getElem?_eq_getElem hlt
    exact (h.kept id group _ hgroup hbetween).trans (h'.kept id _ changed hbetween hchanged)

end Steady

theorem steady_bump (registry : Registry ν) (counter : Counter) :
    Steady registry (registry.bump counter) := .same rfl rfl rfl

theorem steady_unregister (registry : Registry ν) (kind : GroupKind) (key : String) (id : Nat) :
    Steady registry (registry.unregister kind key id) := by
  refine .same (registry.unregister_groups kind key id) ?_ (registry.unregister_scheme kind key id)
  unfold unregister
  cases kind <;> dsimp only <;> split <;> split <;> rfl

theorem steady_store (registry : Registry ν) (fullKey : String) (value : ν) :
    Steady registry (registry.store fullKey value).registry := by
  obtain ⟨failure, heq⟩ | ⟨own, group, changed, -, -, hgroup, hput, heq⟩ :=
    registry.store_cases fullKey value
  · rw [heq]
    exact .same rfl rfl rfl
  · rw [heq]
    exact .set hgroup ((Group.Steady.put hput).trans (.markReady _)) rfl rfl rfl

theorem steady_glance (registry : Registry ν) (own : Nat) :
    Steady registry (registry.glance own).registry := by
  obtain ⟨group, verdict, -, -, heq⟩ | ⟨group, values, changed, hgroup, -, hclaim, heq⟩ |
    ⟨-, heq⟩ := registry.glance_cases own
  · rw [heq]
    exact .same rfl rfl rfl
  · rw [heq]
    exact .set hgroup (.claim? hclaim) rfl rfl rfl
  · rw [heq]
    exact .same rfl rfl rfl

theorem steady_finish (registry : Registry ν) (own : Nat) (verdict : Verdict) :
    Steady registry (registry.finish own verdict) := by
  rw [finish]
  split
  · next group hgroup => exact .set hgroup (.finish group verdict) rfl rfl rfl
  · exact .same rfl rfl rfl

theorem steady_retire (registry : Registry ν) (own : Nat) :
    Steady registry (registry.retire own) := by
  rw [retire]
  split
  · exact steady_unregister _ _ _ _
  · exact .same rfl rfl rfl

theorem steady_fixSizes (registry : Registry ν) (now : Instant) :
    Steady registry (registry.fixSizes now).registry := by
  refine foldl_keep (P := fun state : Section ν Unit => Steady registry state.registry) _
    (fun state own _ hstate => hstate.trans ?_) (.same rfl rfl rfl)
  obtain heq | ⟨group, hgroup, -, -, heq⟩ := fixSizeOf_cases now state own
  · rw [heq]
    exact .same rfl rfl rfl
  · rw [heq]
    exact .set hgroup ((Group.Steady.fixSize group now).trans (.markReady _)) rfl rfl rfl

theorem steady_strikes (now : Instant) (kind : GroupKind) (entries : List (String × Nat))
    (sweep : Abortion ν) : Steady sweep.state.registry
      (entries.foldl (Abortion.strike now kind) sweep).state.registry := by
  refine foldl_keep
    (P := fun other : Abortion ν => Steady sweep.state.registry other.state.registry) _
    (fun other entry _ hother => hother.trans ?_) (.same rfl rfl rfl)
  obtain heq | ⟨group, hgroup, -, -, heq⟩ := strike_cases now kind other entry.1 entry.2
  · rw [heq]
    exact .same rfl rfl rfl
  · rw [heq]
    exact .set hgroup (.abort group _) rfl rfl rfl

theorem steady_bury (now : Instant) (entries : List (GroupKind × String × Nat))
    (registry : Registry ν) : Steady registry (entries.foldl (bury now) registry) := by
  refine foldl_keep (P := fun other : Registry ν => Steady registry other) _
    (fun other entry _ hother => hother.trans ?_) (.same rfl rfl rfl)
  exact (steady_unregister other entry.1 entry.2.1 entry.2.2).trans (.same rfl rfl rfl)

theorem steady_abortOld (registry : Registry ν) (now : Instant) :
    Steady registry (registry.abortOld now).registry := by
  have hpurge : Steady registry (registry.purge now) := .same rfl rfl rfl
  have hnormal := hpurge.trans (steady_strikes now .normal (registry.purge now).normal.entries
    { state := { answer := (), registry := registry.purge now } })
  have hdelayed := hnormal.trans
    (steady_strikes now .delayed (registry.purge now).delayed.entries _)
  exact hdelayed.trans (steady_bury now _ _)

theorem steady_close (registry : Registry ν) : Steady registry registry.close.registry := by
  refine foldl_keep (P := fun state : Section ν Unit => Steady registry state.registry) _
    (fun state own _ hstate => hstate.trans ?_) (.same rfl rfl rfl)
  obtain heq | ⟨group, hgroup, -, heq⟩ := abandon_cases state own
  · rw [heq]
    exact .same rfl rfl rfl
  · rw [heq]
    exact .set hgroup (.abort group _) rfl rfl rfl

end Registry

/-! ## Steps that leave slots in place -/

/-- The action neither reserves nor removes a slot, nor moves slots between groups. -/
def Action.leavesSlots : Action ν ε → Bool
  | .reserve _ _ | .remove _ | .sweep .relocate _ => false
  | _ => true

/-- All other actions leave the slots in place. -/
theorem Committer.steady_step (committer : Committer ν ε) {action : Action ν ε}
    (h : action.leavesSlots = true) :
    Registry.Steady committer.registry (committer.step action).registry := by
  have hsection := committer.step_section action
  generalize (committer.step action).registry = later at hsection
  cases hsection with
  | counted counters => exact .same rfl rfl rfl
  | reserve now child => contradiction
  | store fullKey value => exact Registry.steady_store _ fullKey value
  | remove fullKey => contradiction
  | close counters => exact (Registry.steady_close _).trans (.same rfl rfl rfl)
  | fixSizes now => exact Registry.steady_fixSizes _ now
  | relocate now => contradiction
  | abortOld now => exact Registry.steady_abortOld _ now
  | glance n id => exact Registry.steady_glance _ id
  | finish n id verdict => exact Registry.steady_finish _ id verdict
  | retire n id => exact Registry.steady_retire _ id

end BatchedCommit
