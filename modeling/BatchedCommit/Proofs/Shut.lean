import BatchedCommit.Proofs.Deeds

/-!
# BatchedCommit.Proofs.Shut

What is left of a registry after a shutdown (`Registry.Shut`): nothing is registered, nothing
takes reservations and nothing is mourned. Every section leaves that as it is, so a committer that
was closed once stays so (`Committer.shut_of_closed`).
-/

namespace BatchedCommit

variable {ν ε : Type}

namespace Registry

variable {registry later : Registry ν}

/-- A registry that was closed: all of its tables are empty. -/
structure Shut (registry : Registry ν) : Prop where
  closed : registry.closed = true
  current : registry.current = none
  normal : registry.normal = {}
  delayed : registry.delayed = {}
  tombstones : registry.tombstones = {}

namespace Shut

theorem congr (h : registry.Shut) (hclosed : later.closed = registry.closed)
    (hcurrent : later.current = registry.current) (hnormal : later.normal = registry.normal)
    (hdelayed : later.delayed = registry.delayed)
    (htombstones : later.tombstones = registry.tombstones) : later.Shut :=
  ⟨hclosed.trans h.closed, hcurrent.trans h.current, hnormal.trans h.normal,
    hdelayed.trans h.delayed, htombstones.trans h.tombstones⟩

/-- Nothing is registered any more. -/
theorem find?_index (h : registry.Shut) (kind : GroupKind) (key : String) :
    (registry.index kind).find? key = none := by
  cases kind with
  | normal => rw [index, h.normal]; rfl
  | delayed => rw [index, h.delayed]; rfl

/-! ## Sections of a closed registry -/

theorem reserve (h : registry.Shut) (now : Instant) (child : String) :
    registry.reserve now child = { answer := some (.error .closed), registry } := by
  rw [Registry.reserve, if_pos h.closed]

theorem store (h : registry.Shut) (fullKey : String) (value : ν) :
    registry.store fullKey value = { answer := .error .closed, registry } := by
  rw [Registry.store, if_pos h.closed]

theorem remove (h : registry.Shut) (fullKey : String) :
    registry.remove fullKey = { answer := .error .closed, registry } := by
  rw [Registry.remove, if_pos h.closed]

theorem fixSizes (h : registry.Shut) (now : Instant) :
    registry.fixSizes now = { answer := (), registry } := by
  rw [Registry.fixSizes, h.normal]
  rfl

theorem relocate (h : registry.Shut) (now : Instant) :
    registry.relocate now = { answer := true, registry } := by
  rw [Registry.relocate, h.normal]
  rfl

theorem abortOld (h : registry.Shut) (now : Instant) :
    registry.abortOld now = { answer := (), registry } := by
  have hpurge : registry.purge now = registry := by
    obtain ⟨-, -, -, -, htombstones⟩ := h
    rw [purge, htombstones]
    obtain ⟨⟩ := registry
    subst htombstones
    rfl
  rw [Registry.abortOld, hpurge, h.normal, h.delayed]
  rfl

theorem stageOf? (h : registry.Shut) (key : String) : registry.stageOf? key = none := by
  have hlookup : ∃ failure, registry.lookup key = .error failure := by
    rw [lookup, find, h.delayed, h.normal, h.tombstones]
    dsimp only [Table.find?, List.lookup_nil, Table.contains, Option.isSome_none]
    cases registry.scheme.parentOf? key <;> exact ⟨_, rfl⟩
  obtain ⟨failure, hlookup⟩ := hlookup
  rw [Registry.stageOf?, hlookup]

theorem unregister (h : registry.Shut) (kind : GroupKind) (key : String) (id : Nat) :
    registry.unregister kind key id = registry := by
  have hfind := h.find?_index kind key
  have hcurrent := h.current
  unfold Registry.unregister
  cases kind <;> simp_all [index]

/-- Every step of a reachable committer leaves a closed registry closed. -/
theorem deed (h : registry.Shut) {action : Action ν ε} (hdeed : Deed registry action later) :
    later.Shut := by
  cases hdeed with
  | counted counters => exact h.congr rfl rfl rfl rfl rfl
  | reserve now child => rwa [h.reserve]
  | store fullKey value => rwa [h.store]
  | remove fullKey => rwa [h.remove]
  | close counters hopen =>
    rw [h.closed] at hopen
    contradiction
  | fixSizes now => rwa [h.fixSizes]
  | relocate now => rwa [h.relocate]
  | abortOld now => rwa [h.abortOld]
  | claim hgroup hclaim => exact h.congr rfl rfl rfl rfl rfl
  | finish verdict hgroup hstage hclaimed => exact h.congr rfl rfl rfl rfl rfl
  | retire hgroup hended => rwa [h.unregister]

end Shut

/-- A registry is shut after it was closed. -/
theorem shut_close (registry : Registry ν) (counters : Counters) :
    Shut { registry.close.registry with counters } := by
  obtain ⟨groups, heq⟩ := registry.frame_close
  rw [heq]
  exact ⟨rfl, rfl, rfl, rfl, rfl⟩

end Registry

namespace Committer

/-- In every reachable state that is closed, nothing is left in the tables. -/
theorem shut_of_closed {label : String} {settings : Settings} {scheme : KeyScheme}
    {slotBytes : Nat} {unstartable : Option (Sweeper × String)} {start : Committer ν ε}
    (hstart : (launch label settings scheme slotBytes unstartable).1 = .ok start)
    (actions : List (Action ν ε)) (hclosed : (start.run actions).registry.closed = true) :
    (start.run actions).registry.Shut := by
  induction actions using List.reverseRecOn with
  | nil =>
    rw [run_nil, (launch_eq_ok hstart).2.1] at hclosed
    contradiction
  | append_singleton actions action ih =>
    have hs : Staffed (start.run actions) := (Staffed.launch hstart).run actions
    have hdeed := hs.deed action
    rw [run_append] at hclosed ⊢
    change ((start.run actions).step action).registry.closed = true at hclosed
    cases hbefore : (start.run actions).registry.closed with
    | true => exact (ih hbefore).deed hdeed
    | false =>
      obtain ⟨-, hsame⟩ | ⟨now, -, heq⟩ | ⟨counters, -, -, heq⟩ := hdeed.calm
      · rw [hsame, hbefore] at hclosed
        contradiction
      · have hexpired := Registry.expired_abortOld (indexed_of_launch hstart actions) now
        rw [heq, hexpired.closed, hbefore] at hclosed
        contradiction
      · change ((start.run actions).step action).registry.Shut
        rw [heq]
        exact Registry.shut_close _ counters

end Committer

end BatchedCommit
