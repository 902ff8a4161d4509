import BatchedCommit.Proofs.Reachable

/-!
# BatchedCommit.Proofs.Wakeups

No wake-up is ever lost (`Committer.no_lost_wakeup`): nobody sleeps on a group that has ended
or can be claimed, unless a wake-up is due or another caller is about to claim.
-/

namespace BatchedCommit

variable {ν ε : Type}

namespace Committer

/-! ## No wake-up is lost -/

/-- A caller of a group stands in a phase. -/
def InPhase (committer : Committer ν ε) (id n : Nat) (phase : Phase ν) : Prop :=
  ∃ caller, committer.callers[n]? = some caller ∧ caller.group = id ∧ caller.phase = phase

/-- The callers of a group will be woken: a section has left a wake-up behind, or a caller is
about to send one. -/
def WakeupDue (committer : Committer ν ε) (id : Nat) : Prop :=
  id ∈ committer.pending ∨ ∃ n verdict, committer.InPhase id n (.notifying verdict)

/-- Nobody sleeps on a group after its wake-up was delivered. -/
theorem awake_after_deliver {committer : Committer ν ε} {id : Nat} (h : id ∈ committer.pending)
    (n : Nat) : ¬ (committer.deliver id).InPhase id n .asleep := by
  rintro ⟨caller, hcaller, hid, hphase⟩
  rw [deliver, if_pos h] at hcaller
  obtain ⟨old, -, rfl⟩ := getElem?_rouse.mp hcaller
  rw [Caller.rouse_group] at hid
  obtain ⟨-, hlooks⟩ | ⟨hawake, hsame⟩ := Caller.rouse_phase hid
  · rw [hlooks] at hphase
    contradiction
  · rw [hsame] at hphase
    contradiction

/-- In every reachable state, whatever the order of the steps was: whoever sleeps on a group
that has ended will be woken; a group that is ready and not claimed has callers, and one of
them is about to look at it unless they will be woken; a group that is ready and claimed has
exactly one caller that works on its emission. So nobody sleeps on a group that has ended or
can be claimed, unless a wake-up is due or another caller is about to claim. -/
theorem no_lost_wakeup {label : String} {settings : Settings} {scheme : KeyScheme}
    {slotBytes : Nat} {unstartable : Option (Sweeper × String)} {start : Committer ν ε}
    (hstart : (launch label settings scheme slotBytes unstartable).1 = .ok start)
    (actions : List (Action ν ε)) (id : Nat) (group : Group ν)
    (hgroup : (start.run actions).registry.groups[id]? = some group) :
    (group.stage.isTerminal = true → (∃ n, (start.run actions).InPhase id n .asleep) →
      (start.run actions).WakeupDue id) ∧
    (group.stage = .ready → group.claimed = false →
      (∃ n phase, (start.run actions).InPhase id n phase) ∧
        ((∃ n, (start.run actions).InPhase id n .looking) ∨
          (start.run actions).WakeupDue id)) ∧
    (group.stage = .ready → group.claimed = true →
      ∃! n, ∃ phase, (start.run actions).InPhase id n phase ∧ phase.isWorking = true) ∧
    ((∃ n, (start.run actions).InPhase id n .asleep) →
      group.stage.isTerminal = true ∨ (group.stage = .ready ∧ group.claimed = false) →
      (start.run actions).WakeupDue id ∨
        ∃ n, (start.run actions).InPhase id n .looking) := by
  have h : Attended (start.run actions).callers (start.run actions).pending id group :=
    ((Staffed.launch hstart).run actions).attended id group hgroup
  have hterminal : group.stage.isTerminal = true →
      (∃ n, (start.run actions).InPhase id n .asleep) → (start.run actions).WakeupDue id := by
    rintro hstage ⟨n, caller, hn, hid, hphase⟩
    obtain hmem | ⟨m, other, verdict, hm⟩ := h.roused hstage n caller hn hid hphase
    · exact .inl hmem
    · exact .inr ⟨m, verdict, other, hm⟩
  have hclaimable : group.stage = .ready → group.claimed = false →
      (∃ n, (start.run actions).InPhase id n .looking) ∨
        (start.run actions).WakeupDue id := by
    intro hstage hclaimed
    obtain hmem | ⟨n, caller, hn⟩ := h.due hstage hclaimed
    · exact .inr (.inl hmem)
    · exact .inl ⟨n, caller, hn⟩
  refine ⟨hterminal, fun hstage hclaimed => ⟨?_, hclaimable hstage hclaimed⟩,
    fun hstage hclaimed => ?_, fun hasleep hstage => ?_⟩
  · obtain ⟨hslots, hall⟩ := h.coherent.full (.inl hstage)
    obtain ⟨slot, hslot⟩ := List.exists_mem_of_ne_nil _ hslots
    obtain ⟨n, caller, hn, hid, -⟩ := h.manned slot hslot (hall slot hslot)
    exact ⟨n, caller.phase, caller, hn, hid, rfl⟩
  · obtain ⟨n, caller, hn, hid, hworks⟩ := h.worker hstage hclaimed
    refine ⟨n, ⟨caller.phase, ⟨caller, hn, hid, rfl⟩, hworks⟩, ?_⟩
    rintro m ⟨phase, ⟨other, hm, hother, rfl⟩, hworks'⟩
    exact h.alone m n other caller hm hn hother hid hworks' hworks
  · obtain hstage | ⟨hstage, hclaimed⟩ := hstage
    · exact .inl (hterminal hstage hasleep)
    · exact (hclaimable hstage hclaimed).symm

/-- Two callers fill a group. The first one sleeps while the second one ends the emission, and
the second one is about to wake it. -/
theorem wakeup_due_of_two_callers :
    (launch "pairs" { Settings.default with slotCapacity := 2 } {} 72 none).1 = .ok pairs ∧
      ((pairs.run [.reserve 0 "a", .reserve 0 "b", .store "0000:a" 1, .look 0,
        .store "0000:b" 2, .look 1, .begin 1, .conclude 1]).registry.groups[0]?.map
          Group.stage) = some .done ∧
      (pairs.run [.reserve 0 "a", .reserve 0 "b", .store "0000:a" 1, .look 0,
        .store "0000:b" 2, .look 1, .begin 1, .conclude 1]).WakeupDue 0 := by
  have hstart : (launch "pairs" { Settings.default with slotCapacity := 2 } {} 72 none).1 =
      .ok pairs := rfl
  have hstage : ((pairs.run [.reserve 0 "a", .reserve 0 "b", .store "0000:a" 1, .look 0,
      .store "0000:b" 2, .look 1, .begin 1, .conclude 1]).registry.groups[0]?.map
        Group.stage) = some .done := by decide +kernel
  obtain ⟨group, hgroup, hdone⟩ := Option.map_eq_some_iff.mp hstage
  have hsleeper : (pairs.run [.reserve 0 "a", .reserve 0 "b", .store "0000:a" 1, .look 0,
      .store "0000:b" 2, .look 1, .begin 1, .conclude 1]).InPhase 0 0 .asleep :=
    ⟨{ group := 0, fullKey := "0000:a", phase := .asleep }, by rfl, rfl, rfl⟩
  exact ⟨hstart, hstage,
    (no_lost_wakeup hstart _ 0 group hgroup).1 (by rw [hdone]; rfl) ⟨0, hsleeper⟩⟩

end Committer

end BatchedCommit
