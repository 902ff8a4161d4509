import Mathlib.Data.List.Forall2
import BatchedCommit.Group.Operation

/-!
# BatchedCommit.Proofs.Coherence

What holds of a single group at every moment of its life, whatever is done to it.

The first half says what each operation that succeeds has done (`reserve_eq_ok`, `put_eq_ok`,
`remove_eq_ok`, `claim?_eq_some`); nothing after it opens those definitions again. The second
half is `Group.Coherent`, with one lemma for each operation. An emission may only be finished
on a group that is ready; every other operation keeps the invariant in every stage.
-/

namespace BatchedCommit

/-! ## Slots -/

namespace Slot

variable {ν : Type}

/-- A value is only ever put into a slot that has none. -/
theorem put_eq_ok {slot changed : Slot ν} {value : ν} (h : slot.put value = .ok changed) :
    slot.isReady = false ∧ changed = { slot with holding := .held value } := by
  rw [put] at h
  split at h
  · contradiction
  · next hnot =>
    rw [Bool.not_eq_true] at hnot
    exact ⟨hnot, (Except.ok.inj h).symm⟩

/-- A slot whose value was handed over holds none. -/
theorem value?_handOver (slot : Slot ν) : slot.handOver.value? = none := by
  obtain ⟨child, key, _ | _ | _⟩ := slot <;> rfl

/-- The values of slots that all hold one, slot by slot. -/
theorem forall₂_filterMap_value {R : Slot ν → ν → Prop} {slots : List (Slot ν)}
    (hslots : ∀ slot ∈ slots, ∃ value, slot.value? = some value ∧ R slot value) :
    List.Forall₂ R slots (slots.filterMap Slot.value?) := by
  induction slots with
  | nil => exact .nil
  | cons slot rest ih =>
    obtain ⟨value, hvalue, hown⟩ := hslots slot (List.mem_cons_self ..)
    rw [List.filterMap_cons_some hvalue]
    exact .cons hown (ih fun other hother => hslots other (List.mem_cons_of_mem _ hother))

end Slot

namespace Group

variable {ν : Type} {group changed : Group ν}

/-! ## What the operations do -/

/-- A reservation adds a slot at the end of an open group, under a child key of its own. -/
theorem reserve_eq_ok {now : Instant} {child fullKey : String}
    (h : group.reserve now child fullKey = .ok changed) :
    group.stage = .opened ∧ child ∉ group.slots.map Slot.child ∧
      changed = { group with
        slots := group.slots ++ [Slot.reserved child fullKey]
        stage := if group.capacity ≤ group.slots.length + 1 then .sizeFixed else .opened
        fixedAt := if group.capacity ≤ group.slots.length + 1 then some now
          else group.fixedAt } := by
  rw [reserve] at h
  split at h
  · contradiction
  · next hopen =>
    rw [ne_eq, Decidable.not_not] at hopen
    split at h
    · contradiction
    · next hchild =>
      refine ⟨hopen, by simpa using hchild, ?_⟩
      rw [← Except.ok.inj h]
      by_cases hfull : group.capacity ≤ group.slots.length + 1
      · simp [isFull, fixSize, hopen, hfull]
      · simp [isFull, hopen, hfull]

/-- An open group refuses a reservation only for a child key that it has already. -/
theorem reserve_eq_error {now : Instant} {child fullKey : String} {failure : Failure}
    (hopen : group.stage = .opened) (h : group.reserve now child fullKey = .error failure) :
    child ∈ group.slots.map Slot.child ∧ failure = .duplicateKey fullKey := by
  rw [reserve, if_neg (by simp [hopen])] at h
  split at h
  · next hchild => exact ⟨by simpa using hchild, (Except.error.inj h).symm⟩
  · contradiction

/-- Putting a value into a list of slots changes the first slot of its key, which has none. -/
theorem putIn_eq_ok {fullKey : String} {value : ν} {slots put : List (Slot ν)}
    (h : putIn fullKey value slots = .ok put) :
    ∃ before slot after, slots = before ++ slot :: after ∧ slot.fullKey = fullKey ∧
      (∀ other ∈ before, other.fullKey ≠ fullKey) ∧ slot.isReady = false ∧
      put = before ++ { slot with holding := .held value } :: after := by
  induction slots generalizing put with
  | nil => contradiction
  | cons first rest ih =>
    rw [putIn] at h
    split at h
    · next hkey =>
      cases hput : first.put value with
      | error failure => rw [hput] at h; contradiction
      | ok slot =>
        rw [hput] at h
        obtain ⟨hready, hslot⟩ := Slot.put_eq_ok hput
        refine ⟨[], first, rest, rfl, hkey, by simp, hready, ?_⟩
        rw [← hslot]
        exact (Except.ok.inj h).symm
    · next hkey =>
      cases hput : putIn fullKey value rest with
      | error failure => rw [hput] at h; contradiction
      | ok tail =>
        rw [hput] at h
        obtain ⟨before, slot, after, hrest, hslot, hbefore, hready, htail⟩ := ih hput
        refine ⟨first :: before, slot, after, by rw [hrest]; rfl, hslot, ?_, hready, ?_⟩
        · intro other hother
          obtain rfl | hother := List.mem_cons.mp hother
          · exact hkey
          · exact hbefore other hother
        · rw [← Except.ok.inj h, htail]
          rfl

/-- A value is stored in a slot that awaits it, before the group has ended. -/
theorem put_eq_ok {fullKey : String} {value : ν} (h : group.put fullKey value = .ok changed) :
    group.stage.isTerminal = false ∧
      ∃ before slot after, group.slots = before ++ slot :: after ∧ slot.fullKey = fullKey ∧
        (∀ other ∈ before, other.fullKey ≠ fullKey) ∧ slot.isReady = false ∧
        changed = { group with
          slots := before ++ { slot with holding := .held value } :: after } := by
  rw [put] at h
  have hok : ∀ {slots}, putIn fullKey value group.slots = slots →
      slots.map (fun slots => { group with slots }) = .ok changed →
      ∃ before slot after, group.slots = before ++ slot :: after ∧ slot.fullKey = fullKey ∧
        (∀ other ∈ before, other.fullKey ≠ fullKey) ∧ slot.isReady = false ∧
        changed = { group with
          slots := before ++ { slot with holding := .held value } :: after } := by
    intro slots hslots hmap
    cases slots with
    | error failure => contradiction
    | ok slots =>
      obtain ⟨before, slot, after, hold, hkey, hbefore, hready, hnew⟩ := putIn_eq_ok hslots
      refine ⟨before, slot, after, hold, hkey, hbefore, hready, ?_⟩
      rw [← Except.ok.inj hmap, hnew]
  split at h
  · contradiction
  · contradiction
  · next hstage => exact ⟨by rw [hstage]; rfl, hok rfl h⟩
  · next hstage => exact ⟨by rw [hstage]; rfl, hok rfl h⟩
  · next hstage => exact ⟨by rw [hstage]; rfl, hok rfl h⟩

/-- Removing from a list of slots takes out the first slot of the key, which is not ready. -/
theorem removeFrom_eq_ok {stage : Stage} {fullKey : String} {slots rest : List (Slot ν)}
    (h : removeFrom stage fullKey slots = .ok rest) :
    ∃ before slot after, slots = before ++ slot :: after ∧ slot.fullKey = fullKey ∧
      (∀ other ∈ before, other.fullKey ≠ fullKey) ∧ slot.isReady = false ∧
      rest = before ++ after := by
  induction slots generalizing rest with
  | nil => contradiction
  | cons first tail ih =>
    rw [removeFrom] at h
    split at h
    · next hkey =>
      split at h
      · contradiction
      · next hready =>
        rw [Bool.not_eq_true] at hready
        exact ⟨[], first, tail, rfl, hkey, by simp, hready, (Except.ok.inj h).symm⟩
    · next hkey =>
      cases hremove : removeFrom stage fullKey tail with
      | error failure => rw [hremove] at h; contradiction
      | ok shorter =>
        rw [hremove] at h
        obtain ⟨before, slot, after, htail, hslot, hbefore, hready, hshorter⟩ := ih hremove
        refine ⟨first :: before, slot, after, by rw [htail]; rfl, hslot, ?_, hready, ?_⟩
        · intro other hother
          obtain rfl | hother := List.mem_cons.mp hother
          · exact hkey
          · exact hbefore other hother
        · rw [← Except.ok.inj h, hshorter]
          rfl

/-- A removal takes one slot out of a group whose slots may still change. -/
theorem remove_eq_ok {fullKey : String} (h : group.remove fullKey = .ok changed) :
    group.stage.isMutable = true ∧
      ∃ before slot after, group.slots = before ++ slot :: after ∧ slot.fullKey = fullKey ∧
        (∀ other ∈ before, other.fullKey ≠ fullKey) ∧ slot.isReady = false ∧
        changed = { group with slots := before ++ after } := by
  rw [remove] at h
  have hok : ∀ {slots}, removeFrom group.stage fullKey group.slots = slots →
      slots.map (fun slots => { group with slots }) = .ok changed →
      ∃ before slot after, group.slots = before ++ slot :: after ∧ slot.fullKey = fullKey ∧
        (∀ other ∈ before, other.fullKey ≠ fullKey) ∧ slot.isReady = false ∧
        changed = { group with slots := before ++ after } := by
    intro slots hslots hmap
    cases slots with
    | error failure => contradiction
    | ok slots =>
      obtain ⟨before, slot, after, hold, hkey, hbefore, hready, hnew⟩ :=
        removeFrom_eq_ok hslots
      refine ⟨before, slot, after, hold, hkey, hbefore, hready, ?_⟩
      rw [← Except.ok.inj hmap, hnew]
  split at h
  · contradiction
  · contradiction
  · contradiction
  · next hstage => exact ⟨by rw [hstage]; rfl, hok rfl h⟩
  · next hstage => exact ⟨by rw [hstage]; rfl, hok rfl h⟩

/-- A group is complete when its size is fixed, it has slots, and each of them is ready. -/
theorem isComplete_iff : group.isComplete = true ↔
    group.stage = .sizeFixed ∧ group.slots ≠ [] ∧ ∀ slot ∈ group.slots, slot.isReady = true := by
  simp [isComplete, and_assoc]

/-- A group that is held back is a normal one of fixed size, with a slot that is ready. -/
theorem isHeldBack_iff {now : Instant} {window : Nat} : group.isHeldBack now window = true ↔
    group.kind = .normal ∧ group.stage = .sizeFixed ∧
      (∃ since, group.fixedAt = some since ∧ window < elapsed now since) ∧
      ∃ slot ∈ group.slots, slot.isReady = true := by
  simp [isHeldBack, and_assoc, Option.any_eq_true]

/-- What is left of a group that is held back is complete: one slot at least was ready. -/
theorem isComplete_rest {now : Instant} {window : Nat}
    (h : group.isHeldBack now window = true) :
    { group with slots := group.slots.filter (·.isReady) }.isComplete = true := by
  obtain ⟨-, hstage, -, slot, hslot, hready⟩ := isHeldBack_iff.mp h
  refine isComplete_iff.mpr ⟨hstage, ?_, fun other hother => (List.mem_filter.mp hother).2⟩
  exact List.ne_nil_of_mem (List.mem_filter.mpr ⟨hslot, hready⟩)

/-- A claim is granted to a ready group that nobody has claimed, and takes all values. -/
theorem claim?_eq_some {values : List ν} (h : group.claim? = some (values, changed)) :
    group.stage = .ready ∧ group.claimed = false ∧
      values = group.slots.filterMap Slot.value? ∧
      changed = { group with claimed := true, slots := group.slots.map Slot.handOver } := by
  rw [claim?] at h
  split at h
  · next hready =>
    have hpair := Option.some.inj h
    exact ⟨hready.1, hready.2, (congrArg Prod.fst hpair).symm, (congrArg Prod.snd hpair).symm⟩
  · contradiction

/-- A claim is refused only when there is nothing to claim. -/
theorem claim?_eq_none (h : group.claim? = none) :
    group.stage ≠ .ready ∨ group.claimed = true := by
  rw [claim?] at h
  split at h
  · contradiction
  · next hnot =>
    by_cases hstage : group.stage = .ready
    · exact .inr (by simpa [hstage] using hnot)
    · exact .inl hstage

/-! ## The invariant -/

/-- What holds of a group at every moment of its life. -/
structure Coherent (group : Group ν) : Prop where
  /-- How the group ended is known exactly when no later stage follows. -/
  outcome : group.outcome.isSome = group.stage.isTerminal
  /-- Only the emission of a group that is ready is claimed, and the claim stays. -/
  claim : group.claimed = true → group.stage = .ready ∨ group.stage = .done
  /-- A group that is due for emission, or was emitted, has slots and misses no value. -/
  full : group.stage = .ready ∨ group.stage = .done →
    group.slots ≠ [] ∧ ∀ slot ∈ group.slots, slot.isReady = true
  /-- Values stay in their slots until the emission is claimed. -/
  present : group.claimed = false → ∀ slot ∈ group.slots, slot.isReady = true →
    slot.value?.isSome = true
  /-- There are no more slots than the capacity allows, and one in any case. -/
  bounded : group.slots.length ≤ max group.capacity 1
  /-- A group that takes reservations has room for one. -/
  room : group.stage = .opened → group.slots.length < max group.capacity 1

namespace Coherent

/-- A group starts without slots. -/
theorem normal (parent : String) (capacity : Nat) (now : Instant) :
    (Group.normal parent capacity now : Group ν).Coherent where
  outcome := rfl
  claim := nofun
  full := nofun
  present := fun _ slot hslot => by simp [Group.normal] at hslot
  bounded := Nat.zero_le _
  room := fun _ => by
    show 0 < max capacity 1
    omega

/-- A delayed group is coherent from the start, if the value of its slot was not handed
over. -/
theorem delayed {slot : Slot ν} (h : slot.isReady = true → slot.value?.isSome = true)
    (emitKey : String) (createdAt now : Instant) :
    (Group.delayed slot emitKey createdAt now).Coherent where
  outcome := rfl
  claim := nofun
  full := nofun
  present := fun _ other hother => by
    rw [Group.delayed, List.mem_singleton] at hother
    rw [hother]
    exact h
  bounded := Nat.le_max_right _ _
  room := nofun

/-- A group that still takes reservations or waits for values is not claimed. -/
theorem not_claimed (h : group.Coherent) (hstage : group.stage ≠ .ready)
    (hdone : group.stage ≠ .done) : group.claimed = false := by
  cases hclaimed : group.claimed with
  | false => rfl
  | true => obtain hs | hs := h.claim hclaimed <;> contradiction

/-- Nobody has claimed the emission of a group that can be ended without one. -/
theorem claimed_of_isAbortable (h : group.Coherent) (habort : group.isAbortable = true) :
    group.claimed = false := by
  rw [isAbortable, Bool.or_eq_true] at habort
  obtain hmutable | hready := habort
  · obtain hs | hs := Stage.isMutable_iff.mp hmutable
    · exact h.not_claimed (by simp [hs]) (by simp [hs])
    · exact h.not_claimed (by simp [hs]) (by simp [hs])
  · rw [Bool.and_eq_true, Bool.not_eq_true'] at hready
    exact hready.2

/-- A group that can still be ended has not ended. -/
theorem outcome_of_isAbortable (h : group.Coherent) (habort : group.isAbortable = true) :
    group.outcome = none := by
  have hstage : group.stage.isTerminal = false := by
    rw [isAbortable] at habort
    cases hs : group.stage <;> rw [hs] at habort <;> first | rfl | contradiction
  rw [← h.outcome, Option.isSome_eq_false_iff] at hstage
  exact Option.isNone_iff_eq_none.mp hstage

/-- A group with a recorded outcome has ended. -/
theorem isTerminal (h : group.Coherent) {verdict : Verdict}
    (houtcome : group.outcome = some verdict) : group.stage.isTerminal = true := by
  rw [← h.outcome, houtcome]
  rfl

/-- Slots may leave a group as long as its slots may change. -/
theorem shrink (h : group.Coherent) (hstage : group.stage.isMutable = true)
    {slots : List (Slot ν)} (hslots : slots.Sublist group.slots) :
    { group with slots }.Coherent where
  outcome := h.outcome
  claim := h.claim
  full := fun hfull => by
    obtain hs | hs := Stage.isMutable_iff.mp hstage <;> simp [hs] at hfull
  present := fun hclaimed slot hslot => h.present hclaimed slot (hslots.mem hslot)
  bounded := Nat.le_trans hslots.length_le h.bounded
  room := fun hopen => Nat.lt_of_le_of_lt hslots.length_le (h.room hopen)

theorem reserve (h : group.Coherent) {now : Instant} {child fullKey : String}
    (hreserve : group.reserve now child fullKey = .ok changed) : changed.Coherent := by
  obtain ⟨hopen, hchild, rfl⟩ := reserve_eq_ok hreserve
  have hroom := h.room hopen
  have hclaimed : group.claimed = false := h.not_claimed (by simp [hopen]) (by simp [hopen])
  constructor
  · show group.outcome.isSome = _
    rw [h.outcome, hopen]
    split <;> rfl
  · intro htrue
    rw [show group.claimed = true from htrue] at hclaimed
    contradiction
  · intro hfull
    dsimp only at hfull
    split at hfull <;> simp at hfull
  · intro _ slot hslot hready
    obtain hslot | hslot := List.mem_append.mp hslot
    · exact h.present hclaimed slot hslot hready
    · rw [List.mem_singleton.mp hslot] at hready
      contradiction
  · simp only [List.length_append, List.length_singleton]
    omega
  · intro hstage
    dsimp only at hstage
    simp only [List.length_append, List.length_singleton]
    split at hstage
    · contradiction
    · omega

theorem put (h : group.Coherent) {fullKey : String} {value : ν}
    (hput : group.put fullKey value = .ok changed) : changed.Coherent := by
  obtain ⟨hstage, before, slot, after, hslots, -, -, hready, rfl⟩ := put_eq_ok hput
  have hmem : slot ∈ group.slots := by simp [hslots]
  constructor
  · exact h.outcome
  · exact h.claim
  · intro hfull
    rw [(h.full hfull).2 slot hmem] at hready
    contradiction
  · intro hclaimed other hother hotherReady
    obtain hin | hin := List.mem_append.mp hother
    · exact h.present hclaimed other (by simp [hslots, hin]) hotherReady
    · obtain rfl | hin := List.mem_cons.mp hin
      · rfl
      · exact h.present hclaimed other (by simp [hslots, hin]) hotherReady
  · simpa [hslots] using h.bounded
  · simpa [hslots] using h.room

theorem remove (h : group.Coherent) {fullKey : String}
    (hremove : group.remove fullKey = .ok changed) : changed.Coherent := by
  obtain ⟨hstage, before, slot, after, hslots, -, -, -, rfl⟩ := remove_eq_ok hremove
  apply h.shrink hstage
  rw [hslots]
  exact List.Sublist.append_left (List.sublist_cons_self slot after) before

theorem fixSize (h : group.Coherent) (now : Instant) : (group.fixSize now).Coherent := by
  rw [Group.fixSize]
  split
  · next hopen =>
    have hclaimed := h.not_claimed (by simp [hopen]) (by simp [hopen])
    exact {
      outcome := by rw [h.outcome, hopen]; rfl
      claim := fun htrue => by rw [show group.claimed = true from htrue] at hclaimed; contradiction
      full := nofun
      present := h.present
      bounded := h.bounded
      room := nofun }
  · exact h

theorem markReady (h : group.Coherent) : group.markReady.Coherent := by
  rw [Group.markReady]
  split
  · next hcomplete =>
    obtain ⟨hstage, hslots⟩ := isComplete_iff.mp hcomplete
    exact {
      outcome := by rw [h.outcome, hstage]; rfl
      claim := fun _ => .inl rfl
      full := fun _ => hslots
      present := h.present
      bounded := h.bounded
      room := nofun }
  · exact h

theorem extractLagging (h : group.Coherent) (now : Instant) (window : Nat) :
    (group.extractLagging now window).2.Coherent := by
  rw [Group.extractLagging]
  split
  · next hheld =>
    exact h.shrink (by rw [(isHeldBack_iff.mp hheld).2.1]; rfl) List.filter_sublist
  · exact h

theorem claim? (h : group.Coherent) {values : List ν}
    (hclaim : group.claim? = some (values, changed)) : changed.Coherent := by
  obtain ⟨hstage, -, -, rfl⟩ := claim?_eq_some hclaim
  have hfull := h.full (.inl hstage)
  exact {
    outcome := h.outcome
    claim := fun _ => .inl hstage
    full := fun _ => by simpa using hfull
    present := nofun
    bounded := by simpa using h.bounded
    room := fun hopen => by rw [show group.stage = .opened from hopen] at hstage; contradiction }

theorem finish (h : group.Coherent) (hstage : group.stage = .ready) (verdict : Verdict) :
    (group.finish verdict).Coherent where
  outcome := rfl
  claim := fun _ => .inr rfl
  full := fun _ => h.full (.inl hstage)
  present := h.present
  bounded := h.bounded
  room := nofun

theorem abort (h : group.Coherent) (reason : Failure) : (group.abort reason).Coherent := by
  rw [Group.abort]
  split
  · next habort =>
    have hclaimed : group.claimed = false := h.claimed_of_isAbortable habort
    exact {
      outcome := rfl
      claim := fun htrue => by rw [show group.claimed = true from htrue] at hclaimed; contradiction
      full := nofun
      present := h.present
      bounded := h.bounded
      room := nofun }
  · exact h

end Coherent

end Group

end BatchedCommit
