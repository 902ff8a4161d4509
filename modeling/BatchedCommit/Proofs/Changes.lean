import Mathlib.Data.List.TakeWhile
import Mathlib.Logic.Relation
import BatchedCommit.KeyScheme
import BatchedCommit.Proofs.Coherence

/-!
# BatchedCommit.Proofs.Changes

The changes that a group can undergo from one moment to the next, once for all sections of the
registry. `Group.Quiet` is a change that is made without the callers of the group: somebody
reserves or removes a slot, a sweeper strikes, the committer is closed. `Group.Next` adds what
the callers do: a value arrives, the emission is claimed, the emission comes to its end.

What follows about groups rests on three facts about quiet changes:

* `Quiet.isAbortable` — they only happen to a group whose emission nobody has claimed;
* `Quiet.filter_isReady` — they leave every slot in place whose value has arrived;
* `Quiet.coherent` — they keep what holds of every group.
-/

namespace BatchedCommit

namespace Group

variable {ν : Type} {scheme : KeyScheme} {group changed : Group ν}

/-! ## Slots that can be moved -/

/-- There is an emit key for every slot that is not ready. -/
def isMovable (scheme : KeyScheme) (group : Group ν) : Bool :=
  (group.slots.filter (!·.isReady)).all fun slot =>
    (scheme.delayedEmitKey? slot.fullKey).isSome

/-- The slots that are not ready, up to the first one for which there is no emit key. -/
def movable (scheme : KeyScheme) (group : Group ν) : List (Slot ν) :=
  (group.slots.filter (!·.isReady)).takeWhile fun slot =>
    (scheme.delayedEmitKey? slot.fullKey).isSome

theorem isMovable_of_derivable (h : scheme.Derivable) (group : Group ν) :
    group.isMovable scheme = true :=
  List.all_eq_true.mpr fun slot _ => h slot.fullKey

theorem movable_of_isMovable (h : group.isMovable scheme = true) :
    group.movable scheme = group.slots.filter (!·.isReady) :=
  List.takeWhile_eq_self_iff.mpr (List.all_eq_true.mp h)

theorem movable_sublist (scheme : KeyScheme) (group : Group ν) :
    (group.movable scheme).Sublist (group.slots.filter (!·.isReady)) :=
  (List.takeWhile_prefix _).sublist

/-- A slot that is moved was not ready, and has an emit key. -/
theorem of_mem_movable {slot : Slot ν} (h : slot ∈ group.movable scheme) :
    slot ∈ group.slots ∧ slot.isReady = false ∧
      ∃ emitKey, scheme.delayedEmitKey? slot.fullKey = some emitKey := by
  obtain ⟨hslot, hready⟩ := List.mem_filter.mp ((group.movable_sublist scheme).subset h)
  rw [movable] at h
  have hemit := List.mem_takeWhile_imp h
  exact ⟨hslot, by simpa using hready, Option.isSome_iff_exists.mp hemit⟩

/-- What a sweep leaves of a group whose slots it takes out: it is ready, unless the sweep breaks
down over one of them. -/
def leftBehind (scheme : KeyScheme) (group : Group ν) : Group ν :=
  let rest := { group with slots := group.slots.filter (·.isReady) }
  if group.isMovable scheme then rest.markReady else rest

theorem leftBehind_of_isMovable (h : group.isMovable scheme = true) :
    group.leftBehind scheme = { group with slots := group.slots.filter (·.isReady) }.markReady :=
  if_pos h

/-- A group is ready when all the slots that held it back are gone. -/
theorem ready_leftBehind {now : Instant} {window : Nat}
    (hheld : group.isHeldBack now window = true) (hmovable : group.isMovable scheme = true) :
    (group.leftBehind scheme).stage = .ready := by
  rw [leftBehind_of_isMovable hmovable, markReady, if_pos (isComplete_rest hheld)]

/-! ## Changes -/

/-- A change that is made to a group without its callers. -/
inductive Quiet (scheme : KeyScheme) (group : Group ν) : Group ν → Prop where
  /-- Somebody reserves a slot. -/
  | reserve {changed : Group ν} (now : Instant) (child : String)
      (h : group.reserve now child (scheme.fullKey group.key child) = .ok changed) :
      Quiet scheme group changed
  /-- Somebody removes a slot. -/
  | remove {changed : Group ν} (fullKey : String) (h : group.remove fullKey = .ok changed) :
      Quiet scheme group changed.markReady
  /-- The time of reservations ends. -/
  | fixSize (now : Instant) (h : group.stage = .opened) :
      Quiet scheme group (group.fixSize now).markReady
  /-- Slots that hold the group back are taken out. -/
  | relieve (now : Instant) (window : Nat) (h : group.isHeldBack now window = true)
      (hmovable : group.isMovable scheme = true) :
      Quiet scheme group (group.extractLagging now window).2.markReady
  /-- Slots that hold the group back are taken out, and the sweep breaks down over them. -/
  | strip (now : Instant) (window : Nat) (h : group.isHeldBack now window = true)
      (hmovable : group.isMovable scheme = false) :
      Quiet scheme group (group.extractLagging now window).2
  /-- The group has outlived the abort window. -/
  | expire (key : String) (h : group.isAbortable = true) :
      Quiet scheme group (group.abort (.aborted key))
  /-- The committer is shut down. -/
  | close (h : group.isAbortable = true) : Quiet scheme group (group.abort .closed)

/-- Any number of quiet changes. -/
abbrev Shifts (scheme : KeyScheme) : Group ν → Group ν → Prop :=
  Relation.ReflTransGen (Quiet scheme)

/-- What happens to a group in one step. -/
inductive Next (scheme : KeyScheme) (group : Group ν) : Group ν → Prop where
  /-- Nothing that its callers do. -/
  | quiet {changed : Group ν} (h : Shifts scheme group changed) : Next scheme group changed
  /-- A value arrives. -/
  | store {changed : Group ν} (fullKey : String) (value : ν)
      (h : group.put fullKey value = .ok changed) : Next scheme group changed.markReady
  /-- A caller claims the emission. -/
  | claim {changed : Group ν} (values : List ν)
      (h : group.claim? = some (values, changed)) : Next scheme group changed
  /-- The emission that a caller has claimed comes to its end. -/
  | finish (verdict : Verdict) (hstage : group.stage = .ready) (hclaimed : group.claimed = true) :
      Next scheme group (group.finish verdict)

/-- A group as it is after the section that made it. -/
inductive Newborn (scheme : KeyScheme) (capacity : Nat) : Group ν → Prop where
  /-- A group that was opened for a reservation. -/
  | normal {group : Group ν} (index : Nat) (now : Instant) (child : String)
      (h : (Group.normal (scheme.parentKey index) capacity now).reserve now child
        (scheme.fullKey (scheme.parentKey index) child) = .ok group) :
      Newborn scheme capacity group
  /-- A group for a slot that was taken out of another one. -/
  | delayed (slot : Slot ν) (emitKey : String) (createdAt now : Instant)
      (hready : slot.isReady = false)
      (hemit : scheme.delayedEmitKey? slot.fullKey = some emitKey) :
      Newborn scheme capacity (Group.delayed slot emitKey createdAt now)

/-- Slots that hold the group back are taken out, with or without a breakdown. -/
theorem Quiet.leftBehind {now : Instant} {window : Nat}
    (h : group.isHeldBack now window = true) : Quiet scheme group (group.leftBehind scheme) := by
  cases hmovable : group.isMovable scheme with
  | true =>
    have hquiet := Quiet.relieve now window h hmovable
    rw [extractLagging, if_pos h] at hquiet
    simpa only [Group.leftBehind, hmovable, if_true] using hquiet
  | false =>
    have hquiet := Quiet.strip now window h hmovable
    rw [extractLagging, if_pos h] at hquiet
    simpa only [Group.leftBehind, hmovable, Bool.false_eq_true, if_false] using hquiet

/-! ## Keeping a property -/

/-- What every quiet change keeps, any number of them keeps. -/
theorem Shifts.keep {P : Group ν → Prop} (hP : ∀ a b, Quiet scheme a b → P a → P b)
    (h : Shifts scheme group changed) (hgroup : P group) : P changed := by
  induction h with
  | refl => exact hgroup
  | tail _ hquiet ih => exact hP _ _ hquiet ih

/-- What no quiet change alters, no number of them alters. -/
theorem Shifts.constant {α : Type} {f : Group ν → α}
    (hf : ∀ a b, Quiet scheme a b → f b = f a) (h : Shifts scheme group changed) :
    f changed = f group :=
  h.keep (P := fun other => f other = f group) (fun _ _ hquiet ha => (hf _ _ hquiet).trans ha) rfl

/-! ## Fields that stay -/

/-- Two states of one group agree on how it came to be. -/
structure SameHead (group changed : Group ν) : Prop where
  kind : changed.kind = group.kind
  key : changed.key = group.key
  emitKey : changed.emitKey = group.emitKey
  capacity : changed.capacity = group.capacity
  createdAt : changed.createdAt = group.createdAt

namespace SameHead

theorem refl (group : Group ν) : SameHead group group := ⟨rfl, rfl, rfl, rfl, rfl⟩

theorem trans {middle : Group ν} (h : SameHead group middle) (h' : SameHead middle changed) :
    SameHead group changed :=
  ⟨h'.kind.trans h.kind, h'.key.trans h.key, h'.emitKey.trans h.emitKey,
    h'.capacity.trans h.capacity, h'.createdAt.trans h.createdAt⟩

theorem markReady (group : Group ν) : SameHead group group.markReady := by
  rw [Group.markReady]; split <;> exact ⟨rfl, rfl, rfl, rfl, rfl⟩

theorem fixSize (group : Group ν) (now : Instant) : SameHead group (group.fixSize now) := by
  rw [Group.fixSize]; split <;> exact ⟨rfl, rfl, rfl, rfl, rfl⟩

theorem extractLagging (group : Group ν) (now : Instant) (window : Nat) :
    SameHead group (group.extractLagging now window).2 := by
  rw [Group.extractLagging]; split <;> exact ⟨rfl, rfl, rfl, rfl, rfl⟩

theorem leftBehind (scheme : KeyScheme) (group : Group ν) :
    SameHead group (group.leftBehind scheme) := by
  have hrest : SameHead group { group with slots := group.slots.filter (·.isReady) } :=
    ⟨rfl, rfl, rfl, rfl, rfl⟩
  rw [Group.leftBehind]
  split
  · exact hrest.trans (.markReady _)
  · exact hrest

theorem abort (group : Group ν) (reason : Failure) : SameHead group (group.abort reason) := by
  rw [Group.abort]; split <;> exact ⟨rfl, rfl, rfl, rfl, rfl⟩

theorem reserve {now : Instant} {child fullKey : String}
    (h : group.reserve now child fullKey = .ok changed) : SameHead group changed := by
  obtain ⟨-, -, rfl⟩ := reserve_eq_ok h
  exact ⟨rfl, rfl, rfl, rfl, rfl⟩

theorem put {fullKey : String} {value : ν} (h : group.put fullKey value = .ok changed) :
    SameHead group changed := by
  obtain ⟨-, _, _, _, -, -, -, -, rfl⟩ := put_eq_ok h
  exact ⟨rfl, rfl, rfl, rfl, rfl⟩

theorem remove {fullKey : String} (h : group.remove fullKey = .ok changed) :
    SameHead group changed := by
  obtain ⟨-, _, _, _, -, -, -, -, rfl⟩ := remove_eq_ok h
  exact ⟨rfl, rfl, rfl, rfl, rfl⟩

theorem claim? {values : List ν} (h : group.claim? = some (values, changed)) :
    SameHead group changed := by
  obtain ⟨-, -, -, rfl⟩ := claim?_eq_some h
  exact ⟨rfl, rfl, rfl, rfl, rfl⟩

end SameHead

theorem Quiet.sameHead (h : Quiet scheme group changed) : SameHead group changed := by
  cases h with
  | reserve now child h => exact .reserve h
  | remove fullKey h => exact (SameHead.remove h).trans (.markReady _)
  | fixSize now h => exact (SameHead.fixSize group now).trans (.markReady _)
  | relieve now window h hmovable =>
    exact (SameHead.extractLagging group now window).trans (.markReady _)
  | strip now window h hmovable => exact .extractLagging group now window
  | expire key h => exact .abort group _
  | close h => exact .abort group _

theorem Shifts.sameHead (h : Shifts scheme group changed) : SameHead group changed :=
  h.keep (P := SameHead group) (fun _ _ hquiet ha => ha.trans hquiet.sameHead) (.refl group)

theorem Next.sameHead (h : Next scheme group changed) : SameHead group changed := by
  cases h with
  | quiet h => exact h.sameHead
  | store fullKey value h => exact (SameHead.put h).trans (.markReady _)
  | claim values h => exact .claim? h
  | finish verdict hstage hclaimed => exact ⟨rfl, rfl, rfl, rfl, rfl⟩

@[simp] theorem markReady_slots (group : Group ν) : group.markReady.slots = group.slots := by
  rw [markReady]; split <;> rfl

@[simp] theorem leftBehind_slots (scheme : KeyScheme) (group : Group ν) :
    (group.leftBehind scheme).slots = group.slots.filter (·.isReady) := by
  rw [leftBehind]
  split
  · exact markReady_slots _
  · rfl

@[simp] theorem markReady_claimed (group : Group ν) :
    group.markReady.claimed = group.claimed := by
  rw [markReady]; split <;> rfl

@[simp] theorem markReady_outcome (group : Group ν) :
    group.markReady.outcome = group.outcome := by
  rw [markReady]; split <;> rfl

/-- A group that is ready or done does not become ready. -/
theorem markReady_of_stage (h : group.stage = .ready ∨ group.stage = .done) :
    group.markReady = group := by
  rw [markReady, if_neg]
  intro hcomplete
  rw [(isComplete_iff.mp hcomplete).1] at h
  cases h <;> contradiction

/-! ## What quiet changes leave alone -/

/-- Quiet changes only happen to a group whose emission nobody has claimed. -/
theorem Quiet.isAbortable (h : Quiet scheme group changed) : group.isAbortable = true := by
  have hmutable : group.stage.isMutable = true → group.isAbortable = true := fun hs => by
    rw [Group.isAbortable, hs, Bool.true_or]
  cases h with
  | reserve now child h => exact hmutable (by rw [(reserve_eq_ok h).1]; rfl)
  | remove fullKey h => exact hmutable (remove_eq_ok h).1
  | fixSize now h => exact hmutable (by rw [h]; rfl)
  | relieve now window h hmovable => exact hmutable (by rw [(isHeldBack_iff.mp h).2.1]; rfl)
  | strip now window h hmovable => exact hmutable (by rw [(isHeldBack_iff.mp h).2.1]; rfl)
  | expire key h => exact h
  | close h => exact h

/-- A group that was claimed or has ended stays as it is, but for what its callers do. -/
theorem Shifts.eq_of_isAbortable (h : Shifts scheme group changed)
    (hnot : group.isAbortable = false) : changed = group := by
  refine h.keep (P := fun other => other = group) (fun a b hquiet ha => ?_) rfl
  rw [ha] at hquiet
  rw [hquiet.isAbortable] at hnot
  contradiction

theorem Quiet.claimed (h : Quiet scheme group changed) : changed.claimed = group.claimed := by
  cases h with
  | reserve now child h => rw [(reserve_eq_ok h).2.2]
  | remove fullKey h =>
    obtain ⟨-, _, _, _, -, -, -, -, rfl⟩ := remove_eq_ok h
    rw [markReady_claimed]
  | fixSize now h => rw [markReady_claimed, Group.fixSize, if_pos h]
  | relieve now window h hmovable => rw [markReady_claimed, extractLagging, if_pos h]
  | strip now window h hmovable => rw [extractLagging, if_pos h]
  | expire key h => rw [abort, if_pos h]
  | close h => rw [abort, if_pos h]

/-- Quiet changes leave every slot in place whose value has arrived. -/
theorem Quiet.filter_isReady (h : Quiet scheme group changed) :
    changed.slots.filter Slot.isReady = group.slots.filter Slot.isReady := by
  cases h with
  | reserve now child h =>
    rw [(reserve_eq_ok h).2.2, List.filter_append]
    simp [Slot.reserved, Slot.isReady]
  | remove fullKey h =>
    obtain ⟨-, before, slot, after, hslots, -, -, hready, rfl⟩ := remove_eq_ok h
    rw [markReady_slots, hslots]
    simp [hready]
  | fixSize now h => rw [markReady_slots, Group.fixSize, if_pos h]
  | relieve now window h hmovable =>
    rw [markReady_slots, extractLagging, if_pos h, List.filter_filter]
    simp
  | strip now window h hmovable =>
    rw [extractLagging, if_pos h, List.filter_filter]
    simp
  | expire key h => rw [abort, if_pos h]
  | close h => rw [abort, if_pos h]

theorem Shifts.mem_iff_of_isReady (h : Shifts scheme group changed) {slot : Slot ν}
    (hready : slot.isReady = true) : slot ∈ changed.slots ↔ slot ∈ group.slots := by
  have hfilter : changed.slots.filter Slot.isReady = group.slots.filter Slot.isReady :=
    h.constant (f := fun other => other.slots.filter Slot.isReady)
      fun _ _ hquiet => hquiet.filter_isReady
  have hmem := congrArg (slot ∈ ·) hfilter
  simpa [List.mem_filter, hready] using hmem

/-- A group is never done by a quiet change. -/
theorem Quiet.stage_ne_done (h : Quiet scheme group changed) : changed.stage ≠ .done := by
  have hready : ∀ {other : Group ν}, other.stage.isMutable = true →
      other.markReady.stage ≠ .done := by
    intro other hmutable
    rw [markReady]
    split
    · simp
    · obtain hs | hs := Stage.isMutable_iff.mp hmutable <;> simp [hs]
  cases h with
  | reserve now child h =>
    rw [(reserve_eq_ok h).2.2]
    dsimp only
    split <;> simp
  | remove fullKey h =>
    obtain ⟨hmutable, _, _, _, -, -, -, -, rfl⟩ := remove_eq_ok h
    exact hready hmutable
  | fixSize now h => exact hready (by rw [Group.fixSize, if_pos h]; rfl)
  | relieve now window h hmovable =>
    exact hready (by rw [extractLagging, if_pos h, (isHeldBack_iff.mp h).2.1]; rfl)
  | strip now window h hmovable =>
    simp [extractLagging, if_pos h, (isHeldBack_iff.mp h).2.1]
  | expire key h =>
    simp [abort, if_pos h]
  | close h =>
    simp [abort, if_pos h]

/-- A group that is done was done before any number of quiet changes. -/
theorem Shifts.eq_of_done (h : Shifts scheme group changed) (hdone : changed.stage = .done) :
    changed = group :=
  h.keep (P := fun other => other.stage = .done → other = group)
    (fun _ _ hquiet _ hb => absurd hb hquiet.stage_ne_done) (fun _ => rfl) hdone

theorem Shifts.claimed (h : Shifts scheme group changed) : changed.claimed = group.claimed :=
  h.constant fun _ _ hquiet => hquiet.claimed

/-- How a group has ended does not change; one that ends quietly was aborted or closed. -/
theorem Quiet.outcome (h : Quiet scheme group changed) :
    changed.outcome = group.outcome ∨ changed.stage = .aborted ∧
      ∃ failure, changed.outcome = some (.error failure) ∧
        (failure = .closed ∨ ∃ key, failure = .aborted key) := by
  cases h with
  | reserve now child h => exact .inl (by rw [(reserve_eq_ok h).2.2])
  | remove fullKey h =>
    obtain ⟨-, _, _, _, -, -, -, -, rfl⟩ := remove_eq_ok h
    exact .inl (markReady_outcome _)
  | fixSize now h => exact .inl (by rw [markReady_outcome, Group.fixSize, if_pos h])
  | relieve now window h hmovable =>
    exact .inl (by rw [markReady_outcome, extractLagging, if_pos h])
  | strip now window h hmovable => exact .inl (by rw [extractLagging, if_pos h])
  | expire key h =>
    rw [abort, if_pos h]
    exact .inr ⟨rfl, _, rfl, .inr ⟨key, rfl⟩⟩
  | close h =>
    rw [abort, if_pos h]
    exact .inr ⟨rfl, _, rfl, .inl rfl⟩

/-! ## What every change keeps -/

theorem Quiet.coherent (h : Quiet scheme group changed) (hgroup : group.Coherent) :
    changed.Coherent := by
  cases h with
  | reserve now child h => exact hgroup.reserve h
  | remove fullKey h => exact (hgroup.remove h).markReady
  | fixSize now h => exact (hgroup.fixSize now).markReady
  | relieve now window h hmovable => exact (hgroup.extractLagging now window).markReady
  | strip now window h hmovable => exact hgroup.extractLagging now window
  | expire key h => exact hgroup.abort _
  | close h => exact hgroup.abort _

theorem Shifts.coherent (h : Shifts scheme group changed) (hgroup : group.Coherent) :
    changed.Coherent :=
  h.keep (fun _ _ hquiet ha => hquiet.coherent ha) hgroup

theorem Next.coherent (h : Next scheme group changed) (hgroup : group.Coherent) :
    changed.Coherent := by
  cases h with
  | quiet h => exact h.coherent hgroup
  | store fullKey value h => exact (hgroup.put h).markReady
  | claim values h => exact hgroup.claim? h
  | finish verdict hstage hclaimed => exact hgroup.finish hstage verdict

/-- No value has arrived for a newborn group, and nobody has claimed it. -/
theorem Newborn.awaits {capacity : Nat} (h : Newborn scheme capacity group) :
    (∀ slot ∈ group.slots, slot.isReady = false) ∧ group.stage.isMutable = true := by
  cases h with
  | normal index now child h =>
    rw [(reserve_eq_ok h).2.2]
    refine ⟨fun slot hslot => ?_, ?_⟩
    · rw [List.mem_singleton.mp hslot]
      rfl
    · dsimp only
      split <;> rfl
  | delayed slot emitKey createdAt now hready hemit =>
    refine ⟨fun other hother => ?_, rfl⟩
    rw [List.mem_singleton.mp hother]
    exact hready

theorem Newborn.coherent {capacity : Nat} (h : Newborn scheme capacity group) :
    group.Coherent := by
  cases h with
  | normal index now child h => exact (Coherent.normal _ _ _).reserve h
  | delayed slot emitKey createdAt now hready hemit =>
    exact .delayed (fun htrue => by rw [hready] at htrue; contradiction) _ _ _

/-! ## Groups that were claimed or have ended -/

/-- A claim stays. -/
theorem Next.claimed (h : Next scheme group changed) (hclaimed : group.claimed = true) :
    changed.claimed = true := by
  cases h with
  | quiet h => rw [h.claimed, hclaimed]
  | store fullKey value h =>
    obtain ⟨-, _, _, _, -, -, -, -, rfl⟩ := put_eq_ok h
    rw [markReady_claimed, hclaimed]
  | claim values h => rw [(claim?_eq_some h).2.2.2]
  | finish verdict hstage hclaimed => exact hclaimed

theorem not_abortable_of_claimed (hgroup : group.Coherent) (hclaimed : group.claimed = true) :
    group.isAbortable = false := by
  cases habort : group.isAbortable with
  | false => rfl
  | true =>
    rw [hgroup.claimed_of_isAbortable habort] at hclaimed
    contradiction

theorem not_abortable_of_outcome (hgroup : group.Coherent) {verdict : Verdict}
    (houtcome : group.outcome = some verdict) : group.isAbortable = false := by
  cases habort : group.isAbortable with
  | false => rfl
  | true =>
    rw [hgroup.outcome_of_isAbortable habort] at houtcome
    contradiction

/-- No value arrives for a group that was claimed: none is missing. -/
theorem not_put_of_claimed (hgroup : group.Coherent) (hclaimed : group.claimed = true)
    {fullKey : String} {value : ν} : group.put fullKey value ≠ .ok changed := by
  intro h
  obtain ⟨-, before, slot, after, hslots, -, -, hready, -⟩ := put_eq_ok h
  have hall := (hgroup.full (hgroup.claim hclaimed)).2 slot (by simp [hslots])
  rw [hall] at hready
  contradiction

/-- The slots of a group that was claimed do not change any more. -/
theorem Next.slots_of_claimed (h : Next scheme group changed) (hgroup : group.Coherent)
    (hclaimed : group.claimed = true) : changed.slots = group.slots := by
  cases h with
  | quiet h => rw [h.eq_of_isAbortable (not_abortable_of_claimed hgroup hclaimed)]
  | store fullKey value h => exact absurd h (not_put_of_claimed hgroup hclaimed)
  | claim values h =>
    rw [(claim?_eq_some h).2.1] at hclaimed
    contradiction
  | finish verdict hstage hclaimed => rfl

/-- How a group has ended never changes. -/
theorem Next.outcome (h : Next scheme group changed) (hgroup : group.Coherent)
    {verdict : Verdict} (houtcome : group.outcome = some verdict) :
    changed.outcome = some verdict := by
  have hterminal : group.stage.isTerminal = true := hgroup.isTerminal houtcome
  cases h with
  | quiet h => rw [h.eq_of_isAbortable (not_abortable_of_outcome hgroup houtcome), houtcome]
  | store fullKey value h =>
    rw [(put_eq_ok h).1] at hterminal
    contradiction
  | claim values h =>
    rw [(claim?_eq_some h).1] at hterminal
    contradiction
  | finish other hstage hclaimed =>
    rw [hstage] at hterminal
    contradiction

theorem not_abortable_of_isTerminal (hterminal : group.stage.isTerminal = true) :
    group.isAbortable = false := by
  cases hs : group.stage <;> simp_all [isAbortable, Stage.isTerminal, Stage.isMutable]

/-- A group that has ended stays as it is. -/
theorem Next.eq_of_isTerminal (h : Next scheme group changed)
    (hterminal : group.stage.isTerminal = true) : changed = group := by
  cases h with
  | quiet h => exact h.eq_of_isAbortable (not_abortable_of_isTerminal hterminal)
  | store fullKey value h =>
    rw [(put_eq_ok h).1] at hterminal
    contradiction
  | claim values h =>
    rw [(claim?_eq_some h).1] at hterminal
    contradiction
  | finish verdict hstage hclaimed =>
    rw [hstage] at hterminal
    contradiction

/-- The emission of a group is claimed and not over, or the group is done. -/
def IsEmitting (group : Group ν) : Prop :=
  (group.stage = .ready ∧ group.claimed = true) ∨ group.stage = .done

theorem IsEmitting.stage_ne_aborted (h : group.IsEmitting) : group.stage ≠ .aborted := by
  obtain ⟨hstage, -⟩ | hstage := h <;> simp [hstage]

/-- A group whose emission was claimed goes on to be done. -/
theorem Next.isEmitting (h : Next scheme group changed) (hgroup : group.IsEmitting) :
    changed.IsEmitting := by
  obtain ⟨hstage, hclaimed⟩ | hdone := hgroup
  · cases h with
    | quiet h =>
      rw [h.eq_of_isAbortable (by simp [isAbortable, hstage, hclaimed, Stage.isMutable])]
      exact .inl ⟨hstage, hclaimed⟩
    | @store changed fullKey value h =>
      obtain ⟨-, _, _, _, -, -, -, -, hchanged⟩ := put_eq_ok h
      have hsame : changed.stage = .ready := by rw [hchanged, hstage]
      rw [markReady_of_stage (.inl hsame)]
      exact .inl ⟨hsame, by rw [hchanged, hclaimed]⟩
    | claim values h =>
      rw [(claim?_eq_some h).2.1] at hclaimed
      contradiction
    | finish verdict _ _ => exact .inr rfl
  · rw [h.eq_of_isTerminal (by rw [hdone]; rfl)]
    exact .inr hdone

/-- A group that is aborted ended as aborted or as closed. -/
def WellEnded (group : Group ν) : Prop :=
  group.stage = .aborted →
    group.outcome = some (.error .closed) ∨ ∃ key, group.outcome = some (.error (.aborted key))

theorem Quiet.wellEnded (h : Quiet scheme group changed) (hcoherent : group.Coherent) :
    changed.WellEnded := by
  intro haborted
  obtain hsame | ⟨-, failure, houtcome, rfl | ⟨key, rfl⟩⟩ := h.outcome
  · have hterminal := (h.coherent hcoherent).outcome
    rw [hsame, hcoherent.outcome_of_isAbortable h.isAbortable, haborted] at hterminal
    contradiction
  · exact .inl houtcome
  · exact .inr ⟨key, houtcome⟩

theorem Shifts.wellEnded (h : Shifts scheme group changed) (hcoherent : group.Coherent)
    (hgroup : group.WellEnded) : changed.WellEnded :=
  (h.keep (P := fun other => other.Coherent ∧ other.WellEnded)
    (fun _ _ hquiet ha => ⟨hquiet.coherent ha.1, hquiet.wellEnded ha.1⟩)
    ⟨hcoherent, hgroup⟩).2

theorem Next.wellEnded (h : Next scheme group changed) (hcoherent : group.Coherent)
    (hgroup : group.WellEnded) : changed.WellEnded := by
  cases h with
  | quiet h => exact h.wellEnded hcoherent hgroup
  | @store changed fullKey value h =>
    obtain ⟨hlive, _, _, _, -, -, -, -, hchanged⟩ := put_eq_ok h
    intro haborted
    rw [markReady] at haborted
    split at haborted
    · contradiction
    · rw [hchanged] at haborted
      rw [show group.stage = .aborted from haborted] at hlive
      contradiction
  | claim values h =>
    obtain ⟨hstage, -, -, rfl⟩ := claim?_eq_some h
    intro haborted
    rw [show group.stage = .aborted from haborted] at hstage
    contradiction
  | finish verdict hstage hclaimed => exact fun haborted => by contradiction

theorem Newborn.wellEnded {capacity : Nat} (h : Newborn scheme capacity group) :
    group.WellEnded := by
  intro haborted
  have hmutable := h.awaits.2
  rw [haborted] at hmutable
  contradiction

end Group

end BatchedCommit
