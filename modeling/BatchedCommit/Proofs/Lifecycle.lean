import BatchedCommit.Proofs.Coherence

/-!
# BatchedCommit.Proofs.Lifecycle

A group on its own, under any list of operations in any order and at any instants. The one thing
that is asked of the list is that an emission is only finished on a group that is ready.

`Group.Effect` lists what one operation can do to a group. From it follow what holds at every
moment (`Group.Staged`), what one operation does to the stage (`Group.Advances`), and what a later
moment keeps of an earlier one (`Group.Continues`).
-/

namespace BatchedCommit

namespace Group

variable {ν : Type} {group changed later : Group ν} {operation : GroupOperation ν}

/-! ## Lists of operations -/

/-- The operation may be carried out on the group: only the emission of a ready group is
finished. -/
def admits (group : Group ν) : GroupOperation ν → Bool
  | .finish _ => group.stage == .ready
  | _ => true

/-- Each operation of a list may be carried out when its turn comes. -/
def admitsAll (group : Group ν) : List (GroupOperation ν) → Bool
  | [] => true
  | operation :: rest => group.admits operation && (group.perform operation).2.admitsAll rest

theorem live_append (group : Group ν) (first second : List (GroupOperation ν)) :
    group.live (first ++ second) = (group.live first).live second :=
  List.foldl_append

theorem admitsAll_append (group : Group ν) (first second : List (GroupOperation ν)) :
    group.admitsAll (first ++ second) =
      (group.admitsAll first && (group.live first).admitsAll second) := by
  induction first generalizing group with
  | nil => rfl
  | cons operation rest ih =>
    rw [List.cons_append, admitsAll, admitsAll, ih, Bool.and_assoc]
    rfl

/-- A group as it is when it is made. -/
inductive Initial : Group ν → Prop where
  | normal (parent : String) (capacity : Nat) (now : Instant) :
      Initial (Group.normal parent capacity now)
  | delayed (slot : Slot ν) (emitKey : String) (createdAt now : Instant) :
      Initial (Group.delayed slot emitKey createdAt now)

/-! ## What an operation can do -/

/-- What one operation can do to a group. -/
inductive Effect (group : Group ν) : GroupOperation ν → Group ν → Prop where
  /-- It fails, or does not apply. -/
  | keep {operation : GroupOperation ν} : Effect group operation group
  /-- A slot is added. -/
  | reserve {changed : Group ν} {now : Instant} {child fullKey : String}
      (h : group.reserve now child fullKey = .ok changed) :
      Effect group (.reserve now child fullKey) changed
  /-- A value arrives. -/
  | put {changed : Group ν} {fullKey : String} {value : ν}
      (h : group.put fullKey value = .ok changed) : Effect group (.put fullKey value) changed
  /-- A slot is taken out by its caller. -/
  | remove {changed : Group ν} {fullKey : String} (h : group.remove fullKey = .ok changed) :
      Effect group (.remove fullKey) changed
  /-- The time of reservations ends. -/
  | fixSize {now : Instant} (h : group.stage = .opened) :
      Effect group (.fixSize now) { group with stage := .sizeFixed, fixedAt := some now }
  /-- The last missing value has arrived. -/
  | markReady (h : group.isComplete = true) : Effect group .markReady { group with stage := .ready }
  /-- The slots that hold the group back are taken out. -/
  | extract {now : Instant} {window : Nat} (h : group.isHeldBack now window = true) :
      Effect group (.extractLagging now window)
        { group with slots := group.slots.filter (·.isReady) }
  /-- The emission is claimed. -/
  | claim {changed : Group ν} {values : List ν} (h : group.claim? = some (values, changed)) :
      Effect group .claim changed
  /-- The emission is over. -/
  | finish {verdict : Verdict} : Effect group (.finish verdict) (group.finish verdict)
  /-- The group ends without an emission. -/
  | abort {reason : Failure} (h : group.isAbortable = true) :
      Effect group (.abort reason)
        { group with stage := .aborted, outcome := some (.error reason) }

/-- No operation does anything else. -/
theorem effect_perform (group : Group ν) (operation : GroupOperation ν) :
    Effect group operation (group.perform operation).2 := by
  cases operation with
  | reserve now child fullKey =>
    rw [perform]
    cases h : group.reserve now child fullKey with
    | ok changed => exact .reserve h
    | error failure => exact .keep
  | put fullKey value =>
    rw [perform]
    cases h : group.put fullKey value with
    | ok changed => exact .put h
    | error failure => exact .keep
  | remove fullKey =>
    rw [perform]
    cases h : group.remove fullKey with
    | ok changed => exact .remove h
    | error failure => exact .keep
  | fixSize now =>
    by_cases h : group.stage = .opened
    · simpa [perform, Group.fixSize, h] using
        (Effect.fixSize h : Effect group (.fixSize now) _)
    · simpa [perform, Group.fixSize, h] using Effect.keep
  | markReady =>
    by_cases h : group.isComplete = true
    · simpa [perform, Group.markReady, h] using Effect.markReady h
    · simpa [perform, Group.markReady, h] using Effect.keep
  | extractLagging now window =>
    by_cases h : group.isHeldBack now window = true
    · simpa [perform, Group.extractLagging, h] using Effect.extract h
    · simpa [perform, Group.extractLagging, h] using Effect.keep
  | claim =>
    rw [perform]
    cases h : group.claim? with
    | some pair => exact .claim h
    | none => exact .keep
  | finish verdict => exact .finish
  | abort reason =>
    by_cases h : group.isAbortable = true
    · simpa [perform, Group.abort, h] using
        (Effect.abort h : Effect group (.abort reason) _)
    · simpa [perform, Group.abort, h] using Effect.keep

/-! ## What holds at every moment -/

/-- What the stage of a group says about the rest of it. -/
structure Staged (group : Group ν) : Prop where
  /-- How the group ended is known exactly when no later stage follows. -/
  outcome : group.outcome.isSome = group.stage.isTerminal
  /-- Only the emission of a group that is ready is claimed, and the claim stays. -/
  claim : group.claimed = true → group.stage = .ready ∨ group.stage = .done
  /-- A group that is ready or done has slots, and none of them awaits its value. -/
  full : group.stage = .ready ∨ group.stage = .done →
    group.slots ≠ [] ∧ ∀ slot ∈ group.slots, slot.isReady = true
  /-- While reservations are taken, the size has not been fixed. -/
  unfixed : group.stage = .opened → group.fixedAt = none
  /-- After that it is known when the size was fixed, unless the group was aborted. -/
  fixed : group.stage ≠ .opened → group.stage ≠ .aborted → group.fixedAt.isSome = true

theorem Initial.staged (h : Initial group) : group.Staged := by
  cases h with
  | normal parent capacity now => exact ⟨rfl, nofun, nofun, fun _ => rfl, fun h => absurd rfl h⟩
  | delayed slot emitKey createdAt now => exact ⟨rfl, nofun, nofun, nofun, fun _ _ => rfl⟩

namespace Staged

/-- Nobody has claimed the emission of a group that can be ended without one. -/
theorem claimed_of_isAbortable (h : group.Staged) (habort : group.isAbortable = true) :
    group.claimed = false := by
  have hclaim := h.claim
  cases hs : group.stage <;> cases hc : group.claimed <;>
    simp_all [isAbortable, Stage.isMutable]

/-- A change that keeps the stage keeps what it says, if the slots of a group that is ready or
done stay ready and the claim and the outcome stay. -/
theorem keep_stage (h : group.Staged) (hstage : changed.stage = group.stage)
    (houtcome : changed.outcome = group.outcome) (hclaimed : changed.claimed = group.claimed)
    (hfixed : changed.fixedAt = group.fixedAt)
    (hslots : group.stage = .ready ∨ group.stage = .done → changed.slots = group.slots) :
    changed.Staged where
  outcome := by rw [houtcome, hstage]; exact h.outcome
  claim := by rw [hclaimed, hstage]; exact h.claim
  full := fun hfull => by
    rw [hstage] at hfull
    rw [hslots hfull]
    exact h.full hfull
  unfixed := by rw [hstage, hfixed]; exact h.unfixed
  fixed := by rw [hstage, hfixed]; exact h.fixed

/-- No value arrives for a group that is ready or done: none is missing. -/
theorem put_eq_ok (h : group.Staged) {fullKey : String} {value : ν}
    (hput : group.put fullKey value = .ok changed) : group.stage.isMutable = true := by
  obtain ⟨hlive, before, slot, after, hslots, -, -, hready, -⟩ := Group.put_eq_ok hput
  have hfull := h.full
  cases hs : group.stage <;> simp_all [Stage.isMutable, Stage.isTerminal]

end Staged

/-- Every operation that may be carried out keeps what the stage says. -/
theorem Effect.staged (h : Effect group operation changed) (hgroup : group.Staged)
    (hadmits : group.admits operation = true) : changed.Staged := by
  obtain ⟨houtcome, hclaim, hfull, hunfixed, hfixed⟩ := id hgroup
  cases h with
  | keep => exact hgroup
  | reserve h =>
    obtain ⟨hopen, -, rfl⟩ := reserve_eq_ok h
    constructor <;> dsimp only <;> split <;> simp_all [Stage.isTerminal]
  | put h =>
    have hmutable := hgroup.put_eq_ok h
    obtain ⟨-, before, slot, after, -, -, -, -, rfl⟩ := Group.put_eq_ok h
    refine hgroup.keep_stage rfl rfl rfl rfl fun hs => ?_
    obtain hs | hs := hs <;> rw [hs] at hmutable <;> contradiction
  | remove h =>
    obtain ⟨hmutable, before, slot, after, -, -, -, -, rfl⟩ := remove_eq_ok h
    refine hgroup.keep_stage rfl rfl rfl rfl fun hs => ?_
    obtain hs | hs := hs <;> rw [hs] at hmutable <;> contradiction
  | fixSize h => constructor <;> simp_all [Stage.isTerminal]
  | markReady h =>
    obtain ⟨hstage, hslots⟩ := isComplete_iff.mp h
    constructor <;> simp_all [Stage.isTerminal]
  | extract h =>
    refine hgroup.keep_stage rfl rfl rfl rfl fun hs => ?_
    rw [(isHeldBack_iff.mp h).2.1] at hs
    obtain hs | hs := hs <;> contradiction
  | claim h =>
    obtain ⟨hstage, -, -, rfl⟩ := claim?_eq_some h
    constructor <;> simp_all
  | finish =>
    have hstage : group.stage = .ready := by simpa [admits] using hadmits
    constructor <;> simp_all [Group.finish, Stage.isTerminal]
  | abort h =>
    have hclaimed := hgroup.claimed_of_isAbortable h
    constructor <;> simp_all [Stage.isTerminal]

/-! ## What one operation does to the stage -/

/-- The stage stays, or goes on to the next one, or the group is aborted. -/
def Advances (group changed : Group ν) : Prop :=
  changed.stage = group.stage ∨
  (group.stage = .opened ∧ changed.stage = .sizeFixed) ∨
  (group.stage = .sizeFixed ∧ changed.stage = .ready) ∨
  (group.stage = .ready ∧ changed.stage = .done) ∨
  (changed.stage = .aborted ∧ (group.stage = .opened ∨ group.stage = .sizeFixed ∨
    (group.stage = .ready ∧ group.claimed = false)))

theorem Effect.advances (h : Effect group operation changed)
    (hadmits : group.admits operation = true) : Advances group changed := by
  cases h with
  | keep => exact .inl rfl
  | reserve h =>
    obtain ⟨hopen, -, rfl⟩ := reserve_eq_ok h
    rw [Advances, hopen]
    dsimp only
    split <;> simp
  | put h =>
    obtain ⟨-, before, slot, after, -, -, -, -, rfl⟩ := Group.put_eq_ok h
    exact .inl rfl
  | remove h =>
    obtain ⟨-, before, slot, after, -, -, -, -, rfl⟩ := remove_eq_ok h
    exact .inl rfl
  | fixSize h => exact .inr (.inl ⟨h, rfl⟩)
  | markReady h => exact .inr (.inr (.inl ⟨(isComplete_iff.mp h).1, rfl⟩))
  | extract h => exact .inl rfl
  | claim h =>
    obtain ⟨-, -, -, rfl⟩ := claim?_eq_some h
    exact .inl rfl
  | finish => exact .inr (.inr (.inr (.inl ⟨by simpa [admits] using hadmits, rfl⟩)))
  | abort h =>
    refine .inr (.inr (.inr (.inr ⟨rfl, ?_⟩)))
    simpa [isAbortable, Stage.isMutable_iff, or_assoc] using h

/-- Nothing but `finish` changes a group that has ended. -/
theorem Effect.eq_of_isTerminal (h : Effect group operation changed)
    (hended : group.stage.isTerminal = true) (hnot : ∀ verdict, operation ≠ .finish verdict) :
    changed = group := by
  cases h with
  | keep => rfl
  | reserve h => rw [(reserve_eq_ok h).1] at hended; contradiction
  | put h => rw [(Group.put_eq_ok h).1] at hended; contradiction
  | remove h =>
    have hmutable := (remove_eq_ok h).1
    cases hs : group.stage <;> rw [hs] at hended hmutable <;> contradiction
  | fixSize h => rw [h] at hended; contradiction
  | markReady h => rw [(isComplete_iff.mp h).1] at hended; contradiction
  | extract h => rw [(isHeldBack_iff.mp h).2.1] at hended; contradiction
  | claim h => rw [(claim?_eq_some h).1] at hended; contradiction
  | finish => exact absurd rfl (hnot _)
  | abort h => cases hs : group.stage <;> simp_all [isAbortable, Stage.isTerminal, Stage.isMutable]

/-! ## What a later moment keeps -/

/-- The two keys that name a slot. -/
def slotNames (group : Group ν) : List (String × String) :=
  group.slots.map fun slot => (slot.child, slot.fullKey)

/-- What a later moment in the life of a group keeps of an earlier one. -/
structure Continues (group later : Group ν) : Prop where
  /-- A claim stays, and a group that was claimed is not aborted. -/
  claimed : group.claimed = true → later.claimed = true ∧ later.stage ≠ .aborted
  /-- The instant at which the size was fixed stays. -/
  fixedAt : ∀ since, group.fixedAt = some since → later.fixedAt = some since
  /-- From `ready` on, the same slots stand in the same order. -/
  slots : group.stage.isMutable = false →
    later.stage.isMutable = false ∧ later.slotNames = group.slotNames
  /-- A group that has ended stays as it is. -/
  ended : group.stage.isTerminal = true → later = group

namespace Continues

theorem refl (h : group.Staged) : Continues group group where
  claimed := fun hclaimed => ⟨hclaimed, fun haborted => by
    obtain hs | hs := h.claim hclaimed <;> rw [hs] at haborted <;> contradiction⟩
  fixedAt := fun _ hsince => hsince
  slots := fun hstage => ⟨hstage, rfl⟩
  ended := fun _ => rfl

theorem trans (h : Continues group changed) (h' : Continues changed later) :
    Continues group later where
  claimed := fun hclaimed => h'.claimed (h.claimed hclaimed).1
  fixedAt := fun since hsince => h'.fixedAt since (h.fixedAt since hsince)
  slots := fun hstage => by
    obtain ⟨hmiddle, hnames⟩ := h.slots hstage
    obtain ⟨hlater, hnames'⟩ := h'.slots hmiddle
    exact ⟨hlater, hnames'.trans hnames⟩
  ended := fun hstage => by
    have hsame := h.ended hstage
    rw [h'.ended (by rw [hsame]; exact hstage), hsame]

/-- Slots may change as long as the group is not ready. -/
theorem of_isMutable (h : group.Staged) (hmutable : group.stage.isMutable = true)
    (hfixed : ∀ since, group.fixedAt = some since → changed.fixedAt = some since) :
    Continues group changed where
  claimed := fun hclaimed => by
    obtain hs | hs := h.claim hclaimed <;> rw [hs] at hmutable <;> contradiction
  fixedAt := hfixed
  slots := fun hstage => by rw [hstage] at hmutable; contradiction
  ended := fun hstage => by
    obtain hs | hs := Stage.isMutable_iff.mp hmutable <;> rw [hs] at hstage <;> contradiction

end Continues

theorem Effect.continues (h : Effect group operation changed) (hgroup : group.Staged)
    (hadmits : group.admits operation = true) : Continues group changed := by
  cases h with
  | keep => exact .refl hgroup
  | reserve h =>
    have hopen := (reserve_eq_ok h).1
    refine .of_isMutable hgroup (by rw [hopen]; rfl) fun since hsince => ?_
    rw [hgroup.unfixed hopen] at hsince
    contradiction
  | put h =>
    have hmutable := hgroup.put_eq_ok h
    obtain ⟨-, before, slot, after, -, -, -, -, rfl⟩ := Group.put_eq_ok h
    exact .of_isMutable hgroup hmutable fun _ hsince => hsince
  | remove h =>
    obtain ⟨hmutable, before, slot, after, -, -, -, -, rfl⟩ := remove_eq_ok h
    exact .of_isMutable hgroup hmutable fun _ hsince => hsince
  | fixSize h =>
    refine .of_isMutable hgroup (by rw [h]; rfl) fun since hsince => ?_
    rw [hgroup.unfixed h] at hsince
    contradiction
  | markReady h =>
    exact .of_isMutable hgroup (by rw [(isComplete_iff.mp h).1]; rfl) fun _ hsince => hsince
  | extract h =>
    exact .of_isMutable hgroup (by rw [(isHeldBack_iff.mp h).2.1]; rfl) fun _ hsince => hsince
  | claim h =>
    obtain ⟨hstage, -, -, rfl⟩ := claim?_eq_some h
    constructor <;> simp_all [slotNames, Stage.isTerminal, Stage.isMutable]
  | finish =>
    have hstage : group.stage = .ready := by simpa [admits] using hadmits
    constructor <;> simp_all [Group.finish, slotNames, Stage.isTerminal, Stage.isMutable]
  | abort h =>
    have hclaimed := hgroup.claimed_of_isAbortable h
    constructor
    · exact fun htrue => by rw [htrue] at hclaimed; contradiction
    · exact fun _ hsince => hsince
    · exact fun _ => ⟨rfl, rfl⟩
    · intro hended
      cases hs : group.stage <;> simp_all [isAbortable, Stage.isTerminal, Stage.isMutable]

/-! ## Whole lives -/

/-- What holds of a group holds after any list of operations that may be carried out, and the
group is continued. -/
theorem Staged.live (h : group.Staged) (operations : List (GroupOperation ν))
    (hadmits : group.admitsAll operations = true) :
    (group.live operations).Staged ∧ Continues group (group.live operations) := by
  induction operations generalizing group with
  | nil => exact ⟨h, .refl h⟩
  | cons operation rest ih =>
    rw [admitsAll, Bool.and_eq_true] at hadmits
    have heffect := group.effect_perform operation
    obtain ⟨hlater, hcontinues⟩ := ih (heffect.staged h hadmits.1) hadmits.2
    exact ⟨hlater, (heffect.continues h hadmits.1).trans hcontinues⟩

/-- The life of a group. Whatever was done to it so far, its stage agrees with the rest of it; one
more operation moves the stage one step on at most, or aborts a group that nobody has claimed, and
leaves a group that has ended as it is; and whatever is done next, a claim, the instant at which
the size was fixed and the slots of a group that was ready stay. -/
theorem life_of_group {start : Group ν} (hstart : Initial start)
    (operations : List (GroupOperation ν)) (hadmits : start.admitsAll operations = true) :
    (start.live operations).Staged ∧
    (∀ operation, (start.live operations).admits operation = true →
      Advances (start.live operations) ((start.live operations).perform operation).2) ∧
    (∀ operation, (start.live operations).stage.isTerminal = true →
      (∀ verdict, operation ≠ .finish verdict) →
      ((start.live operations).perform operation).2 = start.live operations) ∧
    ∀ more, start.admitsAll (operations ++ more) = true →
      Continues (start.live operations) (start.live (operations ++ more)) := by
  have hstaged := (hstart.staged.live operations hadmits).1
  refine ⟨hstaged, fun operation hnext => (effect_perform _ operation).advances hnext,
    fun operation hended hnot => (effect_perform _ operation).eq_of_isTerminal hended hnot,
    fun more hall => ?_⟩
  rw [live_append]
  rw [admitsAll_append, hadmits, Bool.true_and] at hall
  exact (hstaged.live more hall).2

/-- A group for two slots, from its first reservation to the claim of its emission. -/
def lifeOfPair : List (GroupOperation Nat) :=
  [.reserve 0 "a" "7:a", .reserve 5 "b" "7:b", .put "7:b" 2, .markReady, .put "7:a" 1, .markReady,
    .claim]

/-- The emission of the pair comes to its end, and whatever is tried before and after that fails:
nobody aborts the pair any more, nor takes a slot out. -/
theorem life_of_claimed_pair :
    ((normal "7" 2 0).live lifeOfPair).stage = .ready ∧
      ((normal "7" 2 0).live lifeOfPair).claimed = true ∧
      Continues ((normal "7" 2 0).live lifeOfPair)
        ((normal "7" 2 0).live (lifeOfPair ++
          [.abort .closed, .finish (.ok ()), .remove "7:a", .abort .closed])) :=
  ⟨by decide, by decide,
    (life_of_group (.normal "7" 2 0) lifeOfPair (by decide)).2.2.2 _ (by decide)⟩

end Group

end BatchedCommit
