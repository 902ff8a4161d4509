import BatchedCommit.Proofs.Handover

/-!
# BatchedCommit.Proofs.Roster

The slots of a normal group on its own, after any list of operations (`Group.slots_of_normal`). They
have different child keys, they stand in the order in which they were reserved, and there are never
more of them than the capacity allows: one for a capacity of zero, because the size is only fixed
when the first slot is there. Slots that are taken out in between make room again, as long as
reservations are taken.

When the slots that hold the group back are taken out (`Group.Parted`), none is lost, both parts
keep the order, and what is left can be emitted at once.
-/

namespace BatchedCommit

namespace Group

variable {ν : Type} {start group changed : Group ν} {operation : GroupOperation ν}
  {operations : List (GroupOperation ν)}

/-! ## The capacity -/

/-- No operation changes the number of slots at which the size of the group is fixed. -/
theorem Effect.capacity (h : Effect group operation changed) :
    changed.capacity = group.capacity := by
  cases h with
  | reserve h => exact (SameHead.reserve h).capacity
  | put h => exact (SameHead.put h).capacity
  | remove h => exact (SameHead.remove h).capacity
  | claim h => exact (SameHead.claim? h).capacity
  | keep | fixSize | markReady | extract | finish | abort => rfl

theorem capacity_live (group : Group ν) (operations : List (GroupOperation ν)) :
    (group.live operations).capacity = group.capacity := by
  induction operations generalizing group with
  | nil => rfl
  | cons operation rest ih =>
    exact (ih (group.perform operation).2).trans (group.effect_perform operation).capacity

/-- A group that takes reservations has no slot, or fewer than its capacity: where the capacity is
zero, the first slot would have fixed the size. -/
theorem Coherent.slots_of_opened (h : group.Coherent) (hopen : group.stage = .opened) :
    group.slots = [] ∨ group.slots.length < group.capacity := by
  have hroom := h.room hopen
  by_cases hempty : group.slots = []
  · exact .inl hempty
  · have hpos := List.length_pos_iff.mpr hempty
    exact .inr (by omega)

/-! ## The order of the slots -/

/-- The slots of a group that started without any are those of some reservations, in the order of
these: each slot belongs to one of them, and was there ever since. -/
theorem Orderly.places (h : Orderly start operations) (hempty : start.slots = []) :
    ∃ places : List Nat, places.Pairwise (· < ·) ∧
      List.Forall₂ (fun slot place => start.Stands operations place slot.names)
        (start.live operations).slots places := by
  have hstands : ∀ name, name ∈ (start.live operations).names →
      ∃ place, start.Stands operations place name := by
    intro name hname
    obtain hstart | hplace := h.stands name hname
    · simp [names, hempty] at hstart
    · exact hplace
  choose! place hplace using hstands
  have hslot : ∀ slot ∈ (start.live operations).slots,
      start.Stands operations (place slot.names) slot.names :=
    fun slot hslot => hplace _ (List.mem_map_of_mem hslot)
  refine ⟨(start.live operations).slots.map fun slot => place slot.names, ?_, ?_⟩
  · have hsorted := List.pairwise_map.mp h.sorted
    exact List.pairwise_map.mpr (hsorted.imp_of_mem fun hone htwo hlt =>
      hlt _ _ (hslot _ hone) (hslot _ htwo))
  · rw [List.forall₂_map_right_iff, List.forall₂_same]
    exact hslot

/-! ## Slots that hold a group back -/

/-- Which slots are taken out of a group, and what is left of it. -/
structure Parted (group : Group ν) (taken : List (Slot ν)) (rest : Group ν) : Prop where
  /-- Nothing but the slots has changed. -/
  same : rest = { group with slots := rest.slots }
  /-- Every slot was taken or left. -/
  together : (taken ++ rest.slots).Perm group.slots
  /-- Those that were taken keep their order, -/
  taken_order : taken.Sublist group.slots
  /-- and so do those that are left. -/
  rest_order : rest.slots.Sublist group.slots
  /-- No value has arrived for a slot that was taken. -/
  awaited : ∀ slot ∈ taken, slot.isReady = false
  /-- If one was taken, then what is left becomes ready at once. -/
  complete : taken ≠ [] → rest.slots ≠ [] ∧ (∀ slot ∈ rest.slots, slot.isReady = true) ∧
    rest.perform .markReady = (.flag true, { rest with stage := .ready })

theorem parted_extractLagging (group : Group ν) (now : Instant) (window : Nat) :
    Parted group (group.extractLagging now window).1 (group.extractLagging now window).2 := by
  by_cases hheld : group.isHeldBack now window = true
  · have hcomplete := isComplete_rest hheld
    have hslots := (isComplete_iff.mp hcomplete).2
    rw [extractLagging, if_pos hheld]
    exact {
      same := rfl
      together := List.perm_append_comm.trans (List.filter_append_perm _ _)
      taken_order := List.filter_sublist
      rest_order := List.filter_sublist
      awaited := fun slot hslot => by simpa using (List.mem_filter.mp hslot).2
      complete := fun _ => ⟨hslots.1, hslots.2, by simp [perform, markReady, hcomplete]⟩ }
  · rw [extractLagging, if_neg hheld]
    exact ⟨rfl, .refl _, List.nil_sublist _, .refl _,
      fun _ hslot => by contradiction, fun hne => absurd rfl hne⟩

/-! ## Whole lives -/

/-- The slots of a group for `capacity` slots, after a list of operations. -/
structure Rostered (capacity : Nat) (start : Group ν) (operations : List (GroupOperation ν)) :
    Prop where
  /-- No two slots have the same child key. -/
  distinct : ((start.live operations).slots.map Slot.child).Nodup
  /-- They are, in order, those of some of the reservations that succeeded. -/
  order : ∃ places : List Nat, places.Pairwise (· < ·) ∧
    List.Forall₂ (fun slot place => start.Stands operations place slot.names)
      (start.live operations).slots places
  /-- There are no more than the capacity allows, and one in any case. -/
  bounded : (start.live operations).slots.length ≤ max capacity 1
  /-- While reservations are taken, there is none or there is room for one more. -/
  room : (start.live operations).stage = .opened →
    (start.live operations).slots = [] ∨ (start.live operations).slots.length < capacity
  /-- Those that hold the group back can be taken out at any time. -/
  parted : ∀ now window, Parted (start.live operations)
    ((start.live operations).extractLagging now window).1
    ((start.live operations).extractLagging now window).2

/-- The slots of a normal group, after any list of operations in which only the emission of a ready
group is finished. -/
theorem slots_of_normal (parent : String) (capacity : Nat) (now : Instant)
    (operations : List (GroupOperation ν))
    (hadmits : (Group.normal parent capacity now).admitsAll operations = true) :
    Rostered capacity (Group.normal parent capacity now) operations := by
  have hstart : Initial (Group.normal parent capacity now : Group ν) := .normal parent capacity now
  have hrecorded := recorded_live hstart (fun slot hslot => by contradiction) operations
  have hcoherent := coherent_live (.normal parent capacity now) operations hadmits
  have hcapacity : ((Group.normal parent capacity now).live operations).capacity = capacity :=
    capacity_live _ operations
  exact {
    distinct := by simpa [names, Slot.names, Function.comp_def] using hrecorded.distinct
    order := (orderly_live hstart operations).places rfl
    bounded := by simpa only [hcapacity] using hcoherent.bounded
    room := fun hopen => by
      simpa only [hcapacity] using hcoherent.slots_of_opened hopen
    parted := parted_extractLagging _ }

/-- The first slot of a pair is taken out, and the second one can be emitted without it: it is the
one that the second operation reserved. -/
theorem rescue_of_pair :
    let operations : List (GroupOperation Nat) :=
      [.reserve 0 "a" "7:a", .reserve 5 "b" "7:b", .put "7:b" 2]
    let held := (normal "7" 2 0).live operations
    (normal "7" 2 0).admitsAll operations = true ∧
      (held.extractLagging 20 10).1.map Slot.child = ["a"] ∧
      (held.extractLagging 20 10).2.slots.map Slot.child = ["b"] ∧
      (held.extractLagging 20 10).2.perform .markReady =
        (.flag true, { (held.extractLagging 20 10).2 with stage := .ready }) :=
  have hrostered := slots_of_normal "7" 2 0 [.reserve 0 "a" "7:a", .reserve 5 "b" "7:b",
    .put "7:b" 2] (by decide)
  ⟨by decide, by decide, by decide, ((hrostered.parted 20 10).complete (by decide)).2.2⟩

/-- A group for no slots takes one, and is fixed with it. -/
example : ((normal "7" 0 0 : Group Nat).live [.reserve 3 "a" "7:a", .reserve 4 "b" "7:b"]).names =
    [("a", "7:a")] := by decide

end Group

end BatchedCommit
