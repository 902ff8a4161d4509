import BatchedCommit.Proofs.Deeds
import BatchedCommit.Proofs.Delivery

/-!
# BatchedCommit.Proofs.Blocks

Reservations fill the groups one after the other (`Committer.reservations_fill_blocks`). As long
as nothing else happens, the slots that were handed out form blocks of as many as a group holds:
the `n`-th slot stands in the group of number `n / capacity`, under the parent key of this
number, and a child key is refused only beside an equal one in the same block. A refusal takes
no place, no parent key and no group.

The invariant is `Registry.InBlocks`; it says of each group which block of the slots it holds.
-/

namespace BatchedCommit

variable {ν ε α : Type}

/-! ## Blocks of a list -/

/-- The block of a given number, when a list is divided into blocks of this length; the last one
may be shorter. -/
def block (length number : Nat) (list : List α) : List α :=
  (list.drop (number * length)).take length

/-- A new entry at the end belongs to the block of the place it takes. -/
theorem block_concat {length : Nat} (hlength : 1 ≤ length) (number : Nat) (list : List α)
    (entry : α) : block length number (list ++ [entry]) =
      if number = list.length / length then block length number list ++ [entry]
      else block length number list := by
  have hplace := Nat.div_add_mod' list.length length
  have hrest := Nat.mod_lt list.length hlength
  by_cases hnumber : number = list.length / length
  · have hstart : number * length ≤ list.length := by rw [hnumber]; omega
    rw [if_pos hnumber, block, block, List.drop_append_of_le_length hstart, List.take_append,
      List.length_drop, List.take_of_length_le (l := [entry])]
    simp only [List.length_singleton]
    rw [hnumber]
    omega
  · rw [if_neg hnumber, block, block]
    obtain hbefore | hafter := Nat.lt_or_gt_of_ne hnumber
    · have hend := (Nat.le_div_iff_mul_le hlength).mp hbefore
      rw [Nat.succ_mul] at hend
      rw [List.drop_append_of_le_length (by omega), List.take_append_of_le_length]
      rw [List.length_drop]
      omega
    · have hstart := (Nat.div_lt_iff_lt_mul hlength).mp hafter
      rw [List.drop_eq_nil_of_le (by simp; omega), List.drop_eq_nil_of_le (by omega)]

/-- The block after the last full one holds what is left over. -/
theorem length_block_last {length : Nat} (hlength : 1 ≤ length) (list : List α) :
    (block length (list.length / length) list).length = list.length % length := by
  have hplace := Nat.div_add_mod' list.length length
  have hrest := Nat.mod_lt list.length hlength
  rw [block, List.length_take, List.length_drop]
  omega

/-- One more entry fills the last block, or makes what is left over longer. -/
theorem place_succ {length : Nat} (hlength : 1 ≤ length) (n : Nat) :
    (n % length + 1 = length ∧ (n + 1) / length = n / length + 1 ∧ (n + 1) % length = 0) ∨
      (n % length + 1 < length ∧ (n + 1) / length = n / length ∧
        (n + 1) % length = n % length + 1) := by
  have hplace := Nat.div_add_mod n length
  have hrest := Nat.mod_lt n hlength
  by_cases hfull : n % length + 1 = length
  · refine .inl ⟨hfull, (Nat.div_mod_unique hlength).mpr ⟨?_, hlength⟩⟩
    rw [Nat.mul_add, Nat.mul_one]
    omega
  · exact .inr ⟨by omega, (Nat.div_mod_unique hlength).mpr ⟨by omega, by omega⟩⟩

/-! ## A group that holds a block -/

namespace Group

/-- The slots of the group are those of a block of all slots that were handed out, in their order,
and it takes reservations until the block is full. -/
structure HoldsBlock (scheme : KeyScheme) (capacity number : Nat)
    (taken : List (String × String)) (group : Group ν) : Prop where
  key : group.key = scheme.parentKey number
  room : group.capacity = capacity
  names : group.names = block capacity number taken
  stage : group.stage = if (number + 1) * capacity ≤ taken.length then .sizeFixed else .opened

namespace HoldsBlock

variable {scheme : KeyScheme} {capacity number : Nat} {taken : List (String × String)}
  {group changed : Group ν}

theorem length_slots (h : group.HoldsBlock scheme capacity number taken) :
    group.slots.length = (block capacity number taken).length := by
  rw [← h.names, Group.names, List.length_map]

theorem children (h : group.HoldsBlock scheme capacity number taken) :
    group.slots.map Slot.child = (block capacity number taken).map Prod.fst := by
  simp [← h.names, Group.names, Slot.names, Function.comp_def]

/-- A group that was just opened holds the block that has nothing in it yet. -/
theorem normal (hcapacity : 1 ≤ capacity) (hnew : taken.length % capacity = 0) (now : Instant) :
    (Group.normal (scheme.parentKey (taken.length / capacity)) capacity now : Group ν).HoldsBlock
      scheme capacity (taken.length / capacity) taken where
  key := rfl
  room := rfl
  names := by
    have hlength := length_block_last hcapacity taken
    rw [hnew] at hlength
    exact (List.length_eq_zero_iff.mp hlength).symm
  stage := by
    have hplace := Nat.div_add_mod' taken.length capacity
    rw [if_neg (by rw [Nat.add_mul, Nat.one_mul]; omega)]
    rfl

/-- A reservation elsewhere leaves a full block alone. -/
theorem concat (h : group.HoldsBlock scheme capacity number taken) (hcapacity : 1 ≤ capacity)
    (hbefore : number < taken.length / capacity) (entry : String × String) :
    group.HoldsBlock scheme capacity number (taken ++ [entry]) where
  key := h.key
  room := h.room
  names := by rw [h.names, block_concat hcapacity, if_neg (Nat.ne_of_lt hbefore)]
  stage := by
    have hend : (number + 1) * capacity ≤ taken.length :=
      (Nat.le_div_iff_mul_le hcapacity).mp hbefore
    rw [h.stage, if_pos hend, if_pos (by simp; omega)]

/-- A reservation in the group adds to the block, and fixes the size of the group when the block is
full. -/
theorem reserve {now : Instant} {child fullKey : String}
    (h : group.HoldsBlock scheme capacity (taken.length / capacity) taken)
    (hcapacity : 1 ≤ capacity) (hreserve : group.reserve now child fullKey = .ok changed) :
    changed.HoldsBlock scheme capacity (taken.length / capacity) (taken ++ [(child, fullKey)]) := by
  have hlength := h.length_slots
  rw [length_block_last hcapacity] at hlength
  obtain ⟨-, -, rfl⟩ := Group.reserve_eq_ok hreserve
  constructor
  · exact h.key
  · exact h.room
  · rw [block_concat hcapacity, if_pos rfl, ← h.names]
    simp [Group.names, Slot.names, Slot.reserved]
  · have hplace := Nat.div_add_mod' taken.length capacity
    have hfull : capacity ≤ taken.length % capacity + 1 ↔
        (taken.length / capacity + 1) * capacity ≤ taken.length + 1 := by
      rw [Nat.add_mul, Nat.one_mul]
      omega
    simp only [h.room, hlength, hfull, List.length_append, List.length_singleton]

end HoldsBlock

end Group

/-! ## The invariant -/

namespace Registry

/-- The slots that were handed out fill the groups, one block after the other. -/
structure InBlocks (registry : Registry ν) (capacity : Nat) (taken : List (String × String)) :
    Prop where
  opened : registry.closed = false
  room : registry.capacity = capacity
  /-- Slots are handed out only where there can be room for those of a group, -/
  begun : taken ≠ [] → registry.hasRoom = true
  /-- and there a parent key is made for each group. -/
  issued : registry.hasRoom = true → registry.issued = registry.groups.size
  /-- Each place has its full key, by the number of its block. -/
  keys : ∀ n child key, taken[n]? = some (child, key) →
    key = registry.scheme.fullKey (registry.scheme.parentKey (n / capacity)) child
  /-- There is a group for each block that was begun, -/
  size : registry.groups.size = if taken.length % capacity = 0 then taken.length / capacity
    else taken.length / capacity + 1
  /-- the last one takes reservations unless its block is full, -/
  current : registry.current = if taken.length % capacity = 0 then none
    else some (taken.length / capacity)
  /-- and each holds its block. -/
  groups : ∀ (id : Nat) (group : Group ν), registry.groups[id]? = some group →
    group.HoldsBlock registry.scheme capacity id taken

variable {registry : Registry ν} {capacity : Nat} {taken : List (String × String)}

namespace InBlocks

theorem empty (settings : Settings) (scheme : KeyScheme) (slotBytes : Nat) :
    (Registry.empty settings scheme slotBytes : Registry ν).InBlocks
      settings.slotCapacity.toNat [] where
  opened := rfl
  room := rfl
  begun := fun htaken => absurd rfl htaken
  issued := fun _ => rfl
  keys := by simp
  size := by simp [Registry.empty]
  current := by simp [Registry.empty]
  groups := fun id group hgroup => by simp [Registry.empty] at hgroup

/-- The group that takes reservations holds the last block. -/
theorem of_current (h : registry.InBlocks capacity taken) {id : Nat}
    (hcurrent : registry.current = some id) :
    taken.length % capacity ≠ 0 ∧ id = taken.length / capacity := by
  rw [h.current] at hcurrent
  split at hcurrent
  · contradiction
  · next hpart => exact ⟨hpart, (Option.some.inj hcurrent).symm⟩

/-- If the group that takes reservations is not open, then there is none, and all blocks are
full. -/
theorem of_none (h : registry.InBlocks capacity taken) (hcapacity : 1 ≤ capacity)
    (hnone : ∀ id group, registry.current = some id → registry.groups[id]? = some group →
      group.stage ≠ .opened) : taken.length % capacity = 0 := by
  by_contra hpart
  have hplace := Nat.div_add_mod' taken.length capacity
  have hrest := Nat.mod_lt taken.length hcapacity
  have hlt : taken.length / capacity < registry.groups.size := by
    rw [h.size, if_neg hpart]
    omega
  have hgroup := Array.getElem?_eq_getElem hlt
  refine hnone _ _ (by rw [h.current, if_neg hpart]) hgroup ?_
  rw [(h.groups _ _ hgroup).stage, if_neg]
  rw [Nat.add_mul, Nat.one_mul]
  omega

/-- A group of a smaller number is full. -/
theorem lt_of_ne (h : registry.InBlocks capacity taken) {id : Nat} {group : Group ν}
    (hgroup : registry.groups[id]? = some group) (hne : id ≠ taken.length / capacity) :
    id < taken.length / capacity := by
  have hlt := (Array.getElem?_eq_some_iff.mp hgroup).1
  have hsize := h.size
  split at hsize <;> omega

/-- The group in which the last block ends takes no more reservations exactly when that is full. -/
theorem current_concat {entry : String × String} {group : Group ν} (hcapacity : 1 ≤ capacity)
    (hgroup : group.HoldsBlock registry.scheme capacity (taken.length / capacity)
      (taken ++ [entry])) :
    (if group.stage = .sizeFixed then none else some (taken.length / capacity)) =
      if (taken ++ [entry]).length % capacity = 0 then none
      else some ((taken ++ [entry]).length / capacity) := by
  have hplace := Nat.div_add_mod' taken.length capacity
  rw [hgroup.stage, List.length_append, List.length_singleton, Nat.add_mul, Nat.one_mul]
  obtain ⟨hfull, -, hmod⟩ | ⟨hpart, hdiv, hmod⟩ := place_succ hcapacity taken.length
  · have hend : taken.length / capacity * capacity + capacity ≤ taken.length + 1 := by omega
    simp [hend, hmod]
  · have hend : ¬ taken.length / capacity * capacity + capacity ≤ taken.length + 1 := by omega
    simp [hend, hmod, hdiv]

/-- There is a group for each block that was begun, with one entry more. -/
theorem size_concat (hcapacity : 1 ≤ capacity) (n : Nat) :
    (if (n + 1) % capacity = 0 then (n + 1) / capacity else (n + 1) / capacity + 1) =
      n / capacity + 1 := by
  obtain ⟨-, hdiv, hmod⟩ | ⟨-, hdiv, hmod⟩ := place_succ hcapacity n
  · rw [if_pos hmod, hdiv]
  · rw [if_neg (by omega), hdiv]

/-- The next place has its full key. -/
theorem keys_concat (h : registry.InBlocks capacity taken) (last : String) (n : Nat)
    (child key : String) (hplace : (taken ++ [(last, registry.scheme.fullKey
      (registry.scheme.parentKey (taken.length / capacity)) last)])[n]? = some (child, key)) :
    key = registry.scheme.fullKey (registry.scheme.parentKey (n / capacity)) child := by
  rw [List.getElem?_append] at hplace
  split at hplace
  · exact h.keys n child key hplace
  · next hn =>
    obtain ⟨hzero, hentry⟩ := List.getElem?_eq_some_iff.mp hplace
    have hlast : n = taken.length := by
      rw [List.length_singleton] at hzero
      omega
    subst hlast
    simp only [Nat.sub_self, List.getElem_cons_zero, Prod.mk.injEq] at hentry
    rw [← hentry.1, ← hentry.2]

/-- A reservation in the group of the last block. -/
theorem join (h : registry.InBlocks capacity taken) (hcapacity : 1 ≤ capacity) {id : Nat}
    {group changed : Group ν} {child key : String} (hcurrent : registry.current = some id)
    (hgroup : registry.groups[id]? = some group)
    (hkey : key = registry.scheme.fullKey
      (registry.scheme.parentKey (taken.length / capacity)) child)
    (hroom : registry.hasRoom = true)
    (hchanged : changed.HoldsBlock registry.scheme capacity (taken.length / capacity)
      (taken ++ [(child, key)])) :
    (registry.afterReserve id changed).InBlocks capacity (taken ++ [(child, key)]) := by
  obtain ⟨hpart, rfl⟩ := h.of_current hcurrent
  subst hkey
  constructor
  · exact h.opened
  · exact h.room
  · exact fun _ => hroom
  · intro _
    simpa [Registry.afterReserve] using h.issued hroom
  · exact h.keys_concat child
  · rw [List.length_append, List.length_singleton, size_concat hcapacity]
    simp [Registry.afterReserve, h.size, hpart]
  · rw [← current_concat hcapacity hchanged]
    simp [Registry.afterReserve, hcurrent]
  · intro other found hfound
    obtain ⟨rfl, rfl⟩ | ⟨hother, hsame⟩ := getElem?_set_cases hfound
    · exact hchanged
    · exact (h.groups other found hsame).concat hcapacity (h.lt_of_ne hsame hother) _

/-- A reservation in a group that is opened for a new block. -/
theorem found (h : registry.InBlocks capacity taken) (hcapacity : 1 ≤ capacity)
    {changed : Group ν} {child key : String} (hnew : taken.length % capacity = 0)
    (hkey : key = registry.scheme.fullKey
      (registry.scheme.parentKey (taken.length / capacity)) child)
    (hroom : registry.hasRoom = true)
    (hchanged : changed.HoldsBlock registry.scheme capacity (taken.length / capacity)
      (taken ++ [(child, key)])) :
    (registry.afterOpen changed).InBlocks capacity (taken ++ [(child, key)]) := by
  have hsize : registry.groups.size = taken.length / capacity := by rw [h.size, if_pos hnew]
  subst hkey
  constructor
  · exact h.opened
  · exact h.room
  · exact fun _ => hroom
  · intro _
    simp [Registry.afterOpen, h.issued hroom]
  · exact h.keys_concat child
  · rw [List.length_append, List.length_singleton, size_concat hcapacity]
    simp [Registry.afterOpen, hsize]
  · rw [← current_concat hcapacity hchanged, ← hsize]
    rfl
  · intro id found hfound
    rw [Registry.afterOpen, Array.getElem?_push] at hfound
    split at hfound
    · next hid =>
      rw [hid, hsize, ← Option.some.inj hfound]
      exact hchanged
    · next hid =>
      rw [hsize] at hid
      exact (h.groups id found hfound).concat hcapacity (h.lt_of_ne hfound hid) _

/-- A reservation takes the next place, in the group that this place belongs to, unless the child
key is in that group already; then it changes nothing. Where there cannot be room for the slots of
a group, it breaks down and takes no place. -/
theorem reserve (h : registry.InBlocks capacity taken) (hcapacity : 1 ≤ capacity)
    (now : Instant) (child : String) :
    (child ∈ (block capacity (taken.length / capacity) taken).map Prod.fst ∧
      registry.reserve now child = {
        answer := some (.error (.duplicateKey (registry.scheme.fullKey
          (registry.scheme.parentKey (taken.length / capacity)) child)))
        registry }) ∨
    (child ∉ (block capacity (taken.length / capacity) taken).map Prod.fst ∧
      registry.hasRoom = true ∧
      (registry.reserve now child).answer = some (.ok (registry.scheme.fullKey
        (registry.scheme.parentKey (taken.length / capacity)) child)) ∧
      (registry.reserve now child).registry.InBlocks capacity
        (taken ++ [(child, registry.scheme.fullKey
          (registry.scheme.parentKey (taken.length / capacity)) child)])) ∨
    (child ∉ (block capacity (taken.length / capacity) taken).map Prod.fst ∧
      registry.hasRoom = false ∧ (registry.reserve now child).answer = none ∧
      (registry.reserve now child).registry.InBlocks capacity taken) := by
  obtain ⟨hclosed, -⟩ | ⟨id, group, -, hcurrent, hgroup, -, hchild, heq⟩ |
    ⟨id, group, changed, -, hcurrent, hgroup, hreserve, heq⟩ |
    ⟨parent, changed, -, hnone, hroom, rfl, hreserve, heq⟩ | ⟨-, -, hroom, heq⟩ :=
    registry.reserve_cases now child
  · rw [h.opened] at hclosed
    contradiction
  · obtain ⟨-, rfl⟩ := h.of_current hcurrent
    have hblock := h.groups _ group hgroup
    rw [hblock.children] at hchild
    rw [hblock.key] at heq
    exact .inl ⟨hchild, heq⟩
  · obtain ⟨hpart, hid⟩ := h.of_current hcurrent
    have hroom : registry.hasRoom = true := h.begun fun hnil => hpart (by rw [hnil]; rfl)
    have hblock := h.groups _ group hgroup
    rw [hid] at hblock
    have hnot := (Group.reserve_eq_ok hreserve).2.1
    rw [hblock.children] at hnot
    have hchanged := hblock.reserve hcapacity hreserve
    rw [hblock.key] at heq hchanged
    rw [heq]
    exact .inr (.inl ⟨hnot, hroom, rfl, h.join hcapacity hcurrent hgroup rfl hroom hchanged⟩)
  · have hnew := h.of_none hcapacity hnone
    have hissued : registry.issued = taken.length / capacity := by
      rw [h.issued hroom, h.size, if_pos hnew]
    rw [hissued, h.room] at hreserve
    have hblock : (Group.normal (registry.scheme.parentKey (taken.length / capacity)) capacity now :
        Group ν).HoldsBlock registry.scheme capacity (taken.length / capacity) taken :=
      .normal hcapacity hnew now
    have hnot := (Group.reserve_eq_ok hreserve).2.1
    rw [hblock.children] at hnot
    rw [heq, hissued]
    exact .inr (.inl ⟨hnot, hroom, rfl,
      h.found hcapacity hnew rfl hroom (hblock.reserve hcapacity hreserve)⟩)
  · have hnil : taken = [] := by
      by_contra htaken
      rw [h.begun htaken] at hroom
      contradiction
    rw [heq]
    refine .inr (.inr ⟨by simp [hnil, block], hroom, rfl, ?_⟩)
    exact ⟨h.opened, h.room, h.begun, fun htrue => absurd (hroom.symm.trans htrue) (by decide),
      h.keys, h.size, h.current, h.groups⟩

/-- There is a group for each block that was begun. -/
theorem lt_size_iff (h : registry.InBlocks capacity taken) (hcapacity : 1 ≤ capacity)
    (number : Nat) : number < registry.groups.size ↔ number * capacity < taken.length := by
  have hplace := Nat.div_add_mod' taken.length capacity
  have hbegun : number * capacity < taken.length ↔
      number < taken.length / capacity ∨
        number = taken.length / capacity ∧ taken.length % capacity ≠ 0 := by
    obtain hlt | rfl | hgt := Nat.lt_trichotomy number (taken.length / capacity)
    · have hend := (Nat.le_div_iff_mul_le hcapacity).mp hlt
      rw [Nat.succ_mul] at hend
      omega
    · omega
    · have hstart := (Nat.div_lt_iff_lt_mul hcapacity).mp hgt
      omega
  rw [hbegun, h.size]
  split <;> omega

end InBlocks

end Registry

/-! ## Runs of reservations -/

namespace Committer

/-- One reservation after another. -/
def reservations (calls : List (Instant × String)) : List (Action ν ε) :=
  calls.map fun call => .reserve call.1 call.2

/-- The slots that reservations hand out, by child key and full key, in the order of the calls. -/
def handedOut (committer : Committer ν ε) : List (Instant × String) → List (String × String)
  | [] => []
  | (now, child) :: calls =>
    match (committer.reserve now child).1 with
    | some (.ok fullKey) => (child, fullKey) :: (committer.reserve now child).2.handedOut calls
    | _ => (committer.reserve now child).2.handedOut calls

/-- Reservations go on filling the groups. -/
theorem inBlocks_run {capacity : Nat} (hcapacity : 1 ≤ capacity) (committer : Committer ν ε)
    {taken : List (String × String)} (h : committer.registry.InBlocks capacity taken)
    (calls : List (Instant × String)) :
    (committer.run (reservations calls)).registry.InBlocks capacity
      (taken ++ committer.handedOut calls) := by
  induction calls generalizing committer taken with
  | nil => simpa [handedOut, reservations, run_nil] using h
  | cons call calls ih =>
    obtain ⟨now, child⟩ := call
    have hrun : committer.run (reservations ((now, child) :: calls)) =
        (committer.reserve now child).2.run (reservations calls) := rfl
    rw [hrun]
    obtain ⟨-, heq⟩ | ⟨-, -, hanswer, hlater⟩ | ⟨-, -, hanswer, hlater⟩ :=
      h.reserve hcapacity now child
    · have hanswer : (committer.reserve now child).1 = some (.error (.duplicateKey _)) :=
        congrArg Section.answer heq
      have hsame : (committer.reserve now child).2.registry = committer.registry :=
        congrArg Section.registry heq
      rw [handedOut, hanswer]
      exact ih _ (by rwa [hsame])
    · have hok : (committer.reserve now child).1 = some (.ok _) := hanswer
      rw [handedOut, hok, List.append_cons]
      exact ih _ hlater
    · have hnone : (committer.reserve now child).1 = none := hanswer
      rw [handedOut, hnone]
      exact ih _ hlater

variable {label : String} {settings : Settings} {scheme : KeyScheme}
  {slotBytes : Nat} {unstartable : Option (Sweeper × String)} {start : Committer ν ε}

/-- Nothing but reservations happens to a committer that was just launched. Then the `n`-th slot
that is handed out has the full key of its child under the parent key of number `n / capacity`. The
next child key is refused exactly if it is in the block that the next place belongs to, always as a
duplicate, and otherwise gets this place, where there can be room for the slots of a group. There is
a group for each block that was begun; its slots are those of the block, in their order, and its
size is fixed if the block is full. So only the last group may take reservations, and all others
have as many slots as the settings say. -/
theorem reservations_fill_blocks
    (hstart : (launch label settings scheme slotBytes unstartable).1 = .ok start)
    (calls : List (Instant × String)) :
    (∀ n child key, (start.handedOut calls)[n]? = some (child, key) →
      key = scheme.fullKey (scheme.parentKey (n / settings.slotCapacity.toNat)) child) ∧
    (∀ now child, ((start.run (reservations calls)).reserve now child).1 =
      if child ∈ (block settings.slotCapacity.toNat
          ((start.handedOut calls).length / settings.slotCapacity.toNat)
          (start.handedOut calls)).map Prod.fst then
        some (.error (.duplicateKey (scheme.fullKey (scheme.parentKey
          ((start.handedOut calls).length / settings.slotCapacity.toNat)) child)))
      else if Group.roomFor slotBytes settings.slotCapacity.toNat then
        some (.ok (scheme.fullKey (scheme.parentKey
          ((start.handedOut calls).length / settings.slotCapacity.toNat)) child))
      else none) ∧
    (∀ number, number < (start.run (reservations calls)).registry.groups.size ↔
      number * settings.slotCapacity.toNat < (start.handedOut calls).length) ∧
    ∀ (number : Nat) (group : Group ν),
      (start.run (reservations calls)).registry.groups[number]? = some group →
      group.key = scheme.parentKey number ∧
      group.names = block settings.slotCapacity.toNat number (start.handedOut calls) ∧
      (group.stage = .opened ∨ group.stage = .sizeFixed) ∧
      (group.stage = .sizeFixed ↔ group.slots.length = settings.slotCapacity.toNat) ∧
      (number + 1 < (start.run (reservations calls)).registry.groups.size →
        group.stage = .sizeFixed) := by
  obtain ⟨hvalid, hregistry, -⟩ := launch_eq_ok hstart
  have hcapacity := Settings.slotCapacity_pos hvalid
  have hblocks := inBlocks_run hcapacity start
    (by rw [hregistry]; exact .empty settings scheme slotBytes)
    calls
  have hscheme : (start.run (reservations calls)).registry.scheme = scheme :=
    (run_constant hstart _).2
  rw [List.nil_append] at hblocks
  refine ⟨fun n child key h => ?_, fun now child => ?_, hblocks.lt_size_iff hcapacity,
    fun number group hgroup => ?_⟩
  · rw [← hscheme]
    exact hblocks.keys n child key h
  · rw [← hscheme, ← run_hasRoom hstart (reservations calls)]
    obtain ⟨hmem, heq⟩ | ⟨hnot, hroom, hanswer, -⟩ | ⟨hnot, hroom, hanswer, -⟩ :=
      hblocks.reserve hcapacity now child
    · rw [if_pos hmem, reserve, heq]
    · rw [if_neg hnot, if_pos hroom, reserve, hanswer]
    · rw [if_neg hnot, if_neg (by rw [hroom]; decide), reserve, hanswer]
  · have hholds := hblocks.groups number group hgroup
    have hlength := hholds.length_slots
    have hbegun := (hblocks.lt_size_iff hcapacity number).mp
      (Array.getElem?_eq_some_iff.mp hgroup).1
    rw [hscheme] at hholds
    refine ⟨hholds.key, hholds.names, ?_, ?_, fun hlast => ?_⟩
    · rw [hholds.stage]
      split
      · exact .inr rfl
      · exact .inl rfl
    · rw [hholds.stage, hlength, block, List.length_take, List.length_drop]
      rw [Nat.add_mul, Nat.one_mul]
      split <;> simp <;> omega
    · have hnext := (hblocks.lt_size_iff hcapacity (number + 1)).mp hlast
      rw [hholds.stage, if_pos (Nat.le_of_lt hnext)]

/-- A child key is refused in the group that has it, and taken in the next one. -/
theorem blocks_of_pairs :
    (launch "pairs" { Settings.default with slotCapacity := 2 } {} 72 none).1 = .ok pairs ∧
    pairs.handedOut [(0, "a"), (1, "a"), (2, "b"), (3, "a")] =
      [("a", "0000:a"), ("b", "0000:b"), ("a", "0001:a")] ∧
    ((pairs.run (reservations [(0, "a"), (1, "a"), (2, "b"), (3, "a")])).reserve 4 "a").1 =
      some (.error (.duplicateKey "0001:a")) := by
  have hstart : (launch "pairs" { Settings.default with slotCapacity := 2 } {} 72 none).1 =
      .ok pairs := rfl
  have htaken : pairs.handedOut [(0, "a"), (1, "a"), (2, "b"), (3, "a")] =
      [("a", "0000:a"), ("b", "0000:b"), ("a", "0001:a")] := by decide +kernel
  have hanswer := (reservations_fill_blocks hstart [(0, "a"), (1, "a"), (2, "b"), (3, "a")]).2.1
    4 "a"
  refine ⟨hstart, htaken, ?_⟩
  rw [hanswer, htaken]
  decide +kernel

end Committer

end BatchedCommit
