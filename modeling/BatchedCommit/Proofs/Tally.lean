import Mathlib.Algebra.BigOperators.Group.Finset.Basic
import Mathlib.Algebra.BigOperators.Intervals
import Mathlib.Algebra.Order.BigOperators.Group.Finset
import Mathlib.Data.List.Induction

/-!
# BatchedCommit.Proofs.Tally

Sums over the entries of an array. `tally_push`, `tally_append`, `tally_set` and `tally_modify` say
what a sum is after the array has changed in one place; `tally_mono` and `eq_of_tally_eq` compare
two weights of the same entries. An entry is counted by a weight of one (`ones`).
-/

namespace BatchedCommit

variable {α : Type} {weight other : α → Nat} {entries later : Array α} {i : Nat} {old new : α}

/-- The sum of the weights of all entries. -/
def tally (weight : α → Nat) (entries : Array α) : Nat := (entries.toList.map weight).sum

/-- A weight that only counts for entries that pass a test. -/
def within (test : α → Bool) (weight : α → Nat) (entry : α) : Nat :=
  if test entry then weight entry else 0

/-- The weight of an entry that is counted if it passes a test. -/
abbrev ones (test : α → Bool) : α → Nat := within test fun _ => 1

@[simp] theorem tally_push (weight : α → Nat) (entries : Array α) (new : α) :
    tally weight (entries.push new) = tally weight entries + weight new := by
  simp [tally]

@[simp] theorem tally_append (weight : α → Nat) (first second : Array α) :
    tally weight (first ++ second) = tally weight first + tally weight second := by
  simp [tally]

/-- Replacing one entry takes its weight away and adds that of the new one. -/
theorem tally_set (weight : α → Nat) (h : entries[i]? = some old) (new : α) :
    tally weight (entries.setIfInBounds i new) + weight old =
      tally weight entries + weight new := by
  obtain ⟨hi, hold⟩ := Array.getElem?_eq_some_iff.mp h
  have hlist : entries.toList = entries.toList.take i ++ old :: entries.toList.drop (i + 1) := by
    rw [← hold, ← Array.getElem_toList, List.cons_getElem_drop_succ, List.take_append_drop]
  have hset : (entries.setIfInBounds i new).toList =
      entries.toList.take i ++ new :: entries.toList.drop (i + 1) := by
    rw [Array.toList_setIfInBounds, List.set_eq_take_append_cons_drop, if_pos (by simpa using hi)]
  have htotal : tally weight entries =
      ((entries.toList.take i ++ old :: entries.toList.drop (i + 1)).map weight).sum := by
    rw [← hlist, tally]
  rw [htotal, tally, hset]
  simp only [List.map_append, List.map_cons, List.sum_append, List.sum_cons]
  omega

/-- Replacing an entry by one of the same weight does not change the sum. -/
theorem tally_set_same (h : entries[i]? = some old) (hsame : weight new = weight old) :
    tally weight (entries.setIfInBounds i new) = tally weight entries := by
  have hset := tally_set weight h new
  omega

theorem tally_modify (weight : α → Nat) (h : entries[i]? = some old) (change : α → α) :
    tally weight (entries.modify i change) + weight old =
      tally weight entries + weight (change old) := by
  rw [← tally_set weight h]
  congr 2
  apply Array.ext_getElem?
  intro j
  rw [Array.getElem?_modify, Array.getElem?_setIfInBounds]
  have hi := (Array.getElem?_eq_some_iff.mp h).1
  by_cases hj : i = j
  · subst hj
    rw [if_pos rfl, if_pos rfl, if_pos hi, h, Option.map_some]
  · rw [if_neg hj, if_neg hj]

theorem tally_congr (weight other : α → Nat)
    (h : ∀ (i : Nat) (entry : α), entries[i]? = some entry → weight entry = other entry) :
    tally weight entries = tally other entries := by
  rw [tally, tally]
  congr 1
  refine List.map_congr_left fun entry hentry => ?_
  obtain ⟨i, hi⟩ := Array.mem_iff_getElem?.mp (Array.mem_toList_iff.mp hentry)
  exact h i entry hi

theorem tally_mono
    (h : ∀ (i : Nat) (entry : α), entries[i]? = some entry → weight entry ≤ other entry) :
    tally weight entries ≤ tally other entries := by
  refine List.sum_le_sum fun entry hentry => ?_
  obtain ⟨i, hi⟩ := Array.mem_iff_getElem?.mp (Array.mem_toList_iff.mp hentry)
  exact h i entry hi

theorem tally_add (weight other : α → Nat) (entries : Array α) :
    tally (fun entry => weight entry + other entry) entries =
      tally weight entries + tally other entries := by
  simp [tally, List.sum_map_add]

theorem tally_zero (h : ∀ (i : Nat) (entry : α), entries[i]? = some entry → weight entry = 0) :
    tally weight entries = 0 := by
  rw [tally_congr weight (fun _ => 0) h]
  simp [tally]

theorem tally_map {β : Type} (weight : β → Nat) (change : α → β) (entries : Array α) :
    tally weight (entries.map change) = tally (fun entry => weight (change entry)) entries := by
  simp [tally, Function.comp_def]

/-- The number of entries is the sum of ones. -/
theorem tally_const (value : Nat) (entries : Array α) :
    tally (fun _ => value) entries = entries.size * value := by
  rw [tally, List.map_const', List.sum_replicate_nat, Array.length_toList]

theorem tally_one (entries : Array α) : tally (fun _ => 1) entries = entries.size := by
  rw [tally_const, Nat.mul_one]

/-- A sum over entries as a sum over their places. -/
theorem tally_eq_sum (weight : α → Nat) (entries : Array α) :
    tally weight entries = ∑ i ∈ Finset.range entries.size, (entries[i]?.map weight).getD 0 := by
  obtain ⟨list⟩ := entries
  induction list using List.reverseRecOn with
  | nil => rfl
  | append_singleton rest last ih =>
    simp only [tally, List.size_toArray, List.getElem?_toArray] at ih ⊢
    rw [List.length_append, List.length_singleton, Finset.sum_range_succ, List.map_append,
      List.sum_append, ih]
    congr 1
    · refine Finset.sum_congr rfl fun i hi => ?_
      rw [List.getElem?_append_left (Finset.mem_range.mp hi)]
    · simp

/-- If every entry is replaced by one of the same weight, the sum does not change. -/
theorem tally_eq_of_forall (hsize : later.size = entries.size)
    (h : ∀ (i : Nat) (old new : α), entries[i]? = some old → later[i]? = some new →
      weight new = weight old) : tally weight later = tally weight entries := by
  rw [tally_eq_sum, tally_eq_sum, hsize]
  refine Finset.sum_congr rfl fun i hi => ?_
  have hold := Array.getElem?_eq_getElem (Finset.mem_range.mp hi)
  have hnew := Array.getElem?_eq_getElem (hsize ▸ Finset.mem_range.mp hi)
  rw [hold, hnew, Option.map_some, Option.map_some, h i _ _ hold hnew]

/-- A sum of ones counts the entries that pass the test. -/
theorem tally_ones_eq_countP (test : α → Bool) (entries : Array α) :
    tally (ones test) entries = entries.toList.countP test := by
  rw [tally]
  induction entries.toList with
  | nil => rfl
  | cons entry rest ih =>
    rw [List.map_cons, List.sum_cons, ih, List.countP_cons, Nat.add_comm]
    rfl

/-- The entries that pass a test, as a set of places. -/
theorem tally_ones (test : α → Bool) (entries : Array α) : tally (ones test) entries =
    ((Finset.range entries.size).filter fun i => entries[i]?.any test = true).card := by
  rw [tally_eq_sum, Finset.card_filter]
  refine Finset.sum_congr rfl fun i hi => ?_
  rw [Array.getElem?_eq_getElem (Finset.mem_range.mp hi)]
  rfl

/-- If no weight is larger than the other one, equal sums come from equal weights. -/
theorem eq_of_tally_eq
    (hle : ∀ (i : Nat) (entry : α), entries[i]? = some entry → weight entry ≤ other entry)
    (hsum : tally weight entries = tally other entries) (hentry : entries[i]? = some old) :
    weight old = other old := by
  rw [tally_eq_sum, tally_eq_sum] at hsum
  have hlt := (Array.getElem?_eq_some_iff.mp hentry).1
  have heach := (Finset.sum_eq_sum_iff_of_le fun j hj => ?_).mp hsum i (Finset.mem_range.mpr hlt)
  · rwa [hentry, Option.map_some, Option.map_some, Option.getD_some, Option.getD_some] at heach
  · have hother := Array.getElem?_eq_getElem (Finset.mem_range.mp hj)
    rw [hother]
    exact hle j _ hother

end BatchedCommit
