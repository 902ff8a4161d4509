/-!
# BatchedCommit.Table

Look-up tables from keys to entries. A table is the list of its entries in the order in which
they came, with at most one entry for a key, and work on all entries follows that order.
-/

namespace BatchedCommit

/-- A look-up table from keys to entries. -/
structure Table (α : Type) where
  /-- The entries, the oldest first. -/
  entries : List (String × α) := []
  /-- No key has two entries. -/
  nodup : (entries.map Prod.fst).Nodup := by exact List.nodup_nil

namespace Table

variable {α : Type}

/-- The entry of a key. -/
def find? (table : Table α) (key : String) : Option α := table.entries.lookup key

/-- The table has an entry for this key. -/
def contains (table : Table α) (key : String) : Bool := (table.find? key).isSome

/-- The table with those entries only that pass a test. -/
def filter (table : Table α) (test : String × α → Bool) : Table α where
  entries := table.entries.filter test
  nodup := table.nodup.sublist (List.filter_sublist.map _)

/-- The table without the entry of a key. -/
def erase (table : Table α) (key : String) : Table α := table.filter (·.1 != key)

/-- No entry of a key is left after it was erased. -/
theorem key_notMem_erase (table : Table α) (key : String) :
    key ∉ (table.erase key).entries.map Prod.fst := by
  simp [erase, filter]

/-- The table with a new entry for a key, in place of an older one. -/
def insert (table : Table α) (key : String) (entry : α) : Table α where
  entries := (table.erase key).entries ++ [(key, entry)]
  nodup := by
    rw [List.map_append, List.nodup_append]
    refine ⟨(table.erase key).nodup, by simp, fun other hother last hlast hsame => ?_⟩
    rw [List.map_singleton, List.mem_singleton] at hlast
    rw [hsame, hlast] at hother
    exact table.key_notMem_erase key hother

/-- The number of entries. -/
def size (table : Table α) : Nat := table.entries.length

/-! ## What a look-up finds after a change -/

theorem find?_erase (table : Table α) (key other : String) :
    (table.erase key).find? other = if other = key then none else table.find? other := by
  simp only [erase, filter, find?]
  generalize table.entries = entries
  induction entries with
  | nil => simp
  | cons entry rest ih =>
    obtain ⟨k, v⟩ := entry
    by_cases h : k = key
    · subst h
      by_cases h' : other = k
      · subst h'; simpa using ih
      · simpa [List.lookup_cons, beq_false_of_ne h', h'] using ih
    · by_cases h' : other = k
      · subst h'; simp [h]
      · simpa [List.lookup_cons, beq_false_of_ne h', h] using ih

theorem find?_insert (table : Table α) (key other : String) (entry : α) :
    (table.insert key entry).find? other =
      if other = key then some entry else table.find? other := by
  have h := find?_erase table key other
  simp only [find?] at h ⊢
  simp only [insert, List.lookup_append, h]
  by_cases h' : other = key
  · subst h'; simp
  · simp [h', List.lookup_cons, beq_false_of_ne h']

/-- The entries are what look-ups find. -/
theorem find?_eq_some_iff (table : Table α) (key : String) (entry : α) :
    table.find? key = some entry ↔ (key, entry) ∈ table.entries := by
  obtain ⟨entries, hnodup⟩ := table
  simp only [find?]
  induction entries with
  | nil => simp
  | cons first rest ih =>
    obtain ⟨k, v⟩ := first
    rw [List.map_cons, List.nodup_cons] at hnodup
    by_cases h : key = k
    · subst h
      have hrest : (key, entry) ∉ rest := fun hmem =>
        hnodup.1 (List.mem_map.mpr ⟨(key, entry), hmem, rfl⟩)
      simp [hrest, eq_comm]
    · simpa [List.lookup_cons, beq_false_of_ne h, h] using ih hnodup.2

end Table

end BatchedCommit
