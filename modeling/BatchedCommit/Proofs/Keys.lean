import BatchedCommit.KeyScheme

/-!
# BatchedCommit.Proofs.Keys

Keys of a sequential scheme tell what they belong to. Parent keys are runs of digits, and no
two of the first 2^64 are the same (`KeyScheme.parentKey_inj`); a full key determines its
parent key and its child key (`KeyScheme.fullKey_inj`), comes apart into the two
(`KeyScheme.split?_fullKey`), and is not a parent key itself (`KeyScheme.fullKey_ne_parent`).
-/

namespace BatchedCommit

/-! ## Padded counters -/

theorem ofDigitChars_paddedDigits (width n : Nat) :
    Nat.ofDigitChars 10 (paddedDigits width n) 0 = n := by
  rw [paddedDigits, Nat.ofDigitChars_append, Nat.ofDigitChars_replicate_zero, Nat.mul_zero,
    Nat.ofDigitChars_ten_toDigits]

theorem paddedDigits_inj {width m n : Nat} (h : paddedDigits width m = paddedDigits width n) :
    m = n := by
  have hvalue := congrArg (Nat.ofDigitChars 10 · 0) h
  simpa [ofDigitChars_paddedDigits] using hvalue

theorem isDigit_of_mem_paddedDigits {width n : Nat} {c : Char} (h : c ∈ paddedDigits width n) :
    c.isDigit = true := by
  rw [paddedDigits, List.mem_append] at h
  cases h with
  | inl hzero =>
    rw [List.eq_of_mem_replicate hzero]
    decide
  | inr hdigit => exact Nat.isDigit_of_mem_toDigits (by decide) (by decide) hdigit

namespace KeyScheme

/-- The scheme counts through all numbers of 64 bits, its separator is not a digit, and delayed
groups are emitted under the full key of their slot. -/
structure Sequential (scheme : KeyScheme) : Prop where
  separator : scheme.separator.isDigit = false
  cycle : scheme.cycle = UInt64.size
  delayed : scheme.delayed = .prefixed ""

/-- A key that consists of digits. -/
def IsParent (key : String) : Prop := ∀ c ∈ key.toList, c.isDigit = true

variable {scheme : KeyScheme}

theorem isParent_parentKey (scheme : KeyScheme) (n : Nat) : IsParent (scheme.parentKey n) := by
  intro c hc
  rw [parentKey, String.toList_ofList] at hc
  exact isDigit_of_mem_paddedDigits hc

/-- No two of the first parent keys of a cycle are the same. -/
theorem parentKey_inj {m n : Nat} (hm : m < scheme.cycle) (hn : n < scheme.cycle)
    (h : scheme.parentKey m = scheme.parentKey n) : m = n := by
  rw [parentKey, parentKey, Nat.mod_eq_of_lt hm, Nat.mod_eq_of_lt hn] at h
  exact paddedDigits_inj (String.ofList_injective h)

theorem parentKey_ne_empty (scheme : KeyScheme) (n : Nat) : scheme.parentKey n ≠ "" := by
  intro hempty
  have hlength := congrArg (fun key : String => key.toList.length) hempty
  simp only [parentKey, String.toList_ofList, length_paddedDigits, String.toList_empty,
    List.length_nil] at hlength
  have hdigits : 0 < (Nat.toDigits 10 (n % scheme.cycle)).length := Nat.length_toDigits_pos
  omega

/-! ## Full keys -/

theorem toList_fullKey (scheme : KeyScheme) (parent child : String) :
    (scheme.fullKey parent child).toList =
      parent.toList ++ scheme.separator :: child.toList := by
  simp [fullKey]

/-- Under one parent, the full key determines the child. -/
theorem fullKey_child_inj {parent child child' : String}
    (h : scheme.fullKey parent child = scheme.fullKey parent child') : child = child' := by
  have hlist := congrArg String.toList h
  rw [toList_fullKey, toList_fullKey] at hlist
  exact String.toList_inj.mp (by simpa using hlist)

/-- The digits in front of the separator are the parent key. -/
theorem takeWhile_fullKey (hseparator : scheme.separator.isDigit = false) {parent child : String}
    (hparent : IsParent parent) :
    (scheme.fullKey parent child).toList.takeWhile Char.isDigit = parent.toList := by
  rw [toList_fullKey, List.takeWhile_append_of_pos hparent]
  simp [hseparator]

/-- A full key determines its parent key and its child key. -/
theorem fullKey_inj (hseparator : scheme.separator.isDigit = false)
    {parent parent' child child' : String} (hparent : IsParent parent)
    (hparent' : IsParent parent')
    (h : scheme.fullKey parent child = scheme.fullKey parent' child') :
    parent = parent' ∧ child = child' := by
  have hfront : parent.toList = parent'.toList := by
    rw [← takeWhile_fullKey hseparator hparent, h, takeWhile_fullKey hseparator hparent']
  have hsame : parent = parent' := String.toList_inj.mp hfront
  subst hsame
  exact ⟨rfl, fullKey_child_inj h⟩

/-- A full key is not a parent key: it holds a separator. -/
theorem fullKey_ne_parent (hseparator : scheme.separator.isDigit = false)
    {parent child other : String} (hother : IsParent other) :
    scheme.fullKey parent child ≠ other := by
  rintro rfl
  have hdigit := hother scheme.separator (by simp [toList_fullKey])
  rw [hseparator] at hdigit
  contradiction

/-- A full key comes apart into its parent key and its child key. -/
theorem split?_fullKey (hseparator : scheme.separator.isDigit = false) {parent child : String}
    (hparent : IsParent parent) (hne : parent ≠ "") :
    scheme.split? (scheme.fullKey parent child) = some (parent, child) := by
  have hother : ∀ c ∈ parent.toList, (c != scheme.separator) = true := by
    intro c hc
    rw [bne_iff_ne]
    rintro rfl
    rw [hparent _ hc] at hseparator
    contradiction
  have hdigits : parent.toList.all Char.isDigit = true := List.all_eq_true.mpr hparent
  have hempty : parent.toList.isEmpty = false := by simpa using hne
  rw [split?, toList_fullKey, List.takeWhile_append_of_pos hother,
    List.dropWhile_append_of_pos hother]
  simp [hdigits, hempty]

/-! ## Keys that come apart -/

/-- The text of a key before its first separator is a non-empty run of digits. -/
def IsFullKey (scheme : KeyScheme) (key : String) : Prop :=
  ∃ before after, key.toList = before ++ scheme.separator :: after ∧
    scheme.separator ∉ before ∧ before ≠ [] ∧ ∀ c ∈ before, c.isDigit = true

/-- What a key comes apart into are the texts before and after its first separator. -/
theorem split?_eq_some {key parent child : String} (h : scheme.split? key = some (parent, child)) :
    key = scheme.fullKey parent child ∧ scheme.separator ∉ parent.toList ∧ IsParent parent ∧
      parent ≠ "" := by
  have hparts := List.takeWhile_append_dropWhile (l := key.toList) (p := (· != scheme.separator))
  have hbefore : ∀ c ∈ key.toList.takeWhile (· != scheme.separator), c ≠ scheme.separator :=
    fun c hc => by simpa using List.all_eq_true.mp List.all_takeWhile c hc
  rw [split?] at h
  cases hafter : key.toList.dropWhile (· != scheme.separator) with
  | nil => simp [hafter] at h
  | cons first rest =>
    have hfirst : first = scheme.separator := by
      have hhead := List.head?_dropWhile_not (· != scheme.separator) key.toList
      simpa [hafter] using hhead
    simp only [hafter, Option.ite_none_left_eq_some, Bool.or_eq_true, not_or, Bool.not_eq_true,
      Option.some.injEq, Prod.mk.injEq] at h
    obtain ⟨⟨hne, hdigits⟩, rfl, rfl⟩ := h
    refine ⟨?_, ?_, ?_, ?_⟩
    · rw [hafter, hfirst] at hparts
      simp [← String.toList_inj, toList_fullKey, hparts]
    · rw [String.toList_ofList]
      exact fun hmem => hbefore _ hmem rfl
    · intro c hc
      rw [String.toList_ofList] at hc
      simpa using List.all_eq_true.mp (by simpa using hdigits) c hc
    · intro hempty
      have hnil := congrArg String.toList hempty
      rw [String.toList_ofList, String.toList_empty] at hnil
      simp [hnil] at hne

theorem isSome_split?_iff (hseparator : scheme.separator.isDigit = false) (key : String) :
    (scheme.split? key).isSome ↔ scheme.IsFullKey key := by
  constructor
  · intro h
    obtain ⟨⟨parent, child⟩, hsplit⟩ := Option.isSome_iff_exists.mp h
    obtain ⟨rfl, hnot, hparent, hne⟩ := split?_eq_some hsplit
    exact ⟨parent.toList, child.toList, toList_fullKey scheme parent child, hnot,
      by simpa using hne, hparent⟩
  · rintro ⟨before, after, hkey, -, hne, hdigits⟩
    have hfull : key = scheme.fullKey (String.ofList before) (String.ofList after) := by
      simp [← String.toList_inj, toList_fullKey, hkey]
    have hparent : IsParent (String.ofList before) := by simpa [IsParent] using hdigits
    rw [hfull, split?_fullKey hseparator hparent (by simpa [← String.toList_inj] using hne)]
    rfl

/-- A separator that is not a digit makes full keys a code for pairs of a parent key and a child
key. The full key of any child comes apart into the two. Keys come apart exactly if they have a
separator with a non-empty run of digits before the first one, into a parent and a child at once,
and these make the key again. So different pairs have different full keys, and no full key is a
parent key. -/
theorem full_keys_come_apart (hseparator : scheme.separator.isDigit = false) :
    (∀ n child,
      scheme.parentOf? (scheme.fullKey (scheme.parentKey n) child) = some (scheme.parentKey n) ∧
      scheme.childOf? (scheme.fullKey (scheme.parentKey n) child) = some child) ∧
    (∀ key, ((scheme.parentOf? key).isSome ↔ (scheme.childOf? key).isSome) ∧
      ((scheme.childOf? key).isSome ↔ scheme.IsFullKey key)) ∧
    (∀ key parent child, scheme.parentOf? key = some parent → scheme.childOf? key = some child →
      scheme.fullKey parent child = key) ∧
    (∀ m n child other, scheme.fullKey (scheme.parentKey m) child =
      scheme.fullKey (scheme.parentKey n) other →
        scheme.parentKey m = scheme.parentKey n ∧ child = other) ∧
    ∀ m n child, scheme.fullKey (scheme.parentKey m) child ≠ scheme.parentKey n := by
  refine ⟨fun n child => ?_, fun key => ?_, fun key parent child hparent hchild => ?_,
    fun m n child other h => ?_, fun m n child => ?_⟩
  · simp [parentOf?, childOf?, split?_fullKey hseparator (isParent_parentKey scheme n)
      (parentKey_ne_empty scheme n)]
  · simp [parentOf?, childOf?, isSome_split?_iff hseparator]
  · obtain ⟨⟨parent', child'⟩, hsplit, rfl⟩ := Option.map_eq_some_iff.mp hparent
    have hsame : child' = child := by simpa [childOf?, hsplit] using hchild
    rw [← hsame, ← (split?_eq_some hsplit).1]
  · exact fullKey_inj hseparator (isParent_parentKey scheme m) (isParent_parentKey scheme n) h
  · exact fullKey_ne_parent hseparator (isParent_parentKey scheme n)

/-- The separator may be any character but a digit, and a child key may hold it. -/
theorem parts_of_arrows :
    ({ width := 2, separator := '→' } : KeyScheme).separator.isDigit = false ∧
    ({ width := 2, separator := '→' } : KeyScheme).parentOf? "07→a→9" = some "07" ∧
    ({ width := 2, separator := '→' } : KeyScheme).childOf? "07→a→9" = some "a→9" := by
  have hseparator : ({ width := 2, separator := '→' } : KeyScheme).separator.isDigit = false := by
    decide
  exact ⟨hseparator, (full_keys_come_apart hseparator).1 7 "a→9"⟩

end KeyScheme

end BatchedCommit
