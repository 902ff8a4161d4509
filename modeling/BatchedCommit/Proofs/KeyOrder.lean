import Mathlib
import BatchedCommit.Proofs.Keys

/-!
# BatchedCommit.Proofs.KeyOrder

Parent keys are fresh and increase (`KeyScheme.parent_keys_increase`). They increase in the order by
length and then by characters: as long as the padding is wide enough all keys have one length, and
past it they grow.

Digits of one length are ordered as their values are (`lex_of_ofDigitChars_lt`), by induction on
the digits: at the first difference the rest is too short to make up for it
(`ofDigitChars_lt_pow`).
-/

namespace BatchedCommit

/-! ## Values of digits -/

/-- The value of digits has no more digits than they are. -/
theorem ofDigitChars_lt_pow {digits : List Char} (h : ∀ c ∈ digits, c.isDigit = true) :
    Nat.ofDigitChars 10 digits 0 < 10 ^ digits.length := by
  induction digits with
  | nil => simp
  | cons c digits ih =>
    obtain ⟨hc, hdigits⟩ := List.forall_mem_cons.mp h
    have hrest := ih hdigits
    simp only [Char.isDigit_iff_toNat, Char.reduceToNat] at hc
    have hfirst : 10 ^ digits.length * (c.toNat - 48) ≤ 10 ^ digits.length * 9 :=
      Nat.mul_le_mul_left _ (by omega)
    rw [Nat.ofDigitChars_cons, Nat.ofDigitChars_eq_ofDigitChars_zero]
    simp only [Nat.mul_zero, Nat.zero_add, List.length_cons, Nat.pow_succ, Char.reduceToNat]
    omega

/-- Digits of one length are ordered as their values are. -/
theorem lex_of_ofDigitChars_lt {digits other : List Char} (hlength : digits.length = other.length)
    (h : ∀ c ∈ digits, c.isDigit = true) (h' : ∀ c ∈ other, c.isDigit = true)
    (hlt : Nat.ofDigitChars 10 digits 0 < Nat.ofDigitChars 10 other 0) :
    List.Lex (· < ·) digits other := by
  induction digits generalizing other with
  | nil =>
    obtain rfl : other = [] := List.eq_nil_of_length_eq_zero hlength.symm
    simp at hlt
  | cons c digits ih =>
    cases other with
    | nil => simp at hlength
    | cons d other =>
      obtain ⟨hc, hdigits⟩ := List.forall_mem_cons.mp h
      obtain ⟨hd, hother⟩ := List.forall_mem_cons.mp h'
      simp only [Char.isDigit_iff_toNat, Char.reduceToNat] at hc hd
      simp only [List.length_cons, Nat.add_right_cancel_iff] at hlength
      rw [Nat.ofDigitChars_cons, Nat.ofDigitChars_cons, Nat.ofDigitChars_eq_ofDigitChars_zero,
        Nat.ofDigitChars_eq_ofDigitChars_zero (l := other), ← hlength] at hlt
      simp only [Nat.mul_zero, Nat.zero_add, Char.reduceToNat] at hlt
      rcases Nat.lt_trichotomy c.toNat d.toNat with hless | hsame | hmore
      · exact .rel hless
      · obtain rfl : c = d := Char.toNat_inj.mp hsame
        exact .cons (ih hlength hdigits hother (by omega))
      · -- what follows is smaller than one unit of the first digit
        have hrest := ofDigitChars_lt_pow hother
        have hunit : 10 ^ digits.length * (d.toNat - 48 + 1) ≤
            10 ^ digits.length * (c.toNat - 48) := Nat.mul_le_mul_left _ (by omega)
        rw [← hlength] at hrest
        rw [Nat.mul_succ] at hunit
        omega

/-! ## Padded counters -/

/-- A larger number has as many digits or more. -/
theorem length_toDigits_mono {m n : Nat} (h : m ≤ n) :
    (Nat.toDigits 10 m).length ≤ (Nat.toDigits 10 n).length := by
  have hpos : 0 < (Nat.toDigits 10 n).length := Nat.length_toDigits_pos
  rw [Nat.length_toDigits_le_iff (by decide) hpos]
  have hbound : n < 10 ^ (Nat.toDigits 10 n).length :=
    (Nat.length_toDigits_le_iff (by decide) hpos).mp (Nat.le_refl _)
  omega

/-- Padded counters increase, by length and then by digits. -/
theorem shortlex_paddedDigits {m n : Nat} (width : Nat) (h : m < n) :
    List.Shortlex (· < ·) (paddedDigits width m) (paddedDigits width n) := by
  have hlength : (paddedDigits width m).length ≤ (paddedDigits width n).length := by
    have hdigits := length_toDigits_mono (Nat.le_of_lt h)
    simp only [length_paddedDigits]
    omega
  obtain hshorter | hsame := Nat.lt_or_eq_of_le hlength
  · exact .of_length_lt hshorter
  · refine .of_lex hsame (lex_of_ofDigitChars_lt hsame ?_ ?_ ?_)
    · exact fun c => isDigit_of_mem_paddedDigits
    · exact fun c => isDigit_of_mem_paddedDigits
    · rwa [ofDigitChars_paddedDigits, ofDigitChars_paddedDigits]

namespace KeyScheme

variable {scheme : KeyScheme}

/-! ## Parent keys -/

theorem toList_parentKey {n : Nat} (h : n < scheme.cycle) :
    (scheme.parentKey n).toList = paddedDigits scheme.width n := by
  rw [parentKey, String.toList_ofList, Nat.mod_eq_of_lt h]

theorem width_le_length_parentKey (scheme : KeyScheme) (n : Nat) :
    scheme.width ≤ (scheme.parentKey n).length := by
  simp [parentKey, String.length_ofList, length_paddedDigits]

/-- A parent key is the decimal number of its counter. -/
theorem toNat?_parentKey {n : Nat} (h : n < scheme.cycle) :
    (scheme.parentKey n).toNat? = some n := by
  have hdigits := isParent_parentKey scheme n
  have hnat := String.isNat_of_isDigit (parentKey_ne_empty scheme n) hdigits
  have hfilter : (scheme.parentKey n).toList.filter (· != '_') = (scheme.parentKey n).toList := by
    rw [List.filter_eq_self]
    intro c hc
    have hdigit := hdigits c hc
    simp only [bne_iff_ne]
    rintro rfl
    exact absurd hdigit (by decide)
  rw [String.toNat?_eq_some_ofDigitChars hnat, hfilter, toList_parentKey h,
    ofDigitChars_paddedDigits]

/-- The parent keys of a cycle are non-empty runs of digits, padded to the width of the scheme, and
give their counter back when they are read as decimal numbers. A later one is another key, and comes
after an earlier one by length and then by characters, so by characters alone among keys of one
length. A cycle has 2^64 keys where nothing else is said. -/
theorem parent_keys_increase {m n : Nat} (hlt : m < n) (hcycle : n < scheme.cycle) :
    (∀ k ∈ [m, n], scheme.parentKey k ≠ "" ∧ (∀ c ∈ (scheme.parentKey k).toList, c.isDigit = true) ∧
      scheme.width ≤ (scheme.parentKey k).length ∧ (scheme.parentKey k).toNat? = some k) ∧
    scheme.parentKey m ≠ scheme.parentKey n ∧
    List.Shortlex (· < ·) (scheme.parentKey m).toList (scheme.parentKey n).toList ∧
    ((scheme.parentKey m).length = (scheme.parentKey n).length →
      scheme.parentKey m < scheme.parentKey n) := by
  have hm : m < scheme.cycle := Nat.lt_trans hlt hcycle
  have hshortlex :
      List.Shortlex (· < ·) (scheme.parentKey m).toList (scheme.parentKey n).toList := by
    rw [toList_parentKey hm, toList_parentKey hcycle]
    exact shortlex_paddedDigits scheme.width hlt
  refine ⟨fun k hk => ?_, fun hsame => ?_, hshortlex, fun hlength => ?_⟩
  · have hkcycle : k < scheme.cycle := by
      simp only [List.mem_cons, List.not_mem_nil, or_false] at hk
      obtain rfl | rfl := hk <;> assumption
    exact ⟨parentKey_ne_empty scheme k, isParent_parentKey scheme k,
      width_le_length_parentKey scheme k, toNat?_parentKey hkcycle⟩
  · exact Nat.ne_of_lt hlt (parentKey_inj hm hcycle hsame)
  · rw [String.lt_iff_toList_lt]
    obtain hshorter | ⟨-, hlex⟩ := List.shortlex_def.mp hshortlex
    · simp only [String.length_toList, hlength] at hshorter
      omega
    · exact hlex

/-- Without padding, the tenth key is followed by a longer one, which comes before it by characters
alone. The last two keys of a cycle have one length. -/
theorem parent_keys_without_padding :
    10 < ({ width := 0 } : KeyScheme).cycle ∧
    List.Shortlex (· < ·) "9".toList "10".toList ∧ ¬ "9" < "10" ∧
    2 ^ 64 - 1 < ({ width := 0 } : KeyScheme).cycle ∧
    ({ width := 0 } : KeyScheme).parentKey (2 ^ 64 - 2) <
      ({ width := 0 } : KeyScheme).parentKey (2 ^ 64 - 1) ∧
    (({ width := 0 } : KeyScheme).parentKey (2 ^ 64 - 1)).toNat? = some (2 ^ 64 - 1) := by
  have hten : 10 < ({ width := 0 } : KeyScheme).cycle := by decide
  have hlast : 2 ^ 64 - 1 < ({ width := 0 } : KeyScheme).cycle := by decide
  obtain ⟨-, -, hshortlex, -⟩ := parent_keys_increase (m := 9) (by decide) hten
  obtain ⟨hkeys, -, -, hplain⟩ := parent_keys_increase (m := 2 ^ 64 - 2) (by decide) hlast
  exact ⟨hten, hshortlex, by decide, hlast, hplain (by decide), (hkeys _ (by simp)).2.2.2⟩

end KeyScheme

end BatchedCommit
