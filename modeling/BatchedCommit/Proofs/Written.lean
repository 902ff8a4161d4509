import BatchedCommit.Proofs.Grammar

/-!
# BatchedCommit.Proofs.Written

Both written forms of a value say that value (`Json.content`), and they do so in any
surroundings: whatever follows is left as the rest, as long as it does not go on like a number.
So strings come back from their escapes, and integers from their digits.

* `reads_compact`: the compact form at the beginning of a text is read as the value;
* `reads_pretty`: so is the pretty form;
* `compact_printable`: the compact form has no character below U+0020.
-/

namespace BatchedCommit

namespace Json

/-! ## Strings -/

theorem hexValue?_hexDigit : ∀ n < 16, hexValue? (hexDigit n) = some n := by decide

/-- A control character is spelled by its code unit. -/
theorem CodeUnit.of_control {c : Char} (h : c.toNat < 0x20) (rest : List Char) :
    CodeUnit ('0' :: '0' :: hexDigit (c.toNat / 16) :: hexDigit (c.toNat % 16) :: rest) c.toNat
      rest := by
  have hzero : hexValue? '0' = some 0 := rfl
  have hhigh := hexValue?_hexDigit (c.toNat / 16) (by omega)
  have hlow := hexValue?_hexDigit (c.toNat % 16) (by omega)
  have hvalue : 16 * (16 * (16 * 0 + 0) + c.toNat / 16) + c.toNat % 16 = c.toNat := by omega
  simpa only [hvalue] using CodeUnit.mk hzero hzero hhigh hlow

/-- An escaped character is read as the character. -/
theorem character_escape (c : Char) (rest : List Char) : Character (escape c ++ rest) c rest := by
  unfold escape
  split
  case h_8 hquote hbackslash _ _ _ _ _ =>
    split
    case isTrue hcontrol =>
      have hspelled : Character _ (Char.ofNat c.toNat) rest :=
        .unit (CodeUnit.of_control hcontrol rest) (by simp [isLeading]; omega)
          (by simp [isTrailing]; omega)
      rwa [Char.ofNat_toNat] at hspelled
    case isFalse hcontrol => exact .plain hquote hbackslash (by omega)
  all_goals exact .short rfl

/-- The characters of an escaped string are read as the string, up to its quote. -/
theorem characters_flatMap_escape (text rest : List Char) :
    Characters (text.flatMap escape ++ '"' :: rest) text rest := by
  induction text with
  | nil => exact .close
  | cons c text ih =>
    rw [List.flatMap_cons, List.append_assoc]
    exact .next (character_escape c _) ih

/-- A quoted string and a colon are a name, also after blanks. -/
theorem name_quote (name : String) {text rest : List Char}
    (h : Blanks text (quote name.toList ++ ':' :: rest)) : Name text name rest := by
  rw [quote, List.cons_append, List.append_assoc] at h
  have hname : Name text (String.ofList name.toList) rest :=
    .mk h (characters_flatMap_escape _ _) .none
  rwa [String.ofList_toList] at hname

/-! ## Integers -/

/-- Only the number zero begins with a zero. -/
theorem head?_toDigits {n : Nat} (h : (Nat.toDigits 10 n).head? = some '0') : n = 0 := by
  induction n using Nat.strongRecOn with
  | ind n ih =>
    by_cases hsmall : n < 10
    · rw [Nat.toDigits_of_lt_base hsmall, List.head?_cons, Option.some.injEq] at h
      have hvalue := Nat.toNat_digitChar_of_lt_ten hsmall
      simp only [h, Char.reduceToNat] at hvalue
      omega
    · have hfirst : (Nat.toDigits 10 (n / 10)).head?.isSome := by
        simp [List.ne_nil_of_length_pos Nat.length_toDigits_pos]
      rw [Nat.toDigits_of_base_le (by omega) (by omega), List.head?_append,
        Option.or_of_isSome hfirst] at h
      have hzero := ih (n / 10) (by omega) h
      omega

theorem isDigits_toDigits (n : Nat) : IsDigits (Nat.toDigits 10 n) :=
  ⟨List.ne_nil_of_length_pos Nat.length_toDigits_pos,
    fun _ hc => Nat.isDigit_of_mem_toDigits (by decide) (by decide) hc⟩

/-- The digits of a natural number have no zero in front. -/
theorem isInteger_toDigits (n : Nat) : IsInteger (Nat.toDigits 10 n) := by
  constructor
  · exact isDigits_toDigits n
  · intro h
    simp [head?_toDigits h]

/-- The written form of an integer is a number. -/
theorem isNumber_digits (n : Int) : IsNumber (digits n) := by
  have hwhole := isInteger_toDigits n.natAbs
  unfold digits
  split
  · exact ⟨['-'], _, [], [], .inr rfl, hwhole, .inl rfl, .inl rfl, by simp⟩
  · exact ⟨[], _, [], [], .inl rfl, hwhole, .inl rfl, .inl rfl, by simp⟩

/-! ## Values -/

mutual

/-- What a value is to a reader. -/
def content : Json → Content
  | null => .null
  | bool value => .bool value
  | int n => .number (digits n)
  | str text => .str text
  | arr items => .arr (itemContents items)
  | obj members => .obj (memberContents members)

/-- What items are to a reader. -/
def itemContents : List Json → List Content
  | [] => []
  | item :: rest => item.content :: itemContents rest

/-- What members are to a reader. -/
def memberContents : List (String × Json) → List (String × Content)
  | [] => []
  | (name, value) :: rest => (name, value.content) :: memberContents rest

end

mutual

/-- The compact form of a value is read as the value. -/
theorem reads_compact (value : Json) (rest : List Char)
    (hend : ∀ c ∈ rest.head?, isNumberPart c = false) :
    Reads (.value value.content) (value.compact ++ rest) rest := by
  match value with
  | .null => exact .null
  | .bool true => exact .yes
  | .bool false => exact .no
  | .int n => exact .number (isNumber_digits n) rfl hend
  | .str text =>
    have hstr : Reads (.value (.str (String.ofList text.toList))) (quote text.toList ++ rest)
        rest := by
      rw [quote, List.cons_append, List.append_assoc]
      exact .str (characters_flatMap_escape _ _)
    rwa [String.ofList_toList] at hstr
  | .arr [] => exact .emptyArr .none
  | .arr (item :: items) =>
    rw [compact, List.cons_append, List.append_assoc]
    exact .arr (reads_compactItems (item :: items) rest (by simp))
  | .obj [] => exact .emptyObj .none
  | .obj (member :: members) =>
    rw [compact, List.cons_append, List.append_assoc]
    exact .obj (reads_compactMembers (member :: members) rest (by simp))

/-- Items with commas between them are read as the items. -/
theorem reads_compactItems (items : List Json) (rest : List Char) (hne : items ≠ []) :
    Reads (.items (itemContents items)) (compactItems items ++ ']' :: rest) rest := by
  match items with
  | [item] => exact .lastItem .none (reads_compact item _ (by simp [isNumberPart])) .none
  | item :: next :: others =>
    rw [compactItems, List.append_assoc]
    · exact .item .none (reads_compact item _ (by simp [isNumberPart])) .none
        (reads_compactItems (next :: others) rest (by simp))
    · simp

/-- Members with commas between them are read as the members. -/
theorem reads_compactMembers (members : List (String × Json)) (rest : List Char)
    (hne : members ≠ []) :
    Reads (.members (memberContents members)) (compactMembers members ++ '}' :: rest) rest := by
  match members with
  | [(name, value)] =>
    rw [compactMembers, List.append_assoc]
    exact .lastMember (name_quote name .none) .none (reads_compact value _ (by simp [isNumberPart]))
      .none
  | (name, value) :: next :: others =>
    rw [compactMembers, List.append_assoc, List.cons_append, List.append_assoc]
    · exact .member (name_quote name .none) .none
        (reads_compact value _ (by simp [isNumberPart])) .none
        (reads_compactMembers (next :: others) rest (by simp))
    · simp

end

/-! ## The pretty form -/

theorem Blanks.append {blanks : List Char} (h : ∀ c ∈ blanks, isBlank c = true)
    (rest : List Char) : Blanks (blanks ++ rest) rest := by
  induction blanks with
  | nil => exact .none
  | cons c blanks ih =>
    simp only [List.mem_cons, forall_eq_or_imp] at h
    exact .blank h.1 (ih h.2)

theorem blanks_lineBreak (level : Nat) (rest : List Char) :
    Blanks (lineBreak level ++ rest) rest := by
  have hblank : ∀ c ∈ lineBreak level, isBlank c = true := by
    simp [lineBreak, isBlank]
  exact .append hblank rest

mutual

/-- The pretty form of a value is read as the value. -/
theorem reads_pretty (value : Json) (level : Nat) (rest : List Char)
    (hend : ∀ c ∈ rest.head?, isNumberPart c = false) :
    Reads (.value value.content) (value.pretty level ++ rest) rest := by
  match value with
  | .null => exact .null
  | .bool true => exact .yes
  | .bool false => exact .no
  | .int n => exact .number (isNumber_digits n) rfl hend
  | .str text => exact reads_compact (.str text) rest hend
  | .arr [] => exact .emptyArr .none
  | .arr (item :: items) =>
    rw [pretty, List.cons_append, List.append_assoc, List.append_assoc]
    exact .arr (reads_prettyItems (item :: items) (level + 1) level rest (by simp))
  | .obj [] => exact .emptyObj .none
  | .obj (member :: members) =>
    rw [pretty, List.cons_append, List.append_assoc, List.append_assoc]
    exact .obj (reads_prettyMembers (member :: members) (level + 1) level rest (by simp))

/-- Items on lines of their own are read as the items. -/
theorem reads_prettyItems (items : List Json) (level outer : Nat) (rest : List Char)
    (hne : items ≠ []) :
    Reads (.items (itemContents items))
      (prettyItems level items ++ (lineBreak outer ++ ']' :: rest)) rest := by
  match items with
  | [item] =>
    rw [prettyItems, List.append_assoc]
    exact .lastItem (blanks_lineBreak level _)
      (reads_pretty item level _ (by simp [lineBreak, isNumberPart])) (blanks_lineBreak outer _)
  | item :: next :: others =>
    rw [prettyItems, List.append_assoc, List.append_assoc]
    · exact .item (blanks_lineBreak level _)
        (reads_pretty item level _ (by simp [isNumberPart])) .none
        (reads_prettyItems (next :: others) level outer rest (by simp))
    · simp

/-- Members on lines of their own are read as the members. -/
theorem reads_prettyMembers (members : List (String × Json)) (level outer : Nat)
    (rest : List Char) (hne : members ≠ []) :
    Reads (.members (memberContents members))
      (prettyMembers level members ++ (lineBreak outer ++ '}' :: rest)) rest := by
  match members with
  | [(name, value)] =>
    rw [prettyMembers, List.append_assoc, List.append_assoc]
    exact .lastMember (name_quote name (blanks_lineBreak level _))
      (.blank rfl .none) (reads_pretty value level _ (by simp [lineBreak, isNumberPart]))
      (blanks_lineBreak outer _)
  | (name, value) :: next :: others =>
    rw [prettyMembers, List.append_assoc, List.append_assoc, List.cons_append, List.cons_append,
      List.append_assoc]
    · exact .member (name_quote name (blanks_lineBreak level _)) (.blank rfl .none)
        (reads_pretty value level _ (by simp [isNumberPart])) .none
        (reads_prettyMembers (next :: others) level outer rest (by simp))
    · simp

end

/-! ## Characters that are written -/

/-- No character of the text lies below U+0020. -/
def Printable (text : List Char) : Prop := ∀ c ∈ text, 0x20 ≤ c.toNat

@[simp] theorem printable_nil : Printable [] := by simp [Printable]

@[simp] theorem printable_cons {c : Char} {text : List Char} :
    Printable (c :: text) ↔ 0x20 ≤ c.toNat ∧ Printable text := by
  simp [Printable]

@[simp] theorem printable_append {front back : List Char} :
    Printable (front ++ back) ↔ Printable front ∧ Printable back := by
  simp [Printable, or_imp, forall_and]

theorem hexDigit_printable : ∀ n < 16, 0x20 ≤ (hexDigit n).toNat := by decide

theorem escape_printable (c : Char) : Printable (escape c) := by
  unfold escape
  split
  case h_8 =>
    split
    case isTrue hcontrol =>
      simp [hexDigit_printable (c.toNat / 16) (by omega),
        hexDigit_printable (c.toNat % 16) (by omega)]
    case isFalse hcontrol => simpa using hcontrol
  all_goals simp

theorem quote_printable (text : List Char) : Printable (quote text) := by
  have hinside : Printable (text.flatMap escape) := by
    intro d hd
    obtain ⟨c, -, hd⟩ := List.mem_flatMap.mp hd
    exact escape_printable c d hd
  simp [quote, hinside]

theorem digits_printable (n : Int) : Printable (digits n) := by
  have hdigits : Printable (Nat.toDigits 10 n.natAbs) := by
    intro c hc
    have hdigit := (isDigits_toDigits n.natAbs).2 c hc
    simp only [Char.isDigit, Bool.and_eq_true, decide_eq_true_eq] at hdigit
    exact Nat.le_trans (by decide) hdigit.1
  unfold digits
  split <;> simp [hdigits]

mutual

/-- The compact form has no control character. -/
theorem compact_printable (value : Json) : Printable value.compact := by
  match value with
  | .null => simp [compact]
  | .bool true => simp [compact]
  | .bool false => simp [compact]
  | .int n => exact digits_printable n
  | .str text => exact quote_printable text.toList
  | .arr items => simp [compact, compactItems_printable items]
  | .obj members => simp [compact, compactMembers_printable members]

theorem compactItems_printable (items : List Json) : Printable (compactItems items) := by
  match items with
  | [] => simp [compactItems]
  | [item] => simp [compactItems, compact_printable item]
  | item :: next :: others =>
    simp [compactItems, compact_printable item, compactItems_printable (next :: others)]

theorem compactMembers_printable (members : List (String × Json)) :
    Printable (compactMembers members) := by
  match members with
  | [] => simp [compactMembers]
  | [(name, value)] =>
    simp [compactMembers, quote_printable name.toList, compact_printable value]
  | (name, value) :: next :: others =>
    simp [compactMembers, quote_printable name.toList, compact_printable value,
      compactMembers_printable (next :: others)]

end

end Json

end BatchedCommit
