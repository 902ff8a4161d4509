import BatchedCommit.Json.Text

/-!
# BatchedCommit.Proofs.Grammar

What a JSON text says (`Json.Says`), by the grammar of JSON and apart from any reader. Every rule
of the grammar takes a part off the front of a text and leaves a rest. Blanks may stand before
and after every part, the characters of a string may be spelled in any way, and the members of an
object keep their order.

* `Characters.readString`: the reader of strings takes every string of the grammar for what it
  says;
* `Says.unique`: a text says one thing at most, so that all readers that follow the grammar
  agree about it.
-/

namespace BatchedCommit

namespace Json

/-- What a JSON text can say. -/
inductive Content where
  /-- The value `null`. -/
  | null
  /-- A truth value. -/
  | bool (value : Bool)
  /-- A number, as it is written. -/
  | number (text : List Char)
  /-- A string. -/
  | str (value : String)
  /-- An array. -/
  | arr (items : List Content)
  /-- An object. Names may repeat. -/
  | obj (members : List (String × Content))

/-! ## Blanks -/

/-- Some blanks, or none. -/
inductive Blanks : List Char → List Char → Prop where
  | none {text : List Char} : Blanks text text
  | blank {c : Char} {text rest : List Char} (hblank : isBlank c = true)
      (h : Blanks text rest) : Blanks (c :: text) rest

/-- The blanks before another character are those that are skipped. -/
theorem Blanks.skipBlanks {c : Char} {text rest : List Char} (h : Blanks text (c :: rest))
    (hc : isBlank c = false) : skipBlanks text = c :: rest := by
  generalize hstop : c :: rest = stop at h
  induction h with
  | none =>
    rw [← hstop, Json.skipBlanks, List.dropWhile_cons_of_neg (by simp [hc])]
  | blank hblank h ih =>
    rw [Json.skipBlanks, List.dropWhile_cons_of_pos hblank]
    exact ih hstop

/-- The blanks before another character end in one place. -/
theorem Blanks.unique {c d : Char} {text rest other : List Char} (h : Blanks text (c :: rest))
    (h' : Blanks text (d :: other)) (hc : isBlank c = false) (hd : isBlank d = false) :
    c = d ∧ rest = other := by
  have hsame := (h.skipBlanks hc).symm.trans (h'.skipBlanks hd)
  simpa using hsame

/-! ## Strings -/

/-- A code unit, by four hexadecimal digits. -/
inductive CodeUnit : List Char → Nat → List Char → Prop where
  | mk {a b c d : Char} {va vb vc vd : Nat} {rest : List Char} (ha : hexValue? a = some va)
      (hb : hexValue? b = some vb) (hc : hexValue? c = some vc) (hd : hexValue? d = some vd) :
      CodeUnit (a :: b :: c :: d :: rest) (16 * (16 * (16 * va + vb) + vc) + vd) rest

/-- One character of a string. A surrogate that stands alone is no character. -/
inductive Character : List Char → Char → List Char → Prop where
  /-- It stands for itself, -/
  | plain {c : Char} {rest : List Char} (hquote : c ≠ '"') (hescape : c ≠ '\\')
      (hcontrol : 0x20 ≤ c.toNat) : Character (c :: rest) c rest
  /-- has a short escape, -/
  | short {mark c : Char} {rest : List Char} (h : shortEscape? mark = some c) :
      Character ('\\' :: mark :: rest) c rest
  /-- is spelled by its code unit, -/
  | unit {text rest : List Char} {unit : Nat} (h : CodeUnit text unit rest)
      (hleading : isLeading unit = false) (htrailing : isTrailing unit = false) :
      Character ('\\' :: 'u' :: text) (Char.ofNat unit) rest
  /-- or by a pair of surrogates. -/
  | pair {text middle rest : List Char} {leading trailing : Nat}
      (hfirst : CodeUnit text leading ('\\' :: 'u' :: middle))
      (hsecond : CodeUnit middle trailing rest) (hleading : isLeading leading = true)
      (htrailing : isTrailing trailing = true) :
      Character ('\\' :: 'u' :: text) (joinSurrogates leading trailing) rest

/-- The characters of a string and the quote that closes it. -/
inductive Characters : List Char → List Char → List Char → Prop where
  | close {rest : List Char} : Characters ('"' :: rest) [] rest
  | next {text middle rest value : List Char} {c : Char} (hfirst : Character text c middle)
      (hrest : Characters middle value rest) : Characters text (c :: value) rest

/-- The reader takes a code unit by its digits. -/
theorem CodeUnit.readString {text rest : List Char} {unit : Nat} (h : CodeUnit text unit rest)
    (first : Option Nat) (got : List Char) {place : Place} {character : Option Char}
    (hfinish : finishUnit .reading unit first = .ok (.go place character)) :
    readString (.unit 4 0 first) got text =
      readString place (character.toList ++ got) rest := by
  cases h with
  | mk ha hb hc hd =>
    simp only [Json.readString, Place.move, ha, hb, hc, hd, Nat.mul_zero, Nat.zero_add,
      Nat.reduceLeDiff, if_false, Nat.add_one_sub_one, hfinish]
    cases character <;> rfl

theorem not_isTrailing_of_isLeading {unit : Nat} (h : isLeading unit = true) :
    isTrailing unit = false := by
  simp [isLeading, isTrailing] at h ⊢
  omega

/-- The reader takes a character in any spelling for what it is. -/
theorem Character.readString {text rest : List Char} {c : Char} (h : Character text c rest)
    (got : List Char) : readString .between got text = readString .between (c :: got) rest := by
  cases h with
  | plain hquote hescape hcontrol =>
    simp [Json.readString, Place.move, hquote, hescape, Nat.not_lt.mpr hcontrol]
  | short h => simp [Json.readString, Place.move, h]
  | @unit _ _ unit h hleading htrailing =>
    have hfinish : finishUnit .reading unit none = .ok (.go .between (some (Char.ofNat unit))) := by
      simp [finishUnit, hleading, htrailing]
    simpa [Json.readString, Place.move, shortEscape?] using h.readString none got hfinish
  | @pair _ _ _ leading trailing hfirst hsecond hleading htrailing =>
    have hbegin : finishUnit .reading leading none = .ok (.go (.leading leading) none) := by
      simp [finishUnit, hleading, not_isTrailing_of_isLeading hleading]
    have hend : finishUnit .reading trailing (some leading) =
        .ok (.go .between (some (joinSurrogates leading trailing))) := by
      simp [finishUnit, htrailing]
    have hlead := hfirst.readString none got hbegin
    have htrail := hsecond.readString (some leading) got hend
    simp only [Option.toList_none, List.nil_append, Option.toList_some, List.singleton_append]
      at hlead htrail
    simp [Json.readString, Place.move, shortEscape?, hlead, htrail]

/-- The reader takes a string in any spelling for what it is. -/
theorem Characters.readString {text value rest : List Char} (h : Characters text value rest)
    (got : List Char) : readString .between got text = .ok (got.reverse ++ value, rest) := by
  induction h generalizing got with
  | close => simp [Json.readString, Place.move]
  | next hfirst hrest ih =>
    rw [hfirst.readString, ih]
    simp

/-- A text spells one string at most. -/
theorem Characters.unique {text value other rest rest' : List Char}
    (h : Characters text value rest) (h' : Characters text other rest') :
    value = other ∧ rest = rest' := by
  have hsame := (h.readString []).symm.trans (h'.readString [])
  simpa using hsame

/-! ## Numbers -/

/-- The characters that numbers are made of. -/
def isNumberPart (c : Char) : Bool :=
  c.isDigit || c == '-' || c == '+' || c == '.' || c == 'e' || c == 'E'

/-- At least one digit, and nothing but digits. -/
def IsDigits (text : List Char) : Prop := text ≠ [] ∧ ∀ c ∈ text, c.isDigit = true

/-- The whole part of a number: no zero stands in front of other digits. -/
def IsInteger (text : List Char) : Prop := IsDigits text ∧ (text.head? = some '0' → text = ['0'])

/-- What stands after the whole part: nothing, or a point and digits. -/
def IsFraction (text : List Char) : Prop :=
  text = [] ∨ ∃ digits, IsDigits digits ∧ text = '.' :: digits

/-- What stands at the end of a number: nothing, or a power of ten. -/
def IsExponent (text : List Char) : Prop :=
  text = [] ∨ ∃ mark sign digits, (mark = 'e' ∨ mark = 'E') ∧
    (sign = [] ∨ sign = ['+'] ∨ sign = ['-']) ∧ IsDigits digits ∧ text = mark :: (sign ++ digits)

/-- A number. -/
def IsNumber (text : List Char) : Prop :=
  ∃ sign whole fraction exponent, (sign = [] ∨ sign = ['-']) ∧ IsInteger whole ∧
    IsFraction fraction ∧ IsExponent exponent ∧ text = sign ++ whole ++ fraction ++ exponent

theorem isNumberPart_of_isDigit {c : Char} (h : c.isDigit = true) : isNumberPart c = true := by
  simp [isNumberPart, h]

theorem not_isNumberPart_of_isBlank {c : Char} (h : isBlank c = true) : isNumberPart c = false := by
  simp only [isBlank, Bool.or_eq_true, beq_iff_eq] at h
  obtain ((rfl | rfl) | rfl) | rfl := h <;> rfl

theorem IsNumber.isNumberPart {text : List Char} (h : IsNumber text) {c : Char} (hc : c ∈ text) :
    isNumberPart c = true := by
  obtain ⟨sign, whole, fraction, exponent, hsign, hwhole, hfraction, hexponent, rfl⟩ := h
  simp only [List.mem_append, or_assoc] at hc
  obtain hc | hc | hc | hc := hc
  · obtain rfl | rfl := hsign
    · contradiction
    · rw [List.mem_singleton.mp hc]
      rfl
  · exact isNumberPart_of_isDigit (hwhole.1.2 c hc)
  · obtain rfl | ⟨digits, hdigits, rfl⟩ := hfraction
    · contradiction
    · obtain rfl | hc := List.mem_cons.mp hc
      · rfl
      · exact isNumberPart_of_isDigit (hdigits.2 c hc)
  · obtain rfl | ⟨mark, sign, digits, hmark, hplus, hdigits, rfl⟩ := hexponent
    · contradiction
    · simp only [List.mem_cons, List.mem_append] at hc
      obtain rfl | hc | hc := hc
      · obtain rfl | rfl := hmark <;> rfl
      · obtain rfl | rfl | rfl := hplus
        · contradiction
        · rw [List.mem_singleton.mp hc]
          rfl
        · rw [List.mem_singleton.mp hc]
          rfl
      · exact isNumberPart_of_isDigit (hdigits.2 c hc)

/-- A number begins with a minus or a digit. -/
theorem IsNumber.cons {text : List Char} (h : IsNumber text) :
    ∃ c more, text = c :: more ∧ (c = '-' ∨ c.isDigit = true) := by
  obtain ⟨sign, whole, fraction, exponent, hsign, ⟨⟨hne, hdigits⟩, -⟩, -, -, rfl⟩ := h
  obtain ⟨first, others, rfl⟩ := List.exists_cons_of_ne_nil hne
  obtain rfl | rfl := hsign
  · exact ⟨first, others ++ fraction ++ exponent, by simp, .inr (hdigits first (by simp))⟩
  · exact ⟨'-', first :: others ++ fraction ++ exponent, by simp, .inl rfl⟩

/-- Where the text after a number does not go on like one, the number is all that can be read as
one. -/
theorem takeWhile_number {lexeme rest : List Char} (h : IsNumber lexeme)
    (hend : ∀ c ∈ rest.head?, Json.isNumberPart c = false) :
    (lexeme ++ rest).takeWhile Json.isNumberPart = lexeme := by
  have hstop : rest.takeWhile Json.isNumberPart = [] := by
    cases rest with
    | nil => rfl
    | cons c more => exact List.takeWhile_cons_of_neg (by simp [hend c rfl])
  rw [List.takeWhile_append_of_pos fun c hc => h.isNumberPart hc, hstop, List.append_nil]

/-! ## Values -/

/-- The name of a member and the colon after it. -/
inductive Name : List Char → String → List Char → Prop where
  | mk {text inside after rest name : List Char} (hopen : Blanks text ('"' :: inside))
      (hname : Characters inside name after) (hcolon : Blanks after (':' :: rest)) :
      Name text (String.ofList name) rest

/-- The parts of a name. -/
theorem Name.parts {text rest : List Char} {name : String} (h : Name text name rest) :
    ∃ inside after, Blanks text ('"' :: inside) ∧ Characters inside name.toList after ∧
      Blanks after (':' :: rest) := by
  cases h with
  | mk hopen hname hcolon => exact ⟨_, _, hopen, by rwa [String.toList_ofList], hcolon⟩

/-- A name ends in one place. -/
theorem Name.unique {text rest rest' : List Char} {name other : String} (h : Name text name rest)
    (h' : Name text other rest') : name = other ∧ rest = rest' := by
  cases h with
  | mk hopen hname hcolon =>
    cases h' with
    | mk hopen' hname' hcolon' =>
      obtain ⟨-, rfl⟩ := hopen.unique hopen' rfl rfl
      obtain ⟨rfl, rfl⟩ := hname.unique hname'
      exact ⟨rfl, (hcolon.unique hcolon' rfl rfl).2⟩

/-- A part of a text. -/
inductive Part where
  /-- A value. -/
  | value (content : Content)
  /-- The items of an array, with its end. -/
  | items (contents : List Content)
  /-- The members of an object, with its end. -/
  | members (members : List (String × Content))

/-- A part stands at the beginning of a text, with a rest after it. -/
inductive Reads : Part → List Char → List Char → Prop where
  | null {rest : List Char} : Reads (.value .null) ('n' :: 'u' :: 'l' :: 'l' :: rest) rest
  | yes {rest : List Char} : Reads (.value (.bool true)) ('t' :: 'r' :: 'u' :: 'e' :: rest) rest
  | no {rest : List Char} :
      Reads (.value (.bool false)) ('f' :: 'a' :: 'l' :: 's' :: 'e' :: rest) rest
  /-- A number goes as far as it can: what may follow a value does not begin like the rest of a
  number. -/
  | number {lexeme text rest : List Char} (hnumber : IsNumber lexeme)
      (htext : text = lexeme ++ rest) (hend : ∀ c ∈ rest.head?, isNumberPart c = false) :
      Reads (.value (.number lexeme)) text rest
  | str {text value rest : List Char} (h : Characters text value rest) :
      Reads (.value (.str (String.ofList value))) ('"' :: text) rest
  | emptyArr {text rest : List Char} (h : Blanks text (']' :: rest)) :
      Reads (.value (.arr [])) ('[' :: text) rest
  | arr {text rest : List Char} {contents : List Content} (h : Reads (.items contents) text rest) :
      Reads (.value (.arr contents)) ('[' :: text) rest
  | emptyObj {text rest : List Char} (h : Blanks text ('}' :: rest)) :
      Reads (.value (.obj [])) ('{' :: text) rest
  | obj {text rest : List Char} {members : List (String × Content)}
      (h : Reads (.members members) text rest) : Reads (.value (.obj members)) ('{' :: text) rest
  | lastItem {text start stop rest : List Char} {content : Content} (hbefore : Blanks text start)
      (hvalue : Reads (.value content) start stop) (hafter : Blanks stop (']' :: rest)) :
      Reads (.items [content]) text rest
  | item {text start stop more rest : List Char} {content : Content} {contents : List Content}
      (hbefore : Blanks text start) (hvalue : Reads (.value content) start stop)
      (hafter : Blanks stop (',' :: more)) (hmore : Reads (.items contents) more rest) :
      Reads (.items (content :: contents)) text rest
  | lastMember {text after start stop rest : List Char} {name : String} {content : Content}
      (hname : Name text name after) (hbefore : Blanks after start)
      (hvalue : Reads (.value content) start stop) (hafter : Blanks stop ('}' :: rest)) :
      Reads (.members [(name, content)]) text rest
  | member {text after start stop more rest : List Char} {name : String} {content : Content}
      {members : List (String × Content)} (hname : Name text name after)
      (hbefore : Blanks after start) (hvalue : Reads (.value content) start stop)
      (hafter : Blanks stop (',' :: more)) (hmore : Reads (.members members) more rest) :
      Reads (.members ((name, content) :: members)) text rest

/-- A whole text says this: there is one value in it, and nothing else but blanks. -/
def Says (text : List Char) (content : Content) : Prop :=
  ∃ start stop, Blanks text start ∧ Reads (.value content) start stop ∧ Blanks stop []

/-! ## What a text says -/

/-- The first member of an object, and either the end of the object or a comma and the members
after it. -/
theorem Reads.members_cons {name : String} {content : Content}
    {members : List (String × Content)} {text rest : List Char}
    (h : Reads (.members ((name, content) :: members)) text rest) :
    ∃ after start stop, Name text name after ∧ Blanks after start ∧
      Reads (.value content) start stop ∧
      ((members = [] ∧ Blanks stop ('}' :: rest)) ∨
        ∃ more, Blanks stop (',' :: more) ∧ Reads (.members members) more rest) := by
  cases h with
  | lastMember hname hbefore hvalue hafter =>
    exact ⟨_, _, _, hname, hbefore, hvalue, .inl ⟨rfl, hafter⟩⟩
  | member hname hbefore hvalue hafter hmore =>
    exact ⟨_, _, _, hname, hbefore, hvalue, .inr ⟨_, hafter, hmore⟩⟩

/-- The first item of an array, and either the end of the array or a comma and the items after
it. -/
theorem Reads.items_cons {content : Content} {contents : List Content} {text rest : List Char}
    (h : Reads (.items (content :: contents)) text rest) :
    ∃ start stop, Blanks text start ∧ Reads (.value content) start stop ∧
      ((contents = [] ∧ Blanks stop (']' :: rest)) ∨
        ∃ more, Blanks stop (',' :: more) ∧ Reads (.items contents) more rest) := by
  cases h with
  | lastItem hbefore hvalue hafter => exact ⟨_, _, hbefore, hvalue, .inl ⟨rfl, hafter⟩⟩
  | item hbefore hvalue hafter hmore =>
    exact ⟨_, _, hbefore, hvalue, .inr ⟨_, hafter, hmore⟩⟩

/-- A value begins with a character that is no blank, no comma and no end. -/
def startsValue (c : Char) : Bool :=
  c == 'n' || c == 't' || c == 'f' || c == '"' || c == '[' || c == '{' || c == '-' || c.isDigit

theorem Reads.cons {content : Content} {text rest : List Char}
    (h : Reads (.value content) text rest) :
    ∃ c more, text = c :: more ∧ startsValue c = true := by
  cases h with
  | number hnumber htext hend =>
    obtain ⟨c, more, rfl, hc⟩ := hnumber.cons
    exact ⟨c, more ++ rest, by simpa using htext, by grind [startsValue]⟩
  | _ => exact ⟨_, _, rfl, rfl⟩

theorem not_isBlank_of_startsValue {c : Char} (h : startsValue c = true) : isBlank c = false := by
  cases hblank : isBlank c with
  | false => rfl
  | true =>
    simp only [isBlank, Bool.or_eq_true, beq_iff_eq] at hblank
    obtain ((rfl | rfl) | rfl) | rfl := hblank <;> contradiction

/-- A value begins in one place. -/
theorem Blanks.unique_value {text start start' rest rest' : List Char} {content other : Content}
    (h : Blanks text start) (h' : Blanks text start') (hvalue : Reads (.value content) start rest)
    (hvalue' : Reads (.value other) start' rest') : start = start' := by
  obtain ⟨c, more, rfl, hc⟩ := hvalue.cons
  obtain ⟨d, others, rfl, hd⟩ := hvalue'.cons
  obtain ⟨rfl, rfl⟩ :=
    h.unique h' (not_isBlank_of_startsValue hc) (not_isBlank_of_startsValue hd)
  rfl

/-- What begins with another character than a minus or a digit is no number. -/
theorem not_number {c : Char} {text rest : List Char} {lexeme : List Char}
    (h : IsNumber lexeme) (hc : c ≠ '-') (hdigit : c.isDigit = false) :
    c :: text ≠ lexeme ++ rest := by
  obtain ⟨d, more, rfl, hd⟩ := h.cons
  intro heq
  have hsame : c = d := (List.cons.inj heq).1
  subst hsame
  simp [hc, hdigit] at hd

/-- An array that ends has no item. -/
theorem not_items_of_end {text rest rest' : List Char} {contents : List Content}
    (h : Blanks text (']' :: rest)) : ¬ Reads (.items contents) text rest' := by
  intro hitems
  have hnone : ∀ {start stop : List Char} {content : Content}, Blanks text start →
      ¬ Reads (.value content) start stop := by
    intro start stop content hbefore hvalue
    obtain ⟨c, more, rfl, hc⟩ := hvalue.cons
    obtain ⟨rfl, -⟩ := h.unique hbefore rfl (not_isBlank_of_startsValue hc)
    contradiction
  cases hitems with
  | lastItem hbefore hvalue => exact hnone hbefore hvalue
  | item hbefore hvalue => exact hnone hbefore hvalue

/-- An object that ends has no member. -/
theorem not_members_of_end {text rest rest' : List Char} {members : List (String × Content)}
    (h : Blanks text ('}' :: rest)) : ¬ Reads (.members members) text rest' := by
  intro hmembers
  have hnone : ∀ {name : String} {after : List Char}, ¬ Name text name after := by
    rintro name after ⟨hopen, -, -⟩
    have hsame := (h.unique hopen rfl rfl).1
    contradiction
  cases hmembers with
  | lastMember hname => exact hnone hname
  | member hname => exact hnone hname

/-- A part of one kind ends in one place and says one thing. -/
theorem Reads.unique {part other : Part} {text rest rest' : List Char} (h : Reads part text rest)
    (h' : Reads other text rest') (hkind : part.ctorIdx = other.ctorIdx) :
    part = other ∧ rest = rest' := by
  induction h generalizing other rest' with
  | null =>
    cases h' with
    | null => exact ⟨rfl, rfl⟩
    | number hnumber htext => exact absurd htext (not_number hnumber (by decide) rfl)
    | _ => contradiction
  | yes =>
    cases h' with
    | yes => exact ⟨rfl, rfl⟩
    | number hnumber htext => exact absurd htext (not_number hnumber (by decide) rfl)
    | _ => contradiction
  | no =>
    cases h' with
    | no => exact ⟨rfl, rfl⟩
    | number hnumber htext => exact absurd htext (not_number hnumber (by decide) rfl)
    | _ => contradiction
  | number hnumber htext hend =>
    cases h' with
    | number hnumber' htext' hend' =>
      have hlexeme := takeWhile_number hnumber hend
      rw [← htext, htext', takeWhile_number hnumber' hend'] at hlexeme
      subst hlexeme
      exact ⟨rfl, List.append_cancel_left (htext.symm.trans htext')⟩
    | lastItem | item | lastMember | member => contradiction
    | _ => exact absurd htext (not_number hnumber (by decide) rfl)
  | str h =>
    cases h' with
    | str h' =>
      obtain ⟨rfl, rfl⟩ := h.unique h'
      exact ⟨rfl, rfl⟩
    | number hnumber htext => exact absurd htext (not_number hnumber (by decide) rfl)
    | _ => contradiction
  | emptyArr h =>
    cases h' with
    | emptyArr h' => exact ⟨rfl, (h.unique h' rfl rfl).2⟩
    | arr h' => exact absurd h' (not_items_of_end h)
    | number hnumber htext => exact absurd htext (not_number hnumber (by decide) rfl)
    | _ => contradiction
  | arr h ih =>
    cases h' with
    | emptyArr h' => exact absurd h (not_items_of_end h')
    | arr h' =>
      obtain ⟨hsame, rfl⟩ := ih h' rfl
      exact ⟨by rw [Part.items.inj hsame], rfl⟩
    | number hnumber htext => exact absurd htext (not_number hnumber (by decide) rfl)
    | _ => contradiction
  | emptyObj h =>
    cases h' with
    | emptyObj h' => exact ⟨rfl, (h.unique h' rfl rfl).2⟩
    | obj h' => exact absurd h' (not_members_of_end h)
    | number hnumber htext => exact absurd htext (not_number hnumber (by decide) rfl)
    | _ => contradiction
  | obj h ih =>
    cases h' with
    | emptyObj h' => exact absurd h (not_members_of_end h')
    | obj h' =>
      obtain ⟨hsame, rfl⟩ := ih h' rfl
      exact ⟨by rw [Part.members.inj hsame], rfl⟩
    | number hnumber htext => exact absurd htext (not_number hnumber (by decide) rfl)
    | _ => contradiction
  | lastItem hbefore hvalue hafter ih =>
    cases h' with
    | lastItem hbefore' hvalue' hafter' =>
      obtain rfl := hbefore.unique_value hbefore' hvalue hvalue'
      obtain ⟨hsame, rfl⟩ := ih hvalue' rfl
      exact ⟨by rw [Part.value.inj hsame], (hafter.unique hafter' rfl rfl).2⟩
    | item hbefore' hvalue' hafter' =>
      obtain rfl := hbefore.unique_value hbefore' hvalue hvalue'
      obtain ⟨-, rfl⟩ := ih hvalue' rfl
      have hcomma := (hafter.unique hafter' rfl rfl).1
      contradiction
    | _ => exact absurd hkind (by simp [Part.ctorIdx])
  | item hbefore hvalue hafter hmore ih ihmore =>
    cases h' with
    | lastItem hbefore' hvalue' hafter' =>
      obtain rfl := hbefore.unique_value hbefore' hvalue hvalue'
      obtain ⟨-, rfl⟩ := ih hvalue' rfl
      have hcomma := (hafter.unique hafter' rfl rfl).1
      contradiction
    | item hbefore' hvalue' hafter' hmore' =>
      obtain rfl := hbefore.unique_value hbefore' hvalue hvalue'
      obtain ⟨hsame, rfl⟩ := ih hvalue' rfl
      obtain ⟨-, rfl⟩ := hafter.unique hafter' rfl rfl
      obtain ⟨hsame', rfl⟩ := ihmore hmore' rfl
      exact ⟨by rw [Part.value.inj hsame, Part.items.inj hsame'], rfl⟩
    | _ => exact absurd hkind (by simp [Part.ctorIdx])
  | lastMember hname hbefore hvalue hafter ih =>
    cases h' with
    | lastMember hname' hbefore' hvalue' hafter' =>
      obtain ⟨rfl, rfl⟩ := hname.unique hname'
      obtain rfl := hbefore.unique_value hbefore' hvalue hvalue'
      obtain ⟨hsame, rfl⟩ := ih hvalue' rfl
      exact ⟨by rw [Part.value.inj hsame], (hafter.unique hafter' rfl rfl).2⟩
    | member hname' hbefore' hvalue' hafter' =>
      obtain ⟨-, rfl⟩ := hname.unique hname'
      obtain rfl := hbefore.unique_value hbefore' hvalue hvalue'
      obtain ⟨-, rfl⟩ := ih hvalue' rfl
      have hcomma := (hafter.unique hafter' rfl rfl).1
      contradiction
    | _ => exact absurd hkind (by simp [Part.ctorIdx])
  | member hname hbefore hvalue hafter hmore ih ihmore =>
    cases h' with
    | lastMember hname' hbefore' hvalue' hafter' =>
      obtain ⟨-, rfl⟩ := hname.unique hname'
      obtain rfl := hbefore.unique_value hbefore' hvalue hvalue'
      obtain ⟨-, rfl⟩ := ih hvalue' rfl
      have hcomma := (hafter.unique hafter' rfl rfl).1
      contradiction
    | member hname' hbefore' hvalue' hafter' hmore' =>
      obtain ⟨rfl, rfl⟩ := hname.unique hname'
      obtain rfl := hbefore.unique_value hbefore' hvalue hvalue'
      obtain ⟨hsame, rfl⟩ := ih hvalue' rfl
      obtain ⟨-, rfl⟩ := hafter.unique hafter' rfl rfl
      obtain ⟨hsame', rfl⟩ := ihmore hmore' rfl
      exact ⟨by rw [Part.value.inj hsame, Part.members.inj hsame'], rfl⟩
    | _ => exact absurd hkind (by simp [Part.ctorIdx])

/-- A text says one thing at most. -/
theorem Says.unique {text : List Char} {content other : Content} (h : Says text content)
    (h' : Says text other) : content = other := by
  obtain ⟨start, stop, hbefore, hvalue, -⟩ := h
  obtain ⟨start', stop', hbefore', hvalue', -⟩ := h'
  obtain rfl := hbefore.unique_value hbefore' hvalue hvalue'
  exact Part.value.inj (hvalue.unique hvalue' rfl).1

/-! ## The rest of a text -/

theorem Blanks.length_le {text rest : List Char} (h : Blanks text rest) :
    rest.length ≤ text.length := by
  induction h with
  | none => exact Nat.le_refl _
  | blank hblank h ih => simpa using Nat.le_succ_of_le ih

theorem CodeUnit.length_lt {text rest : List Char} {unit : Nat} (h : CodeUnit text unit rest) :
    rest.length < text.length := by
  cases h
  simp only [List.length_cons]
  omega

theorem Character.length_lt {text rest : List Char} {c : Char} (h : Character text c rest) :
    rest.length < text.length := by
  cases h with
  | plain => simp only [List.length_cons]; omega
  | short => simp only [List.length_cons]; omega
  | unit h =>
    have hunit := h.length_lt
    simp only [List.length_cons]
    omega
  | pair hfirst hsecond =>
    have hlead := hfirst.length_lt
    have htrail := hsecond.length_lt
    simp only [List.length_cons] at hlead ⊢
    omega

theorem Characters.length_lt {text value rest : List Char} (h : Characters text value rest) :
    rest.length < text.length := by
  induction h with
  | close => simp
  | next hfirst hrest ih => exact Nat.lt_trans ih hfirst.length_lt

theorem Name.length_lt {text rest : List Char} {name : String} (h : Name text name rest) :
    rest.length < text.length := by
  obtain ⟨inside, after, hopen, hname, hcolon⟩ := h.parts
  have hbefore := hopen.length_le
  have hinside := hname.length_lt
  have hafter := hcolon.length_le
  simp only [List.length_cons] at hbefore hafter
  omega

/-- The number of values that a part puts next to each other. -/
def Part.count : Part → Nat
  | .value _ => 1
  | .items contents => contents.length
  | .members contents => contents.length

/-- A part takes a character off its text for every value in it. -/
theorem Reads.length_add_count_le {part : Part} {text rest : List Char}
    (h : Reads part text rest) : rest.length + part.count ≤ text.length := by
  induction h with
  | null | yes | no =>
    simp only [Part.count, List.length_cons]
    omega
  | number hnumber htext hend =>
    obtain ⟨c, more, rfl, -⟩ := hnumber.cons
    simp only [htext, Part.count, List.length_append, List.length_cons]
    omega
  | str h =>
    have hinside := h.length_lt
    simp only [Part.count, List.length_cons]
    omega
  | emptyArr h | emptyObj h =>
    have hend := h.length_le
    simp only [Part.count, List.length_cons] at hend ⊢
    omega
  | arr h ih | obj h ih =>
    simp only [Part.count, List.length_cons] at ih ⊢
    omega
  | lastItem hbefore hvalue hafter ih =>
    have hstart := hbefore.length_le
    have hstop := hafter.length_le
    simp only [Part.count, List.length_cons, List.length_nil] at ih hstop ⊢
    omega
  | item hbefore hvalue hafter hmore ih ihmore =>
    have hstart := hbefore.length_le
    have hstop := hafter.length_le
    simp only [Part.count, List.length_cons] at ih ihmore hstop ⊢
    omega
  | lastMember hname hbefore hvalue hafter ih =>
    have hopen := hname.length_lt
    have hstart := hbefore.length_le
    have hstop := hafter.length_le
    simp only [Part.count, List.length_cons, List.length_nil] at ih hstop ⊢
    omega
  | member hname hbefore hvalue hafter hmore ih ihmore =>
    have hopen := hname.length_lt
    have hstart := hbefore.length_le
    have hstop := hafter.length_le
    simp only [Part.count, List.length_cons] at ih ihmore hstop ⊢
    omega

end Json

end BatchedCommit
