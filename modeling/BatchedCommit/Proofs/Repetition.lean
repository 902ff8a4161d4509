import BatchedCommit.Proofs.ObjectForm
import Mathlib.Data.List.Basic

/-!
# BatchedCommit.Proofs.Repetition

A setting that is given twice is reported where its name stands for the second time. Nothing after
the closing quote of the name is looked at, so that the text may go on in any way, or end there.

What stands at the beginning of a text stands there whatever follows the text (the `extend`
lemmas). A number is the exception, since it goes as far as it can: a text that ends with one may
go on with more digits. The members before a name have commas after them, so this does not happen
to their values.

* `Formed.extend`: a value of any form stands in a longer text as well;
* `Leading.extend`: and so do the members before a name;
* `load_of_reaches`: the name of a setting that was given makes the load fail, at that name;
* `load_or_zero`: other names do not make it fail, however often they come.
-/

namespace BatchedCommit

namespace Json

/-! ## Longer texts -/

section Extend

variable {text rest : List Char} (after : List Char)

theorem Blanks.extend (h : Blanks text rest) : Blanks (text ++ after) (rest ++ after) := by
  induction h with
  | none => exact .none
  | blank hblank h ih => exact .blank hblank ih

/-- Something is left of a text at whose beginning blanks were passed over. -/
theorem Blanks.ne_nil {c : Char} (h : Blanks text (c :: rest)) : text ≠ [] := by
  have hlength := h.length_le
  rintro rfl
  simp at hlength

theorem CodeUnit.extend {unit : Nat} (h : CodeUnit text unit rest) :
    CodeUnit (text ++ after) unit (rest ++ after) := by
  cases h with
  | mk ha hb hc hd => exact .mk ha hb hc hd

theorem Character.extend {c : Char} (h : Character text c rest) :
    Character (text ++ after) c (rest ++ after) := by
  cases h with
  | plain hquote hescape hcontrol => exact .plain hquote hescape hcontrol
  | short h => exact .short h
  | unit h hleading htrailing => exact .unit (h.extend after) hleading htrailing
  | pair hfirst hsecond hleading htrailing =>
    exact .pair (hfirst.extend after) (hsecond.extend after) hleading htrailing

theorem Characters.extend {value : List Char} (h : Characters text value rest) :
    Characters (text ++ after) value (rest ++ after) := by
  induction h with
  | close => exact .close
  | next hfirst hrest ih => exact .next (hfirst.extend after) ih

theorem Symbol.extend (h : Symbol text rest) : Symbol (text ++ after) (rest ++ after) := by
  cases h with
  | plain hquote hescape hcontrol => exact .plain hquote hescape hcontrol
  | short h => exact .short h
  | unit h => exact .unit (h.extend after)

theorem Symbols.extend (h : Symbols text rest) : Symbols (text ++ after) (rest ++ after) := by
  induction h with
  | close => exact .close
  | next hfirst hrest ih => exact .next (hfirst.extend after) ih

theorem Name.extend {name : String} (h : Name text name rest) :
    Name (text ++ after) name (rest ++ after) := by
  cases h with
  | mk hopen hname hcolon =>
    exact .mk (hopen.extend after) (hname.extend after) (hcolon.extend after)

/-- A number ends where it did, since what ends it is still there. -/
theorem Reads.extend_number {lexeme : List Char} (h : Reads (.value (.number lexeme)) text rest)
    (hrest : rest ≠ []) :
    Reads (.value (.number lexeme)) (text ++ after) (rest ++ after) := by
  cases h with
  | number hnumber htext hend =>
    have htext' : text ++ after = lexeme ++ (rest ++ after) := by rw [htext, List.append_assoc]
    exact .number hnumber htext' (by rwa [List.head?_append_of_ne_nil rest hrest])

/-- A part of any kind stands in a longer text as well. The values inside it are followed by a
comma or an end, so that the induction never comes to a number at the end of the text. -/
theorem Formed.extend {kind : PartKind} (h : Formed kind text rest) (hrest : rest ≠ []) :
    Formed kind (text ++ after) (rest ++ after) := by
  induction h with
  | null => exact .null
  | yes => exact .yes
  | no => exact .no
  | @number lexeme rest hnumber hend =>
    rw [List.append_assoc]
    exact .number hnumber (by rwa [List.head?_append_of_ne_nil rest hrest])
  | str h => exact .str (h.extend after)
  | emptyArr h => exact .emptyArr (h.extend after)
  | arr h ih => exact .arr (ih hrest)
  | emptyObj h => exact .emptyObj (h.extend after)
  | obj h ih => exact .obj (ih hrest)
  | lastItem hbefore hvalue hafter ih =>
    exact .lastItem (hbefore.extend after) (ih hafter.ne_nil) (hafter.extend after)
  | item hbefore hvalue hafter hmore ih ihmore =>
    exact .item (hbefore.extend after) (ih hafter.ne_nil) (hafter.extend after) (ihmore hrest)
  | lastMember hopen hname hcolon hbefore hvalue hafter ih =>
    exact .lastMember (hopen.extend after) (hname.extend after) (hcolon.extend after)
      (hbefore.extend after) (ih hafter.ne_nil) (hafter.extend after)
  | member hopen hname hcolon hbefore hvalue hafter hmore ih ihmore =>
    exact .member (hopen.extend after) (hname.extend after) (hcolon.extend after)
      (hbefore.extend after) (ih hafter.ne_nil) (hafter.extend after) (ihmore hrest)

end Extend

end Json

namespace Settings

open Json (Blanks Characters)

section Extend

variable {text rest : List Char} (after : List Char)

theorem Member.Stands.extend {member : Member} (h : member.Stands text rest) (hrest : rest ≠ []) :
    member.Stands (text ++ after) (rest ++ after) := by
  cases h with
  | given hname hbefore hvalue =>
    exact .given (hname.extend after) (hbefore.extend after) (hvalue.extend_number after hrest)
  | other hname hother hbefore hvalue =>
    exact .other (hname.extend after) hother (hbefore.extend after) (hvalue.extend after hrest)

theorem Leading.extend {members : List Member} (h : Leading members text rest) :
    Leading members (text ++ after) (rest ++ after) := by
  induction h with
  | none => exact .none
  | member hmember hcomma hmore ih =>
    exact .member (hmember.extend after hcomma.ne_nil) (hcomma.extend after) ih

/-! ## Up to a name -/

/-- At the beginning of a text stands an object, up to the closing quote of a name: these members,
each with a comma after it, and the name of a setting. -/
inductive Reaches (members : List Member) (setting : Setting) : List Char → List Char → Prop where
  | mk {text inside start name rest : List Char} (hopen : Blanks text ('{' :: inside))
      (hleading : Leading members inside start) (hquote : Blanks start ('"' :: name))
      (hname : Characters name setting.name.toList rest) : Reaches members setting text rest

theorem Reaches.extend {members : List Member} {setting : Setting}
    (h : Reaches members setting text rest) :
    Reaches members setting (text ++ after) (rest ++ after) := by
  cases h with
  | mk hopen hleading hquote hname =>
    exact .mk (hopen.extend after) (hleading.extend after) (hquote.extend after)
      (hname.extend after)

end Extend

/-! ## Repeated names -/

/-- The name of a setting that was given is reported, and nothing after it is read. -/
theorem readMember_of_given {given : Given} {setting : Setting} {text rest : List Char}
    (hname : Characters text setting.name.toList rest)
    (hgiven : (given.lookup setting).isSome = true) :
    readMember given text = .error (.duplicate setting) := by
  have hstring := hname.readString []
  rw [List.reverse_nil, List.nil_append] at hstring
  simp [readMember, hstring, ofName?_name, hgiven]

/-- The second name of a setting ends the reading of an object: the members before it were read,
one member a step, and one of them gave the setting. -/
theorem readGiven_of_reaches {members : List Member} {setting : Setting} {text rest : List Char}
    (h : Reaches members setting text rest) (hnodup : ((givenBy members).map Prod.fst).Nodup)
    (hgiven : setting ∈ (givenBy members).map Prod.fst) :
    readGiven text = .error (.duplicate setting) := by
  cases h with
  | @mk inside _ _ _ hopen hleading hquote hname =>
    obtain ⟨fuel, hfuel⟩ : ∃ fuel, inside.length + 1 = (fuel + 1) + members.length := by
      have hlength := hleading.length_le
      exact ⟨inside.length - members.length, by omega⟩
    have hmembers := readMembers_of_leading (fuel + 1) true [] hleading hnodup (by simp)
    have hnotFirst : (true && members.isEmpty) = false := by
      cases members with
      | nil => contradiction
      | cons member members => rfl
    rw [hnotFirst, opening, if_pos rfl] at hmembers
    have hlookup : (((givenBy members).reverse ++ []).lookup setting).isSome = true := by
      rw [List.append_nil, List.lookup_isSome_iff]
      simpa using hgiven
    have hstop := readMember_of_given hname hlookup
    simp only [readGiven, hopen.skipBlanks rfl]
    rw [hfuel, hmembers, readMembers_name hquote, hstop, Except.bind]

/-- The load fails at the second name of a setting, whatever follows the name. -/
theorem load_of_reaches (path : String) {members : List Member} {setting : Setting}
    {front : String} (after : String) (h : Reaches members setting front.toList [])
    (hnodup : ((givenBy members).map Prod.fst).Nodup)
    (hgiven : setting ∈ (givenBy members).map Prod.fst) :
    load path (.ok (front ++ after).toUTF8) =
      .error (.invalidSettings
        ("Invalid config JSON: duplicate field `" ++ setting.name ++ "`")) := by
  have hread : read (front ++ after).toList = .error (.duplicate setting) := by
    rw [read, String.toList_append, readGiven_of_reaches (h.extend after.toList) hnodup hgiven]
  have hmessage : (Misreading.duplicate setting).message =
      "duplicate field `" ++ setting.name ++ "`" := rfl
  rw [load, text_toUTF8]
  simp only [parse, hread, hmessage, ← String.append_assoc, String.reduceAppend]

/-! ## Other names -/

/-- Settings are valid, or a zero in them is named. -/
theorem validate_cases (settings : Settings) :
    settings.validate = .ok () ∨
      ∃ setting, settings.get setting = 0 ∧ settings.validate = .error (zeroFailure setting) := by
  unfold validate
  split
  case h_1 setting hfound =>
    have hzero := List.find?_some hfound
    exact .inr ⟨setting, by simpa using hzero, rfl⟩
  case h_2 => exact .inl rfl

/-- No default is zero, so a zero was given. -/
theorem mem_of_valueIn_eq_zero {given : Given} {setting : Setting}
    (h : valueIn given setting = 0) : (setting, 0) ∈ given := by
  cases hlookup : given.lookup setting with
  | none =>
    rw [valueIn, hlookup, Option.getD_none] at h
    cases setting <;> contradiction
  | some value =>
    rw [valueIn, hlookup, Option.getD_some] at h
    obtain ⟨before, after, rfl, -⟩ := List.lookup_eq_some_iff.mp (h ▸ hlookup)
    simp

/-- An object in which no setting comes twice is loaded, or a zero that is given in it is named.
There is no other failure, whatever the names and values of the other members. -/
theorem load_or_zero (path : String) {members : List Member} {text : String}
    (h : IsObject members text.toList) (hnodup : ((givenBy members).map Prod.fst).Nodup) :
    load path (.ok text.toUTF8) = .ok (ofValues (valueIn (givenBy members))) ∨
      ∃ setting, (setting, 0) ∈ givenBy members ∧
        load path (.ok text.toUTF8) = .error (zeroFailure setting) := by
  rw [load_of_isObject path h hnodup]
  obtain hvalid | ⟨setting, hzero, hrefused⟩ :=
    validate_cases (ofValues (valueIn (givenBy members)))
  · exact .inl (by rw [hvalid, Except.map])
  · rw [get_ofValues] at hzero
    exact .inr ⟨setting, mem_of_valueIn_eq_zero hzero, by rw [hrefused, Except.map]⟩

end Settings

end BatchedCommit
