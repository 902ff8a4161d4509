import BatchedCommit.Proofs.Repetition

/-!
# BatchedCommit.Proofs.ArrayForm

Settings are loaded from an array of numbers as well: its items are the values of the first
settings, in the order of declaration. The reader of items and that of members have nothing in
common but the reader of values, and both come to the same settings, or to the same zero.

* `readItems_of_reads`: items are read, one item a step, for the settings in their order;
* `repeated_and_positional_loads`: a setting that comes twice makes the load fail at its second
  name, other names may come any number of times, and an array loads like the object that gives
  its values by name.
-/

namespace BatchedCommit

namespace Settings

open Json (Reads Says Blanks Content)

/-! ## Items -/

/-- What values are to a reader of JSON. -/
def numbers (values : List UInt64) : List Content :=
  values.map fun value => .number (Json.digits value.toNat)

/-- The reader of items passes over blanks. -/
theorem readItems_skip {isFirst : Bool} {given : Given} {settings : List Setting} {c : Char}
    {text rest : List Char} (h : Blanks text (c :: rest)) (hc : Json.isBlank c = false) :
    readItems isFirst given settings text = readItems isFirst given settings (c :: rest) := by
  have hsame : Json.skipBlanks text = Json.skipBlanks (c :: rest) :=
    (h.skipBlanks hc).trans (Blanks.skipBlanks .none hc).symm
  cases settings with
  | nil => simp only [readItems, closeArray, hsame]
  | cons setting settings => simp only [readItems, hsame]

/-- The array ends at its bracket, whether there are settings left or not. -/
theorem readItems_end {isFirst : Bool} {given : Given} {settings : List Setting}
    {text rest : List Char} (h : Blanks text (']' :: rest)) :
    readItems isFirst given settings text = .ok (given, rest) := by
  have hskip := h.skipBlanks rfl
  cases settings with
  | nil => simp only [readItems, closeArray, hskip]
  | cons setting settings => simp only [readItems, hskip]

/-- An item is read, and then those after it. -/
theorem readItems_step {isFirst : Bool} {given : Given} {setting : Setting}
    {settings : List Setting} {value : UInt64} {text start stop : List Char}
    (hbefore : Blanks text start)
    (hvalue : Reads (.value (.number (Json.digits value.toNat))) start stop) :
    readItems isFirst given (setting :: settings) (opening isFirst text) =
      readItems false ((setting, value) :: given) settings stop := by
  have hread := readValue_of_reads (expectedType setting) .none hvalue
  obtain ⟨c, more, rfl, hc⟩ := hvalue.cons
  have hskip := hbefore.skipBlanks (Json.not_isBlank_of_startsValue hc)
  have hbracket : c ≠ ']' := by
    rintro rfl
    contradiction
  cases isFirst with
  | true => simp [readItems, opening, hskip, openItem, hread, hbracket]
  | false =>
    have hcomma : Json.skipBlanks (',' :: text) = ',' :: text := Blanks.skipBlanks .none rfl
    simp [readItems, opening, hcomma, openItem, hskip, hread, hbracket]

/-- Items are read, one item a step: they are the values of the settings that are left, from the
first one on. -/
theorem readItems_of_reads (isFirst : Bool) (given : Given) {settings : List Setting}
    {values : List UInt64} {text rest : List Char} (h : Reads (.items (numbers values)) text rest)
    (hlength : values.length ≤ settings.length) :
    readItems isFirst given settings (opening isFirst text) =
      .ok ((settings.zip values).reverse ++ given, rest) := by
  induction values generalizing isFirst given settings text with
  | nil => cases h
  | cons value values ih =>
    obtain ⟨setting, settings, rfl⟩ :=
      List.exists_cons_of_length_pos (Nat.lt_of_lt_of_le (by simp) hlength)
    obtain ⟨start, stop, hbefore, hvalue, hafter⟩ := h.items_cons
    rw [readItems_step hbefore hvalue]
    obtain ⟨hlast, hend⟩ | ⟨more, hcomma, hmore⟩ := hafter
    · obtain rfl : values = [] := List.map_eq_nil_iff.mp hlast
      simpa using readItems_end hend
    · have hrest := ih false ((setting, value) :: given) hmore (by simpa using hlength)
      rw [readItems_skip hcomma rfl]
      simpa [opening] using hrest

/-! ## Whole arrays -/

/-- An array of at most five numbers is read as the values of the first settings. -/
theorem readGiven_of_numbers {values : List UInt64} {text start rest : List Char}
    (hbefore : Blanks text start) (h : Reads (.value (.arr (numbers values))) start rest)
    (hlength : values.length ≤ 5) :
    readGiven text = .ok ((Setting.all.zip values).reverse, rest) := by
  generalize hcontents : numbers values = contents at h
  cases h with
  | emptyArr hend =>
    obtain rfl : values = [] := List.map_eq_nil_iff.mp hcontents
    simp only [readGiven, hbefore.skipBlanks rfl]
    exact readItems_end hend
  | arr hitems =>
    subst hcontents
    have hcount : values.length ≤ Setting.all.length := hlength
    have hread := readItems_of_reads true [] hitems hcount
    simp only [readGiven, hbefore.skipBlanks rfl]
    simpa [opening] using hread

/-- No setting comes twice among the first ones. -/
theorem nodup_zip_all {values : List UInt64} (hlength : values.length ≤ 5) :
    ((Setting.all.zip values).map Prod.fst).Nodup := by
  have hall : Setting.all.Nodup := by decide
  have hcount : values.length ≤ Setting.all.length := hlength
  have hfirst : (Setting.all.zip values).map Prod.fst = Setting.all.take values.length := by
    rw [List.zip_eq_zip_take_min, Nat.min_eq_right hcount, List.take_length,
      List.map_fst_zip (List.length_take_le _ _)]
  rw [hfirst]
  exact hall.sublist (List.take_sublist _ _)

/-- An array loads as the values of the first settings, with the defaults of the others. -/
theorem load_of_numbers (path : String) {values : List UInt64} {text : String}
    (h : Says text.toList (.arr (numbers values))) (hlength : values.length ≤ 5) :
    load path (.ok text.toUTF8) =
      (ofValues (valueIn (Setting.all.zip values))).validate.map
        fun _ => ofValues (valueIn (Setting.all.zip values)) := by
  obtain ⟨start, stop, hbefore, hvalue, hafter⟩ := h
  have hread := readGiven_of_numbers hbefore hvalue hlength
  exact load_of_readGiven path hread hafter (nodup_zip_all hlength)

/-! ## Repeated names and positions -/

/-- What a text does that gives settings twice, or by position. After the name of a setting that
was given before, the load fails and names the setting, whatever follows the name. Names of no
setting may come any number of times: the object is loaded all the same, unless a setting is given
as zero. At most five numbers in an array load like any object that gives them to the first
settings, to the same settings or to the same failure. -/
theorem repeated_and_positional_loads (path : String) :
    (∀ (members : List Member) (setting : Setting) (front after : String),
      Reaches members setting front.toList [] → ((givenBy members).map Prod.fst).Nodup →
      setting ∈ (givenBy members).map Prod.fst →
      load path (.ok (front ++ after).toUTF8) =
        .error (.invalidSettings
          ("Invalid config JSON: duplicate field `" ++ setting.name ++ "`"))) ∧
    (∀ (members : List Member) (text : String), IsObject members text.toList →
      ((givenBy members).map Prod.fst).Nodup →
      load path (.ok text.toUTF8) = .ok (ofValues (valueIn (givenBy members))) ∨
        ∃ setting, (setting, 0) ∈ givenBy members ∧
          load path (.ok text.toUTF8) =
            .error (.invalidSettings (setting.name ++ " must be > 0"))) ∧
    ∀ (values : List UInt64) (members : List Member) (text other : String), values.length ≤ 5 →
      Says text.toList (.arr (values.map fun value => .number (Json.digits value.toNat))) →
      IsObject members other.toList → (givenBy members).Perm (Setting.all.zip values) →
      load path (.ok text.toUTF8) = load path (.ok other.toUTF8) := by
  refine ⟨?_, ?_, ?_⟩
  · intro members setting front after h hnodup hgiven
    exact load_of_reaches path after h hnodup hgiven
  · intro members text h hnodup
    exact load_or_zero path h hnodup
  · intro values members text other hlength harray hobject hperm
    have hnodup : ((givenBy members).map Prod.fst).Nodup :=
      (hperm.map Prod.fst).nodup_iff.mpr (nodup_zip_all hlength)
    rw [load_of_numbers path harray hlength, load_of_isObject path hobject hnodup,
      valueIn_of_perm hperm hnodup]

/-- The capacity is named for a second time, with an escape in its name, and something that is no
JSON follows. The name `x` comes twice in an object that is loaded. Two numbers in an array load
like an object that gives them in the other order: the zero among them is refused. -/
theorem repeated_and_positional_texts :
    load "a" (.ok ("\x7b\"x\":null,\"slot_capacity\":7,\"x\":[],\"\\u0073lot_capacity\"" ++
        " 0 ]]").toUTF8) =
      .error (.invalidSettings "Invalid config JSON: duplicate field `slot_capacity`") ∧
    load "a" (.ok "\x7b\"x\":null,\"x\":[]\x7d".toUTF8) = .ok default ∧
    load "a" (.ok "\x7b\"group_size_fix_timeout_millis\":0,\"slot_capacity\":3\x7d".toUTF8) =
      load "a" (.ok " [3, 0]".toUTF8) ∧
    load "a" (.ok " [3, 0]".toUTF8) =
      .error (.invalidSettings "group_size_fix_timeout_millis must be > 0") := by
  have hx : ∀ setting : Setting, setting.name ≠ "x" := by
    intro setting
    cases setting <;> decide
  have hunit : ∀ rest, Json.CodeUnit ('0' :: '0' :: '7' :: '3' :: rest) 0x73 rest := fun rest =>
    (.mk rfl rfl rfl rfl : Json.CodeUnit _ (16 * (16 * (16 * 0 + 0) + 7) + 3) rest)
  have hfront : Reaches [.other "x", .given .slotCapacity 7, .other "x"] .slotCapacity
      "\x7b\"x\":null,\"slot_capacity\":7,\"x\":[],\"\\u0073lot_capacity\"".toList [] := by
    simp only [String.reduceToList]
    refine .mk .none
      (.member (.other (Json.name_quote _ .none) hx .none .null) .none
        (.member (.given (Json.name_quote _ .none) .none
          (reads_digits 7 (by simp [Json.isNumberPart]))) .none
          (.member (.other (Json.name_quote _ .none) hx .none (.emptyArr .none)) .none .none)))
      .none ?_
    exact .next (.unit (hunit _) rfl rfl) (Json.characters_flatMap_escape
      ['l', 'o', 't', '_', 'c', 'a', 'p', 'a', 'c', 'i', 't', 'y'] _)
  have hothers : IsObject [.other "x", .other "x"] "\x7b\"x\":null,\"x\":[]\x7d".toList := by
    simp only [String.reduceToList]
    rw [← List.singleton_append]
    exact .members .none (.member (.other (Json.name_quote _ .none) hx .none .null) .none .none)
      (.other (Json.name_quote _ .none) hx .none (.emptyArr .none)) .none .none
  have hobject : IsObject [.given .sizeFixMillis 0, .given .slotCapacity 3]
      "\x7b\"group_size_fix_timeout_millis\":0,\"slot_capacity\":3\x7d".toList := by
    simp only [String.reduceToList]
    rw [← List.singleton_append]
    exact .members .none
      (.member (.given (Json.name_quote _ .none) .none
        (reads_digits 0 (by simp [Json.isNumberPart]))) .none .none)
      (.given (Json.name_quote _ .none) .none (reads_digits 3 (by simp [Json.isNumberPart])))
      .none .none
  have harray : Says " [3, 0]".toList (.arr (numbers [3, 0])) := by
    simp only [String.reduceToList]
    exact ⟨_, [], .blank rfl .none,
      .arr (.item .none (reads_digits 3 (by simp [Json.isNumberPart])) .none
        (.lastItem (.blank rfl .none) (reads_digits 0 (by simp [Json.isNumberPart])) .none)), .none⟩
  obtain ⟨hrepeated, hloads, hpositional⟩ := repeated_and_positional_loads "a"
  refine ⟨hrepeated _ .slotCapacity _ _ hfront (by decide) (by decide), ?_,
    (hpositional [3, 0] _ _ _ (by decide) harray hobject (by decide)).symm, ?_⟩
  · obtain hdefault | ⟨setting, hzero, -⟩ := hloads _ _ hothers (by decide)
    · exact hdefault
    · contradiction
  · rw [load_of_numbers "a" harray (by decide)]
    rfl

end Settings

end BatchedCommit
