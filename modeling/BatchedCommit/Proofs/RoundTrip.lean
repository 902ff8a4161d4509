import BatchedCommit.CommandLine.Output
import BatchedCommit.Proofs.Written

/-!
# BatchedCommit.Proofs.RoundTrip

Settings that are written can be loaded again. The reader of settings follows the grammar of
JSON: whatever the layout of a text, if it says an object of settings, then these are read, and
the others have their defaults (`Settings.read_of_content`). Both written forms say all five
settings, so nothing is left to a default when they are loaded.

* `Json.readNumber_toDigits`: the digits of a number below 2^64 are read as the number;
* `Settings.readMembers_of_reads`: members that are settings are read, one member a step;
* `Settings.written_loads_back`: the written forms of settings load as the settings, or are
  refused for the first zero in them.
-/

namespace BatchedCommit

namespace Json

/-! ## Numbers -/

theorem le_ofDigitChars (digits : List Char) (value : Nat) :
    value ≤ Nat.ofDigitChars 10 digits value := by
  induction digits generalizing value with
  | nil => simp
  | cons c digits ih =>
    rw [Nat.ofDigitChars_cons]
    have hlonger := ih (10 * value + (c.toNat - '0'.toNat))
    omega

/-- No digit is left over where the number fits 64 bits: what was read before its last digit is
smaller. -/
theorem appendDigits_of_lt {digits : List Char} {value : Nat}
    (h : Nat.ofDigitChars 10 digits value < UInt64.size) :
    appendDigits value digits = (Nat.ofDigitChars 10 digits value, 0) := by
  induction digits generalizing value with
  | nil => simp [appendDigits]
  | cons c digits ih =>
    rw [Nat.ofDigitChars_cons] at h ⊢
    have hfits := Nat.lt_of_le_of_lt (le_ofDigitChars digits _) h
    rw [appendDigits, digitValue, if_pos hfits, ih h]

/-- What follows does not go on like a number, so the number ends with its digits. -/
theorem readAfterInteger_of_end {n : Nat} {rest : List Char}
    (hend : ∀ c ∈ rest.head?, isNumberPart c = false) :
    readAfterInteger false n 0 rest = .ok (.natural n, rest) := by
  unfold readAfterInteger
  split
  · simp [isNumberPart] at hend
  · simp [isNumberPart] at hend
  · simp [isNumberPart] at hend
  · simp [integer]

/-- The digits of a number below 2^64 are read as the number. -/
theorem readNumber_toDigits {n : Nat} (h : n < UInt64.size) {rest : List Char}
    (hend : ∀ c ∈ rest.head?, isNumberPart c = false) :
    readNumber false (Nat.toDigits 10 n ++ rest) = .ok (.natural n, rest) := by
  have hnodigit : ∀ c ∈ rest.head?, c.isDigit = false := by
    intro c hc
    have hpart := hend c hc
    simp only [isNumberPart, Bool.or_eq_false_iff] at hpart
    simp [hpart]
  have hafter := readAfterInteger_of_end (n := n) hend
  by_cases hzero : n = 0
  · subst hzero
    have hfirst : (rest.head?.map Char.isDigit).getD false = false := by
      cases rest with
      | nil => rfl
      | cons c rest => exact hnodigit c rfl
    simp [readNumber, hfirst, hafter]
  · obtain ⟨c, more, hcons⟩ := List.exists_cons_of_ne_nil (isDigits_toDigits n).1
    have hc : c ≠ '0' := by
      rintro rfl
      exact hzero (head?_toDigits (by rw [hcons, List.head?_cons]))
    have hdigits : ∀ d ∈ c :: more, d.isDigit = true := hcons ▸ (isDigits_toDigits n).2
    have hmore : ∀ d ∈ more, d.isDigit = true := fun d hd => hdigits d (List.mem_cons_of_mem c hd)
    have hstop : rest.takeWhile Char.isDigit = [] ∧ rest.dropWhile Char.isDigit = rest := by
      cases rest with
      | nil => simp
      | cons d rest => simp [hnodigit d rfl]
    have hvalue : appendDigits 0 (c :: more) = (n, 0) := by
      rw [← hcons, appendDigits_of_lt] <;> rw [Nat.ofDigitChars_ten_toDigits]
      exact h
    rw [hcons, List.cons_append, readNumber]
    · simp [hdigits c List.mem_cons_self, List.takeWhile_append_of_pos hmore,
        List.dropWhile_append_of_pos hmore, hstop, hvalue, hafter]
    · exact hc

theorem digits_natCast (n : Nat) : digits (n : Int) = Nat.toDigits 10 n := by
  have hnonneg : ¬ (n : Int) < 0 := by omega
  rw [digits, if_neg hnonneg, Int.natAbs_natCast]

/-- A number in a text is its lexeme. -/
theorem Reads.number_eq {lexeme text rest : List Char}
    (h : Reads (.value (.number lexeme)) text rest) :
    text = lexeme ++ rest ∧ ∀ c ∈ rest.head?, isNumberPart c = false := by
  cases h with
  | number hnumber htext hend => exact ⟨htext, hend⟩

/-- The blanks at the end of a text are all skipped. -/
theorem Blanks.skipBlanks_nil {text : List Char} (h : Blanks text []) :
    Json.skipBlanks text = [] := by
  generalize hstop : ([] : List Char) = stop at h
  induction h with
  | none => rw [← hstop, Json.skipBlanks, List.dropWhile_nil]
  | blank hblank h ih =>
    rw [Json.skipBlanks, List.dropWhile_cons_of_pos hblank]
    exact ih hstop

end Json

namespace Settings

open Json (Reads Says Blanks Name Characters Content)

/-! ## Members -/

/-- What given settings are to a reader of JSON. -/
def Given.contents (given : Given) : List (String × Content) :=
  given.map fun (setting, value) => (setting.name, .number (Json.digits value.toNat))

theorem contents_cons (setting : Setting) (value : UInt64) (given : Given) :
    Given.contents ((setting, value) :: given) =
      (setting.name, .number (Json.digits value.toNat)) :: given.contents := rfl

theorem ofName?_name (setting : Setting) : Setting.ofName? setting.name = some setting := by
  cases setting <;> decide

/-- The number of a setting is read, after blanks. -/
theorem readValue_of_reads {text start rest : List Char} {value : UInt64} (expected : String)
    (hbefore : Blanks text start)
    (hvalue : Reads (.value (.number (Json.digits value.toNat))) start rest) :
    readValue expected text = .ok (value, rest) := by
  obtain ⟨rfl, hend⟩ := hvalue.number_eq
  rw [Json.digits_natCast] at hbefore
  have hread := Json.readNumber_toDigits value.toNat_lt hend
  obtain ⟨hne, hdigits⟩ := Json.isDigits_toDigits value.toNat
  obtain ⟨c, more, hcons⟩ := List.exists_cons_of_ne_nil hne
  rw [hcons] at hbefore hread hdigits
  have hc : c.isDigit = true := hdigits c List.mem_cons_self
  have hminus : c ≠ '-' := by
    rintro rfl
    contradiction
  have hskip : Json.skipBlanks text = c :: (more ++ rest) :=
    hbefore.skipBlanks (Json.not_isBlank_of_startsValue (by simp [Json.startsValue, hc]))
  rw [List.cons_append] at hread
  simp [readValue, hskip, hc, hread, valueOf, Except.map]

theorem passColon_of_blanks {text rest : List Char} (h : Blanks text (':' :: rest)) :
    passColon text = .ok rest := by
  simp only [passColon, h.skipBlanks rfl]

/-- One member is read. -/
theorem readMember_of_reads {given : Given} {setting : Setting} {value : UInt64}
    {text after colon start rest : List Char} (hname : Characters text setting.name.toList after)
    (hcolon : Blanks after (':' :: colon)) (hbefore : Blanks colon start)
    (hvalue : Reads (.value (.number (Json.digits value.toNat))) start rest)
    (hfresh : given.lookup setting = none) :
    readMember given text = .ok ((setting, value) :: given, rest) := by
  have hstring := hname.readString []
  rw [List.reverse_nil, List.nil_append] at hstring
  have hpass := passColon_of_blanks hcolon
  have hread := readValue_of_reads (expectedType setting) hbefore hvalue
  simp [readMember, hstring, ofName?_name, hfresh, hpass, hread, Except.map]

/-- The reader of members passes over blanks. -/
theorem readMembers_skip {fuel : Nat} {isFirst : Bool} {given : Given} {c : Char}
    {text rest : List Char} (h : Blanks text (c :: rest)) (hc : Json.isBlank c = false) :
    readMembers fuel isFirst given text = readMembers fuel isFirst given (c :: rest) := by
  have hsame : Json.skipBlanks text = Json.skipBlanks (c :: rest) :=
    (h.skipBlanks hc).trans (Blanks.skipBlanks .none hc).symm
  cases fuel with
  | zero => rfl
  | succ fuel => simp only [readMembers, hsame]

/-- After a member, the object ends at its bracket. -/
theorem readMembers_end {fuel : Nat} {isFirst : Bool} {given : Given} {text rest : List Char}
    (h : Blanks text ('}' :: rest)) :
    readMembers (fuel + 1) isFirst given text = .ok (given, rest) := by
  simp only [readMembers, h.skipBlanks rfl]

/-- The text from the name of a member on: the first member has no comma before it. -/
def opening (isFirst : Bool) (text : List Char) : List Char :=
  if isFirst then text else ',' :: text

/-- From its name on, a member is read, and then those after it. -/
theorem readMembers_name {fuel : Nat} {isFirst : Bool} {given : Given}
    {text inside : List Char} (h : Blanks text ('"' :: inside)) :
    readMembers (fuel + 1) isFirst given (opening isFirst text) =
      (readMember given inside).bind fun read => readMembers fuel false read.1 read.2 := by
  have hskip := h.skipBlanks rfl
  have hcomma : Json.skipBlanks (',' :: text) = ',' :: text := Blanks.skipBlanks .none rfl
  cases hread : readMember given inside <;> cases isFirst <;>
    simp [readMembers, opening, openName, hskip, hcomma, hread, Except.bind]

/-- A member that can be read takes one step. -/
theorem readMembers_step {fuel : Nat} {isFirst : Bool} {given next : Given}
    {text inside rest : List Char} (h : Blanks text ('"' :: inside))
    (hmember : readMember given inside = .ok (next, rest)) :
    readMembers (fuel + 1) isFirst given (opening isFirst text) =
      readMembers fuel false next rest := by
  rw [readMembers_name h, hmember, Except.bind]

/-- Members that are settings are read, one member a step: none of them was given before, and
each one is given once. -/
theorem readMembers_of_reads (fuel : Nat) (isFirst : Bool) {given taken : Given}
    {text rest : List Char} (h : Reads (.members taken.contents) text rest)
    (hfuel : taken.length < fuel) (hnodup : (taken.map (·.1)).Nodup)
    (hfresh : ∀ setting ∈ taken.map (·.1), given.lookup setting = none) :
    readMembers fuel isFirst given (opening isFirst text) = .ok (taken.reverse ++ given, rest) := by
  induction taken generalizing given text fuel isFirst with
  | nil => cases h
  | cons first taken ih =>
    obtain ⟨setting, value⟩ := first
    obtain ⟨fuel, rfl⟩ := Nat.exists_eq_add_one_of_ne_zero (Nat.ne_zero_of_lt hfuel)
    rw [List.map_cons, List.nodup_cons] at hnodup
    have hgiven : given.lookup setting = none := hfresh setting (by simp)
    have hnext : ∀ other ∈ taken.map (·.1),
        List.lookup other ((setting, value) :: given) = none := by
      intro other hother
      have hne : other ≠ setting := fun hsame => hnodup.1 (hsame ▸ hother)
      rw [List.lookup_cons, beq_eq_false_iff_ne.mpr hne]
      exact hfresh other (List.mem_cons_of_mem _ hother)
    rw [contents_cons] at h
    obtain ⟨colon, start, stop, hname, hbefore, hvalue, hafter⟩ := h.members_cons
    obtain ⟨inside, after, hopen, hchars, hcolon⟩ := hname.parts
    have hread := readMember_of_reads hchars hcolon hbefore hvalue hgiven
    rw [readMembers_step hopen hread]
    obtain ⟨hlast, hend⟩ | ⟨more, hcomma, hmore⟩ := hafter
    · obtain rfl : taken = [] := by simpa [Given.contents] using hlast
      have hleft : fuel ≠ 0 := by simpa using Nat.ne_zero_of_lt (Nat.lt_of_succ_lt_succ hfuel)
      obtain ⟨fuel, rfl⟩ := Nat.exists_eq_add_one_of_ne_zero hleft
      exact readMembers_end hend
    · have hrest := ih fuel false hmore (by simpa using hfuel) hnodup.2 hnext
      rw [readMembers_skip hcomma rfl]
      simpa [opening] using hrest

/-! ## Objects -/

/-- An object of settings, each given once, is read as these settings. -/
theorem readGiven_of_reads {taken : Given} {text start rest : List Char}
    (hbefore : Blanks text start) (h : Reads (.value (.obj taken.contents)) start rest)
    (hnodup : (taken.map (·.1)).Nodup) : readGiven text = .ok (taken.reverse, rest) := by
  generalize hcontents : taken.contents = contents at h
  cases h with
  | @emptyObj inner _ hend =>
    obtain rfl : taken = [] := by simpa [Given.contents] using hcontents
    simp only [readGiven, hbefore.skipBlanks rfl]
    exact readMembers_end hend
  | @obj inner _ _ hmembers =>
    subst hcontents
    have hcount := hmembers.length_add_count_le
    simp only [Json.Part.count, Given.contents, List.length_map] at hcount
    have hnone : ∀ setting ∈ taken.map (·.1), List.lookup setting ([] : Given) = none := by simp
    have hread := readMembers_of_reads (inner.length + 1) true hmembers (by omega) hnodup hnone
    simp only [readGiven, hbefore.skipBlanks rfl]
    simpa [opening] using hread

/-- A text that says an object of settings, each given once, is read as these settings with the
defaults of the others, whatever its layout. -/
theorem read_of_content {taken : Given} {text : List Char} (h : Says text (.obj taken.contents))
    (hnodup : (taken.map (·.1)).Nodup) : read text = .ok (ofGiven taken.reverse) := by
  obtain ⟨start, stop, hbefore, hvalue, hafter⟩ := h
  simp [read, readGiven_of_reads hbefore hvalue hnodup, hafter.skipBlanks_nil]

/-! ## Whole settings -/

/-- All five settings with their values. -/
def given (settings : Settings) : Given :=
  Setting.all.map fun setting => (setting, settings.get setting)

theorem content_toJson (settings : Settings) :
    settings.toJson.content = .obj settings.given.contents := rfl

/-- Nothing is left to a default. -/
theorem ofGiven_given (settings : Settings) : ofGiven settings.given.reverse = settings := by
  have hvalues : (fun setting => (settings.given.reverse.lookup setting).getD setting.default) =
      settings.get := by
    funext setting
    cases setting <;> rfl
  rw [ofGiven, hvalues, ofValues_get]

/-- A text that says settings is read as them. -/
theorem read_of_toJson {settings : Settings} {text : List Char}
    (h : Says text settings.toJson.content) : read text = .ok settings := by
  rw [content_toJson] at h
  rw [read_of_content h (by simp [given, Setting.all]), ofGiven_given]

theorem says_text (settings : Settings) : Says settings.text.toList settings.toJson.content := by
  have hread := Json.reads_compact settings.toJson [] (by simp)
  rw [List.append_nil] at hread
  rw [text, Json.compactText, String.toList_ofList]
  exact ⟨_, _, .none, hread, .none⟩

/-- What is printed says the settings, with any blanks after it. -/
theorem says_prettyText (settings : Settings) (blanks : List Char)
    (h : ∀ c ∈ blanks, Json.isBlank c = true) :
    Says (settings.toJson.prettyText.toList ++ blanks) settings.toJson.content := by
  have hend : ∀ c ∈ blanks.head?, Json.isNumberPart c = false := fun c hc =>
    Json.not_isNumberPart_of_isBlank (h c (List.mem_of_mem_head? hc))
  rw [Json.prettyText, String.toList_ofList]
  have hblanks : Blanks blanks [] := by simpa using Blanks.append h []
  exact ⟨_, _, .none, Json.reads_pretty settings.toJson 0 blanks hend, hblanks⟩

/-! ## Validity -/

theorem mem_all (setting : Setting) : setting ∈ Setting.all := by cases setting <;> decide

/-- Settings are valid if none of them is zero. -/
theorem validate_eq_ok_iff {settings : Settings} :
    settings.validate = .ok () ↔ ∀ setting, 0 < settings.get setting := by
  have hnone : Setting.all.find? (settings.get · == 0) = none ↔
      ∀ setting, 0 < settings.get setting := by
    simp [List.find?_eq_none, mem_all, UInt64.pos_iff_ne_zero]
  rw [← hnone, validate]
  split <;> simp_all

/-- The first zero in the order of declaration is named. -/
theorem validate_of_zero {settings : Settings} {setting : Setting} {before after : List Setting}
    (hall : Setting.all = before ++ setting :: after)
    (hbefore : ∀ earlier ∈ before, 0 < settings.get earlier) (hzero : settings.get setting = 0) :
    settings.validate = .error (zeroFailure setting) := by
  have hfirst : Setting.all.find? (settings.get · == 0) = some setting := by
    refine List.find?_eq_some_iff_append.mpr ⟨by simpa using hzero, before, after, hall, ?_⟩
    intro earlier hearlier
    simpa using UInt64.pos_iff_ne_zero.mp (hbefore earlier hearlier)
  rw [validate, hfirst]

/-! ## Files -/

theorem text_toUTF8 (text : String) : FileContent.text (.ok text.toUTF8) = .ok text := by
  have hvalid : text.toByteArray.IsValidUTF8 := text.isValidUTF8
  have hdecode : String.fromUTF8? text.toByteArray = some text := by
    rw [String.fromUTF8?, dif_pos hvalid]
    rfl
  simp [FileContent.text, Except.bind, hdecode]

/-- Settings in a file are loaded if they are valid, in any layout. -/
theorem load_of_content (path : String) {settings : Settings} {text : String}
    (h : Says text.toList settings.toJson.content) :
    load path (.ok text.toUTF8) = settings.validate.map fun _ => settings := by
  rw [load, text_toUTF8]
  simp only [parse, read_of_toJson h]

/-- Settings that were loaded are valid. -/
theorem validate_of_load {path : String} {content : FileContent} {settings : Settings}
    (h : load path content = .ok settings) : settings.validate = .ok () := by
  unfold load parse at h
  split at h
  · contradiction
  split at h
  · contradiction
  case h_2 loaded _ =>
    cases hvalid : loaded.validate with
    | error failure => simp [hvalid, Except.map] at h
    | ok =>
      simp only [hvalid, Except.map, Except.ok.injEq] at h
      exact h ▸ hvalid

/-- The three texts that settings are written as: on one line, on several lines, and these with
the line break that a command puts after them. -/
theorem says_of_written {settings : Settings} {text : String}
    (h : text ∈ [settings.text, settings.toJson.prettyText, settings.toJson.prettyText ++ "\n"]) :
    Says text.toList settings.toJson.content := by
  simp only [List.mem_cons, List.not_mem_nil, or_false] at h
  obtain rfl | rfl | rfl := h
  · exact says_text settings
  · simpa using says_prettyText settings [] (by simp)
  · simpa using says_prettyText settings ['\n'] (by simp [Json.isBlank])

/-- What is shown of settings that were loaded. -/
theorem text_output_checkConfig {path : String} {content : FileContent} {settings : Settings}
    (h : load path content = .ok settings) (level : Severity) :
    (CommandLine.Invocation.output ⟨level, .checkConfig path⟩ content).text =
      settings.toJson.prettyText ++ "\n" := by
  simp [CommandLine.Invocation.output, CommandLine.Command.path, h, CommandLine.Output.text]

/-- Settings in any written form are loaded as they are if all of them are positive; otherwise the
first zero in the order of declaration is named. Settings that were loaded from any content have
no zero, and what is shown of them is loaded as the same settings. -/
theorem written_loads_back (path : String) (settings : Settings) :
    (∀ text ∈ [settings.text, settings.toJson.prettyText, settings.toJson.prettyText ++ "\n"],
      ((∀ setting, 0 < settings.get setting) → load path (.ok text.toUTF8) = .ok settings) ∧
      ∀ before setting after, Setting.all = before ++ setting :: after →
        (∀ earlier ∈ before, 0 < settings.get earlier) → settings.get setting = 0 →
        load path (.ok text.toUTF8) =
          .error (.invalidSettings (setting.name ++ " must be > 0"))) ∧
    ∀ content, load path content = .ok settings →
      (∀ setting, 0 < settings.get setting) ∧
      ∀ level other, load other
          (.ok (CommandLine.Invocation.output ⟨level, .checkConfig path⟩ content).text.toUTF8) =
        .ok settings := by
  constructor
  · intro text htext
    rw [load_of_content path (says_of_written htext)]
    constructor
    · intro hpos
      rw [validate_eq_ok_iff.mpr hpos, Except.map]
    · intro before setting after hall hbefore hzero
      rw [validate_of_zero hall hbefore hzero, Except.map, zeroFailure]
  · intro content hload
    have hvalid := validate_of_load hload
    refine ⟨validate_eq_ok_iff.mp hvalid, fun level other => ?_⟩
    have hsaid : Says (settings.toJson.prettyText ++ "\n").toList settings.toJson.content :=
      says_of_written (by simp)
    rw [text_output_checkConfig hload, load_of_content other hsaid, hvalid, Except.map]

/-- The defaults come back from one line, and from what is shown of them; without a time for
aborting, the setting of that name is refused. -/
theorem written_defaults_load_back :
    load "a" (.ok default.text.toUTF8) = .ok default ∧
    load "b" (.ok (CommandLine.Invocation.output ⟨.info, .checkConfig "a"⟩
      (.ok default.text.toUTF8)).text.toUTF8) = .ok default ∧
    load "a" (.ok ({ default with abortSeconds := 0 } : Settings).toJson.prettyText.toUTF8) =
      .error (.invalidSettings "old_group_abort_timeout_seconds must be > 0") := by
  have hpos : ∀ setting, 0 < default.get setting := by
    intro setting
    cases setting <;> decide
  have hload := ((written_loads_back "a" default).1 _ List.mem_cons_self).1 hpos
  have hzero := ((written_loads_back "a" { default with abortSeconds := 0 }).1 _
    (List.mem_cons_of_mem _ List.mem_cons_self)).2
    [.slotCapacity, .sizeFixMillis, .relocateMillis] .abortSeconds [.sweepMillis] rfl (by decide)
    rfl
  exact ⟨hload, ((written_loads_back "a" default).2 _ hload).2 .info "b", hzero⟩

end Settings

end BatchedCommit
