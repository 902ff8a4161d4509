import BatchedCommit.Proofs.RoundTrip
import BatchedCommit.Proofs.Skimming

/-!
# BatchedCommit.Proofs.ObjectForm

Settings are loaded from an object whatever else is in it. The members may stand in any order,
their names may be spelled in any way, and members of other names may have any values
(`Settings.Member.Stands`, `Settings.IsObject`).

The induction is on the members before a place in the text (`Settings.Leading`), so it says what
was read up to there, whatever comes after.

* `readMember_of_stands`: one member gives its setting, or nothing;
* `readMembers_of_leading`: members give their settings, one member a step;
* `object_loads`: what is loaded, or refused, depends on the settings that are given, and not on
  their order, nor on anything else.
-/

namespace BatchedCommit

namespace Settings

open Json (Reads Blanks Name Characters Formed)

/-! ## Objects of settings -/

/-- A member of an object of settings. -/
inductive Member where
  /-- It gives a value to a setting. -/
  | given (setting : Setting) (value : UInt64)
  /-- Its name is that of no setting. -/
  | other (name : String)

/-- A member stands at the beginning of a text, with a rest after it. The name of a setting is
followed by a decimal number, any other name by a value of any form. -/
inductive Member.Stands : Member → List Char → List Char → Prop where
  | given {text colon start rest : List Char} {setting : Setting} {value : UInt64}
      (hname : Name text setting.name colon) (hbefore : Blanks colon start)
      (hvalue : Reads (.value (.number (Json.digits value.toNat))) start rest) :
      Stands (.given setting value) text rest
  | other {text colon start rest : List Char} {name : String} (hname : Name text name colon)
      (hother : ∀ setting : Setting, setting.name ≠ name) (hbefore : Blanks colon start)
      (hvalue : Formed .value start rest) : Stands (.other name) text rest

/-- Members at the beginning of a text, each with a comma after it. -/
inductive Leading : List Member → List Char → List Char → Prop where
  | none {text : List Char} : Leading [] text text
  | member {member : Member} {members : List Member} {text stop more rest : List Char}
      (h : member.Stands text stop) (hcomma : Blanks stop (',' :: more))
      (hmore : Leading members more rest) : Leading (member :: members) text rest

/-- A whole text is an object of these members. -/
inductive IsObject : List Member → List Char → Prop where
  | empty {text inside rest : List Char} (hopen : Blanks text ('{' :: inside))
      (hclose : Blanks inside ('}' :: rest)) (hend : Blanks rest []) : IsObject [] text
  | members {before : List Member} {last : Member} {text inside start stop rest : List Char}
      (hopen : Blanks text ('{' :: inside)) (hleading : Leading before inside start)
      (hlast : last.Stands start stop) (hclose : Blanks stop ('}' :: rest))
      (hend : Blanks rest []) : IsObject (before ++ [last]) text

/-- What a member gives. -/
def Member.given? : Member → Option (Setting × UInt64)
  | given setting value => some (setting, value)
  | other _ => none

/-- The settings that members give, in the order of the members. -/
def givenBy (members : List Member) : Given := members.filterMap Member.given?

/-! ## One member -/

theorem ofName?_eq_none {name : String} (h : ∀ setting : Setting, setting.name ≠ name) :
    Setting.ofName? name = none := by
  simpa [Setting.ofName?, List.find?_eq_none] using fun setting _ => h setting

theorem Member.Stands.length_lt {member : Member} {text rest : List Char}
    (h : member.Stands text rest) : rest.length < text.length := by
  cases h with
  | given hname hbefore hvalue =>
    have hcolon := hname.length_lt
    have hstart := hbefore.length_le
    have hrest := hvalue.formed.length_lt
    omega
  | other hname hother hbefore hvalue =>
    have hcolon := hname.length_lt
    have hstart := hbefore.length_le
    have hrest := hvalue.length_lt
    omega

/-- One member is read from its name on: it gives its setting, if that was not given before, or
nothing. -/
theorem readMember_of_stands {given : Given} {member : Member} {text rest : List Char}
    (h : member.Stands text rest)
    (hfresh : ∀ pair ∈ member.given?, given.lookup pair.1 = none) :
    ∃ inside, Blanks text ('"' :: inside) ∧
      readMember given inside = .ok (member.given?.toList ++ given, rest) := by
  cases h with
  | given hname hbefore hvalue =>
    obtain ⟨inside, after, hopen, hchars, hcolon⟩ := hname.parts
    exact ⟨inside, hopen,
      readMember_of_reads hchars hcolon hbefore hvalue (hfresh _ rfl)⟩
  | other hname hother hbefore hvalue =>
    obtain ⟨inside, after, hopen, hchars, hcolon⟩ := hname.parts
    refine ⟨inside, hopen, ?_⟩
    have hstring := hchars.readString []
    have hpass := passColon_of_blanks hcolon
    have hskip := Json.skipValue_of_formed hbefore hvalue
    simp [readMember, hstring, ofName?_eq_none hother, hpass, Except.bind, hskip, Member.given?]

/-! ## Members -/

/-- Members are read, one member a step, up to a place where another member begins. They give
their settings, which were not given before, each of them once. -/
theorem readMembers_of_leading (fuel : Nat) (isFirst : Bool) (given : Given)
    {members : List Member} {text rest : List Char} (h : Leading members text rest)
    (hnodup : ((givenBy members).map Prod.fst).Nodup)
    (hfresh : ∀ setting ∈ (givenBy members).map Prod.fst, given.lookup setting = none) :
    readMembers (fuel + members.length) isFirst given (opening isFirst text) =
      readMembers fuel (isFirst && members.isEmpty) ((givenBy members).reverse ++ given)
        (opening (isFirst && members.isEmpty) rest) := by
  induction h generalizing isFirst given with
  | none => simp [givenBy]
  | @member member members text stop more rest hmember hcomma hmore ih =>
    have hgivenBy : givenBy (member :: members) = member.given?.toList ++ givenBy members := by
      cases member <;> rfl
    rw [hgivenBy, List.map_append, List.nodup_append] at hnodup
    rw [hgivenBy, List.map_append] at hfresh
    have hone : ∀ pair ∈ member.given?, given.lookup pair.1 = none := fun pair hpair =>
      hfresh pair.1 (List.mem_append_left _ (List.mem_map_of_mem (Option.mem_toList.mpr hpair)))
    obtain ⟨inside, hopen, hread⟩ := readMember_of_stands hmember hone
    have hrest : ∀ setting ∈ (givenBy members).map Prod.fst,
        List.lookup setting (member.given?.toList ++ given) = none := by
      intro setting hsetting
      have hbefore := hfresh setting (List.mem_append_right _ hsetting)
      cases hgiven : member.given? with
      | none => exact hbefore
      | some pair =>
        have hne : setting ≠ pair.1 := fun hsame =>
          hnodup.2.2 pair.1 (by simp [hgiven]) setting hsetting hsame.symm
        rwa [Option.toList_some, List.singleton_append, List.lookup_cons,
          beq_eq_false_iff_ne.mpr hne]
    have hstep := @ih false (member.given?.toList ++ given) hnodup.2.1 hrest
    rw [List.length_cons, ← Nat.add_assoc, readMembers_step hopen hread,
      readMembers_skip hcomma rfl]
    have hreverse : member.given?.toList.reverse = member.given?.toList := by
      cases member <;> rfl
    simpa [opening, hgivenBy, hreverse] using hstep

/-- Members at the beginning of a text take something off it, each of them. -/
theorem Leading.length_le {members : List Member} {text rest : List Char}
    (h : Leading members text rest) : rest.length + members.length ≤ text.length := by
  induction h with
  | none => exact Nat.le_refl _
  | member hmember hcomma hmore ih =>
    have hstop := hmember.length_lt
    have hmore := hcomma.length_le
    simp only [List.length_cons] at hmore ⊢
    omega

/-! ## Whole objects -/

/-- An object is read as the settings that its members give. -/
theorem readGiven_of_isObject {members : List Member} {text : List Char}
    (h : IsObject members text) (hnodup : ((givenBy members).map Prod.fst).Nodup) :
    ∃ rest, readGiven text = .ok ((givenBy members).reverse, rest) ∧ Blanks rest [] := by
  cases h with
  | @empty text inside rest hopen hclose hend =>
    refine ⟨rest, ?_, hend⟩
    simp only [readGiven, hopen.skipBlanks rfl]
    exact readMembers_end hclose
  | @members before last text inside start stop rest hopen hleading hlast hclose hend =>
    have hgivenBy : givenBy (before ++ [last]) = givenBy before ++ last.given?.toList := by
      cases last <;> simp [givenBy, Member.given?]
    rw [hgivenBy, List.map_append, List.nodup_append] at hnodup
    have hfresh : ∀ pair ∈ last.given?, ((givenBy before).reverse ++ []).lookup pair.1 = none := by
      intro pair hpair
      simp only [List.append_nil, List.lookup_eq_none_iff, List.mem_reverse, bne_iff_ne]
      intro earlier hearlier
      exact (hnodup.2.2 earlier.1 (List.mem_map_of_mem hearlier) pair.1
        (List.mem_map_of_mem (Option.mem_toList.mpr hpair))).symm
    obtain ⟨name, hname, hread⟩ := readMember_of_stands hlast hfresh
    -- every member takes a step, and so does the end of the object
    obtain ⟨fuel, hfuel⟩ : ∃ fuel, inside.length + 1 = (fuel + 1 + 1) + before.length := by
      have hbefore := hleading.length_le
      have hstop := hlast.length_lt
      exact ⟨inside.length - 1 - before.length, by omega⟩
    refine ⟨rest, ?_, hend⟩
    have hmembers := readMembers_of_leading (fuel + 1 + 1) true [] hleading hnodup.1 (by simp)
    simp only [readGiven, hopen.skipBlanks rfl]
    rw [hfuel]
    refine Eq.trans hmembers ((readMembers_step hname hread).trans ?_)
    rw [readMembers_end hclose, hgivenBy]
    cases last <;> simp [Member.given?]

/-- Where no setting is given twice, the settings that are found are those that are given. -/
theorem lookup_eq_some_iff_mem {given : Given} (hnodup : (given.map Prod.fst).Nodup)
    {setting : Setting} {value : UInt64} :
    given.lookup setting = some value ↔ (setting, value) ∈ given := by
  rw [List.lookup_eq_some_iff]
  constructor
  · rintro ⟨before, after, rfl, -⟩
    simp
  · intro hmem
    obtain ⟨before, after, rfl⟩ := List.append_of_mem hmem
    rw [List.map_append, List.nodup_append] at hnodup
    refine ⟨before, after, rfl, fun earlier hearlier => bne_iff_ne.mpr ?_⟩
    exact (hnodup.2.2 earlier.1 (List.mem_map_of_mem hearlier) setting (by simp)).symm

/-- The value that a setting has where these settings are given. -/
def valueIn (given : Given) (setting : Setting) : UInt64 :=
  (given.lookup setting).getD setting.default

/-- Where no setting is given twice, the order does not matter. -/
theorem valueIn_of_perm {given other : Given} (h : given.Perm other)
    (hnodup : (given.map Prod.fst).Nodup) : valueIn given = valueIn other := by
  have hlookup : ∀ setting, given.lookup setting = other.lookup setting := by
    intro setting
    refine Option.ext fun value => ?_
    rw [lookup_eq_some_iff_mem hnodup,
      lookup_eq_some_iff_mem ((h.map Prod.fst).nodup_iff.mp hnodup), h.mem_iff]
  funext setting
  rw [valueIn, valueIn, hlookup]

/-- What was read is loaded, with the defaults of the settings that were not given. -/
theorem load_of_readGiven (path : String) {given : Given} {text : String} {rest : List Char}
    (h : readGiven text.toList = .ok (given.reverse, rest)) (hend : Blanks rest [])
    (hnodup : (given.map Prod.fst).Nodup) :
    load path (.ok text.toUTF8) =
      (ofValues (valueIn given)).validate.map fun _ => ofValues (valueIn given) := by
  have hvalues : ofGiven given.reverse = ofValues (valueIn given) :=
    congrArg ofValues (valueIn_of_perm (List.reverse_perm _).symm hnodup).symm
  rw [load, text_toUTF8]
  simp only [parse, read, h, hend.skipBlanks_nil, List.isEmpty_nil, if_true, hvalues]

/-- An object loads as the settings that are given in it, with the defaults of the others. -/
theorem load_of_isObject (path : String) {members : List Member} {text : String}
    (h : IsObject members text.toList) (hnodup : ((givenBy members).map Prod.fst).Nodup) :
    load path (.ok text.toUTF8) =
      (ofValues (valueIn (givenBy members))).validate.map
        fun _ => ofValues (valueIn (givenBy members)) := by
  obtain ⟨rest, hread, hend⟩ := readGiven_of_isObject h hnodup
  exact load_of_readGiven path hread hend hnodup

/-- Settings are loaded from an object in which each of them is given at most once, in any order
and among members of other names, which may have any values: those that are given have the values
that are given, and the others their defaults, if all of these are positive. Otherwise the first
zero in the order of declaration is named. Nothing but what is given makes a difference, in
whatever order it is given. -/
theorem object_loads (path : String) {members : List Member} {text : String}
    (h : IsObject members text.toList) (hnodup : ((givenBy members).map Prod.fst).Nodup) :
    ((∀ setting, 0 < valueIn (givenBy members) setting) →
      load path (.ok text.toUTF8) = .ok (ofValues (valueIn (givenBy members)))) ∧
    (∀ before setting after, Setting.all = before ++ setting :: after →
      (∀ earlier ∈ before, 0 < valueIn (givenBy members) earlier) →
      valueIn (givenBy members) setting = 0 →
      load path (.ok text.toUTF8) =
        .error (.invalidSettings (setting.name ++ " must be > 0"))) ∧
    ∀ (other : String) (others : List Member) (place : String), IsObject others other.toList →
      (givenBy others).Perm (givenBy members) →
      load place (.ok other.toUTF8) = load path (.ok text.toUTF8) := by
  rw [load_of_isObject path h hnodup]
  refine ⟨fun hpos => ?_, fun before setting after hall hbefore hzero => ?_,
    fun other others place hother hperm => ?_⟩
  · rw [validate_eq_ok_iff.mpr (by simpa using hpos), Except.map]
  · rw [validate_of_zero hall (by simpa using hbefore) (by simpa using hzero), Except.map,
      zeroFailure]
  · have hsame := hperm.map Prod.fst
    rw [load_of_isObject place hother (hsame.nodup_iff.mpr hnodup),
      valueIn_of_perm hperm (hsame.nodup_iff.mpr hnodup)]

/-- The number of a setting, by its digits. -/
theorem reads_digits (value : UInt64) {rest : List Char}
    (hend : ∀ c ∈ rest.head?, Json.isNumberPart c = false) :
    Reads (.value (.number (Json.digits value.toNat))) (Json.digits value.toNat ++ rest) rest :=
  .number (Json.isNumber_digits _) rfl hend

/-- Two zeros are given: the one that is declared first is named, though it stands last and its name
is spelled with an escape. The number between them is out of range, the name inside is no string,
and a name comes twice. An object that gives one setting leaves the others to their defaults. -/
theorem object_of_two_zeros :
    load "a" (.ok ("\x7b\"old_group_abort_timeout_seconds\":0, \"x\": [1e999, " ++
        "\x7b\"\\ud800\": []\x7d],\"\\u0073lot_capacity\" :0,\"x\":null\x7d\n").toUTF8) =
      .error (.invalidSettings "slot_capacity must be > 0") ∧
    load "a" (.ok "\x7b \"timeout_check_interval_millis\":5\x7d".toUTF8) =
      .ok { default with sweepMillis := 5 } := by
  have hx : ∀ setting : Setting, setting.name ≠ "x" := by
    intro setting
    cases setting <;> decide
  have hdigits : ∀ text : List Char, text.isEmpty = false → text.all Char.isDigit = true →
      Json.IsDigits text := fun text hsome hall =>
    ⟨fun hnil => absurd hsome (by rw [hnil]; decide), List.all_eq_true.mp hall⟩
  have hlarge : Json.IsNumber "1e999".toList :=
    ⟨[], ['1'], [], "e999".toList, .inl rfl, ⟨hdigits _ rfl rfl, by decide⟩, .inl rfl,
      .inr ⟨'e', [], "999".toList, .inl rfl, .inl rfl, hdigits _ rfl rfl, rfl⟩, rfl⟩
  have hends : ∀ (c : Char) (rest : List Char), Json.isNumberPart c = false →
      ∀ first ∈ (c :: rest).head?, Json.isNumberPart first = false := by simp
  have hunit : ∀ rest, Json.CodeUnit ('0' :: '0' :: '7' :: '3' :: rest) 0x73 rest := fun rest =>
    (.mk rfl rfl rfl rfl : Json.CodeUnit _ (16 * (16 * (16 * 0 + 0) + 7) + 3) rest)
  have hslot : Name "\"\\u0073lot_capacity\" :0,\"x\":null\x7d\n".toList
      Setting.slotCapacity.name "0,\"x\":null\x7d\n".toList := by
    have hname : String.ofList ('s' :: "lot_capacity".toList) = Setting.slotCapacity.name := rfl
    rw [← hname]
    simp only [String.reduceToList]
    exact .mk .none (.next (.unit (hunit _) rfl rfl) (Json.characters_flatMap_escape
      ['l', 'o', 't', '_', 'c', 'a', 'p', 'a', 'c', 'i', 't', 'y'] _)) (.blank (by rfl) .none)
  have htwo : IsObject [.given .abortSeconds 0, .other "x", .given .slotCapacity 0, .other "x"]
      ("\x7b\"old_group_abort_timeout_seconds\":0, \"x\": [1e999, " ++
        "\x7b\"\\ud800\": []\x7d],\"\\u0073lot_capacity\" :0,\"x\":null\x7d\n").toList := by
    simp only [String.reduceToList, String.reduceAppend] at hslot hlarge ⊢
    rw [show ∀ a b c d : Member, [a, b, c, d] = [a, b, c] ++ [d] from fun _ _ _ _ => rfl]
    refine .members .none
      (.member (.given (Json.name_quote _ .none) .none (reads_digits 0 (hends _ _ rfl))) .none
        (.member (.other (Json.name_quote _ (.blank (by rfl) .none)) hx (.blank (by rfl) .none) ?_)
          .none
          (.member (.given hslot .none (reads_digits 0 (hends _ _ rfl))) .none .none)))
      (.other (Json.name_quote _ .none) hx .none .null) .none (.blank (by rfl) .none)
    refine .arr (.item .none (.number hlarge ?_) .none (.lastItem (.blank rfl .none) ?_ .none))
    · exact hends _ _ rfl
    · exact .obj (.lastMember .none (.next (.unit (.mk rfl rfl rfl rfl)) .close) .none
        (.blank rfl .none) (.emptyArr .none) .none)
  have hone : IsObject [.given .sweepMillis 5]
      "\x7b \"timeout_check_interval_millis\":5\x7d".toList := by
    simp only [String.reduceToList]
    rw [← List.nil_append [Member.given _ _]]
    exact .members .none .none
      (.given (Json.name_quote _ (.blank rfl .none)) .none (reads_digits 5 (hends _ _ rfl)))
      .none .none
  exact ⟨(object_loads "a" htwo (by decide)).2.1 [] .slotCapacity _ rfl (by simp) rfl,
    (object_loads "a" hone (by decide)).1 (by intro setting; cases setting <;> decide)⟩

end Settings

end BatchedCommit
