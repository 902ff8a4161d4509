import BatchedCommit.Log
import BatchedCommit.Proofs.Written

/-!
# BatchedCommit.Proofs.LogLines

A log line can be read back. Whatever stands in the event and in the fields, a line is one object
and one line break, and what it says by the grammar of JSON is the event, the severity and the
fields in their order. Quotes, backslashes and line breaks in a value do not get out of it.

* `Utf8.bytes_of_le`: strings that are compared character by character are compared by their
  bytes in UTF-8;
* `Log.stablySorted_sortFields`: the fields are sorted by the bytes of their keys, and fields of one
  key stay in their order;
* `Log.lines_read_back`: what a line says, and that equal lines say the same.
-/

namespace BatchedCommit

namespace Utf8

/-! ## The order of bytes -/

/-- The bytes of a string in UTF-8. -/
def bytes (text : String) : List UInt8 := text.toUTF8.data.toList

theorem bytes_eq_flatMap (text : String) :
    bytes text = text.toList.flatMap String.utf8EncodeChar := by
  rw [bytes, String.toUTF8_eq_toByteArray, ← String.utf8Encode_toList, List.utf8Encode,
    List.toList_data_toByteArray]

/-- Bytes are compared one by one, and the first difference counts; what ends first comes first. -/
def Precedes (front back : List UInt8) : Prop :=
  List.Lex (fun x y => x.toNat < y.toNat) front back

theorem precedes_cons_of_lt {a b : Nat} (h : a < b) (hbyte : b < 256) (s t : List UInt8) :
    Precedes (UInt8.ofNat a :: s) (UInt8.ofNat b :: t) := by
  have hfirst : (UInt8.ofNat a).toNat < (UInt8.ofNat b).toNat := by
    simp only [UInt8.toNat_ofNat']
    omega
  exact .rel hfirst

theorem precedes_append (front : List UInt8) {s t : List UInt8} (h : Precedes s t) :
    Precedes (front ++ s) (front ++ t) := by
  induction front with
  | nil => exact h
  | cons byte front ih => exact .cons ih

/-- What a number leaves to its first byte, when `more` bytes of six bits each come after that. -/
def lead : Nat → Nat → Nat
  | 0, n => n
  | more + 1, n => lead more (n / 64)

/-- A number in a first byte, on lead of a mark, and in `more` bytes of six bits each. -/
def spread (mark : Nat) : Nat → Nat → List UInt8
  | 0, n => [UInt8.ofNat (n + mark)]
  | more + 1, n => spread mark more (n / 64) ++ [UInt8.ofNat (n % 64 + 0x80)]

/-- The bytes of a smaller number come first, whatever follows. -/
theorem precedes_spread (mark more : Nat) {m n : Nat} (h : m < n)
    (hmax : lead more n + mark < 256) (s t : List UInt8) :
    Precedes (spread mark more m ++ s) (spread mark more n ++ t) := by
  induction more generalizing m n s t with
  | zero =>
    rw [lead] at hmax
    exact precedes_cons_of_lt (by omega) hmax s t
  | succ more ih =>
    rw [spread, spread, List.append_assoc, List.append_assoc]
    by_cases hfront : m / 64 < n / 64
    · exact ih hfront hmax _ _
    · have hsame : m / 64 = n / 64 := by omega
      rw [hsame]
      exact precedes_append _ (precedes_cons_of_lt (by omega) (by omega) s t)

/-- The bytes of a smaller character come first, whatever follows. -/
theorem precedes_utf8EncodeChar {c d : Char} (h : c < d) (s t : List UInt8) :
    Precedes (String.utf8EncodeChar c ++ s) (String.utf8EncodeChar d ++ t) := by
  have hlt : c.val.toNat < d.val.toNat := h
  have hmax : d.val.toNat < 0x110000 := by
    have hvalid := d.valid
    simp only [UInt32.isValidChar, Nat.isValidChar] at hvalid
    omega
  simp only [String.utf8EncodeChar]
  generalize c.val.toNat = m at *
  generalize d.val.toNat = n at *
  -- A character that takes up more bytes has a greater first byte.
  split <;> split <;> (try split) <;> (try split) <;> (try split) <;> (try split) <;>
    first | omega | exact precedes_cons_of_lt (by omega) (by omega) _ _ | skip
  · have hbytes := precedes_spread 0xc0 1 hlt (by simp only [lead]; omega) s t
    simpa (disch := omega) [spread, Nat.mod_eq_of_lt] using hbytes
  · have hbytes := precedes_spread 0xe0 2 hlt (by simp only [lead]; omega) s t
    simpa (disch := omega) [spread, Nat.div_div_eq_div_mul, Nat.mod_eq_of_lt] using hbytes
  · have hbytes := precedes_spread 0xf0 3 hlt (by simp only [lead]; omega) s t
    simpa (disch := omega) [spread, Nat.div_div_eq_div_mul, Nat.mod_eq_of_lt] using hbytes

theorem precedes_flatMap {text other : List Char} (h : List.Lex (fun c d => c < d) text other) :
    Precedes (text.flatMap String.utf8EncodeChar) (other.flatMap String.utf8EncodeChar) := by
  induction h with
  | nil =>
    rw [List.flatMap_nil, List.flatMap_cons]
    obtain ⟨byte, more, hbytes⟩ := List.exists_cons_of_ne_nil String.utf8EncodeChar_ne_nil
    rw [hbytes]
    exact .nil
  | rel h => exact precedes_utf8EncodeChar h _ _
  | cons h ih => exact precedes_append _ ih

/-- The order of strings is that of their bytes. -/
theorem bytes_of_le {text other : String} (h : text ≤ other) :
    text = other ∨ Precedes (bytes text) (bytes other) := by
  by_cases hsame : text = other
  · exact .inl hsame
  · have hlt : text < other := by
      rw [← String.not_le]
      exact fun hback => hsame (String.le_antisymm h hback)
    rw [bytes_eq_flatMap, bytes_eq_flatMap]
    exact .inr (precedes_flatMap (String.lt_iff.mp hlt))

end Utf8

namespace Log

/-! ## Sorted fields -/

/-- Fields in the order of the bytes of their keys; fields of one key stay in their order. -/
structure StablySorted (fields sorted : List (String × String)) : Prop where
  perm : sorted.Perm fields
  ordered : sorted.Pairwise fun field later =>
    field.1 = later.1 ∨ Utf8.Precedes (Utf8.bytes field.1) (Utf8.bytes later.1)
  stable : ∀ key, sorted.filter (·.1 == key) = fields.filter (·.1 == key)

theorem keys_trans (a b c : String × String) (hab : decide (a.1 ≤ b.1) = true)
    (hbc : decide (b.1 ≤ c.1) = true) : decide (a.1 ≤ c.1) = true := by
  rw [decide_eq_true_eq] at *
  exact String.le_trans hab hbc

theorem keys_total (a b : String × String) :
    (decide (a.1 ≤ b.1) || decide (b.1 ≤ a.1)) = true := by
  simpa using String.le_total a.1 b.1

theorem pairwise_sortFields (fields : List (String × String)) :
    (sortFields fields).Pairwise fun field later => field.1 ≤ later.1 := by
  simpa [sortFields] using List.pairwise_mergeSort keys_trans keys_total fields

/-- The fields of one key are in order from the beginning, and so they stay as they are. -/
theorem filter_sortFields (fields : List (String × String)) (key : String) :
    (sortFields fields).filter (·.1 == key) = fields.filter (·.1 == key) := by
  have hordered : (fields.filter (·.1 == key)).Pairwise fun a b => decide (a.1 ≤ b.1) = true := by
    rw [List.pairwise_iff_forall_sublist]
    intro a b hpair
    have ha : a ∈ fields.filter (·.1 == key) := hpair.subset (by simp)
    have hb : b ∈ fields.filter (·.1 == key) := hpair.subset (by simp)
    simp only [List.mem_filter, beq_iff_eq] at ha hb
    simp [ha.2, hb.2]
  have hkept := List.sublist_mergeSort keys_trans keys_total hordered List.filter_sublist
  have hsub : (fields.filter (·.1 == key)).Sublist ((sortFields fields).filter (·.1 == key)) := by
    simpa [sortFields] using hkept.filter (·.1 == key)
  exact (hsub.eq_of_length ((List.mergeSort_perm fields _).filter _).length_eq.symm).symm

theorem stablySorted_sortFields (fields : List (String × String)) :
    StablySorted fields (sortFields fields) where
  perm := List.mergeSort_perm _ _
  ordered := (pairwise_sortFields fields).imp Utf8.bytes_of_le
  stable := filter_sortFields fields

/-! ## Lines -/

/-- What a line says: the event, the severity and the fields in their order. -/
def members (severity : Severity) (event : String) (fields : List (String × String)) :
    List (String × Json.Content) :=
  ("event", .str event) :: ("severity", .str severity.name) ::
    (sortFields fields).map fun field => (field.1, .str field.2)

theorem memberContents_map_str (fields : List (String × String)) :
    Json.memberContents (fields.map fun (key, value) => (key, .str value)) =
      fields.map fun field => (field.1, .str field.2) := by
  induction fields with
  | nil => rfl
  | cons field fields ih => simp [Json.memberContents, Json.content, ih]

theorem content_entry (severity : Severity) (event : String) (fields : List (String × String)) :
    (entry severity event fields).content = .obj (members severity event fields) := by
  simp [entry, members, Json.content, Json.memberContents, memberContents_map_str]

/-- A line is read as its members, and what follows is left. -/
theorem reads_entry (severity : Severity) (event : String) (fields : List (String × String))
    (rest : List Char) (hend : ∀ c ∈ rest.head?, Json.isNumberPart c = false) :
    Json.Reads (.value (.obj (members severity event fields)))
      ((entry severity event fields).compact ++ rest) rest := by
  rw [← content_entry]
  exact Json.reads_compact _ rest hend

/-- A line is one object without control characters, and a line break. -/
theorem line_eq_append (severity : Severity) (event : String) (fields : List (String × String)) :
    ∃ text, line severity event fields = text ++ ['\n'] ∧ Json.Printable text ∧
      Json.Reads (.value (.obj (members severity event fields))) text [] := by
  have hread := reads_entry severity event fields [] (by simp)
  rw [List.append_nil] at hread
  exact ⟨_, rfl, Json.compact_printable _, hread⟩

/-- A line says its members, and nothing else. -/
theorem says_line_iff {severity : Severity} {event : String} {fields : List (String × String)}
    {content : Json.Content} :
    Json.Says (line severity event fields) content ↔
      content = .obj (members severity event fields) := by
  have hsaid : Json.Says (line severity event fields) (.obj (members severity event fields)) :=
    ⟨_, _, .none, reads_entry severity event fields ['\n'] (by simp [Json.isNumberPart]),
      .blank rfl .none⟩
  constructor
  · exact fun hother => hother.unique hsaid
  · rintro rfl
    exact hsaid

theorem name_inj {severity other : Severity} (h : severity.name = other.name) :
    severity = other := by
  cases severity <;> cases other <;> simp_all [Severity.name]

theorem members_inj {severity severity' : Severity} {event event' : String}
    {fields fields' : List (String × String)}
    (h : members severity event fields = members severity' event' fields') :
    severity = severity' ∧ event = event' ∧ sortFields fields = sortFields fields' := by
  simp only [members, List.cons.injEq, Prod.mk.injEq, Json.Content.str.injEq, true_and] at h
  obtain ⟨hevent, hname, hfields⟩ := h
  have hinj : Function.Injective fun field : String × String =>
      (field.1, Json.Content.str field.2) := by
    intro a b hab
    simpa [Prod.ext_iff] using hab
  exact ⟨name_inj hname, hevent, (List.map_inj_right hinj).mp hfields⟩

/-- Two lines are equal where the severity, the event and the sorted fields are. -/
theorem line_eq_line_iff {severity severity' : Severity} {event event' : String}
    {fields fields' : List (String × String)} :
    line severity event fields = line severity' event' fields' ↔
      severity = severity' ∧ event = event' ∧ sortFields fields = sortFields fields' := by
  constructor
  · intro hline
    have hsaid := says_line_iff.mpr (Eq.refl (Json.Content.obj (members severity event fields)))
    rw [hline, says_line_iff] at hsaid
    exact members_inj (Json.Content.obj.inj hsaid)
  · rintro ⟨rfl, rfl, hfields⟩
    rw [line, line, entry, entry, hfields]

/-- What is written for an event, with the line break after it, is its line. -/
theorem map_write? (log : Log) (severity : Severity) (event : String)
    (fields : List (String × String)) :
    (log.write? severity event fields).map (fun captured => captured.text.toList ++ ['\n']) =
      if log.isEnabled severity then some (line severity event fields) else none := by
  unfold write?
  split <;> simp [line, Json.compactText]

/-- A line is one object and a line break after it, and no other character in it is a control
character. By the grammar of JSON the line says the event, the severity and then the fields, with
every string as it was given, and the fields in a stable order by the bytes of their keys; it says
nothing else. So two lines are equal only where all of that is. What is written for an event is
its line. -/
theorem lines_read_back (log : Log) (severity : Severity) (event : String)
    (fields : List (String × String)) :
    (∃ text, line severity event fields = text ++ ['\n'] ∧ Json.Printable text ∧
      Json.Reads (.value (.obj (members severity event fields))) text []) ∧
    (∀ content, Json.Says (line severity event fields) content ↔
      content = .obj (members severity event fields)) ∧
    StablySorted fields (sortFields fields) ∧
    (∀ severity' event' fields', line severity event fields = line severity' event' fields' ↔
      severity = severity' ∧ event = event' ∧ sortFields fields = sortFields fields') ∧
    (log.write? severity event fields).map (fun captured => captured.text.toList ++ ['\n']) =
      if log.isEnabled severity then some (line severity event fields) else none :=
  ⟨line_eq_append severity event fields, fun _ => says_line_iff, stablySorted_sortFields fields,
    fun _ _ _ => line_eq_line_iff, map_write? log severity event fields⟩

/-- A quote and a line break in the fields stay in their values, and the fields are sorted. -/
theorem line_of_line_break :
    Json.Says (line .warn "LOST" [("key", "a\"b"), ("at", "1\n2")])
      (.obj [("event", .str "LOST"), ("severity", .str "WARN"), ("at", .str "1\n2"),
        ("key", .str "a\"b")]) := by
  have hsorted : sortFields [("key", "a\"b"), ("at", "1\n2")] =
      [("at", "1\n2"), ("key", "a\"b")] := by
    simp [sortFields, List.mergeSort]
  refine ((lines_read_back {} .warn "LOST" _).2.1 _).mpr ?_
  rw [members, hsorted]
  rfl

end Log

end BatchedCommit
