import BatchedCommit.Json.Skip
import BatchedCommit.Proofs.Grammar

/-!
# BatchedCommit.Proofs.Skimming

A value whose contents do not matter is passed over if it has the form of a JSON value
(`Json.Formed`). The form is that of the grammar without what is said: a surrogate may stand
alone in a string, a number may be of any size, and arrays and objects may be nested to any depth.

The induction is on the form. It is carried by what happens to the frames around a part: the
skipper comes out of the part at its end, with the frames that were open before it
(`Json.resume`).

* `Reads.formed`: whatever says something has the form;
* `skip_number`: a number is passed over, by its whole part, its fraction and its exponent;
* `skipValue_of_formed`: a value is passed over, blanks before it included, and nothing after it.
-/

namespace BatchedCommit

namespace Json

/-! ## Forms -/

/-- One symbol of a string, whether it stands for a character or not. -/
inductive Symbol : List Char → List Char → Prop where
  /-- It is written as it is, -/
  | plain {c : Char} {rest : List Char} (hquote : c ≠ '"') (hescape : c ≠ '\\')
      (hcontrol : 0x20 ≤ c.toNat) : Symbol (c :: rest) rest
  /-- has a short escape, -/
  | short {mark c : Char} {rest : List Char} (h : shortEscape? mark = some c) :
      Symbol ('\\' :: mark :: rest) rest
  /-- or is a code unit, which may be a surrogate. -/
  | unit {text rest : List Char} {unit : Nat} (h : CodeUnit text unit rest) :
      Symbol ('\\' :: 'u' :: text) rest

/-- The symbols of a string and the quote that closes it. -/
inductive Symbols : List Char → List Char → Prop where
  | close {rest : List Char} : Symbols ('"' :: rest) rest
  | next {text middle rest : List Char} (hfirst : Symbol text middle)
      (hrest : Symbols middle rest) : Symbols text rest

/-- What a part of a text is. -/
inductive PartKind where
  /-- A value. -/
  | value
  /-- The items of an array, with its end. -/
  | items
  /-- The members of an object, with its end. -/
  | members

/-- A part of a kind stands at the beginning of a text, with a rest after it. -/
inductive Formed : PartKind → List Char → List Char → Prop where
  | null {rest : List Char} : Formed .value ('n' :: 'u' :: 'l' :: 'l' :: rest) rest
  | yes {rest : List Char} : Formed .value ('t' :: 'r' :: 'u' :: 'e' :: rest) rest
  | no {rest : List Char} : Formed .value ('f' :: 'a' :: 'l' :: 's' :: 'e' :: rest) rest
  | number {lexeme rest : List Char} (hnumber : IsNumber lexeme)
      (hend : ∀ c ∈ rest.head?, isNumberPart c = false) : Formed .value (lexeme ++ rest) rest
  | str {text rest : List Char} (h : Symbols text rest) : Formed .value ('"' :: text) rest
  | emptyArr {text rest : List Char} (h : Blanks text (']' :: rest)) :
      Formed .value ('[' :: text) rest
  | arr {text rest : List Char} (h : Formed .items text rest) : Formed .value ('[' :: text) rest
  | emptyObj {text rest : List Char} (h : Blanks text ('}' :: rest)) :
      Formed .value ('{' :: text) rest
  | obj {text rest : List Char} (h : Formed .members text rest) : Formed .value ('{' :: text) rest
  | lastItem {text start stop rest : List Char} (hbefore : Blanks text start)
      (hvalue : Formed .value start stop) (hafter : Blanks stop (']' :: rest)) :
      Formed .items text rest
  | item {text start stop more rest : List Char} (hbefore : Blanks text start)
      (hvalue : Formed .value start stop) (hafter : Blanks stop (',' :: more))
      (hmore : Formed .items more rest) : Formed .items text rest
  | lastMember {text inside after colon start stop rest : List Char}
      (hopen : Blanks text ('"' :: inside)) (hname : Symbols inside after)
      (hcolon : Blanks after (':' :: colon)) (hbefore : Blanks colon start)
      (hvalue : Formed .value start stop) (hafter : Blanks stop ('}' :: rest)) :
      Formed .members text rest
  | member {text inside after colon start stop more rest : List Char}
      (hopen : Blanks text ('"' :: inside)) (hname : Symbols inside after)
      (hcolon : Blanks after (':' :: colon)) (hbefore : Blanks colon start)
      (hvalue : Formed .value start stop) (hafter : Blanks stop (',' :: more))
      (hmore : Formed .members more rest) : Formed .members text rest

/-! ## What says something has the form -/

/-- A character is one symbol, or two where it is a pair of surrogates. -/
theorem Character.symbols {text middle rest : List Char} {c : Char}
    (h : Character text c middle) (hrest : Symbols middle rest) : Symbols text rest := by
  cases h with
  | plain hquote hescape hcontrol => exact .next (.plain hquote hescape hcontrol) hrest
  | short h => exact .next (.short h) hrest
  | unit h => exact .next (.unit h) hrest
  | pair hfirst hsecond => exact .next (.unit hfirst) (.next (.unit hsecond) hrest)

theorem Characters.symbols {text value rest : List Char} (h : Characters text value rest) :
    Symbols text rest := by
  induction h with
  | close => exact .close
  | next hfirst hrest ih => exact hfirst.symbols ih

/-- The kind of a part. -/
def Part.kind : Part → PartKind
  | .value _ => .value
  | .items _ => .items
  | .members _ => .members

/-- Whatever says something has the form. -/
theorem Reads.formed {part : Part} {text rest : List Char} (h : Reads part text rest) :
    Formed part.kind text rest := by
  induction h with
  | null => exact .null
  | yes => exact .yes
  | no => exact .no
  | number hnumber htext hend => exact htext ▸ .number hnumber hend
  | str h => exact .str h.symbols
  | emptyArr h => exact .emptyArr h
  | arr h ih => exact .arr ih
  | emptyObj h => exact .emptyObj h
  | obj h ih => exact .obj ih
  | lastItem hbefore hvalue hafter ih => exact .lastItem hbefore ih hafter
  | item hbefore hvalue hafter hmore ih ihmore => exact .item hbefore ih hafter ihmore
  | lastMember hname hbefore hvalue hafter ih =>
    obtain ⟨inside, after, hopen, hchars, hcolon⟩ := hname.parts
    exact .lastMember hopen hchars.symbols hcolon hbefore ih hafter
  | member hname hbefore hvalue hafter hmore ih ihmore =>
    obtain ⟨inside, after, hopen, hchars, hcolon⟩ := hname.parts
    exact .member hopen hchars.symbols hcolon hbefore ih hafter ihmore

/-- A value of any form begins with a character that is no blank, no comma and no end. -/
theorem Formed.cons {text rest : List Char} (h : Formed .value text rest) :
    ∃ c more, text = c :: more ∧ startsValue c = true := by
  cases h with
  | @number lexeme rest hnumber hend =>
    obtain ⟨c, more, rfl, hc⟩ := hnumber.cons
    exact ⟨c, more ++ rest, List.cons_append, by grind [startsValue]⟩
  | _ => exact ⟨_, _, rfl, rfl⟩

/-! ## Passing over blanks and strings -/

section Skip

variable {stack : List Frame} {text rest : List Char}

/-- How the skipper goes on after a value, with these frames open around it. -/
def resume (care : Care) (stack : List Frame) (text : List Char) : Except Fault (List Char) :=
  match stack with
  | [] => .ok text
  | frame :: outer => skip care .after (frame :: outer) text

/-- A character at which the skipper goes on. -/
theorem skip_go {care : Care} {spot next : Spot} {inner : List Frame} {c : Char}
    (h : spot.step care stack c text = .ok (.go next inner)) :
    skip care spot stack (c :: text) = skip care next inner text := by
  rw [skip, h]

theorem skip_goNumber {care : Care} {spot : NumberSpot} {next : Spot} {inner : List Frame}
    {c : Char} (h : inNumber stack c spot = .ok (.go next inner)) :
    skip care (.number spot) stack (c :: text) = skip care next inner text :=
  skip_go h

/-- Blanks are passed over wherever they leave the skipper at its spot. -/
theorem skip_blanks {care : Care} {spot : Spot}
    (hloop : ∀ c text, isBlank c = true → spot.step care stack c text = .ok (.go spot stack))
    (h : Blanks text rest) : skip care spot stack text = skip care spot stack rest := by
  induction h with
  | none => rfl
  | blank hblank h ih => exact (skip_go (hloop _ _ hblank)).trans ih

theorem resume_blanks {care : Care} {frame : Frame} {outer : List Frame} (h : Blanks text rest) :
    resume care (frame :: outer) text = resume care (frame :: outer) rest := by
  refine skip_blanks (fun c text hblank => ?_) h
  cases frame <;> simp [Spot.step, afterValue, hblank]

/-- The four digits of a code unit are passed over, whatever the unit is. -/
theorem CodeUnit.skip {unit : Nat} (h : CodeUnit text unit rest) (isName : Bool) :
    skip .skimming (.string isName (.unit 4 0 none)) stack text =
      skip .skimming (.string isName .between) stack rest := by
  cases h with
  | mk ha hb hc hd => simp [Json.skip, Spot.step, Place.move, ha, hb, hc, hd, finishUnit]

theorem Symbol.skip (h : Symbol text rest) (isName : Bool) :
    skip .skimming (.string isName .between) stack text =
      skip .skimming (.string isName .between) stack rest := by
  cases h with
  | plain hquote hescape hcontrol =>
    simp [Json.skip, Spot.step, Place.move, hquote, hescape, Nat.not_lt.mpr hcontrol]
  | short h => simp [Json.skip, Spot.step, Place.move, h]
  | unit h => simp [Json.skip, Spot.step, Place.move, shortEscape?, h.skip isName]

/-- A name is passed over up to its colon. -/
theorem Symbols.skip_name (h : Symbols text rest) :
    skip .skimming (.string true .between) stack text = skip .skimming .colon stack rest := by
  induction h with
  | close => simp [skip, Spot.step, Place.move]
  | next hfirst hrest ih => rw [hfirst.skip, ih]

/-- A string is passed over. -/
theorem Symbols.skip_value (h : Symbols text rest) :
    skip .skimming (.string false .between) stack text = resume .skimming stack rest := by
  induction h with
  | close => cases stack <;> simp [skip, Spot.step, Place.move, resume]
  | next hfirst hrest ih => rw [hfirst.skip, ih]

/-! ## Passing over numbers -/

/-- Digits are passed over wherever they leave the skipper at its spot. -/
theorem skip_digits {care : Care} {spot : NumberSpot} {digits : List Char}
    (hloop : ∀ c, c.isDigit = true → inNumber stack c spot = .ok (.go (.number spot) stack))
    (h : ∀ c ∈ digits, c.isDigit = true) :
    skip care (.number spot) stack (digits ++ rest) = skip care (.number spot) stack rest := by
  induction digits with
  | nil => rfl
  | cons c digits ih =>
    rw [List.cons_append, skip_goNumber (hloop c (h c List.mem_cons_self))]
    exact ih fun d hd => h d (List.mem_cons_of_mem c hd)

/-- A digit leads to a spot, and further digits stay there. -/
theorem skip_isDigits {care : Care} {before spot : NumberSpot} {digits : List Char}
    (h : IsDigits digits)
    (hfirst : ∀ c, c.isDigit = true → inNumber stack c before = .ok (.go (.number spot) stack))
    (hloop : ∀ c, c.isDigit = true → inNumber stack c spot = .ok (.go (.number spot) stack)) :
    skip care (.number before) stack (digits ++ rest) = skip care (.number spot) stack rest := by
  obtain ⟨hne, hdigits⟩ := h
  obtain ⟨c, more, rfl⟩ := List.exists_cons_of_ne_nil hne
  rw [List.cons_append, skip_goNumber (hfirst c (hdigits c List.mem_cons_self))]
  exact skip_digits hloop fun d hd => hdigits d (List.mem_cons_of_mem c hd)

/-- A number may end after its whole part, its fraction or its exponent: what follows a value
follows it. -/
theorem skip_numberEnd {care : Care} {spot : NumberSpot}
    (hspot : spot ∈ [.zero, .integer, .fraction, .exponentDigits])
    (hend : ∀ c ∈ rest.head?, isNumberPart c = false) :
    skip care (.number spot) stack rest = resume care stack rest := by
  cases rest with
  | nil =>
    have hstop : (Spot.number spot).atEnd care stack = endOfFrame stack := by
      simp only [List.mem_cons, List.not_mem_nil, or_false] at hspot
      obtain rfl | rfl | rfl | rfl := hspot <;> rfl
    rw [skip, hstop]
    cases stack <;> rfl
  | cons c rest =>
    have hpart := hend c rfl
    simp only [isNumberPart, Bool.or_eq_false_iff, beq_eq_false_iff_ne] at hpart
    have hstep : inNumber stack c spot = afterValue stack c := by
      simp only [List.mem_cons, List.not_mem_nil, or_false] at hspot
      obtain rfl | rfl | rfl | rfl := hspot <;> simp [inNumber, inNumber.afterDigits, hpart]
    rw [skip, Spot.step, hstep]
    cases stack <;> rfl

/-- The sign of an exponent, if there is one, and its digits are passed over. -/
theorem skip_signed {care : Care} {sign digits : List Char}
    (hsign : sign = [] ∨ sign = ['+'] ∨ sign = ['-']) (hdigits : IsDigits digits) :
    skip care (.number .exponent) stack (sign ++ (digits ++ rest)) =
      skip care (.number .exponentDigits) stack rest := by
  have hloop : ∀ c, c.isDigit = true →
      inNumber stack c .exponentDigits = .ok (.go (.number .exponentDigits) stack) := by
    intro c hc
    simp [inNumber, hc]
  have hsigned : ∀ c, c.isDigit = true →
      inNumber stack c .exponentSign = .ok (.go (.number .exponentDigits) stack) := by
    intro c hc
    simp [inNumber, hc]
  have hbare : ∀ c, c.isDigit = true →
      inNumber stack c .exponent = .ok (.go (.number .exponentDigits) stack) := by
    intro c hc
    have hplus : c ≠ '+' ∧ c ≠ '-' := by
      constructor <;> (rintro rfl; contradiction)
    simp [inNumber, hplus, hc]
  obtain rfl | rfl | rfl := hsign
  · exact skip_isDigits hdigits hbare hloop
  · exact (skip_go rfl).trans (skip_isDigits hdigits hsigned hloop)
  · exact (skip_go rfl).trans (skip_isDigits hdigits hsigned hloop)

/-- The exponent of a number is passed over. -/
theorem skip_exponent {care : Care} {spot : NumberSpot} {exponent : List Char}
    (h : IsExponent exponent) (hspot : spot ∈ [.zero, .integer, .fraction])
    (hend : ∀ c ∈ rest.head?, isNumberPart c = false) :
    skip care (.number spot) stack (exponent ++ rest) = resume care stack rest := by
  obtain rfl | ⟨mark, sign, digits, hmark, hsign, hdigits, rfl⟩ := h
  · exact skip_numberEnd (by grind) hend
  · have hmarked : inNumber stack mark spot = .ok (.go (.number .exponent) stack) := by
      simp only [List.mem_cons, List.not_mem_nil, or_false] at hspot
      obtain rfl | rfl := hmark <;> obtain rfl | rfl | rfl := hspot <;>
        simp [inNumber, inNumber.afterDigits]
    rw [List.cons_append, skip_goNumber hmarked, List.append_assoc, skip_signed hsign hdigits]
    exact skip_numberEnd (by simp) hend

/-- The fraction and the exponent of a number are passed over. -/
theorem skip_fraction {care : Care} {spot : NumberSpot} {fraction exponent : List Char}
    (hfraction : IsFraction fraction) (hexponent : IsExponent exponent)
    (hspot : spot ∈ [.zero, .integer]) (hend : ∀ c ∈ rest.head?, isNumberPart c = false) :
    skip care (.number spot) stack (fraction ++ (exponent ++ rest)) = resume care stack rest := by
  obtain rfl | ⟨digits, hdigits, rfl⟩ := hfraction
  · exact skip_exponent hexponent (by grind) hend
  · have hpoint : inNumber stack '.' spot = .ok (.go (.number .point) stack) := by
      simp only [List.mem_cons, List.not_mem_nil, or_false] at hspot
      obtain rfl | rfl := hspot <;> simp [inNumber, inNumber.afterDigits]
    have hdigit : ∀ c, c.isDigit = true → ∀ spot ∈ [.point, .fraction],
        inNumber stack c spot = .ok (.go (.number .fraction) stack) := by
      intro c hc spot hspot
      simp only [List.mem_cons, List.not_mem_nil, or_false] at hspot
      obtain rfl | rfl := hspot <;> simp [inNumber, hc]
    rw [List.cons_append, skip_goNumber hpoint, skip_isDigits hdigits
      (fun c hc => hdigit c hc _ (by simp)) (fun c hc => hdigit c hc _ (by simp))]
    exact skip_exponent hexponent (by simp) hend

/-- The spot that the first digit of a number leads to. -/
def wholeSpot (c : Char) : NumberSpot := if c = '0' then .zero else .integer

/-- After its first digit, a number is passed over. -/
theorem skip_whole {care : Care} {c : Char} {more fraction exponent : List Char}
    (hwhole : IsInteger (c :: more)) (hfraction : IsFraction fraction)
    (hexponent : IsExponent exponent) (hend : ∀ c ∈ rest.head?, isNumberPart c = false) :
    skip care (.number (wholeSpot c)) stack (more ++ (fraction ++ (exponent ++ rest))) =
      resume care stack rest := by
  obtain ⟨⟨-, hdigits⟩, hzero⟩ := hwhole
  unfold wholeSpot
  split
  · next hc =>
    have hlone := hzero (by rw [hc, List.head?_cons])
    obtain rfl : more = [] := (List.cons.inj hlone).2
    exact skip_fraction hfraction hexponent (by simp) hend
  · have hloop : ∀ c, c.isDigit = true →
        inNumber stack c .integer = .ok (.go (.number .integer) stack) := by
      intro c hc
      simp [inNumber, hc]
    rw [skip_digits hloop fun d hd => hdigits d (List.mem_cons_of_mem c hd)]
    exact skip_fraction hfraction hexponent (by simp) hend

/-- A digit begins a number. -/
theorem beginValue_of_isDigit {c : Char} (h : c.isDigit = true) :
    beginValue .skimming stack c text = .ok (.go (.number (wholeSpot c)) stack) := by
  have hother : ∀ d : Char, d.isDigit = false → c ≠ d := by
    rintro d hd rfl
    simp [hd] at h
  unfold beginValue wholeSpot
  by_cases hzero : c = '0'
  · subst hzero
    rfl
  · split <;> simp_all

/-- A number is passed over. -/
theorem skip_number {lexeme : List Char} (h : IsNumber lexeme)
    (hend : ∀ c ∈ rest.head?, isNumberPart c = false) :
    skip .skimming .value stack (lexeme ++ rest) = resume .skimming stack rest := by
  obtain ⟨sign, whole, fraction, exponent, hsign, hwhole, hfraction, hexponent, rfl⟩ := h
  obtain ⟨c, more, rfl⟩ := List.exists_cons_of_ne_nil hwhole.1.1
  have hdigit : c.isDigit = true := hwhole.1.2 c List.mem_cons_self
  have hblank : isBlank c = false := not_isBlank_of_startsValue (by simp [startsValue, hdigit])
  simp only [List.append_assoc, List.cons_append]
  obtain rfl | rfl := hsign
  · have hbegin : Spot.step .skimming .value stack c (more ++ (fraction ++ (exponent ++ rest))) =
        .ok (.go (.number (wholeSpot c)) stack) := by
      rw [Spot.step, if_neg (by simp [hblank]), beginValue_of_isDigit hdigit]
    rw [List.nil_append, skip_go hbegin]
    exact skip_whole hwhole hfraction hexponent hend
  · have hminus : inNumber stack c .minus = .ok (.go (.number (wholeSpot c)) stack) := by
      by_cases hc : c = '0' <;> simp [inNumber, wholeSpot, hc, hdigit]
    have hsign : Spot.step .skimming .value stack '-'
        (c :: (more ++ (fraction ++ (exponent ++ rest)))) = .ok (.go (.number .minus) stack) := rfl
    rw [List.singleton_append, skip_go hsign, skip_goNumber hminus]
    exact skip_whole hwhole hfraction hexponent hend

/-! ## Passing over values -/

/-- What a part of a kind does to the skipper: it comes out at the end of the part, with the
frames that were open before. -/
def Passed : PartKind → List Char → List Char → Prop
  | .value, text, rest =>
    ∀ stack, skip .skimming .value stack text = resume .skimming stack rest
  | .items, text, rest =>
    ∀ outer, ∀ spot ∈ [.opened, .item],
      skip .skimming spot (.array :: outer) text = resume .skimming outer rest
  | .members, text, rest =>
    ∀ outer, ∀ spot ∈ [.opened, .name],
      skip .skimming spot (.object :: outer) text = resume .skimming outer rest

/-- A frame is left at its end. -/
theorem skip_ended {care : Care} {spot : Spot} {c : Char} {outer : List Frame}
    (h : spot.step care stack c text = .ok (.ended outer)) :
    skip care spot stack (c :: text) = resume care outer text := by
  rw [skip, h]
  cases outer <;> rfl

/-- The rest of a word is passed over. -/
theorem skip_word {care : Care} {due : List Char} (hne : due ≠ []) :
    skip care (.word due) stack (due ++ rest) = resume care stack rest := by
  induction due with
  | nil => contradiction
  | cons w due ih =>
    cases due with
    | nil => exact skip_ended (by simp [Spot.step])
    | cons next due => exact (skip_go (by simp [Spot.step])).trans (ih (by simp))

/-- An item and the blanks around it are passed over. -/
theorem skip_item {start stop next : List Char} {outer : List Frame} {spot : Spot}
    (hspot : spot ∈ [.opened, .item]) (hbefore : Blanks text start)
    (hvalue : Formed .value start stop) (hpassed : Passed .value start stop)
    (hafter : Blanks stop next) :
    skip .skimming spot (.array :: outer) text = skip .skimming .after (.array :: outer) next := by
  simp only [List.mem_cons, List.not_mem_nil, or_false] at hspot
  have hskip : skip .skimming spot (.array :: outer) text =
      skip .skimming spot (.array :: outer) start := by
    refine skip_blanks (fun c text hblank => ?_) hbefore
    obtain rfl | rfl := hspot <;> simp [Spot.step, hblank]
  -- what begins a value does not end the array
  have hsame : skip .skimming spot (.array :: outer) start =
      skip .skimming .value (.array :: outer) start := by
    obtain ⟨c, more, rfl, hc⟩ := hvalue.cons
    have hblank := not_isBlank_of_startsValue hc
    have hbracket : c ≠ ']' := by
      rintro rfl
      contradiction
    obtain rfl | rfl := hspot <;> simp [skip, Spot.step, hblank, hbracket]
  rw [hskip, hsame, hpassed]
  exact resume_blanks hafter

/-- A member and the blanks around it are passed over. -/
theorem skip_member {inside after colon start stop next : List Char} {outer : List Frame}
    {spot : Spot} (hspot : spot ∈ [.opened, .name]) (hopen : Blanks text ('"' :: inside))
    (hname : Symbols inside after) (hcolon : Blanks after (':' :: colon))
    (hbefore : Blanks colon start) (hpassed : Passed .value start stop)
    (hafter : Blanks stop next) :
    skip .skimming spot (.object :: outer) text =
      skip .skimming .after (.object :: outer) next := by
  simp only [List.mem_cons, List.not_mem_nil, or_false] at hspot
  have hskip : skip .skimming spot (.object :: outer) text =
      skip .skimming spot (.object :: outer) ('"' :: inside) := by
    refine skip_blanks (fun c text hblank => ?_) hopen
    obtain rfl | rfl := hspot <;> simp [Spot.step, hblank]
  have hquote : skip .skimming spot (.object :: outer) ('"' :: inside) =
      skip .skimming .colon (.object :: outer) after := by
    rw [← hname.skip_name]
    obtain rfl | rfl := hspot <;> exact skip_go rfl
  rw [hskip, hquote, skip_blanks (fun c text hblank => by simp [Spot.step, hblank]) hcolon,
    skip_go (by rfl), skip_blanks (fun c text hblank => by simp [Spot.step, hblank]) hbefore,
    hpassed]
  exact resume_blanks hafter

/-- A part of any kind is passed over. -/
theorem Formed.passed {kind : PartKind} (h : Formed kind text rest) : Passed kind text rest := by
  induction h with
  | null => exact fun stack => (skip_go rfl).trans (skip_word (by simp))
  | yes => exact fun stack => (skip_go rfl).trans (skip_word (by simp))
  | no => exact fun stack => (skip_go rfl).trans (skip_word (by simp))
  | number hnumber hend => exact fun stack => skip_number hnumber hend
  | str h => exact fun stack => (skip_go rfl).trans h.skip_value
  | emptyArr h =>
    intro stack
    rw [skip_go (by rfl), skip_blanks (fun c text hblank => by simp [Spot.step, hblank]) h]
    exact skip_ended rfl
  | arr h ih => exact fun stack => (skip_go rfl).trans (ih stack .opened (by simp))
  | emptyObj h =>
    intro stack
    rw [skip_go (by rfl), skip_blanks (fun c text hblank => by simp [Spot.step, hblank]) h]
    exact skip_ended rfl
  | obj h ih => exact fun stack => (skip_go rfl).trans (ih stack .opened (by simp))
  | lastItem hbefore hvalue hafter ih =>
    intro outer spot hspot
    rw [skip_item hspot hbefore hvalue ih hafter]
    exact skip_ended rfl
  | item hbefore hvalue hafter hmore ih ihmore =>
    intro outer spot hspot
    rw [skip_item hspot hbefore hvalue ih hafter, skip_go (by rfl)]
    exact ihmore outer .item (by simp)
  | lastMember hopen hname hcolon hbefore hvalue hafter ih =>
    intro outer spot hspot
    rw [skip_member hspot hopen hname hcolon hbefore ih hafter]
    exact skip_ended rfl
  | member hopen hname hcolon hbefore hvalue hafter hmore ih ihmore =>
    intro outer spot hspot
    rw [skip_member hspot hopen hname hcolon hbefore ih hafter, skip_go (by rfl)]
    exact ihmore outer .name (by simp)

/-- A value of any form is passed over with the blanks before it, and nothing after it is. -/
theorem skipValue_of_formed {start : List Char} (hbefore : Blanks text start)
    (h : Formed .value start rest) : skipValue .skimming text = .ok rest := by
  rw [skipValue, skip_blanks (fun c text hblank => by simp [Spot.step, hblank]) hbefore]
  exact h.passed []

/-! ## The rest of a text -/

theorem Symbol.length_lt (h : Symbol text rest) : rest.length < text.length := by
  cases h with
  | plain hquote hescape hcontrol => simp
  | short h =>
    simp only [List.length_cons]
    omega
  | unit h =>
    have hunit := h.length_lt
    simp only [List.length_cons]
    omega

theorem Symbols.length_lt (h : Symbols text rest) : rest.length < text.length := by
  induction h with
  | close => simp
  | next hfirst hrest ih => exact Nat.lt_trans ih hfirst.length_lt

/-- A part takes something off its text. -/
theorem Formed.length_lt {kind : PartKind} (h : Formed kind text rest) :
    rest.length < text.length := by
  induction h with
  | null | yes | no =>
    simp only [List.length_cons]
    omega
  | number hnumber hend =>
    obtain ⟨c, more, rfl, -⟩ := hnumber.cons
    simp only [List.cons_append, List.length_cons, List.length_append]
    omega
  | str h => exact Nat.lt_succ_of_lt h.length_lt
  | emptyArr h | emptyObj h =>
    have hend := h.length_le
    simp only [List.length_cons] at hend ⊢
    omega
  | arr h ih | obj h ih => exact Nat.lt_succ_of_lt ih
  | lastItem hbefore hvalue hafter ih =>
    have hstart := hbefore.length_le
    have hstop := hafter.length_le
    simp only [List.length_cons] at hstop
    omega
  | item hbefore hvalue hafter hmore ih ihmore =>
    have hstart := hbefore.length_le
    have hstop := hafter.length_le
    simp only [List.length_cons] at hstop
    omega
  | lastMember hopen hname hcolon hbefore hvalue hafter ih =>
    have hinside := hopen.length_le
    have hname := hname.length_lt
    have hcolon := hcolon.length_le
    have hstart := hbefore.length_le
    have hstop := hafter.length_le
    simp only [List.length_cons] at hinside hcolon hstop
    omega
  | member hopen hname hcolon hbefore hvalue hafter hmore ih ihmore =>
    have hinside := hopen.length_le
    have hname := hname.length_lt
    have hcolon := hcolon.length_le
    have hstart := hbefore.length_le
    have hstop := hafter.length_le
    simp only [List.length_cons] at hinside hcolon hstop
    omega

end Skip

end Json

end BatchedCommit
