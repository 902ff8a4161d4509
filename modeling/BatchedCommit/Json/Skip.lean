import BatchedCommit.Json.Number
import BatchedCommit.Json.Text

/-!
# BatchedCommit.Json.Skip

Passing over a JSON value whose contents do not matter. The text is taken character by
character: a `Spot` says what may come next, and a stack of frames holds the arrays and
objects that are still to be closed, so that values of any depth are passed over.

With `Care.skimming` only the form of the text matters. With `Care.reading` the value could
be taken in as well: surrogates come in pairs, numbers are in range, and arrays and objects
are not nested more than 127 deep.
-/

namespace BatchedCommit

namespace Json

/-- An array or object that is still to be closed. -/
inductive Frame where
  /-- An array. -/
  | array
  /-- An object. -/
  | object
  deriving DecidableEq

/-- Where a number stands. -/
inductive NumberSpot where
  /-- After the minus. -/
  | minus
  /-- After a zero at the beginning. -/
  | zero
  /-- Among the digits of the integer. -/
  | integer
  /-- After the point. -/
  | point
  /-- Among the digits of the fraction. -/
  | fraction
  /-- After the mark of the exponent. -/
  | exponent
  /-- After the sign of the exponent. -/
  | exponentSign
  /-- Among the digits of the exponent. -/
  | exponentDigits
  deriving DecidableEq

/-- What may come next in a text. -/
inductive Spot where
  /-- A value. -/
  | value
  /-- The first item or member of the innermost frame, or its end. -/
  | opened
  /-- A comma or the end of the innermost frame. -/
  | after
  /-- An item, after a comma. -/
  | item
  /-- The name of a member, after a comma. -/
  | name
  /-- The colon after the name of a member. -/
  | colon
  /-- The rest of a string, which is the name of a member or a value. -/
  | string (isName : Bool) (place : Place)
  /-- The rest of a word. -/
  | word (due : List Char)
  /-- The rest of a number. -/
  | number (spot : NumberSpot)
  deriving DecidableEq

/-- What one character does to the skipper. -/
inductive Skip where
  /-- It goes on at a spot. -/
  | go (spot : Spot) (stack : List Frame)
  /-- A value ends with the character; these frames are open around it. -/
  | ended (stack : List Frame)
  /-- The outermost value ended before the character. -/
  | before

/-- The deepest nesting that a reader takes. -/
def depthLimit : Nat := 127

/-- A value begins with the character `c`; `text` comes after it. -/
def beginValue (care : Care) (stack : List Frame) (c : Char) (text : List Char) :
    Except Fault Skip :=
  let enter (frame : Frame) : Except Fault Skip :=
    if care = .reading ∧ depthLimit ≤ stack.length then .error .tooDeep
    else .ok (.go .opened (frame :: stack))
  let enterNumber (minus : Bool) (digits : List Char) (spot : NumberSpot) : Except Fault Skip :=
    match care with
    | .skimming => .ok (.go (.number spot) stack)
    | .reading =>
      match readNumber minus digits with
      | .error fault => .error fault
      | .ok _ => .ok (.go (.number spot) stack)
  match c with
  | 'n' => .ok (.go (.word ['u', 'l', 'l']) stack)
  | 't' => .ok (.go (.word ['r', 'u', 'e']) stack)
  | 'f' => .ok (.go (.word ['a', 'l', 's', 'e']) stack)
  | '"' => .ok (.go (.string false .between) stack)
  | '[' => enter .array
  | '{' => enter .object
  | '-' => enterNumber true text .minus
  | c =>
    if c = '0' then enterNumber false (c :: text) .zero
    else if c.isDigit then enterNumber false (c :: text) .integer
    else .error .noValue

/-- A value is over, and the character `c` comes after it in the innermost frame. -/
def afterValue (stack : List Frame) (c : Char) : Except Fault Skip :=
  match stack with
  | [] => .ok .before
  | .array :: outer =>
    if isBlank c then .ok (.go .after stack)
    else if c = ',' then .ok (.go .item stack)
    else if c = ']' then .ok (.ended outer)
    else .error .noCommaInArray
  | .object :: outer =>
    if isBlank c then .ok (.go .after stack)
    else if c = ',' then .ok (.go .name stack)
    else if c = '}' then .ok (.ended outer)
    else .error .noCommaInObject

/-- The character `c` comes next in a number. -/
def inNumber (stack : List Frame) (c : Char) : NumberSpot → Except Fault Skip
  | .minus =>
    if c = '0' then .ok (.go (.number .zero) stack)
    else if c.isDigit then .ok (.go (.number .integer) stack)
    else .error .badNumber
  | .zero =>
    if c.isDigit then .error .badNumber else afterDigits
  | .integer => if c.isDigit then .ok (.go (.number .integer) stack) else afterDigits
  | .point => if c.isDigit then .ok (.go (.number .fraction) stack) else .error .badNumber
  | .fraction =>
    if c.isDigit then .ok (.go (.number .fraction) stack)
    else if c = 'e' ∨ c = 'E' then .ok (.go (.number .exponent) stack)
    else afterValue stack c
  | .exponent =>
    if c = '+' ∨ c = '-' then .ok (.go (.number .exponentSign) stack)
    else if c.isDigit then .ok (.go (.number .exponentDigits) stack)
    else .error .badNumber
  | .exponentSign =>
    if c.isDigit then .ok (.go (.number .exponentDigits) stack) else .error .badNumber
  | .exponentDigits =>
    if c.isDigit then .ok (.go (.number .exponentDigits) stack) else afterValue stack c
where
  /-- The digits of the integer are over. -/
  afterDigits : Except Fault Skip :=
    if c = '.' then .ok (.go (.number .point) stack)
    else if c = 'e' ∨ c = 'E' then .ok (.go (.number .exponent) stack)
    else afterValue stack c

/-- What the character `c`, with `text` after it, does at a spot. -/
def Spot.step (care : Care) (spot : Spot) (stack : List Frame) (c : Char) (text : List Char) :
    Except Fault Skip :=
  match spot with
  | .value => if isBlank c then .ok (.go .value stack) else beginValue care stack c text
  | .opened =>
    if isBlank c then .ok (.go .opened stack)
    else
      match stack with
      | .object :: outer =>
        if c = '}' then .ok (.ended outer)
        else if c = '"' then .ok (.go (.string true .between) stack)
        else .error .nameNotString
      | .array :: outer =>
        if c = ']' then .ok (.ended outer) else beginValue care stack c text
      | [] => beginValue care stack c text
  | .after => afterValue stack c
  | .item =>
    if isBlank c then .ok (.go .item stack)
    else if care = .reading ∧ c = ']' then .error .trailingComma
    else beginValue care stack c text
  | .name =>
    if isBlank c then .ok (.go .name stack)
    else if c = '"' then .ok (.go (.string true .between) stack)
    else if care = .reading ∧ c = '}' then .error .trailingComma
    else .error .nameNotString
  | .colon =>
    if isBlank c then .ok (.go .colon stack)
    else if c = ':' then .ok (.go .value stack)
    else .error .noColon
  | .string isName place =>
    match place.move care c text with
    | .error fault => .error fault
    | .ok (.go place _) => .ok (.go (.string isName place) stack)
    | .ok .close => .ok (if isName then .go .colon stack else .ended stack)
  | .word [] => afterValue stack c
  | .word (w :: due) =>
    if w ≠ c then .error .noWord
    else .ok (if due.isEmpty then .ended stack else .go (.word due) stack)
  | .number spot => inNumber stack c spot

/-- The text ends inside the innermost frame, after a value. -/
def endOfFrame : List Frame → Except Fault (List Char)
  | [] => .ok []
  | .array :: _ => .error .endInArray
  | .object :: _ => .error .endInObject

/-- The text ends at a spot. -/
def Spot.atEnd (care : Care) (spot : Spot) (stack : List Frame) : Except Fault (List Char) :=
  match spot with
  | .value | .item | .word _ => .error .endInValue
  | .opened | .after => endOfFrame stack
  | .name => .error (if care = .reading then .endInValue else .endInObject)
  | .colon => .error .endInObject
  | .string _ _ => .error .endInString
  | .number .minus | .number .point | .number .exponent | .number .exponentSign =>
    .error .badNumber
  | .number .zero | .number .integer | .number .fraction | .number .exponentDigits =>
    endOfFrame stack

/-- The text after a value, from a spot inside the value on. -/
def skip (care : Care) (spot : Spot) (stack : List Frame) :
    List Char → Except Fault (List Char)
  | [] => spot.atEnd care stack
  | c :: text =>
    match spot.step care stack c text with
    | .error fault => .error fault
    | .ok .before => .ok (c :: text)
    | .ok (.ended []) => .ok text
    | .ok (.ended (frame :: outer)) => skip care .after (frame :: outer) text
    | .ok (.go spot stack) => skip care spot stack text

/-- The text after the value at its beginning. -/
def skipValue (care : Care) (text : List Char) : Except Fault (List Char) :=
  skip care .value [] text

/-- What is wrong with a text that should be one JSON value. -/
def fault? (text : List Char) : Option Fault :=
  match skipValue .reading text with
  | .error fault => some fault
  | .ok rest => if (skipBlanks rest).isEmpty then none else some .trailingText

end Json

end BatchedCommit
