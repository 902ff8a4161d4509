import BatchedCommit.Json.Fault

/-!
# BatchedCommit.Json.Text

Reading the small parts of JSON: blanks, words and strings. A string is read character by
character; where the reader stands inside the string is a `Place`.
-/

namespace BatchedCommit

namespace Json

/-! ## Blanks and words -/

/-- The characters that may stand between the parts of a JSON text. -/
def isBlank (c : Char) : Bool := c == ' ' || c == '\t' || c == '\n' || c == '\r'

/-- The text after the blanks at its beginning. -/
def skipBlanks (text : List Char) : List Char := text.dropWhile isBlank

/-- The text after a word that is expected at its beginning. -/
def readWord : List Char → List Char → Except Fault (List Char)
  | [], text => .ok text
  | _ :: _, [] => .error .endInValue
  | w :: word, c :: text => if w = c then readWord word text else .error .noWord

/-! ## Characters in strings -/

/-- The value of a hexadecimal digit. -/
def hexValue? (c : Char) : Option Nat :=
  if '0' ≤ c ∧ c ≤ '9' then some (c.toNat - '0'.toNat)
  else if 'a' ≤ c ∧ c ≤ 'f' then some (c.toNat - 'a'.toNat + 10)
  else if 'A' ≤ c ∧ c ≤ 'F' then some (c.toNat - 'A'.toNat + 10)
  else none

/-- The character that a short escape stands for. -/
def shortEscape? : Char → Option Char
  | '"' => some '"'
  | '\\' => some '\\'
  | '/' => some '/'
  | 'b' => some '\x08'
  | 'f' => some '\x0c'
  | 'n' => some '\n'
  | 'r' => some '\r'
  | 't' => some '\t'
  | _ => none

/-- The code units that come first in a pair of surrogates. -/
def isLeading (unit : Nat) : Bool := decide (0xD800 ≤ unit ∧ unit ≤ 0xDBFF)

/-- The code units that come second in a pair of surrogates. -/
def isTrailing (unit : Nat) : Bool := decide (0xDC00 ≤ unit ∧ unit ≤ 0xDFFF)

/-- The character that a pair of surrogates stands for. -/
def joinSurrogates (leading trailing : Nat) : Char :=
  Char.ofNat ((leading - 0xD800) * 0x400 + (trailing - 0xDC00) + 0x10000)

/-- The text takes up at least so many bytes in UTF-8. -/
def hasBytes : Nat → List Char → Bool
  | 0, _ => true
  | _ + 1, [] => false
  | n + 1, c :: text => hasBytes (n + 1 - c.utf8Size) text

/-! ## Reading a string -/

/-- Where a reader stands inside a string. -/
inductive Place where
  /-- Between characters. -/
  | between
  /-- After a backslash. -/
  | escaped
  /-- Inside an escape by code unit: the digits that are due, the value of those read, and
      the leading surrogate that came before. -/
  | unit (due value : Nat) (leading : Option Nat)
  /-- After a leading surrogate; a backslash is due. -/
  | leading (unit : Nat)
  /-- After a leading surrogate and a backslash. -/
  | leadingEscaped (unit : Nat)
  deriving DecidableEq

/-- What one character does to the reader of a string. -/
inductive Move where
  /-- The reader goes on, and may have got a character of the string. -/
  | go (place : Place) (got : Option Char)
  /-- The string is over. -/
  | close

/-- How much a reader asks of a text. -/
inductive Care where
  /-- Only that the parts of the text have the right form. -/
  | skimming
  /-- Also that surrogates come in pairs and numbers are in range. -/
  | reading
  deriving DecidableEq

/-- A code unit was read to its last digit. -/
def finishUnit (care : Care) (value : Nat) (first : Option Nat) : Except Fault Move :=
  match care, first with
  | .skimming, _ => .ok (.go .between none)
  | .reading, none =>
    if isTrailing value then .error .surrogateAlone
    else if isLeading value then .ok (.go (.leading value) none)
    else .ok (.go .between (some (Char.ofNat value)))
  | .reading, some first =>
    if isTrailing value then .ok (.go .between (some (joinSurrogates first value)))
    else .error .surrogateAlone

/-- The move of a reader over the character `c`, with `text` after it. A digit of a code unit
    that is none is a fault of its own only if the text goes on for the digits that are due. -/
def Place.move (care : Care) (place : Place) (c : Char) (text : List Char) :
    Except Fault Move :=
  match place with
  | .between =>
    if c = '"' then .ok .close
    else if c = '\\' then .ok (.go .escaped none)
    else if c.toNat < 0x20 then .error .controlCharacter
    else .ok (.go .between (some c))
  | .escaped =>
    match shortEscape? c with
    | some got => .ok (.go .between (some got))
    | none => if c = 'u' then .ok (.go (.unit 4 0 none) none) else .error .badEscape
  | .unit due value first =>
    match hexValue? c with
    | none => .error (if hasBytes due (c :: text) then .badEscape else .endInString)
    | some digit =>
      let value := 16 * value + digit
      if due ≤ 1 then finishUnit care value first
      else .ok (.go (.unit (due - 1) value first) none)
  | .leading first =>
    if c = '\\' then .ok (.go (.leadingEscaped first) none) else .error .surrogateCut
  | .leadingEscaped first =>
    if c = 'u' then .ok (.go (.unit 4 0 (some first)) none) else .error .surrogateCut

/-- Reads on from a place inside a string up to its end: the characters of the string, those
    in `got` before them in reverse, and the text after the closing quote. -/
def readString (place : Place) (got : List Char) :
    List Char → Except Fault (List Char × List Char)
  | [] => .error .endInString
  | c :: text =>
    match place.move .reading c text with
    | .error fault => .error fault
    | .ok .close => .ok (got.reverse, text)
    | .ok (.go place none) => readString place got text
    | .ok (.go place (some c)) => readString place (c :: got) text

end Json

end BatchedCommit
