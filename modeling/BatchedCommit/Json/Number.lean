import BatchedCommit.Json.Fault

/-!
# BatchedCommit.Json.Number

Reading numbers. A number without fraction and exponent is an integer as long as it fits 64
bits; every other one is a floating point number. Of the digits of such a one, only those in
front are used that fit 64 bits together, and the power of ten that remains is applied by one
multiplication or division.
-/

namespace BatchedCommit

namespace Json

/-- A number that was read. -/
inductive Number where
  /-- An integer from 0 up to 2^64 - 1. -/
  | natural (value : Nat)
  /-- An integer below zero and from -2^63 up, by its absolute value. -/
  | negative (magnitude : Nat)
  /-- A floating point number. -/
  | float (value : Float)

/-! ## Digits -/

/-- The value of a decimal digit. -/
def digitValue (c : Char) : Nat := c.toNat - '0'.toNat

/-- The value of decimal digits. -/
def decimalValue (digits : List Char) : Nat :=
  digits.foldl (fun value c => 10 * value + digitValue c) 0

/-- Appends digits to a number as long as it fits 64 bits: the number, and how many digits are
    left over. -/
def appendDigits (value : Nat) : List Char → Nat × Nat
  | [] => (value, 0)
  | c :: digits =>
    let longer := 10 * value + digitValue c
    if longer < UInt64.size then appendDigits longer digits else (value, digits.length + 1)

/-! ## Floating point numbers -/

/-- The floating point number nearest to a power of ten. -/
def powerOfTen (exponent : Nat) : Float := Float.ofScientific 1 false exponent

/-- A floating point number divided by a power of ten, in steps of at most 10^308. -/
def divideByPower (value : Float) (exponent : Nat) : Float :=
  if exponent ≤ 308 then value / powerOfTen exponent
  else if value == 0.0 then value
  else divideByPower (value / powerOfTen 308) (exponent - 308)
termination_by exponent

/-- The floating point number of a sign, digits and a power of ten. -/
def scale (minus : Bool) (significand : Nat) (exponent : Int) : Except Fault Number :=
  let signed (value : Float) : Number := .float (if minus then -value else value)
  let value := (UInt64.ofNat significand).toFloat
  if 0 ≤ exponent then
    if 308 < exponent then
      if significand = 0 then .ok (signed value) else .error .numberTooLarge
    else
      let scaled := value * powerOfTen exponent.toNat
      if scaled.isInf then .error .numberTooLarge else .ok (signed scaled)
  else .ok (signed (divideByPower value (-exponent).toNat))

/-! ## Reading -/

/-- Reads the exponent after its mark and applies it, on top of a power of ten that the digits
    before it demand. An exponent of more than 31 bits makes the number zero or too large. -/
def readExponent (minus : Bool) (significand : Nat) (power : Int) (text : List Char) :
    Except Fault (Number × List Char) :=
  let (down, text) := match text with
    | '+' :: rest => (false, rest)
    | '-' :: rest => (true, rest)
    | text => (false, text)
  match text with
  | [] => .error .endInValue
  | c :: _ =>
    if !c.isDigit then .error .badNumber
    else
      let exponent := decimalValue (text.takeWhile Char.isDigit)
      let rest := text.dropWhile Char.isDigit
      if 0x80000000 ≤ exponent then
        if significand ≠ 0 ∧ down = false then .error .numberTooLarge
        else (scale minus 0 0).map fun number => (number, rest)
      else
        (scale minus significand (if down then power - exponent else power + exponent)).map
          fun number => (number, rest)

/-- Reads what may follow the digits of a fraction. -/
def readAfterFraction (minus : Bool) (significand : Nat) (power : Int) :
    List Char → Except Fault (Number × List Char)
  | 'e' :: text | 'E' :: text => readExponent minus significand power text
  | text => (scale minus significand power).map fun number => (number, text)

/-- Reads the fraction after its point. -/
def readFraction (minus : Bool) (significand : Nat) (power : Int) (text : List Char) :
    Except Fault (Number × List Char) :=
  let digits := text.takeWhile Char.isDigit
  let rest := text.dropWhile Char.isDigit
  if digits.isEmpty then .error (if rest.isEmpty then .endInValue else .badNumber)
  else
    let (significand, left) := appendDigits significand digits
    readAfterFraction minus significand (power - (digits.length - left : Nat)) rest

/-- The integer of a sign and digits that fit 64 bits. Minus zero, and what lies below -2^63,
    are floating point numbers. -/
def integer (minus : Bool) (value : Nat) : Number :=
  if minus = false then .natural value
  else if value = 0 ∨ 0x8000000000000000 < value then .float (-(UInt64.ofNat value).toFloat)
  else .negative value

/-- Reads what may follow the digits of an integer, of which some were left over. -/
def readAfterInteger (minus : Bool) (significand left : Nat) :
    List Char → Except Fault (Number × List Char)
  | '.' :: text => readFraction minus significand left text
  | 'e' :: text | 'E' :: text => readExponent minus significand left text
  | text =>
    if left = 0 then .ok (integer minus significand, text)
    else (scale minus significand left).map fun number => (number, text)

/-- Reads a number after its sign. -/
def readNumber (minus : Bool) : List Char → Except Fault (Number × List Char)
  | [] => .error .endInValue
  | '0' :: text =>
    if (text.head?.map Char.isDigit).getD false then .error .badNumber
    else readAfterInteger minus 0 0 text
  | c :: text =>
    if !c.isDigit then .error .badNumber
    else
      let (significand, left) := appendDigits 0 (c :: text.takeWhile Char.isDigit)
      readAfterInteger minus significand left (text.dropWhile Char.isDigit)

end Json

end BatchedCommit
