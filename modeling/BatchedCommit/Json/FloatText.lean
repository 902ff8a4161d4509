import BatchedCommit.Decimal.Shortest

/-!
# BatchedCommit.Json.FloatText

The written form of a floating point number: the shortest decimal that stands for it. Numbers
from 10^(-5) up to below 10^16 are written with a point and at least one digit after it,
smaller and larger ones with an exponent that always has a sign.
-/

namespace BatchedCommit

namespace Json

/-- Digits without the zeros at their end. -/
def dropZeros (digits : List Char) : List Char :=
  (digits.reverse.dropWhile (· == '0')).reverse

/-- The digits of a positive decimal whose first digit stands for `10^power`. -/
def layOut (digits : List Char) (power : Int) : List Char :=
  if -5 ≤ power ∧ power ≤ 15 then
    if power < 0 then
      '0' :: '.' :: (List.replicate (-power - 1).toNat '0' ++ digits)
    else
      let whole := power.toNat + 1
      if digits.length ≤ whole then
        digits ++ List.replicate (whole - digits.length) '0' ++ ['.', '0']
      else digits.take whole ++ '.' :: digits.drop whole
  else
    let mantissa := match digits with
      | first :: second :: rest => first :: '.' :: second :: rest
      | digits => digits
    mantissa ++ 'e' :: (if power < 0 then '-' else '+') :: Nat.toDigits 10 power.natAbs

/-- A finite floating point number in its written form. -/
def floatText (value : Float) : List Char :=
  let bits := value.toBits
  let sign := if bits >>> 63 = 0 then [] else ['-']
  let number := Decimal.Binary.ofBits bits
  if number.significand = 0 then sign ++ ['0', '.', '0']
  else
    let decimal := number.shortest
    let digits := Nat.toDigits 10 decimal.digits
    sign ++ layOut (dropZeros digits) (decimal.exponent + (digits.length - 1 : Nat))

end Json

end BatchedCommit
