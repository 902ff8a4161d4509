/-!
# BatchedCommit.Decimal.Shortest

The shortest decimal that stands for a floating point number. A positive number `m · 2^q` is
the nearest one to every real in an interval around it. For one digit, two digits and so on,
the two neighbours of the number among the decimals of so many digits are tried; the first
that lies in the interval is taken, and of two the nearer one.
-/

namespace BatchedCommit

namespace Decimal

/-- A positive number `significand · 2^exponent`. -/
structure Binary where
  /-- The factor. -/
  significand : Nat
  /-- The power of two. -/
  exponent : Int
  /-- The next smaller number is only half as far away as the next larger one. -/
  narrow : Bool
  deriving DecidableEq

/-- The absolute value of a floating point number of 64 bits. -/
def Binary.ofBits (bits : UInt64) : Binary :=
  let fraction := (bits &&& 0xFFFFFFFFFFFFF).toNat
  let power := ((bits >>> 52) &&& 0x7FF).toNat
  if power = 0 then ⟨fraction, -1074, false⟩
  else ⟨0x10000000000000 + fraction, (power : Int) - 1075, decide (fraction = 0 ∧ 1 < power)⟩

/-- A positive number `digits · 10^exponent`. -/
structure Scaled where
  /-- The factor. -/
  digits : Nat
  /-- The power of ten. -/
  exponent : Int
  deriving DecidableEq

/-- The number of decimal digits. -/
def countDigits (n : Nat) : Nat := (Nat.toDigits 10 n).length

/-- The power of ten of the first digit of a positive number from 10^(-400) up. -/
def Binary.leadingPower (number : Binary) : Int :=
  let scaled := number.significand * Nat.pow 2 number.exponent.toNat * Nat.pow 10 400 /
    Nat.pow 2 (-number.exponent).toNat
  (countDigits scaled : Int) - 401

/-- The multiple of `10^power` that stands for a number: a neighbour of it on that grid, if one
    lies in the interval of the number. The ends belong to the interval if the significand is
    even. Lengths are measured in units that make them all whole numbers. -/
def Binary.onGrid? (number : Binary) (power : Int) : Option Nat :=
  let quarter := number.exponent - 2
  let unit := Nat.pow 2 quarter.toNat * Nat.pow 10 (-power).toNat
  let step := Nat.pow 2 (-quarter).toNat * Nat.pow 10 power.toNat
  let here := 4 * number.significand * unit
  let low := (4 * number.significand - if number.narrow then 1 else 2) * unit
  let high := (4 * number.significand + 2) * unit
  let isInside (n : Nat) : Bool :=
    if number.significand % 2 = 0 then decide (low ≤ n * step ∧ n * step ≤ high)
    else decide (low < n * step ∧ n * step < high)
  let below := here / step
  let above := below + 1
  if isInside below then
    if isInside above then
      let down := here - below * step
      let up := above * step - here
      some (if up < down ∨ (up = down ∧ below % 2 = 1) then above else below)
    else some below
  else if isInside above then some above
  else none

/-- The shortest decimal that stands for a positive number. -/
def Binary.shortest (number : Binary) : Scaled :=
  let leading := number.leadingPower
  let attempt (count : Nat) : Option Scaled :=
    (number.onGrid? (leading - count)).map fun digits => ⟨digits, leading - count⟩
  ((List.range 17).findSome? attempt).getD ⟨0, 0⟩

end Decimal

end BatchedCommit
