/-
  Rounding numbers to decimal places.

  A number is scaled by a power of ten, rounded to the next
  integer, and scaled back. Halves are rounded away from
  zero.

  Key definitions include:
    * `Decimal.power`
    * `Decimal.round`
-/

namespace Spreadsheet

namespace Decimal

/- Multiply `r` by a power of `a`, by squaring. -/
def timesPower (a : Float) (n : Nat) (r : Float) : Float :=
  let r := if n % 2 = 1 then r * a else r
  if n / 2 = 0 then r
  else timesPower (a * a) (n / 2) r
termination_by n

/- A power of ten. -/
def power (n : Nat) : Float :=
  timesPower 10 n 1

/- The greatest exponent that a power of ten can have. -/
def maxPlaces : Nat := 308

/- How many places a number asks for, without its sign. -/
def places (digits : Float) : Nat :=
  if Float.ofNat maxPlaces < digits.abs then maxPlaces
  else digits.abs.toUInt64.toNat

/-
  Round to decimal places, or to tens, hundreds and so on if
  `digits` is negative.
-/
def round (x digits : Float) : Float :=
  let factor := power (places digits)
  if digits < 0 then (x / factor).round * factor
  else (x * factor).round / factor

end Decimal

end Spreadsheet
