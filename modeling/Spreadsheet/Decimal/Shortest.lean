/-
  The shortest decimal that reads back as a given binary
  number, and its positional spelling.

  A finite positive binary number is `mantissa * 2 ^ exponent`.
  The reals that round to it form an interval, closed if the
  mantissa is even. For one digit, two digits and so on, the
  two neighbours of the number on that decimal grid are tested;
  the first grid with a neighbour in the interval gives the
  digits, the nearer neighbour first, the upper one on a tie.

  Key definitions include:
    * `Decimal`
    * `Decimal.shortest`
    * `Decimal.positional`
    * `Decimal.ofFloat`
    * `Decimal.ofFloat32`
-/

namespace Spreadsheet

/- The number `digits * 10 ^ exponent`. -/
structure Decimal where
  digits : Nat
  exponent : Int
deriving DecidableEq, Repr

namespace Decimal

------------------------------------------------------------
-- The Interval Of A Binary Number
------------------------------------------------------------

/-
  A binary number `4 * value / 4` in quarters of its last
  place: all three bounds are multiples of one `unit`, which
  is the quotient `scaleUp / scaleDown` of two powers of two.
-/
structure Interval where
  low : Nat
  value : Nat
  high : Nat
  closed : Bool
  scaleUp : Nat
  scaleDown : Nat

/-
  The reals that round to `mantissa * 2 ^ exponent`. The gap
  below a power of two is half as wide as the gap above.
-/
def interval
    (mantissa : Nat)
    (exponent : Int)
    (narrowBelow : Bool) : Interval where
  low := 4 * mantissa - (if narrowBelow then 1 else 2)
  value := 4 * mantissa
  high := 4 * mantissa + 2
  closed := mantissa % 2 == 0
  scaleUp := 1 <<< (exponent - 2).toNat
  scaleDown := 1 <<< (2 - exponent).toNat

/- The decimal `d * 10 ^ k` lies in the interval. -/
def Interval.holds (i : Interval) (d : Nat) (k : Int) : Bool :=
  let decimal := d * Nat.pow 10 k.toNat * i.scaleDown
  let unit := i.scaleUp * Nat.pow 10 (-k).toNat
  if i.closed then
    i.low * unit ≤ decimal && decimal ≤ i.high * unit
  else
    i.low * unit < decimal && decimal < i.high * unit

------------------------------------------------------------
-- The Shortest Decimal
------------------------------------------------------------

/- The number of decimal digits. -/
def digitCount (n : Nat) : Nat :=
  (Nat.toDigits 10 n).length

/-
  How often a number below one is multiplied by ten before it
  reaches one.
-/
def leadingZeros (num den : Nat) : Nat → Nat
  | 0 => 0
  | fuel + 1 =>
      if den ≤ num then 0
      else leadingZeros (num * 10) den fuel + 1

/-
  The power of ten just above `num / den`, and the number in
  a range where numbers below one need `bound` steps at most.
-/
def magnitude (num den bound : Nat) : Int :=
  if den ≤ num then
    digitCount (num / den)
  else
    1 - (leadingZeros num den bound : Int)

/- The neighbours on the grid of `10 ^ k`, if they hold. -/
def Interval.neighbour? (i : Interval) (k : Int) : Option Nat :=
  let num := i.value * i.scaleUp * Nat.pow 10 (-k).toNat
  let den := i.scaleDown * Nat.pow 10 k.toNat
  let below := num / den
  let rest := num % den
  match i.holds below k, i.holds (below + 1) k with
  | true, true =>
      some (if 2 * rest < den then below else below + 1)
  | true, false => some below
  | false, true => some (below + 1)
  | false, false => none

/- Take the first of the grids from `n` digits on that holds. -/
def Interval.search
    (i : Interval)
    (power : Int)
    (n : Nat) : Nat → Decimal
  | 0 =>
      let k := power - n
      ⟨(i.neighbour? k).getD 0, k⟩
  | fuel + 1 =>
      let k := power - n
      match i.neighbour? k with
      | some d => ⟨d, k⟩
      | none => i.search power (n + 1) fuel

/- Move the zeros at the end of the digits to the exponent. -/
def trimZeros (digits : Nat) (exponent : Int) : Nat → Decimal
  | 0 => ⟨digits, exponent⟩
  | fuel + 1 =>
      if digits % 10 == 0 && digits != 0 then
        trimZeros (digits / 10) (exponent + 1) fuel
      else
        ⟨digits, exponent⟩

/-
  The shortest decimal of a positive binary number, searched
  from one digit to `most` digits.
-/
def shortest
    (mantissa : Nat)
    (exponent : Int)
    (narrowBelow : Bool)
    (most : Nat) : Decimal :=
  let i := interval mantissa exponent narrowBelow
  let power :=
    magnitude (i.value * i.scaleUp) i.scaleDown
      (2 - exponent).toNat
  let d := i.search power 1 (most - 1)
  trimZeros d.digits d.exponent most

------------------------------------------------------------
-- Positional Spelling
------------------------------------------------------------

/-
  All digits of a decimal, without an exponent: zeros are
  added on the right of a whole number, and a fraction has a
  digit on both sides of its point.
-/
def positional (d : Decimal) : List Char :=
  let digits := Nat.toDigits 10 d.digits
  if 0 ≤ d.exponent then
    digits ++ List.replicate d.exponent.toNat '0'
  else
    let places := (-d.exponent).toNat
    if places < digits.length then
      digits.take (digits.length - places) ++
        '.' :: digits.drop (digits.length - places)
    else
      '0' :: '.' ::
        (List.replicate (places - digits.length) '0' ++ digits)

------------------------------------------------------------
-- Binary Formats
------------------------------------------------------------

/-
  A binary floating point format: the bits of the stored
  fraction and of the exponent, and the most decimal digits
  that a number needs to be told from its neighbours.
-/
structure Format where
  fractionBits : Nat
  exponentBits : Nat
  mostDigits : Nat

/- Numbers of 64 bits. -/
def Format.double : Format := ⟨52, 11, 17⟩

/- Numbers of 32 bits. -/
def Format.single : Format := ⟨23, 8, 9⟩

/-
  The spelling of the number with the given bits, which may
  be infinite or no number.
-/
def Format.text (f : Format) (bits : Nat) : String :=
  let fraction := bits % 1 <<< f.fractionBits
  let biased := bits >>> f.fractionBits % 1 <<< f.exponentBits
  let negative := bits >>> (f.fractionBits + f.exponentBits) == 1
  let sign := if negative then "-" else ""
  if biased = 1 <<< f.exponentBits - 1 then
    if fraction = 0 then sign ++ "inf" else "NaN"
  else if biased = 0 ∧ fraction = 0 then
    sign ++ "0"
  else
    let bias : Int :=
      (1 <<< (f.exponentBits - 1) - 1 + f.fractionBits : Nat)
    let d :=
      if biased = 0 then
        shortest fraction (1 - bias) false f.mostDigits
      else
        shortest (1 <<< f.fractionBits + fraction) (biased - bias)
          (fraction == 0 && biased != 1) f.mostDigits
    sign ++ String.ofList d.positional

/- The shortest spelling of a number of 64 bits. -/
def ofFloat (x : Float) : String :=
  Format.double.text x.toBits.toNat

/- The shortest spelling of a number of 32 bits. -/
def ofFloat32 (x : Float32) : String :=
  Format.single.text x.toBits.toNat

end Decimal

end Spreadsheet
