/-
  Reading decimals as binary numbers, correctly rounded.

  A decimal is digits with at most one point and at least one
  digit, then an exponent if there is one. Exponents of any
  length are read: beyond the range of binary numbers only
  the sign and whether the number is zero matter.

  Key definitions include:
    * `Decimal.Literal`
    * `Decimal.Literal.ofChars?`
    * `Decimal.readFloat?`
    * `Decimal.readFloat32?`
-/

namespace Spreadsheet

namespace Decimal

/- The number `mantissa * 10 ^ exponent`. -/
structure Literal where
  mantissa : Nat
  exponent : Int
deriving DecidableEq, Repr

/- The number that a list of digits spells. -/
def ofDigits (cs : List Char) : Nat :=
  cs.foldl (fun n c => 10 * n + (c.toNat - '0'.toNat)) 0

/- Split a sign off; no sign counts as plus. -/
def splitSign : List Char → Bool × List Char
  | '-' :: cs => (true, cs)
  | '+' :: cs => (false, cs)
  | cs => (false, cs)

/- Read a whole number with a sign, and nothing else. -/
def readInt? (cs : List Char) : Option Int :=
  let (negative, digits) := splitSign cs
  if digits.isEmpty || !digits.all Char.isDigit then
    none
  else if negative then
    some (-(ofDigits digits : Int))
  else
    some (ofDigits digits)

/- Read what may follow the digits: nothing or an exponent. -/
def readExponent? : List Char → Option Int
  | [] => some 0
  | 'e' :: cs => readInt? cs
  | 'E' :: cs => readInt? cs
  | _ => none

/- Split the digits after a point off, if there is a point. -/
def splitFraction : List Char → List Char × List Char
  | '.' :: cs => (cs.takeWhile Char.isDigit, cs.dropWhile Char.isDigit)
  | cs => ([], cs)

/- Read digits with at most one point, then an exponent. -/
def Literal.ofChars? (cs : List Char) : Option Literal :=
  let whole := cs.takeWhile Char.isDigit
  let (fraction, rest) := splitFraction (cs.dropWhile Char.isDigit)
  if whole.isEmpty && fraction.isEmpty then
    none
  else
    (readExponent? rest).map fun exponent =>
      ⟨ofDigits (whole ++ fraction), exponent - fraction.length⟩

/-
  The exponent, held within a range outside of which every
  number with that mantissa rounds to zero or to infinity.
-/
def Literal.boundedExponent (l : Literal) : Int :=
  let digits : Int := (Nat.toDigits 10 l.mantissa).length
  max (-400 - digits) (min (400 - digits) l.exponent)

/- The nearest number of 64 bits. -/
def Literal.toFloat (l : Literal) : Float :=
  let e := l.boundedExponent
  Float.ofScientific l.mantissa (e < 0) e.natAbs

/- The nearest number of 32 bits. -/
def Literal.toFloat32 (l : Literal) : Float32 :=
  let e := l.boundedExponent
  Float32.ofScientific l.mantissa (e < 0) e.natAbs

/- Read a decimal with a sign as a number of 64 bits. -/
def readFloat? (cs : List Char) : Option Float :=
  let (negative, cs) := splitSign cs
  (Literal.ofChars? cs).map fun l =>
    if negative then -l.toFloat else l.toFloat

/- Read a decimal with a sign as a number of 32 bits. -/
def readFloat32? (cs : List Char) : Option Float32 :=
  let (negative, cs) := splitSign cs
  (Literal.ofChars? cs).map fun l =>
    if negative then -l.toFloat32 else l.toFloat32

end Decimal

end Spreadsheet
