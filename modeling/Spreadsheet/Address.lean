import Spreadsheet.Geometry

/-
  Names of cells and areas: letters for the column and a
  number, counted from one, for the row. `$` may precede
  either part, and letters may have any case.

  Key definitions include:
    * `Address.Part`
    * `Address.scan`
    * `Address.readPoint?`
    * `Address.readArea?`
    * `Address.indexName`
    * `Address.pointName`
-/

namespace Spreadsheet

namespace Address

------------------------------------------------------------
-- Indices
------------------------------------------------------------

/-
  An index at the start of a text: its value, whether `$`
  fixes it, and how many characters it takes.
-/
structure Part where
  index : Nat
  absolute : Bool
  length : Nat
deriving DecidableEq, Repr

/- The value of a letter in a column name, from one on. -/
def letterValue (c : Char) : Nat :=
  c.toUpper.toNat - 'A'.toNat + 1

/- The value of a digit in a row number. -/
def digitValue (c : Char) : Nat :=
  c.toNat - '0'.toNat

/-
  The number that digits spell in a base, if it stays within
  a limit after each digit.
-/
def boundedNumber?
    (base limit : Nat)
    (value : Char → Nat)
    (start : Nat) : List Char → Option Nat
  | [] => some start
  | c :: cs =>
      if (limit - value c) / base < start then
        none
      else
        boundedNumber? base limit value
          (start * base + value c) cs

/- Split a leading `$` off. -/
def splitFixed : List Char → Bool × List Char
  | '$' :: cs => (true, cs)
  | cs => (false, cs)

/- The index that a run of letters or digits names. -/
def indexOf? (axis : Axis) (run : List Char) : Option Nat :=
  match axis with
  | .columns =>
      if run.isEmpty then none
      else
        (boundedNumber? 26 maxSize.width letterValue 0 run).map
          (· - 1)
  | .rows =>
      if run.isEmpty || run.head? == some '0' then none
      else
        (boundedNumber? 10 maxSize.height digitValue 0 run).map
          (· - 1)

/- The characters that make up a column or row name. -/
def isNameChar (axis : Axis) (c : Char) : Bool :=
  match axis with
  | .columns => c.isAlpha
  | .rows => c.isDigit

/-
  The column or row at the start of a text. The whole run of
  letters or digits belongs to it.
-/
def scan (axis : Axis) (cs : List Char) : Option Part :=
  let (absolute, cs) := splitFixed cs
  let run := cs.takeWhile (isNameChar axis)
  (indexOf? axis run).map fun index =>
    ⟨index, absolute, run.length + absolute.toNat⟩

/- A column or row and nothing else. -/
def readIndex? (axis : Axis) (cs : List Char) : Option Nat :=
  ((scan axis cs).filter (·.length == cs.length)).map (·.index)

------------------------------------------------------------
-- Points And Areas
------------------------------------------------------------

/- The parts of a cell name and nothing else. -/
def readParts? (cs : List Char) : Option (Part × Part) := do
  let column ← scan .columns cs
  let rest := cs.drop column.length
  let row ← scan .rows rest
  if row.length = rest.length then
    some (column, row)
  else
    none

/- A cell name and nothing else. -/
def readPoint? (cs : List Char) : Option Point :=
  (readParts? cs).map fun (column, row) =>
    ⟨column.index, row.index⟩

/- Split a text at its first colon. -/
def splitColon : List Char → Option (List Char × List Char)
  | [] => none
  | ':' :: cs => some ([], cs)
  | c :: cs => (splitColon cs).map fun (a, b) => (c :: a, b)

/- Two columns or rows, whichever is written first. -/
def readBand?
    (axis : Axis)
    (first second : List Char) : Option (Nat × Nat) := do
  let a ← readIndex? axis first
  let b ← readIndex? axis second
  some (min a b, max a b)

/- The area between two corners, columns or rows. -/
def readSpan?
    (first second : List Char)
    (bounds : Size) : Option Rect :=
  match readPoint? first, readPoint? second with
  | some a, some b => some (Rect.spanning a b)
  | _, _ =>
      match readBand? .columns first second with
      | some (a, b) =>
          some (Rect.band .columns a (b - a + 1) bounds)
      | none =>
          (readBand? .rows first second).map fun (a, b) =>
            Rect.band .rows a (b - a + 1) bounds

/-
  A cell `A1`, an area `A1:B2`, whole columns `A:C` or whole
  rows `3:5` of a sheet of a given size.
-/
def readArea? (cs : List Char) (bounds : Size) : Option Rect :=
  match splitColon cs with
  | none => (readPoint? cs).map Rect.single
  | some (first, second) => readSpan? first second bounds

------------------------------------------------------------
-- Names
------------------------------------------------------------

/- The letter with a value from 0 to 25. -/
def letter (n : Nat) : Char :=
  Char.ofNat ('A'.toNat + n)

/-
  The letters of a column counted from one: the last letter
  stands for the remainder of what precedes the column.
-/
def columnLetters : Nat → List Char
  | 0 => []
  | n + 1 => columnLetters (n / 26) ++ [letter (n % 26)]
termination_by n => n
decreasing_by
  have := Nat.div_le_self n 26
  omega

/- The name of a column or row. -/
def indexName (axis : Axis) (i : Nat) : List Char :=
  match axis with
  | .columns => columnLetters (i + 1)
  | .rows => Nat.toDigits 10 (i + 1)

/- The name of a cell. -/
def pointName (p : Point) : List Char :=
  indexName .columns p.x ++ indexName .rows p.y

end Address

end Spreadsheet
