import Spreadsheet.ScalarArray

/-
  Operands, which stand for one scalar or for a rectangle of
  scalars.

  An operation on rectangles is carried out at one offset
  after another. An operand with a single column or row
  repeats it at every offset, and one that does not reach an
  offset is `#N/A` there.

  Key definitions include:
    * `Operand`
    * `Operand.narrow`
    * `Size.next?`
    * `Size.locate?`
    * `ScalarArray.element`
    * `Rect.element`
-/

namespace Spreadsheet

------------------------------------------------------------
-- Offsets
------------------------------------------------------------

namespace Size

/- The offset that follows another one, row by row. -/
def next? (s : Size) (p : Point) : Option Point :=
  if p.x + 1 < s.width then some ⟨p.x + 1, p.y⟩
  else if p.y + 1 < s.height then some ⟨0, p.y + 1⟩
  else none

/- The position along a side that an offset stands for. -/
def locateAlong (side i : Nat) : Option Nat :=
  if side = 1 then some 0
  else if i < side then some i
  else none

/- The position in a rectangle that an offset stands for. -/
def locate? (s : Size) (offset : Point) : Option Point := do
  let x ← locateAlong s.width offset.x
  let y ← locateAlong s.height offset.y
  return ⟨x, y⟩

end Size

/- The scalar of an array at an offset. -/
def ScalarArray.element (a : ScalarArray) (offset : Point) : Scalar :=
  ((a.size.locate? offset).bind a.get?).getD
    (.error .notAvailable)

/-
  The cell of a rectangle at an offset. A rectangle of one
  cell is that cell at every offset.
-/
def Rect.element
    (r : Rect)
    (offset : Point) : Except ErrorValue Point :=
  if r.size = Size.one then
    .ok r.origin
  else
    match r.size.locate? offset with
    | none => .error .notAvailable
    | some p =>
        let p := p.add r.origin.toSize
        if maxSize.contains p then .ok p
        else .error .badReference

------------------------------------------------------------
-- Operands
------------------------------------------------------------

/- A scalar, an array, a cell, or a rectangle of cells. -/
inductive Operand where
  | scalar (v : Scalar)
  | array (a : ScalarArray)
  | cell (p : Point)
  | area (r : Rect)
deriving DecidableEq

namespace Operand

/- The operand that nothing was said about. -/
def blank : Operand := .scalar .blank

instance : Inhabited Operand := ⟨blank⟩

/- An error as an operand. -/
def error (e : ErrorValue) : Operand :=
  .scalar (.error e)

/- The operand is the same scalar at every offset. -/
def isSingle : Operand → Bool
  | .scalar _ | .cell _ => true
  | .array _ | .area _ => false

/-
  The operand at one offset only, unless its size is the one
  that it is used with.
-/
def narrow (o : Operand) (size : Size) (offset : Point) : Operand :=
  match o with
  | .array a =>
      if a.size = size then o else .scalar (a.element offset)
  | .area r =>
      if r.size = size then
        o
      else
        match r.element offset with
        | .ok p => .cell p
        | .error e => .error e
  | o => o

end Operand

end Spreadsheet
