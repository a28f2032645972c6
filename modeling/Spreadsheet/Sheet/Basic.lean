import Spreadsheet.FormulaCell
import Spreadsheet.Grid.Basic
import Spreadsheet.Sheet.Measure

/-
  Sheets, what they show, and what commands they refuse.

  A command is refused if a cell, column or row that it is
  about does not lie on the sheet. It changes nothing then.

  Key definitions include:
    * `Sheet`
    * `SheetConfig`
    * `SheetError`
    * `Sheet.value`
    * `Sheet.formulaInfo?`
    * `checkBand`
    * `checkPoint`
    * `checkRect`
    * `checkInsertion`
-/

namespace Spreadsheet

------------------------------------------------------------
-- Errors
------------------------------------------------------------

/- What can be out of range. -/
inductive Quantity where
  | index (axis : Axis)
  | count
deriving DecidableEq, Repr

/- Why a command was refused. -/
inductive SheetError where
  | outOfRange (what : Quantity) (value limit : Nat)
  | notSuspended
deriving DecidableEq, Repr

/- The name of a quantity in messages. -/
def Quantity.name : Quantity → String
  | .index .columns => "column"
  | .index .rows => "row"
  | .count => "count"

/- The message of an error. -/
def SheetError.message : SheetError → String
  | .outOfRange what value limit =>
      what.name ++ " " ++ toString value ++
        " out of range (limit " ++ toString limit ++ ")"
  | .notSuspended => "resume_recalc without matching suspend_recalc"

/- A value has to lie below a limit. -/
def checkIndex
    (axis : Axis)
    (i : Nat) : Except SheetError Unit :=
  let limit := maxSize.along axis
  if i < limit then .ok ()
  else .error (.outOfRange (.index axis) i limit)

/- A count may not exceed a limit. -/
def checkCount (count limit : Nat) : Except SheetError Unit :=
  if count ≤ limit then .ok ()
  else .error (.outOfRange .count count limit)

/- The `count` columns or rows from `start` on have to exist. -/
def checkBand
    (axis : Axis)
    (start count : Nat) : Except SheetError Unit := do
  checkIndex axis start
  checkCount count (maxSize.along axis - start)

/- A cell has to lie on the sheet. -/
def checkPoint (p : Point) : Except SheetError Unit := do
  checkIndex .columns p.x
  checkIndex .rows p.y

/- A rectangle has to lie on the sheet. -/
def checkRect (r : Rect) : Except SheetError Unit := do
  checkBand .columns r.origin.x r.size.width
  checkBand .rows r.origin.y r.size.height

/-
  Columns or rows that are inserted may not push those in use
  off the sheet.
-/
def checkInsertion
    (axis : Axis)
    (before count used : Nat) : Except SheetError Unit := do
  checkBand axis before count
  checkCount count (maxSize.along axis - max used before)

------------------------------------------------------------
-- Sheets
------------------------------------------------------------

/-
  Whether formulas are calculated after every command, and
  how large rows and columns usually are.
-/
structure SheetConfig where
  autoRecalc : Bool
  rowHeight : Float32
  columnWidth : Float32

/- The configuration of a sheet that nothing is said about. -/
def SheetConfig.usual : SheetConfig :=
  ⟨true, 15, 64⟩

/- What is shown of a formula. -/
structure FormulaInfo where
  text : List Char
  extent : Size
deriving DecidableEq, Repr

/-
  A sheet: its cells and formulas, the generation of the last
  calculation, how often calculation was suspended, and the
  measures of its rows and columns.
-/
structure Sheet where
  grid : Grid Cell
  formulas : FormulaList
  generation : Bool
  suspended : Nat
  rows : Measures
  columns : Measures
  config : SheetConfig

namespace Sheet

/- A sheet on which nothing was done. -/
def new (config : SheetConfig) : Sheet :=
  ⟨.empty, .empty, false, 0, .empty, .empty, config⟩

instance : Inhabited Sheet := ⟨new .usual⟩

/- The size up to which the sheet was used. -/
def size (s : Sheet) : Size :=
  s.grid.size

/- The value that a cell shows. -/
def value (s : Sheet) (p : Point) : Scalar :=
  ((s.grid.get? p).bind (·.scalar? s.formulas)).getD .blank

/- The formula that stands in a cell. -/
def formula? (s : Sheet) (p : Point) : Option FormulaCell := do
  let c ← s.grid.get? p
  let id ← c.formula?
  s.formulas.get? id

/- The text and the extent of the formula in a cell. -/
def formulaInfo? (s : Sheet) (p : Point) : Option FormulaInfo :=
  (s.formula? p).map fun f => ⟨f.source, f.extent⟩

/- Calculation waits until it is resumed. -/
def isSuspended (s : Sheet) : Bool :=
  0 < s.suspended

/- The measures along one axis. -/
def measures (s : Sheet) : Axis → Measures
  | .columns => s.columns
  | .rows => s.rows

/- Replace the measures along one axis. -/
def setMeasures (s : Sheet) (axis : Axis) (m : Measures) : Sheet :=
  match axis with
  | .columns => { s with columns := m }
  | .rows => { s with rows := m }

/- How large columns or rows usually are. -/
def usualLength (s : Sheet) : Axis → Float32
  | .columns => s.config.columnWidth
  | .rows => s.config.rowHeight

/- The measure of a column or row. -/
def measure (s : Sheet) (axis : Axis) (i : Nat) : Measure :=
  (s.measures axis).measure i

/- The length that a column or row is shown with. -/
def length (s : Sheet) (axis : Axis) (i : Nat) : Float32 :=
  (s.measure axis i).length.getD (s.usualLength axis)

/- The measures of consecutive columns or rows. -/
def measuresBetween
    (s : Sheet)
    (axis : Axis)
    (start stop : Nat) : List (Interval Measure) :=
  (s.measures axis).filled start stop .usual

/- Change a formula. -/
def modifyFormula
    (s : Sheet)
    (id : Handle)
    (f : FormulaCell → FormulaCell) : Sheet :=
  { s with formulas := s.formulas.modify id f }

end Sheet

end Spreadsheet
