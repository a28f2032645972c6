import Spreadsheet.Sheet.Edit

/-
  The commands that change the cells of a sheet.

  Key definitions include:
    * `Sheet.setValue`
    * `Sheet.setFormula`
    * `Sheet.clearCells`
    * `Sheet.copyCell`
    * `Sheet.copyCells`
    * `Sheet.moveCells`
-/

namespace Spreadsheet

namespace Sheet

------------------------------------------------------------
-- Entering
------------------------------------------------------------

/- Enter a value; a blank erases. -/
def setValue
    (s : Sheet)
    (p : Point)
    (v : Scalar) : Except SheetError Sheet := do
  checkPoint p
  let writer := if v.isBlank then Edit.eraser else Edit.valueWriter v
  return s.edit (Grid.modifyCell writer p)

/- Enter a formula. -/
def setFormula
    (s : Sheet)
    (p : Point)
    (text : List Char) : Except SheetError Sheet := do
  checkPoint p
  let f := FormulaCell.ofChars text p s.generation
  return s.edit (Grid.modifyCell (Edit.formulaWriter f) p)

/- Erase a cell. -/
def clearCell (s : Sheet) (p : Point) : Except SheetError Sheet :=
  s.setValue p .blank

/- Erase the cells of a rectangle. -/
def clearCells (s : Sheet) (r : Rect) : Except SheetError Sheet := do
  checkRect r
  return s.edit (Grid.modifyCells Edit.eraser r)

------------------------------------------------------------
-- Copying And Moving
------------------------------------------------------------

/- Copy one cell into every cell of a rectangle. -/
def copyCell
    (s : Sheet)
    (source : Point)
    (dest : Rect) : Except SheetError Sheet := do
  checkPoint source
  checkRect dest
  return s.edit (Grid.spreadCell Edit.copier source dest)

/- Copy a rectangle. -/
def copyCells
    (s : Sheet)
    (source : Rect)
    (dest : Point) : Except SheetError Sheet := do
  checkRect source
  checkRect ⟨dest, source.size⟩
  return s.edit (Grid.transferCells Edit.copier source dest)

/-
  Move a rectangle. References of other formulas to it stay
  as they are.
-/
def moveCells
    (s : Sheet)
    (source : Rect)
    (dest : Point) : Except SheetError Sheet := do
  checkRect source
  checkRect ⟨dest, source.size⟩
  return s.edit (Grid.transferCells Edit.mover source dest)

/- Move a cell. -/
def moveCell
    (s : Sheet)
    (source dest : Point) : Except SheetError Sheet :=
  s.moveCells (.single source) dest

end Sheet

end Spreadsheet
