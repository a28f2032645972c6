import Spreadsheet.Sheet.Edit

/-
  The commands that are about whole columns and rows.

  Inserting and deleting columns or rows shifts the cells and
  formulas after them, and adjusts all references. A result
  that would be torn apart is cut down to its first cell.

  Key definitions include:
    * `Sheet.insertBand`
    * `Sheet.deleteBand`
    * `Sheet.setLength`
    * `Sheet.clearLength`
    * `Sheet.hide`
    * `Sheet.unhide`
-/

namespace Spreadsheet

------------------------------------------------------------
-- Formulas
------------------------------------------------------------

namespace FormulaCell

/- The column or row after the last one of the result. -/
def stopAlong (f : FormulaCell) (axis : Axis) : Nat :=
  f.location.along axis + f.extent.along axis

/- Columns or rows were inserted. -/
def insertBand
    (f : FormulaCell)
    (axis : Axis)
    (before count : Nat) : FormulaCell :=
  let i := f.location.along axis
  let j := if before ≤ i then i + count else i
  { f.setRefs? (f.refs.adjustToInsertion? axis i before count) with
    location := f.location.setAlong axis j }

/-
  Columns or rows were deleted in front of the formula, or
  after it, where its result may reach.
-/
def deleteBand
    (f : FormulaCell)
    (axis : Axis)
    (first count : Nat) : FormulaCell :=
  let i := f.location.along axis
  let n := f.extent.along axis
  let f := f.setRefs? (f.refs.adjustToErasure? axis i first count)
  if i < first then
    { f with
      extent := f.extent.setAlong axis (n - min count (i + n - first)) }
  else
    { f with location := f.location.setAlong axis (i - count) }

end FormulaCell

namespace Sheet

------------------------------------------------------------
-- Inserting
------------------------------------------------------------

/- Cut down a result that columns or rows would tear apart. -/
def collapseAcross
    (axis : Axis)
    (before : Nat)
    (s : Sheet)
    (id : Handle) : Sheet :=
  match s.formulas.get? id with
  | none => s
  | some f =>
      if f.location.along axis < before ∧
          before < f.stopAlong axis then
        s.collapse id
      else
        s

/- Change every formula. -/
def modifyFormulas
    (s : Sheet)
    (f : FormulaCell → FormulaCell) : Sheet :=
  s.formulas.handles.foldl (fun s id => s.modifyFormula id f) s

/- Insert columns or rows. -/
def insertBand
    (s : Sheet)
    (axis : Axis)
    (before count : Nat) : Except SheetError Sheet := do
  checkInsertion axis before count (s.size.along axis)
  if count = 0 then
    return s
  let s := s.formulas.handles.foldl (collapseAcross axis before) s
  let (grid, _) := s.grid.insertBand axis Edit.shifter before count none
  let s :=
    { s with grid := grid }.modifyFormulas
      (·.insertBand axis before count)
  let measures := (s.measures axis).insertIndices before count
  return (s.setMeasures axis measures).refresh

------------------------------------------------------------
-- Deleting
------------------------------------------------------------

/- Remove a formula, and give up the cells of its result. -/
def dropFormula (s : Sheet) (id : Handle) : Sheet :=
  let s := s.collapse id
  { s with formulas := (s.formulas.remove id).2 }

/- Remove or change a formula, as columns or rows are deleted. -/
def deleteAcross
    (axis : Axis)
    (first count : Nat)
    (s : Sheet)
    (id : Handle) : Sheet :=
  match s.formulas.get? id with
  | none => s
  | some f =>
      let i := f.location.along axis
      if first ≤ i ∧ i < first + count then s.dropFormula id
      else s.modifyFormula id (·.deleteBand axis first count)

/- Delete columns or rows. -/
def deleteBand
    (s : Sheet)
    (axis : Axis)
    (first count : Nat) : Except SheetError Sheet := do
  checkBand axis first count
  if count = 0 then
    return s
  let s := s.formulas.handles.foldl (deleteAcross axis first count) s
  let (grid, _) := s.grid.deleteBand axis Edit.shifter first count none
  let measures :=
    (s.measures axis).eraseIndices first (first + count)
  return ({ s with grid := grid }.setMeasures axis measures).refresh

------------------------------------------------------------
-- Measures
------------------------------------------------------------

/- Change the measures of columns or rows, which are in use then. -/
def modifyMeasures
    (s : Sheet)
    (axis : Axis)
    (start count : Nat)
    (f : Measures → Nat → Nat → Measures) :
    Except SheetError Sheet := do
  checkBand axis start count
  let stop := start + count
  let grid := s.grid.expandAlong axis stop
  return { s with grid := grid }.setMeasures axis
    (f (s.measures axis) start stop)

/- Give a length to columns or rows. -/
def setLength
    (s : Sheet)
    (axis : Axis)
    (start count : Nat)
    (length : Float32) : Except SheetError Sheet :=
  s.modifyMeasures axis start count (·.setLength · · length)

/- Let columns or rows be as large as usual. -/
def clearLength
    (s : Sheet)
    (axis : Axis)
    (start count : Nat) : Except SheetError Sheet :=
  s.modifyMeasures axis start count Measures.clearLength

/- Hide columns or rows. -/
def hide
    (s : Sheet)
    (axis : Axis)
    (start count : Nat) : Except SheetError Sheet :=
  s.modifyMeasures axis start count Measures.hide

/- Show columns or rows. -/
def unhide
    (s : Sheet)
    (axis : Axis)
    (start count : Nat) : Except SheetError Sheet :=
  s.modifyMeasures axis start count Measures.unhide

------------------------------------------------------------
-- Names
------------------------------------------------------------

/- Read an area; whole columns and rows end with the sheet. -/
def readArea? (s : Sheet) (cs : List Char) : Option Rect :=
  Address.readArea? cs s.size

end Sheet

end Spreadsheet
