import Spreadsheet.Grid.Transfer
import Spreadsheet.Sheet.Recalculation

/-
  Changes of single cells, which keep the list of formulas in
  step with the cells.

  A formula that leaves its cell is taken out of the list. If
  a cell that a result covers is needed for something else,
  the result is cut down to its first cell. The cells that
  are not covered any more are given up at the end.

  Key definitions include:
    * `Edit`
    * `Edit.eraser`
    * `Edit.valueWriter`
    * `Edit.formulaWriter`
    * `Edit.copier`
    * `Edit.mover`
    * `Edit.shifter`
    * `Sheet.edit`
-/

namespace Spreadsheet

------------------------------------------------------------
-- The State Of A Change
------------------------------------------------------------

/- A result whose cells are to be given up. -/
structure Orphan where
  owner : Handle
  area : Rect
deriving DecidableEq

/-
  The formulas, the results to be cut down, and what is
  carried from a cell to which other one.
-/
structure Edit where
  formulas : FormulaList
  orphans : List Orphan
  carried : Slot Cell
  dest : Point

namespace Edit

/- Nothing was changed. -/
def start (formulas : FormulaList) : Edit :=
  ⟨formulas, [], none, Point.zero⟩

/- The result of a formula is not wanted any more. -/
def orphan (e : Edit) (id : Handle) (f : FormulaCell) : Edit :=
  if f.extent = Size.one then e
  else { e with orphans := e.orphans ++ [⟨id, f.area⟩] }

/- Cut the result of a formula down to its first cell. -/
def collapse (e : Edit) (id : Handle) : Edit :=
  match e.formulas.get? id with
  | none => e
  | some f =>
      { e.orphan id f with
        formulas :=
          e.formulas.modify id ({ · with extent := Size.one }) }

/- Take a formula out of the list. -/
def release (e : Edit) (id : Handle) : Edit :=
  match e.formulas.remove id with
  | (none, _) => e
  | (some f, formulas) =>
      { e.orphan id f with formulas := formulas }

/- Append a formula to the list, and give its cell. -/
def append (e : Edit) (f : FormulaCell) : Cell × Edit :=
  let (id, formulas) := e.formulas.pushBack f
  (.formula id, { e with formulas := formulas })

/- Make place for a new content of a cell. -/
def evict (slot : Slot Cell) (e : Edit) : Edit :=
  match slot with
  | some (.formula id) => e.release id
  | some (.extension parent _) => e.collapse parent
  | _ => e

------------------------------------------------------------
-- Entering
------------------------------------------------------------

/- Erase what was entered; results of formulas stay. -/
def eraser : CellVisitor Cell Edit where
  wanted _ := false
  visit slot e :=
    match slot with
    | some (.extension _ _) => (slot, e)
    | slot => (none, e.evict slot)

/- Enter a value. -/
def valueWriter (v : Scalar) : CellVisitor Cell Edit where
  wanted _ := true
  visit slot e := (some (.value v), e.evict slot)

/- Enter a formula. One that is in the cell is replaced. -/
def formulaWriter (f : FormulaCell) : CellVisitor Cell Edit where
  wanted _ := true
  visit slot e :=
    match slot with
    | some (.formula id) =>
        (slot,
          { e with
            formulas :=
              e.formulas.modify id (·.replace f.expr f.refs) })
    | slot =>
        let (c, e) := (e.evict slot).append f
        (some c, e)

------------------------------------------------------------
-- Carrying
------------------------------------------------------------

/- The next cell is about to be carried. -/
def announce (_ dest : Point) (e : Edit) : Edit :=
  { e with carried := none, dest := dest }

/- Something is carried. -/
def isCarrying (e : Edit) : Bool :=
  e.carried.isSome

/-
  Put what is carried into a cell. Results of formulas give
  way to it, but not to nothing.
-/
def put (slot : Slot Cell) (e : Edit) : Slot Cell × Edit :=
  match slot, e.carried with
  | some (.extension _ _), none => (slot, e)
  | slot, carried => (carried, { e.evict slot with carried := none })

/-
  Carry a copy of a cell. A formula is copied along with its
  references, and the results of formulas are not copied.
-/
def takeCopy (slot : Slot Cell) (e : Edit) : Slot Cell × Edit :=
  match slot with
  | some (.value v) => (slot, { e with carried := some (.value v) })
  | some (.formula id) =>
      match e.formulas.get? id with
      | none => (slot, e)
      | some f =>
          let (c, e) := e.append (f.copyTo e.dest)
          (slot, { e with carried := some c })
  | _ => (slot, { e with carried := none })

/-
  Carry a cell away. A formula keeps addressing the same
  cells, and the results of formulas stay.
-/
def takeAway (slot : Slot Cell) (e : Edit) : Slot Cell × Edit :=
  match slot with
  | some (.extension _ _) => (slot, e)
  | some (.formula id) =>
      let e := e.collapse id
      (none,
        { e with
          formulas := e.formulas.modify id (·.moveTo e.dest)
          carried := slot })
  | slot => (none, { e with carried := slot })

/- Copy cells. -/
def copier : CellMover Cell Edit where
  wantsSource _ := false
  wantsDest := isCarrying
  announce := announce
  take := takeCopy
  put := put

/- Move cells. -/
def mover : CellMover Cell Edit where
  wantsSource _ := false
  wantsDest := isCarrying
  announce := announce
  take := takeAway
  put := put

/- Shift cells as they are. -/
def shifter : CellMover Cell (Slot Cell) where
  wantsSource _ := false
  wantsDest := Option.isSome
  announce _ _ carried := carried
  take slot _ := (none, slot)
  put _ carried := (carried, none)

end Edit

------------------------------------------------------------
-- Changes Of A Sheet
------------------------------------------------------------

namespace Sheet

/- Give up the cells of a result that is not wanted any more. -/
def giveUp (g : Grid Cell) (o : Orphan) : Grid Cell :=
  g.clearSpill o.owner o.area

/- Change cells, give up what is not covered, and calculate. -/
def edit
    (s : Sheet)
    (change : Grid Cell → Edit → Grid Cell × Edit) : Sheet :=
  let (grid, e) := change s.grid (.start s.formulas)
  { s with
    grid := e.orphans.foldl giveUp grid
    formulas := e.formulas }.refresh

end Sheet

end Spreadsheet
