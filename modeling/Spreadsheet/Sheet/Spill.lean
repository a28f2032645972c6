import Spreadsheet.FormulaCell
import Spreadsheet.Grid.Basic

/-
  The cells that the result of a formula covers beyond its
  own.

  Such a cell belongs to its formula. When the extent of a
  result changes, cells are reserved or given up.

  Key definitions include:
    * `Spill.reserve`
    * `Spill.giveUp`
    * `Spill.write`
    * `Grid.resizeSpill`
    * `Grid.clearSpill`
-/

namespace Spreadsheet

namespace Spill

------------------------------------------------------------
-- Single Cells
------------------------------------------------------------

/- A cell is reserved for a formula. -/
def reserve (owner : Handle) : CellVisitor Cell Unit where
  wanted _ := true
  visit _ s := (some (.extension owner .blank), s)

/- A cell is not reserved for a formula any more. -/
def giveUp (owner : Handle) : CellVisitor Cell Unit where
  wanted _ := false
  visit slot s :=
    match slot with
    | some (.extension parent v) =>
        (if parent = owner then none else some (.extension parent v),
          s)
    | slot => (slot, s)

/- A reserved cell takes a part of the result. -/
def write (v : Scalar) : CellVisitor Cell Unit where
  wanted _ := false
  visit slot s :=
    match slot with
    | some (.extension parent _) => (some (.extension parent v), s)
    | slot => (slot, s)

end Spill

namespace Grid

/- Visit one cell without a state. -/
def change
    (v : CellVisitor Cell Unit)
    (p : Point)
    (g : Grid Cell) : Grid Cell :=
  (g.modifyCell v p ()).1

/-
  Visit the cells of one row of a result, from the column
  `first` up to the column `stop`.
-/
def changeRow
    (v : CellVisitor Cell Unit)
    (location : Point)
    (row first stop : Nat)
    (g : Grid Cell) : Grid Cell :=
  Rect.foldIndices
    (fun column g => g.change v (location.add ⟨column, row⟩))
    (stop - first) first g

------------------------------------------------------------
-- Extents
------------------------------------------------------------

/-
  A result covers another extent than before. The rows that
  both extents have come first, then those of one of them.
-/
def resizeSpill
    (owner : Handle)
    (location : Point)
    (old new : Size)
    (g : Grid Cell) : Grid Cell :=
  let common := new.inf old
  let reserve := changeRow (Spill.reserve owner) location
  let giveUp := changeRow (Spill.giveUp owner) location
  let g :=
    Rect.foldIndices
      (fun row g =>
        giveUp row new.width old.width
          (reserve row common.width new.width g))
      common.height 0 g
  let g :=
    Rect.foldIndices (fun row => reserve row 0 new.width)
      (new.height - common.height) common.height g
  Rect.foldIndices (fun row => giveUp row 0 old.width)
    (old.height - new.height) new.height g

/- The cells of a result right of its first one. -/
def spillRight (area : Rect) : Rect :=
  .of (area.origin.x + 1) area.origin.y (area.size.width - 1) 1

/- The cells of a result below its first row. -/
def spillBelow (area : Rect) : Rect :=
  .of area.origin.x (area.origin.y + 1) area.size.width
    (area.size.height - 1)

/- Give up the cells of a rectangle that are in use. -/
def giveUpArea
    (owner : Handle)
    (area : Rect)
    (g : Grid Cell) : Grid Cell :=
  match area.intersection (.whole g.size) with
  | none => g
  | some area => (g.modifyCells (Spill.giveUp owner) area ()).1

/- Give up all cells that a result covers beyond its first. -/
def clearSpill
    (owner : Handle)
    (area : Rect)
    (g : Grid Cell) : Grid Cell :=
  (g.giveUpArea owner (spillRight area.clip)).giveUpArea owner
    (spillBelow area.clip)

end Grid

end Spreadsheet
