import Spreadsheet.Formula
import Spreadsheet.LinkedArena

/-
  Formulas in their cells, and the contents of cells.

  Formulas are kept in a list, in the order in which they are
  recalculated, and the cells of the sheet hold handles to
  them. A pass of recalculation has a generation, and a
  formula keeps the generation it was last calculated in.

  Key definitions include:
    * `FormulaCell`
    * `FormulaCell.copyTo`
    * `FormulaCell.moveTo`
    * `FormulaList`
    * `Cell`
-/

namespace Spreadsheet

------------------------------------------------------------
-- Formulas
------------------------------------------------------------

/-
  A formula with its place, the extent and first value of its
  result, and how far its calculation has come. A formula in
  a cycle is blocked.
-/
structure FormulaCell where
  expr : Expr
  refs : References
  location : Point
  extent : Size
  value : Scalar
  generation : Bool
  inProgress : Bool
  blocked : Bool

namespace FormulaCell

/- A formula that has not been calculated. -/
def new
    (expr : Expr)
    (refs : References)
    (location : Point)
    (generation : Bool) : FormulaCell :=
  ⟨expr, refs, location, Size.one, .blank, generation, false, false⟩

/- The formula of a text. -/
def ofChars
    (cs : List Char)
    (location : Point)
    (generation : Bool) : FormulaCell :=
  let (expr, refs) := Formula.read cs location
  .new expr refs location generation

/- The text of a formula as seen from its cell. -/
def source (f : FormulaCell) : List Char :=
  f.expr.source f.refs f.location

/- The cells that the result covers. -/
def area (f : FormulaCell) : Rect :=
  ⟨f.location, f.extent⟩

/- Use other references, if there are any. -/
def setRefs?
    (f : FormulaCell)
    (refs : Option References) : FormulaCell :=
  match refs with
  | some refs => { f with refs := refs }
  | none => f

/- The same formula in another cell. -/
def copyTo (f : FormulaCell) (dest : Point) : FormulaCell :=
  .new f.expr ((f.refs.adjustToCopy? dest).getD f.refs) dest
    f.generation

/- Move to another cell and keep addressing the same cells. -/
def moveTo (f : FormulaCell) (dest : Point) : FormulaCell :=
  { f.setRefs? (f.refs.adjustToMove? f.location dest) with
    location := dest }

/- Replace what the formula says. -/
def replace
    (f : FormulaCell)
    (expr : Expr)
    (refs : References) : FormulaCell :=
  { f with expr := expr, refs := refs }

/- The formula was not calculated in a generation. -/
def isStale (f : FormulaCell) (generation : Bool) : Bool :=
  f.generation != generation

/- The result cannot be read in a generation. -/
def isPending (f : FormulaCell) (generation : Bool) : Bool :=
  f.isStale generation || f.blocked

/- Reading the result now would close a cycle. -/
def isCircular (f : FormulaCell) : Bool :=
  f.inProgress || f.blocked

/- Say whether the formula is being calculated. -/
def setInProgress (f : FormulaCell) (b : Bool) : FormulaCell :=
  { f with inProgress := b }

/- The formula was calculated in a generation. -/
def finish
    (f : FormulaCell)
    (generation blocked : Bool) : FormulaCell :=
  { f with
    generation := generation
    inProgress := false
    blocked := blocked }

end FormulaCell

/- All formulas, in the order of recalculation. -/
abbrev FormulaList := LinkedArena FormulaCell

------------------------------------------------------------
-- Cells
------------------------------------------------------------

/-
  The content of a cell: a value that was entered, a formula,
  or a part of the result of a formula elsewhere.
-/
inductive Cell where
  | value (v : Scalar)
  | formula (id : Handle)
  | extension (parent : Handle) (v : Scalar)
deriving DecidableEq, Inhabited

namespace Cell

/- The formula that stands in the cell. -/
def formula? : Cell → Option Handle
  | .formula id => some id
  | _ => none

/- The formula that the cell's value comes from. -/
def owner? : Cell → Option Handle
  | .value _ => none
  | .formula id => some id
  | .extension parent _ => some parent

/- The cell holds a blank that was entered. -/
def isBlankValue : Cell → Bool
  | .value .blank => true
  | _ => false

/- The value that a cell shows, unless its formula is gone. -/
def scalar? (formulas : FormulaList) : Cell → Option Scalar
  | .value v => some v
  | .formula id => (formulas.get? id).map (·.value)
  | .extension _ v => some v

end Cell

end Spreadsheet
