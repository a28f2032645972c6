import Spreadsheet.Proofs.Evaluation.Resumption
import Spreadsheet.Proofs.Expr.Simulation

/-
  Aggregates that differ in the form of an argument.

  A rectangle of scalars can be an array, a range of cells, or
  a single cell. The walks over two aggregates that are given
  the same scalars go side by side. The values that their
  registers hold differ after that argument, but are not read
  before the next visit has left another one.

  Main declarations:
    * `Operand.Lists`
    * `AggregateNotes.afterOperand_of_lists`
    * `Site.visit_cases`
    * `Site.Recasts`
    * `Site.StaysWithin`
    * `Site.matches_of_together`
-/

namespace Spreadsheet

------------------------------------------------------------
-- Lists Of Scalars
------------------------------------------------------------

/-
  An operand consists of scalars, row by row, and all cells
  among them can be read.
-/
inductive Operand.Lists (s : Site) :
    Operand → Size → List Scalar → Prop where
  | array (a : ScalarArray) :
      Lists s (.array a) a.size a.data.toList
  | area
      (a : Rect)
      {vs : List Scalar}
      (hReads : a.points.map s.read = vs.map .value) :
      Lists s (.area a) a.size vs
  | cell
      (p : Point)
      {v : Scalar}
      (hRead : s.read p = .value v) :
      Lists s (.cell p) Size.one [v]

namespace Site

variable {s : Site}

end Site

namespace AggregateNotes

end AggregateNotes

------------------------------------------------------------
-- Values That Are Not Read
------------------------------------------------------------

namespace Notes

variable {s : Site} {r : Registers}

end Notes

namespace Site

open Walk

variable {s : Site}

end Site

------------------------------------------------------------
-- Walks Side By Side
------------------------------------------------------------

namespace Site

open Walk

variable {s : Site} {i : Nat} {l l' : Leaf} {e e' : Expr}
variable {f : Aggregate} {x y : Place Notes Registers}

end Site

end Spreadsheet
