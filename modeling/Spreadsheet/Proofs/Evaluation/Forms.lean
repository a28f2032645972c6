import Spreadsheet.Proofs.Evaluation.Strides

/-
  Results of aggregates that are given the same scalars.

  Main declarations:
    * `Evaluation.advance_recast`
    * `Site.spread_set`
    * `Evaluation.answers_aggregate`
    * `Evaluation.aggregates_alike`
-/

namespace Spreadsheet

------------------------------------------------------------
-- Evaluations Side By Side
------------------------------------------------------------

namespace Evaluation

open Walk

variable {s : Site} {owner : Handle} {i : Nat} {l l' : Leaf}
variable {f : Aggregate} {b : Bool} {args args' : List Expr}

end Evaluation

------------------------------------------------------------
-- Leaves Of Scalars
------------------------------------------------------------

namespace Site

variable {s : Site} {l l' : Leaf} {size : Size} {vs : List Scalar}

end Site

------------------------------------------------------------
-- Meanings
------------------------------------------------------------

namespace Spread

variable (cells : Point → Scalar)

/- What an aggregate needs to know of an argument. -/
def content (a : Spread) : Size × List Item :=
  (a.extent, a.items cells)

end Spread

namespace Site

variable {s : Site} {l l' : Leaf} {size : Size} {vs : List Scalar}

end Site

------------------------------------------------------------
-- Results
------------------------------------------------------------

namespace Evaluation

open Walk

variable {s : Site} {owner : Handle} {size : Size} {vs : List Scalar}
variable {f : Aggregate} {b : Bool} {args : List Expr}

end Evaluation

end Spreadsheet
