import Spreadsheet.Expr.Parser
import Spreadsheet.Expr.Printer

/-
  Formulas as they are entered in cells.

  Every text is a formula: one that cannot be read is kept
  as it is and counts as an error.

  Key definitions include:
    * `Formula.body`
    * `Formula.read`
-/

namespace Spreadsheet

namespace Formula

/- The text of a formula without one leading `=`. -/
def body : List Char → List Char
  | '=' :: cs => cs
  | cs => cs

/- The expression of a text, with its references. -/
def read (cs : List Char) (anchor : Point) : Expr × References :=
  match Expr.ofChars? (body cs) anchor with
  | .ok found => found
  | .error _ => (.unreadable .badFormula (body cs), [])

end Formula

end Spreadsheet
