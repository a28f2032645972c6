import Spreadsheet.Expr.Basic
import Spreadsheet.Reference.Adjustment

/-
  The canonical text of an expression.

  Infix operators stand between blanks, arguments are
  separated by a comma and a blank, and parentheses stand
  where they were written. References are spelled as seen
  from the cell that holds the formula.

  Key definitions include:
    * `References.source`
    * `Leaf.source`
    * `Expr.source`
-/

namespace Spreadsheet

/- The spelling of a reference in a list. -/
def References.source
    (refs : References)
    (anchor : Point)
    (i : Nat) : List Char :=
  (refs[i]?.getD .illegal).source anchor

/- The spelling of a part without operands. -/
def Leaf.source
    (refs : References)
    (anchor : Point) : Leaf → List Char
  | .constant v => v.source
  | .array a => a.source
  | .reference i => refs.source anchor i
  | .unreadable _ chars => chars

namespace Expr

/- Put an expression's text inside its parentheses. -/
def enclose (bracketed : Bool) (cs : List Char) : List Char :=
  if bracketed then '(' :: cs ++ [')'] else cs

/- The spelling of an operation and its spelled operands. -/
def applySource
    (op : Operation)
    (args : List (List Char)) : List Char :=
  let symbol := op.symbol.toList
  match op with
  | .infixOp _ => Text.joinWith (' ' :: symbol ++ [' ']) args
  | .negate => symbol ++ args.flatten
  | .percent => args.flatten ++ symbol
  | _ => symbol ++ '(' :: Text.joinWith [',', ' '] args ++ [')']

/- The text of an expression as seen from its cell. -/
def source (refs : References) (anchor : Point) : Expr → List Char
  | .leaf b l => enclose b (l.source refs anchor)
  | .apply b op args =>
      enclose b (applySource op (args.map (source refs anchor)))

end Expr

end Spreadsheet
