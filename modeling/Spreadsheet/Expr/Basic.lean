import Spreadsheet.Operation
import Spreadsheet.ScalarArray

/-
  The expression trees of formulas.

  References stand in a list beside the tree, and the tree
  holds their places in it. A part of a formula that cannot
  be read is kept with its text and counts as an error.

  Key definitions include:
    * `Leaf`
    * `Expr`
    * `Expr.children`
    * `Expr.size`
-/

namespace Spreadsheet

/- The parts of a formula without operands. -/
inductive Leaf where
  | constant (v : Scalar)
  | array (a : ScalarArray)
  | reference (i : Nat)
  | unreadable (e : ErrorValue) (chars : List Char)
deriving DecidableEq

/-
  An expression. Each node records whether it was written
  inside parentheses.
-/
inductive Expr where
  | leaf (bracketed : Bool) (leaf : Leaf)
  | apply (bracketed : Bool) (op : Operation) (args : List Expr)

namespace Expr

instance : Inhabited Expr :=
  ⟨.leaf false (.constant .blank)⟩

/- A constant without parentheses. -/
def constant (v : Scalar) : Expr :=
  .leaf false (.constant v)

/- Text that could not be read. -/
def unreadable (e : ErrorValue) (chars : List Char) : Expr :=
  .leaf false (.unreadable e chars)

/- An operation without parentheses. -/
def call (op : Operation) (args : List Expr) : Expr :=
  .apply false op args

/- The expression stands inside parentheses. -/
def isBracketed : Expr → Bool
  | .leaf b _ => b
  | .apply b _ _ => b

/- The same expression inside parentheses. -/
def bracket : Expr → Expr
  | .leaf _ l => .leaf true l
  | .apply _ op args => .apply true op args

/- The operands of an expression, from the left. -/
def children : Expr → List Expr
  | .leaf _ _ => []
  | .apply _ _ args => args

/- The operation at the root of an expression. -/
def operation? : Expr → Option Operation
  | .leaf _ _ => none
  | .apply _ op _ => some op

/- The number of nodes. -/
def size : Expr → Nat
  | .leaf _ _ => 1
  | .apply _ _ args => (args.map size).foldr (· + ·) 1

/- The places of references, from the left. -/
def referenceIndices : Expr → List Nat
  | .leaf _ (.reference i) => [i]
  | .leaf _ _ => []
  | .apply _ _ args => args.flatMap referenceIndices

end Expr

end Spreadsheet
