import Spreadsheet.Evaluation.Registers
import Spreadsheet.Expr.Walk
import Spreadsheet.Operation.Elementwise

/-
  Operations that act on one scalar of each operand.

  The operands are reduced to their scalars at the current
  offset as soon as they were visited. The extent of the
  result is the least one that covers all operands.

  Key definitions include:
    * `Reduction`
    * `InfixNotes`
    * `UnaryNotes`
    * `ElementwiseNotes`
-/

namespace Spreadsheet

------------------------------------------------------------
-- Reducing Operands
------------------------------------------------------------

/- What becomes of an operand that was visited. -/
inductive Reduction where
  /- Evaluation is suppressed. -/
  | unneeded
  /- A cell has still to be calculated. -/
  | waiting
  | scalar (v : Scalar)

/- The scalar of the operand that was just visited. -/
def Registers.reduce
    (r : Registers)
    (s : Site) : Reduction × Registers :=
  if r.suppressed then
    (.unneeded, r)
  else
    match r.result s with
    | (none, r) => (.waiting, r)
    | (some v, r) => (.scalar v, r)

/- What a node does next, with its notes and the registers. -/
abbrev Response (σ : Type) := Outcome × σ × Registers

------------------------------------------------------------
-- Infix Operators
------------------------------------------------------------

/- The left operand, the result and its extent. -/
structure InfixNotes where
  first : Scalar
  result : Scalar
  extent : Size

namespace InfixNotes

/- No operand was visited. -/
def start : InfixNotes :=
  ⟨.blank, .blank, Size.zero⟩

/- Note a scalar; the second one leads to the result. -/
def note
    (op : InfixOp)
    (i : Nat)
    (v : Scalar)
    (n : InfixNotes) : InfixNotes :=
  if i = 0 then { n with first := v }
  else { n with result := op.apply n.first v }

/- Cover the extent of an operand. -/
def cover (i : Nat) (extent : Size) (n : InfixNotes) : InfixNotes :=
  { n with
    extent := if i = 0 then extent else n.extent.sup extent }

/- An operand was visited. -/
def afterOperand
    (op : InfixOp)
    (s : Site)
    (i : Nat)
    (n : InfixNotes)
    (r : Registers) : Response InfixNotes :=
  match r.reduce s with
  | (.waiting, r) => (.pause, n, r)
  | (.unneeded, r) => (.proceed, n.cover i r.extent, r)
  | (.scalar v, r) =>
      (.proceed, (n.note op i v).cover i r.extent, r)

/- Leave the result. -/
def leave (n : InfixNotes) (r : Registers) : Registers :=
  r.publishScalar n.result n.extent

end InfixNotes

------------------------------------------------------------
-- Prefix And Postfix Operators
------------------------------------------------------------

/- The result so far. -/
structure UnaryNotes where
  result : Scalar

namespace UnaryNotes

/- The operand was not visited. -/
def start : UnaryNotes :=
  ⟨.blank⟩

/- The operand was visited. -/
def afterOperand
    (f : Scalar → Scalar)
    (s : Site)
    (n : UnaryNotes)
    (r : Registers) : Response UnaryNotes :=
  match r.reduce s with
  | (.waiting, r) => (.pause, n, r)
  | (.unneeded, r) => (.proceed, n, r)
  | (.scalar v, r) => (.proceed, ⟨f v⟩, r)

/- Leave the result with the extent of the operand. -/
def leave (n : UnaryNotes) (r : Registers) : Registers :=
  r.publishScalar n.result r.extent

end UnaryNotes

------------------------------------------------------------
-- Functions
------------------------------------------------------------

/- The arguments so far, and the extent that covers them. -/
structure ElementwiseNotes where
  args : List Scalar
  extent : Size

namespace ElementwiseNotes

/- No argument was visited. -/
def start : ElementwiseNotes :=
  ⟨[], Size.one⟩

/- Cover the extent of an argument. -/
def cover (extent : Size) (n : ElementwiseNotes) : ElementwiseNotes :=
  { n with extent := n.extent.sup extent }

/- An argument was visited. -/
def afterOperand
    (s : Site)
    (n : ElementwiseNotes)
    (r : Registers) : Response ElementwiseNotes :=
  match r.reduce s with
  | (.waiting, r) => (.pause, n, r)
  | (.unneeded, r) => (.proceed, n.cover r.extent, r)
  | (.scalar v, r) =>
      (.proceed, { n.cover r.extent with args := n.args ++ [v] },
        r)

/- Leave the result of the function. -/
def leave
    (f : Elementwise)
    (n : ElementwiseNotes)
    (r : Registers) : Registers :=
  r.publishScalar (f.apply n.args) n.extent

end ElementwiseNotes

end Spreadsheet
