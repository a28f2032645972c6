import Spreadsheet.Evaluation.Aggregation
import Spreadsheet.Evaluation.Choice

/-
  Evaluating a formula, offset by offset.

  The visitor of an evaluation notes at each node what its
  operation needs. An evaluation that has to wait for a cell
  pauses the walk and goes on with it later.

  Key definitions include:
    * `Notes`
    * `Site.visitor`
    * `Site.fuel`
    * `Evaluation`
    * `Evaluation.advance`
    * `Evaluation.next?`
-/

namespace Spreadsheet

------------------------------------------------------------
-- Notes
------------------------------------------------------------

/- What is noted at a node, by the kind of its operation. -/
inductive Notes where
  | leaf (l : Leaf)
  | infixOp (op : InfixOp) (n : InfixNotes)
  | unary (f : Scalar → Scalar) (n : UnaryNotes)
  | aggregate (f : Aggregate) (n : AggregateNotes)
  | product (n : ProductNotes)
  | elementwise (f : Elementwise) (n : ElementwiseNotes)
  | choice (f : Choice) (count : Nat) (n : ChoiceNotes)

namespace Notes

/- The notes of an operation on so many operands. -/
def ofOperation (count : Nat) : Operation → Notes
  | .infixOp op => .infixOp op .start
  | .negate => .unary Scalar.negate .start
  | .percent => .unary Scalar.percent .start
  | .aggregate .sumProduct => .product .start
  | .aggregate f => .aggregate f (.start f)
  | .elementwise f => .elementwise f .start
  | .choice f => .choice f count .start

/- The notes of a node that is entered. -/
def ofExpr : Expr → Notes
  | .leaf _ l => .leaf l
  | .apply _ op args => .ofOperation args.length op

/- The first operand is about to be visited. -/
def beforeOperands (n : Notes) (r : Registers) : Notes × Registers :=
  match n with
  | .aggregate f n =>
      let (n, r) := n.beforeOperands r
      (.aggregate f n, r)
  | .product n =>
      let (n, r) := n.beforeOperands r
      (.product n, r)
  | .choice f count n => (.choice f count (n.beforeOperands r), r)
  | n => (n, r)

/- The response of a node with other notes. -/
def lift
    {σ : Type}
    (f : σ → Notes)
    (res : Response σ) : Response Notes :=
  (res.1, f res.2.1, res.2.2)

/- An operand was visited. -/
def afterOperand
    (s : Site)
    (i : Nat)
    (n : Notes)
    (r : Registers) : Response Notes :=
  match n with
  | .leaf l => (.proceed, .leaf l, r)
  | .infixOp op n => lift (.infixOp op) (n.afterOperand op s i r)
  | .unary f n => lift (.unary f) (n.afterOperand f s r)
  | .aggregate f n => lift (.aggregate f) (n.afterOperand f s r)
  | .product n => lift .product (n.afterOperand s i r)
  | .elementwise f n => lift (.elementwise f) (n.afterOperand s r)
  | .choice f count n =>
      lift (.choice f count) (n.afterOperand f count s i r)

/- A node is left, and its result with it. -/
def leave (s : Site) (n : Notes) (r : Registers) : Response Notes :=
  match n with
  | .leaf l =>
      (.proceed, n, r.publish (s.operand l).1 (s.operand l).2)
  | .infixOp _ m => (.proceed, n, m.leave r)
  | .unary _ m => (.proceed, n, m.leave r)
  | .aggregate f m => (.proceed, n, m.leave f r)
  | .product m => lift .product (m.leave s r)
  | .elementwise f m => (.proceed, n, m.leave f r)
  | .choice _ _ m => (.proceed, n, m.leave r)

end Notes

------------------------------------------------------------
-- Walks
------------------------------------------------------------

namespace Site

/- The visitor of an evaluation. -/
def visitor (s : Site) : Visitor Notes Registers where
  fresh e _ := .ofExpr e
  respond f r :=
    match f.stage with
    | .entering => (.proceed, f.scratch, r)
    | .beforeChild =>
        if f.child = 0 then (.proceed, f.scratch.beforeOperands r)
        else (.proceed, f.scratch, r)
    | .afterChild => f.scratch.afterOperand s f.child r
    | .leaving => f.scratch.leave s r

/- The least size that covers all leaves of an expression. -/
def reach (s : Site) : Expr → Size
  | .leaf _ l => (s.operand l).2
  | .apply _ _ args => (args.map s.reach).foldl Size.sup Size.one

end Site

/-
  The number of steps of a walk that visits every operand at
  most so many times.
-/
def Expr.stepBound (visits : Nat) : Expr → Nat
  | .leaf _ _ => 3
  | .apply _ _ args =>
      3 + (args.map fun a => 1 + visits * (a.stepBound visits + 1)).foldr
        (· + ·) 0

/-
  The number of steps that evaluate an expression. An operand
  is visited at each offset of its extent at most.
-/
def Site.fuel (s : Site) (e : Expr) : Nat :=
  e.stepBound (max 1 (s.reach e).area)

------------------------------------------------------------
-- Evaluations
------------------------------------------------------------

/-
  An evaluation between two offsets. The result is indexed if
  it stands for a rectangle, which need not be computed anew
  at the next offset.
-/
structure Evaluation where
  walk : Walk Notes
  registers : Registers
  indexed : Bool

/- What an evaluation has come to. -/
inductive Answer where
  | ready (v : Scalar)
  | circular
  | waiting
deriving DecidableEq

namespace Registers

/- The result may not cover a cell of another content. -/
def blocks (owner : Handle) : Cell → Bool
  | .value v => !v.isBlank
  | .formula id => id != owner
  | .extension parent _ => parent != owner

/- A cell in use keeps a result from covering a rectangle. -/
def isObstructed (s : Site) (owner : Handle) (area : Rect) : Bool :=
  area.any fun p => (s.grid.get? p).any (blocks owner)

/-
  A result of several cells ends with the sheet, and becomes
  `#SPILL!` if it would cover cells in use.
-/
def spill (r : Registers) (s : Site) (owner : Handle) : Registers :=
  if r.extent = Size.one then
    r
  else
    let covered := (Rect.mk s.location r.extent).clip
    match covered.intersection (.whole s.grid.size) with
    | none => r
    | some area =>
        if isObstructed s owner area then
          r.publish (.error .spill) Size.one
        else
          { r with extent := covered.size }

end Registers

namespace Evaluation

/- Nothing was evaluated. -/
def start : Evaluation :=
  ⟨none, Registers.start, false⟩

instance : Inhabited Evaluation := ⟨start⟩

/- Why there is no result. -/
def missing (r : Registers) : Answer :=
  if r.circular then .circular else .waiting

/- The scalar of the result at the current offset. -/
def yield (s : Site) (ev : Evaluation) : Answer × Evaluation :=
  match ev.registers.result s with
  | (some v, r) =>
      (.ready v,
        { ev with registers := r, indexed := !r.value.isSingle })
  | (none, r) => (missing r, { ev with registers := r })

/- The walk has come to its end. -/
def finish
    (s : Site)
    (owner : Handle)
    (ev : Evaluation) : Answer × Evaluation :=
  let r := ev.registers
  { ev with
    registers :=
      if r.offset = Point.zero then r.spill s owner else r }.yield s

/-
  Go on with the evaluation of an expression at the current
  offset.
-/
def advance
    (s : Site)
    (owner : Handle)
    (e : Expr)
    (ev : Evaluation) : Answer × Evaluation :=
  if ev.indexed then
    ev.yield s
  else
    match Walk.run s.visitor e (s.fuel e) ev.walk ev.registers with
    | (.done, walk, r) => finish s owner ⟨walk, r, false⟩
    | (_, walk, r) => (missing r, ⟨walk, r, false⟩)

/- Go on to the next offset of the result, if there is one. -/
def next? (ev : Evaluation) : Option Evaluation :=
  (ev.registers.extent.next? ev.registers.offset).map fun p =>
    { ev with
      registers := { ev.registers with offset := p }
      walk := if ev.indexed then ev.walk else none }

end Evaluation

end Spreadsheet
