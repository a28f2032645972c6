import Spreadsheet.Evaluation.Operand
import Spreadsheet.Expr.Basic
import Spreadsheet.FormulaCell
import Spreadsheet.Grid.Basic

/-
  What a formula sees of its sheet, and the registers that
  its parts hand their results on in.

  A cell whose formula has still to be calculated cannot be
  read. Its formula is noted, or, if it waits for the reading
  formula itself, the registers say that there is a cycle.

  Key definitions include:
    * `Site`
    * `Site.read`
    * `Site.operand`
    * `Registers`
    * `Registers.read`
    * `Registers.element`
    * `Registers.foldArea`
    * `Registers.foldAreas`
-/

namespace Spreadsheet

------------------------------------------------------------
-- Sites
------------------------------------------------------------

/-
  The sheet as a formula sees it: the cells, all formulas,
  its own references and place, and the generation that it is
  calculated in.
-/
structure Site where
  grid : Grid Cell
  formulas : FormulaList
  refs : References
  location : Point
  generation : Bool

/- What there is to read in a cell. -/
inductive CellReading where
  | value (v : Scalar)
  | pending (id : Handle)
  | circular
deriving DecidableEq

namespace Site

/- The formula that has to be calculated before a cell. -/
def pending?
    (s : Site)
    (c : Cell) : Option (Handle × FormulaCell) := do
  let id ← c.owner?
  let f ← s.formulas.get? id
  if f.isPending s.generation then some (id, f) else none

/- Read a cell; an empty one is blank. -/
def read (s : Site) (p : Point) : CellReading :=
  match s.grid.get? p with
  | none => .value .blank
  | some c =>
      match s.pending? c with
      | some (id, f) =>
          if f.isCircular then .circular else .pending id
      | none => .value ((c.scalar? s.formulas).getD .blank)

/- The size up to which whole columns and rows reach. -/
def bounds (s : Site) : Size :=
  s.grid.size.sup Size.one

/- A reference as an operand, with its extent. -/
def referenceOperand (s : Site) (r : Reference) : Operand × Size :=
  if r.onSheet s.location then
    match r, r.toRect? s.location s.bounds with
    | .cell _ _, some a => (.cell a.origin, Size.one)
    | _, some a => (.area a, a.size)
    | _, none => (.error .badReference, Size.one)
  else
    (.error .badReference, Size.one)

/- A leaf of an expression as an operand, with its extent. -/
def operand (s : Site) : Leaf → Operand × Size
  | .constant v => (.scalar v, Size.one)
  | .array a => (.array a, a.size)
  | .unreadable e _ => (.error e, Size.one)
  | .reference i =>
      match s.refs[i]? with
      | some r => s.referenceOperand r
      | none => (.error .badReference, Size.one)

end Site

------------------------------------------------------------
-- Registers
------------------------------------------------------------

/-
  The state of an evaluation. A node leaves its result in
  `value` and `extent`. Nodes are suppressed where only their
  extents matter.
-/
structure Registers where
  suppressed : Bool
  circular : Bool
  offset : Point
  value : Operand
  extent : Size
  missing : Array Handle

namespace Registers

/- Nothing has been evaluated. -/
def start : Registers :=
  ⟨false, false, Point.zero, .blank, Size.one, #[]⟩

instance : Inhabited Registers := ⟨start⟩

/- Leave a result with its extent. -/
def publish
    (r : Registers)
    (value : Operand)
    (extent : Size) : Registers :=
  { r with value := value, extent := extent }

/-
  Leave a scalar with an extent, unless evaluation is
  suppressed: then leave the extent only.
-/
def publishScalar
    (r : Registers)
    (v : Scalar)
    (extent : Size) : Registers :=
  if r.suppressed then { r with extent := extent }
  else r.publish (.scalar v) extent

/- A formula has to be calculated first. -/
def await (r : Registers) (id : Handle) : Registers :=
  { r with missing := r.missing.push id }

/- The formula takes part in a cycle. -/
def closeCycle (r : Registers) : Registers :=
  { r with circular := true }

/- Read a cell, if it can be read. -/
def read
    (r : Registers)
    (s : Site)
    (p : Point) : Option Scalar × Registers :=
  match s.read p with
  | .value v => (some v, r)
  | .pending id => (none, r.await id)
  | .circular => (none, r.closeCycle)

/- The scalar of an operand at the current offset. -/
def element
    (r : Registers)
    (s : Site)
    (o : Operand) : Option Scalar × Registers :=
  match o with
  | .scalar v => (some v, r)
  | .array a => (some (a.element r.offset), r)
  | .cell p => r.read s p
  | .area a =>
      match a.element r.offset with
      | .ok p => r.read s p
      | .error e => (some (.error e), r)

/- The scalar of the result at the current offset. -/
def result (r : Registers) (s : Site) : Option Scalar × Registers :=
  r.element s r.value

end Registers

------------------------------------------------------------
-- Folding Cells
------------------------------------------------------------

/- How a run over cells ended. -/
inductive Sweep (ε τ : Type) where
  /- All cells were read. -/
  | complete (t : τ)
  /- A step ended the run. -/
  | aborted (e : ε)
  /- Some cell could not be read. -/
  | waiting (t : τ)

/- What a run has gathered, and whether a cell was missing. -/
structure Gathering (τ : Type) where
  result : τ
  waiting : Bool
  registers : Registers

namespace Gathering

variable {ε τ : Type}

/- The end of a run. -/
abbrev Ended (ε τ : Type) := Sweep ε τ × Registers

/-
  Read a cell. One that has still to be calculated is noted,
  and one in a cycle ends the run.
-/
def read
    (s : Site)
    (p : Point)
    (g : Gathering τ) : Except (Ended ε τ) (Scalar × Gathering τ) :=
  match s.read p with
  | .value v => .ok (v, g)
  | .pending id =>
      .ok (.blank,
        { g with
          waiting := true
          registers := g.registers.await id })
  | .circular =>
      .error (.waiting g.result, g.registers.closeCycle)

/- Read a cell that may lie outside, where all is blank. -/
def readIf
    (inside : Bool)
    (s : Site)
    (p : Point)
    (g : Gathering τ) : Except (Ended ε τ) (Scalar × Gathering τ) :=
  if inside then g.read s p else .ok (.blank, g)

/- Gather more, unless a cell was missing. -/
def add
    (op : τ → Except ε τ)
    (g : Gathering τ) : Except (Ended ε τ) (Gathering τ) :=
  if g.waiting then
    .ok g
  else
    match op g.result with
    | .ok t => .ok { g with result := t }
    | .error e => .error (.aborted e, g.registers)

/- The end of a run that may have ended early. -/
def ending : Except (Ended ε τ) (Gathering τ) → Ended ε τ
  | .error ended => ended
  | .ok g =>
      (if g.waiting then .waiting g.result else .complete g.result,
        g.registers)

end Gathering

namespace Registers

variable {ε τ : Type}

/- Fold the cells of a rectangle, row by row. -/
def foldArea
    (r : Registers)
    (s : Site)
    (area : Rect)
    (op : Scalar → τ → Except ε τ)
    (t : τ) : Sweep ε τ × Registers :=
  Gathering.ending <|
    area.clip.foldUntil
      (fun p g => do
        let (v, g) ← g.read s p
        g.add (op v))
      ⟨t, false, r⟩

/-
  Fold the cells of a rectangle together with those at the
  same offsets of another one, which are blank outside it.
-/
def foldAreas
    (r : Registers)
    (s : Site)
    (first second : Rect)
    (op : Scalar → Scalar → τ → Except ε τ)
    (t : τ) : Sweep ε τ × Registers :=
  Gathering.ending <|
    (Rect.whole first.clip.size).foldUntil
      (fun p g => do
        let (v, g) ← g.read s (p.add first.origin.toSize)
        let (w, g) ←
          g.readIf (second.clip.size.contains p) s
            (p.add second.origin.toSize)
        g.add (op v w))
      ⟨t, false, r⟩

end Registers

end Spreadsheet
