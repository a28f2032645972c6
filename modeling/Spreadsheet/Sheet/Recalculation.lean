import Spreadsheet.Evaluation.Evaluator
import Spreadsheet.Sheet.Basic
import Spreadsheet.Sheet.Spill

/-
  Calculating the formulas of a sheet.

  Formulas are calculated in the order of their list. One
  that needs others first is interrupted: they are moved in
  front of it and calculated before it is begun again. One
  that needs a formula which was itself interrupted is part
  of a cycle, and results in `#REF!`.

  Key definitions include:
    * `Sheet.evaluate`
    * `Sheet.recalculate`
    * `Sheet.refresh`
-/

namespace Spreadsheet

namespace Sheet

------------------------------------------------------------
-- Single Formulas
------------------------------------------------------------

/- The sheet as a formula sees it. -/
def site (s : Sheet) (f : FormulaCell) : Site :=
  ⟨s.grid, s.formulas, f.refs, f.location, s.generation⟩

/- The result of a formula covers its own cell only. -/
def collapse (s : Sheet) (id : Handle) : Sheet :=
  match s.formulas.get? id with
  | none => s
  | some f =>
      if f.extent = Size.one then
        s
      else
        { s.modifyFormula id ({ · with extent := Size.one }) with
          grid := s.grid.clearSpill id f.area }

/- The result of a formula covers a given extent. -/
def resize (s : Sheet) (id : Handle) (extent : Size) : Sheet :=
  match s.formulas.get? id with
  | none => s
  | some f =>
      if f.extent = extent then
        s
      else
        { s.modifyFormula id ({ · with extent := extent }) with
          grid := s.grid.resizeSpill id f.location f.extent extent }

/- The value that the cell of a formula shows. -/
def setValueOf (s : Sheet) (id : Handle) (v : Scalar) : Sheet :=
  s.modifyFormula id ({ · with value := v })

/- Store a scalar of the result of a formula. -/
def store
    (s : Sheet)
    (id : Handle)
    (ev : Evaluation)
    (v : Scalar) : Sheet :=
  let offset := ev.registers.offset
  if offset = Point.zero then
    (s.resize id ev.registers.extent).setValueOf id v
  else
    match s.formulas.get? id with
    | none => s
    | some f =>
        { s with
          grid :=
            s.grid.change (Spill.write v)
              (f.location.add offset.toSize) }

/-
  How the calculation of a formula ended: with a result, in a
  cycle, or with formulas that have to be calculated first.
-/
inductive Verdict where
  | finished
  | circular
  | interrupted (missing : List Handle)
deriving DecidableEq

/- Evaluate a formula for at most so many offsets. -/
def evaluateFrom
    (id : Handle)
    (f : FormulaCell) :
    Nat → Evaluation → Sheet → Verdict × Sheet
  | 0, _, s => (.finished, s)
  | fuel + 1, ev, s =>
      match ev.advance (s.site f) id f.expr with
      | (.waiting, ev) =>
          (.interrupted ev.registers.missing.toList, s)
      | (.circular, _) =>
          (.circular,
            (s.collapse id).setValueOf id (.error .badReference))
      | (.ready v, ev) =>
          let s := s.store id ev v
          match ev.next? with
          | none => (.finished, s)
          | some ev => evaluateFrom id f fuel ev s

/-
  The number of offsets that a result can have, however far
  the sheet is used.
-/
def offsetBound (s : Sheet) (f : FormulaCell) : Nat :=
  let s := { s.site f with grid := s.grid.expand maxSize }
  max 1 (s.reach f.expr).area

/- Evaluate a formula at all offsets of its result. -/
def evaluate
    (s : Sheet)
    (id : Handle)
    (f : FormulaCell) : Verdict × Sheet :=
  s.evaluateFrom id f (s.offsetBound f) .start

------------------------------------------------------------
-- All Formulas
------------------------------------------------------------

/-
  Move formulas in front of another one, each before the one
  that was moved last. Returns the first of them.
-/
def schedule
    (id : Handle)
    (missing : List Handle)
    (formulas : FormulaList) : Handle × FormulaList :=
  missing.foldl
    (fun (before, formulas) h =>
      if h = before then (before, formulas)
      else (h, formulas.moveBefore h before))
    (id, formulas)

/- A formula was calculated; go on with the next one. -/
def finish
    (s : Sheet)
    (id : Handle)
    (blocked : Bool) : Option Handle × Sheet :=
  let s := s.modifyFormula id (·.finish s.generation blocked)
  (s.formulas.next? id, s)

/- Calculate a formula, and say which one comes next. -/
def recalculateOne
    (s : Sheet)
    (id : Handle)
    (f : FormulaCell) : Option Handle × Sheet :=
  match (s.modifyFormula id (·.setInProgress true)).evaluate id f with
  | (.finished, s) => s.finish id false
  | (.circular, s) => s.finish id true
  | (.interrupted [], s) =>
      (s.setValueOf id (.error .badReference)).finish id true
  | (.interrupted missing, s) =>
      let (first, formulas) := schedule id missing s.formulas
      (some first, { s with formulas := formulas })

/- Calculate stale formulas from a given one on. -/
def recalculateFrom : Nat → Option Handle → Sheet → Sheet
  | 0, _, s => s
  | _, none, s => s
  | fuel + 1, some id, s =>
      match s.formulas.get? id with
      | none => s
      | some f =>
          if f.isStale s.generation then
            let (next, s) := s.recalculateOne id f
            recalculateFrom fuel next s
          else
            recalculateFrom fuel (s.formulas.next? id) s

/-
  The number of steps of a calculation of all formulas. Each
  time that one is interrupted, others are calculated before
  it is begun again, so it happens at most once for each of
  the others.
-/
def stepBound (s : Sheet) : Nat :=
  (s.formulas.size + 1) * (s.formulas.size + 1)

/- Calculate all formulas. -/
def recalculate (s : Sheet) : Sheet :=
  { s with generation := !s.generation }.recalculateFrom s.stepBound
    s.formulas.first?

/- Calculate all formulas, unless calculation is held back. -/
def refresh (s : Sheet) : Sheet :=
  if s.suspended = 0 && s.config.autoRecalc then s.recalculate
  else s

------------------------------------------------------------
-- Holding Calculation Back
------------------------------------------------------------

/- Hold calculation back until it is resumed. -/
def suspend (s : Sheet) : Sheet :=
  { s with suspended := s.suspended + 1 }

/- Undo one suspension. -/
def resume (s : Sheet) : Except SheetError Sheet :=
  if s.suspended = 0 then .error .notSuspended
  else .ok { s with suspended := s.suspended - 1 }.refresh

/- Run commands without calculating in between. -/
def batch
    {α : Type}
    (commands : Sheet → α × Sheet)
    (s : Sheet) : α × Sheet :=
  let (a, t) := commands s.suspend
  (a, { t with suspended := s.suspended }.refresh)

end Sheet

end Spreadsheet
