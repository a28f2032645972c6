import Mathlib
import Spreadsheet.FormulaCell
import Spreadsheet.Proofs.Reference.Descent

/-
  What becomes of references when a formula is copied or
  moved.

  A copy keeps its references as they are written, and those
  that lead off the sheet from its cell are lost. A formula
  that is moved goes on addressing the same cells.

  Main declarations:
    * `FormulaCell.CopyAt`
    * `FormulaCell.MovedTo`
    * `FormulaCell.copyAt_copyTo`
    * `FormulaCell.movedTo_moveTo`
-/

namespace Spreadsheet

------------------------------------------------------------
-- Moved Anchors
------------------------------------------------------------

namespace Coord

theorem position_moveAnchor (c : Coord) (start dest : Nat) :
    (c.moveAnchor (dest - start)).position dest =
      c.position start := by
  cases c with
  | absolute p => rfl
  | relative d =>
      simp only [moveAnchor, position]
      omega

@[simp] theorem onSheet_moveAnchor
    (c : Coord)
    (start dest limit : Nat) :
    (c.moveAnchor (dest - start)).onSheet dest limit =
      c.onSheet start limit := by
  rw [onSheet, onSheet, position_moveAnchor]

@[simp] theorem index_moveAnchor (c : Coord) (start dest : Nat) :
    (c.moveAnchor (dest - start)).index dest = c.index start := by
  rw [index, index, position_moveAnchor]

end Coord

namespace Reference

/- The same cells are addressed from the new anchor. -/
theorem adjustToMove_spec
    (r : Reference)
    (start dest : Point) :
    (r.adjustToMove (dest.x - start.x) (dest.y - start.y)).onSheet
          dest =
        r.onSheet start ∧
      ∀ bounds,
        (r.adjustToMove (dest.x - start.x) (dest.y - start.y)).toRect?
            dest bounds =
          r.toRect? start bounds := by
  cases r with
  | cell x y => simp [adjustToMove, onSheet, toRect?]
  | area x y =>
      simp [adjustToMove, onSheet, toRect?, Span.map, Span.onSheet]
  | band axis s =>
      cases axis <;>
        simp [adjustToMove, onSheet, toRect?, Span.map, Span.onSheet,
          Span.low, Span.high, Span.count, Point.along]
  | illegal => exact ⟨rfl, fun _ => rfl⟩

end Reference

------------------------------------------------------------
-- Copied And Moved Formulas
------------------------------------------------------------

namespace FormulaCell

/-
  A formula is a copy of another one for a cell: it says the
  same, and each reference is kept unless it leads off the
  sheet from there. Its result is not there yet.
-/
structure CopyAt (f : FormulaCell) (q : Point) (g : FormulaCell) :
    Prop where
  location : g.location = q
  expr : g.expr = f.expr
  refs :
    g.refs =
      f.refs.map fun r => if r.onSheet q then r else .illegal
  extent : g.extent = Size.one

/-
  A formula was moved to a cell: it says the same, and each
  reference addresses what it addressed from the old cell.
-/
structure MovedTo (f : FormulaCell) (q : Point) (g : FormulaCell) :
    Prop where
  location : g.location = q
  expr : g.expr = f.expr
  refs :
    List.Forall₂
      (fun r r' : Reference =>
        r'.onSheet q = r.onSheet f.location ∧
          ∀ bounds, r'.toRect? q bounds = r.toRect? f.location bounds)
      f.refs g.refs
  extent : g.extent = f.extent
  value : g.value = f.value

theorem copyAt_copyTo (f : FormulaCell) (q : Point) :
    f.CopyAt q (f.copyTo q) := by
  refine ⟨rfl, rfl, ?_, rfl⟩
  change (f.refs.adjustToCopy? q).getD f.refs = _
  rw [References.adjustToCopy?_eq, References.getD_changed?]
  rfl

theorem refs_setRefs? (f : FormulaCell) (refs : Option References) :
    (f.setRefs? refs).refs = refs.getD f.refs := by
  cases refs <;> rfl

theorem movedTo_moveTo (f : FormulaCell) (q : Point) :
    f.MovedTo q (f.moveTo q) := by
  have hRefs :
      (f.moveTo q).refs =
        f.refs.map (·.adjustToMove (q.x - f.location.x)
          (q.y - f.location.y)) := by
    refine (refs_setRefs? f _).trans ?_
    rw [References.adjustToMove?_eq, References.getD_changed?]
  refine ⟨rfl, ?_, ?_, ?_, ?_⟩
  · unfold moveTo setRefs?
    split <;> rfl
  · rw [hRefs, List.forall₂_map_right_iff, List.forall₂_same]
    exact fun r _ => r.adjustToMove_spec f.location q
  · unfold moveTo setRefs?
    split <;> rfl
  · unfold moveTo setRefs?
    split <;> rfl

end FormulaCell

end Spreadsheet
