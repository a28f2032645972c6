import Spreadsheet.Proofs.Reference.Descent

/-
  Adjustments of references in a row.

  A formula that is copied and moved, on a sheet whose columns
  and rows are inserted and erased, has the list of references
  that was returned last. Whatever the adjustments were, each
  place of the list holds what they made, one after the other,
  of the reference that stood there first.

  Main declarations:
    * `Adjustment`
    * `Adjustment.descendant`
    * `Adjustment.list?_eq`
    * `Adjustment.descend`
    * `Adjustment.getElem?_applyAll`
-/

namespace Spreadsheet

/-
  What the references of a formula are adjusted to: the formula
  is copied or moved, or `count` columns or rows are erased or
  inserted while it stands at `anchor` along the axis.
-/
inductive Adjustment where
  | copy (dest : Point)
  | move (start dest : Point)
  | erasure (axis : Axis) (anchor first count : Nat)
  | insertion (axis : Axis) (anchor before count : Nat)

namespace Adjustment

------------------------------------------------------------
-- One Adjustment
------------------------------------------------------------

/- The list that an adjustment returns, if it returns one. -/
def list? : Adjustment → References → Option References
  | .copy dest, refs => refs.adjustToCopy? dest
  | .move start dest, refs => refs.adjustToMove? start dest
  | .erasure axis anchor first count, refs =>
      refs.adjustToErasure? axis anchor first count
  | .insertion axis anchor before count, refs =>
      refs.adjustToInsertion? axis anchor before count

/- What an adjustment makes of a single reference. -/
def descendant : Adjustment → Reference → Reference
  | .copy dest, r => r.adjustToCopy dest
  | .move start dest, r =>
      r.adjustToMove (dest.x - start.x) (dest.y - start.y)
  | .erasure axis anchor first count, r =>
      r.erased axis anchor first count
  | .insertion axis anchor before count, r =>
      r.inserted axis anchor before count

/- A list is returned exactly if a reference changes. -/
theorem list?_eq (a : Adjustment) (refs : References) :
    a.list? refs = refs.changed? a.descendant := by
  cases a with
  | copy dest => exact refs.adjustToCopy?_eq dest
  | move start dest => exact refs.adjustToMove?_eq start dest
  | erasure axis anchor first count =>
      exact refs.adjustToErasure?_eq axis anchor first count
  | insertion axis anchor before count =>
      exact refs.adjustToInsertion?_eq axis anchor before count

theorem list?_eq_none_iff {a : Adjustment} {refs : References} :
    a.list? refs = none ↔ refs.map a.descendant = refs := by
  rw [list?_eq, References.changed?_eq_none_iff]

/- The references go on as they were if no list is returned. -/
def apply (refs : References) (a : Adjustment) : References :=
  (a.list? refs).getD refs

theorem apply_eq_map (refs : References) (a : Adjustment) :
    apply refs a = refs.map a.descendant := by
  rw [apply, list?_eq, References.getD_changed?]

/- No adjustment makes an illegal reference legal. -/
@[simp] theorem descendant_illegal (a : Adjustment) :
    a.descendant .illegal = .illegal := by
  cases a with
  | copy dest => simp [descendant, Reference.adjustToCopy]
  | _ => rfl

------------------------------------------------------------
-- Adjustments In A Row
------------------------------------------------------------

/- The references after adjustments, the first one first. -/
def applyAll (as : List Adjustment) (refs : References) : References :=
  as.foldl apply refs

/- What adjustments make of a single reference. -/
def descend (as : List Adjustment) (r : Reference) : Reference :=
  as.foldl (fun r a => a.descendant r) r

theorem descend_illegal (as : List Adjustment) :
    descend as .illegal = .illegal := by
  induction as with
  | nil => rfl
  | cons a as ih =>
      rw [descend, List.foldl_cons, descendant_illegal]
      exact ih

theorem applyAll_eq_map (as : List Adjustment) (refs : References) :
    applyAll as refs = refs.map (descend as) := by
  induction as generalizing refs with
  | nil => exact (List.map_id refs).symm
  | cons a as ih =>
      have hRest := ih (apply refs a)
      rw [apply_eq_map, List.map_map] at hRest
      rw [applyAll, List.foldl_cons, apply_eq_map]
      exact hRest

theorem length_applyAll (as : List Adjustment) (refs : References) :
    (applyAll as refs).length = refs.length := by
  rw [applyAll_eq_map, List.length_map]

/- A place goes on to hold the descendant of its reference. -/
theorem getElem?_applyAll
    (as : List Adjustment)
    (refs : References)
    (i : Nat) :
    (applyAll as refs)[i]? = refs[i]?.map (descend as) := by
  rw [applyAll_eq_map, List.getElem?_map]

end Adjustment

end Spreadsheet
