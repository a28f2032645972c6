import Spreadsheet.Reference.Basic

/-
  Adjusting the references of a formula to changes of its
  place and of the sheet.

  A formula keeps its references in a list. An adjustment
  returns a new list only if some reference changes, so that
  formulas can go on sharing the list they have. The same holds
  of single references.

  Key definitions include:
    * `Reference.adjustToCopy?`
    * `Reference.adjustToMove?`
    * `Reference.adjustAlong?`
    * `References`
    * `References.adjustToCopy?`
    * `References.adjustToMove?`
    * `References.adjustToErasure?`
    * `References.adjustToInsertion?`
-/

namespace Spreadsheet

------------------------------------------------------------
-- Single References
------------------------------------------------------------

namespace Reference

/-
  What a reference becomes when one of its parts does. It
  becomes illegal without a new part, and nothing is returned
  if the part stays as it is.
-/
def replacePart?
    {α : Type}
    [DecidableEq α]
    (old : α)
    (new : Option α)
    (build : α → Reference) : Option Reference :=
  match new with
  | none => some .illegal
  | some part => if part = old then none else some (build part)

/- A copy whose reference leaves the sheet has none. -/
def adjustToCopy? (r : Reference) (dest : Point) : Option Reference :=
  match r with
  | .illegal => none
  | r => if r.onSheet dest then none else some .illegal

/- Keep addressing the same cells from a moved anchor. -/
def adjustToMove (r : Reference) (dx dy : Int) : Reference :=
  match r with
  | .cell x y => .cell (x.moveAnchor dx) (y.moveAnchor dy)
  | .area x y =>
      .area (x.map (·.moveAnchor dx)) (y.map (·.moveAnchor dy))
  | .band .columns s => .band .columns (s.map (·.moveAnchor dx))
  | .band .rows s => .band .rows (s.map (·.moveAnchor dy))
  | .illegal => .illegal

/- A reference that is moved, unless it stays as it is. -/
def adjustToMove?
    (r : Reference)
    (dx dy : Int) : Option Reference :=
  let moved := r.adjustToMove dx dy
  if moved = r then none else some moved

/-
  Change what a reference says along one axis; it becomes
  illegal where a change fails. Bands across the axis stay.
-/
def adjustAlong?
    (axis : Axis)
    (single : Coord → Option Coord)
    (span : Span → Option Span) : Reference → Option Reference
  | .cell x y =>
      match axis with
      | .columns => replacePart? x (single x) (.cell · y)
      | .rows => replacePart? y (single y) (.cell x ·)
  | .area x y =>
      match axis with
      | .columns => replacePart? x (span x) (.area · y)
      | .rows => replacePart? y (span y) (.area x ·)
  | .band direction s =>
      if direction = axis then
        replacePart? s (span s) (.band axis ·)
      else
        none
  | .illegal => none

end Reference

------------------------------------------------------------
-- Lists Of References
------------------------------------------------------------

/- The references of a formula, in the order of the text. -/
abbrev References := List Reference

namespace References

/-
  Put what a reference becomes into the adjusted list, which
  is a copy of the old one as soon as a reference changes.
-/
def replaceEntry
    (refs : References)
    (change : Reference → Option Reference)
    (adjusted : Option References)
    (entry : Reference × Nat) : Option References :=
  match change entry.1 with
  | none => adjusted
  | some r => some ((adjusted.getD refs).set entry.2 r)

/- Adjust every reference; none if nothing changes. -/
def adjust?
    (refs : References)
    (change : Reference → Option Reference) : Option References :=
  refs.zipIdx.foldl (refs.replaceEntry change) none

/- The formula was copied to `dest`. -/
def adjustToCopy?
    (refs : References)
    (dest : Point) : Option References :=
  refs.adjust? (·.adjustToCopy? dest)

/- The formula moved and keeps addressing the same cells. -/
def adjustToMove?
    (refs : References)
    (start dest : Point) : Option References :=
  if start = dest then
    none
  else
    refs.adjust?
      (·.adjustToMove? (dest.x - start.x) (dest.y - start.y))

/-
  The `count` columns or rows from `first` on were erased;
  the formula was at `anchor` along the axis before.
-/
def adjustToErasure?
    (refs : References)
    (axis : Axis)
    (anchor first count : Nat) : Option References :=
  refs.adjust?
    (·.adjustAlong? axis
      (·.erase? anchor first count)
      (·.erase? anchor first count))

/-
  `count` columns or rows were inserted before `before`; the
  formula was at `anchor` along the axis before.
-/
def adjustToInsertion?
    (refs : References)
    (axis : Axis)
    (anchor before count : Nat) : Option References :=
  refs.adjust?
    (·.adjustAlong? axis
      (·.insert? anchor before count (maxSize.along axis))
      (·.insert? anchor before count (maxSize.along axis)))

end References

end Spreadsheet
