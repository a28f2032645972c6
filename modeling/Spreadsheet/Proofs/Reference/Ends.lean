import Mathlib
import Spreadsheet.Proofs.Geometry
import Spreadsheet.Proofs.Reference.Moves
import Spreadsheet.Proofs.Reference.Positions

/-
  What a reference says along one axis.

  A cell, an area, and whole rows have two ends along the rows;
  those of a cell are one coordinate. Whole columns have none,
  as they reach over all rows. Columns or rows that are erased
  or inserted change the ends along one axis, and what is
  addressed follows from the ends along both.

  Main declarations:
    * `Reference.endsAlong`
    * `Reference.indices`
    * `Reference.toRect?_eq`
    * `Reference.mem_indices`
    * `Reference.adjustAlong_eq`
    * `References.forall₂_changed?`
-/

namespace Spreadsheet

------------------------------------------------------------
-- Ends And Their Indices
------------------------------------------------------------

namespace Span

/- The ends of a span are seen at two indices. -/
def At (s : Span) (anchor p q : Nat) : Prop :=
  s.start.position anchor = p ∧ s.stop.position anchor = q

/- Two spans agree in which of their ends are fixed. -/
def SameMarks (s t : Span) : Prop :=
  t.start.isAbsolute = s.start.isAbsolute ∧
    t.stop.isAbsolute = s.stop.isAbsolute

variable {s : Span} {anchor limit p q : Nat}

theorem At.low (hAt : s.At anchor p q) : s.low anchor = min p q := by
  rw [Span.low, Coord.index_eq_of_position hAt.1,
    Coord.index_eq_of_position hAt.2]

theorem At.high (hAt : s.At anchor p q) :
    s.high anchor = max p q := by
  rw [Span.high, Coord.index_eq_of_position hAt.1,
    Coord.index_eq_of_position hAt.2]

theorem At.count (hAt : s.At anchor p q) :
    s.count anchor = max p q - min p q + 1 := by
  rw [Span.count, hAt.high, hAt.low]

theorem At.onSheet_iff (hAt : s.At anchor p q) :
    s.onSheet anchor limit = true ↔ p < limit ∧ q < limit := by
  rw [Span.onSheet, Bool.and_eq_true,
    Coord.onSheet_of_position hAt.1, Coord.onSheet_of_position hAt.2]

/- A span on the sheet has its ends at their indices. -/
theorem at_of_onSheet (hSheet : s.onSheet anchor limit = true) :
    s.At anchor (s.start.index anchor) (s.stop.index anchor) := by
  rw [Span.onSheet, Bool.and_eq_true] at hSheet
  exact
    ⟨Coord.position_eq_index hSheet.1,
      Coord.position_eq_index hSheet.2⟩

end Span

namespace Reference

/-
  The ends of a reference along an axis, in the order in which
  they are written.
-/
def endsAlong : Reference → Axis → Option Span
  | .cell x _, .columns => some ⟨x, x⟩
  | .cell _ y, .rows => some ⟨y, y⟩
  | .area x _, .columns => some x
  | .area _ y, .rows => some y
  | .band direction s, axis =>
      if direction = axis then some s else none
  | .illegal, _ => none

/- Give a reference that has ends along an axis other ones. -/
def setEnds (r : Reference) (axis : Axis) (s : Span) : Reference :=
  match r, axis with
  | .cell _ y, .columns => .cell s.start y
  | .cell x _, .rows => .cell x s.start
  | .area _ y, .columns => .area s y
  | .area x _, .rows => .area x s
  | .band direction _, _ => .band direction s
  | .illegal, _ => .illegal

/- The first index that a reference addresses along an axis. -/
def firstAlong (r : Reference) (axis : Axis) (anchor : Point) : Nat :=
  (r.endsAlong axis).elim 0 (·.low (anchor.along axis))

/- The number of indices that it addresses along an axis. -/
def countAlong
    (r : Reference)
    (axis : Axis)
    (anchor : Point)
    (bounds : Size) : Nat :=
  (r.endsAlong axis).elim (bounds.along axis)
    (·.count (anchor.along axis))

/-
  The columns or rows of the cells that a reference addresses,
  if the sheet is large enough.
-/
def indices
    (r : Reference)
    (axis : Axis)
    (anchor : Point) : Set Nat :=
  { i | ∃ bounds a p,
      r.toRect? anchor bounds = some a ∧ a.contains p = true ∧
        p.along axis = i }

variable
  {r : Reference}
  {axis : Axis}
  {anchor : Point}
  {s t : Span}

------------------------------------------------------------
-- Meaning
------------------------------------------------------------

theorem ne_illegal_of_endsAlong (hEnds : r.endsAlong axis = some s) :
    r ≠ .illegal := by
  rintro rfl
  cases axis <;> cases hEnds

/- A reference lies on the sheet if its ends do. -/
theorem onSheet_iff :
    r.onSheet anchor = true ↔
      r ≠ .illegal ∧
        ∀ axis s, r.endsAlong axis = some s →
          s.onSheet (anchor.along axis) (maxSize.along axis) =
            true := by
  have hAxes :
      ∀ p : Axis → Prop, (∀ axis, p axis) ↔ p .columns ∧ p .rows :=
    fun p =>
      ⟨fun hAll => ⟨hAll _, hAll _⟩, fun hBoth axis => by
        cases axis
        · exact hBoth.1
        · exact hBoth.2⟩
  cases r with
  | cell x y =>
      simp [hAxes, onSheet, endsAlong, Span.onSheet, Point.along,
        Size.along]
  | area x y =>
      simp [hAxes, onSheet, endsAlong, Point.along, Size.along]
  | band direction s => simp [onSheet, endsAlong]
  | illegal => simp [onSheet]

theorem onSheet_ends
    (hSheet : r.onSheet anchor = true)
    (hEnds : r.endsAlong axis = some s) :
    s.onSheet (anchor.along axis) (maxSize.along axis) = true :=
  (onSheet_iff.1 hSheet).2 axis s hEnds

/- What a reference addresses, by its ends along both axes. -/
theorem toRect?_eq
    (hLegal : r ≠ .illegal)
    (anchor : Point)
    (bounds : Size) :
    r.toRect? anchor bounds =
      some
        ⟨⟨r.firstAlong .columns anchor, r.firstAlong .rows anchor⟩,
          ⟨r.countAlong .columns anchor bounds,
            r.countAlong .rows anchor bounds⟩⟩ := by
  cases r with
  | cell x y =>
      simp [toRect?, Rect.single, Size.one, firstAlong, countAlong,
        endsAlong, Span.low, Span.high, Span.count, Point.along]
  | area x y => rfl
  | band direction s => cases direction <;> rfl
  | illegal => exact absurd rfl hLegal

/- The indices from the first one on, as many as there are. -/
theorem mem_indices_iff (hLegal : r ≠ .illegal) (i : Nat) :
    i ∈ r.indices axis anchor ↔
      ∃ bounds,
        (r.firstAlong axis anchor ≤ i ∧
            i < r.firstAlong axis anchor +
              r.countAlong axis anchor bounds) ∧
          0 < r.countAlong axis.cross anchor bounds := by
  constructor
  · rintro ⟨bounds, a, p, hRect, hIn, rfl⟩
    rw [toRect?_eq hLegal] at hRect
    cases hRect
    simp only [Rect.contains_iff] at hIn
    refine ⟨bounds, ?_⟩
    cases axis <;> simp only [Point.along, Axis.cross] <;> omega
  · rintro ⟨bounds, hAlong, hCross⟩
    cases axis with
    | columns =>
        refine
          ⟨bounds, _, ⟨i, r.firstAlong .rows anchor⟩,
            toRect?_eq hLegal anchor bounds, ?_, rfl⟩
        simp only [Axis.cross] at hCross
        simp only [Rect.contains_iff]
        omega
    | rows =>
        refine
          ⟨bounds, _, ⟨r.firstAlong .columns anchor, i⟩,
            toRect?_eq hLegal anchor bounds, ?_, rfl⟩
        simp only [Axis.cross] at hCross
        simp only [Rect.contains_iff]
        omega

theorem countAlong_of_ends
    (hEnds : r.endsAlong axis = some s)
    (anchor : Point)
    (bounds : Size) :
    r.countAlong axis anchor bounds = s.count (anchor.along axis) := by
  rw [countAlong, hEnds, Option.elim_some]

theorem firstAlong_of_ends
    (hEnds : r.endsAlong axis = some s)
    (anchor : Point) :
    r.firstAlong axis anchor = s.low (anchor.along axis) := by
  rw [firstAlong, hEnds, Option.elim_some]

/- Something is addressed if the sheet is not empty. -/
theorem countAlong_pos
    (r : Reference)
    (axis : Axis)
    (anchor : Point)
    {bounds : Size}
    (hBounds : 0 < bounds.along axis) :
    0 < r.countAlong axis anchor bounds := by
  cases hEnds : r.endsAlong axis with
  | none => simpa [countAlong, hEnds] using hBounds
  | some s =>
      rw [countAlong_of_ends hEnds, Span.count]
      exact Nat.succ_pos _

/- From its first index on, a reference addresses every index. -/
theorem mem_indices_of_ends
    (hEnds : r.endsAlong axis = some s)
    (anchor : Point)
    (i : Nat) :
    i ∈ r.indices axis anchor ↔
      s.low (anchor.along axis) ≤ i ∧
        i < s.low (anchor.along axis) + s.count (anchor.along axis) := by
  rw [mem_indices_iff (ne_illegal_of_endsAlong hEnds)]
  simp only [firstAlong_of_ends hEnds, countAlong_of_ends hEnds]
  constructor
  · rintro ⟨bounds, hIn, -⟩
    exact hIn
  · intro hIn
    refine ⟨Size.one, hIn, countAlong_pos r _ anchor ?_⟩
    cases axis <;> decide

/- These are the indices between its ends. -/
theorem mem_indices
    {p q : Nat}
    (hEnds : r.endsAlong axis = some s)
    (hAt : s.At (anchor.along axis) p q)
    (i : Nat) :
    i ∈ r.indices axis anchor ↔ min p q ≤ i ∧ i ≤ max p q := by
  rw [mem_indices_of_ends hEnds, hAt.low, hAt.count]
  omega

/- Without ends, it addresses all of them. -/
theorem indices_of_across
    (hLegal : r ≠ .illegal)
    (hAcross : r.endsAlong axis = none) :
    r.indices axis anchor = Set.univ := by
  refine Set.eq_univ_of_forall fun i => ?_
  rw [mem_indices_iff hLegal]
  refine ⟨⟨i + 1, i + 1⟩, ?_, countAlong_pos r _ anchor ?_⟩
  · cases axis <;>
      simp [firstAlong, countAlong, hAcross, Size.along]
  · cases axis <;> exact Nat.succ_pos i

/- The same ends address the same indices. -/
theorem indices_congr
    {r' : Reference}
    {anchor' : Point}
    (hLegal : r ≠ .illegal)
    (hLegal' : r' ≠ .illegal)
    (hEnds : r'.endsAlong axis = r.endsAlong axis)
    (hHere : anchor'.along axis = anchor.along axis) :
    r'.indices axis anchor' = r.indices axis anchor := by
  cases hCase : r.endsAlong axis with
  | none =>
      rw [indices_of_across hLegal hCase,
        indices_of_across hLegal' (hEnds.trans hCase)]
  | some s =>
      ext i
      rw [mem_indices_of_ends hCase,
        mem_indices_of_ends (hEnds.trans hCase), hHere]

@[simp] theorem indices_illegal :
    Reference.illegal.indices axis anchor = ∅ := by
  ext i
  simp [indices, toRect?]

------------------------------------------------------------
-- Other Ends
------------------------------------------------------------

theorem setEnds_ne_illegal
    (hLegal : r ≠ .illegal)
    (axis : Axis)
    (t : Span) :
    r.setEnds axis t ≠ .illegal := by
  cases r <;> cases axis <;> simp_all [setEnds]

/- The ends are replaced. Those of a cell are one coordinate. -/
theorem endsAlong_setEnds
    (hEnds : r.endsAlong axis = some s)
    (hOne : s.start = s.stop → t.start = t.stop) :
    (r.setEnds axis t).endsAlong axis = some t := by
  rcases t with ⟨start, stop⟩
  cases r with
  | cell x y =>
      cases axis <;> cases hEnds <;>
        · obtain rfl : start = stop := hOne rfl
          rfl
  | area x y => cases axis <;> rfl
  | band direction s' =>
      simp only [endsAlong, Option.ite_none_right_eq_some] at hEnds
      simp [setEnds, endsAlong, hEnds.1]
  | illegal => cases axis <;> cases hEnds

/- The ends along the other axis are not. -/
theorem endsAlong_cross_setEnds
    (hEnds : r.endsAlong axis = some s)
    (t : Span) :
    (r.setEnds axis t).endsAlong axis.cross =
      r.endsAlong axis.cross := by
  cases r with
  | cell x y => cases axis <;> rfl
  | area x y => cases axis <;> rfl
  | band direction s' =>
      simp only [endsAlong, Option.ite_none_right_eq_some] at hEnds
      rcases hEnds with ⟨rfl, -⟩
      cases direction <;> rfl
  | illegal => rfl

/- Off the sheet, only the ends that are replaced can lie. -/
theorem onSheet_setEnds_iff
    (hEnds : r.endsAlong axis = some s)
    (hOne : s.start = s.stop → t.start = t.stop)
    (hSheet : r.onSheet anchor = true)
    (i : Nat) :
    (r.setEnds axis t).onSheet (anchor.setAlong axis i) = true ↔
      t.onSheet i (maxSize.along axis) = true := by
  have hEnds' := endsAlong_setEnds hEnds hOne
  constructor
  · intro hSheet'
    have hOn := onSheet_ends hSheet' hEnds'
    rwa [Point.along_setAlong] at hOn
  · intro hOn
    refine
      onSheet_iff.2
        ⟨setEnds_ne_illegal (ne_illegal_of_endsAlong hEnds) axis t,
          fun axis' s' hEnds'' => ?_⟩
    by_cases hAxis : axis' = axis
    · subst hAxis
      rw [hEnds'] at hEnds''
      cases hEnds''
      rwa [Point.along_setAlong]
    · obtain rfl : axis' = axis.cross := by
        cases axis <;> cases axis' <;> first | rfl | exact absurd rfl hAxis
      rw [endsAlong_cross_setEnds hEnds] at hEnds''
      have hOn' := onSheet_ends hSheet hEnds''
      rwa [Point.along_cross_setAlong]

/- Only whole columns or rows have no ends along an axis. -/
theorem eq_band_of_across
    (hLegal : r ≠ .illegal)
    (hAcross : r.endsAlong axis = none) :
    ∃ s, r = .band axis.cross s := by
  cases r with
  | cell x y => cases axis <;> cases hAcross
  | area x y => cases axis <;> cases hAcross
  | band direction s =>
      refine ⟨s, ?_⟩
      cases axis <;> cases direction <;> first | rfl | cases hAcross
  | illegal => exact absurd rfl hLegal

/- They mean the same from any place along it. -/
theorem onSheet_of_across
    (hAcross : r.endsAlong axis = none)
    (anchor : Point)
    (i : Nat) :
    r.onSheet (anchor.setAlong axis i) = r.onSheet anchor := by
  by_cases hLegal : r = .illegal
  · subst hLegal
    rfl
  · rcases eq_band_of_across hLegal hAcross with ⟨s, rfl⟩
    rw [onSheet, onSheet, Point.along_cross_setAlong]

theorem toRect?_of_across
    (hAcross : r.endsAlong axis = none)
    (anchor : Point)
    (i : Nat)
    (bounds : Size) :
    r.toRect? (anchor.setAlong axis i) bounds =
      r.toRect? anchor bounds := by
  by_cases hLegal : r = .illegal
  · subst hLegal
    rfl
  · rcases eq_band_of_across hLegal hAcross with ⟨s, rfl⟩
    rw [toRect?, toRect?, Point.along_cross_setAlong]

/-
  An adjustment along an axis replaces the ends along it, if
  it treats a single coordinate as two equal ends.
-/
theorem adjustAlong_eq
    {single : Coord → Option Coord}
    {span : Span → Option Span}
    (hSingle : ∀ c, span ⟨c, c⟩ = (single c).map fun c => ⟨c, c⟩)
    (axis : Axis)
    (r : Reference) :
    r.adjustAlong axis single span =
      (r.endsAlong axis).elim r fun s =>
        (span s).elim .illegal (r.setEnds axis) := by
  cases r with
  | cell x y =>
      cases axis with
      | columns =>
          simp only [adjustAlong, endsAlong, Option.elim_some, hSingle]
          cases single x <;> rfl
      | rows =>
          simp only [adjustAlong, endsAlong, Option.elim_some, hSingle]
          cases single y <;> rfl
  | area x y => cases axis <;> rfl
  | band direction s =>
      simp only [adjustAlong, endsAlong]
      split
      · rename_i hAxis
        subst hAxis
        rfl
      · rfl
  | illegal => cases axis <;> rfl

end Reference

------------------------------------------------------------
-- Lists
------------------------------------------------------------

namespace References

/-
  The references that a formula has after an adjustment are
  the adjusted ones, and a list is returned only if some of
  them are others than before.
-/
theorem forall₂_changed?
    {rel : Reference → Reference → Prop}
    {become : Reference → Reference}
    (hEach : ∀ r, rel r (become r))
    (refs : References) :
    List.Forall₂ rel refs ((refs.changed? become).getD refs) ∧
      (refs.changed? become = none ↔
        (refs.changed? become).getD refs = refs) := by
  rw [getD_changed?]
  refine ⟨?_, changed?_eq_none_iff⟩
  rw [List.forall₂_map_right_iff, List.forall₂_same]
  exact fun r _ => hEach r

end References

end Spreadsheet
