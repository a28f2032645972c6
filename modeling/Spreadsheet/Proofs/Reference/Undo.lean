import Spreadsheet.Proofs.Reference.Descent

/-
  References after an insertion was undone.

  A reference that was adjusted to an insertion, and is then
  adjusted to the erasure of what was inserted, is what it was
  before, unless it left the sheet in between.

  Main declarations:
    * `Coord.erase_of_insert`
    * `Span.erase?_of_insert`
    * `Reference.erase_of_insert`
-/

namespace Spreadsheet

/- Where an index is after an insertion. -/
def afterInsertion (before count i : Nat) : Nat :=
  if before ≤ i then i + count else i

variable {anchor before count limit : Nat}

------------------------------------------------------------
-- Coordinates
------------------------------------------------------------

/- No position lies on what was inserted. -/
theorem Coord.not_inBand_of_insert
    {c c' : Coord}
    (hInsert : c.insert? anchor before count limit = some c') :
    Span.inBand
        (c'.position (afterInsertion before count anchor)) before
        count =
      false := by
  unfold Coord.insert? at hInsert
  unfold Coord.position Span.inBand afterInsertion
  grind

theorem Coord.erase_of_insert
    {c c' : Coord}
    (hInsert : c.insert? anchor before count limit = some c') :
    c'.erase (afterInsertion before count anchor) before count =
      c := by
  unfold Coord.insert? at hInsert
  unfold Coord.erase afterInsertion
  grind

/- A single coordinate is not erased with what was inserted. -/
theorem Coord.erase?_of_insert
    {c c' : Coord}
    (hInsert : c.insert? anchor before count limit = some c') :
    c'.erase? (afterInsertion before count anchor) before count =
      some c := by
  rw [Coord.erase?, Coord.not_inBand_of_insert hInsert,
    Coord.erase_of_insert hInsert]
  rfl

------------------------------------------------------------
-- Spans
------------------------------------------------------------

theorem Span.erase?_of_insert
    {s s' : Span}
    (hInsert : s.insert? anchor before count limit = some s') :
    s'.erase? (afterInsertion before count anchor) before count =
      some s := by
  unfold Span.insert? at hInsert
  simp only [Option.bind_eq_bind, Option.bind_eq_some_iff,
    Option.some.injEq] at hInsert
  rcases hInsert with ⟨start, hStart, stop, hStop, rfl⟩
  simp only [Span.erase?, Coord.not_inBand_of_insert hStart,
    Coord.not_inBand_of_insert hStop, Coord.erase_of_insert hStart,
    Coord.erase_of_insert hStop, Bool.false_and, Bool.false_eq_true,
    if_false]

------------------------------------------------------------
-- References
------------------------------------------------------------

namespace Reference

/- Two adjustments of which the second undoes the first. -/
theorem adjustAlong_undo
    {axis : Axis}
    {single single' : Coord → Option Coord}
    {span span' : Span → Option Span}
    (hSingle :
      ∀ {c c'}, single c = some c' → single' c' = some c)
    (hSpan : ∀ {s s'}, span s = some s' → span' s' = some s)
    (r : Reference)
    (hLegal :
      r.adjustAlong axis single span = .illegal → r = .illegal) :
    (r.adjustAlong axis single span).adjustAlong axis single' span' =
      r := by
  cases r with
  | illegal => rfl
  | cell x y =>
      cases axis with
      | columns =>
          cases hx : single x with
          | none => simp [adjustAlong, hx] at hLegal
          | some x' => simp [adjustAlong, hx, hSingle hx]
      | rows =>
          cases hy : single y with
          | none => simp [adjustAlong, hy] at hLegal
          | some y' => simp [adjustAlong, hy, hSingle hy]
  | area x y =>
      cases axis with
      | columns =>
          cases hx : span x with
          | none => simp [adjustAlong, hx] at hLegal
          | some x' => simp [adjustAlong, hx, hSpan hx]
      | rows =>
          cases hy : span y with
          | none => simp [adjustAlong, hy] at hLegal
          | some y' => simp [adjustAlong, hy, hSpan hy]
  | band direction s =>
      by_cases hAxis : direction = axis
      · subst hAxis
        cases hs : span s with
        | none => simp [adjustAlong, hs] at hLegal
        | some s' => simp [adjustAlong, hs, hSpan hs]
      · simp [adjustAlong, hAxis]

/- A reference that stays legal is restored. -/
theorem erased_inserted
    (axis : Axis)
    (r : Reference)
    (hLegal :
      r.inserted axis anchor before count = .illegal →
        r = .illegal) :
    (r.inserted axis anchor before count).erased axis
        (afterInsertion before count anchor) before count =
      r :=
  adjustAlong_undo Coord.erase?_of_insert Span.erase?_of_insert r
    hLegal

end Reference

end Spreadsheet
