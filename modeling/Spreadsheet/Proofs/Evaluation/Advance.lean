import Spreadsheet.Proofs.Evaluation.Visit

/-
  What an evaluation comes to at an offset.

  Main declarations:
    * `Site.reserve`
    * `Evaluation.Ready`
    * `Evaluation.Advances`
    * `Evaluation.advance_spec`
-/

namespace Spreadsheet

------------------------------------------------------------
-- Reserved Extents
------------------------------------------------------------

/-
  The extent that a formula reserves for a result: one that
  would cover cells in use has a single cell, and any other
  ends with the sheet.
-/
def Site.reserve (s : Site) (owner : Handle) (extent : Size) : Size :=
  if extent = Size.one then
    extent
  else
    let covered := (Rect.mk s.location extent).clip
    match covered.intersection (.whole s.grid.size) with
    | none => extent
    | some area =>
        if Registers.isObstructed s owner area then Size.one
        else covered.size

/- A formula reserves no more than its result covers. -/
theorem Site.reserve_fits
    (s : Site)
    (owner : Handle)
    {extent : Size}
    (hOne : Size.one.Fits extent) :
    (s.reserve owner extent).Fits extent := by
  unfold Site.reserve
  split
  · exact Size.Fits.refl _
  · dsimp only
    split
    · exact Size.Fits.refl _
    · split
      · exact hOne
      · exact ⟨min_le_left _ _, min_le_left _ _⟩

namespace Registers

/- Only the value and the extent are affected. -/
theorem spill_spec
    (r : Registers)
    (s : Site)
    (owner : Handle)
    {covers : Point → Prop}
    (hWithin : r.value.Within covers) :
    (r.spill s owner).suppressed = r.suppressed ∧
      (r.spill s owner).circular = r.circular ∧
      (r.spill s owner).offset = r.offset ∧
      (r.spill s owner).missing = r.missing ∧
      (r.spill s owner).extent = s.reserve owner r.extent ∧
      (r.spill s owner).value.Within covers := by
  unfold spill Site.reserve
  by_cases hOne : r.extent = Size.one
  · simpa [hOne] using hWithin
  · cases hShared :
        (Rect.mk s.location r.extent).clip.intersection
          (.whole s.grid.size) with
    | none => simpa [hOne, hShared] using hWithin
    | some area =>
        by_cases hObstructed : isObstructed s owner area = true
        · simp [hOne, hShared, hObstructed, publish, Operand.error,
            Operand.Within]
        · simpa [hOne, hShared, hObstructed] using hWithin

end Registers

------------------------------------------------------------
-- Evaluations
------------------------------------------------------------

namespace Evaluation

open Registers

/- An evaluation that can go on at an offset. -/
structure Ready (covers : Point → Prop) (ev : Evaluation) : Prop where
  suppressed : ev.registers.suppressed = false
  circular : ev.registers.circular = false
  missing : ev.registers.missing = #[]
  walk : ev.indexed = false → ev.walk = none
  value : ev.indexed = true → ev.registers.value.Within covers
  several : ev.indexed = true → ev.registers.value.isSingle = false
  offset : ev.indexed = true → ev.registers.offset ≠ Point.zero

theorem ready_start (covers : Point → Prop) : start.Ready covers where
  suppressed := rfl
  circular := rfl
  missing := rfl
  walk _ := rfl
  value h := by cases h
  several h := by cases h
  offset h := by cases h

/- The extent of a result at an offset. -/
def extentAt
    (s : Site)
    (owner : Handle)
    (e : Expr)
    (ev : Evaluation) : Size :=
  if ev.indexed then ev.registers.extent
  else if ev.registers.offset = Point.zero then
    s.reserve owner (s.extent e)
  else s.extent e

/- There is a scalar of the result, with its extent. -/
structure Yields
    (s : Site)
    (owner : Handle)
    (e : Expr)
    (covers : Point → Prop)
    (ev ev' : Evaluation) : Prop where
  suppressed : ev'.registers.suppressed = false
  circular : ev'.registers.circular = false
  missing : ev'.registers.missing = #[]
  offset : ev'.registers.offset = ev.registers.offset
  extent : ev'.registers.extent = ev.extentAt s owner e
  value : ev'.registers.value.Within covers
  indexed : ev'.indexed = !ev'.registers.value.isSingle
  kept : ev.indexed = true → ev'.indexed = true

/- What an evaluation can come to at an offset. -/
inductive Advances
    (s : Site)
    (owner : Handle)
    (e : Expr)
    (covers : Point → Prop)
    (ev : Evaluation) : Answer × Evaluation → Prop where
  | ready
      (v : Scalar)
      {ev' : Evaluation}
      (hYields : ev.Yields s owner e covers ev') :
      Advances s owner e covers ev (.ready v, ev')
  | circular
      (ev' : Evaluation)
      {p : Point}
      (hCovers : covers p)
      (hRead : s.read p = .circular) :
      Advances s owner e covers ev (.circular, ev')
  | waiting
      {ev' : Evaluation}
      (hSome : ev'.registers.missing.toList ≠ [])
      (hIds :
        ∀ id ∈ ev'.registers.missing.toList,
          ∃ p, covers p ∧ s.read p = .pending id) :
      Advances s owner e covers ev (.waiting, ev')

/- A cell that cannot be read is the reason to stop. -/
theorem advances_of_stops
    {s : Site}
    {owner : Handle}
    {e : Expr}
    {covers : Point → Prop}
    {ev : Evaluation}
    (ev' : Evaluation)
    {r : Registers}
    (hCircular : r.circular = false)
    (hMissing : r.missing = #[])
    (hStops : r.Stops s covers ev'.registers) :
    ev.Advances s owner e covers
      (Evaluation.missing ev'.registers, ev') := by
  unfold Evaluation.missing
  rcases hStops with
    ⟨hClosed, p, hCovers, hRead⟩ | ⟨hSame, ids, hSome, hIds, hAll⟩
  · rw [if_pos hClosed]
    exact .circular ev' hCovers hRead
  · rw [hSame, hCircular]
    rw [hMissing, Array.toList_empty, List.nil_append] at hIds
    exact .waiting (hIds ▸ hSome) (hIds ▸ hAll)

/- The scalar of a result is read at the current offset. -/
theorem yield_spec
    {s : Site}
    {owner : Handle}
    {e : Expr}
    {covers : Point → Prop}
    {ev ev' : Evaluation}
    (hSuppressed : ev'.registers.suppressed = false)
    (hCircular : ev'.registers.circular = false)
    (hMissing : ev'.registers.missing = #[])
    (hOffset : ev'.registers.offset = ev.registers.offset)
    (hExtent : ev'.registers.extent = ev.extentAt s owner e)
    (hValue : ev'.registers.value.Within covers)
    (hKept :
      ev.indexed = true → ev'.registers.value.isSingle = false) :
    ev.Advances s owner e covers (ev'.yield s) := by
  unfold yield
  rcases result_spec (s := s) hValue with
    ⟨v, hEq⟩ | ⟨r', hEq, hStops⟩
  · rw [hEq]
    exact
      .ready v
        ⟨hSuppressed, hCircular, hMissing, hOffset, hExtent, hValue,
          rfl, fun hIndexed => by simp [hKept hIndexed]⟩
  · rw [hEq]
    exact
      advances_of_stops { ev' with registers := r' }
        hCircular hMissing hStops

/- A walk over the expression comes to its end, or it stops. -/
theorem advance_cases
    {s : Site}
    (owner : Handle)
    {e : Expr}
    {Done : Expr → Registers → Registers → Prop}
    (hVisits : s.Visits Done (s.fuel e) e)
    {ev : Evaluation}
    (hFree : ev.indexed = false)
    (hWalk : ev.walk = none) :
    (∃ r, Done e ev.registers r ∧
        ev.advance s owner e = finish s owner ⟨some [], r, false⟩) ∨
      ∃ stack r, ev.registers.Stops s (s.Reads e) r ∧
        ev.advance s owner e =
          (Evaluation.missing r, ⟨some stack, r, false⟩) := by
  unfold advance
  rw [if_neg (by simp [hFree]), Walk.run, hWalk]
  dsimp only [Option.getD_none]
  rcases Walk.steps_of_reaches (hVisits [] ev.registers) with
    ⟨r, hDone, hEq⟩ | ⟨stack, r, hStops, hEq⟩
  · rw [hEq]
    exact Or.inl ⟨r, hDone, rfl⟩
  · rw [hEq]
    exact Or.inr ⟨stack, r, hStops, rfl⟩

/- At each offset there is a scalar, or a reason to stop. -/
theorem advance_spec
    {s : Site}
    (owner : Handle)
    {e : Expr}
    (hProper : e.Proper)
    (covers : Point → Prop)
    (hCovers : ∀ {p}, s.Reads e p → covers p)
    {ev : Evaluation}
    (hReady : ev.Ready covers) :
    ev.Advances s owner e covers (ev.advance s owner e) := by
  unfold advance
  split
  · rename_i hIndexed
    refine
      yield_spec hReady.suppressed hReady.circular hReady.missing rfl
        ?_ (hReady.value hIndexed) hReady.several
    rw [extentAt, if_pos hIndexed]
  · rename_i hNot
    have hFree : ev.indexed = false := by simpa using hNot
    have hVisits :=
      s.visits_of_proper hProper (Nat.le_max_right 1 (s.reach e).area)
    have hCases := advance_cases owner hVisits hFree (hReady.walk hFree)
    rw [advance, if_neg hNot] at hCases
    rcases hCases with ⟨r, hLeft, hEq⟩ | ⟨stack, r, hStops, hEq⟩
    · rw [hEq]
      have hValue : r.value.Within covers :=
        (hLeft.value hReady.suppressed).imp hCovers
      have hSuppressed := hLeft.suppressed.trans hReady.suppressed
      have hCircular := hLeft.circular.trans hReady.circular
      have hMissing := hLeft.missing.trans hReady.missing
      unfold finish
      dsimp only
      split
      · rename_i hZero
        rcases r.spill_spec s owner hValue with
          ⟨hSuppressed', hCircular', hOffset', hMissing', hExtent',
            hValue'⟩
        refine
          yield_spec (hSuppressed'.trans hSuppressed)
            (hCircular'.trans hCircular) (hMissing'.trans hMissing)
            (hOffset'.trans hLeft.offset) ?_ hValue'
            fun hIndexed => absurd hIndexed hNot
        rw [hLeft.offset] at hZero
        rw [extentAt, if_neg hNot, if_pos hZero, hExtent',
          hLeft.extent]
      · rename_i hLater
        refine
          yield_spec hSuppressed hCircular hMissing hLeft.offset ?_
            hValue fun hIndexed => absurd hIndexed hNot
        rw [hLeft.offset] at hLater
        rw [extentAt, if_neg hNot, if_neg hLater, hLeft.extent]
    · rw [hEq]
      exact
        advances_of_stops ⟨some stack, r, false⟩
          hReady.circular hReady.missing
          (hStops.imp hCovers)

/- An evaluation goes on at the next offset. -/
theorem ready_next?
    {s : Site}
    {owner : Handle}
    {e : Expr}
    {covers : Point → Prop}
    {ev ev' ev'' : Evaluation}
    (hYields : ev.Yields s owner e covers ev')
    (hNext : ev'.next? = some ev'') :
    ev''.Ready covers ∧
      ev'.registers.extent.next? ev.registers.offset =
        some ev''.registers.offset ∧
      ev''.registers.extent = ev'.registers.extent ∧
      ev''.indexed = ev'.indexed := by
  rw [next?, Option.map_eq_some_iff] at hNext
  rcases hNext with ⟨p, hOffset, rfl⟩
  have hLater := Size.next?_ne_zero hOffset
  refine ⟨⟨hYields.suppressed, hYields.circular, hYields.missing, ?_,
    fun _ => hYields.value, ?_, fun _ => hLater⟩, ?_, rfl, rfl⟩
  · intro hNot
    dsimp only at hNot ⊢
    rw [hNot]
    rfl
  · intro hIndexed
    dsimp only at hIndexed ⊢
    rw [hYields.indexed] at hIndexed
    simpa using hIndexed
  · rw [← hYields.offset]
    exact hOffset

end Evaluation

end Spreadsheet
