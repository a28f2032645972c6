import Spreadsheet.Proofs.Grid.Counting
import Spreadsheet.Proofs.Grid.Shift

/-
  Grids that operations lead to.

  Whatever visitors and movers do, the tile tree of such a
  grid stands for finitely many cells, which lie in the part
  in use. Each tile counts the cells beneath it, there is no
  tile without any, and changing cells has its effect on these
  cells alone.

  Main declarations:
    * `Grid.Step`
    * `Grid.Reachable`
    * `Grid.Tidy.step`
    * `Grid.Faithful`
    * `Grid.faithful_of_reachable`
-/

namespace Spreadsheet

variable {α σ : Type}

------------------------------------------------------------
-- Operations
------------------------------------------------------------

/- A rectangle begins on the sheet and ends with it or before. -/
def Rect.InLimits (r : Rect) : Prop :=
  maxSize.contains r.origin = true ∧
    r.endPoint.toSize.Fits maxSize

namespace CellMover

/- The cell that is taken from is empty, unless it is put into. -/
theorem Moves.emptied_of_plan
    {κ : Type}
    [DecidableEq κ]
    {m : CellMover α σ}
    (hMoves : m.Moves)
    {source dest : κ}
    {before after : Contents κ α × σ}
    (hFollows : (m.plan source dest).Follows before after)
    (hOther : dest ≠ source) :
    after.1 source = none := by
  rcases hFollows with - | ⟨hTake, hPut⟩
  rw [hPut.of_not_mem (by simpa using hOther)]
  dsimp only
  rw [Function.update_self]
  rcases hTake.fst_cases with hVisit | ⟨-, hNone⟩
  · exact hVisit.trans (hMoves _ _)
  · exact hNone

/-
  Cells that are taken from, or were empty, are empty in the
  end, unless they are put into.
-/
theorem Moves.emptied
    {κ : Type}
    [DecidableEq κ]
    {m : CellMover α σ}
    (hMoves : m.Moves)
    {key : Point → κ}
    {turns : List (Point × Point)}
    {before after : Contents κ α × σ}
    (hCarries : m.Carries key turns before after)
    {k : κ}
    (hTaken : before.1 k = none ∨ ∃ turn ∈ turns, key turn.1 = k)
    (hFree : ∀ turn ∈ turns, key turn.2 ≠ k) :
    after.1 k = none := by
  induction hCarries with
  | nil => simpa using hTaken
  | @cons turn turns before between after hTurn _ ih =>
      rw [List.forall_mem_cons] at hFree
      refine ih ?_ hFree.2
      rw [List.exists_mem_cons_iff] at hTaken
      rcases hTaken with hNone | rfl | hLater
      · left
        by_contra hSome
        rcases hMoves.takesOnly.filled_of_plan hTurn hSome with
          hOld | hDest
        · exact hOld hNone
        · exact hFree.1 hDest
      · exact .inl (hMoves.emptied_of_plan hTurn hFree.1)
      · exact .inr hLater

end CellMover

namespace Grid

/-
  An operation within the limits of the sheet, with any
  visitor or mover, and from any state of it on.
-/
inductive Step (g : Grid α) : Grid α → Prop
  | modifyCell
      {σ : Type}
      (v : CellVisitor α σ)
      (p : Point)
      (s : σ)
      (hOn : maxSize.contains p = true) :
      Step g (g.modifyCell v p s).1
  | modifyCells
      {σ : Type}
      (v : CellVisitor α σ)
      (r : Rect)
      (s : σ)
      (hLimits : r.InLimits) :
      Step g (g.modifyCells v r s).1
  | transferCells
      {σ : Type}
      (m : CellMover α σ)
      (source : Rect)
      (dest : Point)
      (s : σ)
      (hTakes : m.Copies ∨ m.Moves)
      (hSource : maxSize.contains source.origin = true)
      (hDest : (dest.toSize.add source.size).Fits maxSize) :
      Step g (g.transferCells m source dest s).1
  | spreadCell
      {σ : Type}
      (m : CellMover α σ)
      (source : Point)
      (dest : Rect)
      (s : σ)
      (hTakes : m.Copies ∨ m.Moves)
      (hSource : maxSize.contains source = true)
      (hDest : dest.endPoint.toSize.Fits maxSize) :
      Step g (g.spreadCell m source dest s).1
  | deleteBand
      {σ : Type}
      (axis : Axis)
      (m : CellMover α σ)
      (i count : Nat)
      (s : σ)
      (hMoves : m.Moves)
      (hLimits : i + count ≤ maxSize.along axis) :
      Step g (g.deleteBand axis m i count s).1
  | insertBand
      {σ : Type}
      (axis : Axis)
      (m : CellMover α σ)
      (i count : Nat)
      (s : σ)
      (hMoves : m.Moves)
      (hLimits :
        max (g.size.along axis) i + count ≤ maxSize.along axis) :
      Step g (g.insertBand axis m i count s).1
  | expand (size : Size) (hLimits : size.Fits maxSize) :
      Step g (g.expand size)
  | clear : Step g .empty

/- A grid that operations lead to from the empty one. -/
inductive Reachable : Grid α → Prop
  | empty : Reachable .empty
  | step
      {g g' : Grid α}
      (hReach : Reachable g)
      (hStep : g.Step g') :
      Reachable g'

------------------------------------------------------------
-- Tidy Grids
------------------------------------------------------------

/-
  Counts are exact, the part in use does not exceed the sheet,
  and all slots that are filled belong to cells of this part.
-/
structure Tidy (g : Grid α) : Prop where
  sound : g.Sound
  fits : g.size.Fits maxSize
  placed :
    ∀ k, g.look k ≠ none →
      ∃ p, g.size.contains p = true ∧ p.key = k

theorem tidy_empty : (empty : Grid α).Tidy where
  sound := sound_empty
  fits := ⟨Nat.zero_le _, Nat.zero_le _⟩
  placed _ hSome := absurd rfl hSome

variable {g g' : Grid α}

/- The part in use grows along with the cells. -/
theorem Tidy.grow
    (hTidy : g.Tidy)
    (hSound : g'.Sound)
    (hGrown : g.size.Fits g'.size)
    (hFits : g'.size.Fits maxSize)
    (hNew :
      ∀ k, g'.look k ≠ none →
        g.look k ≠ none ∨
          ∃ p, g'.size.contains p = true ∧ p.key = k) :
    g'.Tidy := by
  refine ⟨hSound, hFits, fun k hSome => ?_⟩
  rcases hNew k hSome with hOld | hHere
  · rcases hTidy.placed k hOld with ⟨p, hIn, hKey⟩
    exact ⟨p, hGrown.contains hIn, hKey⟩
  · exact hHere

theorem Tidy.expand
    (hTidy : g.Tidy)
    {size : Size}
    (hLimits : size.Fits maxSize) :
    (g.expand size).Tidy :=
  hTidy.grow hTidy.sound (Size.fits_sup_left _ _)
    (Size.sup_fits hTidy.fits hLimits) fun _ => .inl

theorem Tidy.modifyCell
    (hTidy : g.Tidy)
    (v : CellVisitor α σ)
    {p : Point}
    (s : σ)
    (hOn : maxSize.contains p = true) :
    (g.modifyCell v p s).1.Tidy := by
  rcases follows_look_modifyCell v hTidy.sound p s with
    ⟨hSound, hFollows⟩
  refine
    hTidy.grow hSound (fits_size_modifyCell v p g s) ?_ fun k hSome => ?_
  · rw [size_modifyCell]
    exact Size.sup_fits hTidy.fits (Size.contains_iff.mp hOn)
  · rcases hFollows.filled hSome with hOld | ⟨entry, hIn, hKey⟩
    · exact .inl hOld
    · rw [List.mem_singleton.mp hIn] at hKey
      exact .inr ⟨p, contains_size_modifyCell v p g s, hKey⟩

theorem Tidy.modifyCells
    (hTidy : g.Tidy)
    (v : CellVisitor α σ)
    {r : Rect}
    (s : σ)
    (hEnd : r.endPoint.toSize.Fits maxSize) :
    (g.modifyCells v r s).1.Tidy := by
  rcases follows_look_visitCells v hTidy.sound r s with
    ⟨hSound, l, hList, hFollows⟩
  have hSize := size_modifyCells v r g s
  refine
    hTidy.grow hSound
      (by rw [hSize]; exact Size.fits_sup_left _ _)
      (by rw [hSize]; exact Size.sup_fits hTidy.fits hEnd)
      fun k hSome => ?_
  rcases hFollows.filled hSome with hOld | ⟨entry, hIn, hKey⟩
  · exact .inl hOld
  · rw [TopTile.keys, Plan.each, List.map_map, List.mem_map] at hIn
    rcases hIn with ⟨p, hIn, rfl⟩
    exact .inr ⟨p,
      contains_size_modifyCells ((hList.mem_iff p).mp hIn) v g s,
      hKey⟩

/- Turns that end in the part in use keep a grid tidy. -/
theorem Tidy.runs
    (hTidy : g.Tidy)
    {m : CellMover α σ}
    (hTakes : m.TakesOnly)
    {turns : List (Point × Point)}
    {s : σ}
    {after : Grid α × σ}
    (hSound : after.1.Sound)
    (hRuns : m.Runs turns (g.look, s) (after.1.look, after.2))
    (hGrown : g.size.Fits after.1.size)
    (hFits : after.1.size.Fits maxSize)
    (hIn : ∀ turn ∈ turns, after.1.size.contains turn.2 = true) :
    after.1.Tidy := by
  refine hTidy.grow hSound hGrown hFits fun k hSome => ?_
  rcases hTakes.filled_of_runs hRuns hSome with
    hOld | ⟨turn, hTurn, hKey⟩
  · exact .inl hOld
  · exact .inr ⟨turn.2, hIn turn hTurn, hKey⟩

theorem Tidy.transferCells
    (hTidy : g.Tidy)
    {m : CellMover α σ}
    (hTakes : m.TakesOnly)
    (source : Rect)
    {dest : Point}
    (s : σ)
    (hDest : (dest.toSize.add source.size).Fits maxSize) :
    (g.transferCells m source dest s).1.Tidy := by
  by_cases hEmpty : source.isEmpty = true
  · rw [Grid.transferCells, if_pos hEmpty]
    exact hTidy
  · rcases runs_transferCells m hTidy.sound source dest s with
      ⟨hSound, hRuns⟩
    have hSize := size_transferCells m source dest g s
    rw [if_neg hEmpty] at hSize
    refine hTidy.runs hTakes hSound hRuns ?_ ?_ fun turn hTurn =>
      contains_size_transferCells hEmpty hTurn m g s
    · rw [hSize]
      exact Size.fits_sup_left _ _
    · rw [hSize]
      exact Size.sup_fits hTidy.fits hDest

theorem Tidy.spreadCell
    (hTidy : g.Tidy)
    {m : CellMover α σ}
    (hTakes : m.TakesOnly)
    (source : Point)
    {dest : Rect}
    (s : σ)
    (hDest : dest.endPoint.toSize.Fits maxSize) :
    (g.spreadCell m source dest s).1.Tidy := by
  rcases runs_spreadCell m hTidy.sound source dest s with
    ⟨hSound, hRuns⟩
  have hSize := size_spreadCell m source dest g s
  refine hTidy.runs hTakes hSound hRuns ?_ ?_ fun turn hTurn =>
    contains_size_spreadCell hTurn m g s
  · rw [hSize]
    exact Size.fits_sup_left _ _
  · rw [hSize]
    exact Size.sup_fits hTidy.fits hDest

------------------------------------------------------------
-- Columns And Rows
------------------------------------------------------------

/- The part in use is given up where no cell is. -/
theorem Tidy.resize
    (hTidy : g.Tidy)
    {size : Size}
    (hFits : size.Fits maxSize)
    (hKept :
      ∀ p, g.size.contains p = true → g.look p.key ≠ none →
        size.contains p = true) :
    Tidy { g with size := size } := by
  refine ⟨hTidy.sound, hFits, fun k hSome => ?_⟩
  rcases hTidy.placed k hSome with ⟨p, hIn, rfl⟩
  exact ⟨p, hKept p hIn hSome, rfl⟩

/- The cells of a rectangle are emptied. -/
theorem Tidy.erase
    (hTidy : g.Tidy)
    {m : CellMover α σ}
    (hMoves : m.Moves)
    (r : Rect)
    (s : σ) :
    (g.visitCells m.eraser r s).1.Tidy ∧
      ∀ k, (g.visitCells m.eraser r s).1.look k ≠ none →
        g.look k ≠ none ∧ ∀ p, r.contains p = true → p.key ≠ k := by
  rcases follows_look_visitCells m.eraser hTidy.sound r s with
    ⟨hSound, l, hList, hFollows⟩
  have hEmpties : ∀ slot s, (m.eraser.visit slot s).1 = none := hMoves
  have hLeft :
      ∀ k, (g.visitCells m.eraser r s).1.look k ≠ none →
        g.look k ≠ none ∧ ∀ p, r.contains p = true → p.key ≠ k := by
    intro k hSome
    constructor
    · intro hNone
      exact hSome (hFollows.emptied hEmpties (.inr hNone))
    · rintro p hIn rfl
      refine hSome (hFollows.emptied hEmpties (.inl ?_))
      exact List.mem_map_of_mem ((hList.mem_iff p).mpr hIn)
  refine ⟨?_, hLeft⟩
  refine
    hTidy.grow hSound (by rw [size_visitCells]; exact .refl _)
      (by rw [size_visitCells]; exact hTidy.fits)
      fun k hSome => .inl (hLeft k hSome).1

section Bands

variable (axis : Axis) {m : CellMover α σ} {i j n : Nat}
variable {bounds : Size}

/- A band ends within the limits if it does so along its axis. -/
theorem fits_band
    (hBounds : bounds.Fits maxSize)
    (hEnd : j + n ≤ maxSize.along axis) :
    ((Point.zero.setAlong axis j).toSize.add
      (Rect.band axis i n bounds).size).Fits maxSize := by
  rw [fits_iff_along axis] at hBounds ⊢
  cases axis with
  | columns =>
      simp only [Point.setAlong, Point.zero, Point.toSize, Size.add,
        Rect.band, Rect.of, Size.along, Axis.cross] at *
      omega
  | rows =>
      simp only [Point.setAlong, Point.zero, Point.toSize, Size.add,
        Rect.band, Rect.of, Size.along, Axis.cross] at *
      omega

/- How far the part in use reaches when a band was moved. -/
theorem contains_size_transferBand
    {s : σ}
    {p : Point}
    (hIn :
      (g.transferCells m (Rect.band axis i n g.size)
        (Point.zero.setAlong axis j) s).1.size.contains p = true) :
    p.along axis < max (g.size.along axis) (j + n) ∧
      p.along axis.cross < g.size.along axis.cross := by
  rw [size_transferCells] at hIn
  split at hIn
  · rw [contains_iff_along axis] at hIn
    omega
  · rw [contains_iff_along axis] at hIn
    cases axis with
    | columns =>
        simp only [Point.setAlong, Point.zero, Point.toSize,
          Size.add, Size.sup, Rect.band, Rect.of, Size.along,
          Point.along, Axis.cross] at *
        omega
    | rows =>
        simp only [Point.setAlong, Point.zero, Point.toSize,
          Size.add, Size.sup, Rect.band, Rect.of, Size.along,
          Point.along, Axis.cross] at *
        omega

/-
  What is left of a band that was moved: cells in it were put
  there, and those that they came from are empty.
-/
theorem look_transferBand
    (hTidy : g.Tidy)
    (hMoves : m.Moves)
    (hSource : i + n ≤ g.size.along axis)
    (hDest : j + n ≤ g.size.along axis)
    (s : σ)
    {p : Point}
    (hIn : (Rect.band axis i n g.size).contains p = true)
    (hOut : ¬ (Rect.band axis j n g.size).contains p = true) :
    (g.transferCells m (Rect.band axis i n g.size)
      (Point.zero.setAlong axis j) s).1.look p.key = none := by
  have hRoom := (fits_iff_along axis).mp hTidy.fits
  have hOnSource : (Rect.band axis i n g.size).OnSheet :=
    onSheet_band (by omega) hTidy.fits
  have hOnDest : (Rect.band axis j n g.size).OnSheet :=
    onSheet_band (by omega) hTidy.fits
  rcases
    (runs_transferCells m hTidy.sound
      (Rect.band axis i n g.size) (Point.zero.setAlong axis j) s).2
    with hCarries | ⟨hBlank, hSame⟩
  · refine hMoves.emptied hCarries (.inr ?_) fun turn hTurn hKey => ?_
    · refine ⟨(p, p.setAlong axis (p.along axis + j - i)),
        turn_mem_transferTurns hIn ?_ ?_, rfl⟩ <;>
      · rw [contains_band] at hIn
        cases axis <;>
          simp only [Rect.band, Rect.of, Point.setAlong, Point.zero,
            Point.along] at hIn ⊢
        all_goals omega
    · have hTo := (mem_transferTurns hTurn).2.1
      rw [band_at] at hTo
      have hPoint :=
        Point.eq_of_key_eq (hOnDest _ hTo) (hOnSource _ hIn) hKey
      exact hOut (hPoint ▸ hTo)
  · have hLook := (Prod.mk.inj hSame).1
    dsimp only at hBlank
    rw [hLook, hBlank]
    rfl

end Bands

theorem Tidy.insertBand
    (hTidy : g.Tidy)
    (axis : Axis)
    {m : CellMover α σ}
    (hTakes : m.TakesOnly)
    {i count : Nat}
    (s : σ)
    (hLimits :
      max (g.size.along axis) i + count ≤ maxSize.along axis) :
    (g.insertBand axis m i count s).1.Tidy := by
  have hFits := (fits_iff_along axis).mp hTidy.fits
  have hSides :
      (g.size.setAlong axis
          (max (g.size.along axis) i + count)).along axis =
          max (g.size.along axis) i + count ∧
        (g.size.setAlong axis
            (max (g.size.along axis) i + count)).along axis.cross =
          g.size.along axis.cross := by
    cases axis <;> exact ⟨rfl, rfl⟩
  have hSize :
      (g.size.setAlong axis
        (max (g.size.along axis) i + count)).Fits maxSize := by
    rw [fits_iff_along axis, hSides.1, hSides.2]
    exact ⟨hLimits, hFits.2⟩
  rw [Grid.insertBand]
  dsimp only
  split
  · refine
      (hTidy.transferCells hTakes _ s
        (fits_band axis hTidy.fits (by omega))).resize hSize
        fun p hIn _ => ?_
    have hReach := contains_size_transferBand axis hIn
    rw [contains_iff_along axis, hSides.1, hSides.2]
    omega
  · refine hTidy.resize hSize fun p hIn _ => ?_
    rw [contains_iff_along axis] at hIn ⊢
    rw [hSides.1, hSides.2]
    omega

section Deleting

variable {axis : Axis} {m : CellMover α σ} {i n shifted : Nat}
variable {s : σ} {bounds : Size}

/- A band moves to the front, if there is one. -/
theorem Tidy.closeGap
    (hTidy : g.Tidy)
    (hMoves : m.Moves)
    (hEnd : i + n + shifted = g.size.along axis)
    {closed : Grid α × σ}
    (hClosed :
      (if 0 < shifted then
        g.transferCells m (Rect.band axis (i + n) shifted g.size)
          (Point.zero.setAlong axis i) s
      else (g, s)) = closed) :
    closed.1.Tidy ∧
      ∀ p, closed.1.size.contains p = true →
        g.size.contains p = true ∧
          (i + n ≤ p.along axis → i + shifted ≤ p.along axis →
            closed.1.look p.key = none) := by
  have hFits := (fits_iff_along axis).mp hTidy.fits
  subst hClosed
  split
  · refine
      ⟨hTidy.transferCells hMoves.takesOnly _ s
        (fits_band axis hTidy.fits (by omega)), fun p hIn => ?_⟩
    have hReach := contains_size_transferBand axis hIn
    refine ⟨?_, fun hBehind hLeft => ?_⟩
    · rw [contains_iff_along axis]
      omega
    · refine
        look_transferBand axis hTidy hMoves (by omega) (by omega) s
          ?_ ?_ <;>
      · rw [contains_band]
        omega
  · refine ⟨hTidy, fun p hIn => ⟨hIn, fun hBehind _ => ?_⟩⟩
    dsimp only at hIn
    rw [contains_iff_along axis] at hIn
    omega

/- What is left over behind it is emptied. -/
theorem Tidy.eraseRest
    {closed : Grid α × σ}
    (hTidy : closed.1.Tidy)
    (hMoves : m.Moves)
    {erased : Grid α × σ}
    (hErased :
      (if shifted < n then
        closed.1.visitCells m.eraser
          (Rect.band axis (i + shifted) (n - shifted) bounds)
          closed.2
      else closed) = erased) :
    erased.1.Tidy ∧ erased.1.size = closed.1.size ∧
      ∀ k, erased.1.look k ≠ none →
        closed.1.look k ≠ none ∧
          ∀ p,
            (Rect.band axis (i + shifted) (n - shifted)
              bounds).contains p = true →
            p.key ≠ k := by
  subst hErased
  split
  · rcases hTidy.erase hMoves
        (Rect.band axis (i + shifted) (n - shifted) bounds)
        closed.2 with
      ⟨hKept, hLeft⟩
    exact ⟨hKept, size_visitCells _ _ _ _, hLeft⟩
  · refine ⟨hTidy, rfl, fun k hSome => ⟨hSome, fun p hIn => ?_⟩⟩
    rw [contains_band] at hIn
    omega

end Deleting

theorem Tidy.deleteBand
    (hTidy : g.Tidy)
    (axis : Axis)
    {m : CellMover α σ}
    (hMoves : m.Moves)
    (i count : Nat)
    (s : σ) :
    (g.deleteBand axis m i count s).1.Tidy := by
  have hFits := (fits_iff_along axis).mp hTidy.fits
  rw [Grid.deleteBand]
  dsimp only
  split
  · exact hTidy
  · have hEnd :
        i + min count (g.size.along axis - i) +
            (g.size.along axis - i -
              min count (g.size.along axis - i)) =
          g.size.along axis := by omega
    generalize min count (g.size.along axis - i) = n at *
    generalize g.size.along axis - i - n = shifted at *
    generalize hClosed :
      (if 0 < shifted then
        g.transferCells m (Rect.band axis (i + n) shifted g.size)
          (Point.zero.setAlong axis i) s
      else (g, s)) = closed
    generalize hErased :
      (if shifted < n then
        closed.1.visitCells m.eraser
          (Rect.band axis (i + shifted) (n - shifted) g.size)
          closed.2
      else closed) = erased
    rcases hTidy.closeGap hMoves hEnd hClosed with
      ⟨hTidyClosed, hInside⟩
    rcases hTidyClosed.eraseRest hMoves hErased with
      ⟨hTidyErased, hSize, hLeft⟩
    have hSides :
        (g.size.setAlong axis (g.size.along axis - n)).along axis =
            g.size.along axis - n ∧
          (g.size.setAlong axis
              (g.size.along axis - n)).along axis.cross =
            g.size.along axis.cross := by
      cases axis <;> exact ⟨rfl, rfl⟩
    refine hTidyErased.resize ?_ fun p hIn hSome => ?_
    · rw [fits_iff_along axis, hSides.1, hSides.2]
      omega
    · rw [hSize] at hIn
      rcases hInside p hIn with ⟨hUsed, hBehind⟩
      rcases hLeft _ hSome with ⟨hStill, hNotErased⟩
      rw [contains_iff_along axis] at hUsed ⊢
      rw [hSides.1, hSides.2]
      refine ⟨?_, hUsed.2⟩
      by_contra hFar
      by_cases hMoved : i + n ≤ p.along axis
      · exact hStill (hBehind hMoved (by omega))
      · refine hNotErased p ?_ rfl
        rw [contains_band]
        omega

------------------------------------------------------------
-- Runs
------------------------------------------------------------

theorem Tidy.step
    (hTidy : g.Tidy)
    (hStep : g.Step g') :
    g'.Tidy := by
  cases hStep with
  | modifyCell v p s hOn => exact hTidy.modifyCell v s hOn
  | modifyCells v r s hLimits => exact hTidy.modifyCells v s hLimits.2
  | transferCells m source dest s hTakes _ hDest =>
      exact
        hTidy.transferCells
          (hTakes.elim (·.takesOnly) (·.takesOnly)) source s hDest
  | spreadCell m source dest s hTakes _ hDest =>
      exact
        hTidy.spreadCell
          (hTakes.elim (·.takesOnly) (·.takesOnly)) source s hDest
  | deleteBand axis m i count s hMoves _ =>
      exact hTidy.deleteBand axis hMoves i count s
  | insertBand axis m i count s hMoves hLimits =>
      exact hTidy.insertBand axis hMoves.takesOnly s hLimits
  | expand size hLimits => exact hTidy.expand hLimits
  | clear => exact tidy_empty

theorem tidy_of_reachable (hReach : g.Reachable) : g.Tidy := by
  induction hReach with
  | empty => exact tidy_empty
  | step _ hStep ih => exact ih.step hStep

------------------------------------------------------------
-- Faithful Grids
------------------------------------------------------------

/-
  The tile tree is a finite map from points to cells. Each
  tile counts the cells beneath it, and has some. Each slot
  that is filled is the slot of one point of the sheet, and
  all cells lie in the part in use.
-/
structure Faithful (g : Grid α) : Prop where
  cells : Contents.HasCount g.get? g.count
  top :
    ∀ t, g.top = some t →
      t.count ≠ 0 ∧ (TopTile.look t).HasCount t.count
  middle :
    ∀ t, g.top = some t → ∀ i u, Tile.get? t i = some u →
      u.count ≠ 0 ∧ (MiddleTile.look u).HasCount u.count
  leaf :
    ∀ t, g.top = some t → ∀ i u, Tile.get? t i = some u →
      ∀ j w, Tile.get? u j = some w →
        w.count ≠ 0 ∧ Contents.HasCount (Tile.get? w) w.count
  stored :
    ∀ k, g.look k ≠ none →
      ∃! p, maxSize.contains p = true ∧ p.key = k
  within : ∀ p, g.get? p ≠ none → g.size.contains p = true

theorem Tidy.exact (hTidy : g.Tidy) : g.Exact where
  sound := hTidy.sound
  placed k hSome := by
    rcases hTidy.placed k hSome with ⟨p, hIn, hKey⟩
    exact ⟨p, hTidy.fits.contains hIn, hKey⟩

/- Cells of the sheet that lie in the part in use. -/
theorem Exact.tidy
    (hExact : g.Exact)
    (hFits : g.size.Fits maxSize)
    (hWithin : g.Within) :
    g.Tidy where
  sound := hExact.sound
  fits := hFits
  placed k hSome := by
    rcases hExact.placed k hSome with ⟨p, hOn, rfl⟩
    refine ⟨p, hWithin p ?_, rfl⟩
    rwa [g.get?_eq_look hOn]

theorem Tidy.within (hTidy : g.Tidy) : g.Within := by
  intro p hSome
  have hOn := contains_of_get?_ne_none hSome
  rw [g.get?_eq_look hOn] at hSome
  rcases hTidy.placed _ hSome with ⟨q, hIn, hKey⟩
  rwa [← Point.eq_of_key_eq (hTidy.fits.contains hIn) hOn hKey]

theorem Tidy.faithful (hTidy : g.Tidy) : g.Faithful where
  cells := hTidy.exact.hasCount
  top t hTop :=
    ⟨(hTidy.sound t hTop).2, (hTidy.sound t hTop).1.hasCount⟩
  middle t hTop i u hMiddle := by
    have hGood := (hTidy.sound t hTop).1.content i u hMiddle
    exact ⟨hGood.2, hGood.1.hasCount⟩
  leaf t hTop i u hMiddle j w hLeaf := by
    have hGood :=
      ((hTidy.sound t hTop).1.content i u hMiddle).1.content j w hLeaf
    exact ⟨hGood.2, hGood.1.hasCount⟩
  stored k hSome := by
    rcases hTidy.placed k hSome with ⟨p, hIn, hKey⟩
    refine ⟨p, ⟨hTidy.fits.contains hIn, hKey⟩, ?_⟩
    rintro q ⟨hOn, hSame⟩
    exact Point.eq_of_key_eq hOn (hTidy.fits.contains hIn)
      (hSame.trans hKey.symm)
  within := hTidy.within

/-
  Visiting the cells of a rectangle affects these cells only.
  Each has one turn, and holds what its visit gives.
-/
structure Affects
    (v : CellVisitor α σ)
    (r : Rect)
    (before after : Contents Point α × σ) : Prop where
  turns :
    ∃ l, r.Enumerates l ∧ (Plan.each v l).Follows before after
  inside :
    v.Honest →
      ∀ p, r.contains p = true →
        ∃ s, after.1 p = (v.visit (before.1 p) s).1
  outside :
    ∀ p, ¬ r.contains p = true → after.1 p = before.1 p

theorem affects_of_follows
    {v : CellVisitor α σ}
    {r : Rect}
    {before after : Contents Point α × σ}
    {l : List Point}
    (hList : r.Enumerates l)
    (hFollows : (Plan.each v l).Follows before after) :
    Affects v r before after where
  turns := ⟨l, hList, hFollows⟩
  inside hHonest p hIn := by
    rcases hFollows.turn_of_mem hList.nodup
        ((hList.mem_iff p).mpr hIn) with
      ⟨s, s', hTurn⟩
    exact ⟨s, hTurn.fst_eq_visit hHonest⟩
  outside p hOut := by
    refine hFollows.of_not_mem ?_
    rw [Plan.each, List.forall_mem_map]
    rintro q hIn rfl
    exact hOut ((hList.mem_iff q).mp hIn)

theorem onSheet_of_inLimits
    {r : Rect}
    (hLimits : r.InLimits) :
    r.OnSheet := by
  intro p hIn
  have hEnd := hLimits.2
  rw [Rect.contains_iff] at hIn
  rw [Size.contains_iff]
  simp only [Size.Fits, Rect.endPoint, Point.add, Point.toSize]
    at hEnd
  omega

/-
  A grid that operations lead to is a faithful finite map, and
  to change cells is to change the map at their points.
-/
theorem faithful_of_reachable
    (hReach : g.Reachable) :
    g.Faithful ∧
      (∀ {σ : Type} (v : CellVisitor α σ) (p : Point) (s : σ),
        maxSize.contains p = true →
          v.Turn (g.get? p, s)
              ((g.modifyCell v p s).1.get? p,
                (g.modifyCell v p s).2) ∧
            (v.Honest →
              (g.modifyCell v p s).1.get? p =
                (v.visit (g.get? p) s).1) ∧
            ∀ q, q ≠ p →
              (g.modifyCell v p s).1.get? q = g.get? q) ∧
      ∀ {σ : Type} (v : CellVisitor α σ) (r : Rect) (s : σ),
        r.InLimits →
          Affects v r (g.get?, s)
            ((g.modifyCells v r s).1.get?,
              (g.modifyCells v r s).2) := by
  have hTidy := tidy_of_reachable hReach
  refine ⟨hTidy.faithful, fun v p s hOn => ?_, fun v r s hLimits => ?_⟩
  · have hFollows := follows_modifyCell v hTidy.sound hOn s
    have hTurn := hFollows.turn_of_single
    refine ⟨hTurn, hTurn.fst_eq_visit, fun q hOther => ?_⟩
    exact hFollows.of_not_mem (by simpa using hOther.symm)
  · rcases follows_visitCells v hTidy.sound
        (onSheet_of_inLimits hLimits) s with
      ⟨l, hList, hFollows⟩
    exact affects_of_follows hList hFollows

/-
  A cell that was written moves down when rows are inserted.
-/
theorem faithful_of_moved_cell :
    ∃ g : Grid Nat, g.Reachable ∧ g.get? ⟨0, 2⟩ = some 7 ∧
      g.count = 1 ∧ g.Faithful := by
  let writer : CellVisitor Nat Unit :=
    ⟨fun _ => true, fun _ _ => (some 7, ())⟩
  let mover : CellMover Nat (Slot Nat) :=
    ⟨fun _ => false, Option.isSome, fun _ _ s => s,
      fun slot _ => (none, slot), fun _ carried => (carried, none)⟩
  have hReach :
      Reachable
        (((empty : Grid Nat).modifyCell writer ⟨0, 0⟩
          ()).1.insertBand .rows mover 0 2 none).1 :=
    .step
      (.step .empty
        (.modifyCell writer ⟨0, 0⟩ () (by decide)))
      (.insertBand .rows mover 0 2 none (fun _ _ => rfl)
        (by rw [maxSize_eq]; decide))
  exact ⟨_, hReach, by decide +kernel, by decide +kernel,
    (faithful_of_reachable hReach).1⟩

end Grid

end Spreadsheet
