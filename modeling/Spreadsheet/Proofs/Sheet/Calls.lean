import Mathlib
import Spreadsheet.Proofs.Sheet.Pass
import Spreadsheet.Sheet.Commands

/-
  Sheets that commands lead to.

  Whatever is done with a sheet, and in whatever order, its
  cells and its formulas agree afterwards.

  Main declarations:
    * `Sheet.Command`
    * `Sheet.Calls`
    * `Sheet.Orderly.run`
    * `Sheet.orderly_of_calls`
    * `Sheet.cells_agree_with_formulas`
-/

namespace Spreadsheet

namespace Sheet

------------------------------------------------------------
-- Commands
------------------------------------------------------------

/- What can be done with a sheet. -/
inductive Command where
  | setValue (p : Point) (v : Scalar)
  | setFormula (p : Point) (text : List Char)
  | clearCell (p : Point)
  | clearCells (r : Rect)
  | copyCell (source : Point) (dest : Rect)
  | copyCells (source : Rect) (dest : Point)
  | moveCell (source dest : Point)
  | moveCells (source : Rect) (dest : Point)
  | insertBand (axis : Axis) (before count : Nat)
  | deleteBand (axis : Axis) (first count : Nat)
  | setLength (axis : Axis) (start count : Nat) (length : Float32)
  | clearLength (axis : Axis) (start count : Nat)
  | hide (axis : Axis) (start count : Nat)
  | unhide (axis : Axis) (start count : Nat)
  | suspend
  | resume
  | recalculate

/- Carry out a command, unless it is refused. -/
def Command.run : Command → Sheet → Except SheetError Sheet
  | .setValue p v, s => s.setValue p v
  | .setFormula p text, s => s.setFormula p text
  | .clearCell p, s => s.clearCell p
  | .clearCells r, s => s.clearCells r
  | .copyCell source dest, s => s.copyCell source dest
  | .copyCells source dest, s => s.copyCells source dest
  | .moveCell source dest, s => s.moveCell source dest
  | .moveCells source dest, s => s.moveCells source dest
  | .insertBand axis before count, s => s.insertBand axis before count
  | .deleteBand axis first count, s => s.deleteBand axis first count
  | .setLength axis start count length, s =>
      s.setLength axis start count length
  | .clearLength axis start count, s => s.clearLength axis start count
  | .hide axis start count, s => s.hide axis start count
  | .unhide axis start count, s => s.unhide axis start count
  | .suspend, s => .ok s.suspend
  | .resume, s => s.resume
  | .recalculate, s => .ok s.recalculate

/-
  One sheet is reached from another by commands, one after the
  other or in batches. A command that visits a cell outside of
  the sheet does not return, so the part in use lies within
  the sheet after each of them. A command that is refused
  changes nothing.
-/
inductive Calls : Sheet → Sheet → Prop where
  | refl (s : Sheet) : Calls s s
  | call
      {s t u : Sheet}
      (hBefore : Calls s t)
      (command : Command)
      (hRun : command.run t = .ok u)
      (hReturns : u.size.Fits maxSize) :
      Calls s u
  | batch
      {s t : Sheet}
      {α : Type}
      (hBefore : Calls s t)
      (commands : Sheet → α × Sheet)
      (hInner : Calls t.suspend (commands t.suspend).2)
      (hReturns : (t.batch commands).2.size.Fits maxSize) :
      Calls s (t.batch commands).2

------------------------------------------------------------
-- Accepted Arguments
------------------------------------------------------------

theorem checkIndex_eq_ok
    {axis : Axis}
    {i : Nat} :
    checkIndex axis i = .ok () ↔ i < maxSize.along axis := by
  unfold checkIndex
  dsimp only
  split <;> simp_all

theorem checkCount_eq_ok {count limit : Nat} :
    checkCount count limit = .ok () ↔ count ≤ limit := by
  unfold checkCount
  split <;> simp_all

theorem checkBand_eq_ok
    {axis : Axis}
    {start count : Nat} :
    checkBand axis start count = .ok () ↔
      start < maxSize.along axis ∧
        count ≤ maxSize.along axis - start := by
  unfold checkBand
  rw [Except.bind_eq_ok]
  constructor
  · rintro ⟨_, hStart, hCount⟩
    exact ⟨checkIndex_eq_ok.mp hStart, checkCount_eq_ok.mp hCount⟩
  · rintro ⟨hStart, hCount⟩
    exact
      ⟨(), checkIndex_eq_ok.mpr hStart, checkCount_eq_ok.mpr hCount⟩

theorem checkPoint_eq_ok {p : Point} :
    checkPoint p = .ok () ↔ maxSize.contains p = true := by
  unfold checkPoint
  rw [Except.bind_eq_ok, Size.contains_iff]
  constructor
  · rintro ⟨_, hColumn, hRow⟩
    exact ⟨checkIndex_eq_ok.mp hColumn, checkIndex_eq_ok.mp hRow⟩
  · rintro ⟨hColumn, hRow⟩
    exact
      ⟨(), checkIndex_eq_ok.mpr hColumn, checkIndex_eq_ok.mpr hRow⟩

theorem onSheet_of_checkRect
    {r : Rect}
    (hCheck : checkRect r = .ok ()) :
    r.OnSheet := by
  unfold checkRect at hCheck
  rw [Except.bind_eq_ok] at hCheck
  rcases hCheck with ⟨_, hColumns, hRows⟩
  rw [checkBand_eq_ok] at hColumns hRows
  intro p hIn
  rw [Rect.contains_iff] at hIn
  rw [Size.contains_iff]
  simp only [Size.along] at hColumns hRows
  omega

------------------------------------------------------------
-- Single Commands
------------------------------------------------------------

variable {s t : Sheet}

theorem Orderly.setValue
    (hOrderly : s.Orderly)
    {p : Point}
    {v : Scalar}
    (hDone : s.setValue p v = .ok t) :
    t.Orderly := by
  unfold Sheet.setValue at hDone
  rw [Except.bind_eq_ok] at hDone
  rcases hDone with ⟨_, hCheck, hEdit⟩
  have hOn := checkPoint_eq_ok.mp hCheck
  cases hEdit
  rw [edit_eq_refresh]
  split
  · exact (tracked_eraser_cell hOrderly hOn).orderly.refresh
  · exact (tracked_valueWriter hOrderly hOn v).orderly.refresh

theorem Orderly.setFormula
    (hOrderly : s.Orderly)
    {p : Point}
    {text : List Char}
    (hDone : s.setFormula p text = .ok t) :
    t.Orderly := by
  unfold Sheet.setFormula at hDone
  rw [Except.bind_eq_ok] at hDone
  rcases hDone with ⟨_, hCheck, hEdit⟩
  cases hEdit
  rw [edit_eq_refresh]
  exact
    (tracked_formulaWriter hOrderly
      (checkPoint_eq_ok.mp hCheck) text).orderly.refresh

theorem Orderly.clearCells
    (hOrderly : s.Orderly)
    {r : Rect}
    (hDone : s.clearCells r = .ok t) :
    t.Orderly := by
  unfold Sheet.clearCells at hDone
  rw [Except.bind_eq_ok] at hDone
  rcases hDone with ⟨_, hCheck, hEdit⟩
  cases hEdit
  rw [edit_eq_refresh]
  exact
    (tracked_eraser hOrderly
      (onSheet_of_checkRect hCheck)).orderly.refresh

theorem Orderly.copyCell
    (hOrderly : s.Orderly)
    {source : Point}
    {dest : Rect}
    (hDone : s.copyCell source dest = .ok t) :
    t.Orderly := by
  unfold Sheet.copyCell at hDone
  simp only [Except.bind_eq_ok] at hDone
  rcases hDone with ⟨_, hSource, _, hDest, hEdit⟩
  cases hEdit
  rw [edit_eq_refresh]
  exact
    (tracked_spread hOrderly (checkPoint_eq_ok.mp hSource)
      (onSheet_of_checkRect hDest)).orderly.refresh

theorem Orderly.copyCells
    (hOrderly : s.Orderly)
    {source : Rect}
    {dest : Point}
    (hDone : s.copyCells source dest = .ok t) :
    t.Orderly := by
  unfold Sheet.copyCells at hDone
  simp only [Except.bind_eq_ok] at hDone
  rcases hDone with ⟨_, hSource, _, hDest, hEdit⟩
  cases hEdit
  rw [edit_eq_refresh]
  exact
    (tracked_transfer hOrderly Edit.lazy_copier
      (fun hTracks hIdle hOn => hTracks.carry_copier hIdle hOn)
      (onSheet_of_checkRect hSource)
      (onSheet_of_checkRect hDest)).orderly.refresh

theorem Orderly.moveCells
    (hOrderly : s.Orderly)
    {source : Rect}
    {dest : Point}
    (hDone : s.moveCells source dest = .ok t) :
    t.Orderly := by
  unfold Sheet.moveCells at hDone
  simp only [Except.bind_eq_ok] at hDone
  rcases hDone with ⟨_, hSource, _, hDest, hEdit⟩
  cases hEdit
  rw [edit_eq_refresh]
  exact
    (tracked_transfer hOrderly Edit.lazy_mover
      (fun hTracks hIdle hOn => hTracks.carry_mover hIdle hOn)
      (onSheet_of_checkRect hSource)
      (onSheet_of_checkRect hDest)).orderly.refresh

theorem Orderly.insertBand
    (hOrderly : s.Orderly)
    (hFits : s.size.Fits maxSize)
    {axis : Axis}
    {before count : Nat}
    (hDone : s.insertBand axis before count = .ok t) :
    t.Orderly := by
  unfold Sheet.insertBand at hDone
  rw [Except.bind_eq_ok] at hDone
  rcases hDone with ⟨_, hCheck, hEdit⟩
  split at hEdit
  · cases hEdit
    exact hOrderly
  · unfold checkInsertion at hCheck
    rw [Except.bind_eq_ok] at hCheck
    rcases hCheck with ⟨_, hBand, hRoom⟩
    rw [checkBand_eq_ok] at hBand
    rw [checkCount_eq_ok] at hRoom
    have hUsed : s.size.along axis ≤ maxSize.along axis :=
      ((Grid.fits_iff_along axis).mp hFits).1
    cases hEdit
    exact (hOrderly.insertedBand hFits axis (by omega)).1.refresh

theorem Orderly.deleteBand
    (hOrderly : s.Orderly)
    (hFits : s.size.Fits maxSize)
    {axis : Axis}
    {first count : Nat}
    (hDone : s.deleteBand axis first count = .ok t) :
    t.Orderly := by
  unfold Sheet.deleteBand at hDone
  rw [Except.bind_eq_ok] at hDone
  rcases hDone with ⟨_, _, hEdit⟩
  split at hEdit
  · cases hEdit
    exact hOrderly
  · cases hEdit
    exact
      (hOrderly.deletedBand hFits axis first count).1.refresh

/- Measures have to do with no cell and no formula. -/
theorem Orderly.modifyMeasures
    (hOrderly : s.Orderly)
    {axis : Axis}
    {start count : Nat}
    {f : Measures → Nat → Nat → Measures}
    (hDone : s.modifyMeasures axis start count f = .ok t) :
    t.Orderly := by
  unfold Sheet.modifyMeasures at hDone
  rw [Except.bind_eq_ok] at hDone
  rcases hDone with ⟨_, _, hEdit⟩
  cases hEdit
  refine Orderly.setMeasures ?_ axis _
  refine ⟨⟨hOrderly.sound.expandAlong _ _, ?_, ?_, hOrderly.listed⟩,
    hOrderly.settled⟩
  · refine hOrderly.within.grow ?_ fun p hSome => Or.inl ?_
    · rw [Grid.fits_iff_along axis]
      simp only [Grid.expandAlong]
      cases axis <;>
        simp [Size.setAlong, Size.along, Axis.cross]
    · simpa using hSome
  · have hCells :
        (s.grid.expandAlong axis (start + count)).get? =
          s.grid.get? :=
      Grid.get?_expandAlong _ _ _
    dsimp only
    rw [hCells]
    exact hOrderly.agrees

/- Suspensions have to do with no cell and no formula. -/
theorem Orderly.setSuspended
    (hOrderly : s.Orderly)
    (n : Nat) :
    { s with suspended := n }.Orderly :=
  ⟨⟨hOrderly.sound, hOrderly.within, hOrderly.agrees,
    hOrderly.listed⟩, hOrderly.settled⟩

/- Every command keeps a sheet in order. -/
theorem Orderly.run
    (hOrderly : s.Orderly)
    (hFits : s.size.Fits maxSize)
    {command : Command}
    (hDone : command.run s = .ok t) :
    t.Orderly := by
  cases command with
  | setValue p v => exact hOrderly.setValue hDone
  | setFormula p text => exact hOrderly.setFormula hDone
  | clearCell p => exact hOrderly.setValue hDone
  | clearCells r => exact hOrderly.clearCells hDone
  | copyCell source dest => exact hOrderly.copyCell hDone
  | copyCells source dest => exact hOrderly.copyCells hDone
  | moveCell source dest => exact hOrderly.moveCells hDone
  | moveCells source dest => exact hOrderly.moveCells hDone
  | insertBand axis before count =>
      exact hOrderly.insertBand hFits hDone
  | deleteBand axis first count =>
      exact hOrderly.deleteBand hFits hDone
  | setLength axis start count length =>
      change s.setLength axis start count length = .ok t at hDone
      exact hOrderly.modifyMeasures hDone
  | clearLength axis start count =>
      exact hOrderly.modifyMeasures hDone
  | hide axis start count =>
      exact hOrderly.modifyMeasures hDone
  | unhide axis start count =>
      exact hOrderly.modifyMeasures hDone
  | suspend =>
      cases hDone
      exact hOrderly.setSuspended _
  | resume =>
      change s.resume = .ok t at hDone
      unfold Sheet.resume at hDone
      split at hDone
      · cases hDone
      · cases hDone
        exact (hOrderly.setSuspended _).refresh
  | recalculate =>
      cases hDone
      exact hOrderly.recalculate.1

/- So do all commands and batches together. -/
theorem Calls.orderly
    (hCalls : Calls s t)
    (hOrderly : s.Orderly)
    (hFits : s.size.Fits maxSize) :
    t.Orderly ∧ t.size.Fits maxSize := by
  induction hCalls with
  | refl s => exact ⟨hOrderly, hFits⟩
  | call _ command hRun hReturns ih =>
      rcases ih hOrderly hFits with ⟨hBefore, hUsed⟩
      exact ⟨hBefore.run hUsed hRun, hReturns⟩
  | batch _ commands _ hReturns ih ihInner =>
      rcases ih hOrderly hFits with ⟨hBefore, hUsed⟩
      rcases ihInner (hBefore.setSuspended _) hUsed with ⟨hInner, -⟩
      exact ⟨(hInner.setSuspended _).refresh, hReturns⟩

theorem orderly_of_calls
    {config : SheetConfig}
    (hCalls : Calls (new config) s) :
    s.Orderly :=
  (hCalls.orderly (orderly_new config)
    ⟨Nat.zero_le _, Nat.zero_le _⟩).1

------------------------------------------------------------
-- Cells And Formulas
------------------------------------------------------------

/- There are as many formulas as cells that hold one. -/
theorem Orderly.formulas_size
    (hOrderly : s.Orderly) :
    s.formulas.size =
      {p | ∃ id, s.grid.get? p = some (.formula id)}.ncard := by
  rcases hOrderly.listed with ⟨l, hListed⟩
  have hAgrees := hOrderly.agrees
  -- each formula stands for its own cell
  let place (id : Handle) : Point :=
    ((s.formulas.get? id).map (·.location)).getD Point.zero
  have hPlace :
      ∀ {id f}, s.formulas.get? id = some f →
        place id = f.location := by
    intro id f hLive
    simp [place, hLive]
  have hHeld :
      ∀ id ∈ l, s.grid.get? (place id) = some (.formula id) := by
    intro id hId
    rw [← hListed.isSome_get?_iff, Option.isSome_iff_exists] at hId
    rcases hId with ⟨f, hLive⟩
    rw [hPlace hLive, ← Slot.formula?_eq_some_iff]
    exact hAgrees.held hLive (by simp)
  have hImage :
      {p | ∃ id, s.grid.get? p = some (.formula id)} =
        place '' {id | id ∈ l} := by
    ext p
    constructor
    · rintro ⟨id, hCell⟩
      rcases hAgrees.formula_live
          (Slot.formula?_eq_some_iff.mpr hCell) with
        ⟨-, f, hLive, hLocation⟩
      refine ⟨id, ?_, (hPlace hLive).trans hLocation⟩
      rw [Set.mem_ofPred_eq, ← hListed.isSome_get?_iff, hLive]
      rfl
    · rintro ⟨id, hId, rfl⟩
      exact ⟨id, hHeld id hId⟩
  have hInjective : Set.InjOn place {id | id ∈ l} := by
    intro j hj k hk hEq
    have hSame := hHeld j hj
    rw [hEq, hHeld k hk] at hSame
    cases hSame
    rfl
  have hFinset : {id | id ∈ l} = (l.toFinset : Set Handle) := by
    ext id
    simp
  rw [hImage, hInjective.ncard_image, hFinset,
    Set.ncard_coe_finset,
    List.toFinset_card_of_nodup hListed.threads.nodup,
    hListed.size_eq]

/-
  Whatever commands a sheet was made with, a cell with a
  formula leads to a formula that is located there, every
  formula has exactly one cell, and the cells of its area
  beyond the first are exactly those that belong to it. Areas
  of different formulas do not meet.
-/
theorem cells_agree_with_formulas
    {config : SheetConfig}
    (hCalls : Calls (new config) s) :
    (∀ p id, s.grid.get? p = some (.formula id) →
      ∃ f, s.formulas.get? id = some f ∧ f.location = p) ∧
    (∀ id f, s.formulas.get? id = some f →
      ∃! p, s.grid.get? p = some (.formula id)) ∧
    s.formulas.size =
      {p | ∃ id, s.grid.get? p = some (.formula id)}.ncard ∧
    (∀ p parent v, s.grid.get? p = some (.extension parent v) →
      ∃ f, s.formulas.get? parent = some f ∧
        f.area.contains p = true ∧ p ≠ f.location) ∧
    (∀ id f p, s.formulas.get? id = some f →
      f.area.contains p = true → p ≠ f.location →
        ∃ v, s.grid.get? p = some (.extension id v)) ∧
    ∀ id id' f f' p, s.formulas.get? id = some f →
      s.formulas.get? id' = some f' → id ≠ id' →
        f.area.contains p = true → ¬ f'.area.contains p = true := by
  have hOrderly := orderly_of_calls hCalls
  have hAgrees := hOrderly.agrees
  have hHeld :
      ∀ {id f}, s.formulas.get? id = some f →
        s.grid.get? f.location = some (.formula id) := by
    intro id f hLive
    exact
      Slot.formula?_eq_some_iff.mp (hAgrees.held hLive (by simp))
  have hLocated :
      ∀ {p id}, s.grid.get? p = some (.formula id) →
        ∃ f, s.formulas.get? id = some f ∧ f.location = p := by
    intro p id hCell
    exact
      (hAgrees.formula_live
        (Slot.formula?_eq_some_iff.mpr hCell)).2
  have hCovered :
      ∀ {id f p}, s.formulas.get? id = some f →
        f.area.contains p = true → p ≠ f.location →
          ∃ v, s.grid.get? p = some (.extension id v) := by
    intro id f p hLive hIn hOther
    exact
      Slot.parent?_eq_some_iff.mp
        (hAgrees.covered hLive ⟨hIn, hOther⟩)
  refine ⟨fun p id => hLocated, ?_, hOrderly.formulas_size, ?_,
    fun id f p => hCovered, ?_⟩
  · intro id f hLive
    refine ⟨f.location, hHeld hLive, fun p hCell => ?_⟩
    rcases hLocated hCell with ⟨g, hg, hLocation⟩
    rw [hLive, Option.some.injEq] at hg
    rw [hg, hLocation]
  · intro p parent v hCell
    rcases hOrderly.toCoherent.live_of_part
        (Slot.parent?_eq_some_iff.mpr ⟨v, hCell⟩) with
      ⟨f, hLive, hIn, hOther⟩
    exact ⟨f, hLive, hIn, hOther⟩
  · intro id id' f f' p hLive hLive' hNe hIn hIn'
    -- one cell cannot belong to both
    by_cases hFirst : p = f.location
    · have hCell := hHeld hLive
      rw [← hFirst] at hCell
      by_cases hSecond : p = f'.location
      · have hCell' := hHeld hLive'
        rw [← hSecond, hCell] at hCell'
        cases hCell'
        exact hNe rfl
      · rcases hCovered hLive' hIn' hSecond with ⟨v, hPart⟩
        rw [hCell] at hPart
        cases hPart
    · rcases hCovered hLive hIn hFirst with ⟨v, hPart⟩
      by_cases hSecond : p = f'.location
      · have hCell' := hHeld hLive'
        rw [← hSecond, hPart] at hCell'
        cases hCell'
      · rcases hCovered hLive' hIn' hSecond with ⟨v', hPart'⟩
        rw [hPart] at hPart'
        cases hPart'
        exact hNe rfl

/- A formula whose result covers two cells. -/
theorem cells_agree_with_array :
    ∃ s, (new .usual).setFormula ⟨0, 1⟩ ['A', '1', ':', 'B', '1'] = .ok s ∧
      s.grid.get? ⟨1, 1⟩ = some (.extension ⟨0, 0⟩ .blank) ∧
      ∃ f, s.formulas.get? ⟨0, 0⟩ = some f ∧
        f.area.contains ⟨1, 1⟩ = true ∧ ⟨1, 1⟩ ≠ f.location := by
  have hRun : ∃ s, (new .usual).setFormula ⟨0, 1⟩ ['A', '1', ':', 'B', '1'] = .ok s ∧
        (s.size, s.grid.get? ⟨1, 1⟩) = (⟨2, 2⟩, some (.extension ⟨0, 0⟩ .blank)) :=
    ⟨_, rfl, by cbv⟩
  rcases hRun with ⟨s, hRun, hShows⟩
  rw [Prod.mk.injEq] at hShows
  have hCalls : Calls (new .usual) s :=
    .call (.refl _) (.setFormula ⟨0, 1⟩ _) hRun (by rw [hShows.1]; decide)
  exact ⟨s, hRun, hShows.2, (cells_agree_with_formulas hCalls).2.2.2.1 _ _ _ hShows.2⟩

end Sheet

end Spreadsheet
