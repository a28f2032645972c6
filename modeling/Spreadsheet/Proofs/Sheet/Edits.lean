import Spreadsheet.Proofs.Sheet.Spilling
import Spreadsheet.Proofs.Sheet.Visitors
import Spreadsheet.Sheet.Commands

/-
  Commands that change cells, up to the calculation that
  follows them.

  Main declarations:
    * `Sheet.Coherent`
    * `Sheet.Orderly`
    * `Sheet.edited`
    * `Sheet.IsTracked`
    * `Sheet.IsTracked.orderly`
    * `Sheet.tracked_eraser`
    * `Sheet.tracked_spread`
    * `Sheet.tracked_transfer`
-/

namespace Spreadsheet

namespace Sheet

------------------------------------------------------------
-- Orderly Sheets
------------------------------------------------------------

/- The cells and the formulas of a sheet agree. -/
structure Coherent (s : Sheet) : Prop where
  sound : s.grid.Sound
  within : s.grid.Within
  agrees : Agrees s.grid.get? s.formulas.get? [] none
  listed : ∃ l, s.formulas.Listed l

/-
  A sheet between two commands: its cells and formulas agree,
  and no formula is being calculated.
-/
structure Orderly (s : Sheet) : Prop extends Coherent s where
  settled :
    ∀ {id f}, s.formulas.get? id = some f → f.Settled s.generation

theorem orderly_new (config : SheetConfig) : (new config).Orderly := by
  have hNone : (new config).formulas.get? = fun _ => none := by
    funext id
    simp [new, LinkedArena.empty, LinkedArena.get?,
      LinkedArena.linked?]
  have hBlank : (new config).grid.get? = Contents.blank := by
    funext p
    exact Grid.get?_empty p
  have hAgrees :
      Agrees (new config).grid.get? (new config).formulas.get? []
        none := by
    rw [hNone, hBlank]
    exact agrees_blank
  refine
    ⟨⟨Grid.sound_empty, Grid.within_empty, hAgrees,
      ⟨[], LinkedArena.listed_empty⟩⟩, ?_⟩
  intro id f hLive
  rw [hNone] at hLive
  cases hLive

/- A change starts with the formulas of the sheet. -/
theorem Orderly.tracks
    {s : Sheet}
    (hOrderly : s.Orderly) :
    Edit.Tracks s.generation s.grid.get? (.start s.formulas) where
  agrees := hOrderly.agrees
  whole := rfl
  at_dest h := by cases h
  listed := hOrderly.listed
  settled := hOrderly.settled

------------------------------------------------------------
-- Edits
------------------------------------------------------------

/- A sheet after a change of cells, before it is calculated. -/
def edited
    (s : Sheet)
    (change : Grid Cell → Edit → Grid Cell × Edit) : Sheet :=
  let (grid, e) := change s.grid (.start s.formulas)
  { s with
    grid := e.orphans.foldl giveUp grid
    formulas := e.formulas }

theorem edit_eq_refresh
    (s : Sheet)
    (change : Grid Cell → Edit → Grid Cell × Edit) :
    s.edit change = (s.edited change).refresh := rfl

/- All orphaned areas are given up. -/
theorem giveUp_all
    {formulas : FormulaTable}
    {orphans : List Orphan}
    {g : Grid Cell}
    (hSound : g.Sound)
    (hWithin : g.Within)
    (hAgrees : Agrees g.get? formulas orphans none) :
    (orphans.foldl giveUp g).Sound ∧
      (orphans.foldl giveUp g).Within ∧
      (orphans.foldl giveUp g).size = g.size ∧
      Agrees (orphans.foldl giveUp g).get? formulas [] none := by
  induction orphans generalizing g with
  | nil => exact ⟨hSound, hWithin, rfl, hAgrees⟩
  | cons o orphans ih =>
      rcases
        Grid.clearSpill_spec hSound hWithin o.owner
          (hAgrees.orphan_located List.mem_cons_self) with
        ⟨hSound', hSize, hWithin', hCells⟩
      rcases ih hSound' hWithin' (hAgrees.giveUp hCells) with
        ⟨hSoundAll, hWithinAll, hSizeAll, hAgreesAll⟩
      exact
        ⟨hSoundAll, hWithinAll, hSizeAll.trans hSize, hAgreesAll⟩

/- A change of the cells of a sheet keeps track. -/
structure IsTracked
    (s : Sheet)
    (change : Grid Cell → Edit → Grid Cell × Edit) : Prop where
  sound : (change s.grid (.start s.formulas)).1.Sound
  within : (change s.grid (.start s.formulas)).1.Within
  tracks :
    Edit.Tracks s.generation
      (change s.grid (.start s.formulas)).1.get?
      (change s.grid (.start s.formulas)).2
  idle : (change s.grid (.start s.formulas)).2.IsIdle

/- Such a change leads to an orderly sheet. -/
theorem IsTracked.orderly
    {s : Sheet}
    {change : Grid Cell → Edit → Grid Cell × Edit}
    (hTracked : s.IsTracked change) :
    (s.edited change).Orderly := by
  have hAgrees := hTracked.tracks.agrees
  rw [hTracked.idle] at hAgrees
  rcases giveUp_all hTracked.sound hTracked.within hAgrees with
    ⟨hSound', hWithin', -, hAgrees'⟩
  exact
    ⟨⟨hSound', hWithin', hAgrees', hTracked.tracks.listed⟩,
      hTracked.tracks.settled⟩

------------------------------------------------------------
-- Entering
------------------------------------------------------------

variable {s : Sheet}

/- Visiting a cell leaves nothing carried. -/
theorem isIdle_start (formulas : FormulaList) :
    (Edit.start formulas).IsIdle := rfl

/- A cell of the sheet is visited. -/
theorem tracked_modifyCell
    (hOrderly : s.Orderly)
    {v : CellVisitor Cell Edit}
    (hLazy : v.Lazy id v.visit)
    {p : Point}
    (hOn : maxSize.contains p = true)
    (hTracks :
      Edit.Tracks s.generation
        (Script.visit (s.grid.get?, .start s.formulas)
          (p, v.visit)).1
        (Script.visit (s.grid.get?, .start s.formulas)
          (p, v.visit)).2)
    (hIdle :
      (v.visit (s.grid.get? p) (.start s.formulas)).2.IsIdle) :
    s.IsTracked (Grid.modifyCell v p) := by
  rcases
    Grid.modifyCell_spec hLazy hOrderly.sound hOn
      (Edit.start s.formulas) with
    ⟨hSound, hRun⟩
  simp only [id] at hRun
  refine
    ⟨hSound,
      hOrderly.within.modifyCell hLazy hOrderly.sound hOn _, ?_, ?_⟩
  · rw [← hRun] at hTracks
    exact hTracks
  · rw [(Prod.ext_iff.mp hRun).2]
    exact hIdle

theorem tracked_eraser_cell
    (hOrderly : s.Orderly)
    {p : Point}
    (hOn : maxSize.contains p = true) :
    s.IsTracked (Grid.modifyCell Edit.eraser p) := by
  refine
    tracked_modifyCell hOrderly Edit.lazy_eraser hOn
      (hOrderly.tracks.visit_eraser p) ?_
  unfold Edit.eraser
  dsimp only
  split
  · rfl
  · rw [Edit.IsIdle, Edit.carried_evict]
    rfl

theorem tracked_valueWriter
    (hOrderly : s.Orderly)
    {p : Point}
    (hOn : maxSize.contains p = true)
    (v : Scalar) :
    s.IsTracked (Grid.modifyCell (Edit.valueWriter v) p) := by
  refine
    tracked_modifyCell hOrderly (Edit.lazy_valueWriter v) hOn
      (hOrderly.tracks.visit_valueWriter p v) ?_
  rw [Edit.IsIdle, Edit.valueWriter, Edit.carried_evict]
  rfl

theorem tracked_formulaWriter
    (hOrderly : s.Orderly)
    {p : Point}
    (hOn : maxSize.contains p = true)
    (text : List Char) :
    s.IsTracked
      (Grid.modifyCell
        (Edit.formulaWriter (.ofChars text p s.generation)) p) := by
  refine
    tracked_modifyCell hOrderly (Edit.lazy_formulaWriter _) hOn
      (hOrderly.tracks.visit_formulaWriter (isIdle_start _) hOn rfl rfl
        (FormulaCell.settled_ofChars text p s.generation)) ?_
  unfold Edit.formulaWriter
  dsimp only
  split
  · rfl
  · change ((Edit.start s.formulas).evict _).carried = none
    rw [Edit.carried_evict]
    rfl

/- The cells of a rectangle are erased one by one. -/
theorem tracked_eraser
    (hOrderly : s.Orderly)
    {r : Rect}
    (hOn : r.OnSheet) :
    s.IsTracked (Grid.modifyCells Edit.eraser r) := by
  rcases
    Grid.modifyCells_spec Edit.lazy_eraser hOrderly.sound hOn
      (Edit.start s.formulas) with
    ⟨hSound, l, -, hRun⟩
  simp only [id] at hRun
  -- by induction on the cells, whatever was erased before
  have hAll :
      ∀ (l : List Point) (cells : Contents Point Cell) (e : Edit),
        Edit.Tracks s.generation cells e → e.IsIdle →
          Edit.Tracks s.generation
              ((Script.each Edit.eraser.visit l).run (cells, e)).1
              ((Script.each Edit.eraser.visit l).run (cells, e)).2 ∧
            ((Script.each Edit.eraser.visit l).run
              (cells, e)).2.IsIdle := by
    intro l
    induction l with
    | nil => exact fun _ _ hTracks hIdle => ⟨hTracks, hIdle⟩
    | cons p l ih =>
        intro cells e hTracks hIdle
        refine ih _ _ (hTracks.visit_eraser p) ?_
        change (Edit.eraser.visit (cells p) e).2.IsIdle
        unfold Edit.eraser
        dsimp only
        split
        · exact hIdle
        · rw [Edit.IsIdle, Edit.carried_evict]
          exact hIdle
  have hTracks := hAll l _ _ hOrderly.tracks (isIdle_start _)
  rw [← hRun] at hTracks
  exact
    ⟨hSound,
      hOrderly.within.modifyCells Edit.lazy_eraser hOrderly.sound
        hOn _,
      hTracks.1, hTracks.2⟩

------------------------------------------------------------
-- Carrying
------------------------------------------------------------

/- Turns of carrying keep track if each of them does. -/
theorem tracks_of_carries
    {m : CellMover Cell Edit}
    (hLazy : m.Lazy Edit.IsIdle)
    {generation : Bool}
    {turns : List (Point × Point)}
    (hTurn :
      ∀ turn ∈ turns, ∀ cells e,
        Edit.Tracks generation cells e → e.IsIdle →
          Edit.Tracks generation (Grid.carry m (cells, e) turn).1
            (Grid.carry m (cells, e) turn).2)
    {before after : Contents Point Cell × Edit}
    (hCarries : Grid.Carries m turns before after)
    (hTracks : Edit.Tracks generation before.1 before.2)
    (hIdle : before.2.IsIdle) :
    Edit.Tracks generation after.1 after.2 := by
  rcases hCarries with hRun | ⟨-, hSame⟩
  · subst hRun
    induction turns generalizing before with
    | nil => exact hTracks
    | cons turn turns ih =>
        refine
          ih (fun turn h => hTurn turn (List.mem_cons_of_mem _ h))
            (hTurn turn List.mem_cons_self _ _ hTracks hIdle)
            (hLazy.ready_put _ _)
  · rw [hSame]
    exact hTracks

theorem tracked_spread
    (hOrderly : s.Orderly)
    {source : Point}
    {dest : Rect}
    (hSource : maxSize.contains source = true)
    (hDest : dest.OnSheet) :
    s.IsTracked (Grid.spreadCell Edit.copier source dest) := by
  rcases
    Grid.spreadCell_spec Edit.lazy_copier hOrderly.sound hSource
      hDest (isIdle_start s.formulas) with
    ⟨hSound, hIdle, hCarries⟩
  refine
    ⟨hSound,
      hOrderly.within.spreadCell Edit.lazy_copier.takesOnly
        hOrderly.sound source hDest _, ?_, hIdle⟩
  refine
    tracks_of_carries Edit.lazy_copier ?_ hCarries hOrderly.tracks
      (isIdle_start _)
  intro turn hTurn cells e hTracks hIdle
  rw [Grid.spreadTurns, List.mem_map] at hTurn
  rcases hTurn with ⟨q, hIn, rfl⟩
  exact hTracks.carry_copier hIdle (hDest q (Rect.mem_points.mp hIn))

/- A rectangle is copied or moved. -/
theorem tracked_transfer
    (hOrderly : s.Orderly)
    {m : CellMover Cell Edit}
    (hLazy : m.Lazy Edit.IsIdle)
    (hCarry :
      ∀ {cells e} {turn : Point × Point},
        Edit.Tracks s.generation cells e → e.IsIdle →
          maxSize.contains turn.2 = true →
          Edit.Tracks s.generation (Grid.carry m (cells, e) turn).1
            (Grid.carry m (cells, e) turn).2)
    {source : Rect}
    {dest : Point}
    (hSource : source.OnSheet)
    (hDest : Rect.OnSheet ⟨dest, source.size⟩) :
    s.IsTracked (Grid.transferCells m source dest) := by
  rcases
    Grid.transferCells_spec hLazy hOrderly.sound hSource hDest
      (isIdle_start s.formulas) with
    ⟨hSound, hIdle, hCarries⟩
  refine
    ⟨hSound,
      hOrderly.within.transferCells hLazy.takesOnly hOrderly.sound
        hDest _, ?_, hIdle⟩
  refine
    tracks_of_carries hLazy ?_ hCarries hOrderly.tracks
      (isIdle_start _)
  intro turn hTurn cells e hTracks hIdle
  exact
    hCarry hTracks hIdle
      (hDest _ (Grid.mem_transferTurns hTurn).2.1)

end Sheet

end Spreadsheet
