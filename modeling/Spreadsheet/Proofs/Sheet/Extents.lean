import Spreadsheet.Proofs.Sheet.Stores

/-
  Which cells belong to a formula when its result covers
  another area.

  A formula owns the cells of its result but the first one,
  where it stands itself. When the result is resized, the cells
  of the old area alone come free, and those of the new area
  alone become the formula's; nothing else on the sheet changes.
  When a result is given up, all its cells come free.

  Main declarations:
    * `Sheet.Owns`
    * `Sheet.Coherent.owns`
    * `Sheet.ChangesArea`
    * `Sheet.resize_changes_area`
-/

namespace Spreadsheet

namespace Sheet

variable
  {s : Sheet}
  {id : Handle}
  {f : FormulaCell}
  {extent : Size}

------------------------------------------------------------
-- Owned Cells
------------------------------------------------------------

/-
  A formula owns the cells of an area but the first one, and
  no other cells.
-/
def Owns (s : Sheet) (id : Handle) (area : Rect) : Prop :=
  ∀ p, (s.grid.get? p).parent? = some id ↔ area.Beyond p

/- Where cells and formulas agree, each owns what it covers. -/
theorem Coherent.owns
    (hCoherent : s.Coherent)
    (hLive : s.formulas.get? id = some f) :
    s.Owns id f.area := by
  intro p
  constructor
  · intro hPart
    rcases hCoherent.live_of_part hPart with ⟨g, hg, hBeyond⟩
    rw [hLive, Option.some.injEq] at hg
    rwa [hg]
  · exact hCoherent.agrees.covered hLive

/- Cells that are owned lie on the sheet. -/
theorem Owns.onSheet
    {area : Rect}
    (hOwns : s.Owns id area)
    (hRooted : area.Rooted) :
    area.OnSheet := by
  intro p hIn
  by_cases hOrigin : p = area.origin
  · rw [hOrigin]
    exact hRooted.1
  · by_contra hOut
    have hPart := (hOwns p).mpr ⟨hIn, hOrigin⟩
    rw [Grid.get?_of_outside s.grid hOut] at hPart
    cases hPart

------------------------------------------------------------
-- Resized Results
------------------------------------------------------------

/- A sheet on which the result of a formula came to cover another area. -/
structure ChangesArea
    (id : Handle)
    (old new : Rect)
    (s t : Sheet) : Prop where
  owns : t.Owns id new
  common :
    ∀ p, old.contains p = true → new.contains p = true →
      t.grid.get? p = s.grid.get? p
  freed :
    ∀ p, old.contains p = true → ¬ new.contains p = true →
      t.grid.get? p = none
  reserved :
    ∀ p, ¬ old.contains p = true → new.contains p = true →
      t.grid.get? p = some (.extension id .blank)
  others :
    ∀ p, ¬ old.contains p = true → ¬ new.contains p = true →
      t.grid.get? p = s.grid.get? p
  anchor : t.grid.get? old.origin = s.grid.get? old.origin

/- What becomes of each cell when a result is resized. -/
theorem get?_grid_resize
    (hSound : s.grid.Sound)
    (hWithin : s.grid.Within)
    (hLive : s.formulas.get? id = some f)
    (hOld : f.area.OnSheet)
    (hNew : (Rect.mk f.location extent).OnSheet)
    (p : Point) :
    (s.resize id extent).grid.get? p =
      if Rect.contains ⟨f.location, extent⟩ p = true then
        if f.area.contains p = true then s.grid.get? p
        else some (.extension id .blank)
      else if f.area.contains p = true ∧
          (s.grid.get? p).parent? = some id then
        none
      else
        s.grid.get? p := by
  unfold resize
  rw [hLive]
  dsimp only
  split
  · -- the extent is the same, and nothing is done
    rename_i hSame
    subst hSame
    by_cases hIn : f.area.contains p = true <;>
      simp_all [FormulaCell.area]
  · exact (Grid.resizeSpill_spec hSound hWithin id hOld hNew).2.2.2 p

theorem changesArea_resize
    (hSound : s.grid.Sound)
    (hWithin : s.grid.Within)
    (hLive : s.formulas.get? id = some f)
    (hOld : f.area.Rooted)
    (hOwns : s.Owns id f.area)
    (hOne : Size.one.Fits extent)
    (hNew : (Rect.mk f.location extent).OnSheet) :
    ChangesArea id f.area ⟨f.location, extent⟩ s
      (s.resize id extent) := by
  have hCells :=
    get?_grid_resize hSound hWithin hLive (hOwns.onSheet hOld) hNew
  -- the formula's own cell lies in both areas
  have hFirst : Rect.contains ⟨f.location, extent⟩ f.location = true := by
    rw [Rect.contains_iff]
    simp only [Size.Fits, Size.one] at hOne
    dsimp only
    omega
  have hOrigin : f.area.contains f.location = true := hOld.2
  have hCommon (p : Point) (hWas : f.area.contains p = true)
      (hIn : Rect.contains ⟨f.location, extent⟩ p = true) :
      (s.resize id extent).grid.get? p = s.grid.get? p := by
    rw [hCells, if_pos hIn, if_pos hWas]
  have hFreed (p : Point) (hWas : f.area.contains p = true)
      (hOut : ¬ Rect.contains ⟨f.location, extent⟩ p = true) :
      (s.resize id extent).grid.get? p = none := by
    have hNotFirst : p ≠ f.location := by
      rintro rfl
      exact hOut hFirst
    rw [hCells, if_neg hOut,
      if_pos ⟨hWas, (hOwns p).mpr ⟨hWas, hNotFirst⟩⟩]
  have hReserved (p : Point) (hWas : ¬ f.area.contains p = true)
      (hIn : Rect.contains ⟨f.location, extent⟩ p = true) :
      (s.resize id extent).grid.get? p =
        some (.extension id .blank) := by
    rw [hCells, if_pos hIn, if_neg hWas]
  have hOthers (p : Point) (hWas : ¬ f.area.contains p = true)
      (hOut : ¬ Rect.contains ⟨f.location, extent⟩ p = true) :
      (s.resize id extent).grid.get? p = s.grid.get? p := by
    rw [hCells, if_neg hOut, if_neg fun h => hWas h.1]
  refine
    ⟨fun p => ?_, hCommon, hFreed, hReserved, hOthers,
      hCommon _ hOrigin hFirst⟩
  have hOwn : _ ↔ f.area.contains p = true ∧ p ≠ f.location := hOwns p
  change _ ↔ Rect.contains ⟨f.location, extent⟩ p = true ∧
    p ≠ f.location
  by_cases hWas : f.area.contains p = true <;>
    by_cases hIn : Rect.contains ⟨f.location, extent⟩ p = true
  · rw [hCommon p hWas hIn, hOwn, hWas, hIn]
  · rw [hFreed p hWas hIn]
    simp [hIn]
  · have hNotFirst : p ≠ f.location := by
      rintro rfl
      exact hWas hOrigin
    rw [hReserved p hWas hIn]
    simp [hIn, hNotFirst]
  · rw [hOthers p hWas hIn, hOwn]
    simp [hWas, hIn]

------------------------------------------------------------
-- Results Given Up
------------------------------------------------------------

/-
  All cells that a formula owns in an area come free, and no
  others, if the first cell of the area is not one of them.
-/
theorem get?_clearSpill
    (hSound : s.grid.Sound)
    (hWithin : s.grid.Within)
    {area : Rect}
    (hRooted : area.Rooted)
    (hFirst : (s.grid.get? area.origin).parent? ≠ some id)
    (p : Point) :
    (s.grid.clearSpill id area).get? p =
      if (s.grid.get? p).parent? = some id ∧
          area.contains p = true then
        none
      else
        s.grid.get? p := by
  rw [(Grid.clearSpill_spec hSound hWithin id hRooted).2.2.2 p]
  refine if_congr (and_congr_right fun hPart => ?_) rfl rfl
  have hNotFirst : p ≠ area.origin := by
    rintro rfl
    exact hFirst hPart
  exact and_iff_left hNotFirst

------------------------------------------------------------
-- Extents
------------------------------------------------------------

/-
  Of a formula that owns the cells of its result, the result is
  resized. The formula owns the cells of the new area then, of
  which those that are new are blank, those of the old area
  alone are free, and no other cell, no other formula and
  nothing else of the sheet has changed. When any result is
  given up, the cells that its formula owns there come free,
  and no others.
-/
theorem resize_changes_area
    (hSound : s.grid.Sound)
    (hWithin : s.grid.Within)
    (hLive : s.formulas.get? id = some f)
    (hOld : f.area.Rooted)
    (hOwns : s.Owns id f.area)
    (hOne : Size.one.Fits extent)
    (hNew : (Rect.mk f.location extent).OnSheet) :
    let t := s.resize id extent
    ChangesArea id f.area ⟨f.location, extent⟩ s t ∧
      t.formulas.get? id = some { f with extent := extent } ∧
      (∀ k, k ≠ id → t.formulas.get? k = s.formulas.get? k) ∧
      t = { s with grid := t.grid, formulas := t.formulas } ∧
      ∀ (k : Handle) (area : Rect), area.Rooted →
        (s.grid.get? area.origin).parent? ≠ some k →
          ∀ p,
            (s.grid.clearSpill k area).get? p =
              if (s.grid.get? p).parent? = some k ∧
                  area.contains p = true then
                none
              else
                s.grid.get? p := by
  refine
    ⟨changesArea_resize hSound hWithin hLive hOld hOwns hOne hNew,
      ?_, fun k hOther => ?_, ?_,
      fun k area hRooted hFirst =>
        get?_clearSpill hSound hWithin hRooted hFirst⟩
  · rw [get?_resize, if_pos rfl, hLive]
    rfl
  · rw [get?_resize, if_neg hOther]
  · unfold resize
    rw [hLive]
    dsimp only
    split <;> rfl

/- A result that was a column becomes a row, or is given up. -/
theorem resize_changes_area_of_column :
    ∃ s f, (new ⟨true, 15, 64⟩).setFormula ⟨0, 0⟩
          ['{', 'T', 'R', 'U', 'E', ';', 'T', 'R', 'U', 'E', '}'] =
        .ok s ∧
      s.formulas.get? ⟨0, 0⟩ = some f ∧
      f.area = ⟨⟨0, 0⟩, ⟨1, 2⟩⟩ ∧
      s.Owns ⟨0, 0⟩ f.area ∧
      ChangesArea ⟨0, 0⟩ f.area ⟨f.location, ⟨2, 1⟩⟩ s
        (s.resize ⟨0, 0⟩ ⟨2, 1⟩) ∧
      (s.resize ⟨0, 0⟩ ⟨2, 1⟩).grid.get? ⟨0, 1⟩ = none ∧
      (s.resize ⟨0, 0⟩ ⟨2, 1⟩).grid.get? ⟨1, 0⟩ =
        some (.extension ⟨0, 0⟩ .blank) ∧
      (s.grid.clearSpill ⟨0, 0⟩ f.area).get? ⟨0, 1⟩ = none := by
  have hRun :
      ∃ s, (new ⟨true, 15, 64⟩).setFormula ⟨0, 0⟩
            ['{', 'T', 'R', 'U', 'E', ';', 'T', 'R', 'U', 'E', '}'] =
          .ok s ∧
        (s.size, (s.formulas.get? ⟨0, 0⟩).map (·.area)) =
          (⟨1, 2⟩, some ⟨⟨0, 0⟩, ⟨1, 2⟩⟩) :=
    ⟨_, rfl, by cbv⟩
  rcases hRun with ⟨s, hRun, hShows⟩
  rw [Prod.mk.injEq, Option.map_eq_some_iff] at hShows
  rcases hShows with ⟨hSize, f, hLive, hArea⟩
  have hCoherent : s.Coherent :=
    (orderly_of_calls
      (.call (.refl _) (.setFormula ⟨0, 0⟩ _) hRun
        (by rw [hSize]; decide))).toCoherent
  have hOwns := hCoherent.owns hLive
  have hRooted := hCoherent.agrees.located hLive
  have hLocation : f.location = ⟨0, 0⟩ := congrArg Rect.origin hArea
  have hOn : (Rect.mk f.location ⟨2, 1⟩).OnSheet := by
    intro p hIn
    rw [hLocation, Rect.contains_iff] at hIn
    rw [maxSize_eq, Size.contains_iff]
    dsimp only at hIn ⊢
    omega
  rcases
    resize_changes_area hCoherent.sound hCoherent.within hLive hRooted
      hOwns (by decide) hOn with
    ⟨hChanges, -, -, -, hGivenUp⟩
  have hFirst : (s.grid.get? f.area.origin).parent? ≠ some ⟨0, 0⟩ :=
    fun hPart => ((hOwns _).mp hPart).2 rfl
  refine ⟨s, f, hRun, hLive, hArea, hOwns, hChanges, ?_, ?_, ?_⟩
  · refine hChanges.freed _ ?_ ?_
    · rw [hArea]
      decide
    · rw [hLocation]
      decide
  · refine hChanges.reserved _ ?_ ?_
    · rw [hArea]
      decide
    · rw [hLocation]
      decide
  · rw [hGivenUp _ _ hRooted hFirst, if_pos]
    rw [hOwns ⟨0, 1⟩, hArea]
    decide

end Sheet

end Spreadsheet
