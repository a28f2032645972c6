import Spreadsheet.Proofs.IntervalMap.Dense
import Spreadsheet.Proofs.Sheet.Calls

/-
  The measures of columns and rows on sheets that calls made.

  Only the commands about measures, and those that insert and
  delete columns or rows, change them, and each of these is a
  call on the map of one axis. So the maps stay canonical. No
  command but one that deletes makes less of a sheet be in
  use.

  Main declarations:
    * `Measure.self_eq`
    * `Sheet.SameMeasures`
    * `Sheet.Grows`
    * `Sheet.Measured`
    * `Sheet.measured_of_calls`
-/

namespace Spreadsheet

------------------------------------------------------------
-- Equality Of Measures
------------------------------------------------------------

instance instPartialEquivBEqFloat32 : PartialEquivBEq Float32 where
  symm {x y} hEqual := by
    rw [Float32.beq_iff_ne_nan_and_eq] at hEqual ⊢
    tauto
  trans {x y z} hFirst hSecond := by
    rw [Float32.beq_iff_ne_nan_and_eq] at hFirst hSecond ⊢
    rcases hFirst with ⟨hx, hy, hFirst⟩
    rcases hSecond with ⟨-, hz, hSecond⟩
    refine ⟨hx, hz, ?_⟩
    rcases hFirst with rfl | ⟨rfl, rfl⟩ | ⟨rfl, rfl⟩
    · exact hSecond
    · rcases hSecond with rfl | ⟨-, rfl⟩ | ⟨-, rfl⟩ <;> simp
    · rcases hSecond with rfl | ⟨-, rfl⟩ | ⟨-, rfl⟩ <;> simp

namespace Measure

/- Measures are equal if what they say is. -/
theorem beq_iff {a b : Measure} :
    (a == b) = true ↔
      (a.length == b.length) = true ∧ a.hidden = b.hidden := by
  rw [← @beq_iff_eq _ _ _ a.hidden, ← Bool.and_eq_true]
  rfl

instance : PartialEquivBEq Measure where
  symm {a b} hEqual := by
    rw [beq_iff] at hEqual ⊢
    refine ⟨?_, hEqual.2.symm⟩
    cases ha : a.length <;> cases hb : b.length <;>
      simp_all [PartialEquivBEq.symm]
  trans {a b c} hFirst hSecond := by
    rw [beq_iff] at hFirst hSecond ⊢
    refine ⟨?_, hFirst.2.trans hSecond.2⟩
    cases ha : a.length <;> cases hb : b.length <;>
      cases hc : c.length <;> simp_all
    exact PartialEquivBEq.trans hFirst.1 hSecond.1

/- Only a length that is no number is not equal to itself. -/
theorem self_eq {a : Measure} :
    (a == a) = true ↔ a.length ≠ some Float32.nan := by
  rw [beq_iff]
  cases ha : a.length with
  | none => simp
  | some x => simp [Float32.beq_self_iff]

end Measure

------------------------------------------------------------
-- The Part In Use
------------------------------------------------------------

namespace Grid

variable {α σ : Type}

theorem fits_size_modifyCells
    (v : CellVisitor α σ)
    (r : Rect)
    (g : Grid α)
    (s : σ) :
    g.size.Fits (g.modifyCells v r s).1.size := by
  rw [size_modifyCells]
  exact Size.fits_sup_left _ _

theorem fits_size_transferCells
    (m : CellMover α σ)
    (source : Rect)
    (dest : Point)
    (g : Grid α)
    (s : σ) :
    g.size.Fits (g.transferCells m source dest s).1.size := by
  rw [size_transferCells]
  split
  · exact Size.Fits.refl _
  · exact Size.fits_sup_left _ _

theorem fits_size_spreadCell
    (m : CellMover α σ)
    (source : Point)
    (dest : Rect)
    (g : Grid α)
    (s : σ) :
    g.size.Fits (g.spreadCell m source dest s).1.size := by
  rw [size_spreadCell]
  exact Size.fits_sup_left _ _

theorem fits_giveUpArea
    (owner : Handle)
    (area : Rect)
    (g : Grid Cell) :
    g.size.Fits (g.giveUpArea owner area).size := by
  unfold giveUpArea
  split
  · exact Size.Fits.refl _
  · exact fits_size_modifyCells _ _ g ()

theorem fits_clearSpill
    (owner : Handle)
    (area : Rect)
    (g : Grid Cell) :
    g.size.Fits (g.clearSpill owner area).size :=
  (fits_giveUpArea owner _ g).trans
    (fits_giveUpArea owner _ _)

end Grid

namespace Sheet

------------------------------------------------------------
-- What Leaves Measures As They Are
------------------------------------------------------------

/- The measures of columns and rows are the same. -/
def SameMeasures (s t : Sheet) : Prop :=
  ∀ axis, t.measures axis = s.measures axis

theorem sameMeasures_refl (s : Sheet) : SameMeasures s s :=
  fun _ => rfl

theorem SameMeasures.trans
    {s t u : Sheet}
    (hFirst : SameMeasures s t)
    (hSecond : SameMeasures t u) :
    SameMeasures s u :=
  fun axis => (hSecond axis).trans (hFirst axis)

/- Cells, formulas and counts have nothing to do with measures. -/
theorem sameMeasures_of_eq
    {s t : Sheet}
    (hColumns : t.columns = s.columns)
    (hRows : t.rows = s.rows) :
    SameMeasures s t := by
  intro axis
  cases axis with
  | columns => exact hColumns
  | rows => exact hRows

/- No less of the sheet is in use, and the measures are the same. -/
structure Grows (s t : Sheet) : Prop where
  same : SameMeasures s t
  size : s.size.Fits t.size

theorem grows_refl (s : Sheet) : Grows s s :=
  ⟨sameMeasures_refl s, Size.Fits.refl _⟩

theorem Grows.trans
    {s t u : Sheet}
    (hFirst : Grows s t)
    (hSecond : Grows t u) :
    Grows s u :=
  ⟨hFirst.same.trans hSecond.same, hFirst.size.trans hSecond.size⟩

/- Formulas and counts have nothing to do with either. -/
theorem grows_of_eq
    {s t : Sheet}
    (hColumns : t.columns = s.columns)
    (hRows : t.rows = s.rows)
    (hGrid : t.grid = s.grid) :
    Grows s t := by
  refine ⟨sameMeasures_of_eq hColumns hRows, ?_⟩
  rw [size, size, hGrid]
  exact Size.Fits.refl _

/- Cells that are changed may bring more of the sheet into use. -/
theorem grows_of_cells
    {s t : Sheet}
    (hColumns : t.columns = s.columns)
    (hRows : t.rows = s.rows)
    (hGrid : s.grid.size.Fits t.grid.size) :
    Grows s t :=
  ⟨sameMeasures_of_eq hColumns hRows, hGrid⟩

theorem grows_modifyFormula
    (s : Sheet)
    (id : Handle)
    (f : FormulaCell → FormulaCell) :
    Grows s (s.modifyFormula id f) :=
  grows_of_eq rfl rfl rfl

theorem grows_collapse (s : Sheet) (id : Handle) :
    Grows s (s.collapse id) := by
  unfold collapse
  split
  · exact grows_refl s
  · split
    · exact grows_refl s
    · exact grows_of_cells rfl rfl (Grid.fits_clearSpill id _ _)

theorem grows_resize
    (s : Sheet)
    (id : Handle)
    (extent : Size) :
    Grows s (s.resize id extent) := by
  unfold resize
  split
  · exact grows_refl s
  · split
    · exact grows_refl s
    · exact grows_of_cells rfl rfl
        (s.grid.resizes_resizeSpill id _ _ _).fits

theorem grows_store
    (s : Sheet)
    (id : Handle)
    (ev : Evaluation)
    (v : Scalar) :
    Grows s (s.store id ev v) := by
  unfold store
  dsimp only
  split
  · exact (grows_resize s id _).trans (grows_modifyFormula _ id _)
  · split
    · exact grows_refl s
    · exact grows_of_cells rfl rfl
        (Grid.fits_size_modifyCell _ _ _ ())

theorem grows_evaluateFrom
    (id : Handle)
    (f : FormulaCell)
    (fuel : Nat)
    (ev : Evaluation)
    (s : Sheet) :
    Grows s (s.evaluateFrom id f fuel ev).2 := by
  induction fuel generalizing ev s with
  | zero => exact grows_refl s
  | succ fuel ih =>
      rw [evaluateFrom]
      split
      · exact grows_refl s
      · exact (grows_collapse s id).trans (grows_modifyFormula _ id _)
      · dsimp only
        split
        · exact grows_store s id _ _
        · exact (grows_store s id _ _).trans (ih _ _)

theorem grows_recalculateOne
    (s : Sheet)
    (id : Handle)
    (f : FormulaCell) :
    Grows s (s.recalculateOne id f).2 := by
  have hEvaluate :
      Grows s
        ((s.modifyFormula id (·.setInProgress true)).evaluate
          id f).2 :=
    (grows_modifyFormula s id _).trans
      (grows_evaluateFrom id f _ _ _)
  unfold recalculateOne
  split <;> rename_i hVerdict <;> rw [hVerdict] at hEvaluate
  · exact hEvaluate.trans (grows_modifyFormula _ id _)
  · exact hEvaluate.trans (grows_modifyFormula _ id _)
  · exact hEvaluate.trans
      ((grows_modifyFormula _ id _).trans
        (grows_modifyFormula _ id _))
  · exact hEvaluate.trans (grows_of_eq rfl rfl rfl)

theorem grows_recalculateFrom
    (fuel : Nat)
    (next : Option Handle)
    (s : Sheet) :
    Grows s (recalculateFrom fuel next s) := by
  induction fuel generalizing next s with
  | zero => exact grows_refl s
  | succ fuel ih =>
      cases next with
      | none => exact grows_refl s
      | some id =>
          rw [recalculateFrom]
          split
          · exact grows_refl s
          · split
            · exact (grows_recalculateOne s id _).trans (ih _ _)
            · exact ih _ s

theorem grows_recalculate (s : Sheet) : Grows s s.recalculate := by
  have hBegun : Grows s { s with generation := !s.generation } :=
    grows_of_eq rfl rfl rfl
  exact hBegun.trans (grows_recalculateFrom _ _ _)

theorem grows_refresh (s : Sheet) : Grows s s.refresh := by
  unfold refresh
  split
  · exact grows_recalculate s
  · exact grows_refl s

theorem grows_edit
    (s : Sheet)
    {change : Grid Cell → Edit → Grid Cell × Edit}
    (hChange :
      ∀ (g : Grid Cell) (e : Edit), g.size.Fits (change g e).1.size) :
    Grows s (s.edit change) := by
  have hGivenUp (l : List Orphan) (g : Grid Cell) :
      g.size.Fits (l.foldl giveUp g).size := by
    induction l generalizing g with
    | nil => exact Size.Fits.refl _
    | cons o l ih =>
        exact (Grid.fits_clearSpill o.owner o.area g).trans (ih _)
  rw [edit_eq_refresh]
  refine Grows.trans ?_ (grows_refresh _)
  exact grows_of_cells rfl rfl ((hChange _ _).trans (hGivenUp _ _))

/- Steps that leave the measures as they are, one by one. -/
theorem grows_foldl
    {step : Sheet → Handle → Sheet}
    (hStep : ∀ s id, Grows s (step s id))
    (l : List Handle)
    (s : Sheet) :
    Grows s (l.foldl step s) := by
  induction l generalizing s with
  | nil => exact grows_refl s
  | cons id l ih => exact (hStep s id).trans (ih _)

theorem grows_modifyFormulas
    (s : Sheet)
    (f : FormulaCell → FormulaCell) :
    Grows s (s.modifyFormulas f) :=
  grows_foldl (fun s id => grows_modifyFormula s id f) _ s

theorem grows_collapseAcross
    (axis : Axis)
    (before : Nat)
    (s : Sheet)
    (id : Handle) :
    Grows s (collapseAcross axis before s id) := by
  unfold collapseAcross
  split
  · exact grows_refl s
  · split
    · exact grows_collapse s id
    · exact grows_refl s

theorem grows_deleteAcross
    (axis : Axis)
    (first count : Nat)
    (s : Sheet)
    (id : Handle) :
    Grows s (deleteAcross axis first count s id) := by
  unfold deleteAcross
  split
  · exact grows_refl s
  · dsimp only
    split
    · exact (grows_collapse s id).trans (grows_of_eq rfl rfl rfl)
    · exact grows_modifyFormula s id _

------------------------------------------------------------
-- What Changes Measures
------------------------------------------------------------

/- Both maps of measures are canonical. -/
def Measured (s : Sheet) : Prop :=
  ∀ axis, (s.measures axis).Canonical

theorem Measured.same
    {s t : Sheet}
    (hMeasured : s.Measured)
    (hSame : SameMeasures s t) :
    t.Measured :=
  fun axis => by
    rw [hSame axis]
    exact hMeasured axis

theorem measures_setMeasures
    (s : Sheet)
    (axis : Axis)
    (m : Measures) :
    (s.setMeasures axis m).measures axis = m ∧
      (s.setMeasures axis m).measures axis.cross =
        s.measures axis.cross := by
  cases axis <;> exact ⟨rfl, rfl⟩

/- What holds along an axis and across it holds of both. -/
theorem measured_iff_along {s : Sheet} (axis : Axis) :
    s.Measured ↔
      (s.measures axis).Canonical ∧
        (s.measures axis.cross).Canonical := by
  constructor
  · exact fun hMeasured => ⟨hMeasured axis, hMeasured axis.cross⟩
  · rintro ⟨hAlong, hCross⟩ other
    cases axis <;> cases other <;>
      first
      | exact hAlong
      | exact hCross

theorem Measured.setMeasures
    {s : Sheet}
    (hMeasured : s.Measured)
    {axis : Axis}
    {m : Measures}
    (hCanonical : m.Canonical) :
    (s.setMeasures axis m).Measured := by
  rcases measures_setMeasures s axis m with ⟨hAlong, hCross⟩
  refine (measured_iff_along axis).2 ⟨?_, ?_⟩
  · rw [hAlong]
    exact hCanonical
  · rw [hCross]
    exact hMeasured axis.cross

variable {s t : Sheet}

theorem Measured.modifyMeasures
    (hMeasured : s.Measured)
    {axis : Axis}
    {start count : Nat}
    {op : Option Measure → Option Measure}
    (hDone :
      s.modifyMeasures axis start count
          (fun m start stop => m.modify start stop op) =
        .ok t) :
    t.Measured := by
  unfold Sheet.modifyMeasures at hDone
  rw [Except.bind_eq_ok] at hDone
  rcases hDone with ⟨_, _, hEdit⟩
  cases hEdit
  refine Measured.setMeasures ?_
    (IntervalMap.Command.canonical_apply (hMeasured axis)
      (.modify start (start + count) op))
  exact hMeasured.same (sameMeasures_of_eq rfl rfl)

theorem size_setMeasures
    (s : Sheet)
    (axis : Axis)
    (m : Measures) :
    (s.setMeasures axis m).size = s.size := by
  cases axis <;> rfl

/- The measures of the shifted axis, and of the other one. -/
theorem measures_insertedBand
    (s : Sheet)
    (axis : Axis)
    (before count : Nat) :
    (s.insertedBand axis before count).measures axis =
        (s.measures axis).insertIndices before count ∧
      (s.insertedBand axis before count).measures axis.cross =
        s.measures axis.cross := by
  unfold insertedBand
  dsimp only
  generalize hCut :
    s.formulas.handles.foldl (collapseAcross axis before) s = t
  have hSame : SameMeasures s t := by
    rw [← hCut]
    exact (grows_foldl (grows_collapseAcross axis before) _ s).same
  generalize
    (t.grid.insertBand axis Edit.shifter before count none).1 = grid
  have hModified :
      SameMeasures s
        ({ t with grid := grid }.modifyFormulas
          (·.insertBand axis before count)) :=
    hSame.trans (SameMeasures.trans (sameMeasures_of_eq rfl rfl)
      (grows_modifyFormulas _ _).same)
  have hSet := measures_setMeasures
    ({ t with grid := grid }.modifyFormulas
      (·.insertBand axis before count)) axis
  refine ⟨(hSet _).1.trans ?_, (hSet _).2.trans (hModified _)⟩
  rw [hModified axis]

theorem measures_deletedBand
    (s : Sheet)
    (axis : Axis)
    (first count : Nat) :
    (s.deletedBand axis first count).measures axis =
        (s.measures axis).eraseIndices first (first + count) ∧
      (s.deletedBand axis first count).measures axis.cross =
        s.measures axis.cross := by
  unfold deletedBand
  dsimp only
  generalize hCut :
    s.formulas.handles.foldl (deleteAcross axis first count) s = t
  have hSame : SameMeasures s t := by
    rw [← hCut]
    exact (grows_foldl (grows_deleteAcross axis first count) _ s).same
  generalize
    (t.grid.deleteBand axis Edit.shifter first count none).1 = grid
  have hSet := measures_setMeasures { t with grid := grid } axis
  refine ⟨(hSet _).1.trans ?_, (hSet _).2.trans (hSame _)⟩
  rw [hSame axis]

/- The part in use grows along the axis, and stays across it. -/
theorem size_insertedBand
    (s : Sheet)
    (axis : Axis)
    (before count : Nat) :
    max (s.size.along axis) before + count ≤
        (s.insertedBand axis before count).size.along axis ∧
      s.size.along axis.cross ≤
        (s.insertedBand axis before count).size.along axis.cross := by
  unfold insertedBand
  dsimp only
  generalize hCut :
    s.formulas.handles.foldl (collapseAcross axis before) s = t
  have hGrows : Grows s t := by
    rw [← hCut]
    exact grows_foldl (grows_collapseAcross axis before) _ s
  have hBefore := (Grid.fits_iff_along axis).1 hGrows.size
  have hAfter := (Grid.fits_iff_along axis).1
    (grows_modifyFormulas
      { t with
        grid := (t.grid.insertBand axis Edit.shifter before count
          none).1 }
      (·.insertBand axis before count)).size
  rw [size_setMeasures]
  simp only [size, Grid.size_insertBand, Size.along_setAlong,
    Size.along_cross_setAlong] at hBefore hAfter ⊢
  omega

/- It shrinks along the axis by no more than what is deleted. -/
theorem size_deletedBand
    (s : Sheet)
    (axis : Axis)
    (first count : Nat) :
    max (min (s.size.along axis) first)
          (s.size.along axis - count) ≤
        (s.deletedBand axis first count).size.along axis ∧
      s.size.along axis.cross ≤
        (s.deletedBand axis first count).size.along axis.cross := by
  unfold deletedBand
  dsimp only
  generalize hCut :
    s.formulas.handles.foldl (deleteAcross axis first count) s = t
  have hGrows : Grows s t := by
    rw [← hCut]
    exact grows_foldl (grows_deleteAcross axis first count) _ s
  have hBefore := (Grid.fits_iff_along axis).1 hGrows.size
  rw [size_setMeasures]
  simp only [size, Grid.size_deleteBand] at hBefore ⊢
  split
  · omega
  · rw [Size.along_setAlong, Size.along_cross_setAlong]
    omega

theorem Measured.insertBand
    (hMeasured : s.Measured)
    {axis : Axis}
    {before count : Nat}
    (hDone : s.insertBand axis before count = .ok t) :
    t.Measured := by
  unfold Sheet.insertBand at hDone
  rw [Except.bind_eq_ok] at hDone
  rcases hDone with ⟨_, -, hEdit⟩
  split at hEdit
  · cases hEdit
    exact hMeasured
  · cases hEdit
    refine Measured.same ?_ (grows_refresh _).same
    rcases measures_insertedBand s axis before count with
      ⟨hAlong, hCross⟩
    refine (measured_iff_along axis).2 ⟨?_, ?_⟩
    · exact hAlong ▸ IntervalMap.Command.canonical_apply
        (hMeasured axis) (.insert before count)
    · exact hCross ▸ hMeasured axis.cross

theorem Measured.deleteBand
    (hMeasured : s.Measured)
    {axis : Axis}
    {first count : Nat}
    (hDone : s.deleteBand axis first count = .ok t) :
    t.Measured := by
  unfold Sheet.deleteBand at hDone
  rw [Except.bind_eq_ok] at hDone
  rcases hDone with ⟨_, -, hEdit⟩
  split at hEdit
  · cases hEdit
    exact hMeasured
  · cases hEdit
    refine Measured.same ?_ (grows_refresh _).same
    rcases measures_deletedBand s axis first count with
      ⟨hAlong, hCross⟩
    refine (measured_iff_along axis).2 ⟨?_, ?_⟩
    · exact hAlong ▸ IntervalMap.Command.canonical_apply
        (hMeasured axis) (.erase first (first + count))
    · exact hCross ▸ hMeasured axis.cross

------------------------------------------------------------
-- All Commands
------------------------------------------------------------

/- A command on cells checks its arguments and changes cells. -/
theorem grows_of_check
    {check : Except SheetError Unit}
    {rest : Except SheetError Sheet}
    (hRest : rest = .ok t → Grows s t)
    (hDone : (check >>= fun _ => rest) = .ok t) :
    Grows s t := by
  rw [Except.bind_eq_ok] at hDone
  rcases hDone with ⟨_, -, hEdit⟩
  exact hRest hEdit

theorem grows_of_edit
    {change : Grid Cell → Edit → Grid Cell × Edit}
    (hChange :
      ∀ (g : Grid Cell) (e : Edit), g.size.Fits (change g e).1.size)
    (hDone : Except.ok (s.edit change) = (.ok t : Except SheetError Sheet)) :
    Grows s t := by
  cases hDone
  exact grows_edit s hChange

/- The commands that are about single cells or rectangles. -/
def Command.isOnCells : Command → Bool
  | .setValue .. | .setFormula .. | .clearCell _ | .clearCells _
  | .copyCell .. | .copyCells .. | .moveCell .. | .moveCells .. =>
      true
  | _ => false

theorem grows_of_isOnCells
    {command : Command}
    (hOnCells : command.isOnCells = true)
    (hDone : command.run s = .ok t) :
    Grows s t := by
  cases command with
  | setValue p v =>
      exact grows_of_check (grows_of_edit fun g e =>
        Grid.fits_size_modifyCell _ p g e) hDone
  | setFormula p text =>
      exact grows_of_check (grows_of_edit fun g e =>
        Grid.fits_size_modifyCell _ p g e) hDone
  | clearCell p =>
      exact grows_of_check (grows_of_edit fun g e =>
        Grid.fits_size_modifyCell _ p g e) hDone
  | clearCells r =>
      exact grows_of_check (grows_of_edit fun g e =>
        Grid.fits_size_modifyCells _ r g e) hDone
  | copyCell source dest =>
      exact grows_of_check (grows_of_check (grows_of_edit fun g e =>
        Grid.fits_size_spreadCell _ source dest g e)) hDone
  | copyCells source dest =>
      exact grows_of_check (grows_of_check (grows_of_edit fun g e =>
        Grid.fits_size_transferCells _ source dest g e)) hDone
  | moveCell source dest =>
      exact grows_of_check (grows_of_check (grows_of_edit fun g e =>
        Grid.fits_size_transferCells _ _ dest g e)) hDone
  | moveCells source dest =>
      exact grows_of_check (grows_of_check (grows_of_edit fun g e =>
        Grid.fits_size_transferCells _ source dest g e)) hDone
  | _ => cases hOnCells

/- Every command keeps the maps of measures canonical. -/
theorem Measured.run
    (hMeasured : s.Measured)
    {command : Command}
    (hDone : command.run s = .ok t) :
    t.Measured := by
  by_cases hOnCells : command.isOnCells = true
  · exact hMeasured.same (grows_of_isOnCells hOnCells hDone).same
  cases command with
  | insertBand axis before count =>
      exact hMeasured.insertBand hDone
  | deleteBand axis first count =>
      exact hMeasured.deleteBand hDone
  | setLength axis start count length =>
      exact hMeasured.modifyMeasures hDone
  | clearLength axis start count =>
      exact hMeasured.modifyMeasures hDone
  | hide axis start count => exact hMeasured.modifyMeasures hDone
  | unhide axis start count => exact hMeasured.modifyMeasures hDone
  | suspend =>
      cases hDone
      exact hMeasured.same (sameMeasures_of_eq rfl rfl)
  | resume =>
      change s.resume = .ok t at hDone
      unfold Sheet.resume at hDone
      split at hDone
      · cases hDone
      · cases hDone
        exact hMeasured.same
          (SameMeasures.trans (sameMeasures_of_eq rfl rfl)
            (grows_refresh _).same)
  | recalculate =>
      cases hDone
      exact hMeasured.same (grows_recalculate s).same
  | _ => exact absurd rfl hOnCells

/- So do all commands and batches together. -/
theorem Calls.measured
    (hCalls : Calls s t)
    (hMeasured : s.Measured) :
    t.Measured := by
  induction hCalls with
  | refl s => exact hMeasured
  | call _ command hRun _ ih => exact (ih hMeasured).run hRun
  | batch _ commands _ _ ih ihInner =>
      have hInner := ihInner
        ((ih hMeasured).same (sameMeasures_of_eq rfl rfl))
      exact hInner.same
        (SameMeasures.trans (sameMeasures_of_eq rfl rfl)
          (grows_refresh _).same)

theorem measured_new (config : SheetConfig) :
    (new config).Measured := by
  intro axis
  cases axis <;> exact IntervalMap.canonical_empty

theorem measured_of_calls
    {config : SheetConfig}
    (hCalls : Calls (new config) s) :
    s.Measured :=
  hCalls.measured (measured_new config)

end Sheet

end Spreadsheet
