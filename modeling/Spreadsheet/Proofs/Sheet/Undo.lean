import Mathlib
import Spreadsheet.Proofs.IntervalMap.Undo
import Spreadsheet.Proofs.Reference.Undo
import Spreadsheet.Proofs.Sheet.Measures

/-
  Inserting columns or rows and deleting them again.

  Cells, formulas and references are shifted to and fro, and
  the measures are cut and joined again. While calculation is
  held back and no formula is cut down, nothing else happens.

  Main declarations:
    * `FormulaCell.deleteBand_insertBand`
    * `Grid.get?_delete_insert`
    * `Sheet.insertion_undone`
    * `Sheet.insertion_not_undone`
-/

namespace Spreadsheet

------------------------------------------------------------
-- Formulas
------------------------------------------------------------

namespace FormulaCell

variable {axis : Axis} {before count : Nat}

/- A list that nothing changes in is used on. -/
theorem setRefs?_changed?
    (f : FormulaCell)
    (become : Reference → Reference) :
    f.setRefs? (f.refs.changed? become) =
      { f with refs := f.refs.map become } := by
  unfold References.changed?
  split
  · rename_i hSame
    rw [hSame]
    rfl
  · rfl

theorem insertBand_eq
    (f : FormulaCell)
    (axis : Axis)
    (before count : Nat) :
    f.insertBand axis before count =
      { f with
        refs :=
          f.refs.map
            (·.inserted axis (f.location.along axis) before count)
        location :=
          f.location.setAlong axis
            (afterInsertion before count (f.location.along axis)) } := by
  unfold insertBand
  dsimp only
  rw [References.adjustToInsertion?_eq, setRefs?_changed?]
  rfl

/- No reference becomes illegal by an insertion. -/
def StaysLegal
    (axis : Axis)
    (before count : Nat)
    (f : FormulaCell) : Prop :=
  ∀ r ∈ f.refs,
    r.inserted axis (f.location.along axis) before count = .illegal →
      r = .illegal

/- The references of a formula are restored. -/
theorem erased_inserted_refs
    {f : FormulaCell}
    (hLegal : f.StaysLegal axis before count) :
    (f.insertBand axis before count).refs.map
        (·.erased axis
          (afterInsertion before count (f.location.along axis))
          before count) =
      f.refs := by
  rw [insertBand_eq, List.map_map]
  refine (List.map_congr_left fun r hr => ?_).trans (List.map_id _)
  exact Reference.erased_inserted axis r (hLegal r hr)

theorem deleteBand_eq
    (f : FormulaCell)
    (axis : Axis)
    (first count : Nat) :
    f.deleteBand axis first count =
      if f.location.along axis < first then
        { f with
          refs :=
            f.refs.map
              (·.erased axis (f.location.along axis) first count)
          extent :=
            f.extent.setAlong axis
              (f.extent.along axis -
                min count (f.stopAlong axis - first)) }
      else
        { f with
          refs :=
            f.refs.map
              (·.erased axis (f.location.along axis) first count)
          location :=
            f.location.setAlong axis
              (f.location.along axis - count) } := by
  unfold deleteBand
  dsimp only
  rw [References.adjustToErasure?_eq, setRefs?_changed?]
  rfl

/- A formula goes back to where it was. -/
theorem deleteBand_insertBand
    {f : FormulaCell}
    (hApart : ¬ Sheet.IsAcross axis before f)
    (hLegal : f.StaysLegal axis before count) :
    (f.insertBand axis before count).deleteBand axis before count =
      f := by
  have hRefs := erased_inserted_refs hLegal
  rcases Sheet.along_insertBand f axis before count with
    ⟨hAlong, -, hExtent⟩
  have hPlace :
      (f.insertBand axis before count).location.along axis =
        afterInsertion before count (f.location.along axis) := hAlong
  rw [deleteBand_eq, hPlace, hRefs]
  unfold afterInsertion at hPlace ⊢
  by_cases hBefore : before ≤ f.location.along axis
  · -- The formula was shifted, and is shifted back.
    rw [if_pos hBefore, if_neg (by omega), Nat.add_sub_cancel,
      insertBand_eq]
    cases axis <;> rfl
  · -- The formula stayed, and its result ends before the line.
    have hStop : f.stopAlong axis ≤ before := by
      unfold Sheet.IsAcross at hApart
      omega
    rw [if_neg hBefore] at hPlace ⊢
    have hNone :
        (f.insertBand axis before count).stopAlong axis - before =
          0 := by
      unfold stopAlong at hStop ⊢
      rw [hPlace, hExtent]
      omega
    rw [if_pos (by omega), hNone, Nat.min_zero, Nat.sub_zero,
      insertBand_eq, afterInsertion, if_neg hBefore]
    cases axis <;> rfl

end FormulaCell

------------------------------------------------------------
-- Cells
------------------------------------------------------------

namespace Sheet

variable {s t : Sheet} {axis : Axis} {before count : Nat}

------------------------------------------------------------
-- Lists Of Formulas
------------------------------------------------------------

theorem listed_foldl_modifyFormula
    {all : List Handle}
    (change : FormulaCell → FormulaCell)
    (l : List Handle)
    (hListed : s.formulas.Listed all) :
    (l.foldl (fun s id => s.modifyFormula id change)
      s).formulas.Listed all := by
  induction l generalizing s with
  | nil => exact hListed
  | cons id l ih => exact ih (hListed.modify id change)

theorem handles_modifyFormulas
    (hListed : ∃ l, s.formulas.Listed l)
    (change : FormulaCell → FormulaCell) :
    (s.modifyFormulas change).formulas.handles =
      s.formulas.handles := by
  rcases hListed with ⟨all, hListed⟩
  rw [hListed.handles_eq]
  exact (listed_foldl_modifyFormula change _ hListed).handles_eq

/- Nothing is cut down if no result reaches across. -/
theorem foldl_collapseAcross_of_apart
    (hApart :
      ∀ {id f}, s.formulas.get? id = some f →
        ¬ IsAcross axis before f)
    (l : List Handle) :
    l.foldl (collapseAcross axis before) s = s := by
  have hStep : ∀ id, collapseAcross axis before s id = s := by
    intro id
    unfold collapseAcross
    split
    · rfl
    · rename_i f hLive
      exact if_neg (hApart hLive)
  induction l with
  | nil => rfl
  | cons id l ih => rw [List.foldl_cons, hStep, ih]

/- All formulas are changed if none of them is removed. -/
theorem foldl_deleteAcross_of_kept
    {l : List Handle}
    (hNodup : l.Nodup)
    (hKept :
      ∀ id ∈ l, ∃ f, s.formulas.get? id = some f ∧
        ¬ IsDeleted axis before count f) :
    l.foldl (deleteAcross axis before count) s =
      l.foldl
        (fun s id =>
          s.modifyFormula id (·.deleteBand axis before count))
        s := by
  induction l generalizing s with
  | nil => rfl
  | cons id l ih =>
      rw [List.nodup_cons] at hNodup
      rw [List.forall_mem_cons] at hKept
      rcases hKept.1 with ⟨f, hLive, hNot⟩
      have hStep :
          deleteAcross axis before count s id =
            s.modifyFormula id
              (·.deleteBand axis before count) := by
        unfold deleteAcross
        rw [hLive]
        exact if_neg hNot
      rw [List.foldl_cons, List.foldl_cons, hStep]
      refine ih hNodup.2 fun k hk => ?_
      have hOther : k ≠ id := fun hEq => hNodup.1 (hEq ▸ hk)
      rcases hKept.2 k hk with ⟨g, hg, hNotG⟩
      refine ⟨g, ?_, hNotG⟩
      change (s.formulas.modify id _).get? k = some g
      rw [LinkedArena.get?_modify, if_neg hOther]
      exact hg

------------------------------------------------------------
-- Shifting To And Fro
------------------------------------------------------------

/- What a shift leaves of cells and formulas. -/
structure Shifts
    (s t : Sheet)
    (grid : Grid Cell)
    (change : FormulaCell → FormulaCell) : Prop where
  grid_eq : t.grid = grid
  handles_eq : t.formulas.handles = s.formulas.handles
  get?_eq :
    ∀ id, t.formulas.get? id = (s.formulas.get? id).map change

theorem shifts_modifyFormulas
    (hListed : ∃ l, s.formulas.Listed l)
    (grid : Grid Cell)
    (change : FormulaCell → FormulaCell)
    (m : Measures) :
    Shifts s
      (({ s with grid := grid }.modifyFormulas change).setMeasures
        axis m)
      grid change := by
  rcases modifyFormulas_spec (s := { s with grid := grid }) hListed
      change with
    ⟨-, hGrid, -, hTable⟩
  have hHandles :=
    handles_modifyFormulas (s := { s with grid := grid }) hListed
      change
  have hSet := fun t : Sheet => grid_setMeasures t axis m
  refine ⟨(hSet _).1.trans hGrid, ?_, fun id => ?_⟩
  · rw [(hSet _).2.1]
    exact hHandles
  · rw [(hSet _).2.1]
    exact hTable id

theorem shifts_insertedBand
    (hOrderly : s.Orderly)
    (hApart :
      ∀ {id f}, s.formulas.get? id = some f →
        ¬ IsAcross axis before f)
    (count : Nat) :
    Shifts s (s.insertedBand axis before count)
      (s.grid.insertBand axis Edit.shifter before count none).1
      (·.insertBand axis before count) := by
  unfold insertedBand
  dsimp only
  rw [foldl_collapseAcross_of_apart hApart]
  exact shifts_modifyFormulas hOrderly.listed _ _ _

/- The part in use grows by what was inserted. -/
theorem fits_insertedBand
    (hOrderly : s.Orderly)
    (hFits : s.size.Fits maxSize)
    (hApart :
      ∀ {id f}, s.formulas.get? id = some f →
        ¬ IsAcross axis before f)
    (hRoom :
      max (s.size.along axis) before + count ≤ maxSize.along axis) :
    (s.insertedBand axis before count).size.Fits maxSize := by
  have hAcross := (Grid.fits_iff_along axis).1 hFits
  have hSize :
      (s.insertedBand axis before count).size =
        s.size.setAlong axis
          (max (s.size.along axis) before + count) := by
    change (s.insertedBand axis before count).grid.size = _
    rw [(shifts_insertedBand hOrderly hApart count).grid_eq]
    rfl
  rw [hSize, Grid.fits_iff_along axis]
  cases axis <;> exact ⟨hRoom, hAcross.2⟩

theorem shifts_deletedBand
    (hOrderly : s.Orderly)
    (hKept :
      ∀ {id f}, s.formulas.get? id = some f →
        ¬ IsDeleted axis before count f) :
    Shifts s (s.deletedBand axis before count)
      (s.grid.deleteBand axis Edit.shifter before count none).1
      (·.deleteBand axis before count) := by
  rcases hOrderly.listed with ⟨l, hListed⟩
  have hFold :
      s.formulas.handles.foldl (deleteAcross axis before count) s =
        s.modifyFormulas (·.deleteBand axis before count) := by
    rw [modifyFormulas, hListed.handles_eq]
    refine foldl_deleteAcross_of_kept hListed.threads.nodup
      fun id hId => ?_
    rw [← hListed.isSome_get?_iff, Option.isSome_iff_exists] at hId
    rcases hId with ⟨f, hLive⟩
    exact ⟨f, hLive, hKept hLive⟩
  rcases modifyFormulas_spec hOrderly.listed
      (·.deleteBand axis before count) with
    ⟨-, hGrid, -, hTable⟩
  have hHandles :=
    handles_modifyFormulas hOrderly.listed
      (·.deleteBand axis before count)
  unfold deletedBand
  dsimp only
  rw [hFold, hGrid]
  have hSet := fun t : Sheet =>
    grid_setMeasures t axis
      (((s.modifyFormulas
        (·.deleteBand axis before count)).measures
          axis).eraseIndices before (before + count))
  refine ⟨(hSet _).1, ?_, fun id => ?_⟩
  · rw [(hSet _).2.1]
    exact hHandles
  · rw [(hSet _).2.1]
    exact hTable id

/- No formula stands in what was just inserted. -/
theorem Shifts.not_isDeleted
    {grid : Grid Cell}
    (hShifts : Shifts s t grid (·.insertBand axis before count))
    {id : Handle}
    {g : FormulaCell}
    (hLive : t.formulas.get? id = some g) :
    ¬ IsDeleted axis before count g := by
  rw [hShifts.get?_eq, Option.map_eq_some_iff] at hLive
  rcases hLive with ⟨f, -, rfl⟩
  rw [IsDeleted, (along_insertBand f axis before count).1]
  split <;> omega

------------------------------------------------------------
-- Undoing An Insertion
------------------------------------------------------------

/- No calculation follows a command. -/
def IsHeldBack (s : Sheet) : Prop :=
  s.suspended ≠ 0 ∨ s.config.autoRecalc = false

theorem IsHeldBack.refresh
    (hHeld : s.IsHeldBack) :
    s.refresh = s := by
  unfold IsHeldBack at hHeld
  unfold Sheet.refresh
  rw [if_neg]
  rcases hHeld with h | h <;> simp [h]

theorem IsHeldBack.frame
    (hHeld : s.IsHeldBack)
    (hFrame : SameFrame s t) :
    t.IsHeldBack := by
  unfold IsHeldBack at hHeld ⊢
  rwa [hFrame.suspended, hFrame.config]

/- An insertion that is accepted leaves enough room. -/
theorem checkInsertion_eq_ok
    {used : Nat} :
    checkInsertion axis before count used = .ok () ↔
      checkBand axis before count = .ok () ∧
        count ≤ maxSize.along axis - max used before := by
  unfold checkInsertion
  rw [Except.bind_eq_ok, checkCount_eq_ok]
  constructor
  · rintro ⟨_, hBand, hRoom⟩
    exact ⟨hBand, hRoom⟩
  · rintro ⟨hBand, hRoom⟩
    exact ⟨(), hBand, hRoom⟩

/- What a sheet has in common with one that was shifted back. -/
structure Restored
    (axis : Axis)
    (before : Nat)
    (s u : Sheet) : Prop where
  cells : ∀ p, u.grid.get? p = s.grid.get? p
  formulas : ∀ id, u.formulas.get? id = s.formulas.get? id
  order : u.formulas.handles = s.formulas.handles
  measure :
    ∀ other i,
      (u.measures other).get? i = (s.measures other).get? i
  across : u.measures axis.cross = s.measures axis.cross
  along :
    (∀ r ∈ (s.measures axis).intervals,
        r.start < before → before < r.stop →
          r.value.length ≠ some Float32.nan) →
      u.measures axis = s.measures axis

theorem restored_refl (s : Sheet) : Restored axis before s s :=
  ⟨fun _ => rfl, fun _ => rfl, rfl, fun _ _ => rfl, rfl,
    fun _ => rfl⟩

theorem measures_delete_insert
    (hMeasured : s.Measured)
    (axis : Axis)
    (before : Nat)
    (hCount : 0 < count) :
    (∀ other i,
        (((s.insertedBand axis before count).deletedBand axis before
            count).measures other).get? i =
          (s.measures other).get? i) ∧
      ((s.insertedBand axis before count).deletedBand axis before
          count).measures axis.cross =
        s.measures axis.cross ∧
      ((∀ r ∈ (s.measures axis).intervals,
          r.start < before → before < r.stop →
            r.value.length ≠ some Float32.nan) →
        ((s.insertedBand axis before count).deletedBand axis before
            count).measures axis =
          s.measures axis) := by
  rcases measures_insertedBand s axis before count with
    ⟨hInserted, hInsertedCross⟩
  rcases measures_deletedBand (s.insertedBand axis before count) axis
      before count with
    ⟨hAlong, hDeletedCross⟩
  rw [hInserted] at hAlong
  have hCross := hDeletedCross.trans hInsertedCross
  refine ⟨?_, hCross, ?_⟩
  · intro other i
    have hSides : other = axis ∨ other = axis.cross := by
      cases axis <;> cases other <;> simp [Axis.cross]
    rcases hSides with rfl | rfl
    · rw [hAlong]
      exact IntervalMap.get?_erase_insert (hMeasured other) before
        hCount i
    · rw [hCross]
  · intro hNumbers
    rw [hAlong]
    refine IntervalMap.erase_insert (hMeasured axis) hCount ?_
    intro r hr hInterior
    exact Measure.self_eq.2
      (hNumbers r hr hInterior.1 hInterior.2)

/- Both shifts, one after the other. -/
theorem restored_delete_insert
    (hOrderly : s.Orderly)
    (hMeasured : s.Measured)
    (hFits : s.size.Fits maxSize)
    (hCount : 0 < count)
    (hRoom :
      max (s.size.along axis) before + count ≤ maxSize.along axis)
    (hApart :
      ∀ {id f}, s.formulas.get? id = some f →
        ¬ IsAcross axis before f)
    (hLegal :
      ∀ {id f}, s.formulas.get? id = some f →
        f.StaysLegal axis before count) :
    Restored axis before s
      ((s.insertedBand axis before count).deletedBand axis before
        count) := by
  have hInserted := shifts_insertedBand hOrderly hApart count
  have hOrderly' :=
    (hOrderly.insertedBand hFits axis hRoom).1
  have hCells :=
    Grid.get?_insertBand Edit.hands_shifter Edit.moves_shifter
      hOrderly.sound hOrderly.within hFits Edit.free_shifter axis
      hRoom
  have hFits' := fits_insertedBand hOrderly hFits hApart hRoom
  generalize hSheet : s.insertedBand axis before count = t
    at hInserted hOrderly' hFits'
  have hDeleted :=
    shifts_deletedBand hOrderly' fun {id g} hLive =>
      hInserted.not_isDeleted hLive
  rcases
    Grid.deleteBand_spec Edit.hands_shifter Edit.moves_shifter
      hOrderly'.sound hOrderly'.within hFits' Edit.free_shifter axis
      before count with
    ⟨-, -, hCells'⟩
  rcases measures_delete_insert hMeasured axis before hCount with
    ⟨hMeasure, hCross, hAlong⟩
  rw [hSheet] at hMeasure hCross hAlong
  refine ⟨fun p => ?_, fun id => ?_, ?_, hMeasure, hCross, hAlong⟩
  · rw [hDeleted.grid_eq, hCells', hInserted.grid_eq, hCells,
      Grid.insertSource?_deleteSource]
    rfl
  · rw [hDeleted.get?_eq, hInserted.get?_eq]
    cases hLive : s.formulas.get? id with
    | none => rfl
    | some f =>
        exact congrArg some
          (FormulaCell.deleteBand_insertBand (hApart hLive)
            (hLegal hLive))
  · exact hDeleted.handles_eq.trans hInserted.handles_eq

/- What an insertion that was accepted did. -/
theorem eq_insertedBand
    (hOrderly : s.Orderly)
    (hFits : s.size.Fits maxSize)
    (hHeld : s.IsHeldBack)
    (hCount : 0 < count)
    (hInsert : s.insertBand axis before count = .ok t) :
    checkBand axis before count = .ok () ∧
      max (s.size.along axis) before + count ≤ maxSize.along axis ∧
        t = s.insertedBand axis before count := by
  unfold Sheet.insertBand at hInsert
  rw [Except.bind_eq_ok] at hInsert
  rcases hInsert with ⟨_, hCheck, hEdit⟩
  rw [checkInsertion_eq_ok] at hCheck
  rcases hCheck with ⟨hBand, hEnough⟩
  have hUsed := ((Grid.fits_iff_along axis).1 hFits).1
  have hPlace := (checkBand_eq_ok.1 hBand).1
  have hRoom :
      max (s.size.along axis) before + count ≤ maxSize.along axis := by
    change s.size.along axis ≤ _ at hUsed
    omega
  refine ⟨hBand, hRoom, ?_⟩
  rw [if_neg (by omega)] at hEdit
  have hFrame := (hOrderly.insertedBand hFits axis hRoom).2
  have hRefresh := (hHeld.frame hFrame).refresh
  cases hEdit
  exact hRefresh

/- A deletion that is accepted, while calculation is held back. -/
theorem deleteBand_eq_deletedBand
    (hOrderly : s.Orderly)
    (hFits : s.size.Fits maxSize)
    (hHeld : s.IsHeldBack)
    (hCount : 0 < count)
    (hBand : checkBand axis before count = .ok ()) :
    s.deleteBand axis before count =
      .ok (s.deletedBand axis before count) := by
  have hFrame :=
    (hOrderly.deletedBand hFits axis before count).2
  have hRefresh := (hHeld.frame hFrame).refresh
  unfold Sheet.deleteBand
  rw [Except.bind_eq_ok]
  refine ⟨(), hBand, ?_⟩
  rw [if_neg (by omega)]
  exact congrArg Except.ok hRefresh

/- Nothing is inserted, and nothing deleted. -/
theorem restored_of_none
    (hInsert : s.insertBand axis before 0 = .ok t) :
    t.deleteBand axis before 0 = .ok t ∧ t = s := by
  unfold Sheet.insertBand at hInsert
  rw [Except.bind_eq_ok] at hInsert
  rcases hInsert with ⟨_, hCheck, hEdit⟩
  rw [checkInsertion_eq_ok] at hCheck
  rw [if_pos rfl] at hEdit
  refine ⟨?_, (Except.ok.inj hEdit).symm⟩
  unfold Sheet.deleteBand
  rw [Except.bind_eq_ok]
  exact ⟨(), hCheck.1, if_pos rfl⟩

/- References that are stored as legal ones stay legal. -/
theorem staysLegal_of_stored
    {f : FormulaCell}
    (hStored :
      ∀ i : Nat,
        (f.insertBand axis before count).refs[i]? = some .illegal →
          f.refs[i]? = some .illegal) :
    f.StaysLegal axis before count := by
  intro r hr hIllegal
  rcases List.getElem?_of_mem hr with ⟨i, hi⟩
  have hNow :
      (f.insertBand axis before count).refs[i]? = some .illegal := by
    rw [FormulaCell.insertBand_eq, List.getElem?_map, hi,
      Option.map_some, hIllegal]
  have hWas := hStored i hNow
  rw [hi] at hWas
  exact Option.some.inj hWas

/-
  While calculation is held back, an insertion that tears no
  result apart and pushes no reference off the sheet is undone
  by deleting what was inserted. The measure of every column
  and row is the same again, and so are the maps of measures;
  but where a length that is no number was cut, its interval
  stays in two parts.
-/
theorem insertion_undone
    {config : SheetConfig}
    (hCalls : Calls (new config) s)
    (hHeld : s.IsHeldBack)
    (hInsert : s.insertBand axis before count = .ok t)
    (hApart :
      ∀ id f, s.formulas.get? id = some f →
        ¬ IsAcross axis before f)
    (hLegal :
      ∀ id f g, s.formulas.get? id = some f →
        t.formulas.get? id = some g →
          ∀ i : Nat, g.refs[i]? = some .illegal →
            f.refs[i]? = some .illegal) :
    ∃ u, t.deleteBand axis before count = .ok u ∧
      Restored axis before s u := by
  rcases hCalls.orderly (orderly_new config)
      ⟨Nat.zero_le _, Nat.zero_le _⟩ with
    ⟨hOrderly, hFits⟩
  have hMeasured := measured_of_calls hCalls
  rcases Nat.eq_zero_or_pos count with rfl | hCount
  · rcases restored_of_none hInsert with ⟨hDelete, rfl⟩
    exact ⟨t, hDelete, restored_refl t⟩
  rcases eq_insertedBand hOrderly hFits hHeld hCount hInsert with
    ⟨hBand, hRoom, rfl⟩
  have hOrderly' := hOrderly.insertedBand hFits axis hRoom
  have hFits' :=
    fits_insertedBand hOrderly hFits (fun {id f} => hApart id f) hRoom
  have hShifts :=
    shifts_insertedBand hOrderly (fun {id f} => hApart id f) count
  refine ⟨_,
    deleteBand_eq_deletedBand hOrderly'.1 hFits'
      (hHeld.frame hOrderly'.2) hCount hBand,
    restored_delete_insert hOrderly hMeasured hFits hCount hRoom
      (fun {id f} => hApart id f) fun {id f} hLive => ?_⟩
  refine staysLegal_of_stored fun i hIllegal =>
    hLegal id f _ hLive ?_ i hIllegal
  rw [hShifts.get?_eq, hLive]
  rfl

/-
  The reference moves away from the line, and back to it.
-/
theorem insertion_undone_reference :
    ∃ s t u,
      (new ⟨false, 15, 64⟩).setFormula ⟨0, 0⟩ ['A', '3'] = .ok s ∧
        s.insertBand .rows 1 1 = .ok t ∧
        t.deleteBand .rows 1 1 = .ok u ∧
        Restored .rows 1 s u := by
  have hRun :
      ∃ s t,
        (new ⟨false, 15, 64⟩).setFormula ⟨0, 0⟩ ['A', '3'] = .ok s ∧
          s.insertBand .rows 1 1 = .ok t ∧
          (s.size, s.config.autoRecalc, s.formulas.handles,
              (s.formulas.get? ⟨0, 0⟩).map fun f => f.area,
              (t.formulas.get? ⟨0, 0⟩).map (·.refs)) =
            (⟨1, 1⟩, false, [⟨0, 0⟩], some ⟨⟨0, 0⟩, ⟨1, 1⟩⟩,
              some [.cell (.relative 0) (.relative 3)]) :=
    ⟨_, _, rfl, rfl, by cbv⟩
  rcases hRun with ⟨s, t, hSet, hInsert, hShows⟩
  simp only [Prod.mk.injEq] at hShows
  rcases hShows with ⟨hSize, hAuto, hHandles, hArea, hRefs⟩
  have hCalls : Calls (new ⟨false, 15, 64⟩) s :=
    .call (.refl _) (.setFormula ⟨0, 0⟩ ['A', '3']) hSet
      (by rw [hSize]; decide)
  have hOnly :
      ∀ {id f}, s.formulas.get? id = some f → id = ⟨0, 0⟩ := by
    intro id f hLive
    have hMem := mem_handles (orderly_of_calls hCalls).listed hLive
    rw [hHandles] at hMem
    exact List.mem_singleton.1 hMem
  rcases insertion_undone hCalls (.inr hAuto) hInsert
      (fun id f hLive => by
        obtain rfl := hOnly hLive
        rw [hLive, Option.map_some, Option.some.injEq] at hArea
        rw [IsAcross, FormulaCell.stopAlong,
          show f.location = ⟨0, 0⟩ from congrArg Rect.origin hArea,
          show f.extent = ⟨1, 1⟩ from congrArg Rect.size hArea]
        decide)
      (fun id f g hLive hLater i hIllegal => by
        obtain rfl := hOnly hLive
        rw [hLater, Option.map_some, Option.some.injEq] at hRefs
        rw [hRefs] at hIllegal
        have hIn := List.mem_of_getElem? hIllegal
        cases List.mem_singleton.1 hIn) with
    ⟨u, hDelete, hRestored⟩
  exact ⟨s, t, u, hSet, hInsert, hDelete, hRestored⟩

/-
  An interval with a length that is no number stays in two
  parts, although no formula is on the sheet.
-/
theorem insertion_not_undone :
    ∃ s t u,
      (new ⟨false, 15, 64⟩).setLength .rows 0 4 Float32.nan = .ok s ∧
        Calls (new ⟨false, 15, 64⟩) s ∧
        s.IsHeldBack ∧
        (∀ id, s.formulas.get? id = none) ∧
        s.insertBand .rows 2 1 = .ok t ∧
        t.deleteBand .rows 2 1 = .ok u ∧
        s.rows.intervals = [⟨0, 4, ⟨some Float32.nan, false⟩⟩] ∧
        u.rows.intervals =
          [⟨0, 2, ⟨some Float32.nan, false⟩⟩,
            ⟨2, 4, ⟨some Float32.nan, false⟩⟩] := by
  have hRun :
      ∃ s t u,
        (new ⟨false, 15, 64⟩).setLength .rows 0 4 Float32.nan = .ok s ∧
          s.insertBand .rows 2 1 = .ok t ∧
          t.deleteBand .rows 2 1 = .ok u ∧
          s.size = ⟨0, 4⟩ ∧
          s.config.autoRecalc = false ∧
          s.formulas = .empty ∧
          s.rows.intervals = [⟨0, 4, ⟨some Float32.nan, false⟩⟩] ∧
          u.rows = (s.rows.insertIndices 2 1).eraseIndices 2 3 :=
    ⟨_, _, _, rfl, rfl, rfl, rfl, rfl, rfl, rfl, rfl⟩
  rcases hRun with
    ⟨s, t, u, hSet, hInsert, hDelete, hSize, hAuto, hEmpty, hRows,
      hBack⟩
  have hCalls : Calls (new ⟨false, 15, 64⟩) s :=
    .call (.refl _) (.setLength .rows 0 4 Float32.nan) hSet
      (by rw [hSize]; decide)
  refine ⟨s, t, u, hSet, hCalls, .inr hAuto, fun id => ?_, hInsert,
    hDelete, hRows, ?_⟩
  · rw [hEmpty]
    rfl
  · have hCanonical : s.rows.Canonical :=
      measured_of_calls hCalls .rows
    have hCut :=
      IntervalMap.intervals_erase_insert hCanonical 2 Nat.one_pos
    have hTorn :
        ((⟨some Float32.nan, false⟩ : Measure) ==
            ⟨some Float32.nan, false⟩) =
          false := by
      rw [← Bool.not_eq_true, Measure.self_eq]
      exact fun hNumber => hNumber rfl
    rw [hBack]
    refine hCut.trans ?_
    rw [hRows, List.flatMap_singleton, Intervals.tornAt,
      if_pos ⟨by decide, hTorn⟩]

end Sheet

end Spreadsheet
