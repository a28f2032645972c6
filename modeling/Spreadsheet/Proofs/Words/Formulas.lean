import Spreadsheet.Proofs.Sheet.Bands
import Spreadsheet.Proofs.Words.Grid

/-
  Formulas and their results in words.

  Where cells and formulas agree, a result lies in the part of
  the sheet that is in use. So its cells can be given up, and
  a formula can be shifted as far as the sheet goes, without a
  sum or difference that fails.

  Main declarations:
    * `Sheet.Orderly.area_fits`
    * `Grid.clearSpill?_spec`
    * `Sheet.edit?_spec`
    * `Sheet.collapse?_spec`
    * `FormulaCell.insertBand?_eq_some`
    * `FormulaCell.deleteBand?_eq_some`
    * `Sheet.modifyFormulas?_eq_some`
-/

namespace Spreadsheet

------------------------------------------------------------
-- Cells Of Results
------------------------------------------------------------

namespace Grid

/- Give up the cells of a rectangle that are in use, in words. -/
def giveUpArea?
    (owner : Handle)
    (area : Rect)
    (g : Grid Cell) : Option (Grid Cell) :=
  match area.intersection (.whole g.size) with
  | none => some g
  | some area => do
      let (g, _) ← g.modifyCells? (Spill.giveUp owner).checked area ()
      return g

/-
  Give up the cells of a result beyond its first. The result
  has to start on the sheet; where it ends need not be a word.
-/
def clearSpill?
    (owner : Handle)
    (area : Rect)
    (g : Grid Cell) : Option (Grid Cell) := do
  let width ← Word.sub? maxSize.width area.origin.x
  let height ← Word.sub? maxSize.height area.origin.y
  let size := area.size.inf ⟨width, height⟩
  let right ← Word.add? area.origin.x 1
  let below ← Word.add? area.origin.y 1
  let g ←
    g.giveUpArea? owner
      (.of right area.origin.y (size.width - 1) 1)
  g.giveUpArea? owner
    (.of area.origin.x below size.width (size.height - 1))

variable {g : Grid Cell}

/- What is shared with the part in use lies on the sheet. -/
theorem isPlaced_intersection
    {size : Size}
    (hFits : size.Fits maxSize)
    {area shared : Rect}
    (hShared : area.intersection (.whole size) = some shared) :
    shared.IsPlaced := by
  unfold Rect.intersection at hShared
  dsimp only at hShared
  split at hShared
  · rename_i hMeet
    cases hShared
    simp only [Rect.whole, Rect.endPoint, Point.add, Point.zero]
      at hMeet
    rcases hFits with ⟨hWidth, hHeight⟩
    constructor
    · rw [Size.contains_iff]
      simp only [Rect.of, Rect.whole, Point.zero]
      omega
    · simp only [Size.Fits, Rect.of, Rect.endPoint, Point.add,
        Point.toSize, Rect.whole, Point.zero]
      omega
  · cases hShared

theorem giveUpArea?_spec
    (hReady : g.Ready)
    (owner : Handle)
    (area : Rect) :
    g.giveUpArea? owner area = some (g.giveUpArea owner area) ∧
      (g.giveUpArea owner area).Ready := by
  unfold giveUpArea? giveUpArea
  cases hShared : area.intersection (.whole g.size) with
  | none => exact ⟨rfl, hReady⟩
  | some shared =>
      rcases
        modifyCells?_spec hReady (Spill.giveUp owner).matches_checked
          (isPlaced_intersection hReady.fits hShared) () with
        ⟨hOut, hKept⟩
      dsimp only
      rw [hOut]
      exact ⟨rfl, hKept⟩

theorem clearSpill?_spec
    (hReady : g.Ready)
    (owner : Handle)
    {area : Rect}
    (hOn : maxSize.contains area.origin = true) :
    g.clearSpill? owner area = some (g.clearSpill owner area) ∧
      (g.clearSpill owner area).Ready := by
  rw [Size.contains_iff] at hOn
  have hWidth := Word.maxSize_lt .columns
  have hHeight := Word.maxSize_lt .rows
  simp only [Size.along] at hWidth hHeight
  have hRight : area.origin.x + 1 < 2 ^ 32 := by omega
  have hBelow : area.origin.y + 1 < 2 ^ 32 := by omega
  rcases
    giveUpArea?_spec hReady owner (spillRight area.clip) with
    ⟨hFirst, hReady'⟩
  rcases
    giveUpArea?_spec hReady' owner (spillBelow area.clip) with
    ⟨hSecond, hReady''⟩
  refine ⟨?_, hReady''⟩
  unfold clearSpill? clearSpill
  simp only [Word.sub?_eq_some hOn.1.le, Word.sub?_eq_some hOn.2.le,
    Word.add?_eq_some hRight, Word.add?_eq_some hBelow,
    Option.bind_eq_bind, Option.bind_some]
  rw [← hSecond]
  change (g.giveUpArea? owner (spillRight area.clip)).bind _ = _
  rw [hFirst]
  rfl

end Grid

------------------------------------------------------------
-- Changes Of Single Cells
------------------------------------------------------------

namespace Sheet

variable {s : Sheet}

/- The area of a formula ends with the part in use. -/
theorem Orderly.area_fits
    (hOrderly : s.Orderly)
    {id : Handle}
    {f : FormulaCell}
    (hLive : s.formulas.get? id = some f) :
    f.area.endPoint.toSize.Fits s.size := by
  have hFilled := (hOrderly.agrees.located hLive).2
  rw [Rect.contains_iff] at hFilled
  -- the last cell of the area is in use
  let last : Point :=
    ⟨f.area.origin.x + f.area.size.width - 1,
      f.area.origin.y + f.area.size.height - 1⟩
  have hLast : f.area.contains last = true := by
    rw [Rect.contains_iff]
    dsimp only [last]
    omega
  have hUsed : s.grid.get? last ≠ none := by
    intro hNone
    by_cases hFirst : last = f.location
    · have hHeld := hOrderly.agrees.held hLive (by simp)
      rw [← hFirst, hNone] at hHeld
      cases hHeld
    · have hPart := hOrderly.agrees.covered hLive ⟨hLast, hFirst⟩
      rw [hNone] at hPart
      cases hPart
  have hIn := Size.contains_iff.1 (hOrderly.within last hUsed)
  dsimp only [last] at hIn
  change
    f.area.origin.x + f.area.size.width ≤ s.grid.size.width ∧
      f.area.origin.y + f.area.size.height ≤ s.grid.size.height
  omega

/- So it ends with the part in use along each axis. -/
theorem Orderly.stopAlong_le
    (hOrderly : s.Orderly)
    {id : Handle}
    {f : FormulaCell}
    (hLive : s.formulas.get? id = some f)
    (axis : Axis) :
    f.stopAlong axis ≤ s.size.along axis := by
  have hFits := hOrderly.area_fits hLive
  cases axis with
  | columns => exact hFits.1
  | rows => exact hFits.2

/- Counts are exact on a sheet that is not used too far. -/
theorem Orderly.ready
    (hOrderly : s.Orderly)
    (hFits : s.size.Fits maxSize) :
    s.grid.Ready :=
  ⟨hOrderly.sound, hFits⟩

/- Give up the cells of a result that is not wanted any more. -/
def giveUp? (g : Grid Cell) (o : Orphan) : Option (Grid Cell) :=
  g.clearSpill? o.owner o.area

theorem giveUpAll?_spec
    {g : Grid Cell}
    (hReady : g.Ready)
    {orphans : List Orphan}
    (hOn : ∀ o ∈ orphans, maxSize.contains o.area.origin = true) :
    orphans.foldlM giveUp? g = some (orphans.foldl giveUp g) ∧
      (orphans.foldl giveUp g).Ready :=
  Word.foldlM_eq_some Grid.Ready
    (fun o hOrphan _ hReady =>
      Grid.clearSpill?_spec hReady o.owner (hOn o hOrphan))
    hReady

/- Change cells, give up what is not covered, and calculate. -/
def edit?
    (change? : Grid Cell → Edit → Option (Grid Cell × Edit))
    (s : Sheet) : Option Sheet := do
  let (grid, e) ← change? s.grid (.start s.formulas)
  let grid ← e.orphans.foldlM giveUp? grid
  return { s with grid := grid, formulas := e.formulas }.refresh

theorem edit?_spec
    {change? : Grid Cell → Edit → Option (Grid Cell × Edit)}
    {change : Grid Cell → Edit → Grid Cell × Edit}
    (hTracked : s.IsTracked change)
    (hChange :
      let after := change s.grid (.start s.formulas)
      change? s.grid (.start s.formulas) = some after ∧
        after.1.Ready) :
    s.edit? change? = some (s.edit change) ∧
      (s.edited change).size.Fits maxSize := by
  rcases hChange with ⟨hOut, hReady⟩
  rcases
    giveUpAll?_spec hReady fun o hOrphan =>
      (hTracked.tracks.agrees.orphan_located hOrphan).1 with
    ⟨hGivenUp, hReady'⟩
  unfold edit?
  rw [hOut, Option.bind_eq_bind, Option.bind_some]
  dsimp only
  rw [hGivenUp]
  exact ⟨rfl, hReady'.fits⟩

/- The result of a formula covers its own cell only, in words. -/
def collapse? (s : Sheet) (id : Handle) : Option Sheet :=
  match s.formulas.get? id with
  | none => some s
  | some f =>
      if f.extent = Size.one then
        some s
      else do
        let grid ← s.grid.clearSpill? id f.area
        let s := s.modifyFormula id ({ · with extent := Size.one })
        return { s with grid := grid }

theorem collapse?_eq_some
    (hReady : s.grid.Ready)
    {id : Handle}
    (hOn :
      ∀ f, s.formulas.get? id = some f →
        maxSize.contains f.location = true) :
    s.collapse? id = some (s.collapse id) := by
  unfold collapse? collapse
  cases hLive : s.formulas.get? id with
  | none => rfl
  | some f =>
      dsimp only
      split
      · rfl
      · have hCleared :
            s.grid.clearSpill? id f.area =
              some (s.grid.clearSpill id f.area) :=
          (Grid.clearSpill?_spec hReady id (hOn f hLive)).1
        rw [hCleared]
        rfl

end Sheet

------------------------------------------------------------
-- Single Formulas
------------------------------------------------------------

namespace FormulaCell

/- Columns or rows were inserted, in words. -/
def insertBand?
    (axis : Axis)
    (before count : Nat)
    (f : FormulaCell) : Option FormulaCell := do
  let i := f.location.along axis
  let j ← if before ≤ i then Word.add? i count else some i
  let g := f.setRefs? (f.refs.adjustToInsertion? axis i before count)
  return { g with location := f.location.setAlong axis j }

/-
  Columns or rows were deleted, but not that of the formula.
  Its result is cut only if it reaches that far.
-/
def deleteBand?
    (axis : Axis)
    (first count : Nat)
    (f : FormulaCell) : Option FormulaCell := do
  let i := f.location.along axis
  let n := f.extent.along axis
  let f := f.setRefs? (f.refs.adjustToErasure? axis i first count)
  if i < first then do
    let stop ← Word.add? i n
    if first < stop then do
      let lost ← Word.sub? stop first
      let extent ← Word.sub? n (min count lost)
      return { f with extent := f.extent.setAlong axis extent }
    else
      return f
  else do
    let j ← Word.sub? i count
    return { f with location := f.location.setAlong axis j }

theorem insertBand?_eq_some
    {axis : Axis}
    {f : FormulaCell}
    {count : Nat}
    (hRoom : f.location.along axis + count < 2 ^ 32)
    (before : Nat) :
    f.insertBand? axis before count =
      some (f.insertBand axis before count) := by
  unfold insertBand? insertBand
  dsimp only
  rw [Word.add?_eq_some hRoom]
  split <;> rfl

theorem deleteBand?_eq_some
    {axis : Axis}
    {f : FormulaCell}
    {first count : Nat}
    (hStop : f.stopAlong axis < 2 ^ 32)
    (hKept : ¬ Sheet.IsDeleted axis first count f) :
    f.deleteBand? axis first count =
      some (f.deleteBand axis first count) := by
  unfold stopAlong at hStop
  unfold Sheet.IsDeleted at hKept
  unfold deleteBand? deleteBand
  dsimp only
  split
  · rw [Word.add?_eq_some hStop, Option.bind_eq_bind,
      Option.bind_some]
    split
    · have hLost : first ≤
          f.location.along axis + f.extent.along axis := by
        omega
      have hCut :
          min count
              (f.location.along axis + f.extent.along axis - first) ≤
            f.extent.along axis := by
        omega
      rw [Word.sub?_eq_some hLost, Option.bind_some,
        Word.sub?_eq_some hCut]
      rfl
    · have hNone :
          f.location.along axis + f.extent.along axis - first = 0 := by
        omega
      have hExtent :=
        setRefs?_extent f
          (f.refs.adjustToErasure? axis (f.location.along axis) first
            count)
      generalize f.setRefs? _ = g at hExtent ⊢
      have hSame :
          g.extent.setAlong axis (g.extent.along axis) = g.extent := by
        cases axis <;> rfl
      rw [hNone, Nat.min_zero, Nat.sub_zero, ← hExtent, hSame]
      rfl
  · have hAfter : count ≤ f.location.along axis := by omega
    rw [Word.sub?_eq_some hAfter]
    rfl

end FormulaCell

namespace Sheet

variable {s : Sheet}

/- Change a formula, unless it was removed. -/
def changeFormula?
    (f? : FormulaCell → Option FormulaCell)
    (s : Sheet)
    (id : Handle) : Option Sheet :=
  match s.formulas.get? id with
  | none => some s
  | some f => do
      let f ← f? f
      return s.modifyFormula id fun _ => f

theorem changeFormula?_eq_some
    {f? : FormulaCell → Option FormulaCell}
    {change : FormulaCell → FormulaCell}
    {id : Handle}
    (hChange :
      ∀ f, s.formulas.get? id = some f → f? f = some (change f)) :
    s.changeFormula? f? id = some (s.modifyFormula id change) := by
  unfold changeFormula? modifyFormula
  cases hLive : s.formulas.get? id with
  | none =>
      rw [LinkedArena.modify_of_gone hLive]
  | some f =>
      dsimp only
      rw [hChange f hLive]
      refine congrArg (fun formulas =>
        some { s with formulas := formulas }) ?_
      refine LinkedArena.modify_congr fun x hx => ?_
      rw [hLive] at hx
      cases hx
      rfl

/- All formulas are changed if each change comes out. -/
theorem modifyFormulas?_eq_some
    (hListed : ∃ l, s.formulas.Listed l)
    {f? : FormulaCell → Option FormulaCell}
    {change : FormulaCell → FormulaCell}
    (hChange :
      ∀ id f, s.formulas.get? id = some f →
        f? f = some (change f)) :
    s.formulas.handles.foldlM (changeFormula? f?) s =
      some (s.modifyFormulas change) := by
  -- the formulas that were not reached are those of the start
  refine
    (Word.foldlM_eq_some_of_nodup
      (fun done t =>
        ∀ id, id ∉ done → t.formulas.get? id = s.formulas.get? id)
      (fun id _ done t hNew hSame => ?_) (nodup_handles hListed)
      (fun _ _ => List.not_mem_nil) (fun _ _ => rfl)).1
  refine ⟨changeFormula?_eq_some fun f hLive => ?_, ?_⟩
  · rw [hSame id hNew] at hLive
    exact hChange id f hLive
  · intro k hOther
    rw [List.mem_cons, not_or] at hOther
    have hTable :=
      LinkedArena.get?_modify t.formulas id k change
    rw [if_neg hOther.1] at hTable
    exact hTable.trans (hSame k hOther.2)

end Sheet

end Spreadsheet
