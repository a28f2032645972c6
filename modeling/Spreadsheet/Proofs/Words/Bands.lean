import Spreadsheet.Proofs.Sheet.Measures
import Spreadsheet.Proofs.Words.Formulas

/-
  Inserting and deleting columns and rows in words.

  The room for an insertion is found with the size of the part
  in use alone. It is enough for all that is shifted: cells,
  formulas and measures end with that part.

  Main declarations:
    * `IntervalMap.insertIndices?_eq_some`
    * `IntervalMap.eraseIndices?_eq_some`
    * `Sheet.insertedBand?_spec`
    * `Sheet.deletedBand?_spec`
-/

namespace Spreadsheet

------------------------------------------------------------
-- Intervals
------------------------------------------------------------

variable {V : Type}

namespace Interval

/- The interval after an insertion, in words. -/
def insertIndices?
    (before count : Nat)
    (r : Interval V) : Option (Interval V) :=
  if r.stop ≤ before then
    some r
  else do
    let stop ← Word.add? r.stop count
    if r.start ≤ before then
      return { r with stop := stop }
    else do
      let start ← Word.add? r.start count
      return { r with start := start, stop := stop }

/- The interval further down, in words. -/
def shiftDown?
    (count : Nat)
    (r : Interval V) : Option (Interval V) := do
  let start ← Word.sub? r.start count
  let stop ← Word.sub? r.stop count
  return { r with start := start, stop := stop }

theorem insertIndices?_eq_some
    {r : Interval V}
    (hFilled : r.start < r.stop)
    {count : Nat}
    (hRoom : r.stop + count < 2 ^ 32)
    (before : Nat) :
    r.insertIndices? before count =
      some (r.insertIndices before count) := by
  have hStart : r.start + count < 2 ^ 32 := by omega
  unfold insertIndices? insertIndices
  rw [Word.add?_eq_some hRoom, Word.add?_eq_some hStart]
  split
  · rfl
  · split <;> simp_all [shiftUp]

theorem shiftDown?_eq_some
    {r : Interval V}
    {count : Nat}
    (hStart : count ≤ r.start)
    (hStop : count ≤ r.stop) :
    r.shiftDown? count = some (r.shiftDown count) := by
  unfold shiftDown?
  rw [Word.sub?_eq_some hStart, Word.sub?_eq_some hStop]
  rfl

end Interval

namespace IntervalMap

/- Insert indices before another one, in words. -/
def insertIndices?
    (m : IntervalMap V)
    (before count : Nat) : Option (IntervalMap V) := do
  let rs ← m.intervals.mapM (·.insertIndices? before count)
  return ⟨rs⟩

/- Indices are erased up to one that is not smaller. -/
def eraseIndices?
    [BEq V]
    (m : IntervalMap V)
    (start stop : Nat) : Option (IntervalMap V) := do
  Word.ensure (start ≤ stop)
  if start < stop then do
    let count ← Word.sub? stop start
    let rs ←
      (Intervals.above stop m.intervals).mapM (·.shiftDown? count)
    return ⟨Intervals.append (Intervals.below start m.intervals) rs⟩
  else
    return m

variable [BEq V] {m : IntervalMap V}

/- It is enough if there is room after the last interval. -/
theorem insertIndices?_eq_some
    (hCanonical : m.Canonical)
    {n : Nat}
    (hStops : m.StopsBy n)
    {count : Nat}
    (hRoom : n + count < 2 ^ 32)
    (before : Nat) :
    m.insertIndices? before count =
      some (m.insertIndices before count) := by
  unfold insertIndices? insertIndices
  rw [Word.mapM_eq_some
    (f := Interval.insertIndices before count) fun r hIn => ?_]
  · rfl
  · have hStop := hStops r hIn
    exact
      Interval.insertIndices?_eq_some (hCanonical.filled r hIn)
        (by omega) before

theorem eraseIndices?_eq_some
    {start stop : Nat}
    (hOrder : start ≤ stop) :
    m.eraseIndices? start stop =
      some (m.eraseIndices start stop) := by
  unfold eraseIndices? eraseIndices
  simp only [Word.ensure_eq_some hOrder, Word.sub?_eq_some hOrder,
    Option.bind_eq_bind, Option.bind_some]
  split
  · rw [Word.mapM_eq_some (f := (·.shiftDown (stop - start)))
      fun r hIn => ?_]
    · rfl
    · -- what is shifted starts behind what is erased
      rcases List.mem_map.1 hIn with ⟨u, hu, rfl⟩
      have hStop := (List.mem_filter.1 hu).2
      rw [decide_eq_true_eq] at hStop
      exact
        Interval.shiftDown?_eq_some
          (by dsimp only; omega) (by dsimp only; omega)
  · rfl

end IntervalMap

namespace Sheet

variable {s : Sheet}

------------------------------------------------------------
-- Inserting
------------------------------------------------------------

/- Cut down a result that would be torn apart, in words. -/
def collapseAcross?
    (axis : Axis)
    (before : Nat)
    (s : Sheet)
    (id : Handle) : Option Sheet :=
  match s.formulas.get? id with
  | none => some s
  | some f =>
      if f.location.along axis < before then do
        let stop ←
          Word.add? (f.location.along axis) (f.extent.along axis)
        if before < stop then s.collapse? id else return s
      else
        some s

/- Insert columns or rows before calculation, in words. -/
def insertedBand?
    (axis : Axis)
    (before count : Nat)
    (s : Sheet) : Option Sheet := do
  let s ← s.formulas.handles.foldlM (collapseAcross? axis before) s
  let (grid, _) ← s.grid.insertBand? axis Edit.shifter before count none
  let s := { s with grid := grid }
  let s ←
    s.formulas.handles.foldlM
      (changeFormula? (·.insertBand? axis before count)) s
  let measures ← (s.measures axis).insertIndices? before count
  return s.setMeasures axis measures

/- The place of a formula is on a sheet that is not too large. -/
theorem Orderly.on_sheet
    (hOrderly : s.Orderly)
    {id : Handle}
    {f : FormulaCell}
    (hLive : s.formulas.get? id = some f) :
    maxSize.contains f.location = true :=
  (hOrderly.agrees.located hLive).1

theorem collapseAcross?_eq_some
    (hOrderly : s.Orderly)
    (hFits : s.size.Fits maxSize)
    (axis : Axis)
    (before : Nat)
    (id : Handle) :
    s.collapseAcross? axis before id =
      some (s.collapseAcross axis before id) := by
  unfold collapseAcross? collapseAcross
  cases hLive : s.formulas.get? id with
  | none => rfl
  | some f =>
      have hStop := hOrderly.stopAlong_le hLive axis
      have hUsed := ((Grid.fits_iff_along axis).1 hFits).1
      have hWord := Word.maxSize_lt axis
      have hCollapse : s.collapse? id = some (s.collapse id) :=
        collapse?_eq_some (hOrderly.ready hFits)
          fun f hLive => hOrderly.on_sheet hLive
      unfold FormulaCell.stopAlong at hStop ⊢
      dsimp only
      rw [Word.add?_eq_some (by omega), hCollapse]
      by_cases hBefore : f.location.along axis < before <;>
        by_cases hAfter :
            before < f.location.along axis + f.extent.along axis <;>
          simp [hBefore, hAfter]

/- Orderly sheets stay so while results are cut down. -/
theorem collapseAcrossAll?_eq_some
    (hOrderly : s.Orderly)
    (hFits : s.size.Fits maxSize)
    (axis : Axis)
    (before : Nat)
    (l : List Handle) :
    l.foldlM (collapseAcross? axis before) s =
      some (l.foldl (collapseAcross axis before) s) := by
  refine
    (Word.foldlM_eq_some
      (fun t => t.Orderly ∧ t.size = s.size)
      (fun id _ t hInv => ⟨?_, ?_⟩) ⟨hOrderly, rfl⟩).1
  · exact
      collapseAcross?_eq_some hInv.1 (hInv.2 ▸ hFits) axis before id
  · rcases foldl_collapseAcross hInv.1 axis before [id] with
      ⟨hOrderly', hSize, -⟩
    exact ⟨hOrderly', hSize.trans hInv.2⟩

/-
  If there is room behind the part in use, there is room for
  its formulas and for its measures.
-/
theorem insertedBand?_spec
    (hOrderly : s.Orderly)
    (hFits : s.size.Fits maxSize)
    {axis : Axis}
    {before count : Nat}
    (hRoom :
      max (s.size.along axis) before + count ≤ maxSize.along axis)
    (hCanonical : (s.measures axis).Canonical)
    (hStops : (s.measures axis).StopsBy (s.size.along axis)) :
    s.insertedBand? axis before count =
        some (s.insertedBand axis before count) ∧
      (s.insertedBand axis before count).size.Fits maxSize := by
  have hWord := Word.maxSize_lt axis
  have hCut :=
    collapseAcrossAll?_eq_some hOrderly hFits axis before
      s.formulas.handles
  rcases foldl_collapseAcross hOrderly axis before
      s.formulas.handles with
    ⟨hOrderly', hSize, -⟩
  have hSame :=
    (grows_foldl (grows_collapseAcross axis before)
      s.formulas.handles s).same
  unfold insertedBand? insertedBand
  simp only [hCut, Option.bind_eq_bind, Option.bind_some]
  generalize s.formulas.handles.foldl (collapseAcross axis before) s =
    t at hOrderly' hSize hSame
  rw [← hSize] at hFits hRoom hStops
  rcases
    Grid.insertBand?_spec (hOrderly'.ready hFits) axis Edit.shifter
      hRoom none with
    ⟨hInserted, hReady⟩
  rw [hInserted, Option.bind_some]
  generalize
    t.grid.insertBand axis Edit.shifter before count none = after
    at hReady
  -- every formula lies in the part that was in use
  have hShifted :
      ∀ id f, t.formulas.get? id = some f →
        f.insertBand? axis before count =
          some (f.insertBand axis before count) := by
    intro id f hLive
    have hStop := hOrderly'.stopAlong_le hLive axis
    unfold FormulaCell.stopAlong at hStop
    exact FormulaCell.insertBand?_eq_some (by omega) before
  have hModified :=
    modifyFormulas?_eq_some (s := { t with grid := after.1 })
      hOrderly'.listed hShifted
  have hMeasures :
      ({ t with grid := after.1 }.modifyFormulas
        (·.insertBand axis before count)).measures axis =
        s.measures axis :=
    ((grows_modifyFormulas { t with grid := after.1 } _).same axis).trans
      (hSame axis)
  have hGrid :=
    (modifyFormulas_spec (s := { t with grid := after.1 })
      hOrderly'.listed (·.insertBand axis before count)).2.1
  have hMeasured :
      (s.measures axis).insertIndices? before count =
        some ((s.measures axis).insertIndices before count) :=
    IntervalMap.insertIndices?_eq_some hCanonical hStops (by omega)
      before
  rw [hModified, Option.bind_some, hMeasures, hMeasured]
  refine ⟨rfl, ?_⟩
  rw [size_setMeasures, size, hGrid]
  exact hReady.fits

------------------------------------------------------------
-- Deleting
------------------------------------------------------------

/- A formula stands in what is deleted, in words. -/
def isDeleted?
    (axis : Axis)
    (first count : Nat)
    (f : FormulaCell) : Option Bool :=
  let i := f.location.along axis
  if first ≤ i then do
    let stop ← Word.add? first count
    return i < stop
  else
    some false

/- Remove a formula and the cells of its result, in words. -/
def dropFormula? (s : Sheet) (id : Handle) : Option Sheet := do
  let s ← s.collapse? id
  return { s with formulas := (s.formulas.remove id).2 }

/- Remove or change a formula, in words. -/
def deleteAcross?
    (axis : Axis)
    (first count : Nat)
    (s : Sheet)
    (id : Handle) : Option Sheet :=
  match s.formulas.get? id with
  | none => some s
  | some f => do
      let inside ← isDeleted? axis first count f
      if inside then s.dropFormula? id
      else s.changeFormula? (·.deleteBand? axis first count) id

/- Delete columns or rows before calculation, in words. -/
def deletedBand?
    (axis : Axis)
    (first count : Nat)
    (s : Sheet) : Option Sheet := do
  let s ←
    s.formulas.handles.foldlM (deleteAcross? axis first count) s
  let (grid, _) ← s.grid.deleteBand? axis Edit.shifter first count none
  let stop ← Word.add? first count
  let measures ← (s.measures axis).eraseIndices? first stop
  return { s with grid := grid }.setMeasures axis measures

theorem isDeleted?_eq_some
    {axis : Axis}
    {first count : Nat}
    (hStop : first + count < 2 ^ 32)
    (f : FormulaCell) :
    isDeleted? axis first count f =
      some (decide (IsDeleted axis first count f)) := by
  unfold isDeleted? IsDeleted
  rw [Word.add?_eq_some hStop]
  by_cases hFirst : first ≤ f.location.along axis <;> simp [hFirst]

/- What is known of a formula before it is removed or changed. -/
theorem deleteAcross?_eq_some
    (hReady : s.grid.Ready)
    {axis : Axis}
    {first count : Nat}
    (hBand : first + count < 2 ^ 32)
    {id : Handle}
    (hPlaced :
      ∀ f, s.formulas.get? id = some f →
        maxSize.contains f.location = true ∧
          f.stopAlong axis < 2 ^ 32) :
    s.deleteAcross? axis first count id =
      some (s.deleteAcross axis first count id) := by
  unfold deleteAcross? deleteAcross
  cases hLive : s.formulas.get? id with
  | none => rfl
  | some f =>
      dsimp only
      rw [isDeleted?_eq_some hBand, Option.bind_eq_bind,
        Option.bind_some]
      by_cases hDeleted : IsDeleted axis first count f
      · rw [if_pos (decide_eq_true hDeleted)]
        refine Eq.trans ?_ (congrArg some (if_pos hDeleted).symm)
        unfold dropFormula? dropFormula
        rw [collapse?_eq_some hReady fun g hg => (hPlaced g hg).1]
        rfl
      · rw [if_neg (by simpa using hDeleted)]
        refine Eq.trans ?_ (congrArg some (if_neg hDeleted).symm)
        refine changeFormula?_eq_some fun g hg => ?_
        rw [hLive] at hg
        cases hg
        exact
          FormulaCell.deleteBand?_eq_some (hPlaced f hLive).2 hDeleted

/- Formulas that were not reached are those of the start. -/
theorem deleteAcrossAll?_eq_some
    (hOrderly : s.Orderly)
    (hFits : s.size.Fits maxSize)
    (axis : Axis)
    {first count : Nat}
    (hBand : first + count < 2 ^ 32) :
    s.formulas.handles.foldlM (deleteAcross? axis first count) s =
      some
        (s.formulas.handles.foldl (deleteAcross axis first count) s) := by
  have hWord := Word.maxSize_lt axis
  have hUsed := ((Grid.fits_iff_along axis).1 hFits).1
  refine
    (Word.foldlM_eq_some_of_nodup
      (fun done t => Deletes axis first count done s t)
      (fun id _ done t hNew hDeletes => ⟨?_, ?_⟩)
      (nodup_handles hOrderly.listed) (fun _ _ => List.not_mem_nil)
      (deletes_refl hOrderly axis first count)).1
  · refine
      deleteAcross?_eq_some
        ⟨hDeletes.sound, by
          have hSize : t.grid.size = s.size := hDeletes.size_eq
          rw [hSize]
          exact hFits⟩
        hBand fun f hLive => ?_
    rw [hDeletes.formulas_eq, if_neg hNew] at hLive
    have hStop := hOrderly.stopAlong_le hLive axis
    exact ⟨hOrderly.on_sheet hLive, by omega⟩
  · exact hDeletes.step hOrderly.toCoherent hNew

/- What is deleted has to end with the sheet. -/
theorem deletedBand?_spec
    (hOrderly : s.Orderly)
    (hFits : s.size.Fits maxSize)
    {axis : Axis}
    {first count : Nat}
    (hBand : first + count ≤ maxSize.along axis) :
    s.deletedBand? axis first count =
        some (s.deletedBand axis first count) ∧
      (s.deletedBand axis first count).size.Fits maxSize := by
  have hWord := Word.maxSize_lt axis
  have hStop : first + count < 2 ^ 32 := by omega
  have hCut := deleteAcrossAll?_eq_some hOrderly hFits axis hStop
  rcases Deletes.all hOrderly axis first count with ⟨_, hDeletes, -⟩
  unfold deletedBand? deletedBand
  simp only [hCut, Option.bind_eq_bind, Option.bind_some]
  generalize
    s.formulas.handles.foldl (deleteAcross axis first count) s = t
    at hDeletes
  rw [← hDeletes.size_eq] at hFits
  rcases
    Grid.deleteBand?_spec ⟨hDeletes.sound, hFits⟩ axis
      (m := Edit.shifter) (fun _ _ => rfl) hBand none with
    ⟨hErased, hReady⟩
  rw [hErased, Option.bind_some, Word.add?_eq_some hStop,
    Option.bind_some,
    IntervalMap.eraseIndices?_eq_some (Nat.le_add_right _ _)]
  refine ⟨rfl, ?_⟩
  rw [size_setMeasures]
  exact hReady.fits

end Sheet

end Spreadsheet
