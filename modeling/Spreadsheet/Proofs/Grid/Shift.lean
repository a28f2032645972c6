import Spreadsheet.Proofs.Grid.Carrying

/-
  Shifting the cells after a column or row.

  A band of columns or rows goes to another place. Where it
  leaves cells behind they are empty, and so the cells after
  an insertion or deletion are those of before, each at its
  new place.

  Main declarations:
    * `Grid.shiftBand_spec`
    * `Grid.get?_insertBand`
    * `Grid.insertBand_spec`
    * `Grid.deleteBand_spec`
-/

namespace Spreadsheet

variable {α σ : Type}

namespace Grid

------------------------------------------------------------
-- Columns And Rows
------------------------------------------------------------

/- The cells of a band, by their places along and across. -/
theorem contains_band
    {axis : Axis}
    {start count : Nat}
    {bounds : Size}
    {p : Point} :
    (Rect.band axis start count bounds).contains p = true ↔
      (start ≤ p.along axis ∧ p.along axis < start + count) ∧
        p.along axis.cross < bounds.along axis.cross := by
  rw [Rect.contains_iff]
  cases axis <;>
    (simp only [Rect.band, Rect.of, Point.along, Size.along,
      Axis.cross]
     omega)

theorem contains_iff_along
    {s : Size}
    {p : Point}
    (axis : Axis) :
    s.contains p = true ↔
      p.along axis < s.along axis ∧
        p.along axis.cross < s.along axis.cross := by
  rw [Size.contains_iff]
  cases axis with
  | columns => exact Iff.rfl
  | rows => exact and_comm

theorem fits_iff_along {s t : Size} (axis : Axis) :
    s.Fits t ↔
      s.along axis ≤ t.along axis ∧
        s.along axis.cross ≤ t.along axis.cross := by
  cases axis with
  | columns => exact Iff.rfl
  | rows => exact and_comm

theorem onSheet_band
    {axis : Axis}
    {start count : Nat}
    {bounds : Size}
    (hAlong : start + count ≤ maxSize.along axis)
    (hBounds : bounds.Fits maxSize) :
    (Rect.band axis start count bounds).OnSheet := by
  intro p hIn
  rw [contains_band] at hIn
  rw [fits_iff_along axis] at hBounds
  rw [contains_iff_along axis]
  omega

/- The band of the same size elsewhere. -/
theorem band_at
    (axis : Axis)
    (i j count : Nat)
    (bounds : Size) :
    Rect.mk (Point.zero.setAlong axis i)
        (Rect.band axis j count bounds).size =
      Rect.band axis i count bounds := by
  cases axis <;> rfl

/- A cell outside the part in use is empty. -/
theorem Within.get?_eq_none
    {g : Grid α}
    (hWithin : g.Within)
    {p : Point}
    (hOutside : ¬ g.size.contains p = true) :
    g.get? p = none := by
  by_contra hSome
  exact hOutside (hWithin p hSome)

/- Columns or rows that are inserted are in use. -/
theorem size_insertBand
    (axis : Axis)
    (m : CellMover α σ)
    (i count : Nat)
    (g : Grid α)
    (s : σ) :
    (g.insertBand axis m i count s).1.size =
      g.size.setAlong axis (max (g.size.along axis) i + count) := by
  unfold insertBand
  rfl

theorem size_deleteBand
    (axis : Axis)
    (m : CellMover α σ)
    (i count : Nat)
    (g : Grid α)
    (s : σ) :
    (g.deleteBand axis m i count s).1.size =
      if g.size.along axis ≤ i ∨ count = 0 then g.size
      else
        g.size.setAlong axis
          (g.size.along axis - min count (g.size.along axis - i)) := by
  unfold deleteBand
  dsimp only
  split <;> rfl

section Shifting

variable {m : CellMover α σ} {held : σ → Slot α}
variable (hHands : m.Hands held) (hMoves : m.Moves)
variable {g : Grid α} (hSound : g.Sound)
variable {s : σ} (hFree : m.Free held s)

include hHands hMoves hSound hFree

/- A band is shifted to another place. -/
theorem shiftBand_spec
    {axis : Axis}
    {i j count : Nat}
    {bounds : Size}
    (hSource : (Rect.band axis i count bounds).OnSheet)
    (hDest : (Rect.band axis j count bounds).OnSheet)
    {after : Grid α × σ}
    (hAfter :
      g.transferCells m (Rect.band axis i count bounds)
        (Point.zero.setAlong axis j) s = after) :
    after.1.Sound ∧
      ∀ q, after.1.get? q =
        if (Rect.band axis j count bounds).contains q = true then
          g.get? (q.setAlong axis (q.along axis + i - j))
        else if (Rect.band axis i count bounds).contains q =
            true then
          none
        else
          g.get? q := by
  subst hAfter
  refine
    ⟨(runs_transferCells m hSound _ _ s).1, fun q => ?_⟩
  have hBand := band_at axis j i count bounds
  have hSpec :=
    (get?_transferCells hHands hSound hFree hMoves.leaves
      (Point.zero.setAlong axis j) hSource
      (by rw [hBand]; exact hDest)).2 q
  rw [hSpec, hBand]
  congr 2
  cases axis <;> rfl

end Shifting

------------------------------------------------------------
-- Inserting
------------------------------------------------------------

/- Where a cell comes from when columns or rows are inserted. -/
def insertSource?
    (axis : Axis)
    (before count : Nat)
    (p : Point) : Option Point :=
  if p.along axis < before then some p
  else if p.along axis < before + count then none
  else some (p.setAlong axis (p.along axis - count))

section Inserting

variable {m : CellMover α σ} {held : σ → Slot α}
variable (hHands : m.Hands held) (hMoves : m.Moves)
variable {g : Grid α} (hSound : g.Sound) (hWithin : g.Within)
variable (hFits : g.size.Fits maxSize)
variable {s : σ} (hFree : m.Free held s)
variable (axis : Axis) {before count : Nat}
variable
  (hRoom :
    max (g.size.along axis) before + count ≤ maxSize.along axis)

include hHands hMoves hSound hWithin hFits hFree hRoom

theorem get?_insertBand (p : Point) :
    (g.insertBand axis m before count s).1.get? p =
      (insertSource? axis before count p).bind g.get? := by
  have hNone := fun q => hWithin.get?_eq_none (p := q)
  simp only [contains_iff_along axis] at hNone
  by_cases hUsed : before < g.size.along axis
  · have hMoved :
        (g.insertBand axis m before count s).1.get? p =
          (g.transferCells m
            (Rect.band axis before (g.size.along axis - before)
              g.size)
            (Point.zero.setAlong axis (before + count))
            s).1.get? p := by
      rw [insertBand]
      simp only [if_pos hUsed]
      rfl
    rw [hMoved,
      (shiftBand_spec hHands hMoves hSound hFree
        (onSheet_band (by omega) hFits)
        (onSheet_band (by omega) hFits) rfl).2]
    simp only [insertSource?, contains_band]
    by_cases hFirst : p.along axis < before
    · rw [if_neg (by omega), if_neg (by omega), if_pos hFirst]
      rfl
    · by_cases hGap : p.along axis < before + count
      · rw [if_neg (by omega), if_neg hFirst, if_pos hGap]
        split
        · rfl
        · exact hNone p (by omega)
      · rw [if_neg hFirst, if_neg hGap]
        split
        · have hSame :
              p.along axis + before - (before + count) =
                p.along axis - count := by omega
          rw [hSame]
          rfl
        · -- neither the cell nor its source is in use
          rw [Option.bind_some, hNone (p.setAlong axis _)
            (by simp only [Point.along_setAlong, Point.along_cross_setAlong]
                omega)]
          split
          · rfl
          · exact hNone p (by omega)
  · have hSame :
        (g.insertBand axis m before count s).1.get? p =
          g.get? p := by
      rw [insertBand]
      simp only [if_neg hUsed]
      rfl
    rw [hSame]
    unfold insertSource?
    split
    · rfl
    · rw [hNone p (by omega)]
      split
      · rfl
      · rw [Option.bind_some, hNone _
          (by simp only [Point.along_setAlong, Point.along_cross_setAlong]
              omega)]

theorem insertBand_spec :
    (g.insertBand axis m before count s).1.Sound ∧
      (g.insertBand axis m before count s).1.Within := by
  constructor
  · rw [insertBand]
    dsimp only
    split
    · exact (runs_transferCells m hSound _ _ s).1
    · exact hSound
  · intro p hSome
    rw [get?_insertBand hHands hMoves hSound hWithin hFits hFree axis
      hRoom, insertSource?] at hSome
    have hIn :
        p.along axis < max (g.size.along axis) before + count ∧
          p.along axis.cross < g.size.along axis.cross := by
      split at hSome
      · have hUsed := hWithin p hSome
        rw [contains_iff_along axis] at hUsed
        omega
      · split at hSome
        · exact absurd rfl hSome
        · have hUsed := hWithin _ hSome
          rw [contains_iff_along axis, Point.along_setAlong,
            Point.along_cross_setAlong] at hUsed
          omega
    rw [size_insertBand, contains_iff_along axis,
      Size.along_setAlong, Size.along_cross_setAlong]
    exact hIn

end Inserting

------------------------------------------------------------
-- Deleting
------------------------------------------------------------

/- Where a cell comes from when columns or rows are deleted. -/
def deleteSource
    (axis : Axis)
    (first count : Nat)
    (p : Point) : Point :=
  if p.along axis < first then p
  else p.setAlong axis (p.along axis + count)

@[simp] theorem deleteSource_zero
    (axis : Axis)
    (first : Nat)
    (p : Point) :
    deleteSource axis first 0 p = p := by
  unfold deleteSource
  split
  · rfl
  · rw [Nat.add_zero, Point.setAlong_along]

/- What one shift takes from a place the other puts there. -/
theorem insertSource?_iff_deleteSource
    {axis : Axis}
    {before count : Nat}
    {p q : Point} :
    insertSource? axis before count q = some p ↔
      q = deleteSource axis before count p := by
  unfold insertSource? deleteSource
  constructor
  · intro hSource
    split at hSource
    · rename_i hFirst
      cases hSource
      rw [if_pos hFirst]
    · split at hSource
      · cases hSource
      · cases hSource
        rw [Point.along_setAlong, if_neg (by omega),
          Nat.sub_add_cancel (by omega), Point.setAlong_setAlong,
          Point.setAlong_along]
  · rintro rfl
    split
    · rfl
    · rw [Point.along_setAlong, if_neg (by omega),
        if_neg (by omega), Nat.add_sub_cancel,
        Point.setAlong_setAlong, Point.setAlong_along]

/- A cell is found where it was before both shifts. -/
theorem insertSource?_deleteSource
    (axis : Axis)
    (before count : Nat)
    (p : Point) :
    insertSource? axis before count
        (deleteSource axis before count p) =
      some p :=
  insertSource?_iff_deleteSource.mpr rfl

/- The cells of a rectangle are erased. -/
theorem get?_erase
    {m : CellMover α σ}
    (hMoves : m.Moves)
    {g : Grid α}
    (hSound : g.Sound)
    {r : Rect}
    (hOn : r.OnSheet)
    (s : σ)
    (p : Point) :
    (g.visitCells m.eraser r s).1.get? p =
      if r.contains p = true then none else g.get? p := by
  rcases follows_visitCells m.eraser hSound hOn s with
    ⟨l, hList, hFollows⟩
  split
  · rename_i hIn
    exact
      hFollows.emptied (fun slot s => hMoves slot s)
        (.inl ((hList.mem_iff p).mpr hIn))
  · rename_i hOut
    refine hFollows.of_not_mem ?_
    rw [Plan.each, List.forall_mem_map]
    rintro q hIn rfl
    exact hOut ((hList.mem_iff q).mp hIn)

/- A band is shifted towards the front, if there is one. -/
def closeGap
    (axis : Axis)
    (m : CellMover α σ)
    (i count shifted : Nat)
    (bounds : Size)
    (gs : Grid α × σ) : Grid α × σ :=
  if 0 < shifted then
    gs.1.transferCells m
      (Rect.band axis (i + count) shifted bounds)
      (Point.zero.setAlong axis i) gs.2
  else
    gs

/- What is left over behind a shifted band is erased. -/
def eraseRest
    (axis : Axis)
    (m : CellMover α σ)
    (i count shifted : Nat)
    (bounds : Size)
    (gs : Grid α × σ) : Grid α × σ :=
  if shifted < count then
    gs.1.visitCells m.eraser
      (Rect.band axis (i + shifted) (count - shifted) bounds) gs.2
  else
    gs

theorem deleteBand_eq
    {g : Grid α}
    {axis : Axis}
    {i count : Nat}
    (hUsed : i < g.size.along axis)
    (hCount : 0 < count)
    (m : CellMover α σ)
    (s : σ) :
    (g.deleteBand axis m i count s).1 =
      { (eraseRest axis m i (min count (g.size.along axis - i))
          (g.size.along axis - i -
            min count (g.size.along axis - i)) g.size
          (closeGap axis m i (min count (g.size.along axis - i))
            (g.size.along axis - i -
              min count (g.size.along axis - i)) g.size
            (g, s))).1 with
        size :=
          g.size.setAlong axis
            (g.size.along axis -
              min count (g.size.along axis - i)) } := by
  rw [deleteBand, if_neg (by omega)]
  rfl

section Deleting

variable {m : CellMover α σ} {held : σ → Slot α}
variable (hMoves : m.Moves)
variable {g : Grid α} (hFits : g.size.Fits maxSize)
variable (axis : Axis) {i count shifted : Nat}
variable (hEnd : i + count + shifted = g.size.along axis)

include hMoves hFits hEnd

theorem closeGap_spec
    (hHands : m.Hands held)
    (hSound : g.Sound)
    {s : σ}
    (hFree : m.Free held s) :
    (closeGap axis m i count shifted g.size (g, s)).1.Sound ∧
      ∀ p, (closeGap axis m i count shifted g.size (g, s)).1.get? p =
        if (Rect.band axis i shifted g.size).contains p = true then
          g.get? (p.setAlong axis (p.along axis + count))
        else if (Rect.band axis (i + count) shifted
            g.size).contains p = true then
          none
        else
          g.get? p := by
  have hRoom := (fits_iff_along axis).mp hFits
  unfold closeGap
  split
  · have hSource :
        (Rect.band axis (i + count) shifted g.size).OnSheet :=
      onSheet_band (by omega) hFits
    have hDest : (Rect.band axis i shifted g.size).OnSheet :=
      onSheet_band (by omega) hFits
    rcases
      shiftBand_spec hHands hMoves hSound hFree hSource hDest rfl with
      ⟨hKept, hCells⟩
    refine ⟨hKept, fun p => ?_⟩
    have hSame :
        p.along axis + (i + count) - i = p.along axis + count := by
      omega
    rw [hCells, hSame]
  · refine ⟨hSound, fun p => ?_⟩
    simp only [contains_band]
    rw [if_neg (by omega), if_neg (by omega)]

theorem eraseRest_spec
    {gs : Grid α × σ}
    (hKept : gs.1.Sound) :
    (eraseRest axis m i count shifted g.size gs).1.Sound ∧
      ∀ p, (eraseRest axis m i count shifted g.size gs).1.get? p =
        if (Rect.band axis (i + shifted) (count - shifted)
            g.size).contains p = true then
          none
        else
          gs.1.get? p := by
  have hRoom := (fits_iff_along axis).mp hFits
  unfold eraseRest
  split
  · exact
      ⟨(follows_look_visitCells m.eraser hKept _ gs.2).1,
        get?_erase hMoves hKept (onSheet_band (by omega) hFits)
          gs.2⟩
  · refine ⟨hKept, fun p => ?_⟩
    simp only [contains_band]
    rw [if_neg (by omega)]

end Deleting

/-
  Columns or rows were deleted. The cells before them stay,
  and the others moved up.
-/
theorem deleteBand_spec
    {m : CellMover α σ}
    {held : σ → Slot α}
    (hHands : m.Hands held)
    (hMoves : m.Moves)
    {g : Grid α}
    (hSound : g.Sound)
    (hWithin : g.Within)
    (hFits : g.size.Fits maxSize)
    {s : σ}
    (hFree : m.Free held s)
    (axis : Axis)
    (i count : Nat) :
    (g.deleteBand axis m i count s).1.Sound ∧
      (g.deleteBand axis m i count s).1.Within ∧
      ∀ p,
        (g.deleteBand axis m i count s).1.get? p =
          g.get? (deleteSource axis i count p) := by
  have hNone := fun q => hWithin.get?_eq_none (p := q)
  simp only [contains_iff_along axis] at hNone
  by_cases hUsed : i < g.size.along axis ∧ 0 < count
  · have hSize := size_deleteBand axis m i count g s
    rw [if_neg (by omega)] at hSize
    have hEq := deleteBand_eq hUsed.1 hUsed.2 m s
    have hEnd :
        i + min count (g.size.along axis - i) +
            (g.size.along axis - i -
              min count (g.size.along axis - i)) =
          g.size.along axis := by omega
    have hBig :
        min count (g.size.along axis - i) = count ∨
          g.size.along axis - i -
              min count (g.size.along axis - i) = 0 ∧
            g.size.along axis ≤ i + count := by omega
    generalize min count (g.size.along axis - i) = n at *
    generalize g.size.along axis - i - n = shifted at *
    rcases closeGap_spec hMoves hFits axis hEnd hHands hSound hFree
      with ⟨hGap, hGapCells⟩
    rcases eraseRest_spec hMoves hFits axis hEnd hGap with
      ⟨hErased, hErasedCells⟩
    have hCells :
        ∀ p,
          (g.deleteBand axis m i count s).1.get? p =
            g.get? (deleteSource axis i count p) := by
      intro p
      rw [hEq]
      change Grid.get? (eraseRest _ _ _ _ _ _ _).1 p = _
      rw [hErasedCells, hGapCells]
      have hSource :
          g.size.along axis ≤ p.along axis + count ∨
              g.size.along axis.cross ≤ p.along axis.cross →
            g.get? (p.setAlong axis (p.along axis + count)) =
              none := by
        intro hOutside
        refine hNone _ ?_
        rw [Point.along_setAlong, Point.along_cross_setAlong]
        omega
      simp only [contains_band, deleteSource]
      by_cases hFirst : p.along axis < i
      · rw [if_neg (by omega), if_neg (by omega), if_neg (by omega),
          if_pos hFirst]
      · rw [if_neg hFirst]
        split
        · exact (hSource (by omega)).symm
        · split
          · rw [show n = count by omega]
          · split
            · exact (hSource (by omega)).symm
            · rw [hNone p (by omega), hSource (by omega)]
    refine ⟨?_, fun p hSome => ?_, hCells⟩
    · rw [hEq]
      exact hErased
    · rw [hCells] at hSome
      have hIn := hWithin _ hSome
      rw [contains_iff_along axis] at hIn ⊢
      rw [hSize, Size.along_setAlong, Size.along_cross_setAlong]
      unfold deleteSource at hIn
      split at hIn
      · omega
      · rw [Point.along_setAlong, Point.along_cross_setAlong] at hIn
        omega
  · have hSame : (g.deleteBand axis m i count s).1 = g := by
      rw [deleteBand, if_pos (by omega)]
    rw [hSame]
    refine ⟨hSound, hWithin, fun p => ?_⟩
    by_cases hCount : count = 0
    · rw [hCount, deleteSource_zero]
    · unfold deleteSource
      split
      · rfl
      · rw [hNone p (by omega), hNone _
          (by rw [Point.along_setAlong, Point.along_cross_setAlong]
              omega)]

end Grid

end Spreadsheet
