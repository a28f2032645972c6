import Spreadsheet.Proofs.Grid.Shift
import Spreadsheet.Proofs.Words.Tiles

/-
  Changes of a grid in words.

  A grid takes for granted that what is done with it lies on
  the sheet. If so, and if no more than the sheet is in use,
  no sum or difference on the way fails, and no more than the
  sheet is in use afterwards.

  Main declarations:
    * `Grid.Ready`
    * `Rect.IsPlaced`
    * `Grid.modifyCells?_spec`
    * `Grid.transferCells?_spec`
    * `Grid.insertBand?_spec`
    * `Grid.deleteBand?_spec`
-/

namespace Spreadsheet

variable {α σ : Type}

------------------------------------------------------------
-- Places
------------------------------------------------------------

/- A rectangle starts on the sheet and ends with it at most. -/
structure Rect.IsPlaced (r : Rect) : Prop where
  origin : maxSize.contains r.origin = true
  stop : r.endPoint.toSize.Fits maxSize

theorem Rect.IsPlaced.sides
    {r : Rect}
    (hPlaced : r.IsPlaced) :
    (r.origin.x < maxSize.width ∧
        r.origin.x + r.size.width ≤ maxSize.width) ∧
      r.origin.y < maxSize.height ∧
        r.origin.y + r.size.height ≤ maxSize.height := by
  have hOrigin := Size.contains_iff.1 hPlaced.origin
  exact ⟨⟨hOrigin.1, hPlaced.stop.1⟩, hOrigin.2, hPlaced.stop.2⟩

/- Ends on the sheet are words. -/
theorem Point.add?_of_fits
    {p : Point}
    {s : Size}
    (hFits : (p.add s).toSize.Fits maxSize) :
    p.add? s = some (p.add s) :=
  add?_eq_some (hFits.1.trans_lt (Word.maxSize_lt .columns))
    (hFits.2.trans_lt (Word.maxSize_lt .rows))

namespace Grid

/- Counts are exact, and no more than the sheet is in use. -/
structure Ready (g : Grid α) : Prop where
  sound : g.Sound
  fits : g.size.Fits maxSize

/- Work on the tile tree. -/
def inTop?
    (wanted : σ → Bool)
    (work : TopTile α → σ → Option (TopTile α × σ))
    (g : Grid α)
    (s : σ) : Option (Grid α × σ) := do
  let (top, s) ← Slot.inside? wanted work g.top s
  return ({ g with top := top }, s)

theorem inTop?_spec
    {g : Grid α}
    (hReady : g.Ready)
    (wanted : σ → Bool)
    {work? : TopTile α → σ → Option (TopTile α × σ)}
    {work : TopTile α → σ → TopTile α × σ}
    (hWork : Safe TopTile.Good work? work)
    (s : σ) :
    g.inTop? wanted work? s = some (g.inTop wanted work s) ∧
      (g.inTop wanted work s).1.Ready := by
  rcases Slot.safe_inside Tile.sound_empty wanted hWork g.top s
      hReady.sound with
    ⟨hOut, hKept⟩
  unfold inTop?
  rw [hOut]
  exact ⟨rfl, hKept, hReady.fits⟩

theorem Ready.expand
    {g : Grid α}
    (hReady : g.Ready)
    {size : Size}
    (hFits : size.Fits maxSize) :
    (g.expand size).Ready :=
  ⟨hReady.sound.expand size, Size.sup_fits hReady.fits hFits⟩

------------------------------------------------------------
-- Visiting
------------------------------------------------------------

/- Visit one cell, which has to lie on the sheet. -/
def modifyCell?
    (v : CheckedVisitor α σ)
    (p : Point)
    (g : Grid α)
    (s : σ) : Option (Grid α × σ) := do
  Word.ensure (maxSize.contains p = true)
  let stop ← p.add? Size.one
  (g.expand stop.toSize).inTop? v.wanted
    (TopTile.visitCell? v (TilePath.of p)) s

/- The rectangle has to lie on the sheet. -/
def visitCells?
    (v : CheckedVisitor α σ)
    (r : Rect)
    (g : Grid α)
    (s : σ) : Option (Grid α × σ) := do
  Word.ensure (maxSize.contains r.origin = true)
  let width ← Word.sub? maxSize.width r.origin.x
  let height ← Word.sub? maxSize.height r.origin.y
  Word.ensure (r.size.width ≤ width ∧ r.size.height ≤ height)
  if r.isEmpty then
    return (g, s)
  else do
    let stop ← r.origin.add? r.size
    g.inTop? v.wanted
      (fun t s =>
        TopTile.visitBands? v r.origin.x stop r.size.height
          r.origin.y (t, s))
      s

/- The sheet is used up to the end of the rectangle then. -/
def modifyCells?
    (v : CheckedVisitor α σ)
    (r : Rect)
    (g : Grid α)
    (s : σ) : Option (Grid α × σ) := do
  let (g, s) ← g.visitCells? v r s
  let stop ← r.origin.add? r.size
  return (g.expand stop.toSize, s)

variable {g : Grid α} {v? : CheckedVisitor α σ} {v : CellVisitor α σ}

theorem modifyCell?_spec
    (hReady : g.Ready)
    (hMatches : v?.Matches v)
    {p : Point}
    (hOn : maxSize.contains p = true)
    (s : σ) :
    g.modifyCell? v? p s = some (g.modifyCell v p s) ∧
      (g.modifyCell v p s).1.Ready := by
  have hFits : (p.add Size.one).toSize.Fits maxSize :=
    Size.contains_iff.1 hOn
  unfold modifyCell?
  simp only [Word.ensure_eq_some hOn, Point.add?_of_fits hFits,
    hMatches.wanted, Option.bind_eq_bind, Option.bind_some]
  exact
    inTop?_spec (hReady.expand hFits) _
      (TopTile.safe_visitCell hMatches _) s

theorem visitCells?_spec
    (hReady : g.Ready)
    (hMatches : v?.Matches v)
    {r : Rect}
    (hPlaced : r.IsPlaced)
    (s : σ) :
    g.visitCells? v? r s = some (g.visitCells v r s) ∧
      (g.visitCells v r s).1.Ready := by
  rcases hPlaced.sides with ⟨hColumns, hRows⟩
  have hRoom :
      r.size.width ≤ maxSize.width - r.origin.x ∧
        r.size.height ≤ maxSize.height - r.origin.y := by
    omega
  unfold visitCells? visitCells
  simp only [Word.ensure_eq_some hPlaced.origin,
    Word.sub?_eq_some hColumns.1.le, Word.sub?_eq_some hRows.1.le,
    Word.ensure_eq_some hRoom, Point.add?_of_fits hPlaced.stop,
    hMatches.wanted, Option.bind_eq_bind, Option.bind_some]
  split
  · exact ⟨rfl, hReady⟩
  · refine inTop?_spec hReady _ (fun t s hGood => ?_) s
    exact
      TopTile.visitBands?_eq_some hMatches
        (hPlaced.stop.1.trans_lt (Word.maxSize_lt .columns))
        (hPlaced.stop.2.trans_lt (Word.maxSize_lt .rows)) hGood

theorem modifyCells?_spec
    (hReady : g.Ready)
    (hMatches : v?.Matches v)
    {r : Rect}
    (hPlaced : r.IsPlaced)
    (s : σ) :
    g.modifyCells? v? r s = some (g.modifyCells v r s) ∧
      (g.modifyCells v r s).1.Ready := by
  rcases visitCells?_spec hReady hMatches hPlaced s with
    ⟨hOut, hKept⟩
  unfold modifyCells?
  simp only [hOut, Point.add?_of_fits hPlaced.stop,
    Option.bind_eq_bind, Option.bind_some]
  exact ⟨rfl, hKept.expand hPlaced.stop⟩

------------------------------------------------------------
-- Copying And Moving
------------------------------------------------------------

/-
  The source has to start on the sheet, and the destination
  to end with it. Sides are taken off the sheet's to see that.
-/
def transferCells?
    (m : CellMover α σ)
    (source : Rect)
    (dest : Point)
    (g : Grid α)
    (s : σ) : Option (Grid α × σ) := do
  Word.ensure (maxSize.contains source.origin = true)
  let right ← Word.sub? maxSize.width source.size.width
  let bottom ← Word.sub? maxSize.height source.size.height
  Word.ensure (dest.x ≤ right ∧ dest.y ≤ bottom)
  if source.isEmpty then
    return (g, s)
  else do
    let stop ← dest.add? source.size
    (g.expand stop.toSize).inTop? (fun _ => false)
      (fun t s =>
        (Rect.whole source.size).points.foldlM
          (fun (t, s) turn => do
            let offset : Size :=
              ⟨turnOffset source.origin.x dest.x
                  source.size.width turn.x,
                turnOffset source.origin.y dest.y
                  source.size.height turn.y⟩
            let p ← source.origin.add? offset
            let q ← dest.add? offset
            TopTile.transfer? m (TilePath.of p) (TilePath.of q) t
              (m.announce p q s))
          (t, s))
      s

/- Take one cell for every cell of a rectangle. -/
def spreadCell?
    (m : CellMover α σ)
    (source : Point)
    (dest : Rect)
    (g : Grid α)
    (s : σ) : Option (Grid α × σ) := do
  Word.ensure (maxSize.contains source = true)
  let width ← Word.sub? maxSize.width dest.origin.x
  let height ← Word.sub? maxSize.height dest.origin.y
  Word.ensure (dest.size.width ≤ width ∧ dest.size.height ≤ height)
  let stop ← dest.origin.add? dest.size
  (g.expand stop.toSize).inTop? m.wantsEither
    (fun t s =>
      (Rect.whole dest.size).points.foldlM
        (fun (t, s) offset => do
          let q ← dest.origin.add? offset.toSize
          let s := m.announce source q s
          let (t, s) ←
            TopTile.visitCell? m.source.checked (TilePath.of source)
              t s
          TopTile.visitCell? m.dest.checked (TilePath.of q) t s)
        (t, s))
    s

/- What comes at a turn lies within the side. -/
theorem turnOffset_lt
    (source dest : Nat)
    {length turn : Nat}
    (hTurn : turn < length) :
    turnOffset source dest length turn < length := by
  unfold turnOffset
  split <;> omega

theorem transferCells?_spec
    (hReady : g.Ready)
    (m : CellMover α σ)
    {source : Rect}
    {dest : Point}
    (hSource : source.IsPlaced)
    (hDest : (dest.add source.size).toSize.Fits maxSize)
    (s : σ) :
    g.transferCells? m source dest s =
        some (g.transferCells m source dest s) ∧
      (g.transferCells m source dest s).1.Ready := by
  rcases hSource.sides with ⟨hColumns, hRows⟩
  have hWidth : dest.x + source.size.width ≤ maxSize.width := hDest.1
  have hHeight : dest.y + source.size.height ≤ maxSize.height :=
    hDest.2
  have hRight : source.size.width ≤ maxSize.width := by omega
  have hBottom : source.size.height ≤ maxSize.height := by omega
  have hRoom :
      dest.x ≤ maxSize.width - source.size.width ∧
        dest.y ≤ maxSize.height - source.size.height := by
    omega
  unfold transferCells? transferCells
  simp only [Word.ensure_eq_some hSource.origin,
    Word.sub?_eq_some hRight, Word.sub?_eq_some hBottom,
    Word.ensure_eq_some hRoom, Point.add?_of_fits hDest,
    Option.bind_eq_bind, Option.bind_some]
  split
  · exact ⟨rfl, hReady⟩
  · refine inTop?_spec (hReady.expand hDest) _ (fun t s hGood => ?_) s
    rw [Rect.fold_eq_foldl]
    refine
      Word.foldlM_eq_some (fun ts : TopTile α × σ => ts.1.Good)
        (fun turn hIn ts hGood => ?_) hGood
    rw [Rect.mem_points, Rect.contains_whole, Size.contains_iff]
      at hIn
    have hColumn :=
      turnOffset_lt source.origin.x dest.x hIn.1
    have hRow :=
      turnOffset_lt source.origin.y dest.y hIn.2
    have hLimits := And.intro (Word.maxSize_lt .columns)
      (Word.maxSize_lt .rows)
    simp only [Size.along] at hLimits
    rw [Point.add?_eq_some (by dsimp only; omega)
        (by dsimp only; omega),
      Point.add?_eq_some (by dsimp only; omega)
        (by dsimp only; omega)]
    exact TopTile.safe_transfer m _ _ ts.1 _ hGood

/- The cells of a rectangle lie at offsets from its first. -/
theorem points_eq_map (r : Rect) :
    r.points =
      (Rect.whole r.size).points.map fun offset =>
        r.origin.add offset.toSize := by
  unfold Rect.points Rect.whole
  simp only [List.map_flatMap, List.map_map]
  congr 1
  funext dy
  congr 1
  funext dx
  simp [Point.add, Point.toSize, Point.zero]

theorem spreadCell?_spec
    (hReady : g.Ready)
    (m : CellMover α σ)
    {source : Point}
    {dest : Rect}
    (hSource : maxSize.contains source = true)
    (hDest : dest.IsPlaced)
    (s : σ) :
    g.spreadCell? m source dest s =
        some (g.spreadCell m source dest s) ∧
      (g.spreadCell m source dest s).1.Ready := by
  rcases hDest.sides with ⟨hColumns, hRows⟩
  have hRoom :
      dest.size.width ≤ maxSize.width - dest.origin.x ∧
        dest.size.height ≤ maxSize.height - dest.origin.y := by
    omega
  unfold spreadCell? spreadCell
  simp only [Word.ensure_eq_some hSource,
    Word.sub?_eq_some hColumns.1.le, Word.sub?_eq_some hRows.1.le,
    Word.ensure_eq_some hRoom, Point.add?_of_fits hDest.stop,
    Option.bind_eq_bind, Option.bind_some]
  refine inTop?_spec (hReady.expand hDest.stop) _
    (fun t s hGood => ?_) s
  rw [Rect.fold_eq_foldl, points_eq_map dest, List.foldl_map]
  refine
    Word.foldlM_eq_some (fun ts : TopTile α × σ => ts.1.Good)
      (fun offset hIn ts hGood => ?_) hGood
  rw [Rect.mem_points, Rect.contains_whole, Size.contains_iff] at hIn
  have hLimits := And.intro (Word.maxSize_lt .columns)
    (Word.maxSize_lt .rows)
  simp only [Size.along] at hLimits
  rw [Point.add?_eq_some (by dsimp only [Point.toSize]; omega)
    (by dsimp only [Point.toSize]; omega)]
  rcases
    TopTile.safe_visitCell m.source.matches_checked
      (TilePath.of source) ts.1
      (m.announce source (dest.origin.add offset.toSize) ts.2) hGood
    with ⟨hTaken, hKept⟩
  simp only [hTaken, Option.bind_some]
  exact
    TopTile.safe_visitCell m.dest.matches_checked _ _ _ hKept

------------------------------------------------------------
-- Columns And Rows
------------------------------------------------------------

/-
  Shift what follows a band, if anything does. The number of
  columns or rows that are deleted comes out, and the number
  of those that were shifted.
-/
def closeGap?
    (axis : Axis)
    (m : CellMover α σ)
    (i count existing : Nat)
    (g : Grid α)
    (s : σ) : Option (Nat × Nat × Grid α × σ) :=
  if count < existing then do
    let shifted ← Word.sub? existing count
    let start ← Word.add? i count
    let (g, s) ←
      g.transferCells? m (Rect.band axis start shifted g.size)
        (Point.zero.setAlong axis i) s
    return (count, shifted, g, s)
  else
    some (existing, 0, g, s)

/- Erase what is left over behind a band that was shifted. -/
def eraseRest?
    (axis : Axis)
    (m : CellMover α σ)
    (i count shifted : Nat)
    (bounds : Size)
    (g : Grid α)
    (s : σ) : Option (Grid α × σ) :=
  if shifted < count then do
    let start ← Word.add? i shifted
    let rest ← Word.sub? count shifted
    g.visitCells? m.checkedEraser (Rect.band axis start rest bounds) s
  else
    some (g, s)

/-
  No more columns or rows than the sheet has may be deleted,
  and they have to start early enough.
-/
def deleteBand?
    (axis : Axis)
    (m : CellMover α σ)
    (i count : Nat)
    (g : Grid α)
    (s : σ) : Option (Grid α × σ) := do
  Word.ensure (count ≤ maxSize.along axis)
  let last ← Word.sub? (maxSize.along axis) count
  Word.ensure (i ≤ last)
  let bounds := g.size
  if bounds.along axis ≤ i ∨ count = 0 then
    return (g, s)
  else do
    let existing ← Word.sub? (bounds.along axis) i
    let (count, shifted, g, s) ← g.closeGap? axis m i count existing s
    let (g, s) ← g.eraseRest? axis m i count shifted bounds s
    let extent ← Word.sub? (bounds.along axis) count
    return ({ g with size := bounds.setAlong axis extent }, s)

/-
  No more columns or rows may be inserted than there is room
  for.
-/
def insertBand?
    (axis : Axis)
    (m : CellMover α σ)
    (i count : Nat)
    (g : Grid α)
    (s : σ) : Option (Grid α × σ) := do
  Word.ensure (count ≤ maxSize.along axis)
  let last ← Word.sub? (maxSize.along axis) count
  let bounds := g.size
  Word.ensure (max (bounds.along axis) i ≤ last)
  if i < bounds.along axis then do
    let extent ← Word.add? (bounds.along axis) count
    let rest ← Word.sub? (bounds.along axis) i
    let dest ← Word.add? i count
    let (g, s) ←
      g.transferCells? m (Rect.band axis i rest bounds)
        (Point.zero.setAlong axis dest) s
    return ({ g with size := bounds.setAlong axis extent }, s)
  else do
    let extent ← Word.add? i count
    return ({ g with size := bounds.setAlong axis extent }, s)

theorem maxSize_pos (axis : Axis) : 0 < maxSize.along axis := by
  cases axis <;> decide

theorem isPlaced_band
    (axis : Axis)
    (i count : Nat)
    {bounds : Size}
    (hStart : i < maxSize.along axis)
    (hStop : i + count ≤ maxSize.along axis)
    (hBounds : bounds.Fits maxSize) :
    (Rect.band axis i count bounds).IsPlaced := by
  cases axis with
  | columns =>
      refine ⟨Size.contains_iff.2 ⟨hStart, maxSize_pos .rows⟩, hStop, ?_⟩
      exact (Nat.zero_add _).trans_le hBounds.2
  | rows =>
      refine
        ⟨Size.contains_iff.2 ⟨maxSize_pos .columns, hStart⟩, ?_, hStop⟩
      exact (Nat.zero_add _).trans_le hBounds.1

/- A band ends with the sheet where it is shifted to. -/
theorem fits_band_at
    (axis : Axis)
    (i count dest : Nat)
    {bounds : Size}
    (hStop : dest + count ≤ maxSize.along axis)
    (hBounds : bounds.Fits maxSize) :
    ((Point.zero.setAlong axis dest).add
      (Rect.band axis i count bounds).size).toSize.Fits maxSize := by
  cases axis with
  | columns => exact ⟨hStop, (Nat.zero_add _).trans_le hBounds.2⟩
  | rows => exact ⟨(Nat.zero_add _).trans_le hBounds.1, hStop⟩

theorem fits_setAlong
    {axis : Axis}
    {n : Nat}
    {bounds : Size}
    (hBounds : bounds.Fits maxSize)
    (hAlong : n ≤ maxSize.along axis) :
    (bounds.setAlong axis n).Fits maxSize := by
  cases axis with
  | columns => exact ⟨hAlong, hBounds.2⟩
  | rows => exact ⟨hBounds.1, hAlong⟩

theorem insertBand?_spec
    (hReady : g.Ready)
    (axis : Axis)
    (m : CellMover α σ)
    {i count : Nat}
    (hRoom :
      max (g.size.along axis) i + count ≤ maxSize.along axis)
    (s : σ) :
    g.insertBand? axis m i count s =
        some (g.insertBand axis m i count s) ∧
      (g.insertBand axis m i count s).1.Ready := by
  have hWord := Word.maxSize_lt axis
  have hCount : count ≤ maxSize.along axis := by omega
  have hLast :
      max (g.size.along axis) i ≤ maxSize.along axis - count := by
    omega
  unfold insertBand? insertBand
  simp only [Word.ensure_eq_some hCount, Word.sub?_eq_some hCount,
    Word.ensure_eq_some hLast, Option.bind_eq_bind, Option.bind_some]
  split
  · rename_i hUsed
    have hExtent : g.size.along axis + count < 2 ^ 32 := by omega
    have hDest : i + count < 2 ^ 32 := by omega
    simp only [Word.add?_eq_some hExtent, Word.sub?_eq_some hUsed.le,
      Word.add?_eq_some hDest, Option.bind_some]
    rcases
      transferCells?_spec hReady m
        (isPlaced_band axis i (g.size.along axis - i) (by omega)
          (by omega) hReady.fits)
        (fits_band_at axis i _ (i + count) (by omega) hReady.fits)
        s with
      ⟨hOut, hKept⟩
    simp only [hOut, Option.bind_some, max_eq_left hUsed.le]
    exact
      ⟨rfl, hKept.sound, fits_setAlong hReady.fits (by omega)⟩
  · rename_i hBeyond
    have hExtent : i + count < 2 ^ 32 := by omega
    simp only [Word.add?_eq_some hExtent, Option.bind_some,
      max_eq_right (Nat.le_of_not_lt hBeyond)]
    exact
      ⟨rfl, hReady.sound, fits_setAlong hReady.fits (by omega)⟩

/- A band before others is closed by shifting them. -/
theorem closeGap?_spec
    (hReady : g.Ready)
    (axis : Axis)
    (m : CellMover α σ)
    {i : Nat}
    (hUsed : i < g.size.along axis)
    (count : Nat)
    (s : σ) :
    let existing := g.size.along axis - i
    let shifted := existing - min count existing
    let after :=
      if 0 < shifted then
        g.transferCells m
          (Rect.band axis (i + min count existing) shifted g.size)
          (Point.zero.setAlong axis i) s
      else
        (g, s)
    g.closeGap? axis m i count existing s =
        some (min count existing, shifted, after) ∧
      after.1.Ready := by
  dsimp only
  have hWord := Word.maxSize_lt axis
  have hExtent := ((fits_iff_along axis).1 hReady.fits).1
  unfold closeGap?
  split
  · rename_i hMore
    have hStart : i + count < 2 ^ 32 := by omega
    rw [min_eq_left hMore.le, if_pos (by omega)]
    simp only [Word.sub?_eq_some hMore.le, Word.add?_eq_some hStart,
      Option.bind_eq_bind, Option.bind_some]
    rcases
      transferCells?_spec hReady m
        (isPlaced_band axis (i + count)
          (g.size.along axis - i - count) (by omega) (by omega)
          hReady.fits)
        (fits_band_at axis (i + count) _ i (by omega) hReady.fits)
        s with
      ⟨hOut, hKept⟩
    rw [hOut]
    exact ⟨rfl, hKept⟩
  · rename_i hAll
    rw [min_eq_right (Nat.le_of_not_lt hAll), Nat.sub_self, if_neg nofun]
    exact ⟨rfl, hReady⟩

theorem eraseRest?_spec
    (hReady : g.Ready)
    (axis : Axis)
    {m : CellMover α σ}
    (hEmpties : ∀ slot s, (m.take slot s).1 = none)
    {i count : Nat}
    {bounds : Size}
    (hBounds : bounds.Fits maxSize)
    (hStop : i + count ≤ bounds.along axis)
    (shifted : Nat)
    (s : σ) :
    let after :=
      if shifted < count then
        g.visitCells m.eraser
          (Rect.band axis (i + shifted) (count - shifted) bounds) s
      else
        (g, s)
    g.eraseRest? axis m i count shifted bounds s = some after ∧
      after.1.Ready := by
  dsimp only
  have hWord := Word.maxSize_lt axis
  have hExtent := ((fits_iff_along axis).1 hBounds).1
  unfold eraseRest?
  split
  · rename_i hLeft
    have hStart : i + shifted < 2 ^ 32 := by omega
    simp only [Word.add?_eq_some hStart, Word.sub?_eq_some hLeft.le,
      Option.bind_eq_bind, Option.bind_some]
    exact
      visitCells?_spec hReady (m.matches_checkedEraser hEmpties)
        (isPlaced_band axis (i + shifted) (count - shifted) (by omega)
          (by omega) hBounds)
        s
  · exact ⟨rfl, hReady⟩

theorem deleteBand?_spec
    (hReady : g.Ready)
    (axis : Axis)
    {m : CellMover α σ}
    (hEmpties : ∀ slot s, (m.take slot s).1 = none)
    {i count : Nat}
    (hBand : i + count ≤ maxSize.along axis)
    (s : σ) :
    g.deleteBand? axis m i count s =
        some (g.deleteBand axis m i count s) ∧
      (g.deleteBand axis m i count s).1.Ready := by
  have hExtent := ((fits_iff_along axis).1 hReady.fits).1
  have hCount : count ≤ maxSize.along axis := by omega
  have hLast : i ≤ maxSize.along axis - count := by omega
  unfold deleteBand? deleteBand
  simp only [Word.ensure_eq_some hCount, Word.sub?_eq_some hCount,
    Word.ensure_eq_some hLast, Option.bind_eq_bind, Option.bind_some]
  split
  · exact ⟨rfl, hReady⟩
  rename_i hSome
  rw [not_or] at hSome
  have hUsed : i < g.size.along axis := by omega
  rcases closeGap?_spec hReady axis m hUsed count s with
    ⟨hClosed, hReady'⟩
  have hStop :
      i + min count (g.size.along axis - i) ≤ g.size.along axis := by
    omega
  have hCut := (Nat.le_add_left _ i).trans hStop
  rw [Word.sub?_eq_some hUsed.le, Option.bind_some, hClosed,
    Option.bind_some]
  rcases
    eraseRest?_spec hReady' axis hEmpties hReady.fits hStop
      (g.size.along axis - i - min count (g.size.along axis - i))
      _ with
    ⟨hErased, hReady''⟩
  dsimp only
  rw [hErased, Option.bind_some, Word.sub?_eq_some hCut,
    Option.bind_some]
  exact ⟨rfl, hReady''.sound, fits_setAlong hReady.fits (by omega)⟩

end Grid

end Spreadsheet
