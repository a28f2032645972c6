import Spreadsheet.Proofs.Grid.Reachable

/-
  Where cells are after they were moved, copied or shifted.

  A grid with exact counts is as good as a map from points to
  cells. Moving a rectangle, filling one, inserting a band and
  deleting one rearrange this map, and the counts stay exact.

  Main declarations:
    * `Grid.Holds`
    * `Grid.holds_carried`
    * `Grid.Deleted`
    * `Grid.Inserted`
    * `Grid.holds_shifted`
-/

namespace Spreadsheet

variable {α σ : Type}

namespace Grid

------------------------------------------------------------
-- Exact Grids
------------------------------------------------------------

/-
  These are the cells of a grid. It counts them, and has no
  tile without any of them.
-/
structure Holds
    (g : Grid α)
    (cells : Contents Point α) : Prop where
  exact : g.Exact
  get? : ∀ p, g.get? p = cells p
  count : cells.HasCount g.count

theorem Exact.holds
    {g : Grid α}
    (hExact : g.Exact)
    {cells : Contents Point α}
    (hCells : ∀ p, g.get? p = cells p) :
    g.Holds cells where
  exact := hExact
  get? := hCells
  count := funext hCells ▸ hExact.hasCount

/- Turns that end on the sheet keep a grid exact. -/
theorem Exact.runs
    {g : Grid α}
    (hExact : g.Exact)
    {m : CellMover α σ}
    (hTakes : m.TakesOnly)
    {turns : List (Point × Point)}
    {s : σ}
    {after : Grid α × σ}
    (hSound : after.1.Sound)
    (hRuns : m.Runs turns (g.look, s) (after.1.look, after.2))
    (hOn : ∀ turn ∈ turns, maxSize.contains turn.2 = true) :
    after.1.Exact := by
  refine ⟨hSound, fun k hSome => ?_⟩
  rcases hTakes.filled_of_runs hRuns hSome with
    hOld | ⟨turn, hTurn, hKey⟩
  · exact hExact.placed k hOld
  · exact ⟨turn.2, hOn turn hTurn, hKey⟩

/- A rectangle lies on the sheet if it ends there. -/
theorem onSheet_of_fits
    {r : Rect}
    (hEnd : r.endPoint.toSize.Fits maxSize) :
    r.OnSheet := by
  intro p hIn
  rw [Rect.contains_iff] at hIn
  rw [Size.contains_iff]
  simp only [Size.Fits, Rect.endPoint, Point.add, Point.toSize]
    at hEnd
  omega

------------------------------------------------------------
-- Rectangles
------------------------------------------------------------

section Carrying

variable {g : Grid α} (hExact : g.Exact)
variable {m : CellMover α σ} {held : σ → Slot α}
variable (hHands : m.Hands held)
variable {s : σ} (hFree : m.Free held s)

include hExact hHands hFree

theorem holds_transferCells
    {leave : Slot α → Slot α}
    (hLeaves : m.Leaves leave)
    {source : Rect}
    {dest : Point}
    (hSource : source.OnSheet)
    (hDest : Rect.OnSheet ⟨dest, source.size⟩) :
    (g.transferCells m source dest s).1.Holds fun q =>
      if Rect.contains ⟨dest, source.size⟩ q = true then
        g.get? (transferSource source dest q)
      else if source.contains q = true then
        leave (g.get? q)
      else
        g.get? q := by
  rcases runs_transferCells m hExact.sound source dest s with
    ⟨hSound, hRuns⟩
  have hTakes : m.TakesOnly := fun s => by
    rw [hLeaves.take, hLeaves.none]
  have hKept :=
    hExact.runs hTakes hSound hRuns fun turn hTurn =>
      hDest _ (mem_transferTurns hTurn).2.1
  exact
    hKept.holds
      (get?_transferCells hHands hExact.sound hFree hLeaves dest
        hSource hDest).2

theorem holds_spreadCell
    (hCopies : m.Copies)
    {source : Point}
    {dest : Rect}
    (hSource : maxSize.contains source = true)
    (hDest : dest.OnSheet) :
    (g.spreadCell m source dest s).1.Holds fun q =>
      if dest.contains q = true then g.get? source
      else g.get? q := by
  rcases runs_spreadCell m hExact.sound source dest s with
    ⟨hSound, hRuns⟩
  have hKept :=
    hExact.runs hCopies.takesOnly hSound hRuns fun turn hTurn =>
      hDest _ (mem_spreadTurns hTurn).2
  exact
    hKept.holds
      (get?_spreadCell hHands hExact.sound hFree hCopies hSource
        hDest).2

/-
  A rectangle of cells is carried to another place all at
  once, however the two overlap. A mover leaves empty cells
  behind, and a copier leaves them as they are. A copier that
  fills a rectangle with one cell fills it with what this cell
  held at first, be it inside the rectangle or not.
-/
theorem holds_carried :
    (∀ (source : Rect) (dest : Point),
        source.InLimits →
        (dest.toSize.add source.size).Fits maxSize →
        (m.Moves →
            (g.transferCells m source dest s).1.Holds fun q =>
              if Rect.contains ⟨dest, source.size⟩ q = true then
                g.get? (transferSource source dest q)
              else if source.contains q = true then
                none
              else
                g.get? q) ∧
          (m.Copies →
            (g.transferCells m source dest s).1.Holds fun q =>
              if Rect.contains ⟨dest, source.size⟩ q = true then
                g.get? (transferSource source dest q)
              else
                g.get? q)) ∧
      ∀ (source : Point) (dest : Rect),
        maxSize.contains source = true →
        dest.endPoint.toSize.Fits maxSize →
        m.Copies →
          (g.spreadCell m source dest s).1.Holds fun q =>
            if dest.contains q = true then g.get? source
            else g.get? q := by
  refine ⟨fun source dest hSource hDest => ⟨?_, ?_⟩, ?_⟩
  · intro hMoves
    exact
      holds_transferCells hExact hHands hFree hMoves.leaves
        (onSheet_of_inLimits hSource) (onSheet_of_fits hDest)
  · intro hCopies
    have hHolds :=
      holds_transferCells hExact hHands hFree hCopies.leaves
        (onSheet_of_inLimits hSource) (onSheet_of_fits hDest)
    simp only [id_eq, ite_self] at hHolds
    exact hHolds
  · intro source dest hSource hDest hCopies
    exact
      holds_spreadCell hExact hHands hFree hCopies hSource
        (onSheet_of_fits hDest)

end Carrying

/-
  Two cells of a column are moved and copied by one row, and
  the first is copied all over the column.
-/
theorem holds_carried_column :
    ∃ g : Grid Nat,
      g.get? ⟨0, 0⟩ = some 7 ∧ g.get? ⟨0, 1⟩ = some 8 ∧
        (∀ q,
          (g.transferCells (.plain fun _ => none) (.of 0 0 1 2)
              ⟨0, 1⟩ none).1.get? q =
            if (Rect.of 0 1 1 2).contains q = true then
              g.get? (transferSource (.of 0 0 1 2) ⟨0, 1⟩ q)
            else if (Rect.of 0 0 1 2).contains q = true then
              none
            else
              g.get? q) ∧
        (∀ q,
          (g.transferCells (.plain id) (.of 0 0 1 2) ⟨0, 1⟩
              none).1.get? q =
            if (Rect.of 0 1 1 2).contains q = true then
              g.get? (transferSource (.of 0 0 1 2) ⟨0, 1⟩ q)
            else
              g.get? q) ∧
        ∀ q,
          (g.spreadCell (.plain id) ⟨0, 0⟩ (.of 0 0 1 3)
              none).1.get? q =
            if (Rect.of 0 0 1 3).contains q = true then
              g.get? ⟨0, 0⟩
            else
              g.get? q := by
  let writer : Nat → CellVisitor Nat Unit := fun n =>
    ⟨fun _ => true, fun _ _ => (some n, ())⟩
  have hReach :
      Reachable
        (((empty : Grid Nat).modifyCell (writer 7) ⟨0, 0⟩
          ()).1.modifyCell (writer 8) ⟨0, 1⟩ ()).1 :=
    .step
      (.step .empty (.modifyCell (writer 7) ⟨0, 0⟩ () (by decide)))
      (.modifyCell (writer 8) ⟨0, 1⟩ () (by decide))
  have hExact := (tidy_of_reachable hReach).exact
  have hMoved :=
    (holds_carried hExact (CellMover.hands_plain fun _ => none)
      (CellMover.free_plain fun _ => none)).1 (.of 0 0 1 2) ⟨0, 1⟩
      ⟨by decide, by decide⟩ (by decide)
  have hCopied :=
    holds_carried hExact (CellMover.hands_plain id)
      (CellMover.free_plain id)
  exact
    ⟨_, by decide +kernel, by decide +kernel,
      (hMoved.1 fun _ _ => rfl).get?,
      ((hCopied.1 (.of 0 0 1 2) ⟨0, 1⟩ ⟨by decide, by decide⟩
        (by decide)).2 fun _ _ => rfl).get?,
      (hCopied.2 ⟨0, 0⟩ (.of 0 0 1 3) (by decide) (by decide)
        fun _ _ => rfl).get?⟩

------------------------------------------------------------
-- Columns And Rows
------------------------------------------------------------

/- A point lies in a band of columns or rows. -/
def InBand (axis : Axis) (i n : Nat) (p : Point) : Prop :=
  i ≤ p.along axis ∧ p.along axis < i + n

instance (axis : Axis) (i n : Nat) :
    DecidablePred (InBand axis i n) :=
  fun _ => inferInstanceAs (Decidable (_ ∧ _))

theorem deleteSource_injective (axis : Axis) (i n : Nat) :
    Function.Injective (deleteSource axis i n) := by
  intro p q hSame
  have hSource := insertSource?_deleteSource axis i n p
  rw [hSame, insertSource?_deleteSource] at hSource
  exact (Option.some.inj hSource).symm

/- Cells come from outside the deleted band, and from all over. -/
theorem exists_deleteSource_iff
    {axis : Axis}
    {i n : Nat}
    {p : Point} :
    (∃ q, deleteSource axis i n q = p) ↔ ¬ InBand axis i n p := by
  unfold InBand
  constructor
  · rintro ⟨q, rfl⟩
    unfold deleteSource
    split
    · omega
    · rw [Point.along_setAlong]
      omega
  · intro hOut
    by_cases hBefore : p.along axis < i
    · exact ⟨p, if_pos hBefore⟩
    · refine ⟨p.setAlong axis (p.along axis - n), ?_⟩
      rw [deleteSource, Point.along_setAlong, if_neg (by omega),
        Point.setAlong_setAlong, Nat.sub_add_cancel (by omega),
        Point.setAlong_along]

/-
  What a deletion comes to. Cells before the band stay, those
  behind it move up, and each of them is in one place after.
-/
structure Deleted
    (axis : Axis)
    (i n : Nat)
    (before after : Grid α) : Prop where
  holds : after.Holds fun p => before.get? (deleteSource axis i n p)
  kept :
    ∀ p, ¬ InBand axis i n p → ∃! q, deleteSource axis i n q = p
  count :
    ∃ lost,
      Contents.HasCount
          (fun p => if InBand axis i n p then before.get? p else none)
          lost ∧
        lost + after.count = before.count
  size :
    after.size =
      before.size.setAlong axis
        (before.size.along axis - min n (before.size.along axis - i))
  fits : after.size.Fits maxSize
  within : after.Within

/-
  What an insertion comes to. Cells before the band stay, the
  others move down, and each of them is in one place after.
-/
structure Inserted
    (axis : Axis)
    (i n : Nat)
    (before after : Grid α) : Prop where
  holds :
    after.Holds fun p => (insertSource? axis i n p).bind before.get?
  kept : ∀ p, ∃! q, insertSource? axis i n q = some p
  count : after.count = before.count
  size :
    after.size =
      before.size.setAlong axis (max (before.size.along axis) i + n)
  fits : after.size.Fits maxSize
  within : after.Within

section Shifting

variable {g : Grid α} (hExact : g.Exact)
variable (hFits : g.size.Fits maxSize) (hWithin : g.Within)
variable {m : CellMover α σ} {held : σ → Slot α}
variable (hHands : m.Hands held) (hMoves : m.Moves)
variable {s : σ} (hFree : m.Free held s)

include hExact hFits hWithin hHands hMoves hFree

theorem deleted_deleteBand (axis : Axis) (i n : Nat) :
    Deleted axis i n g (g.deleteBand axis m i n s).1 := by
  have hTidy :=
    (hExact.tidy hFits hWithin).deleteBand axis hMoves i n s
  have hHolds :=
    hTidy.exact.holds
      (deleteBand_spec hHands hMoves hExact.sound hWithin hFits hFree
        axis i n).2.2
  refine ⟨hHolds, fun p hOut => ?_, ?_, ?_, hTidy.fits, hTidy.within⟩
  · rcases exists_deleteSource_iff.mpr hOut with ⟨q, rfl⟩
    exact ⟨q, rfl, fun _ h => deleteSource_injective axis i n h⟩
  · rcases hExact.hasCount.split (InBand axis i n) with
      ⟨lost, left, hLost, hLeft, hSum⟩
    -- the cells that are left are those of the new grid
    have hSame :
        ∀ q,
          (if InBand axis i n (deleteSource axis i n q) then none
            else g.get? (deleteSource axis i n q)) =
            g.get? (deleteSource axis i n q) :=
      fun q => if_neg (exists_deleteSource_iff.mp ⟨q, rfl⟩)
    have hMoved :=
      hLeft.comap (deleteSource_injective axis i n) fun p hSome =>
        exists_deleteSource_iff.mpr fun hIn => hSome (if_pos hIn)
    simp only [hSame] at hMoved
    exact ⟨lost, hLost, by rw [hHolds.count.unique hMoved, hSum]⟩
  · rw [size_deleteBand]
    split
    · rename_i hIdle
      rw [show min n (g.size.along axis - i) = 0 by omega]
      cases axis <;> rfl
    · rfl

theorem inserted_insertBand
    (axis : Axis)
    (i n : Nat)
    (hLimits : max (g.size.along axis) i + n ≤ maxSize.along axis) :
    Inserted axis i n g (g.insertBand axis m i n s).1 := by
  have hTidy :=
    (hExact.tidy hFits hWithin).insertBand axis hMoves.takesOnly s
      hLimits
  have hHolds :=
    hTidy.exact.holds
      (get?_insertBand hHands hMoves hExact.sound hWithin hFits hFree
        axis hLimits)
  refine
    ⟨hHolds, fun p => ?_, ?_, size_insertBand axis m i n g s,
      hTidy.fits, hTidy.within⟩
  · simp only [insertSource?_iff_deleteSource]
    exact ⟨_, rfl, fun _ h => h⟩
  · have hMoved :=
      hHolds.count.comap (deleteSource_injective axis i n)
        fun q hSome => by
        cases hSource : insertSource? axis i n q with
        | none => simp [hSource] at hSome
        | some p =>
            exact ⟨p, (insertSource?_iff_deleteSource.mp hSource).symm⟩
    simp only [insertSource?_deleteSource, Option.bind_some] at hMoved
    exact hMoved.unique hExact.hasCount

/-
  Columns or rows are deleted or inserted in a grid whose
  cells lie in the part in use. No other cell is lost or in two
  places, the number of cells is what it should be, and all
  cells lie in the part in use again.
-/
theorem holds_shifted (axis : Axis) (i n : Nat) :
    Deleted axis i n g (g.deleteBand axis m i n s).1 ∧
      (max (g.size.along axis) i + n ≤ maxSize.along axis →
        Inserted axis i n g (g.insertBand axis m i n s).1) :=
  ⟨deleted_deleteBand hExact hFits hWithin hHands hMoves hFree axis i n,
    inserted_insertBand hExact hFits hWithin hHands hMoves hFree axis i
      n⟩

end Shifting

/- A row above a cell is deleted, or one is inserted there. -/
theorem holds_shifted_cell :
    ∃ g : Grid Nat,
      g.get? ⟨0, 1⟩ = some 7 ∧
        Deleted .rows 0 1 g
          (g.deleteBand .rows (.plain fun _ => none) 0 1 none).1 ∧
        Inserted .rows 0 1 g
          (g.insertBand .rows (.plain fun _ => none) 0 1 none).1 := by
  let writer : CellVisitor Nat Unit :=
    ⟨fun _ => true, fun _ _ => (some 7, ())⟩
  have hReach :
      Reachable
        ((empty : Grid Nat).modifyCell writer ⟨0, 1⟩ ()).1 :=
    .step .empty (.modifyCell writer ⟨0, 1⟩ () (by decide))
  have hTidy := tidy_of_reachable hReach
  have hShifted :=
    holds_shifted hTidy.exact hTidy.fits hTidy.within
      (CellMover.hands_plain fun _ => none) (fun _ _ => rfl)
      (CellMover.free_plain fun _ => none) .rows 0 1
  exact
    ⟨_, by decide +kernel, hShifted.1,
      hShifted.2 (by rw [maxSize_eq]; decide)⟩

end Grid

end Spreadsheet
