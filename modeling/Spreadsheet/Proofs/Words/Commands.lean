import Spreadsheet.Proofs.Sheet.Facts
import Spreadsheet.Proofs.Sheet.Undo
import Spreadsheet.Proofs.Words.Bands

/-
  Commands in words.

  A command that changes a sheet checks its arguments first,
  with nothing but the size of the part in use. That is enough
  for all that follows: no sum or difference of words fails,
  and nothing that is taken for granted on the way is untrue.

  The references of formulas are adjusted as integers, and no
  command looks at what they mean before it calculates. How
  often calculation was suspended is left out here.

  Main declarations:
    * `Attempt`
    * `Attempt.Yields`
    * `Sheet.Command.attempt?`
    * `Sheet.IsInside`
    * `Sheet.isInside_of_calls`
    * `Sheet.yields_run`
    * `Sheet.commands_stay_in_words`
-/

namespace Spreadsheet

------------------------------------------------------------
-- Attempts
------------------------------------------------------------

/-
  Work on a sheet, in words, that may be refused. It can have
  changed the sheet by then.
-/
abbrev Attempt := ExceptT SheetError (StateT Sheet Option)

namespace Attempt

/- What an attempt on a sheet leads to, if it comes out. -/
def on
    (x : Attempt Unit)
    (s : Sheet) : Option (Except SheetError Unit × Sheet) :=
  x.run.run s

/- A sheet that is refused a command is left as it was. -/
def outcome
    (r : Except SheetError Sheet)
    (s : Sheet) : Except SheetError Unit × Sheet :=
  match r with
  | .error e => (.error e, s)
  | .ok t => (.ok (), t)

/-
  An attempt comes out as a command does, and no more than the
  sheet is in use then.
-/
structure Yields
    (x : Attempt Unit)
    (s : Sheet)
    (r : Except SheetError Sheet) : Prop where
  on_eq : x.on s = some (outcome r s)
  fits : ∀ t, r = .ok t → t.size.Fits maxSize

/- Change the sheet, if the change comes out. -/
def update (change? : Sheet → Option Sheet) : Attempt Unit := do
  let s ← get
  let t ← change? s
  set t

/- A value has to lie below a limit. -/
def checkIndex (axis : Axis) (i : Nat) : Attempt Unit := do
  let limit := maxSize.along axis
  if limit ≤ i then
    throw (.outOfRange (.index axis) i limit)

/- A count may not exceed what a limit leaves. -/
def checkRoom (limit used count : Nat) : Attempt Unit := do
  let rest ← Word.sub? limit used
  if rest < count then
    throw (.outOfRange .count count rest)

/- The columns or rows have to exist. -/
def checkBand
    (axis : Axis)
    (start count : Nat) : Attempt Unit := do
  checkIndex axis start
  checkRoom (maxSize.along axis) start count

/- A cell has to lie on the sheet. -/
def checkPoint (p : Point) : Attempt Unit := do
  checkIndex .columns p.x
  checkIndex .rows p.y

/- A rectangle has to lie on the sheet. -/
def checkRect (r : Rect) : Attempt Unit := do
  checkBand .columns r.origin.x r.size.width
  checkBand .rows r.origin.y r.size.height

/- There has to be room for an insertion. -/
def checkInsertion
    (axis : Axis)
    (before count used : Nat) : Attempt Unit := do
  checkBand axis before count
  checkRoom (maxSize.along axis) (max used before) count

variable {s : Sheet}

theorem yields_update
    {change? : Sheet → Option Sheet}
    {t : Sheet}
    (hChange : change? s = some t)
    (hFits : t.size.Fits maxSize) :
    (update change?).Yields s (.ok t) := by
  refine ⟨?_, ?_⟩
  · change ((liftM (change? s) >>= set : Attempt Unit).on s) = _
    rw [hChange]
    rfl
  · rintro _ ⟨⟩
    exact hFits

/- A check changes nothing; what follows waits for it. -/
theorem on_after
    {check? : Attempt Unit}
    {check : Except SheetError Unit}
    (hCheck : check?.on s = some (check, s))
    (rest? : Attempt Unit) :
    on (do check?; rest?) s =
      match check with
      | .error e => some (.error e, s)
      | .ok () => rest?.on s := by
  unfold on at hCheck
  simp only [on, ExceptT.run_bind, StateT.run_bind, hCheck]
  cases check <;> rfl

theorem on_checks
    {first? second? : Attempt Unit}
    {first second : Except SheetError Unit}
    (hFirst : first?.on s = some (first, s))
    (hSecond : first = .ok () → second?.on s = some (second, s)) :
    on (do first?; second?) s = some (do first; second, s) := by
  rw [on_after hFirst]
  cases first with
  | error e => rfl
  | ok => exact hSecond rfl

theorem Yields.after
    {check? : Attempt Unit}
    {check : Except SheetError Unit}
    (hCheck : check?.on s = some (check, s))
    {rest? : Attempt Unit}
    {rest : Except SheetError Sheet}
    (hRest : check = .ok () → rest?.Yields s rest) :
    Yields (do check?; rest?) s (do check; rest) := by
  cases check with
  | error e => exact ⟨on_after hCheck rest?, nofun⟩
  | ok =>
      exact
        ⟨(on_after hCheck rest?).trans (hRest rfl).on_eq,
          (hRest rfl).fits⟩

/- What is checked in words is what is checked otherwise. -/
theorem on_checkIndex
    (axis : Axis)
    (i : Nat)
    (s : Sheet) :
    (checkIndex axis i).on s =
      some (Spreadsheet.checkIndex axis i, s) := by
  unfold checkIndex Spreadsheet.checkIndex
  dsimp only
  by_cases hBelow : i < maxSize.along axis
  · rw [if_neg (Nat.not_le.2 hBelow), if_pos hBelow]
    rfl
  · rw [if_pos (Nat.not_lt.1 hBelow), if_neg hBelow]
    rfl

theorem on_checkRoom
    {limit used : Nat}
    (hUsed : used ≤ limit)
    (count : Nat)
    (s : Sheet) :
    (checkRoom limit used count).on s =
      some (checkCount count (limit - used), s) := by
  unfold checkRoom checkCount
  rw [Word.sub?_eq_some hUsed]
  change (if _ < count then _ else _ : Attempt Unit).on s = _
  by_cases hCount : count ≤ limit - used
  · rw [if_neg (Nat.not_lt.2 hCount), if_pos hCount]
    rfl
  · rw [if_pos (Nat.not_le.1 hCount), if_neg hCount]
    rfl

theorem on_checkBand
    (axis : Axis)
    (start count : Nat)
    (s : Sheet) :
    (checkBand axis start count).on s =
      some (Spreadsheet.checkBand axis start count, s) :=
  on_checks (on_checkIndex axis start s) fun hStart =>
    on_checkRoom (Sheet.checkIndex_eq_ok.1 hStart).le count s

theorem on_checkPoint (p : Point) (s : Sheet) :
    (checkPoint p).on s = some (Spreadsheet.checkPoint p, s) :=
  on_checks (on_checkIndex _ _ s) fun _ => on_checkIndex _ _ s

theorem on_checkRect (r : Rect) (s : Sheet) :
    (checkRect r).on s = some (Spreadsheet.checkRect r, s) :=
  on_checks (on_checkBand _ _ _ s) fun _ => on_checkBand _ _ _ s

/- The room is found if no more than the sheet is in use. -/
theorem on_checkInsertion
    {axis : Axis}
    {used : Nat}
    (hUsed : used ≤ maxSize.along axis)
    (before count : Nat)
    (s : Sheet) :
    (checkInsertion axis before count used).on s =
      some (Spreadsheet.checkInsertion axis before count used, s) :=
  on_checks (on_checkBand axis before count s) fun hBand =>
    on_checkRoom
      (max_le hUsed (Sheet.checkBand_eq_ok.1 hBand).1.le) count s

------------------------------------------------------------
-- Commands
------------------------------------------------------------

/- Enter a value; a blank erases. -/
def setValue (p : Point) (v : Scalar) : Attempt Unit := do
  checkPoint p
  let writer := if v.isBlank then Edit.eraser else Edit.valueWriter v
  update (Sheet.edit? (Grid.modifyCell? writer.checked p))

/- Enter a formula. -/
def setFormula (p : Point) (text : List Char) : Attempt Unit := do
  checkPoint p
  update fun s =>
    let f := FormulaCell.ofChars text p s.generation
    s.edit? (Grid.modifyCell? (Edit.formulaWriter f).checked p)

/- Erase the cells of a rectangle. -/
def clearCells (r : Rect) : Attempt Unit := do
  checkRect r
  update (Sheet.edit? (Grid.modifyCells? Edit.eraser.checked r))

/- Copy one cell into every cell of a rectangle. -/
def copyCell (source : Point) (dest : Rect) : Attempt Unit := do
  checkPoint source
  checkRect dest
  update (Sheet.edit? (Grid.spreadCell? Edit.copier source dest))

/- Copy or move a rectangle. -/
def transferCells
    (m : CellMover Cell Edit)
    (source : Rect)
    (dest : Point) : Attempt Unit := do
  checkRect source
  checkRect ⟨dest, source.size⟩
  update (Sheet.edit? (Grid.transferCells? m source dest))

/- Insert columns or rows. -/
def insertBand (axis : Axis) (before count : Nat) : Attempt Unit := do
  let s ← get
  checkInsertion axis before count (s.size.along axis)
  if count = 0 then
    pure ()
  else
    update fun s => (s.insertedBand? axis before count).map (·.refresh)

/- Delete columns or rows. -/
def deleteBand (axis : Axis) (first count : Nat) : Attempt Unit := do
  checkBand axis first count
  if count = 0 then
    pure ()
  else
    update fun s => (s.deletedBand? axis first count).map (·.refresh)

/-
  Change the measures of columns or rows. Their map takes for
  granted that the band does not end before it starts.
-/
def modifyMeasures
    (axis : Axis)
    (start count : Nat)
    (f : Measures → Nat → Nat → Measures) : Attempt Unit := do
  checkBand axis start count
  update fun s => do
    let stop ← Word.add? start count
    let grid := s.grid.expandAlong axis stop
    Word.ensure (start ≤ stop)
    return { s with grid := grid }.setMeasures axis
      (f (s.measures axis) start stop)

/- What is read of the sheet first is read as it is. -/
theorem Yields.of_get
    {x : Sheet → Attempt Unit}
    {r : Except SheetError Sheet}
    (hYields : (x s).Yields s r) :
    Yields (do let s ← get; x s) s r :=
  ⟨hYields.on_eq, hYields.fits⟩

theorem yields_same
    (hFits : s.size.Fits maxSize) :
    Yields (pure ()) s (.ok s) := by
  refine ⟨rfl, ?_⟩
  rintro _ ⟨⟩
  exact hFits

/- A rectangle that was checked starts and ends on the sheet. -/
theorem isPlaced_of_checkRect
    {r : Rect}
    (hCheck : Spreadsheet.checkRect r = .ok ()) :
    r.IsPlaced := by
  unfold Spreadsheet.checkRect at hCheck
  rw [Except.bind_eq_ok] at hCheck
  rcases hCheck with ⟨_, hColumns, hRows⟩
  rw [Sheet.checkBand_eq_ok] at hColumns hRows
  simp only [Size.along] at hColumns hRows
  constructor
  · rw [Size.contains_iff]
    exact ⟨hColumns.1, hRows.1⟩
  · simp only [Size.Fits, Rect.endPoint, Point.add, Point.toSize]
    omega

section Held

variable (hHeld : s.IsHeldBack)

include hHeld

/- A change of cells that keeps track comes out. -/
theorem edit?_eq_some
    {change? : Grid Cell → Edit → Option (Grid Cell × Edit)}
    {change : Grid Cell → Edit → Grid Cell × Edit}
    (hTracked : s.IsTracked change)
    (hChange :
      let after := change s.grid (.start s.formulas)
      change? s.grid (.start s.formulas) = some after ∧
        after.1.Ready) :
    s.edit? change? = some (s.edit change) ∧
      (s.edit change).size.Fits maxSize := by
  rcases Sheet.edit?_spec hTracked hChange with ⟨hOut, hFits⟩
  have hHeld' : (s.edited change).IsHeldBack := hHeld
  refine ⟨hOut, ?_⟩
  rw [Sheet.edit_eq_refresh, hHeld'.refresh]
  exact hFits

/- What has the size that fits has it without calculation. -/
theorem yields_refreshed
    {change? : Sheet → Option Sheet}
    {t : Sheet}
    (hOut : change? s = some t)
    (hFrame : Sheet.SameFrame s t)
    (hFits' : t.size.Fits maxSize) :
    (update fun s => (change? s).map (·.refresh)).Yields s
      (.ok t.refresh) := by
  refine yields_update (by rw [hOut]; rfl) ?_
  rw [(hHeld.frame hFrame).refresh]
  exact hFits'

variable (hOrderly : s.Orderly) (hFits : s.size.Fits maxSize)

include hOrderly hFits

theorem yields_setValue (p : Point) (v : Scalar) :
    (setValue p v).Yields s (s.setValue p v) := by
  refine .after (on_checkPoint p s) fun hCheck => ?_
  have hOn := Sheet.checkPoint_eq_ok.1 hCheck
  have hTracked :
      s.IsTracked
        (Grid.modifyCell
          (if v.isBlank then Edit.eraser else Edit.valueWriter v)
          p) := by
    split
    · exact Sheet.tracked_eraser_cell hOrderly hOn
    · exact Sheet.tracked_valueWriter hOrderly hOn v
  rcases
    edit?_eq_some hHeld hTracked
      (Grid.modifyCell?_spec (hOrderly.ready hFits)
        (CellVisitor.matches_checked _) hOn _) with
    ⟨hOut, hFits'⟩
  exact yields_update hOut hFits'

theorem yields_setFormula (p : Point) (text : List Char) :
    (setFormula p text).Yields s (s.setFormula p text) := by
  refine .after (on_checkPoint p s) fun hCheck => ?_
  have hOn := Sheet.checkPoint_eq_ok.1 hCheck
  rcases
    edit?_eq_some hHeld
      (Sheet.tracked_formulaWriter hOrderly hOn text)
      (Grid.modifyCell?_spec (hOrderly.ready hFits)
        (CellVisitor.matches_checked _) hOn _) with
    ⟨hOut, hFits'⟩
  exact yields_update hOut hFits'

theorem yields_clearCells (r : Rect) :
    (clearCells r).Yields s (s.clearCells r) := by
  refine .after (on_checkRect r s) fun hCheck => ?_
  rcases
    edit?_eq_some hHeld
      (Sheet.tracked_eraser hOrderly
        (Sheet.onSheet_of_checkRect hCheck))
      (Grid.modifyCells?_spec (hOrderly.ready hFits)
        (CellVisitor.matches_checked _)
        (isPlaced_of_checkRect hCheck) _) with
    ⟨hOut, hFits'⟩
  exact yields_update hOut hFits'

theorem yields_copyCell (source : Point) (dest : Rect) :
    (copyCell source dest).Yields s (s.copyCell source dest) := by
  refine .after (on_checkPoint source s) fun hSource => ?_
  refine .after (on_checkRect dest s) fun hDest => ?_
  have hOn := Sheet.checkPoint_eq_ok.1 hSource
  rcases
    edit?_eq_some hHeld
      (Sheet.tracked_spread hOrderly hOn
        (Sheet.onSheet_of_checkRect hDest))
      (Grid.spreadCell?_spec (hOrderly.ready hFits) _ hOn
        (isPlaced_of_checkRect hDest) _) with
    ⟨hOut, hFits'⟩
  exact yields_update hOut hFits'

/- Copying and moving differ only in what keeps track. -/
theorem yields_transferCells
    {m : CellMover Cell Edit}
    {source : Rect}
    {dest : Point}
    (hTracked :
      Spreadsheet.checkRect source = .ok () →
        Spreadsheet.checkRect ⟨dest, source.size⟩ = .ok () →
          s.IsTracked (Grid.transferCells m source dest)) :
    (transferCells m source dest).Yields s
      (do
        Spreadsheet.checkRect source
        Spreadsheet.checkRect ⟨dest, source.size⟩
        return s.edit (Grid.transferCells m source dest)) := by
  refine .after (on_checkRect source s) fun hSource => ?_
  refine .after (on_checkRect _ s) fun hDest => ?_
  rcases
    edit?_eq_some hHeld (hTracked hSource hDest)
      (Grid.transferCells?_spec (hOrderly.ready hFits) m
        (isPlaced_of_checkRect hSource)
        (isPlaced_of_checkRect hDest).stop _) with
    ⟨hOut, hFits'⟩
  exact yields_update hOut hFits'

theorem yields_copyCells (source : Rect) (dest : Point) :
    (transferCells Edit.copier source dest).Yields s
      (s.copyCells source dest) :=
  yields_transferCells hHeld hOrderly hFits fun hSource hDest =>
    Sheet.tracked_transfer hOrderly Edit.lazy_copier
      (fun hTracks hIdle hOn => hTracks.carry_copier hIdle hOn)
      (Sheet.onSheet_of_checkRect hSource)
      (Sheet.onSheet_of_checkRect hDest)

theorem yields_moveCells (source : Rect) (dest : Point) :
    (transferCells Edit.mover source dest).Yields s
      (s.moveCells source dest) :=
  yields_transferCells hHeld hOrderly hFits fun hSource hDest =>
    Sheet.tracked_transfer hOrderly Edit.lazy_mover
      (fun hTracks hIdle hOn => hTracks.carry_mover hIdle hOn)
      (Sheet.onSheet_of_checkRect hSource)
      (Sheet.onSheet_of_checkRect hDest)

theorem yields_insertBand
    (hMeasured : s.Measured)
    {axis : Axis}
    (hStops : (s.measures axis).StopsBy (s.size.along axis))
    (before count : Nat) :
    (insertBand axis before count).Yields s
      (s.insertBand axis before count) := by
  have hUsed := ((Grid.fits_iff_along axis).1 hFits).1
  have hRest :
      Spreadsheet.checkInsertion axis before count
            (s.size.along axis) = .ok () →
        Yields
          (if count = 0 then pure ()
            else
              update fun s =>
                (s.insertedBand? axis before count).map (·.refresh))
          s
          (if count = 0 then .ok s
            else .ok (s.insertedBand axis before count).refresh) := by
    intro hCheck
    split
    · exact yields_same hFits
    · rename_i hCount
      rcases Sheet.checkInsertion_eq_ok.1 hCheck with ⟨hBand, hRoom⟩
      have hBefore := (Sheet.checkBand_eq_ok.1 hBand).1
      have hEnough :
          max (s.size.along axis) before + count ≤
            maxSize.along axis := by
        omega
      rcases
        Sheet.insertedBand?_spec hOrderly hFits hEnough
          (hMeasured axis) hStops with
        ⟨hOut, hFits'⟩
      exact
        yields_refreshed hHeld hOut
          (hOrderly.insertedBand hFits axis hEnough).2
          hFits'
  exact .of_get (.after (on_checkInsertion hUsed before count s) hRest)

theorem yields_deleteBand (axis : Axis) (first count : Nat) :
    (deleteBand axis first count).Yields s
      (s.deleteBand axis first count) := by
  refine .after (on_checkBand axis first count s) fun hCheck => ?_
  rcases Sheet.checkBand_eq_ok.1 hCheck with ⟨hFirst, hCount⟩
  split
  · exact yields_same hFits
  · rename_i hSome
    have hStop : first + count ≤ maxSize.along axis := by omega
    rcases Sheet.deletedBand?_spec hOrderly hFits hStop with
      ⟨hOut, hFits'⟩
    exact
      yields_refreshed hHeld hOut
        (hOrderly.deletedBand hFits axis first count).2 hFits'

omit hHeld hOrderly in
/- Measures are changed up to the end of the sheet at most. -/
theorem yields_modifyMeasures
    (axis : Axis)
    (start count : Nat)
    (f : Measures → Nat → Nat → Measures) :
    (modifyMeasures axis start count f).Yields s
      (s.modifyMeasures axis start count f) := by
  refine .after (on_checkBand axis start count s) fun hCheck => ?_
  rcases Sheet.checkBand_eq_ok.1 hCheck with ⟨hStart, hCount⟩
  have hWord := Word.maxSize_lt axis
  have hStop : start + count < 2 ^ 32 := by omega
  refine yields_update ?_ ?_
  · rw [Word.add?_eq_some hStop, Option.bind_eq_bind,
      Option.bind_some,
      Word.ensure_eq_some (Nat.le_add_right start count)]
    rfl
  · have hUsed := (Grid.fits_iff_along axis).1 hFits
    rw [Sheet.size_setMeasures]
    exact Grid.fits_setAlong hFits (max_le hUsed.1 (by omega))

end Held

end Attempt

namespace Sheet

variable {s t : Sheet}

------------------------------------------------------------
-- The Part In Use
------------------------------------------------------------

/-
  No more than the sheet is in use; results, contents and
  measures end with the part in use.
-/
structure IsInside (s : Sheet) : Prop where
  fits : s.size.Fits maxSize
  areas :
    ∀ id f, s.formulas.get? id = some f →
      f.area.endPoint.toSize.Fits s.size
  cells : ∀ p, s.grid.get? p ≠ none → s.size.contains p = true
  stops : ∀ axis, (s.measures axis).StopsBy (s.size.along axis)

/- So it is on every sheet that commands lead to. -/
theorem isInside_of_calls
    {config : SheetConfig}
    (hCalls : Calls (new config) s) :
    s.IsInside := by
  rcases
    hCalls.orderly (orderly_new config)
      ⟨Nat.zero_le _, Nat.zero_le _⟩ with
    ⟨hOrderly, hFits⟩
  exact
    ⟨hFits, fun _ _ hLive => hOrderly.area_fits hLive,
      hOrderly.within,
      fun axis => (hCalls.kept (kept_new config axis)).stops⟩

------------------------------------------------------------
-- Commands In Words
------------------------------------------------------------

/- How a command that edits the sheet is carried out in words. -/
def Command.attempt? : Command → Option (Attempt Unit)
  | .setValue p v => some (Attempt.setValue p v)
  | .setFormula p text => some (Attempt.setFormula p text)
  | .clearCell p => some (Attempt.setValue p .blank)
  | .clearCells r => some (Attempt.clearCells r)
  | .copyCell source dest => some (Attempt.copyCell source dest)
  | .copyCells source dest =>
      some (Attempt.transferCells Edit.copier source dest)
  | .moveCell source dest =>
      some (Attempt.transferCells Edit.mover (.single source) dest)
  | .moveCells source dest =>
      some (Attempt.transferCells Edit.mover source dest)
  | .insertBand axis before count =>
      some (Attempt.insertBand axis before count)
  | .deleteBand axis first count =>
      some (Attempt.deleteBand axis first count)
  | .setLength axis start count length =>
      some
        (Attempt.modifyMeasures axis start count
          (·.setLength · · length))
  | .clearLength axis start count =>
      some
        (Attempt.modifyMeasures axis start count
          Measures.clearLength)
  | .hide axis start count =>
      some (Attempt.modifyMeasures axis start count Measures.hide)
  | .unhide axis start count =>
      some (Attempt.modifyMeasures axis start count Measures.unhide)
  | .suspend | .resume | .recalculate => none

/- Every command that edits the sheet comes out in words. -/
theorem yields_run
    (hHeld : s.IsHeldBack)
    (hOrderly : s.Orderly)
    (hFits : s.size.Fits maxSize)
    (hMeasured : s.Measured)
    (hStops : ∀ axis, (s.measures axis).StopsBy (s.size.along axis))
    {command : Command}
    {attempt : Attempt Unit}
    (hEdit : command.attempt? = some attempt) :
    attempt.Yields s (command.run s) := by
  cases command <;> cases hEdit
  case setValue p v =>
    exact Attempt.yields_setValue hHeld hOrderly hFits p v
  case setFormula p text =>
    exact Attempt.yields_setFormula hHeld hOrderly hFits p text
  case clearCell p =>
    exact Attempt.yields_setValue hHeld hOrderly hFits p .blank
  case clearCells r =>
    exact Attempt.yields_clearCells hHeld hOrderly hFits r
  case copyCell source dest =>
    exact Attempt.yields_copyCell hHeld hOrderly hFits source dest
  case copyCells source dest =>
    exact Attempt.yields_copyCells hHeld hOrderly hFits source dest
  case moveCell source dest =>
    exact
      Attempt.yields_moveCells hHeld hOrderly hFits (.single source)
        dest
  case moveCells source dest =>
    exact Attempt.yields_moveCells hHeld hOrderly hFits source dest
  case insertBand axis before count =>
    exact
      Attempt.yields_insertBand hHeld hOrderly hFits hMeasured
        (hStops axis) before count
  case deleteBand axis first count =>
    exact Attempt.yields_deleteBand hHeld hOrderly hFits axis first count
  case setLength axis start count length =>
    exact Attempt.yields_modifyMeasures hFits axis start count _
  case clearLength axis start count =>
    exact Attempt.yields_modifyMeasures hFits axis start count _
  case hide axis start count =>
    exact Attempt.yields_modifyMeasures hFits axis start count _
  case unhide axis start count =>
    exact Attempt.yields_modifyMeasures hFits axis start count _

/-
  On every sheet that commands lead to, what is in use ends
  where it should. While calculation is held back, a command
  that edits the sheet is refused and leaves it as it is, or
  comes out and leads to such a sheet again. Either way no sum
  or difference of words fails, and all that is taken for
  granted holds. Nor does any fail where a formula is read.
-/
theorem commands_stay_in_words
    {config : SheetConfig}
    (hCalls : Calls (new config) s)
    (hHeld : s.IsHeldBack)
    {command : Command}
    {attempt : Attempt Unit}
    (hEdit : command.attempt? = some attempt) :
    s.IsInside ∧
      (∀ axis text,
        Address.scanWords axis text = some (Address.scan axis text)) ∧
      ((∃ e, command.run s = .error e ∧
          attempt.on s = some (.error e, s)) ∨
        ∃ t, command.run s = .ok t ∧
          attempt.on s = some (.ok (), t) ∧
          Calls (new config) t ∧ t.IsInside) := by
  have hInside := isInside_of_calls hCalls
  have hYields :=
    yields_run hHeld (orderly_of_calls hCalls) hInside.fits
      (fun axis => (hCalls.kept (kept_new config axis)).canonical)
      hInside.stops hEdit
  refine ⟨hInside, Address.scanWords_eq_some, ?_⟩
  have hOn := hYields.on_eq
  cases hRun : command.run s with
  | error e =>
      rw [hRun] at hOn
      exact .inl ⟨e, rfl, hOn⟩
  | ok t =>
      rw [hRun] at hOn
      have hAfter := hCalls.call command hRun (hYields.fits t hRun)
      exact .inr ⟨t, rfl, hOn, hAfter, isInside_of_calls hAfter⟩

/- A column is inserted where the result of a formula is torn. -/
theorem commands_stay_in_words_spilled :
    ∃ s t, s.IsHeldBack ∧
      s.grid.get? ⟨1, 1⟩ = some (.extension ⟨0, 0⟩ .blank) ∧
      s.IsInside ∧
      (Command.insertBand .columns 1 65533).run s = .ok t ∧
      (Attempt.insertBand .columns 1 65533).on s = some (.ok (), t) ∧
      t.IsInside := by
  have hRun :
      ∃ s, (new .usual).setFormula ⟨0, 1⟩ ['A', '1', ':', 'B', '1'] =
          .ok s ∧
        (s.size, s.grid.get? ⟨1, 1⟩) =
          (⟨2, 2⟩, some (.extension ⟨0, 0⟩ .blank)) :=
    ⟨_, rfl, by cbv⟩
  rcases hRun with ⟨s, hRun, hShows⟩
  rw [Prod.mk.injEq] at hShows
  have hFits : s.size.Fits maxSize := by
    rw [hShows.1]
    decide
  have hCalls : Calls (new .usual) s.suspend :=
    .call (.call (.refl _) (.setFormula ⟨0, 1⟩ _) hRun hFits) .suspend
      rfl hFits
  have hEdit :
      (Command.insertBand .columns 1 65533).attempt? =
        some (Attempt.insertBand .columns 1 65533) :=
    rfl
  rcases
    commands_stay_in_words hCalls (.inl (Nat.succ_ne_zero _))
      hEdit with
    ⟨hInside, -, ⟨e, hError, -⟩ | ⟨t, hOk, hOn, -, hInside'⟩⟩
  · have hCheck :
        checkInsertion .columns 1 65533
            (s.suspend.size.along .columns) =
          .ok () := by
      change checkInsertion .columns 1 65533 s.size.width = .ok ()
      rw [hShows.1]
      decide
    change s.suspend.insertBand .columns 1 65533 = .error e at hError
    rw [Sheet.insertBand, hCheck] at hError
    cases hError
  · exact
      ⟨s.suspend, t, .inl (Nat.succ_ne_zero _), hShows.2, hInside,
        hOk, hOn, hInside'⟩

end Sheet

end Spreadsheet
