import Spreadsheet.Proofs.Grid.Carrying
import Spreadsheet.Proofs.Sheet.Editing

/-
  The visitors and movers that change the cells of a sheet.

  Each visit of a cell, and each cell that is carried, keeps
  cells and formulas in agreement.

  Main declarations:
    * `Edit.Tracks.visit_eraser`
    * `Edit.Tracks.visit_formulaWriter`
    * `Edit.Tracks.carry_copier`
    * `Edit.Tracks.carry_mover`
-/

namespace Spreadsheet

namespace Edit

------------------------------------------------------------
-- Lazy Visitors And Movers
------------------------------------------------------------

theorem lazy_eraser : eraser.Lazy id eraser.visit :=
  ⟨mirrors_id _, fun _ _ => rfl⟩

theorem lazy_valueWriter (v : Scalar) :
    (valueWriter v).Lazy id (valueWriter v).visit :=
  ⟨mirrors_id _, by simp [valueWriter]⟩

theorem lazy_formulaWriter (f : FormulaCell) :
    (formulaWriter f).Lazy id (formulaWriter f).visit :=
  ⟨mirrors_id _, by simp [formulaWriter]⟩

/- Nothing is carried. -/
def IsIdle (e : Edit) : Prop :=
  e.carried = none

theorem IsIdle.eq {e : Edit} (hIdle : e.IsIdle) :
    { e with carried := none } = e := by
  rw [← hIdle]

theorem isIdle_put (slot : Slot Cell) (e : Edit) :
    (put slot e).2.IsIdle := by
  unfold put
  split
  · assumption
  · rfl

theorem put_none {e : Edit} (hNothing : e.isCarrying = false) :
    put none e = (none, e) := by
  have hIdle : e.IsIdle := by
    simpa [isCarrying, IsIdle] using hNothing
  simp only [put, evict]
  rw [hIdle.eq, hIdle]

theorem lazy_copier : copier.Lazy IsIdle where
  ready_announce _ _ _ _ := rfl
  ready_put := isIdle_put
  take_none _ hIdle _ := Prod.ext rfl hIdle.eq
  take_none_fst _ := rfl
  put_none _ hNothing := put_none hNothing

theorem lazy_mover : mover.Lazy IsIdle where
  ready_announce _ _ _ _ := rfl
  ready_put := isIdle_put
  take_none _ hIdle _ := Prod.ext rfl hIdle.eq
  take_none_fst _ := rfl
  put_none _ hNothing := put_none hNothing

theorem moves_shifter : shifter.Moves :=
  fun _ _ => rfl

theorem hands_shifter : shifter.Hands id :=
  CellMover.hands_plain fun _ => none

theorem free_shifter : shifter.Free id none :=
  CellMover.free_plain fun _ => none

------------------------------------------------------------
-- Entering
------------------------------------------------------------

namespace Tracks

variable {generation : Bool} {cells : Contents Point Cell}
variable {e : Edit}

/- An idle change may announce any cell. -/
theorem redirect
    (hTracks : Tracks generation cells e)
    (hIdle : e.IsIdle)
    (dest : Point) :
    Tracks generation cells { e with dest := dest } := by
  refine
    { hTracks with
      at_dest := ?_ }
  intro id f hCarried
  change Slot.formula? e.carried = some id at hCarried
  rw [hIdle] at hCarried
  cases hCarried

theorem visit_eraser
    (hTracks : Tracks generation cells e)
    (p : Point) :
    Tracks generation
      (Script.visit (cells, e) (p, eraser.visit)).1
      (Script.visit (cells, e) (p, eraser.visit)).2 := by
  have hEvicted := hTracks.evict p
  rcases hSlot : cells p with - | (v | id | ⟨id, v⟩) <;>
    rw [hSlot] at hEvicted
  · simpa [Script.visit, eraser, hSlot] using hEvicted
  · simpa [Script.visit, eraser, hSlot] using hEvicted
  · simpa [Script.visit, eraser, hSlot] using hEvicted
  · -- parts of results stay
    have hSame :
        Function.update cells p (some (.extension id v)) = cells := by
      rw [← hSlot, Function.update_eq_self]
    simpa [Script.visit, eraser, hSlot, hSame] using hTracks

theorem visit_valueWriter
    (hTracks : Tracks generation cells e)
    (p : Point)
    (v : Scalar) :
    Tracks generation
      (Script.visit (cells, e) (p, (valueWriter v).visit)).1
      (Script.visit (cells, e) (p, (valueWriter v).visit)).2 := by
  have hEntered :=
    (hTracks.evict p).enterValue (p := p) (by simp) v
  rw [Function.update_idem] at hEntered
  exact hEntered

/- A formula changes, but not its place and extent. -/
theorem modify
    (hTracks : Tracks generation cells e)
    (id : Handle)
    (change : FormulaCell → FormulaCell)
    (hLocation : ∀ f, (change f).location = f.location)
    (hExtent : ∀ f, (change f).extent = f.extent)
    (hSettled :
      ∀ f, f.Settled generation → (change f).Settled generation) :
    Tracks generation cells
      { e with formulas := e.formulas.modify id change } := by
  rcases hTracks.listed with ⟨l, hListed⟩
  cases hLive : e.formulas.get? id with
  | none =>
      have hTable := LinkedArena.get?_modify_of_none hLive change
      refine ⟨?_, hTracks.whole, ?_, ⟨l, hListed.modify id change⟩, ?_⟩
      · dsimp only
        rw [hTable]
        exact hTracks.agrees
      · dsimp only
        rw [hTable]
        exact hTracks.at_dest
      · dsimp only
        rw [hTable]
        exact hTracks.settled
  | some f =>
      have hTable := LinkedArena.get?_modify_eq_update hLive change
      refine ⟨?_, hTracks.whole, ?_, ⟨l, hListed.modify id change⟩, ?_⟩
      · dsimp only
        rw [hTable]
        exact hTracks.agrees.modify hLive (hLocation f) (hExtent f)
      · intro j g hCarried hg
        have hDest := @hTracks.at_dest j
        dsimp only at hCarried hg ⊢
        rw [hTable] at hg
        grind [Function.update_apply]
      · intro j g hg
        have hKept := @hTracks.settled j
        dsimp only at hg
        rw [hTable] at hg
        grind [Function.update_apply]

/- A new formula is put into an empty cell. -/
theorem enterFormula
    (hTracks : Tracks generation cells e)
    (hIdle : e.IsIdle)
    {p : Point}
    (hPlain : (cells p).Plain)
    (hOn : maxSize.contains p = true)
    {f : FormulaCell}
    (hLocation : f.location = p)
    (hOne : f.extent = Size.one)
    (hSettled : f.Settled generation) :
    Tracks generation
      (Function.update cells p (some (e.append f).1))
      (e.append f).2 := by
  -- as if the formula had been carried there
  have hCarried :=
    (hTracks.redirect hIdle p).append hIdle hOne hSettled hLocation
      hOn
  have hPut := (hCarried.putDown hPlain).redirect rfl e.dest
  have hSame :
      { (e.append f).2 with carried := none } = (e.append f).2 :=
    IsIdle.eq hIdle
  rw [← hSame]
  exact hPut

theorem visit_formulaWriter
    (hTracks : Tracks generation cells e)
    (hIdle : e.IsIdle)
    {p : Point}
    (hOn : maxSize.contains p = true)
    {f : FormulaCell}
    (hLocation : f.location = p)
    (hOne : f.extent = Size.one)
    (hSettled : f.Settled generation) :
    Tracks generation
      (Script.visit (cells, e) (p, (formulaWriter f).visit)).1
      (Script.visit (cells, e) (p, (formulaWriter f).visit)).2 := by
  have hEntered :=
    (hTracks.evict p).enterFormula (p := p) (f := f)
      (by rw [IsIdle, carried_evict]; exact hIdle) (by simp) hOn
      hLocation hOne hSettled
  rw [Function.update_idem] at hEntered
  rcases hSlot : cells p with - | (v | id | ⟨id, v⟩) <;>
    rw [hSlot] at hEntered
  · simpa [Script.visit, formulaWriter, hSlot] using hEntered
  · simpa [Script.visit, formulaWriter, hSlot] using hEntered
  · -- the formula in the cell is rewritten
    have hSame :
        Function.update cells p (some (.formula id)) = cells := by
      rw [← hSlot, Function.update_eq_self]
    have hModified :=
      hTracks.modify id (fun g => g.replace f.expr f.refs)
        (fun _ => rfl) (fun _ => rfl) (fun _ h => h.replace hSettled.proper f.refs)
    simpa [Script.visit, formulaWriter, hSlot, hSame]
      using hModified
  · simpa [Script.visit, formulaWriter, hSlot] using hEntered

------------------------------------------------------------
-- Carrying
------------------------------------------------------------

/- What is carried may be taken to be a value or nothing. -/
theorem carryPlain
    (hTracks : Tracks generation cells e)
    (hIdle : e.IsIdle)
    (slot : Slot Cell)
    (hPlain : slot.Plain) :
    Tracks generation cells { e with carried := slot } := by
  refine ⟨?_, hPlain.2, ?_, hTracks.listed, hTracks.settled⟩
  · have hAgrees := hTracks.agrees
    rw [hIdle] at hAgrees
    dsimp only
    rw [hPlain.1]
    exact hAgrees
  · intro id f hCarried
    dsimp only at hCarried
    rw [hPlain.1] at hCarried
    cases hCarried

/- A copy of a cell is carried. -/
theorem visit_takeCopy
    (hTracks : Tracks generation cells e)
    (hIdle : e.IsIdle)
    (hOn : maxSize.contains e.dest = true)
    (p : Point) :
    Tracks generation
      (Script.visit (cells, e) (p, takeCopy)).1
      (Script.visit (cells, e) (p, takeCopy)).2 := by
  have hCells :
      (Script.visit (cells, e) (p, takeCopy)).1 = cells := by
    have hKept : (takeCopy (cells p) e).1 = cells p := by
      unfold takeCopy
      split
      · rfl
      · split <;> rfl
      · rfl
    simp [Script.visit, hKept]
  rw [hCells]
  change Tracks generation cells (takeCopy (cells p) e).2
  unfold takeCopy
  split
  · exact hTracks.carryPlain hIdle _ (by simp)
  · split
    · exact hTracks
    · rename_i id f hLive
      exact
        hTracks.append hIdle rfl
          ((hTracks.settled hLive).copyTo e.dest) rfl hOn
  · exact hTracks.carryPlain hIdle _ (by simp)

/- A cell is carried away. -/
theorem visit_takeAway
    (hTracks : Tracks generation cells e)
    (hIdle : e.IsIdle)
    (hOn : maxSize.contains e.dest = true)
    (p : Point) :
    Tracks generation
      (Script.visit (cells, e) (p, takeAway)).1
      (Script.visit (cells, e) (p, takeAway)).2 := by
  rcases hSlot : cells p with - | (v | id | ⟨id, v⟩)
  · have hCells : Function.update cells p none = cells := by
      rw [← hSlot, Function.update_eq_self]
    simpa [Script.visit, takeAway, hSlot, hCells]
      using hTracks.carryPlain hIdle none (by simp)
  · have hCarried :=
      hTracks.carryPlain hIdle (some (.value v)) (by simp)
    have hTaken :
        Tracks generation (Function.update cells p none)
          { e with carried := some (.value v) } :=
      { hCarried with
        agrees :=
          hCarried.agrees.replace (by rw [hSlot]; simp) (by simp) }
    simpa [Script.visit, takeAway, hSlot] using hTaken
  · have hCollapsed := hTracks.collapse id
    have hCell : (cells p).formula? = some id := by
      rw [hSlot]
      rfl
    rcases hCollapsed.agrees.formula_live hCell with
      ⟨-, f, hLive, hLocation⟩
    have hOne := extent_collapse hLive
    have hAgrees := hCollapsed.agrees
    rw [carried_collapse, hIdle] at hAgrees
    have hDest : (f.moveTo e.dest).location = e.dest := rfl
    have hLifted :=
      hAgrees.lift (f.moveTo e.dest) hCell hLive hOne
        (by rw [FormulaCell.moveTo_extent, hOne])
        (by rwa [hDest])
    have hTable :=
      LinkedArena.get?_modify_eq_update hLive
        (fun f => f.moveTo e.dest)
    rcases hCollapsed.listed with ⟨l, hListed⟩
    rw [← hTable] at hLifted
    have hVisit :
        Script.visit (cells, e) (p, takeAway) =
          (Function.update cells p none,
            { e.collapse id with
              formulas :=
                (e.collapse id).formulas.modify id
                  (·.moveTo e.dest)
              carried := some (.formula id) }) := by
      simp [Script.visit, takeAway, hSlot]
    rw [hVisit]
    refine
      ⟨hLifted, rfl, ?_,
        ⟨l, hListed.modify id fun f => f.moveTo e.dest⟩, ?_⟩
    · intro j g hCarried hg
      dsimp only at hCarried hg ⊢
      rw [Slot.formula?_formula, Option.some.injEq] at hCarried
      rw [hTable, ← hCarried, Function.update_self,
        Option.some.injEq] at hg
      rw [dest_collapse, ← hg]
      exact hDest
    · intro j g hg
      dsimp only at hg
      rw [hTable, Function.update_apply] at hg
      split at hg
      · cases hg
        exact (hCollapsed.settled hLive).moveTo e.dest
      · exact hCollapsed.settled hg
  · have hCells :
        Function.update cells p (some (.extension id v)) = cells := by
      rw [← hSlot, Function.update_eq_self]
    simpa [Script.visit, takeAway, hSlot, hCells] using hTracks

/- What is carried is put into the announced cell. -/
theorem visit_put
    (hTracks : Tracks generation cells e) :
    Tracks generation
      (Script.visit (cells, e) (e.dest, put)).1
      (Script.visit (cells, e) (e.dest, put)).2 := by
  have hEvicted := hTracks.evict e.dest
  have hPut :
      Tracks generation (Function.update cells e.dest e.carried)
        { e.evict (cells e.dest) with carried := none } := by
    have hDown := hEvicted.putDown (by rw [dest_evict]; simp)
    simpa only [dest_evict, carried_evict, Function.update_idem]
      using hDown
  change Tracks generation
    (Function.update cells e.dest (put (cells e.dest) e).1)
    (put (cells e.dest) e).2
  unfold put
  split
  · rw [Function.update_eq_self]
    exact hTracks
  · exact hPut

end Tracks

@[simp] theorem dest_takeCopy (slot : Slot Cell) (e : Edit) :
    (takeCopy slot e).2.dest = e.dest := by
  unfold takeCopy
  split
  · rfl
  · split <;> rfl
  · rfl

@[simp] theorem dest_takeAway (slot : Slot Cell) (e : Edit) :
    (takeAway slot e).2.dest = e.dest := by
  unfold takeAway
  split <;> simp

namespace Tracks

variable {generation : Bool} {cells : Contents Point Cell}
variable {e : Edit}

/- A cell is copied to another one. -/
theorem carry_copier
    (hTracks : Tracks generation cells e)
    (hIdle : e.IsIdle)
    {turn : Point × Point}
    (hOn : maxSize.contains turn.2 = true) :
    Tracks generation
      (Grid.carry copier (cells, e) turn).1
      (Grid.carry copier (cells, e) turn).2 := by
  have hAnnounced :
      Tracks generation cells (announce turn.1 turn.2 e) := by
    have hRedirected := hTracks.redirect hIdle turn.2
    rwa [← IsIdle.eq (e := { e with dest := turn.2 }) hIdle]
      at hRedirected
  have hTaken :=
    (hAnnounced.visit_takeCopy rfl hOn turn.1).visit_put
  rw [show
      (Script.visit (cells, announce turn.1 turn.2 e)
        (turn.1, takeCopy)).2.dest = turn.2 from
      dest_takeCopy _ _] at hTaken
  exact hTaken

/- A cell is moved to another one. -/
theorem carry_mover
    (hTracks : Tracks generation cells e)
    (hIdle : e.IsIdle)
    {turn : Point × Point}
    (hOn : maxSize.contains turn.2 = true) :
    Tracks generation
      (Grid.carry mover (cells, e) turn).1
      (Grid.carry mover (cells, e) turn).2 := by
  have hAnnounced :
      Tracks generation cells (announce turn.1 turn.2 e) := by
    have hRedirected := hTracks.redirect hIdle turn.2
    rwa [← IsIdle.eq (e := { e with dest := turn.2 }) hIdle]
      at hRedirected
  have hTaken :=
    (hAnnounced.visit_takeAway rfl hOn turn.1).visit_put
  rw [show
      (Script.visit (cells, announce turn.1 turn.2 e)
        (turn.1, takeAway)).2.dest = turn.2 from
      dest_takeAway _ _] at hTaken
  exact hTaken

end Tracks

end Edit

end Spreadsheet
