import Spreadsheet.Proofs.Grid.Shift
import Spreadsheet.Proofs.LinkedArena.Issued
import Spreadsheet.Proofs.Reference.Moves
import Spreadsheet.Proofs.Sheet.Undo

/-
  Copying and moving rectangles of cells.

  Cells are carried one after another, and formulas are added
  and removed meanwhile. Where no cell is a part of a result,
  the outcome is as if all cells had been carried at once,
  however the two rectangles overlap.

  Main declarations:
    * `Edit.Copies`
    * `Edit.Moves`
    * `Edit.copies_foldl`
    * `Edit.moves_foldl`
    * `Sheet.transfers_are_simultaneous`
-/

namespace Spreadsheet

------------------------------------------------------------
-- Cells Without Parts Of Results
------------------------------------------------------------

/- No cell is a part of the result of a formula elsewhere. -/
def Bare (cells : Contents Point Cell) : Prop :=
  ∀ p, (cells p).parent? = none

theorem Bare.update
    {cells : Contents Point Cell}
    (hBare : Bare cells)
    {slot : Slot Cell}
    (hPart : slot.parent? = none)
    (p : Point) :
    Bare (Function.update cells p slot) := by
  intro q
  rw [Function.update_apply]
  split
  · exact hPart
  · exact hBare q

/- Where no cell is a part of a result, results are single cells. -/
theorem Agrees.extent_eq_one
    {cells : Contents Point Cell}
    {formulas : FormulaTable}
    {orphans : List Orphan}
    {carried : Option Handle}
    (hAgrees : Agrees cells formulas orphans carried)
    (hBare : Bare cells)
    {id : Handle}
    {f : FormulaCell}
    (hLive : formulas id = some f) :
    f.extent = Size.one := by
  have hRooted := (hAgrees.located hLive).2
  have hNone (p : Point) : ¬ f.area.Beyond p := by
    intro hBeyond
    have hPart := hAgrees.covered hLive hBeyond
    rw [hBare p] at hPart
    cases hPart
  have hRight := hNone ⟨f.location.x + 1, f.location.y⟩
  have hBelow := hNone ⟨f.location.x, f.location.y + 1⟩
  simp only [Rect.Beyond, FormulaCell.area, Rect.contains_iff, ne_eq,
    Point.ext_iff] at hRooted hRight hBelow
  refine Size.ext ?_ ?_
  · simp only [Size.one]
    omega
  · simp only [Size.one]
    omega

namespace Edit

variable {generation : Bool} {cells : Contents Point Cell}
variable {e : Edit}

/-
  One formula is gone from a list, if any, and no handle that
  was given out is forgotten.
-/
structure Loses
    (old new : FormulaList)
    (gone : Option Handle) : Prop where
  get :
    ∀ id, new.get? id = if gone = some id then none else old.get? id
  issued : ∀ id, old.Issued id → new.Issued id
  spent : ∀ id, old.Spent id → new.Spent id

theorem loses_none (formulas : FormulaList) :
    Loses formulas formulas none :=
  ⟨fun _ => rfl, fun _ => id, fun _ => id⟩

theorem loses_remove (formulas : FormulaList) (j : Handle) :
    Loses formulas (formulas.remove j).2 (some j) := by
  refine ⟨fun id => ?_, fun _ h => h.remove j, fun _ h => h.remove j⟩
  rw [LinkedArena.Listed.get?_remove]
  simp only [Option.some.injEq, eq_comm]

/- A formula that is evicted leaves nothing else to give up. -/
theorem evict_spec
    {slot : Slot Cell}
    (hPart : slot.parent? = none)
    (hOne :
      ∀ id f, slot.formula? = some id →
        e.formulas.get? id = some f → f.extent = Size.one) :
    (e.evict slot).orphans = e.orphans ∧
      Loses e.formulas (e.evict slot).formulas slot.formula? := by
  rcases slot with - | (v | j | ⟨j, v⟩)
  · exact ⟨rfl, loses_none _⟩
  · exact ⟨rfl, loses_none _⟩
  · change (e.release j).orphans = e.orphans ∧
      Loses e.formulas (e.release j).formulas (some j)
    cases hLive : e.formulas.get? j with
    | none =>
        have hSame : e.formulas.remove j = (none, e.formulas) := by
          unfold LinkedArena.remove
          rw [hLive]
        have hLoses := loses_remove e.formulas j
        rw [hSame] at hLoses
        unfold release
        rw [hSame]
        exact ⟨rfl, hLoses⟩
    | some f =>
        rw [release_of_live hLive]
        have hKept : e.orphan j f = e := if_pos (hOne j f rfl hLive)
        rw [hKept]
        exact ⟨rfl, loses_remove e.formulas j⟩
  · cases hPart

theorem put_of_part
    {slot : Slot Cell}
    (hPart : slot.parent? = none) :
    put slot e = (e.carried, { e.evict slot with carried := none }) := by
  rcases slot with - | (v | j | ⟨j, v⟩)
  · rfl
  · rfl
  · rfl
  · cases hPart

------------------------------------------------------------
-- Copying
------------------------------------------------------------

/-
  What a cell is copied to: the same value, or a formula of
  its own, under a handle that was never given out before.
-/
inductive CopyIn
    (old new : FormulaList)
    (q : Point) : Slot Cell → Slot Cell → Prop where
  | blank : CopyIn old new q none none
  | value (v : Scalar) :
      CopyIn old new q (some (.value v)) (some (.value v))
  | formula
      {id id' : Handle}
      {f : FormulaCell}
      (hOld : old.get? id = some f)
      (hFresh : ¬ old.Issued id')
      (hCopy : new.get? id' = some (f.copyTo q)) :
      CopyIn old new q (some (.formula id)) (some (.formula id'))

/- The copy is there in other lists that hold both formulas. -/
theorem CopyIn.change
    {old new old' new' : FormulaList}
    {q : Point}
    {slot copy : Slot Cell}
    (hCopy : CopyIn old new q slot copy)
    (hOld :
      ∀ id f, slot.formula? = some id →
        old.get? id = some f → old'.get? id = some f)
    (hFresh : ∀ id, old'.Issued id → old.Issued id)
    (hNew :
      ∀ id f, ¬ old.Issued id → f.location = q →
        new.get? id = some f → new'.get? id = some f) :
    CopyIn old' new' q slot copy := by
  cases hCopy with
  | blank => exact .blank
  | value v => exact .value v
  | @formula id id' f hLive hUnused hCopied =>
      exact .formula (hOld id f rfl hLive)
        (fun hIssued => hUnused (hFresh id' hIssued))
        (hNew id' _ hUnused rfl hCopied)

/- All turns of copying, as if taken at once. -/
structure Copies
    (turns : List (Point × Point))
    (cells : Contents Point Cell)
    (e : Edit)
    (after : Contents Point Cell × Edit) : Prop where
  arrives :
    ∀ turn ∈ turns,
      CopyIn e.formulas after.2.formulas turn.2 (cells turn.1)
        (after.1 turn.2)
  stays : ∀ q, (∀ turn ∈ turns, turn.2 ≠ q) → after.1 q = cells q
  kept :
    ∀ id f, e.formulas.get? id = some f →
      after.2.formulas.get? id =
        if ∃ turn ∈ turns, turn.2 = f.location then none else some f
  issued :
    ∀ id, e.formulas.Issued id → after.2.formulas.Issued id
  spent : ∀ id, e.formulas.Spent id → after.2.formulas.Spent id
  orphans : after.2.orphans = e.orphans

theorem carry_copier_eq
    {p q : Point}
    (hPart : (cells q).parent? = none) :
    Grid.carry copier (cells, e) (p, q) =
      (Function.update cells q
          (takeCopy (cells p) (announce p q e)).2.carried,
        { (takeCopy (cells p) (announce p q e)).2.evict (cells q) with
          carried := none }) := by
  have hKept : (takeCopy (cells p) (announce p q e)).1 = cells p := by
    unfold takeCopy
    split
    · rfl
    · split <;> rfl
    · rfl
  have hSame :
      Function.update cells p (takeCopy (cells p) (announce p q e)).1 =
        cells := by
    rw [hKept, Function.update_eq_self]
  change
    (Function.update
        (Function.update cells p
          (takeCopy (cells p) (announce p q e)).1) q
        (put
          (Function.update cells p
            (takeCopy (cells p) (announce p q e)).1 q)
          (takeCopy (cells p) (announce p q e)).2).1,
      (put
        (Function.update cells p
          (takeCopy (cells p) (announce p q e)).1 q)
        (takeCopy (cells p) (announce p q e)).2).2) = _
  rw [hSame, put_of_part hPart]

/- A copy is taken: it is carried, and may be a new formula. -/
theorem takeCopy_spec
    (hTracks : Tracks generation cells e)
    (hBare : Bare cells)
    (p q : Point) :
    let taken := (takeCopy (cells p) (announce p q e)).2
    taken.orphans = e.orphans ∧
      CopyIn e.formulas taken.formulas q (cells p) taken.carried ∧
      Slot.parent? taken.carried = none ∧
      (∀ id f, e.formulas.get? id = some f →
        taken.formulas.get? id = some f) ∧
      (∀ id, e.formulas.Issued id → taken.formulas.Issued id) ∧
      ∀ id, e.formulas.Spent id → taken.formulas.Spent id := by
  dsimp only
  rcases hSlot : cells p with - | (v | id | ⟨id, v⟩)
  · exact ⟨rfl, .blank, rfl, fun _ _ => id, fun _ => id, fun _ => id⟩
  · exact ⟨rfl, .value v, rfl, fun _ _ => id, fun _ => id, fun _ => id⟩
  · have hCell : (cells p).formula? = some id := by
      rw [hSlot]
      rfl
    rcases hTracks.agrees.formula_live hCell with ⟨-, f, hLive, -⟩
    rcases hTracks.listed with ⟨l, hListed⟩
    have hTaken :
        (takeCopy (some (.formula id)) (announce p q e)).2 =
          { announce p q e with
            formulas := (e.formulas.pushBack (f.copyTo q)).2
            carried :=
              some (.formula (e.formulas.pushBack (f.copyTo q)).1) } := by
      have hStill : (announce p q e).formulas.get? id = some f := hLive
      unfold takeCopy
      dsimp only
      rw [hStill]
      rfl
    rw [hTaken]
    have hFresh :=
      LinkedArena.not_issued_fst_pushBack hListed (f.copyTo q)
    refine ⟨rfl, .formula hLive hFresh ?_, rfl, ?_, ?_, ?_⟩
    · rw [hListed.get?_pushBack, if_pos rfl]
    · intro j g hOther
      rw [hListed.get?_pushBack, if_neg, hOther]
      rintro rfl
      exact hFresh (.inr (by rw [hOther]; rfl))
    · exact fun _ hIssued => hIssued.pushBack hListed _
    · exact fun _ hSpent => hSpent.pushBack _
  · have hPart := hBare p
    rw [hSlot] at hPart
    cases hPart

/- A formula stands in the cell at its location and nowhere else. -/
theorem Tracks.formula?_eq_some_iff
    (hTracks : Tracks generation cells e)
    (hIdle : e.IsIdle)
    {id : Handle}
    {f : FormulaCell}
    (hLive : e.formulas.get? id = some f)
    (q : Point) :
    (cells q).formula? = some id ↔ q = f.location := by
  have hAgrees := hTracks.agrees
  rw [hIdle] at hAgrees
  constructor
  · intro hCell
    rcases hAgrees.formula_live hCell with ⟨-, g, hLive', hLocation⟩
    rw [hLive] at hLive'
    cases hLive'
    exact hLocation.symm
  · rintro rfl
    exact hAgrees.held hLive nofun

/- One turn of copying. -/
theorem copies_carry
    (hTracks : Tracks generation cells e)
    (hBare : Bare cells)
    (hIdle : e.IsIdle)
    (turn : Point × Point) :
    Copies [turn] cells e (Grid.carry copier (cells, e) turn) ∧
      Bare (Grid.carry copier (cells, e) turn).1 := by
  rcases turn with ⟨p, q⟩
  rcases takeCopy_spec hTracks hBare p q with
    ⟨hOrphans, hCopy, hPart, hKept, hIssued, hSpent⟩
  rw [carry_copier_eq (hBare q)]
  generalize (takeCopy (cells p) (announce p q e)).2 = taken at *
  have hCellLive {id : Handle} (hCell : (cells q).formula? = some id) :
      ∃ f, e.formulas.get? id = some f := by
    rcases hTracks.agrees.formula_live hCell with ⟨-, f, hLive, -⟩
    exact ⟨f, hLive⟩
  rcases evict_spec (e := taken) (hBare q) (by
    intro id f hCell hLive
    rcases hCellLive hCell with ⟨g, hOld⟩
    rw [hKept id g hOld] at hLive
    cases hLive
    exact hTracks.agrees.extent_eq_one hBare hOld) with
    ⟨hOrphans', hLoses⟩
  refine ⟨⟨?_, ?_, ?_, ?_, ?_, hOrphans'.trans hOrphans⟩,
    hBare.update hPart q⟩
  · rintro turn hTurn
    rw [List.mem_singleton.1 hTurn]
    dsimp only
    rw [Function.update_self]
    refine hCopy.change (fun _ _ _ => id) (fun _ => id) ?_
    intro id f hFresh _ hNew
    rw [hLoses.get, if_neg, hNew]
    intro hCell
    rcases hCellLive hCell with ⟨g, hLive⟩
    exact hFresh (.inr (by rw [hLive]; rfl))
  · intro r hOther
    exact Function.update_of_ne
      (hOther (p, q) (List.mem_singleton_self _)).symm _ _
  · intro id f hLive
    dsimp only
    rw [hLoses.get, hKept id f hLive]
    simp only [hTracks.formula?_eq_some_iff hIdle hLive,
      List.mem_singleton, exists_eq_left]
  · exact fun id h => hLoses.issued id (hIssued id h)
  · exact fun id h => hLoses.spent id (hSpent id h)

theorem copies_nil (cells : Contents Point Cell) (e : Edit) :
    Copies [] cells e (cells, e) := by
  refine ⟨nofun, fun _ _ => rfl, ?_, fun _ => id, fun _ => id, rfl⟩
  intro id f hLive
  rw [hLive, if_neg]
  rintro ⟨_, hIn, -⟩
  cases hIn

/- A first turn, and others that it does not get in the way of. -/
theorem Copies.cons
    (hTracks : Tracks generation cells e)
    {turn : Point × Point}
    {turns : List (Point × Point)}
    {between after : Contents Point Cell × Edit}
    (hApart :
      ∀ other ∈ turns,
        turn.1 ≠ other.1 ∧ turn.2 ≠ other.2 ∧ turn.2 ≠ other.1)
    (hFirst : Copies [turn] cells e between)
    (hRest : Copies turns between.1 between.2 after) :
    Copies (turn :: turns) cells e after := by
  have hStays (r : Point) (hOther : turn.2 ≠ r) :
      between.1 r = cells r :=
    hFirst.stays r (by simpa using hOther)
  have hKept {id : Handle} {f : FormulaCell}
      (hLive : e.formulas.get? id = some f)
      (hOther : turn.2 ≠ f.location) :
      between.2.formulas.get? id = some f := by
    rw [hFirst.kept id f hLive, if_neg (by simpa using hOther)]
  refine ⟨?_, ?_, ?_, fun id h => hRest.issued id (hFirst.issued id h),
    fun id h => hRest.spent id (hFirst.spent id h),
    hRest.orphans.trans hFirst.orphans⟩
  · intro other hOther
    rcases List.mem_cons.1 hOther with rfl | hLater
    · -- what was copied first stays where it is
      have hCopy := hFirst.arrives other List.mem_cons_self
      rw [hRest.stays other.2 fun later h => (hApart later h).2.1.symm]
      refine hCopy.change (fun _ _ _ => id) (fun _ => id) ?_
      intro id f _ hLocation hNew
      rw [hRest.kept id f hNew, if_neg]
      rintro ⟨later, hLater, hSame⟩
      exact (hApart later hLater).2.1 (hSame.trans hLocation).symm
    · have hCopy := hRest.arrives other hLater
      have hSource := (hApart other hLater).2.2
      rw [hStays other.1 hSource] at hCopy
      refine hCopy.change ?_ hFirst.issued fun _ _ _ _ => id
      intro id f hCell hLive
      rcases hTracks.agrees.formula_live hCell with
        ⟨-, g, hOld, hLocation⟩
      rw [hKept hOld (hLocation ▸ hSource)] at hLive
      rwa [← hLive]
  · intro r hOther
    rw [List.forall_mem_cons] at hOther
    rw [hRest.stays r hOther.2, hStays r hOther.1]
  · intro id f hLive
    by_cases hHere : turn.2 = f.location
    · have hGone := hFirst.kept id f hLive
      rw [if_pos (by simpa using hHere)] at hGone
      have hIssued := hFirst.issued id (.inr (by rw [hLive]; rfl))
      rw [if_pos ⟨turn, List.mem_cons_self, hHere⟩]
      exact (hRest.spent id (hIssued.spent hGone)).get?_eq_none
    · rw [hRest.kept id f (hKept hLive hHere)]
      simp only [List.mem_cons, exists_eq_or_imp, hHere, false_or]

/- By induction on the turns; nothing is lost meanwhile. -/
theorem copies_foldl
    {turns : List (Point × Point)}
    (hInTurn : Grid.InTurn turns)
    (hOn : ∀ turn ∈ turns, maxSize.contains turn.2 = true)
    (hTracks : Tracks generation cells e)
    (hBare : Bare cells)
    (hIdle : e.IsIdle) :
    Copies turns cells e
      (turns.foldl (Grid.carry copier) (cells, e)) := by
  induction turns generalizing cells e with
  | nil => exact copies_nil cells e
  | cons turn turns ih =>
      rw [Grid.InTurn, List.pairwise_cons] at hInTurn
      rw [List.forall_mem_cons] at hOn
      rcases copies_carry hTracks hBare hIdle turn with
        ⟨hFirst, hBare'⟩
      exact hFirst.cons hTracks hInTurn.1
        (ih hInTurn.2 hOn.2 (hTracks.carry_copier hIdle hOn.1) hBare'
          (isIdle_put _ _))

------------------------------------------------------------
-- Moving
------------------------------------------------------------

/- All turns of moving, as if taken at once. -/
structure Moves
    (turns : List (Point × Point))
    (cells : Contents Point Cell)
    (e : Edit)
    (after : Contents Point Cell × Edit) : Prop where
  arrives : ∀ turn ∈ turns, after.1 turn.2 = cells turn.1
  stays :
    ∀ q, (∀ turn ∈ turns, turn.2 ≠ q) →
      after.1 q =
        if ∃ turn ∈ turns, turn.1 = q then none else cells q
  moved :
    ∀ turn ∈ turns, ∀ id f, e.formulas.get? id = some f →
      f.location = turn.1 →
        after.2.formulas.get? id = some (f.moveTo turn.2)
  kept :
    ∀ id f, e.formulas.get? id = some f →
      (∀ turn ∈ turns, turn.1 ≠ f.location) →
        after.2.formulas.get? id =
          if ∃ turn ∈ turns, turn.2 = f.location then none else some f
  none_stays :
    ∀ id, e.formulas.get? id = none → after.2.formulas.get? id = none
  orphans : after.2.orphans = e.orphans

theorem carry_mover_eq
    {p q : Point}
    (hBare : Bare cells)
    (hTaken : (takeAway (cells p) (announce p q e)).1 = none) :
    Grid.carry mover (cells, e) (p, q) =
      (Function.update (Function.update cells p none) q
          (takeAway (cells p) (announce p q e)).2.carried,
        { (takeAway (cells p) (announce p q e)).2.evict
            (Function.update cells p none q) with
          carried := none }) := by
  have hPart :
      (Function.update cells p none q).parent? = none :=
    hBare.update rfl p q
  change
    (Function.update
        (Function.update cells p
          (takeAway (cells p) (announce p q e)).1) q
        (put
          (Function.update cells p
            (takeAway (cells p) (announce p q e)).1 q)
          (takeAway (cells p) (announce p q e)).2).1,
      (put
        (Function.update cells p
          (takeAway (cells p) (announce p q e)).1 q)
        (takeAway (cells p) (announce p q e)).2).2) = _
  rw [hTaken, put_of_part hPart]

/- A result of one cell is not cut down any further. -/
theorem collapse_of_one
    {id : Handle}
    {f : FormulaCell}
    (hLive : e.formulas.get? id = some f)
    (hOne : f.extent = Size.one) :
    (e.collapse id).orphans = e.orphans ∧
      (e.collapse id).formulas.get? = e.formulas.get? := by
  have hKept : e.orphan id f = e := if_pos hOne
  rw [collapse_of_live hLive, hKept]
  refine ⟨rfl, ?_⟩
  dsimp only
  rw [LinkedArena.get?_modify_eq_update hLive]
  have hSame : { f with extent := Size.one } = f := by
    rw [← hOne]
  rw [hSame, ← hLive, Function.update_eq_self]

/- A cell is taken away: its formula has moved already. -/
theorem takeAway_spec
    (hTracks : Tracks generation cells e)
    (hBare : Bare cells)
    (p q : Point) :
    let taken := takeAway (cells p) (announce p q e)
    taken.1 = none ∧ taken.2.carried = cells p ∧
      taken.2.orphans = e.orphans ∧
      ∀ id,
        taken.2.formulas.get? id =
          if (cells p).formula? = some id then
            (e.formulas.get? id).map (·.moveTo q)
          else
            e.formulas.get? id := by
  dsimp only
  rcases hSlot : cells p with - | (v | id | ⟨id, v⟩)
  · exact ⟨rfl, rfl, rfl, fun _ => rfl⟩
  · exact ⟨rfl, rfl, rfl, fun _ => rfl⟩
  · have hCell : (cells p).formula? = some id := by
      rw [hSlot]
      rfl
    rcases hTracks.agrees.formula_live hCell with ⟨-, f, hLive, -⟩
    rcases collapse_of_one (e := announce p q e) hLive
        (hTracks.agrees.extent_eq_one hBare hLive) with
      ⟨hOrphans, hTable⟩
    refine ⟨rfl, rfl, hOrphans, fun j => ?_⟩
    change
      (((announce p q e).collapse id).formulas.modify id
          (·.moveTo ((announce p q e).collapse id).dest)).get? j = _
    rw [dest_collapse, LinkedArena.get?_modify, hTable]
    simp only [Slot.formula?_formula, Option.some.injEq, eq_comm]
    split <;> rfl
  · have hPart := hBare p
    rw [hSlot] at hPart
    cases hPart

/- One turn of moving. -/
theorem moves_carry
    (hTracks : Tracks generation cells e)
    (hBare : Bare cells)
    (hIdle : e.IsIdle)
    (turn : Point × Point) :
    Moves [turn] cells e (Grid.carry mover (cells, e) turn) ∧
      Bare (Grid.carry mover (cells, e) turn).1 := by
  rcases turn with ⟨p, q⟩
  rcases takeAway_spec hTracks hBare p q with
    ⟨hTaken, hCarried, hOrphans, hTable⟩
  rw [carry_mover_eq hBare hTaken, hCarried]
  generalize (takeAway (cells p) (announce p q e)).2 = taken at *
  have hAt {id : Handle} {f : FormulaCell}
      (hLive : e.formulas.get? id = some f) (r : Point) :=
    hTracks.formula?_eq_some_iff hIdle hLive r
  have hSlot {id : Handle} :
      (Function.update cells p none q).formula? = some id ↔
        q ≠ p ∧ (cells q).formula? = some id := by
    by_cases hSame : q = p
    · simp [hSame]
    · simp [hSame]
  rcases evict_spec (e := taken)
      (hBare.update rfl p q) (by
        intro id f hCell hLive
        rw [hSlot] at hCell
        rcases hTracks.agrees.formula_live hCell.2 with
          ⟨-, g, hOld, hLocation⟩
        rw [hTable, if_neg, hOld] at hLive
        · cases hLive
          exact hTracks.agrees.extent_eq_one hBare hOld
        · rw [hAt hOld, hLocation]
          exact hCell.1.symm) with
    ⟨hOrphans', hLoses⟩
  refine ⟨⟨?_, ?_, ?_, ?_, ?_, hOrphans'.trans hOrphans⟩,
    (hBare.update rfl p).update (hBare p) q⟩
  · intro turn hTurn
    rw [List.mem_singleton.1 hTurn]
    exact Function.update_self ..
  · intro r hOther
    have hNot : q ≠ r := hOther (p, q) (List.mem_singleton_self _)
    dsimp only
    rw [Function.update_of_ne hNot.symm, Function.update_apply]
    simp only [List.mem_singleton, exists_eq_left, eq_comm]
  · intro turn hTurn id f hLive hLocation
    rw [List.mem_singleton.1 hTurn] at hLocation ⊢
    dsimp only at hLocation ⊢
    rw [hLoses.get, if_neg, hTable, if_pos, hLive]
    · rfl
    · rw [hAt hLive, hLocation]
    · rw [hSlot, hAt hLive, hLocation]
      exact fun h => h.1 h.2
  · intro id f hLive hOther
    have hNot : p ≠ f.location :=
      hOther (p, q) (List.mem_singleton_self _)
    have hGone :
        (Function.update cells p none q).formula? = some id ↔
          ∃ turn ∈ [(p, q)], turn.2 = f.location := by
      rw [hSlot, hAt hLive]
      simp only [List.mem_singleton, exists_eq_left]
      exact and_iff_right_of_imp fun h hSame => hNot (hSame ▸ h)
    have hStill : ¬ (cells p).formula? = some id := by
      rwa [hAt hLive]
    dsimp only
    rw [hLoses.get, hTable, if_neg hStill, hLive]
    simp only [hGone]
  · intro id hGone
    dsimp only
    rw [hLoses.get, hTable, hGone]
    split
    · rfl
    · split <;> rfl

theorem moves_nil (cells : Contents Point Cell) (e : Edit) :
    Moves [] cells e (cells, e) := by
  refine ⟨nofun, ?_, nofun, ?_, fun _ => id, rfl⟩
  · intro q _
    rw [if_neg]
    rintro ⟨_, hIn, -⟩
    cases hIn
  · intro id f hLive _
    rw [hLive, if_neg]
    rintro ⟨_, hIn, -⟩
    cases hIn

/- A first turn, and others that it does not get in the way of. -/
theorem Moves.cons
    {turn : Point × Point}
    {turns : List (Point × Point)}
    {between after : Contents Point Cell × Edit}
    (hApart :
      ∀ other ∈ turns,
        turn.1 ≠ other.1 ∧ turn.2 ≠ other.2 ∧ turn.2 ≠ other.1)
    (hFirst : Moves [turn] cells e between)
    (hRest : Moves turns between.1 between.2 after) :
    Moves (turn :: turns) cells e after := by
  have hStays (r : Point) (hOther : turn.2 ≠ r) :
      between.1 r = if turn.1 = r then none else cells r := by
    have h := hFirst.stays r (by simpa using hOther)
    simpa using h
  have hKept {id : Handle} {f : FormulaCell}
      (hLive : e.formulas.get? id = some f)
      (hOther : turn.1 ≠ f.location) :
      between.2.formulas.get? id =
        if turn.2 = f.location then none else some f := by
    have h := hFirst.kept id f hLive (by simpa using hOther)
    simpa using h
  refine ⟨?_, ?_, ?_, ?_,
    fun id h => hRest.none_stays id (hFirst.none_stays id h),
    hRest.orphans.trans hFirst.orphans⟩
  · intro other hOther
    rcases List.mem_cons.1 hOther with rfl | hLater
    · -- what was moved first is not moved again
      rw [hRest.stays other.2 fun later h => (hApart later h).2.1.symm,
        if_neg]
      · exact hFirst.arrives other List.mem_cons_self
      · rintro ⟨later, h, hSame⟩
        exact (hApart later h).2.2 hSame.symm
    · rw [hRest.arrives other hLater,
        hStays other.1 (hApart other hLater).2.2,
        if_neg (hApart other hLater).1]
  · intro r hOther
    rw [List.forall_mem_cons] at hOther
    rw [hRest.stays r hOther.2, hStays r hOther.1]
    by_cases hSource : turn.1 = r
    · simp [hSource]
    · simp only [List.mem_cons, exists_eq_or_imp, hSource, false_or,
        if_false]
  · intro other hOther id f hLive hLocation
    rcases List.mem_cons.1 hOther with rfl | hLater
    · have hMoved := hFirst.moved other List.mem_cons_self id f hLive
        hLocation
      rw [hRest.kept id _ hMoved, if_neg]
      · rintro ⟨later, h, hSame⟩
        exact (hApart later h).2.1 hSame.symm
      · exact fun later h hSame => (hApart later h).2.2 hSame.symm
    · have hSource := hApart other hLater
      have hStill :
          between.2.formulas.get? id = some f := by
        rw [hKept hLive (hLocation ▸ hSource.1),
          if_neg (hLocation ▸ hSource.2.2)]
      exact hRest.moved other hLater id f hStill hLocation
  · intro id f hLive hOther
    rw [List.forall_mem_cons] at hOther
    have hBetween := hKept hLive hOther.1
    by_cases hHere : turn.2 = f.location
    · rw [if_pos hHere] at hBetween
      rw [hRest.none_stays id hBetween,
        if_pos ⟨turn, List.mem_cons_self, hHere⟩]
    · rw [if_neg hHere] at hBetween
      rw [hRest.kept id f hBetween hOther.2]
      simp only [List.mem_cons, exists_eq_or_imp, hHere, false_or]

/- By induction on the turns; nothing is lost meanwhile. -/
theorem moves_foldl
    {turns : List (Point × Point)}
    (hInTurn : Grid.InTurn turns)
    (hOn : ∀ turn ∈ turns, maxSize.contains turn.2 = true)
    (hTracks : Tracks generation cells e)
    (hBare : Bare cells)
    (hIdle : e.IsIdle) :
    Moves turns cells e
      (turns.foldl (Grid.carry mover) (cells, e)) := by
  induction turns generalizing cells e with
  | nil => exact moves_nil cells e
  | cons turn turns ih =>
      rw [Grid.InTurn, List.pairwise_cons] at hInTurn
      rw [List.forall_mem_cons] at hOn
      rcases moves_carry hTracks hBare hIdle turn with
        ⟨hFirst, hBare'⟩
      exact hFirst.cons hInTurn.1
        (ih hInTurn.2 hOn.2 (hTracks.carry_mover hIdle hOn.1) hBare'
          (isIdle_put _ _))

------------------------------------------------------------
-- Sheets Without Cells
------------------------------------------------------------

/- No formula is left where there is no cell. -/
theorem Tracks.no_formula
    (hTracks : Tracks generation .blank e)
    (hIdle : e.IsIdle)
    (id : Handle)
    (f : FormulaCell) :
    e.formulas.get? id ≠ some f := by
  intro hLive
  cases (hTracks.formula?_eq_some_iff hIdle hLive f.location).2 rfl

theorem copies_blank
    (hTracks : Tracks generation .blank e)
    (hIdle : e.IsIdle)
    (turns : List (Point × Point)) :
    Copies turns .blank e (.blank, e) :=
  ⟨fun _ _ => .blank, fun _ _ => rfl,
    fun id f hLive => absurd hLive (hTracks.no_formula hIdle id f),
    fun _ => id, fun _ => id, rfl⟩

theorem moves_blank
    (hTracks : Tracks generation .blank e)
    (hIdle : e.IsIdle)
    (turns : List (Point × Point)) :
    Moves turns .blank e (.blank, e) :=
  ⟨fun _ _ => rfl, fun _ _ => (ite_self _).symm,
    fun _ _ id f hLive => absurd hLive (hTracks.no_formula hIdle id f),
    fun id f hLive => absurd hLive (hTracks.no_formula hIdle id f),
    fun _ => id, rfl⟩

end Edit

namespace Sheet

variable {s t : Sheet} {source : Rect} {dest : Point}

------------------------------------------------------------
-- What Was Copied
------------------------------------------------------------

/-
  What stands in a cell after a copy: nothing or a value as
  before, or a formula of its own.
-/
inductive CopiedCell
    (s t : Sheet)
    (q : Point) : Slot Cell → Slot Cell → Prop where
  | blank : CopiedCell s t q none none
  | value (v : Scalar) :
      CopiedCell s t q (some (.value v)) (some (.value v))
  | formula
      {id id' : Handle}
      {f g : FormulaCell}
      (hOld : s.formulas.get? id = some f)
      (hFresh : s.formulas.get? id' = none)
      (hNew : t.formulas.get? id' = some g)
      (hCopy : f.CopyAt q g) :
      CopiedCell s t q (some (.formula id)) (some (.formula id'))

/-
  A rectangle was copied at once. The formulas it was copied
  over are gone, and each other one is still there. Every new
  formula stands in a cell that was copied to, and in no other
  cell.
-/
structure Copied
    (source : Rect)
    (dest : Point)
    (s t : Sheet) : Prop where
  arrives :
    ∀ q, Rect.contains ⟨dest, source.size⟩ q = true →
      CopiedCell s t q
        (s.grid.get? (Grid.transferSource source dest q))
        (t.grid.get? q)
  stays :
    ∀ q, ¬ Rect.contains ⟨dest, source.size⟩ q = true →
      t.grid.get? q = s.grid.get? q
  kept :
    ∀ id f, s.formulas.get? id = some f →
      t.formulas.get? id =
        if Rect.contains ⟨dest, source.size⟩ f.location = true then
          none
        else
          some f
  placed :
    ∀ id g, s.formulas.get? id = none → t.formulas.get? id = some g →
      Rect.contains ⟨dest, source.size⟩ g.location = true
  single :
    ∀ id g, t.formulas.get? id = some g →
      ∀ p, t.grid.get? p = some (.formula id) ↔ p = g.location
  rest : t = { s with grid := t.grid, formulas := t.formulas }

/-
  A rectangle was moved at once. The formulas it was moved
  over are gone unless they were moved themselves, those that
  were moved are adjusted, and each other one is still there.
-/
structure Moved
    (source : Rect)
    (dest : Point)
    (s t : Sheet) : Prop where
  arrives :
    ∀ q, Rect.contains ⟨dest, source.size⟩ q = true →
      t.grid.get? q =
        s.grid.get? (Grid.transferSource source dest q)
  stays :
    ∀ q, ¬ Rect.contains ⟨dest, source.size⟩ q = true →
      t.grid.get? q =
        if source.contains q = true then none else s.grid.get? q
  moved :
    ∀ id f, s.formulas.get? id = some f →
      source.contains f.location = true →
        ∃ g, t.formulas.get? id = some g ∧
          f.MovedTo
            (Grid.transferSource ⟨dest, source.size⟩ source.origin
              f.location)
            g
  kept :
    ∀ id f, s.formulas.get? id = some f →
      ¬ source.contains f.location = true →
        t.formulas.get? id =
          if Rect.contains ⟨dest, source.size⟩ f.location = true then
            none
          else
            some f
  placed :
    ∀ id, s.formulas.get? id = none → t.formulas.get? id = none
  single :
    ∀ id g, t.formulas.get? id = some g →
      ∀ p, t.grid.get? p = some (.formula id) ↔ p = g.location
  rest : t = { s with grid := t.grid, formulas := t.formulas }

------------------------------------------------------------
-- Transfers On A Sheet
------------------------------------------------------------

/- Every formula stands in one cell. -/
theorem Coherent.single
    (hCoherent : s.Coherent)
    {id : Handle}
    {f : FormulaCell}
    (hLive : s.formulas.get? id = some f)
    (p : Point) :
    s.grid.get? p = some (.formula id) ↔ p = f.location := by
  rw [← Slot.formula?_eq_some_iff]
  constructor
  · intro hCell
    rcases hCoherent.agrees.formula_live hCell with
      ⟨-, g, hLive', hLocation⟩
    rw [hLive] at hLive'
    cases hLive'
    exact hLocation.symm
  · rintro rfl
    exact hCoherent.agrees.held hLive nofun

/- All cells of a rectangle are copied, as if at once. -/
theorem copies_transferCells
    (hOrderly : s.Orderly)
    (hBare : Bare s.grid.get?)
    (hSource : source.OnSheet)
    (hDest : Rect.OnSheet ⟨dest, source.size⟩) :
    let after :=
      s.grid.transferCells Edit.copier source dest (.start s.formulas)
    Edit.Copies (Grid.transferTurns source dest) s.grid.get?
      (.start s.formulas) (after.1.get?, after.2) := by
  dsimp only
  have hTracks := hOrderly.tracks
  have hIdle := isIdle_start s.formulas
  rcases
    Grid.transferCells_spec Edit.lazy_copier hOrderly.sound hSource
      hDest hIdle with
    ⟨-, -, hRun | ⟨hBlank, hSame⟩⟩
  · rw [hRun]
    exact
      Edit.copies_foldl (Grid.inTurn_transferTurns source dest)
        (fun _ hTurn => hDest _ (Grid.mem_transferTurns hTurn).2.1)
        hTracks hBare hIdle
  · dsimp only at hBlank
    rw [hSame, hBlank]
    rw [hBlank] at hTracks
    exact Edit.copies_blank hTracks hIdle _

theorem moves_transferCells
    (hOrderly : s.Orderly)
    (hBare : Bare s.grid.get?)
    (hSource : source.OnSheet)
    (hDest : Rect.OnSheet ⟨dest, source.size⟩) :
    let after :=
      s.grid.transferCells Edit.mover source dest (.start s.formulas)
    Edit.Moves (Grid.transferTurns source dest) s.grid.get?
      (.start s.formulas) (after.1.get?, after.2) := by
  dsimp only
  have hTracks := hOrderly.tracks
  have hIdle := isIdle_start s.formulas
  rcases
    Grid.transferCells_spec Edit.lazy_mover hOrderly.sound hSource
      hDest hIdle with
    ⟨-, -, hRun | ⟨hBlank, hSame⟩⟩
  · rw [hRun]
    exact
      Edit.moves_foldl (Grid.inTurn_transferTurns source dest)
        (fun _ hTurn => hDest _ (Grid.mem_transferTurns hTurn).2.1)
        hTracks hBare hIdle
  · dsimp only at hBlank
    rw [hSame, hBlank]
    rw [hBlank] at hTracks
    exact Edit.moves_blank hTracks hIdle _

/- Where nothing is to be given up, a change is all there is. -/
theorem edited_of_no_orphans
    {change : Grid Cell → Edit → Grid Cell × Edit}
    (hNone : (change s.grid (.start s.formulas)).2.orphans = []) :
    s.edited change =
      { s with
        grid := (change s.grid (.start s.formulas)).1
        formulas := (change s.grid (.start s.formulas)).2.formulas } := by
  unfold edited
  dsimp only
  rw [hNone]
  rfl

theorem eq_of_edit
    {change : Grid Cell → Edit → Grid Cell × Edit}
    (hHeld : s.IsHeldBack)
    (hNone : (change s.grid (.start s.formulas)).2.orphans = [])
    (hEdit :
      Except.ok (s.edit change) = (.ok t : Except SheetError Sheet)) :
    t =
      { s with
        grid := (change s.grid (.start s.formulas)).1
        formulas := (change s.grid (.start s.formulas)).2.formulas } := by
  cases hEdit
  rw [edit_eq_refresh, edited_of_no_orphans hNone]
  exact IsHeldBack.refresh hHeld

theorem copiedCell_of_copyIn
    {q : Point}
    {slot copy : Slot Cell}
    (hCopy : Edit.CopyIn s.formulas t.formulas q slot copy) :
    CopiedCell s t q slot copy := by
  cases hCopy with
  | blank => exact .blank
  | value v => exact .value v
  | @formula id id' f hOld hFresh hNew =>
      refine .formula hOld ?_ hNew (f.copyAt_copyTo q)
      rw [← Option.not_isSome_iff_eq_none]
      exact fun hLive => hFresh (.inr hLive)

theorem copied_of_copyCells
    (hOrderly : s.Orderly)
    (hBare : Bare s.grid.get?)
    (hHeld : s.IsHeldBack)
    (hCopy : s.copyCells source dest = .ok t) :
    Copied source dest s t := by
  have hOrderly' := hOrderly.copyCells hCopy
  unfold copyCells at hCopy
  simp only [Except.bind_eq_ok] at hCopy
  rcases hCopy with ⟨_, hSource, _, hDest, hEdit⟩
  have hCopies :=
    copies_transferCells hOrderly hBare (onSheet_of_checkRect hSource)
      (onSheet_of_checkRect hDest)
  dsimp only at hCopies
  have hDone := eq_of_edit hHeld hCopies.orphans hEdit
  generalize
    s.grid.transferCells Edit.copier source dest
      (.start s.formulas) = after at *
  subst hDone
  have hStays (q : Point)
      (hOut : ¬ Rect.contains ⟨dest, source.size⟩ q = true) :
      after.1.get? q = s.grid.get? q :=
    hCopies.stays q fun turn hTurn hEq =>
      hOut (Grid.exists_turn_to_iff.1 ⟨turn, hTurn, hEq⟩)
  refine ⟨?_, hStays, ?_, ?_, fun id g => hOrderly'.single, rfl⟩
  · intro q hIn
    exact
      copiedCell_of_copyIn
        (hCopies.arrives _ (Grid.transferSource_turn hIn))
  · intro id f hLive
    have hKept := hCopies.kept id f hLive
    simpa only [Grid.exists_turn_to_iff] using hKept
  · intro id g hNone hLive
    by_contra hOut
    have hCell := (hOrderly'.single hLive g.location).2 rfl
    dsimp only at hCell
    rw [hStays _ hOut, ← Slot.formula?_eq_some_iff] at hCell
    rcases hOrderly.agrees.formula_live hCell with ⟨-, f, hOld, -⟩
    rw [hNone] at hOld
    cases hOld

theorem moved_of_moveCells
    (hOrderly : s.Orderly)
    (hBare : Bare s.grid.get?)
    (hHeld : s.IsHeldBack)
    (hMove : s.moveCells source dest = .ok t) :
    Moved source dest s t := by
  have hOrderly' := hOrderly.moveCells hMove
  unfold moveCells at hMove
  simp only [Except.bind_eq_ok] at hMove
  rcases hMove with ⟨_, hSource, _, hDest, hEdit⟩
  have hMoves :=
    moves_transferCells hOrderly hBare (onSheet_of_checkRect hSource)
      (onSheet_of_checkRect hDest)
  dsimp only at hMoves
  have hDone := eq_of_edit hHeld hMoves.orphans hEdit
  generalize
    s.grid.transferCells Edit.mover source dest
      (.start s.formulas) = after at *
  subst hDone
  refine ⟨?_, ?_, ?_, ?_, hMoves.none_stays,
    fun id g => hOrderly'.single, rfl⟩
  · exact fun q hIn =>
      hMoves.arrives _ (Grid.transferSource_turn hIn)
  · intro q hOut
    have hStays :=
      hMoves.stays q fun turn hTurn hEq =>
        hOut (Grid.exists_turn_to_iff.1 ⟨turn, hTurn, hEq⟩)
    simpa only [Grid.exists_turn_from_iff] using hStays
  · intro id f hLive hFrom
    exact
      ⟨_,
        hMoves.moved _ (Grid.turn_transferSource hFrom) id f hLive rfl,
        f.movedTo_moveTo _⟩
  · intro id f hLive hOther
    have hKept :=
      hMoves.kept id f hLive fun turn hTurn hEq =>
        hOther (Grid.exists_turn_from_iff.1 ⟨turn, hTurn, hEq⟩)
    simpa only [Grid.exists_turn_to_iff] using hKept

/-
  While calculation is held back and no cell is a part of a
  result, a rectangle is copied or moved as if all of its
  cells were taken at once, however the two places overlap.
-/
theorem transfers_are_simultaneous
    {config : SheetConfig}
    (hCalls : Calls (new config) s)
    (hBare : ∀ p, (s.grid.get? p).parent? = none)
    (hHeld : s.IsHeldBack)
    (source : Rect)
    (dest : Point) :
    (∀ t, s.copyCells source dest = .ok t → Copied source dest s t) ∧
      ∀ t, s.moveCells source dest = .ok t → Moved source dest s t := by
  have hOrderly := orderly_of_calls hCalls
  exact
    ⟨fun t => copied_of_copyCells hOrderly hBare hHeld,
      fun t => moved_of_moveCells hOrderly hBare hHeld⟩

/- A formula and the cell beside it, copied and moved by one. -/
theorem transfers_are_simultaneous_overlapping :
    ∃ s t u,
      (new ⟨false, 15, 64⟩).setFormula ⟨0, 0⟩ ['A', '3'] = .ok s ∧
        s.copyCells ⟨⟨0, 0⟩, ⟨2, 1⟩⟩ ⟨1, 0⟩ = .ok t ∧
        Copied ⟨⟨0, 0⟩, ⟨2, 1⟩⟩ ⟨1, 0⟩ s t ∧
        s.moveCells ⟨⟨0, 0⟩, ⟨2, 1⟩⟩ ⟨1, 0⟩ = .ok u ∧
        Moved ⟨⟨0, 0⟩, ⟨2, 1⟩⟩ ⟨1, 0⟩ s u := by
  have hRun :
      ∃ s t u,
        (new ⟨false, 15, 64⟩).setFormula ⟨0, 0⟩ ['A', '3'] = .ok s ∧
          s.copyCells ⟨⟨0, 0⟩, ⟨2, 1⟩⟩ ⟨1, 0⟩ = .ok t ∧
          s.moveCells ⟨⟨0, 0⟩, ⟨2, 1⟩⟩ ⟨1, 0⟩ = .ok u ∧
          (s.size, s.config.autoRecalc, s.formulas.handles,
              (s.formulas.get? ⟨0, 0⟩).map fun f => f.extent) =
            (⟨1, 1⟩, false, [⟨0, 0⟩], some ⟨1, 1⟩) :=
    ⟨_, _, _, rfl, rfl, rfl, by cbv⟩
  rcases hRun with ⟨s, t, u, hSet, hCopy, hMove, hShows⟩
  simp only [Prod.mk.injEq] at hShows
  rcases hShows with ⟨hSize, hAuto, hHandles, hExtent⟩
  have hCalls : Calls (new ⟨false, 15, 64⟩) s :=
    .call (.refl _) (.setFormula ⟨0, 0⟩ ['A', '3']) hSet
      (by rw [hSize]; decide)
  have hOrderly := orderly_of_calls hCalls
  have hBare (p : Point) : (s.grid.get? p).parent? = none := by
    by_contra hSome
    rcases Option.ne_none_iff_exists'.1 hSome with ⟨id, hPart⟩
    rcases hOrderly.toCoherent.live_of_part hPart with
      ⟨f, hLive, hBeyond⟩
    have hMem := mem_handles hOrderly.listed hLive
    rw [hHandles, List.mem_singleton] at hMem
    rw [← hMem, hLive, Option.map_some, Option.some.injEq] at hExtent
    exact FormulaCell.not_beyond_of_extent hExtent p hBeyond
  rcases
    transfers_are_simultaneous hCalls hBare (.inr hAuto)
      ⟨⟨0, 0⟩, ⟨2, 1⟩⟩ ⟨1, 0⟩ with
    ⟨hCopied, hMoved⟩
  exact
    ⟨s, t, u, hSet, hCopy, hCopied t hCopy, hMove, hMoved u hMove⟩

end Sheet

end Spreadsheet
