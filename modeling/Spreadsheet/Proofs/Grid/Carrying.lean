import Spreadsheet.Proofs.Grid.Contents

/-
  Cells that are handed on.

  A mover that puts what it took gives the cells of one place
  to another. Cells are carried in such an order that none is
  put into before it was taken from. So all of them arrive,
  however the two places overlap.

  Main declarations:
    * `CellMover.Hands`
    * `Grid.foldl_pass`
    * `Grid.get?_transferCells`
    * `Grid.get?_spreadCell`
-/

namespace Spreadsheet

variable {α σ κ : Type}

------------------------------------------------------------
-- Movers
------------------------------------------------------------

namespace CellMover

/- A mover that leaves the cells that it takes from. -/
def Copies (m : CellMover α σ) : Prop :=
  ∀ slot s, (m.take slot s).1 = slot

/- A mover that empties the cells that it takes from. -/
def Moves (m : CellMover α σ) : Prop :=
  ∀ slot s, (m.take slot s).1 = none

theorem Copies.takesOnly
    {m : CellMover α σ}
    (hCopies : m.Copies) :
    m.TakesOnly :=
  hCopies none

theorem Moves.takesOnly
    {m : CellMover α σ}
    (hMoves : m.Moves) :
    m.TakesOnly :=
  hMoves none

/- What is left in a slot that is taken from. -/
structure Leaves
    (m : CellMover α σ)
    (leave : Slot α → Slot α) : Prop where
  take : ∀ slot s, (m.take slot s).1 = leave slot
  none : leave none = none

theorem Copies.leaves
    {m : CellMover α σ}
    (hCopies : m.Copies) :
    m.Leaves id :=
  ⟨hCopies, rfl⟩

theorem Moves.leaves
    {m : CellMover α σ}
    (hMoves : m.Moves) :
    m.Leaves fun _ => none :=
  ⟨hMoves, rfl⟩

/- Nothing is held once the next pair of cells is announced. -/
def Free
    (m : CellMover α σ)
    (held : σ → Slot α)
    (s : σ) : Prop :=
  ∀ p q, held (m.announce p q s) = none

/-
  A mover that puts what it took, and puts it once. Empty
  slots are wanted to put something into.
-/
structure Hands
    (m : CellMover α σ)
    (held : σ → Slot α) : Prop where
  announce : ∀ s, held s = none → m.Free held s
  take : ∀ slot s, held (m.take slot s).2 = slot
  put : ∀ slot s, (m.put slot s).1 = held s
  release : ∀ slot s, m.Free held (m.put slot s).2
  wanted : ∀ s, held s ≠ none → m.wantsDest s = true

/- The mover that holds what a slot held, until it is put. -/
def plain (leave : Slot α → Slot α) : CellMover α (Slot α) where
  wantsSource _ := false
  wantsDest := Option.isSome
  announce _ _ held := held
  take slot _ := (leave slot, slot)
  put _ held := (held, none)

theorem hands_plain (leave : Slot α → Slot α) :
    (plain leave).Hands id where
  announce _ hNothing _ _ := hNothing
  take _ _ := rfl
  put _ _ := rfl
  release _ _ _ _ := rfl
  wanted _ hSome := Option.isSome_iff_ne_none.mpr hSome

theorem free_plain (leave : Slot α → Slot α) :
    (plain leave).Free id none :=
  fun _ _ => rfl

end CellMover

------------------------------------------------------------
-- Turns
------------------------------------------------------------

/- The content of one cell becomes that of another one. -/
def Contents.pass
    [DecidableEq κ]
    (leave : Slot α → Slot α)
    (cells : Contents κ α)
    (turn : κ × κ) : Contents κ α :=
  Function.update
    (Function.update cells turn.1 (leave (cells turn.1))) turn.2
    (cells turn.1)

theorem Contents.foldl_pass_blank
    [DecidableEq κ]
    {leave : Slot α → Slot α}
    (hNone : leave none = none)
    (turns : List (κ × κ)) :
    turns.foldl (Contents.pass leave) .blank = .blank := by
  induction turns with
  | nil => rfl
  | cons turn turns ih =>
      have hPass :
          Contents.pass leave .blank turn = .blank := by
        funext k
        simp [Contents.pass, Contents.blank, Function.update_apply,
          hNone]
      rw [List.foldl_cons, hPass, ih]

namespace CellMover

section Handing

variable {m : CellMover α σ} {held : σ → Slot α}
variable {leave : Slot α → Slot α}
variable (hHands : m.Hands held)

include hHands

/- A cell has its turn to be taken. -/
theorem Hands.of_turn_source
    (hLeaves : m.Leaves leave)
    {slot left : Slot α}
    {s s' : σ}
    (hTurn : m.source.Turn (slot, s) (left, s'))
    (hEmpty : held s = none) :
    left = leave slot ∧ held s' = slot := by
  rcases hTurn with hVisit | ⟨hNone, -, hSame⟩
  · rw [show left = _ from congrArg Prod.fst hVisit,
      show s' = _ from congrArg Prod.snd hVisit]
    exact ⟨hLeaves.take _ _, hHands.take _ _⟩
  · -- an absent cell is as good as an empty one
    cases hSame
    cases hNone
    exact ⟨hLeaves.none.symm, hEmpty⟩

/- A cell has its turn to be put into. -/
theorem Hands.of_turn_dest
    {slot new : Slot α}
    {s s' : σ}
    (hTurn : m.dest.Turn (slot, s) (new, s')) :
    new = held s ∧ m.Free held s' := by
  rcases hTurn with hVisit | ⟨hNone, hUnwanted, hSame⟩
  · rw [show new = _ from congrArg Prod.fst hVisit,
      show s' = _ from congrArg Prod.snd hVisit]
    exact ⟨hHands.put _ _, hHands.release _ _⟩
  · cases hSame
    cases hNone
    have hNothing : held s = none := by
      by_contra hSome
      change m.wantsDest s = false at hUnwanted
      rw [hHands.wanted _ hSome] at hUnwanted
      cases hUnwanted
    exact ⟨hNothing.symm, hHands.announce _ hNothing⟩

/- A cell is taken, and what it held is put into the other. -/
theorem Hands.pass_of_plan
    [DecidableEq κ]
    (hLeaves : m.Leaves leave)
    {source dest : κ}
    {before after : Contents κ α × σ}
    (hFollows : (m.plan source dest).Follows before after)
    (hEmpty : held before.2 = none) :
    after.1 = before.1.pass leave (source, dest) ∧
      m.Free held after.2 := by
  rcases hFollows with - | ⟨hTake, hRest⟩
  rcases hRest with - | ⟨hPut, hNil⟩
  cases hNil
  rcases hHands.of_turn_source hLeaves hTake hEmpty with
    ⟨hLeft, hHeld⟩
  rcases hHands.of_turn_dest hPut with ⟨hPlaced, hFree⟩
  refine ⟨?_, hFree⟩
  dsimp only
  rw [hPlaced, hHeld, hLeft]
  rfl

/- Turns by key, seen on the sheet. -/
theorem Hands.foldl_of_carries
    (hLeaves : m.Leaves leave)
    {turns : List (Point × Point)}
    {before after : Contents CellKey α × σ}
    (hCarries : m.Carries Point.key turns before after)
    (hOn :
      ∀ turn ∈ turns,
        maxSize.contains turn.1 = true ∧
          maxSize.contains turn.2 = true)
    (hFree : m.Free held before.2) :
    after.1.onSheet =
        turns.foldl (Contents.pass leave) before.1.onSheet ∧
      m.Free held after.2 := by
  induction hCarries with
  | nil => exact ⟨rfl, hFree⟩
  | @cons turn turns before between after hTurn _ ih =>
      rw [List.forall_mem_cons] at hOn
      have hPoints :=
        hTurn.onSheet (m.plan turn.1 turn.2)
          (by simpa [CellMover.plan] using hOn.1)
      rcases
        hHands.pass_of_plan hLeaves hPoints
          (hFree turn.1 turn.2) with
        ⟨hPass, hFree'⟩
      rw [List.foldl_cons, ← hPass]
      exact ih hOn.2 hFree'

/- The cells of a grid are handed on, turn by turn. -/
theorem Hands.get?_of_runs
    (hLeaves : m.Leaves leave)
    {turns : List (Point × Point)}
    {g : Grid α}
    {s : σ}
    {after : Grid α × σ}
    (hRuns : m.Runs turns (g.look, s) (after.1.look, after.2))
    (hOn :
      ∀ turn ∈ turns,
        maxSize.contains turn.1 = true ∧
          maxSize.contains turn.2 = true)
    (hFree : m.Free held s) :
    after.1.get? = turns.foldl (Contents.pass leave) g.get? ∧
      m.Free held after.2 := by
  rw [Grid.get?_eq_onSheet, Grid.get?_eq_onSheet]
  rcases hRuns with hCarries | ⟨hBlank, hSame⟩
  · exact hHands.foldl_of_carries hLeaves hCarries hOn hFree
  · rw [Prod.mk.injEq] at hSame
    dsimp only at hBlank
    rw [hSame.1, hSame.2, hBlank, Contents.onSheet_blank,
      Contents.foldl_pass_blank hLeaves.none]
    exact ⟨rfl, hFree⟩

end Handing

end CellMover

namespace Grid

/-
  No cell is taken from or put into twice, or taken from once
  it was put into.
-/
def InTurn (turns : List (Point × Point)) : Prop :=
  turns.Pairwise fun a b =>
    a.1 ≠ b.1 ∧ a.2 ≠ b.2 ∧ a.2 ≠ b.1

/-
  All cells arrive, the others that were taken from hold what
  was left there, and nothing else changes.
-/
theorem foldl_pass
    (leave : Slot α → Slot α)
    {turns : List (Point × Point)}
    (hInTurn : InTurn turns)
    (cells : Contents Point α) :
    (∀ turn ∈ turns,
        turns.foldl (Contents.pass leave) cells turn.2 =
          cells turn.1) ∧
      ∀ q, (∀ turn ∈ turns, turn.2 ≠ q) →
        turns.foldl (Contents.pass leave) cells q =
          if ∃ turn ∈ turns, turn.1 = q then leave (cells q)
          else cells q := by
  induction turns generalizing cells with
  | nil => simp
  | cons first turns ih =>
      rw [InTurn, List.pairwise_cons] at hInTurn
      rcases hInTurn with ⟨hFirst, hRest⟩
      rw [List.foldl_cons]
      rcases ih hRest (cells.pass leave first) with ⟨hArrive, hStay⟩
      constructor
      · intro turn hTurn
        rcases List.mem_cons.mp hTurn with hEq | hLater
        · -- the first cell stays where it was put
          rw [hEq, hStay first.2
            fun other h => (hFirst other h).2.1.symm]
          rw [if_neg, Contents.pass, Function.update_self]
          rintro ⟨other, h, hSource⟩
          exact (hFirst other h).2.2 hSource.symm
        · have hApart := hFirst turn hLater
          rw [hArrive turn hLater, Contents.pass,
            Function.update_of_ne hApart.2.2.symm,
            Function.update_of_ne hApart.1.symm]
      · intro q hNot
        have hNotFirst := hNot first List.mem_cons_self
        rw [hStay q fun turn h => hNot turn (List.mem_cons_of_mem _ h),
          Contents.pass, Function.update_of_ne hNotFirst.symm]
        by_cases hSource : first.1 = q
        · subst hSource
          have hOnce : ¬ ∃ turn ∈ turns, turn.1 = first.1 := by
            rintro ⟨turn, hTurn, hSame⟩
            exact (hFirst turn hTurn).1 hSame.symm
          simp [hOnce]
        · have hOther : q ≠ first.1 := fun h => hSource h.symm
          rw [Function.update_of_ne hOther]
          simp only [List.mem_cons, exists_eq_or_imp, hSource,
            false_or]

------------------------------------------------------------
-- Rectangles
------------------------------------------------------------

/-
  However the rectangles overlap, a transfer has an order in
  which no cell is lost.
-/
theorem inTurn_transferTurns (source : Rect) (dest : Point) :
    InTurn (transferTurns source dest) := by
  rw [InTurn, transferTurns, List.pairwise_map]
  refine (Rect.pairwise_points _).imp_of_mem ?_
  intro a b ha hb hOrder
  rw [Rect.mem_points, Rect.contains_whole, Size.contains_iff]
    at ha hb
  simp only [Point.add, ne_eq, Point.ext_iff, turnOffset]
  split <;> split <;> omega

/- The cell whose content a transfer takes to another cell. -/
def transferSource (source : Rect) (dest q : Point) : Point :=
  ⟨q.x + source.origin.x - dest.x, q.y + source.origin.y - dest.y⟩

theorem transferSource_turn
    {source : Rect}
    {dest q : Point}
    (hIn : Rect.contains ⟨dest, source.size⟩ q = true) :
    (transferSource source dest q, q) ∈ transferTurns source dest := by
  rw [Rect.contains_iff] at hIn
  dsimp only at hIn
  refine turn_mem_transferTurns ?_ ?_ ?_
  · rw [Rect.contains_iff]
    dsimp only [transferSource]
    omega
  · dsimp only [transferSource]
    omega
  · dsimp only [transferSource]
    omega

theorem turn_transferSource
    {source : Rect}
    {dest p : Point}
    (hIn : source.contains p = true) :
    (p, transferSource ⟨dest, source.size⟩ source.origin p) ∈
      transferTurns source dest := by
  have hSides := Rect.contains_iff.mp hIn
  refine turn_mem_transferTurns hIn ?_ ?_
  · dsimp only [transferSource]
    omega
  · dsimp only [transferSource]
    omega

theorem exists_turn_to_iff {source : Rect} {dest q : Point} :
    (∃ turn ∈ transferTurns source dest, turn.2 = q) ↔
      Rect.contains ⟨dest, source.size⟩ q = true := by
  constructor
  · rintro ⟨turn, hTurn, rfl⟩
    exact (mem_transferTurns hTurn).2.1
  · exact fun hIn => ⟨_, transferSource_turn hIn, rfl⟩

theorem exists_turn_from_iff {source : Rect} {dest p : Point} :
    (∃ turn ∈ transferTurns source dest, turn.1 = p) ↔
      source.contains p = true := by
  constructor
  · rintro ⟨turn, hTurn, rfl⟩
    exact (mem_transferTurns hTurn).1
  · exact fun hIn => ⟨_, turn_transferSource hIn, rfl⟩

section Handing

variable {m : CellMover α σ} {held : σ → Slot α}
variable {leave : Slot α → Slot α}
variable (hHands : m.Hands held)
variable {g : Grid α} (hSound : g.Sound)
variable {s : σ} (hFree : m.Free held s)

include hHands hSound hFree

/-
  The cells of a rectangle arrive all at once, and leave what
  the mover leaves.
-/
theorem get?_transferCells
    (hLeaves : m.Leaves leave)
    {source : Rect}
    (dest : Point)
    (hSource : source.OnSheet)
    (hDest : Rect.OnSheet ⟨dest, source.size⟩) :
    m.Free held (g.transferCells m source dest s).2 ∧
      ∀ q, (g.transferCells m source dest s).1.get? q =
        if Rect.contains ⟨dest, source.size⟩ q = true then
          g.get? (transferSource source dest q)
        else if source.contains q = true then
          leave (g.get? q)
        else
          g.get? q := by
  rcases
    hHands.get?_of_runs hLeaves
      (runs_transferCells m hSound source dest s).2
      (fun turn hTurn =>
        ⟨hSource _ (mem_transferTurns hTurn).1,
          hDest _ (mem_transferTurns hTurn).2.1⟩)
      hFree with
    ⟨hCells, hFree'⟩
  refine ⟨hFree', fun q => ?_⟩
  rcases
    foldl_pass leave (inTurn_transferTurns source dest) g.get? with
    ⟨hArrive, hStay⟩
  rw [hCells]
  by_cases hIn : Rect.contains ⟨dest, source.size⟩ q = true
  · rw [if_pos hIn]
    exact hArrive _ (transferSource_turn hIn)
  · rw [if_neg hIn, hStay q]
    · simp only [exists_turn_from_iff]
    · intro turn hTurn hEq
      exact hIn (exists_turn_to_iff.1 ⟨turn, hTurn, hEq⟩)

/-
  A cell is copied into all cells of a rectangle. It may lie in
  the rectangle, and is put into itself then.
-/
theorem get?_spreadCell
    (hCopies : m.Copies)
    {source : Point}
    {dest : Rect}
    (hSource : maxSize.contains source = true)
    (hDest : dest.OnSheet) :
    m.Free held (g.spreadCell m source dest s).2 ∧
      ∀ q, (g.spreadCell m source dest s).1.get? q =
        if dest.contains q = true then g.get? source
        else g.get? q := by
  rcases
    hHands.get?_of_runs hCopies.leaves
      (runs_spreadCell m hSound source dest s).2
      (fun turn hTurn => by
        rcases mem_spreadTurns hTurn with ⟨hFrom, hTo⟩
        exact ⟨hFrom ▸ hSource, hDest _ hTo⟩)
      hFree with
    ⟨hCells, hFree'⟩
  -- by induction on the cells, the source keeps its content
  have hAll :
      ∀ (l : List Point) (cells : Contents Point α) (q : Point),
        (l.map fun q => (source, q)).foldl (Contents.pass id)
            cells q =
          if q ∈ l then cells source else cells q := by
    intro l
    induction l with
    | nil => simp
    | cons p l ih =>
        intro cells q
        rw [List.map_cons, List.foldl_cons, ih]
        simp only [Contents.pass, id_eq, Function.update_eq_self,
          Function.update_apply, List.mem_cons]
        by_cases hFirst : q = p <;> simp [hFirst]
  refine ⟨hFree', fun q => ?_⟩
  rw [hCells, spreadTurns, hAll]
  simp only [Rect.mem_points]

end Handing

end Grid

end Spreadsheet
