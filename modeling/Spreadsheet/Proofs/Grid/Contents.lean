import Spreadsheet.Proofs.Grid.Bands

/-
  What operations of a grid do to the contents of its cells.

  On the sheet, the contents of a grid are a function from
  points to slots. Each operation changes this function cell
  by cell, whatever tiles there are.

  For every visitor, the cells have their turns as planned. For
  a lazy one, this is as good as visiting them all.

  Main declarations:
    * `Grid.Sound`
    * `Grid.follows_modifyCell`
    * `Grid.modifyCell_spec`
    * `Grid.follows_visitCells`
    * `Grid.visitCells_spec`
    * `CellMover.Carries`
    * `Grid.carries_transferCells`
    * `Grid.transferCells_spec`
    * `Grid.spreadCell_spec`
-/

namespace Spreadsheet

variable {α σ τ : Type}

------------------------------------------------------------
-- From Keys To Points
------------------------------------------------------------

/- All cells of a rectangle lie on the sheet. -/
def Rect.OnSheet (r : Rect) : Prop :=
  ∀ p, r.contains p = true → maxSize.contains p = true

/- So do those of a rectangle inside it. -/
theorem Rect.OnSheet.mono
    {r r' : Rect}
    (hOn : r.OnSheet)
    (hInside :
      (r.origin.x ≤ r'.origin.x ∧
          r'.origin.x + r'.size.width ≤ r.origin.x + r.size.width) ∧
        r.origin.y ≤ r'.origin.y ∧
          r'.origin.y + r'.size.height ≤
            r.origin.y + r.size.height) :
    r'.OnSheet := by
  intro p hIn
  refine hOn p ?_
  rw [Rect.contains_iff] at hIn ⊢
  omega

/- The contents by point that belong to contents by key. -/
def Contents.onSheet (cells : Contents CellKey α) :
    Contents Point α :=
  fun p => if maxSize.contains p then cells p.key else none

theorem Contents.onSheet_blank :
    (Contents.blank : Contents CellKey α).onSheet = .blank := by
  funext p
  simp [onSheet, blank]

/- One cell of the sheet gets a new content. -/
theorem Contents.onSheet_update
    (cells : Contents CellKey α)
    {p : Point}
    (hOn : maxSize.contains p = true)
    (new : Slot α) :
    Contents.onSheet (Function.update cells p.key new) =
      Function.update cells.onSheet p new := by
  funext q
  by_cases hSame : q = p
  · subst hSame
    simp [onSheet, hOn]
  · by_cases hSheet : maxSize.contains q = true
    · have hKey : q.key ≠ p.key := fun h =>
        hSame (Point.eq_of_key_eq hSheet hOn h)
      simp [onSheet, hSheet, hSame, hKey]
    · simp [onSheet, hSheet, hSame]

namespace Plan

/- The plan by key that belongs to a plan by point. -/
def keyed (plan : Plan Point α σ) : Plan CellKey α σ :=
  plan.map fun entry => (entry.1.key, entry.2)

theorem keyed_each (v : CellVisitor α σ) (l : List Point) :
    keyed (each v l) = each v (TopTile.keys l) := by
  simp [keyed, each, TopTile.keys]

/- On the sheet, turns by key are turns by point. -/
theorem Follows.onSheet
    (plan : Plan Point α σ)
    {before after : Contents CellKey α × σ}
    (hFollows : plan.keyed.Follows before after)
    (hOn : ∀ entry ∈ plan, maxSize.contains entry.1 = true) :
    plan.Follows (before.1.onSheet, before.2)
      (after.1.onSheet, after.2) := by
  induction plan generalizing before with
  | nil =>
      cases hFollows
      exact .nil
  | cons entry plan ih =>
      rw [List.forall_mem_cons] at hOn
      rcases hFollows with - | ⟨hTurn, hRest⟩
      have hLater := ih hRest hOn.2
      rw [Contents.onSheet_update _ hOn.1] at hLater
      refine .cons ?_ hLater
      dsimp only
      rw [Contents.onSheet, if_pos hOn.1]
      exact hTurn

end Plan

------------------------------------------------------------
-- Grids
------------------------------------------------------------

namespace Grid

/- The counts of all tiles are exact. -/
def Sound (g : Grid α) : Prop :=
  Slot.Good TopTile.Good g.top

/- The cells by key. -/
def look (g : Grid α) : Contents CellKey α :=
  Slot.look TopTile.look g.top

theorem get?_eq_onSheet (g : Grid α) :
    g.get? = g.look.onSheet := rfl

/- Only cells of the sheet have a content. -/
theorem get?_of_outside
    (g : Grid α)
    {p : Point}
    (hOutside : ¬ maxSize.contains p = true) :
    g.get? p = none := by
  rw [get?_eq_onSheet, Contents.onSheet, if_neg hOutside]

theorem sound_empty : (empty : Grid α).Sound := by
  intro t hEq
  simp [empty] at hEq

@[simp] theorem get?_empty (p : Point) :
    (empty : Grid α).get? p = none := by
  simp [get?, empty]

@[simp] theorem get?_expand (g : Grid α) (size : Size) :
    (g.expand size).get? = g.get? := rfl

@[simp] theorem get?_expandAlong
    (g : Grid α)
    (axis : Axis)
    (n : Nat) :
    (g.expandAlong axis n).get? = g.get? := rfl

theorem Sound.expand
    {g : Grid α}
    (hSound : g.Sound)
    (size : Size) :
    (g.expand size).Sound := hSound

theorem Sound.expandAlong
    {g : Grid α}
    (hSound : g.Sound)
    (axis : Axis)
    (n : Nat) :
    (g.expandAlong axis n).Sound := hSound

/- Work on the tile tree. -/
theorem inTop_spec
    (wanted : σ → Bool)
    {work : TopTile α → σ → TopTile α × σ}
    (change : Contents CellKey α × σ → Contents CellKey α × σ → Prop)
    {g : Grid α}
    {s : σ}
    (hSound : g.Sound)
    (hWork : Achieves TopTile.Good TopTile.look work change s)
    (hIdle : wanted s = false → change (.blank, s) (.blank, s)) :
    (g.inTop wanted work s).1.Sound ∧
      change (g.look, s)
        ((g.inTop wanted work s).1.look, (g.inTop wanted work s).2) :=
  Achieves.inside TopTile.shelf wanted hWork hIdle g.top hSound

@[simp] theorem size_inTop
    (wanted : σ → Bool)
    (work : TopTile α → σ → TopTile α × σ)
    (g : Grid α)
    (s : σ) :
    (g.inTop wanted work s).1.size = g.size := rfl

/- Every content lies in the part of the sheet in use. -/
def Within (g : Grid α) : Prop :=
  ∀ p, g.get? p ≠ none → g.size.contains p = true

theorem within_empty : (empty : Grid α).Within := by
  intro p hSome
  simp at hSome

/- The size in use grows with the contents. -/
theorem Within.grow
    {g g' : Grid α}
    (hWithin : g.Within)
    (hSize : g.size.Fits g'.size)
    (hNew :
      ∀ p, g'.get? p ≠ none →
        g.get? p ≠ none ∨ g'.size.contains p = true) :
    g'.Within := by
  intro p hSome
  rcases hNew p hSome with hOld | hIn
  · exact hSize.contains (hWithin p hOld)
  · exact hIn

------------------------------------------------------------
-- Single Cells
------------------------------------------------------------

variable {v : CellVisitor α σ} {view : σ → τ} {f : SlotVisit α τ}
variable {g : Grid α}

@[simp] theorem size_modifyCell
    (v : CellVisitor α σ)
    (p : Point)
    (g : Grid α)
    (s : σ) :
    (g.modifyCell v p s).1.size =
      g.size.sup (p.toSize.add Size.one) := rfl

/- One cell has its turn. -/
theorem follows_look_modifyCell
    (v : CellVisitor α σ)
    (hSound : g.Sound)
    (p : Point)
    (s : σ) :
    (g.modifyCell v p s).1.Sound ∧
      Plan.Follows [(p.key, v)] (g.look, s)
        ((g.modifyCell v p s).1.look, (g.modifyCell v p s).2) :=
  inTop_spec v.wanted _ (hSound.expand _)
    (TopTile.performs_visitCell v _ s)
    (Plan.follows_single_of_idle _)

theorem follows_modifyCell
    (v : CellVisitor α σ)
    (hSound : g.Sound)
    {p : Point}
    (hOn : maxSize.contains p = true)
    (s : σ) :
    Plan.Follows [(p, v)] (g.get?, s)
      ((g.modifyCell v p s).1.get?, (g.modifyCell v p s).2) :=
  (follows_look_modifyCell v hSound p s).2.onSheet [(p, v)]
    (by simpa using hOn)

theorem look_modifyCell
    (hLazy : v.Lazy view f)
    (hSound : g.Sound)
    (p : Point)
    (s : σ) :
    (g.modifyCell v p s).1.Sound ∧
      ((g.modifyCell v p s).1.look, view (g.modifyCell v p s).2) =
        Script.visit (g.look, view s) (p.key, f) := by
  rcases follows_look_modifyCell v hSound p s with ⟨hKept, hFollows⟩
  exact ⟨hKept, hFollows.eq_visit hLazy⟩

/- A cell of the sheet is visited. -/
theorem modifyCell_spec
    (hLazy : v.Lazy view f)
    (hSound : g.Sound)
    {p : Point}
    (hOn : maxSize.contains p = true)
    (s : σ) :
    (g.modifyCell v p s).1.Sound ∧
      ((g.modifyCell v p s).1.get?, view (g.modifyCell v p s).2) =
        Script.visit (g.get?, view s) (p, f) :=
  ⟨(follows_look_modifyCell v hSound p s).1,
    (follows_modifyCell v hSound hOn s).eq_visit hLazy⟩

/-
  Whatever point is visited, every cell either stays as it is
  or is the one that was visited.
-/
theorem get?_modifyCell_cases
    (hLazy : v.Lazy view f)
    (hSound : g.Sound)
    (p : Point)
    (s : σ)
    (q : Point) :
    (g.modifyCell v p s).1.get? q = g.get? q ∨
      maxSize.contains q = true ∧
        (g.modifyCell v p s).1.get? q =
          (f (g.get? q) (view s)).1 := by
  have hRun := (Prod.mk.inj (look_modifyCell hLazy hSound p s).2).1
  rw [get?_eq_onSheet, get?_eq_onSheet, hRun]
  by_cases hSheet : maxSize.contains q = true
  · by_cases hKey : q.key = p.key
    · right
      simp [Contents.onSheet, hSheet, hKey]
    · left
      simp [Contents.onSheet, hKey]
  · left
    simp [Contents.onSheet, hSheet]

theorem fits_size_modifyCell
    (v : CellVisitor α σ)
    (p : Point)
    (g : Grid α)
    (s : σ) :
    g.size.Fits (g.modifyCell v p s).1.size :=
  Size.fits_sup_left _ _

/- The cell that was visited lies in the part in use. -/
theorem contains_size_modifyCell
    (v : CellVisitor α σ)
    (p : Point)
    (g : Grid α)
    (s : σ) :
    (g.modifyCell v p s).1.size.contains p = true := by
  rw [size_modifyCell, Size.contains_iff]
  simp only [Size.sup, Size.add, Size.one, Point.toSize]
  omega

theorem Within.modifyCell
    (hLazy : v.Lazy view f)
    (hSound : g.Sound)
    (hWithin : g.Within)
    {p : Point}
    (hOn : maxSize.contains p = true)
    (s : σ) :
    (g.modifyCell v p s).1.Within := by
  refine hWithin.grow (fits_size_modifyCell v p g s) ?_
  intro q hSome
  have hRun := (Prod.mk.inj (modifyCell_spec hLazy hSound hOn s).2).1
  by_cases hSame : q = p
  · rw [hSame]
    exact Or.inr (contains_size_modifyCell v p g s)
  · left
    rw [hRun] at hSome
    simpa [hSame] using hSome

------------------------------------------------------------
-- Rectangles
------------------------------------------------------------

@[simp] theorem size_visitCells
    (v : CellVisitor α σ)
    (r : Rect)
    (g : Grid α)
    (s : σ) :
    (g.visitCells v r s).1.size = g.size := by
  rw [visitCells]
  split <;> rfl

@[simp] theorem size_modifyCells
    (v : CellVisitor α σ)
    (r : Rect)
    (g : Grid α)
    (s : σ) :
    (g.modifyCells v r s).1.size =
      g.size.sup r.endPoint.toSize := by
  simp [modifyCells, expand]

/- The cells of a rectangle have one turn each, in some order. -/
theorem follows_look_visitCells
    (v : CellVisitor α σ)
    (hSound : g.Sound)
    (r : Rect)
    (s : σ) :
    (g.visitCells v r s).1.Sound ∧
      ∃ l, r.Enumerates l ∧
        (Plan.each v (TopTile.keys l)).Follows (g.look, s)
          ((g.visitCells v r s).1.look, (g.visitCells v r s).2) := by
  by_cases hEmpty : r.isEmpty = true
  · rw [visitCells, if_pos hEmpty]
    refine ⟨hSound, [], ?_, .nil⟩
    rw [← Rect.points_eq_nil hEmpty]
    exact r.enumerates_points
  · have hWork :
        Achieves TopTile.Good TopTile.look
          (fun t s =>
            TopTile.visitBands v r.origin.x r.endPoint
              r.size.height r.origin.y (t, s))
          (fun before after =>
            ∃ l, r.Enumerates l ∧
              (Plan.each v (TopTile.keys l)).Follows before after)
          s := by
      intro t hGood
      have hEnd :
          r.endPoint =
            ⟨r.origin.x + r.size.width,
              r.origin.y + r.size.height⟩ := rfl
      have hVisits :=
        TopTile.visitBands_spec (v := v) r.origin.x r.endPoint
          r.size.height r.origin.y t s hGood
          (by rw [hEnd]; dsimp only; omega)
      rw [hEnd] at hVisits ⊢
      simp only [Nat.add_sub_cancel_left] at hVisits
      exact hVisits
    rw [visitCells, if_neg hEmpty]
    exact
      inTop_spec v.wanted _ hSound hWork fun hIdle =>
        ⟨r.points, r.enumerates_points,
          Plan.follows_each_of_idle (fun _ _ => rfl) hIdle⟩

theorem follows_visitCells
    (v : CellVisitor α σ)
    (hSound : g.Sound)
    {r : Rect}
    (hOn : r.OnSheet)
    (s : σ) :
    ∃ l, r.Enumerates l ∧
      (Plan.each v l).Follows (g.get?, s)
        ((g.visitCells v r s).1.get?, (g.visitCells v r s).2) := by
  rcases follows_look_visitCells v hSound r s with
    ⟨-, l, hList, hFollows⟩
  rw [← Plan.keyed_each] at hFollows
  refine ⟨l, hList, hFollows.onSheet _ ?_⟩
  rw [Plan.each, List.forall_mem_map]
  exact fun p hIn => hOn p ((hList.mem_iff p).mp hIn)

/- The cells of a rectangle are visited, in some order. -/
theorem visitCells_spec
    (hLazy : v.Lazy view f)
    (hSound : g.Sound)
    {r : Rect}
    (hOn : r.OnSheet)
    (s : σ) :
    (g.visitCells v r s).1.Sound ∧
      ∃ l, r.Enumerates l ∧
        ((g.visitCells v r s).1.get?,
            view (g.visitCells v r s).2) =
          (Script.each f l).run (g.get?, view s) := by
  rcases follows_visitCells v hSound hOn s with ⟨l, hList, hFollows⟩
  exact ⟨(follows_look_visitCells v hSound r s).1, l, hList,
    hFollows.eq_run hLazy⟩

theorem modifyCells_spec
    (hLazy : v.Lazy view f)
    (hSound : g.Sound)
    {r : Rect}
    (hOn : r.OnSheet)
    (s : σ) :
    (g.modifyCells v r s).1.Sound ∧
      ∃ l, r.Enumerates l ∧
        ((g.modifyCells v r s).1.get?,
            view (g.modifyCells v r s).2) =
          (Script.each f l).run (g.get?, view s) :=
  visitCells_spec hLazy hSound hOn s

end Grid

------------------------------------------------------------
-- Carrying
------------------------------------------------------------

namespace CellMover

variable {κ : Type} [DecidableEq κ]

/-
  Each turn is announced, and the content of one cell goes to
  another one.
-/
inductive Carries
    (m : CellMover α σ)
    (key : Point → κ) :
    List (Point × Point) →
      Contents κ α × σ → Contents κ α × σ → Prop
  | nil {cs : Contents κ α × σ} : Carries m key [] cs cs
  | cons
      {turn : Point × Point}
      {turns : List (Point × Point)}
      {before between after : Contents κ α × σ}
      (hTurn :
        (m.plan (key turn.1) (key turn.2)).Follows
          (before.1, m.announce turn.1 turn.2 before.2) between)
      (hRest : Carries m key turns between after) :
      Carries m key (turn :: turns) before after

/- A mover that makes nothing up. -/
def TakesOnly (m : CellMover α σ) : Prop :=
  ∀ s, (m.take none s).1 = none

variable {m : CellMover α σ} {key : Point → κ}
variable {turns : List (Point × Point)}
variable {before after : Contents κ α × σ}

theorem Lazy.takesOnly
    {ready : σ → Prop}
    (hLazy : m.Lazy ready) :
    m.TakesOnly :=
  hLazy.take_none_fst

/- Only the cell that is put into may be filled. -/
theorem TakesOnly.filled_of_plan
    (hTakes : m.TakesOnly)
    {source dest k : κ}
    (hFollows : (m.plan source dest).Follows before after)
    (hSome : after.1 k ≠ none) :
    before.1 k ≠ none ∨ dest = k := by
  by_cases hDest : dest = k
  · exact .inr hDest
  · refine .inl fun hNone => hSome ?_
    rcases hFollows with - | ⟨hTake, hPut⟩
    rw [hPut.of_not_mem (by simpa using hDest)]
    dsimp only
    by_cases hSource : k = source
    · subst hSource
      rw [Function.update_self]
      rcases hTake.fst_cases with hVisit | ⟨-, hNew⟩
      · dsimp only at hVisit
        rw [hVisit, hNone]
        exact hTakes _
      · exact hNew
    · rw [Function.update_of_ne hSource, hNone]

theorem TakesOnly.filled
    (hTakes : m.TakesOnly)
    (hCarries : m.Carries key turns before after)
    {k : κ}
    (hSome : after.1 k ≠ none) :
    before.1 k ≠ none ∨ ∃ turn ∈ turns, key turn.2 = k := by
  induction hCarries with
  | nil => exact .inl hSome
  | cons hTurn hRest ih =>
      rcases ih hSome with hOld | ⟨turn, hIn, hDest⟩
      · rcases hTakes.filled_of_plan hTurn hOld with hFirst | hHere
        · exact .inl hFirst
        · exact .inr ⟨_, List.mem_cons_self, hHere⟩
      · exact .inr ⟨turn, List.mem_cons_of_mem _ hIn, hDest⟩

/- The turns are taken, or none of them as there is no cell. -/
def Runs
    (m : CellMover α σ)
    (turns : List (Point × Point))
    (before after : Contents CellKey α × σ) : Prop :=
  m.Carries Point.key turns before after ∨
    before.1 = .blank ∧ after = before

/- Only cells that are put into may be filled. -/
theorem TakesOnly.filled_of_runs
    (hTakes : m.TakesOnly)
    {before after : Contents CellKey α × σ}
    (hRuns : m.Runs turns before after)
    {k : CellKey}
    (hSome : after.1 k ≠ none) :
    before.1 k ≠ none ∨ ∃ turn ∈ turns, turn.2.key = k := by
  rcases hRuns with hTurns | ⟨-, hSame⟩
  · exact hTakes.filled hTurns hSome
  · rw [hSame] at hSome
    exact .inl hSome

end CellMover

namespace Grid

/- Carry the content of one cell to another one. -/
def carry
    (m : CellMover α σ)
    (cs : Contents Point α × σ)
    (turn : Point × Point) : Contents Point α × σ :=
  Script.run [(turn.1, m.take), (turn.2, m.put)]
    (cs.1, m.announce turn.1 turn.2 cs.2)

/-
  All cells are carried, turn by turn. Where no cell has a
  content there may be no turn at all.
-/
def Carries
    (m : CellMover α σ)
    (turns : List (Point × Point))
    (before after : Contents Point α × σ) : Prop :=
  after = turns.foldl (carry m) before ∨
    before.1 = .blank ∧ after = before

variable {g : Grid α} {m : CellMover α σ} {ready : σ → Prop}
variable {turns : List (Point × Point)}

/- Turns of a lazy mover carry every cell. -/
theorem foldl_of_carries
    (hLazy : m.Lazy ready)
    {before after : Contents CellKey α × σ}
    (hCarries : m.Carries Point.key turns before after)
    (hOn :
      ∀ turn ∈ turns,
        maxSize.contains turn.1 = true ∧
          maxSize.contains turn.2 = true)
    (hReady : ready before.2) :
    ready after.2 ∧
      (after.1.onSheet, after.2) =
        turns.foldl (carry m) (before.1.onSheet, before.2) := by
  induction hCarries with
  | nil => exact ⟨hReady, rfl⟩
  | @cons turn turns before between after hTurn _ ih =>
      rw [List.forall_mem_cons] at hOn
      have hAnnounced :=
        hLazy.ready_announce turn.1 turn.2 before.2 hReady
      have hReady' : ready between.2 := by
        rw [hLazy.eq_run hAnnounced hTurn]
        exact hLazy.ready_put _ _
      have hPoints :=
        hTurn.onSheet (m.plan turn.1 turn.2)
          (by simpa [CellMover.plan] using hOn.1)
      have hCarry :
          carry m (before.1.onSheet, before.2) turn =
            (between.1.onSheet, between.2) :=
        (hLazy.eq_run hAnnounced hPoints).symm
      rw [List.foldl_cons, hCarry]
      exact ih hOn.2 hReady'

/- All turns, on the tile tree. -/
theorem carries_foldl
    {work : Point × Point → TopTile α → σ → TopTile α × σ}
    (hWork :
      ∀ turn s,
        Achieves TopTile.Good TopTile.look (work turn)
          (fun before after =>
            (m.plan turn.1.key turn.2.key).Follows
              (before.1, m.announce turn.1 turn.2 before.2) after)
          s)
    (turns : List (Point × Point))
    (s : σ) :
    Achieves TopTile.Good TopTile.look
      (fun t s =>
        turns.foldl (fun ts turn => work turn ts.1 ts.2) (t, s))
      (m.Carries Point.key turns) s := by
  induction turns generalizing s with
  | nil => exact fun t hGood => ⟨hGood, .nil⟩
  | cons turn turns ih =>
      intro t hGood
      rcases hWork turn s t hGood with ⟨hGood', hTurn⟩
      rcases ih (work turn t s).2 _ hGood' with ⟨hGood'', hRest⟩
      exact ⟨hGood'', .cons hTurn hRest⟩

/- All turns, on a grid. Without any cell there may be none. -/
theorem carries_inTop
    (work : Point × Point → TopTile α → σ → TopTile α × σ)
    (hWork :
      ∀ turn s,
        Achieves TopTile.Good TopTile.look (work turn)
          (fun before after =>
            (m.plan turn.1.key turn.2.key).Follows
              (before.1, m.announce turn.1 turn.2 before.2) after)
          s)
    (turns : List (Point × Point))
    (wanted : σ → Bool)
    (hSound : g.Sound)
    {s : σ}
    {after : Grid α × σ}
    (hAfter :
      g.inTop wanted
        (fun t s =>
          turns.foldl (fun ts turn => work turn ts.1 ts.2) (t, s))
        s = after) :
    after.1.Sound ∧
      m.Runs turns (g.look, s) (after.1.look, after.2) := by
  subst hAfter
  refine
    inTop_spec wanted (m.Runs turns) hSound ?_ fun _ =>
      .inr ⟨rfl, rfl⟩
  intro t hGood
  rcases carries_foldl hWork turns s t hGood with ⟨hKept, hCarries⟩
  exact ⟨hKept, .inl hCarries⟩

/- What turns by key do to the cells of the sheet. -/
theorem carries_of_runs
    (hLazy : m.Lazy ready)
    (hOn :
      ∀ turn ∈ turns,
        maxSize.contains turn.1 = true ∧
          maxSize.contains turn.2 = true)
    {s : σ}
    (hReady : ready s)
    {after : Grid α × σ}
    (hRuns : m.Runs turns (g.look, s) (after.1.look, after.2)) :
    ready after.2 ∧
      Carries m turns (g.get?, s) (after.1.get?, after.2) := by
  rcases hRuns with hTurns | ⟨hBlank, hSame⟩
  · rcases foldl_of_carries hLazy hTurns hOn hReady with
      ⟨hReady', hRun⟩
    exact ⟨hReady', .inl hRun⟩
  · rw [Prod.mk.injEq] at hSame
    dsimp only at hBlank
    rw [hSame.2]
    refine ⟨hReady, .inr ⟨?_, ?_⟩⟩
    · dsimp only
      rw [get?_eq_onSheet, hBlank, Contents.onSheet_blank]
    · rw [get?_eq_onSheet, get?_eq_onSheet, hSame.1]

/- Only cells of the sheet that are put into may be filled. -/
theorem filled_of_runs
    (hTakes : m.TakesOnly)
    (hOn : ∀ turn ∈ turns, maxSize.contains turn.2 = true)
    {s : σ}
    {after : Grid α × σ}
    (hRuns : m.Runs turns (g.look, s) (after.1.look, after.2))
    {q : Point}
    (hSome : after.1.get? q ≠ none) :
    g.get? q ≠ none ∨ ∃ turn ∈ turns, turn.2 = q := by
  by_cases hSheet : maxSize.contains q = true
  · rw [get?_eq_onSheet, Contents.onSheet, if_pos hSheet] at hSome ⊢
    rcases hTakes.filled_of_runs hRuns hSome with
      hOld | ⟨turn, hTurn, hKey⟩
    · exact .inl hOld
    · exact .inr ⟨turn, hTurn,
        Point.eq_of_key_eq (hOn turn hTurn) hSheet hKey⟩
  · exact absurd (after.1.get?_of_outside hSheet) hSome

/- The turns of a transfer, in order. -/
def transferTurns
    (source : Rect)
    (dest : Point) : List (Point × Point) :=
  (Rect.whole source.size).points.map fun turn =>
    let offset : Size :=
      ⟨turnOffset source.origin.x dest.x source.size.width turn.x,
        turnOffset source.origin.y dest.y source.size.height turn.y⟩
    (source.origin.add offset, dest.add offset)

/- The turns lead from one rectangle to the other. -/
theorem mem_transferTurns
    {source : Rect}
    {dest : Point}
    {turn : Point × Point}
    (hTurn : turn ∈ transferTurns source dest) :
    source.contains turn.1 = true ∧
      Rect.contains ⟨dest, source.size⟩ turn.2 = true ∧
      turn.2.x + source.origin.x = turn.1.x + dest.x ∧
      turn.2.y + source.origin.y = turn.1.y + dest.y := by
  rw [transferTurns, List.mem_map] at hTurn
  rcases hTurn with ⟨p, hIn, rfl⟩
  rw [Rect.mem_points, Rect.contains_iff] at hIn
  simp only [Rect.contains_iff, Rect.whole, Point.zero, Point.add,
    turnOffset] at hIn ⊢
  split <;> split <;> omega

/- Each cell of the rectangle has a turn. -/
theorem turn_mem_transferTurns
    {source : Rect}
    {dest p q : Point}
    (hIn : source.contains p = true)
    (hColumn : q.x + source.origin.x = p.x + dest.x)
    (hRow : q.y + source.origin.y = p.y + dest.y) :
    (p, q) ∈ transferTurns source dest := by
  rw [Rect.contains_iff] at hIn
  rw [transferTurns, List.mem_map]
  refine
    ⟨⟨turnOffset source.origin.x dest.x source.size.width
        (p.x - source.origin.x),
      turnOffset source.origin.y dest.y source.size.height
        (p.y - source.origin.y)⟩, ?_, ?_⟩
  · rw [Rect.mem_points, Rect.contains_whole, Size.contains_iff]
    simp only [turnOffset]
    split <;> split <;> omega
  · simp only [turnOffset, Point.add, Prod.mk.injEq, Point.ext_iff]
    split <;> split <;> omega

/- All turns of a transfer are taken. -/
theorem runs_transferCells
    (m : CellMover α σ)
    (hSound : g.Sound)
    (source : Rect)
    (dest : Point)
    (s : σ) :
    (g.transferCells m source dest s).1.Sound ∧
      m.Runs (transferTurns source dest) (g.look, s)
        ((g.transferCells m source dest s).1.look,
          (g.transferCells m source dest s).2) := by
  by_cases hEmpty : source.isEmpty = true
  · rw [transferCells, if_pos hEmpty]
    refine ⟨hSound, .inl ?_⟩
    rw [transferTurns,
      Rect.points_eq_nil (r := .whole source.size) hEmpty]
    exact .nil
  · refine
      carries_inTop
        (fun turn t s =>
          TopTile.transfer m (TilePath.of turn.1)
            (TilePath.of turn.2) t (m.announce turn.1 turn.2 s))
        (fun turn s t hGood =>
          TopTile.performs_transfer m _ _ _ t hGood)
        _ (fun _ => false)
        (hSound.expand (dest.toSize.add source.size)) ?_
    rw [transferCells, if_neg hEmpty]
    simp only [Rect.fold_eq_foldl, transferTurns, List.foldl_map]

/- Every cell of a rectangle is moved or copied. -/
theorem transferCells_spec
    (hLazy : m.Lazy ready)
    (hSound : g.Sound)
    {source : Rect}
    {dest : Point}
    (hSource : source.OnSheet)
    (hDest : Rect.OnSheet ⟨dest, source.size⟩)
    {s : σ}
    (hReady : ready s) :
    (g.transferCells m source dest s).1.Sound ∧
      ready (g.transferCells m source dest s).2 ∧
      Carries m (transferTurns source dest) (g.get?, s)
        ((g.transferCells m source dest s).1.get?,
          (g.transferCells m source dest s).2) := by
  rcases runs_transferCells m hSound source dest s with
    ⟨hKept, hRuns⟩
  refine ⟨hKept, carries_of_runs hLazy (fun turn hTurn => ?_)
    hReady hRuns⟩
  rcases mem_transferTurns hTurn with ⟨hFrom, hTo, -⟩
  exact ⟨hSource _ hFrom, hDest _ hTo⟩

@[simp] theorem size_transferCells
    (m : CellMover α σ)
    (source : Rect)
    (dest : Point)
    (g : Grid α)
    (s : σ) :
    (g.transferCells m source dest s).1.size =
      if source.isEmpty = true then g.size
      else g.size.sup (dest.toSize.add source.size) := by
  rw [transferCells]
  split <;> rfl

/- The cells that are put into lie in the part in use. -/
theorem contains_size_transferCells
    {source : Rect}
    (hSome : ¬ source.isEmpty = true)
    {dest : Point}
    {turn : Point × Point}
    (hTurn : turn ∈ transferTurns source dest)
    (m : CellMover α σ)
    (g : Grid α)
    (s : σ) :
    (g.transferCells m source dest s).1.size.contains turn.2 =
      true := by
  have hIn := (mem_transferTurns hTurn).2.1
  rw [Rect.contains_iff] at hIn
  rw [size_transferCells, if_neg hSome, Size.contains_iff]
  dsimp only at hIn
  simp only [Size.sup, Size.add, Point.toSize]
  omega

theorem Within.transferCells
    (hTakes : m.TakesOnly)
    (hSound : g.Sound)
    (hWithin : g.Within)
    {source : Rect}
    {dest : Point}
    (hDest : Rect.OnSheet ⟨dest, source.size⟩)
    (s : σ) :
    (g.transferCells m source dest s).1.Within := by
  have hRuns := (runs_transferCells m hSound source dest s).2
  by_cases hEmpty : source.isEmpty = true
  · rw [Grid.transferCells, if_pos hEmpty]
    exact hWithin
  · refine hWithin.grow ?_ fun q hSome => ?_
    · rw [size_transferCells, if_neg hEmpty]
      exact Size.fits_sup_left _ _
    · rcases
        filled_of_runs hTakes
          (fun turn hTurn => hDest _ (mem_transferTurns hTurn).2.1)
          hRuns hSome with
        hOld | ⟨turn, hTurn, rfl⟩
      · exact .inl hOld
      · exact .inr (contains_size_transferCells hEmpty hTurn m g s)

/- The turns in which a cell is copied all over a rectangle. -/
def spreadTurns
    (source : Point)
    (dest : Rect) : List (Point × Point) :=
  dest.points.map fun q => (source, q)

/- All turns are taken. -/
theorem runs_spreadCell
    (m : CellMover α σ)
    (hSound : g.Sound)
    (source : Point)
    (dest : Rect)
    (s : σ) :
    (g.spreadCell m source dest s).1.Sound ∧
      m.Runs (spreadTurns source dest) (g.look, s)
        ((g.spreadCell m source dest s).1.look,
          (g.spreadCell m source dest s).2) := by
  refine
    carries_inTop
      (fun turn t s =>
        let ts :=
          TopTile.visitCell m.source (TilePath.of turn.1) t
            (m.announce turn.1 turn.2 s)
        TopTile.visitCell m.dest (TilePath.of turn.2) ts.1 ts.2)
      (fun turn s t hGood => ?_) _ m.wantsEither
      (hSound.expand dest.endPoint.toSize) ?_
  · exact
      Performs.append
        (TopTile.performs_visitCell m.source (TilePath.of turn.1)
          (m.announce turn.1 turn.2 s))
        (fun s =>
          TopTile.performs_visitCell m.dest (TilePath.of turn.2) s)
        t hGood
  · rw [spreadCell]
    simp only [Rect.fold_eq_foldl, spreadTurns, List.foldl_map]

theorem mem_spreadTurns
    {source : Point}
    {dest : Rect}
    {turn : Point × Point}
    (hTurn : turn ∈ spreadTurns source dest) :
    turn.1 = source ∧ dest.contains turn.2 = true := by
  rw [spreadTurns, List.mem_map] at hTurn
  rcases hTurn with ⟨q, hIn, rfl⟩
  exact ⟨rfl, Rect.mem_points.mp hIn⟩

/- A cell is copied into every cell of a rectangle. -/
theorem spreadCell_spec
    (hLazy : m.Lazy ready)
    (hSound : g.Sound)
    {source : Point}
    {dest : Rect}
    (hSource : maxSize.contains source = true)
    (hDest : dest.OnSheet)
    {s : σ}
    (hReady : ready s) :
    (g.spreadCell m source dest s).1.Sound ∧
      ready (g.spreadCell m source dest s).2 ∧
      Carries m (spreadTurns source dest) (g.get?, s)
        ((g.spreadCell m source dest s).1.get?,
          (g.spreadCell m source dest s).2) := by
  rcases runs_spreadCell m hSound source dest s with ⟨hKept, hRuns⟩
  refine ⟨hKept, carries_of_runs hLazy (fun turn hTurn => ?_)
    hReady hRuns⟩
  rcases mem_spreadTurns hTurn with ⟨hFrom, hTo⟩
  exact ⟨hFrom ▸ hSource, hDest _ hTo⟩

@[simp] theorem size_spreadCell
    (m : CellMover α σ)
    (source : Point)
    (dest : Rect)
    (g : Grid α)
    (s : σ) :
    (g.spreadCell m source dest s).1.size =
      g.size.sup dest.endPoint.toSize := rfl

theorem contains_size_spreadCell
    {source : Point}
    {dest : Rect}
    {turn : Point × Point}
    (hTurn : turn ∈ spreadTurns source dest)
    (m : CellMover α σ)
    (g : Grid α)
    (s : σ) :
    (g.spreadCell m source dest s).1.size.contains turn.2 =
      true := by
  have hIn := (mem_spreadTurns hTurn).2
  rw [Rect.contains_iff] at hIn
  rw [size_spreadCell, Size.contains_iff]
  simp only [Size.sup, Rect.endPoint, Point.add, Point.toSize]
  omega

theorem Within.spreadCell
    (hTakes : m.TakesOnly)
    (hSound : g.Sound)
    (hWithin : g.Within)
    (source : Point)
    {dest : Rect}
    (hDest : dest.OnSheet)
    (s : σ) :
    (g.spreadCell m source dest s).1.Within := by
  have hRuns := (runs_spreadCell m hSound source dest s).2
  refine hWithin.grow ?_ fun q hSome => ?_
  · rw [size_spreadCell]
    exact Size.fits_sup_left _ _
  · rcases
      filled_of_runs hTakes
        (fun turn hTurn => hDest _ (mem_spreadTurns hTurn).2) hRuns
        hSome with
      hOld | ⟨turn, hTurn, rfl⟩
    · exact .inl hOld
    · exact .inr (contains_size_spreadCell hTurn m g s)

/- The cells that were visited lie in the part in use. -/
theorem contains_size_modifyCells
    {r : Rect}
    {p : Point}
    (hIn : r.contains p = true)
    (v : CellVisitor α σ)
    (g : Grid α)
    (s : σ) :
    (g.modifyCells v r s).1.size.contains p = true := by
  rw [Rect.contains_iff] at hIn
  rw [size_modifyCells, Size.contains_iff]
  simp only [Size.sup, Rect.endPoint, Point.add, Point.toSize]
  omega

theorem Within.modifyCells
    (hLazy : v.Lazy view f)
    (hSound : g.Sound)
    (hWithin : g.Within)
    {r : Rect}
    (hOn : r.OnSheet)
    (s : σ) :
    (g.modifyCells v r s).1.Within := by
  rcases modifyCells_spec hLazy hSound hOn s with
    ⟨-, l, hList, hRun⟩
  have hCells := congrArg Prod.fst hRun
  dsimp only at hCells
  refine
    hWithin.grow
      (by rw [size_modifyCells]; exact Size.fits_sup_left _ _) ?_
  intro q hSome
  by_cases hIn : q ∈ l
  · right
    exact contains_size_modifyCells ((hList.mem_iff q).mp hIn) v g s
  · left
    rwa [hCells, Script.run_each_of_not_mem _ hIn] at hSome

end Grid

end Spreadsheet
