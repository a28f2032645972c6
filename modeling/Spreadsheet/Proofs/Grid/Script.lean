import Mathlib.Logic.Function.Basic
import Spreadsheet.Grid.Basic
import Spreadsheet.Proofs.Grid.Tile

/-
  Work on tiles, seen as visits of single cells.

  What a tile holds is a content for every key, and a key
  leads through the levels beneath the tile. Work on a tile
  follows a plan: a list of keys, each with the visitor of its
  cell. Each cell has its turn, in which it is visited; but an
  empty cell that the visitor does not want may be left out,
  so that no tile has to be made for it.

  Main declarations:
    * `Script.run`
    * `CellVisitor.Turn`
    * `Plan.Follows`
    * `Performs`
    * `Achieves.inside`
    * `Performs.visit`
-/

namespace Spreadsheet

variable {κ α β σ τ : Type}

------------------------------------------------------------
-- Scripts
------------------------------------------------------------

/- What all cells hold, by key. -/
abbrev Contents (κ α : Type) := κ → Slot α

/- Nothing anywhere. -/
def Contents.blank : Contents κ α :=
  fun _ => none

/- Visits of cells, in order. -/
abbrev Script (κ α σ : Type) := List (κ × SlotVisit α σ)

namespace Script

/- Visit the cell with a key. -/
def visit
    [DecidableEq κ]
    (cs : Contents κ α × σ)
    (entry : κ × SlotVisit α σ) : Contents κ α × σ :=
  (Function.update cs.1 entry.1 (entry.2 (cs.1 entry.1) cs.2).1,
    (entry.2 (cs.1 entry.1) cs.2).2)

/- Make all visits. -/
def run
    [DecidableEq κ]
    (script : Script κ α σ)
    (cs : Contents κ α × σ) : Contents κ α × σ :=
  script.foldl visit cs

@[simp] theorem run_nil
    [DecidableEq κ]
    (cs : Contents κ α × σ) :
    run [] cs = cs := rfl

@[simp] theorem run_cons
    [DecidableEq κ]
    (entry : κ × SlotVisit α σ)
    (script : Script κ α σ)
    (cs : Contents κ α × σ) :
    run (entry :: script) cs = run script (visit cs entry) := rfl

/- The same visit of several cells. -/
def each (f : SlotVisit α σ) (keys : List κ) : Script κ α σ :=
  keys.map fun k => (k, f)

@[simp] theorem each_nil (f : SlotVisit α σ) :
    each f ([] : List κ) = [] := rfl

@[simp] theorem each_cons
    (f : SlotVisit α σ)
    (k : κ)
    (keys : List κ) :
    each f (k :: keys) = (k, f) :: each f keys := rfl

/- A cell that no key leads to keeps its content. -/
theorem run_each_of_not_mem
    [DecidableEq κ]
    (f : SlotVisit α σ)
    {keys : List κ}
    {k : κ}
    (hOther : k ∉ keys)
    (cells : Contents κ α)
    (s : σ) :
    ((each f keys).run (cells, s)).1 k = cells k := by
  induction keys generalizing cells s with
  | nil => rfl
  | cons j keys ih =>
      rw [List.mem_cons, not_or] at hOther
      rw [each_cons, run_cons, visit, ih hOther.2]
      exact Function.update_of_ne hOther.1 _ _

/- Without a state, each cell is changed on its own. -/
theorem run_each_unit
    [DecidableEq κ]
    (f : SlotVisit α Unit)
    {keys : List κ}
    (hNodup : keys.Nodup)
    (cells : Contents κ α)
    (k : κ) :
    ((each f keys).run (cells, ())).1 k =
      if k ∈ keys then (f (cells k) ()).1 else cells k := by
  induction keys generalizing cells with
  | nil => simp
  | cons j keys ih =>
      rw [List.nodup_cons] at hNodup
      rw [each_cons, run_cons, visit, ih hNodup.2]
      by_cases hFirst : k = j
      · subst hFirst
        simp [hNodup.1]
      · simp [hFirst]

end Script

namespace Contents

/- The contents beneath one slot. -/
def beneath (cells : Contents (Nat × κ) α) (i : Nat) :
    Contents κ α :=
  fun k => cells (i, k)

/- Replace the contents beneath one slot. -/
def graft
    (cells : Contents (Nat × κ) α)
    (i : Nat)
    (new : Contents κ α) : Contents (Nat × κ) α :=
  fun k => if k.1 = i then new k.2 else cells k

theorem graft_beneath (cells : Contents (Nat × κ) α) (i : Nat) :
    cells.graft i (cells.beneath i) = cells := by
  funext k
  by_cases hSlot : k.1 = i
  · subst hSlot
    simp [graft, beneath]
  · simp [graft, hSlot]

theorem beneath_update
    [DecidableEq κ]
    (cells : Contents (Nat × κ) α)
    (i : Nat)
    (k : κ)
    (new : Slot α) :
    beneath (Function.update cells (i, k) new) i =
      Function.update (cells.beneath i) k new := by
  funext j
  by_cases hKey : j = k
  · subst hKey
    simp [beneath]
  · simp [beneath, hKey]

theorem graft_update
    [DecidableEq κ]
    (cells : Contents (Nat × κ) α)
    (i : Nat)
    (k : κ)
    (new : Slot α)
    (under : Contents κ α) :
    graft (Function.update cells (i, k) new) i under =
      cells.graft i under := by
  funext j
  by_cases hSlot : j.1 = i
  · simp [graft, hSlot]
  · have hOther : j ≠ (i, k) := fun h => hSlot (by rw [h])
    simp [graft, hSlot, hOther]

end Contents

------------------------------------------------------------
-- Turns
------------------------------------------------------------

/- The same visits as one that sees the whole state. -/
def Mirrors
    (view : σ → τ)
    (f : SlotVisit α σ)
    (f' : SlotVisit α τ) : Prop :=
  ∀ slot s, ((f slot s).1, view (f slot s).2) = f' slot (view s)

theorem mirrors_id (f : SlotVisit α σ) : Mirrors id f f :=
  fun _ _ => rfl

namespace CellVisitor

/-
  A slot has had its turn. It was visited, or it was left out
  because it is empty and the visitor has nothing to do there.
-/
def Turn
    (v : CellVisitor α σ)
    (before after : Slot α × σ) : Prop :=
  after = v.visit before.1 before.2 ∨
    before.1 = none ∧ v.wanted before.2 = false ∧ after = before

/- What a slot holds after its turn. -/
theorem Turn.fst_cases
    {v : CellVisitor α σ}
    {before after : Slot α × σ}
    (hTurn : v.Turn before after) :
    after.1 = (v.visit before.1 before.2).1 ∨
      before.1 = none ∧ after.1 = none := by
  rcases hTurn with rfl | ⟨hNone, -, rfl⟩
  · exact .inl rfl
  · exact .inr ⟨hNone, hNone⟩

/- A visitor that fills no slot where it is not wanted. -/
def Honest (v : CellVisitor α σ) : Prop :=
  ∀ s, v.wanted s = false → (v.visit none s).1 = none

theorem Turn.fst_eq_visit
    {v : CellVisitor α σ}
    (hHonest : v.Honest)
    {before after : Slot α × σ}
    (hTurn : v.Turn before after) :
    after.1 = (v.visit before.1 before.2).1 := by
  rcases hTurn with rfl | ⟨hNone, hUnwanted, rfl⟩
  · rfl
  · rw [hNone, hHonest _ hUnwanted]

/- A turn is a visit if leaving out makes no difference. -/
theorem Turn.eq_visit
    {v : CellVisitor α σ}
    {before after : Slot α × σ}
    (hTurn : v.Turn before after)
    (hIdle :
      v.wanted before.2 = false →
        v.visit none before.2 = (none, before.2)) :
    after = v.visit before.1 before.2 := by
  rcases hTurn with hVisit | ⟨hNone, hUnwanted, hSame⟩
  · exact hVisit
  · rw [hSame, hNone, hIdle hUnwanted, ← hNone]

/-
  A visitor does the given visit, and nothing to an empty
  slot if it does not want it.
-/
structure Lazy
    (v : CellVisitor α σ)
    (view : σ → τ)
    (f : SlotVisit α τ) : Prop where
  mirrors : Mirrors view v.visit f
  idle :
    ∀ s, v.wanted s = false → f none (view s) = (none, view s)

theorem Turn.eq_lazy
    {v : CellVisitor α σ}
    {view : σ → τ}
    {f : SlotVisit α τ}
    (hLazy : v.Lazy view f)
    {before after : Slot α × σ}
    (hTurn : v.Turn before after) :
    (after.1, view after.2) = f before.1 (view before.2) := by
  rcases hTurn with rfl | ⟨hNone, hIdle, rfl⟩
  · exact hLazy.mirrors _ _
  · rw [hNone, hLazy.idle _ hIdle]

end CellVisitor

------------------------------------------------------------
-- Plans
------------------------------------------------------------

/- Cells that are to have their turns, in order. -/
abbrev Plan (κ α σ : Type) := List (κ × CellVisitor α σ)

namespace Plan

/- The same visitor for several cells. -/
def each (v : CellVisitor α σ) (keys : List κ) : Plan κ α σ :=
  keys.map fun k => (k, v)

@[simp] theorem each_append
    (v : CellVisitor α σ)
    (first second : List κ) :
    each v (first ++ second) = each v first ++ each v second :=
  List.map_append

/- The plan for the content of one slot of a tile. -/
def inside (i : Nat) (plan : Plan κ α σ) : Plan (Nat × κ) α σ :=
  plan.map fun entry => ((i, entry.1), entry.2)

theorem inside_each
    (i : Nat)
    (v : CellVisitor α σ)
    (keys : List κ) :
    inside i (each v keys) = each v (keys.map fun k => (i, k)) := by
  simp [inside, each]

/- All cells of a plan have their turns. -/
inductive Follows [DecidableEq κ] :
    Plan κ α σ → Contents κ α × σ → Contents κ α × σ → Prop
  | nil {cs : Contents κ α × σ} : Follows [] cs cs
  | cons
      {k : κ}
      {v : CellVisitor α σ}
      {plan : Plan κ α σ}
      {before after : Contents κ α × σ}
      {new : Slot α}
      {s : σ}
      (hTurn : v.Turn (before.1 k, before.2) (new, s))
      (hRest : Follows plan (Function.update before.1 k new, s) after) :
      Follows ((k, v) :: plan) before after

variable [DecidableEq κ] {plan : Plan κ α σ}
variable {before between after : Contents κ α × σ}

theorem Follows.append
    {rest : Plan κ α σ}
    (hFirst : Follows plan before between)
    (hRest : Follows rest between after) :
    Follows (plan ++ rest) before after := by
  induction hFirst with
  | nil => exact hRest
  | cons hTurn _ ih => exact .cons hTurn (ih hRest)

/- Cells that are not wanted and empty may all be left out. -/
theorem follows_of_idle
    {cells : Contents κ α}
    {s : σ}
    (hIdle :
      ∀ entry ∈ plan,
        cells entry.1 = none ∧ entry.2.wanted s = false) :
    Follows plan (cells, s) (cells, s) := by
  induction plan with
  | nil => exact .nil
  | cons entry plan ih =>
      have hFirst := hIdle entry List.mem_cons_self
      refine .cons (.inr ⟨hFirst.1, hFirst.2, rfl⟩) ?_
      rw [Function.update_eq_self]
      exact ih fun e he => hIdle e (List.mem_cons_of_mem _ he)

theorem follows_single_of_idle
    {v : CellVisitor α σ}
    (k : κ)
    {s : σ}
    (hIdle : v.wanted s = false) :
    Follows [(k, v)] (.blank, s) (.blank, s) :=
  follows_of_idle <| by
    rw [List.forall_mem_singleton]
    exact ⟨rfl, hIdle⟩

theorem follows_each_of_idle
    {v : CellVisitor α σ}
    {keys : List κ}
    {cells : Contents κ α}
    {s : σ}
    (hNone : ∀ k ∈ keys, cells k = none)
    (hIdle : v.wanted s = false) :
    Follows (each v keys) (cells, s) (cells, s) := by
  refine follows_of_idle ?_
  rw [each, List.forall_mem_map]
  exact fun k hKey => ⟨hNone k hKey, hIdle⟩

/- Turns beneath one slot of a tile. -/
theorem Follows.inside
    (hFollows : Follows plan before after)
    (i : Nat)
    (cells : Contents (Nat × κ) α)
    (hBeneath : cells.beneath i = before.1) :
    Follows (plan.inside i) (cells, before.2)
      (cells.graft i after.1, after.2) := by
  induction hFollows generalizing cells with
  | nil =>
      rw [← hBeneath, Contents.graft_beneath]
      exact .nil
  | @cons k _ _ _ _ new _ hTurn _ ih =>
      have hCell : cells (i, k) = _ := congrFun hBeneath k
      have hRest :=
        ih (Function.update cells (i, k) new)
          (by rw [Contents.beneath_update, hBeneath])
      rw [Contents.graft_update] at hRest
      refine .cons ?_ hRest
      dsimp only
      rw [hCell]
      exact hTurn

theorem Follows.inside_blank
    {s : σ}
    (hIdle : Follows plan (.blank, s) (.blank, s))
    (i : Nat) :
    Follows (plan.inside i) (.blank, s) (.blank, s) := by
  have hInside := hIdle.inside i .blank rfl
  have hBlank :
      (Contents.blank : Contents (Nat × κ) α).graft i .blank =
        .blank :=
    Contents.graft_beneath _ i
  rwa [hBlank] at hInside

/- A cell that is not in the plan keeps its content. -/
theorem Follows.of_not_mem
    (hFollows : Follows plan before after)
    {k : κ}
    (hOther : ∀ entry ∈ plan, entry.1 ≠ k) :
    after.1 k = before.1 k := by
  induction hFollows with
  | nil => rfl
  | cons hTurn hRest ih =>
      rw [List.forall_mem_cons] at hOther
      rw [ih hOther.2]
      exact Function.update_of_ne (Ne.symm hOther.1) _ _

/- Only the cells of the plan may be filled. -/
theorem Follows.filled
    (hFollows : Follows plan before after)
    {k : κ}
    (hSome : after.1 k ≠ none) :
    before.1 k ≠ none ∨ ∃ entry ∈ plan, entry.1 = k := by
  by_cases hIn : ∃ entry ∈ plan, entry.1 = k
  · exact .inr hIn
  · left
    rwa [← hFollows.of_not_mem fun entry h hSame =>
      hIn ⟨entry, h, hSame⟩]

/- Each cell of the plan has its turn, in some state. -/
theorem Follows.turn_of_mem
    {v : CellVisitor α σ}
    {keys : List κ}
    (hFollows : Follows (each v keys) before after)
    (hNodup : keys.Nodup)
    {k : κ}
    (hIn : k ∈ keys) :
    ∃ s s', v.Turn (before.1 k, s) (after.1 k, s') := by
  induction keys generalizing before with
  | nil => cases hIn
  | cons j keys ih =>
      rw [List.nodup_cons] at hNodup
      rcases hFollows with - | ⟨hTurn, hRest⟩
      rcases List.mem_cons.mp hIn with rfl | hLater
      · have hStays := hRest.of_not_mem (k := k) (by
          rw [List.forall_mem_map]
          rintro _ hOther rfl
          exact hNodup.1 hOther)
        dsimp only at hStays
        rw [Function.update_self] at hStays
        rw [hStays]
        exact ⟨_, _, hTurn⟩
      · have hOther : k ≠ j := fun h => hNodup.1 (h ▸ hLater)
        rcases ih hRest hNodup.2 hLater with ⟨s, s', hTurn'⟩
        dsimp only at hTurn'
        rw [Function.update_of_ne hOther] at hTurn'
        exact ⟨s, s', hTurn'⟩

theorem Follows.turn_of_single
    {v : CellVisitor α σ}
    {k : κ}
    (hFollows : Follows [(k, v)] before after) :
    v.Turn (before.1 k, before.2) (after.1 k, after.2) := by
  rcases hFollows with - | ⟨hTurn, hRest⟩
  cases hRest
  dsimp only
  rw [Function.update_self]
  exact hTurn

/- A visitor that empties all slots leaves none filled. -/
theorem Follows.emptied
    {v : CellVisitor α σ}
    (hEmpties : ∀ slot s, (v.visit slot s).1 = none)
    {keys : List κ}
    (hFollows : Follows (each v keys) before after)
    {k : κ}
    (hGone : k ∈ keys ∨ before.1 k = none) :
    after.1 k = none := by
  induction keys generalizing before with
  | nil =>
      cases hFollows
      simpa using hGone
  | cons j keys ih =>
      rcases hFollows with - | ⟨hTurn, hRest⟩
      refine ih hRest ?_
      dsimp only
      by_cases hHere : k = j
      · subst hHere
        rw [Function.update_self]
        rcases hTurn.fst_cases with hVisit | ⟨-, hNone⟩
        · exact .inr (hVisit.trans (hEmpties _ _))
        · exact .inr hNone
      · rw [Function.update_of_ne hHere]
        simpa [hHere] using hGone

/- Turns of a lazy visitor are its visits. -/
theorem Follows.eq_run
    {v : CellVisitor α σ}
    {view : σ → τ}
    {f : SlotVisit α τ}
    (hLazy : v.Lazy view f)
    {keys : List κ}
    (hFollows : Follows (each v keys) before after) :
    (after.1, view after.2) =
      (Script.each f keys).run (before.1, view before.2) := by
  induction keys generalizing before with
  | nil =>
      cases hFollows
      rfl
  | cons k keys ih =>
      cases hFollows with
      | cons hTurn hRest =>
          have hVisit := hTurn.eq_lazy hLazy
          dsimp only at hVisit
          rw [ih hRest, Script.each_cons, Script.run_cons]
          dsimp only [Script.visit]
          rw [← hVisit]

theorem Follows.eq_visit
    {v : CellVisitor α σ}
    {view : σ → τ}
    {f : SlotVisit α τ}
    (hLazy : v.Lazy view f)
    {k : κ}
    (hFollows : Follows [(k, v)] before after) :
    (after.1, view after.2) =
      Script.visit (before.1, view before.2) (k, f) := by
  change Follows (each v [k]) before after at hFollows
  exact hFollows.eq_run hLazy

end Plan

------------------------------------------------------------
-- Work
------------------------------------------------------------

/-
  Work that keeps what is good changes contents as described,
  from a given state on.
-/
def Achieves
    (good : β → Prop)
    (look : β → Contents κ α)
    (work : β → σ → β × σ)
    (change : Contents κ α × σ → Contents κ α × σ → Prop)
    (s : σ) : Prop :=
  ∀ b, good b →
    good (work b s).1 ∧
      change (look b, s) (look (work b s).1, (work b s).2)

/- Work changes contents as a plan says. -/
def Performs
    [DecidableEq κ]
    (good : β → Prop)
    (look : β → Contents κ α)
    (work : β → σ → β × σ)
    (plan : Plan κ α σ)
    (s : σ) : Prop :=
  Achieves good look work plan.Follows s

/- Two works one after the other. -/
theorem Performs.append
    [DecidableEq κ]
    {good : β → Prop}
    {look : β → Contents κ α}
    {first second : β → σ → β × σ}
    {start rest : Plan κ α σ}
    {s : σ}
    (hFirst : Performs good look first start s)
    (hSecond : ∀ s, Performs good look second rest s) :
    Performs good look
      (fun b s => second (first b s).1 (first b s).2)
      (start ++ rest) s := by
  intro b hGood
  rcases hFirst b hGood with ⟨hGoodFirst, hStart⟩
  rcases hSecond (first b s).2 _ hGoodFirst with
    ⟨hGoodSecond, hRest⟩
  exact ⟨hGoodSecond, hStart.append hRest⟩

namespace Tile

/- The cells of a tile whose slots hold cells. -/
theorem performs_visit_cell
    (v : CellVisitor α σ)
    (i : Nat)
    (s : σ) :
    Performs (Sound cellWeight fun _ => True) get?
      (visit cellWeight i v.visit) [(i, v)] s := by
  intro t hSound
  refine ⟨hSound.put i fun _ _ => ⟨trivial, Nat.one_ne_zero⟩, ?_⟩
  have hCells :
      get? (visit cellWeight i v.visit t s).1 =
        Function.update t.get? i (v.visit (t.get? i) s).1 := by
    funext j
    by_cases hEq : j = i
    · subst hEq
      simp [visit, get?_put]
    · simp [visit, get?_put, hEq]
  refine .cons (.inl rfl) ?_
  rw [hCells]
  exact .nil

/- The cells beneath a tile. -/
def look
    (under : β → Contents κ α)
    (t : Tile β) : Contents (Nat × κ) α :=
  fun k => (t.get? k.1).bind (under · k.2)

end Tile

------------------------------------------------------------
-- Slots With Tiles
------------------------------------------------------------

/- The cells beneath a slot. -/
def Slot.look
    (under : β → Contents κ α)
    (slot : Slot β) : Contents κ α :=
  fun k => slot.bind (under · k)

/- A tile in a slot is good and holds a cell. -/
def Slot.Good
    (good : Tile β → Prop)
    (slot : Slot (Tile β)) : Prop :=
  ∀ t, slot = some t → good t ∧ t.count ≠ 0

/-
  The tiles of one level. A new tile is good, and no cell is
  beneath a good tile that counts none.
-/
structure Shelf
    (good : Tile β → Prop)
    (look : Tile β → Contents κ α) : Prop where
  good_empty : good .empty
  look_of_count_eq_zero :
    ∀ t, good t → t.count = 0 → look t = .blank

namespace Shelf

variable {good : Tile β → Prop} {look : Tile β → Contents κ α}

theorem look_empty (hShelf : Shelf good look) :
    look .empty = .blank :=
  hShelf.look_of_count_eq_zero _ hShelf.good_empty rfl

/- Tiles whose slots hold cells. -/
theorem leaf :
    Shelf (Tile.Sound (β := α) cellWeight fun _ => True)
      Tile.get? where
  good_empty := Tile.sound_empty
  look_of_count_eq_zero _ hSound hZero :=
    funext (hSound.count_eq_zero_iff.mp hZero)

/- Tiles whose slots hold tiles. -/
theorem above :
    Shelf (Tile.Sound Tile.count good) (Tile.look look) where
  good_empty := Tile.sound_empty
  look_of_count_eq_zero t hSound hZero := by
    funext k
    simp [Tile.look, Contents.blank,
      hSound.count_eq_zero_iff.mp hZero k.1]

end Shelf

section Levels

variable {good : Tile β → Prop} {look : Tile β → Contents κ α}
variable {s : σ}

/- Work on the tile in a slot. -/
theorem Achieves.inside
    (hShelf : Shelf good look)
    (wanted : σ → Bool)
    {work : Tile β → σ → Tile β × σ}
    {change : Contents κ α × σ → Contents κ α × σ → Prop}
    (hWork : Achieves good look work change s)
    (hIdle : wanted s = false → change (.blank, s) (.blank, s)) :
    Achieves (Slot.Good good) (Slot.look look)
      (Slot.inside wanted work) change s := by
  -- what is left of a tile that was worked on
  have hDone :
      ∀ t, good t →
        Slot.Good good
            (if (work t s).1.count = 0 then none
              else some (work t s).1) ∧
          change (look t, s)
            (Slot.look look
              (if (work t s).1.count = 0 then none
                else some (work t s).1),
              (work t s).2) := by
    intro t hGood
    rcases hWork t hGood with ⟨hKept, hChange⟩
    by_cases hZero : (work t s).1.count = 0
    · rw [hShelf.look_of_count_eq_zero _ hKept hZero] at hChange
      rw [if_pos hZero]
      exact ⟨fun _ h => by simp at h, hChange⟩
    · rw [if_neg hZero]
      refine ⟨?_, hChange⟩
      intro t' hEq
      cases hEq
      exact ⟨hKept, hZero⟩
  intro slot hSlot
  cases slot with
  | some t => exact hDone t (hSlot t rfl).1
  | none =>
      by_cases hWanted : wanted s = true
      · have hEmpty := hDone .empty hShelf.good_empty
        rw [hShelf.look_empty] at hEmpty
        simp only [Slot.inside, hWanted, if_pos]
        exact hEmpty
      · rw [Bool.not_eq_true] at hWanted
        simp only [Slot.inside, hWanted]
        exact ⟨hSlot, hIdle hWanted⟩

variable [DecidableEq κ] {plan : Plan κ α σ}

/- Work on one slot of a tile. -/
theorem Performs.visit
    {f : SlotVisit (Tile β) σ}
    (hWork : Performs (Slot.Good good) (Slot.look look) f plan s)
    (i : Nat) :
    Performs (Tile.Sound Tile.count good) (Tile.look look)
      (Tile.visit Tile.count i f) (plan.inside i) s := by
  intro t hSound
  have hSlot : Slot.Good good (t.get? i) := hSound.content i
  rcases hWork (t.get? i) hSlot with ⟨hGood, hFollows⟩
  refine ⟨hSound.put i hGood, ?_⟩
  have hCells :
      Tile.look look (Tile.visit Tile.count i f t s).1 =
        (Tile.look look t).graft i
          (Slot.look look (f (t.get? i) s).1) := by
    funext k
    by_cases hEq : k.1 = i
    · simp [Tile.look, Tile.visit, Tile.get?_put, Contents.graft,
        Slot.look, hEq]
    · simp [Tile.look, Tile.visit, Tile.get?_put, Contents.graft,
        hEq]
  rw [hCells]
  exact hFollows.inside i (Tile.look look t) rfl

/- Work on one slot of a tile and then on another one. -/
theorem Performs.visitPair
    {source dest : SlotVisit (Tile β) σ}
    {rest : Plan κ α σ}
    (hSource :
      Performs (Slot.Good good) (Slot.look look) source plan s)
    (hDest :
      ∀ s, Performs (Slot.Good good) (Slot.look look) dest rest s)
    (i j : Nat) :
    Performs (Tile.Sound Tile.count good) (Tile.look look)
      (Tile.visitPair Tile.count i j source dest)
      (plan.inside i ++ rest.inside j) s :=
  (hSource.visit i).append fun s => (hDest s).visit j

end Levels

end Spreadsheet
