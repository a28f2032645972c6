import Spreadsheet.Grid.Transfer
import Spreadsheet.Proofs.Geometry
import Spreadsheet.Proofs.Grid.Script

/-
  The tile tree, seen as contents by key.

  A key is the way to a cell without names. Each operation of
  the tree on the cells at some paths follows the plan of the
  turns at their keys.

  Main declarations:
    * `CellMover.plan`
    * `CellMover.Lazy`
    * `TilePath.key`
    * `TopTile.performs_visitCell`
    * `TopTile.performs_transfer`
-/

namespace Spreadsheet

variable {α σ τ : Type}

------------------------------------------------------------
-- Movers
------------------------------------------------------------

namespace CellMover

variable {κ : Type}

/- A cell is taken and put elsewhere. -/
def plan (m : CellMover α σ) (source dest : κ) : Plan κ α σ :=
  [(source, m.source), (dest, m.dest)]

/- Where both cells are empty, both may be left out. -/
theorem follows_plan_of_idle
    [DecidableEq κ]
    {m : CellMover α σ}
    {s : σ}
    (hIdle : m.wantsEither s = false)
    (source dest : κ) :
    (m.plan source dest).Follows (.blank, s) (.blank, s) := by
  rw [wantsEither, Bool.or_eq_false_iff] at hIdle
  refine Plan.follows_of_idle ?_
  simp only [plan, List.forall_mem_cons]
  exact ⟨⟨rfl, hIdle.1⟩, ⟨rfl, hIdle.2⟩, by simp⟩

/-
  A mover does nothing to empty slots if it does not want
  them, and makes nothing up. It is ready before a cell is
  taken, and again after one was put.
-/
structure Lazy
    (m : CellMover α σ)
    (ready : σ → Prop) : Prop where
  ready_announce : ∀ p q s, ready s → ready (m.announce p q s)
  ready_put : ∀ slot s, ready (m.put slot s).2
  take_none :
    ∀ s, ready s → m.wantsSource s = false →
      m.take none s = (none, s)
  take_none_fst : ∀ s, (m.take none s).1 = none
  put_none :
    ∀ s, m.wantsDest s = false → m.put none s = (none, s)

/- A lazy mover takes and puts, whatever is left out. -/
theorem Lazy.eq_run
    [DecidableEq κ]
    {m : CellMover α σ}
    {ready : σ → Prop}
    (hLazy : m.Lazy ready)
    {source dest : κ}
    {before after : Contents κ α × σ}
    (hReady : ready before.2)
    (hFollows : (m.plan source dest).Follows before after) :
    after = Script.run [(source, m.take), (dest, m.put)] before := by
  rcases hFollows with - | ⟨hTake, hRest⟩
  rcases hRest with - | ⟨hPut, hNone⟩
  cases hNone
  have hTaken : _ = m.take (before.1 source) before.2 :=
    hTake.eq_visit (hLazy.take_none _ hReady)
  have hPlaced : _ = m.put _ _ := hPut.eq_visit (hLazy.put_none _)
  simp only [Script.run_cons, Script.run_nil, Script.visit,
    ← hTaken, ← hPlaced]

end CellMover

------------------------------------------------------------
-- Keys
------------------------------------------------------------

/- The slots on the way to a cell. -/
abbrev CellKey := Nat × Nat × Nat

/- The slots of a path. -/
def TilePath.key (path : TilePath) : CellKey :=
  (path.top, path.middle, path.leaf)

/- The slots on the way to the cell at a point. -/
def Point.key (p : Point) : CellKey :=
  (TilePath.of p).key

/- The numbers of the slots on the way to a point. -/
theorem Point.key_eq (p : Point) :
    p.key =
      (p.y / 2097152 * 16 + p.x / 4096,
        p.y % 2097152 / 2048 * 16 + p.x % 4096 / 256,
        p.y % 2048 * 256 + p.x % 256) := by
  simp [key, TilePath.key, TilePath.of, Point.slotIndex,
    Point.blockOf, Point.within, TileShape.index, TileShape.size,
    middleSize, leafSize, TileShape.top, TileShape.middle,
    TileShape.leaf, Size.one, Nat.shiftLeft_eq]

/- Different cells of the sheet have different keys. -/
theorem Point.eq_of_key_eq
    {p q : Point}
    (hFirst : maxSize.contains p = true)
    (hSecond : maxSize.contains q = true)
    (hKey : p.key = q.key) :
    p = q := by
  rw [key_eq, key_eq, Prod.mk.injEq, Prod.mk.injEq] at hKey
  rw [maxSize_eq, Size.contains_iff] at hFirst hSecond
  rcases hKey with ⟨hTop, hMiddle, hLeaf⟩
  dsimp only at hFirst hSecond
  ext <;> omega

------------------------------------------------------------
-- Leaf Tiles
------------------------------------------------------------

namespace LeafTile

/- Leaf tiles with exact counts. -/
def Good (t : LeafTile α) : Prop :=
  Tile.Sound cellWeight (fun _ => True) t

theorem shelf : Shelf (Good (α := α)) Tile.get? :=
  Shelf.leaf

theorem performs_visitCell
    (v : CellVisitor α σ)
    (path : TilePath)
    (s : σ) :
    Performs Good Tile.get? (visitCell v path) [(path.leaf, v)] s :=
  Tile.performs_visit_cell v path.leaf s

theorem performs_visitCells
    (v : CellVisitor α σ)
    (r : Rect)
    (s : σ) :
    Performs Good Tile.get? (visitCells v r)
      (Plan.each v
        (r.points.map fun p => TileShape.leaf.index p.x p.y)) s := by
  -- by induction on the cells, from any tile and state on
  have hAll :
      ∀ (l : List Point) (s : σ),
        Performs Good Tile.get?
          (fun t s =>
            l.foldl
              (fun (ts : LeafTile α × σ) p =>
                Tile.visit cellWeight
                  (TileShape.leaf.index p.x p.y) v.visit ts.1 ts.2)
              (t, s))
          (Plan.each v
            (l.map fun p => TileShape.leaf.index p.x p.y)) s := by
    intro l
    induction l with
    | nil => exact fun _ _ hGood => ⟨hGood, .nil⟩
    | cons p l ih =>
        intro s
        exact (Tile.performs_visit_cell v _ s).append ih
  intro t hGood
  have hFollows := hAll r.points s t hGood
  rw [visitCells, Rect.fold_eq_foldl]
  exact hFollows

theorem performs_transfer
    (m : CellMover α σ)
    (source dest : TilePath)
    (s : σ) :
    Performs Good Tile.get? (transfer m source dest)
      (m.plan source.leaf dest.leaf) s :=
  (Tile.performs_visit_cell m.source source.leaf s).append
    fun s => Tile.performs_visit_cell m.dest dest.leaf s

end LeafTile

------------------------------------------------------------
-- Middle Tiles
------------------------------------------------------------

namespace MiddleTile

/- Middle tiles with exact counts. -/
def Good (t : MiddleTile α) : Prop :=
  Tile.Sound Tile.count LeafTile.Good t

/- The cells beneath a middle tile. -/
def look (t : MiddleTile α) : Contents (Nat × Nat) α :=
  Tile.look Tile.get? t

theorem shelf : Shelf (Good (α := α)) look :=
  Shelf.above

theorem performs_inLeaf
    (wanted : σ → Bool)
    {work : LeafTile α → σ → LeafTile α × σ}
    {plan : Plan Nat α σ}
    {s : σ}
    (hWork : Performs LeafTile.Good Tile.get? work plan s)
    (hIdle : wanted s = false → plan.Follows (.blank, s) (.blank, s))
    (path : TilePath) :
    Performs Good look (inLeaf wanted path work)
      (plan.inside path.middle) s :=
  Performs.visit (Achieves.inside LeafTile.shelf wanted hWork hIdle)
    path.middle

theorem performs_visitCell
    (v : CellVisitor α σ)
    (path : TilePath)
    (s : σ) :
    Performs Good look (visitCell v path)
      [((path.middle, path.leaf), v)] s :=
  performs_inLeaf v.wanted (LeafTile.performs_visitCell v path s)
    (Plan.follows_single_of_idle path.leaf) path

theorem performs_transfer
    (m : CellMover α σ)
    (source dest : TilePath)
    (s : σ) :
    Performs Good look (transfer m source dest)
      (m.plan (source.middle, source.leaf) (dest.middle, dest.leaf))
      s := by
  intro t hGood
  by_cases hSame : source.middle = dest.middle
  · have hWork :=
      performs_inLeaf m.wantsEither
        (LeafTile.performs_transfer m source dest s)
        (fun hIdle => CellMover.follows_plan_of_idle hIdle _ _)
        source t hGood
    rw [transfer, if_pos hSame, ← hSame]
    exact hWork
  · rw [transfer, if_neg hSame]
    exact
      Performs.visitPair
        (Achieves.inside LeafTile.shelf _
          (LeafTile.performs_visitCell m.source source s)
          (Plan.follows_single_of_idle source.leaf))
        (fun s =>
          Achieves.inside LeafTile.shelf _
            (LeafTile.performs_visitCell m.dest dest s)
            (Plan.follows_single_of_idle dest.leaf))
        source.middle dest.middle t hGood

end MiddleTile

------------------------------------------------------------
-- The Top Tile
------------------------------------------------------------

namespace TopTile

/- Top tiles with exact counts. -/
def Good (t : TopTile α) : Prop :=
  Tile.Sound Tile.count MiddleTile.Good t

/- The cells beneath a top tile. -/
def look (t : TopTile α) : Contents CellKey α :=
  Tile.look MiddleTile.look t

theorem shelf : Shelf (Good (α := α)) look :=
  Shelf.above

theorem get?_eq_look (t : TopTile α) (path : TilePath) :
    t.get? path = t.look path.key := rfl

theorem performs_inLeaf
    (wanted : σ → Bool)
    {work : LeafTile α → σ → LeafTile α × σ}
    {plan : Plan Nat α σ}
    {s : σ}
    (hWork : Performs LeafTile.Good Tile.get? work plan s)
    (hIdle : wanted s = false → plan.Follows (.blank, s) (.blank, s))
    (path : TilePath) :
    Performs Good look (inLeaf wanted path work)
      ((plan.inside path.middle).inside path.top) s :=
  Performs.visit
    (Achieves.inside MiddleTile.shelf _
      (MiddleTile.performs_inLeaf wanted hWork hIdle path)
      fun h => (hIdle h).inside_blank path.middle)
    path.top

theorem performs_visitCell
    (v : CellVisitor α σ)
    (path : TilePath)
    (s : σ) :
    Performs Good look (visitCell v path) [(path.key, v)] s :=
  performs_inLeaf v.wanted (LeafTile.performs_visitCell v path s)
    (Plan.follows_single_of_idle path.leaf) path

theorem performs_transfer
    (m : CellMover α σ)
    (source dest : TilePath)
    (s : σ) :
    Performs Good look (transfer m source dest)
      (m.plan source.key dest.key) s := by
  intro t hGood
  by_cases hSame : source.top = dest.top
  · have hWork :=
      Performs.visit
        (Achieves.inside MiddleTile.shelf m.wantsEither
          (MiddleTile.performs_transfer m source dest s)
          (fun hIdle => CellMover.follows_plan_of_idle hIdle _ _))
        source.top t hGood
    rw [transfer, if_pos hSame, TilePath.key, TilePath.key, ← hSame]
    exact hWork
  · rw [transfer, if_neg hSame]
    exact
      Performs.visitPair
        (Achieves.inside MiddleTile.shelf _
          (MiddleTile.performs_visitCell m.source source s)
          (Plan.follows_single_of_idle _))
        (fun s =>
          Achieves.inside MiddleTile.shelf _
            (MiddleTile.performs_visitCell m.dest dest s)
            (Plan.follows_single_of_idle _))
        source.top dest.top t hGood

end TopTile

end Spreadsheet
