import Spreadsheet.Grid.Tile

/-
  The cells of a sheet: a tree of tiles of three levels, and
  the size up to which the sheet has been used.

  Cells are changed by a visitor, which is given the content
  of one slot after another, or by a mover, which is given
  pairs of a source and a destination slot. What a visitor
  does not want is left out: slots in tiles that do not exist
  are not visited unless it wants to fill them.

  Key definitions include:
    * `Grid`
    * `CellVisitor`
    * `CellMover`
    * `Grid.get?`
    * `Grid.modifyCell`
    * `Grid.modifyCells`
-/

namespace Spreadsheet

------------------------------------------------------------
-- Visitors And Movers
------------------------------------------------------------

/-
  A change of cells, one at a time, with a state. It has
  something to do on empty slots if `wanted` holds.
-/
structure CellVisitor (α σ : Type) where
  wanted : σ → Bool
  visit : SlotVisit α σ

/-
  A change of pairs of cells. Each pair is announced, then
  the source is taken and put into the destination.
-/
structure CellMover (α σ : Type) where
  wantsSource : σ → Bool
  wantsDest : σ → Bool
  announce : Point → Point → σ → σ
  take : SlotVisit α σ
  put : SlotVisit α σ

namespace CellMover

variable {α σ : Type}

/- Take each visited cell, where there is one. -/
def source (m : CellMover α σ) : CellVisitor α σ :=
  ⟨m.wantsSource, m.take⟩

/- Put into each visited cell what was taken. -/
def dest (m : CellMover α σ) : CellVisitor α σ :=
  ⟨m.wantsDest, m.put⟩

/- Take cells away and put them nowhere. -/
def eraser (m : CellMover α σ) : CellVisitor α σ :=
  ⟨fun _ => false, m.take⟩

/- The mover has something to do where both cells are empty. -/
def wantsEither (m : CellMover α σ) (s : σ) : Bool :=
  m.wantsSource s || m.wantsDest s

end CellMover

------------------------------------------------------------
-- The Tile Tree
------------------------------------------------------------

/- Tiles whose slots hold cells. -/
abbrev LeafTile (α : Type) := Tile α

/- Tiles whose slots hold leaf tiles. -/
abbrev MiddleTile (α : Type) := Tile (LeafTile α)

/- The tile whose slots hold middle tiles. -/
abbrev TopTile (α : Type) := Tile (MiddleTile α)

/- Every cell counts once. -/
def cellWeight {α : Type} (_ : α) : Nat := 1

namespace LeafTile

variable {α σ : Type}

/- Visit a cell of a leaf tile. -/
def visitCell
    (v : CellVisitor α σ)
    (path : TilePath) : LeafTile α → σ → LeafTile α × σ :=
  Tile.visit cellWeight path.leaf v.visit

/- Visit the cells of a rectangle inside a leaf tile. -/
def visitCells
    (v : CellVisitor α σ)
    (r : Rect)
    (t : LeafTile α)
    (s : σ) : LeafTile α × σ :=
  r.fold
    (fun p (t, s) =>
      Tile.visit cellWeight (TileShape.leaf.index p.x p.y) v.visit
        t s)
    (t, s)

/- Take one cell of a leaf tile and put it into another. -/
def transfer
    (m : CellMover α σ)
    (source dest : TilePath) : LeafTile α → σ → LeafTile α × σ :=
  Tile.visitPair cellWeight source.leaf dest.leaf m.take m.put

end LeafTile

namespace MiddleTile

variable {α σ : Type}

/- Work on the leaf tile that a path leads to. -/
def inLeaf
    (wanted : σ → Bool)
    (path : TilePath)
    (work : LeafTile α → σ → LeafTile α × σ) :
    MiddleTile α → σ → MiddleTile α × σ :=
  Tile.visit Tile.count path.middle (Slot.inside wanted work)

/- Visit a cell beneath a middle tile. -/
def visitCell
    (v : CellVisitor α σ)
    (path : TilePath) : MiddleTile α → σ → MiddleTile α × σ :=
  inLeaf v.wanted path (LeafTile.visitCell v path)

/- Move a cell beneath a middle tile. -/
def transfer
    (m : CellMover α σ)
    (source dest : TilePath) : MiddleTile α → σ → MiddleTile α × σ :=
  if source.middle = dest.middle then
    inLeaf m.wantsEither source (LeafTile.transfer m source dest)
  else
    Tile.visitPair Tile.count source.middle dest.middle
      (Slot.inside m.wantsSource (LeafTile.visitCell m.source source))
      (Slot.inside m.wantsDest (LeafTile.visitCell m.dest dest))

end MiddleTile

namespace TopTile

variable {α σ : Type}

/- Work on the leaf tile that a path leads to. -/
def inLeaf
    (wanted : σ → Bool)
    (path : TilePath)
    (work : LeafTile α → σ → LeafTile α × σ) :
    TopTile α → σ → TopTile α × σ :=
  Tile.visit Tile.count path.top
    (Slot.inside wanted (MiddleTile.inLeaf wanted path work))

/- Visit a cell. -/
def visitCell
    (v : CellVisitor α σ)
    (path : TilePath) : TopTile α → σ → TopTile α × σ :=
  inLeaf v.wanted path (LeafTile.visitCell v path)

/- Move a cell. -/
def transfer
    (m : CellMover α σ)
    (source dest : TilePath) : TopTile α → σ → TopTile α × σ :=
  if source.top = dest.top then
    Tile.visit Tile.count source.top
      (Slot.inside m.wantsEither
        (MiddleTile.transfer m source dest))
  else
    Tile.visitPair Tile.count source.top dest.top
      (Slot.inside m.wantsSource
        (MiddleTile.visitCell m.source source))
      (Slot.inside m.wantsDest (MiddleTile.visitCell m.dest dest))

/- The content of a cell. -/
def get? (t : TopTile α) (path : TilePath) : Slot α := do
  let middle ← Tile.get? t path.top
  let leaf ← middle.get? path.middle
  leaf.get? path.leaf

/-
  The part of a rectangle from a point on that is worked on
  at once. It ends with the leaf tile, or with the middle
  tile if that is left out.
-/
def chunk
    (wanted : Bool)
    (t : TopTile α)
    (p : Point)
    (limit : Size) : Size :=
  let block :=
    if wanted || (Tile.get? t (TilePath.of p).top).isSome then
      leafSize
    else
      middleSize
  limit.inf (p.toBlockEnd block)

/-
  Visit the cells between two columns from a row on, one
  chunk after another. All chunks become as low as the lowest
  so far, which is returned.
-/
def visitBand
    (v : CellVisitor α σ)
    (stop y : Nat) :
    Nat → Nat → Nat → TopTile α × σ → Nat × TopTile α × σ
  | 0, _, height, ts => (height, ts)
  | fuel + 1, x, height, (t, s) =>
      if stop ≤ x then
        (height, t, s)
      else
        let p : Point := ⟨x, y⟩
        let c := chunk (v.wanted s) t p ⟨stop - x, height⟩
        let ts :=
          inLeaf v.wanted (TilePath.of p)
            (LeafTile.visitCells v ⟨p.within leafSize, c⟩) t s
        visitBand v stop y fuel (x + c.width) (min height c.height)
          ts

/- Visit the cells of a rectangle, one band after another. -/
def visitBands
    (v : CellVisitor α σ)
    (left : Nat)
    (stop : Point) :
    Nat → Nat → TopTile α × σ → TopTile α × σ
  | 0, _, ts => ts
  | fuel + 1, y, ts =>
      if stop.y ≤ y then
        ts
      else
        let (height, ts) :=
          visitBand v stop.x y (stop.x - left) left (stop.y - y) ts
        visitBands v left stop fuel (y + height) ts

end TopTile

------------------------------------------------------------
-- Grids
------------------------------------------------------------

/- The tile tree of a sheet, and the size that is in use. -/
structure Grid (α : Type) where
  top : Slot (TopTile α)
  size : Size

namespace Grid

variable {α σ : Type}

/- A sheet on which nothing has been done. -/
def empty : Grid α := ⟨none, Size.zero⟩

instance : Inhabited (Grid α) := ⟨empty⟩

/- The number of cells. -/
def count (g : Grid α) : Nat :=
  g.top.weight Tile.count

/- The content of the cell at a point. -/
def get? (g : Grid α) (p : Point) : Slot α :=
  if maxSize.contains p then
    g.top.bind (TopTile.get? · (TilePath.of p))
  else
    none

/- The sheet is used up to a size. -/
def expand (g : Grid α) (s : Size) : Grid α :=
  { g with size := g.size.sup s }

/- The sheet is used up to an index along one axis. -/
def expandAlong (g : Grid α) (axis : Axis) (n : Nat) : Grid α :=
  { g with size := g.size.setAlong axis (max (g.size.along axis) n) }

/-
  Work on the tile tree. It is made only if it is wanted, and
  dropped once it holds no cell.
-/
def inTop
    (wanted : σ → Bool)
    (work : TopTile α → σ → TopTile α × σ)
    (g : Grid α)
    (s : σ) : Grid α × σ :=
  let (top, s) := Slot.inside wanted work g.top s
  ({ g with top := top }, s)

/- Visit one cell, up to which the sheet is used then. -/
def modifyCell
    (v : CellVisitor α σ)
    (p : Point)
    (g : Grid α)
    (s : σ) : Grid α × σ :=
  (g.expand (p.toSize.add Size.one)).inTop v.wanted
    (TopTile.visitCell v (TilePath.of p)) s

/- Visit the cells of a rectangle. -/
def visitCells
    (v : CellVisitor α σ)
    (r : Rect)
    (g : Grid α)
    (s : σ) : Grid α × σ :=
  if r.isEmpty then
    (g, s)
  else
    g.inTop v.wanted
      (fun t s =>
        TopTile.visitBands v r.origin.x r.endPoint r.size.height
          r.origin.y (t, s))
      s

/-
  Visit the cells of a rectangle, up to which the sheet is
  used then.
-/
def modifyCells
    (v : CellVisitor α σ)
    (r : Rect)
    (g : Grid α)
    (s : σ) : Grid α × σ :=
  let (g, s) := g.visitCells v r s
  (g.expand r.endPoint.toSize, s)

end Grid

end Spreadsheet
