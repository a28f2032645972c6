import Spreadsheet.Grid.Basic

/-
  Moving and copying the cells of a grid, and shifting them
  when columns or rows are inserted or deleted.

  Cells are taken one at a time, from the side that the
  others move to, so that no cell is overwritten before it
  was taken.

  Key definitions include:
    * `Grid.transferCells`
    * `Grid.spreadCell`
    * `Grid.deleteBand`
    * `Grid.insertBand`
-/

namespace Spreadsheet

namespace Grid

variable {α σ : Type}

------------------------------------------------------------
-- Rectangles
------------------------------------------------------------

/-
  The offset along one side that comes at a given turn: from
  the front if cells move to the front, else from the back.
-/
def turnOffset (source dest length turn : Nat) : Nat :=
  if dest < source then turn else length - 1 - turn

/-
  Take every cell of a rectangle and put it into the
  rectangle of the same size at `dest`.
-/
def transferCells
    (m : CellMover α σ)
    (source : Rect)
    (dest : Point)
    (g : Grid α)
    (s : σ) : Grid α × σ :=
  if source.isEmpty then
    (g, s)
  else
    (g.expand (dest.toSize.add source.size)).inTop (fun _ => false)
      (fun t s =>
        (Rect.whole source.size).fold
          (fun turn (t, s) =>
            let offset : Size :=
              ⟨turnOffset source.origin.x dest.x
                  source.size.width turn.x,
                turnOffset source.origin.y dest.y
                  source.size.height turn.y⟩
            let p := source.origin.add offset
            let q := dest.add offset
            TopTile.transfer m (TilePath.of p) (TilePath.of q) t
              (m.announce p q s))
          (t, s))
      s

/- Take one cell for every cell of a rectangle. -/
def spreadCell
    (m : CellMover α σ)
    (source : Point)
    (dest : Rect)
    (g : Grid α)
    (s : σ) : Grid α × σ :=
  (g.expand dest.endPoint.toSize).inTop m.wantsEither
    (fun t s =>
      dest.fold
        (fun q (t, s) =>
          let s := m.announce source q s
          let (t, s) :=
            TopTile.visitCell m.source (TilePath.of source) t s
          TopTile.visitCell m.dest (TilePath.of q) t s)
        (t, s))
    s

------------------------------------------------------------
-- Columns And Rows
------------------------------------------------------------

/-
  Delete the `count` columns or rows from `i` on. Those after
  them move up, and the band that they leave is erased.
-/
def deleteBand
    (axis : Axis)
    (m : CellMover α σ)
    (i count : Nat)
    (g : Grid α)
    (s : σ) : Grid α × σ :=
  let extent := g.size.along axis
  if extent ≤ i ∨ count = 0 then
    (g, s)
  else
    let count := min count (extent - i)
    let shifted := extent - i - count
    let bounds := g.size
    let (g, s) :=
      if 0 < shifted then
        g.transferCells m (Rect.band axis (i + count) shifted bounds)
          (Point.zero.setAlong axis i) s
      else
        (g, s)
    let (g, s) :=
      if shifted < count then
        g.visitCells m.eraser
          (Rect.band axis (i + shifted) (count - shifted) bounds) s
      else
        (g, s)
    ({ g with size := bounds.setAlong axis (extent - count) }, s)

/-
  Insert `count` empty columns or rows before `i`. Those from
  `i` on move down.
-/
def insertBand
    (axis : Axis)
    (m : CellMover α σ)
    (i count : Nat)
    (g : Grid α)
    (s : σ) : Grid α × σ :=
  let extent := g.size.along axis
  let bounds := g.size
  let (g, s) :=
    if i < extent then
      g.transferCells m (Rect.band axis i (extent - i) bounds)
        (Point.zero.setAlong axis (i + count)) s
    else
      (g, s)
  ({ g with size := bounds.setAlong axis (max extent i + count) }, s)

end Grid

end Spreadsheet
