/-
  Positions, extents and rectangles of a sheet.

  Columns are counted along `x` and rows along `y`, both
  from zero. Every coordinate of a sheet lies below the
  matching side of `maxSize`, which is fixed by the shapes
  of the tiles that the cell grid is made of.

  Key definitions include:
    * `Axis`
    * `Point`
    * `Size`
    * `Rect`
    * `maxSize`
-/

namespace Spreadsheet

------------------------------------------------------------
-- Axes
------------------------------------------------------------

/- The two directions in which a sheet is divided into bands. -/
inductive Axis where
  | columns
  | rows
deriving DecidableEq, Repr, Inhabited

/- The other direction. -/
def Axis.cross : Axis → Axis
  | .columns => .rows
  | .rows => .columns

------------------------------------------------------------
-- Points
------------------------------------------------------------

/- A position, by column and row. -/
structure Point where
  x : Nat
  y : Nat
deriving DecidableEq, Repr, Inhabited

namespace Point

/- The upper left corner of a sheet. -/
def zero : Point := ⟨0, 0⟩

/- The coordinate along one axis. -/
def along (p : Point) : Axis → Nat
  | .columns => p.x
  | .rows => p.y

/- The point whose coordinate along one axis is replaced. -/
def setAlong (p : Point) (axis : Axis) (i : Nat) : Point :=
  match axis with
  | .columns => { p with x := i }
  | .rows => { p with y := i }

/- Points are written `(x, y)`. -/
def text (p : Point) : String :=
  "(" ++ toString p.x ++ ", " ++ toString p.y ++ ")"

end Point

------------------------------------------------------------
-- Sizes
------------------------------------------------------------

/- The extent of a rectangle, in columns and rows. -/
structure Size where
  width : Nat
  height : Nat
deriving DecidableEq, Repr, Inhabited

namespace Size

/- The extent of nothing. -/
def zero : Size := ⟨0, 0⟩

/- The extent of a single cell. -/
def one : Size := ⟨1, 1⟩

/- The side along one axis. -/
def along (s : Size) : Axis → Nat
  | .columns => s.width
  | .rows => s.height

/- The size whose side along one axis is replaced. -/
def setAlong (s : Size) (axis : Axis) (n : Nat) : Size :=
  match axis with
  | .columns => { s with width := n }
  | .rows => { s with height := n }

/- A size without columns or without rows covers no cell. -/
def isEmpty (s : Size) : Bool :=
  s.width == 0 || s.height == 0

/- The number of cells covered. -/
def area (s : Size) : Nat :=
  s.width * s.height

/- The larger of two sizes, side by side. -/
def sup (s t : Size) : Size :=
  ⟨max s.width t.width, max s.height t.height⟩

/- The smaller of two sizes, side by side. -/
def inf (s t : Size) : Size :=
  ⟨min s.width t.width, min s.height t.height⟩

/- A size, laid at the upper left corner, covers a point. -/
def contains (s : Size) (p : Point) : Bool :=
  p.x < s.width && p.y < s.height

/- Sizes are written `WxH`. -/
def text (s : Size) : String :=
  toString s.width ++ "x" ++ toString s.height

end Size

namespace Point

/- The extent that ends just before a point. -/
def toSize (p : Point) : Size :=
  ⟨p.x, p.y⟩

/- Move right and down by a size. -/
def add (p : Point) (s : Size) : Point :=
  ⟨p.x + s.width, p.y + s.height⟩

/- Move left and up by a size. -/
def sub (p : Point) (s : Size) : Point :=
  ⟨p.x - s.width, p.y - s.height⟩

/- The size that leads from `q` to `p`. -/
def diff (p q : Point) : Size :=
  ⟨p.x - q.x, p.y - q.y⟩

end Point

/- The point that a size ends just before. -/
def Size.toPoint (s : Size) : Point :=
  ⟨s.width, s.height⟩

/- Side by side sum of two sizes. -/
def Size.add (s t : Size) : Size :=
  ⟨s.width + t.width, s.height + t.height⟩

------------------------------------------------------------
-- Rectangles
------------------------------------------------------------

/- The cells from `origin` on, as far as `size` reaches. -/
structure Rect where
  origin : Point
  size : Size
deriving DecidableEq, Repr, Inhabited

namespace Rect

/- A rectangle from its four numbers. -/
def of (x y width height : Nat) : Rect :=
  ⟨⟨x, y⟩, ⟨width, height⟩⟩

/- The rectangle of one cell. -/
def single (p : Point) : Rect :=
  ⟨p, Size.one⟩

/- The rectangle of a whole sheet of a given size. -/
def whole (s : Size) : Rect :=
  ⟨Point.zero, s⟩

/- The smallest rectangle that covers both corners. -/
def spanning (a b : Point) : Rect :=
  ⟨⟨min a.x b.x, min a.y b.y⟩,
    ⟨max a.x b.x - min a.x b.x + 1,
      max a.y b.y - min a.y b.y + 1⟩⟩

/- The point just past the lower right corner. -/
def endPoint (r : Rect) : Point :=
  r.origin.add r.size

/- A rectangle without columns or rows covers no cell. -/
def isEmpty (r : Rect) : Bool :=
  r.size.isEmpty

/- A rectangle covers a point. -/
def contains (r : Rect) (p : Point) : Bool :=
  r.origin.x ≤ p.x && r.origin.y ≤ p.y &&
    p.x - r.origin.x < r.size.width &&
    p.y - r.origin.y < r.size.height

/- The cells that two rectangles share, if there are any. -/
def intersection (r s : Rect) : Option Rect :=
  let x₀ := max r.origin.x s.origin.x
  let y₀ := max r.origin.y s.origin.y
  let x₁ := min r.endPoint.x s.endPoint.x
  let y₁ := min r.endPoint.y s.endPoint.y
  if x₀ < x₁ ∧ y₀ < y₁ then
    some (of x₀ y₀ (x₁ - x₀) (y₁ - y₀))
  else
    none

/-
  The `count` columns or rows from `start` on, in a sheet of
  a given size.
-/
def band (axis : Axis) (start count : Nat) (bounds : Size) : Rect :=
  match axis with
  | .columns => of start 0 count bounds.height
  | .rows => of 0 start bounds.width count

/- The cells of a rectangle, row by row. -/
def points (r : Rect) : List Point :=
  (List.range r.size.height).flatMap fun dy =>
    (List.range r.size.width).map fun dx =>
      ⟨r.origin.x + dx, r.origin.y + dy⟩

/- Run through `count` indices from `start` on. -/
def foldIndices
    {τ : Type}
    (f : Nat → τ → τ) : Nat → Nat → τ → τ
  | 0, _, t => t
  | count + 1, start, t => foldIndices f count (start + 1) (f start t)

/- Run through the cells of a rectangle, row by row. -/
def fold
    {τ : Type}
    (r : Rect)
    (f : Point → τ → τ)
    (t : τ) : τ :=
  foldIndices
    (fun y =>
      foldIndices (fun x => f ⟨x, y⟩) r.size.width r.origin.x)
    r.size.height r.origin.y t

/-
  Run through `count` indices from `start` on, as long as no
  step ends the run.
-/
def foldIndicesUntil
    {ε τ : Type}
    (f : Nat → τ → Except ε τ) : Nat → Nat → τ → Except ε τ
  | 0, _, t => .ok t
  | count + 1, start, t =>
      match f start t with
      | .ok t => foldIndicesUntil f count (start + 1) t
      | .error e => .error e

/-
  Run through the cells of a rectangle, row by row, as long
  as no step ends the run.
-/
def foldUntil
    {ε τ : Type}
    (r : Rect)
    (f : Point → τ → Except ε τ)
    (t : τ) : Except ε τ :=
  foldIndicesUntil
    (fun y =>
      foldIndicesUntil (fun x => f ⟨x, y⟩) r.size.width r.origin.x)
    r.size.height r.origin.y t

/- One of `count` indices from `start` on passes a test. -/
def anyIndex (f : Nat → Bool) : Nat → Nat → Bool
  | 0, _ => false
  | count + 1, start => f start || anyIndex f count (start + 1)

/- One of the cells of a rectangle passes a test. -/
def any (r : Rect) (f : Point → Bool) : Bool :=
  anyIndex
    (fun y =>
      anyIndex (fun x => f ⟨x, y⟩) r.size.width r.origin.x)
    r.size.height r.origin.y

/- Rectangles are written `(x, y)+WxH`. -/
def text (r : Rect) : String :=
  r.origin.text ++ "+" ++ r.size.text

end Rect

------------------------------------------------------------
-- Limits
------------------------------------------------------------

/- How many bits of each coordinate select a tile's slot. -/
structure TileShape where
  columnBits : Nat
  rowBits : Nat
deriving DecidableEq, Repr

namespace TileShape

/- The shape of the top tile, whose slots hold middle tiles. -/
def top : TileShape := ⟨4, 10⟩

/- The shape of a middle tile, whose slots hold leaf tiles. -/
def middle : TileShape := ⟨4, 10⟩

/- The shape of a leaf tile, whose slots hold cells. -/
def leaf : TileShape := ⟨8, 11⟩

end TileShape

/- Every coordinate lies below this size; it is itself the
  last coordinate that the tiles could address. -/
def maxSize : Size :=
  ⟨1 <<< (TileShape.top.columnBits +
        TileShape.middle.columnBits +
        TileShape.leaf.columnBits) - 1,
    1 <<< (TileShape.top.rowBits +
        TileShape.middle.rowBits +
        TileShape.leaf.rowBits) - 1⟩

theorem maxSize_eq : maxSize = ⟨65535, 2147483647⟩ := by
  decide

/- The part of a rectangle that lies on the sheet. -/
def Rect.clip (r : Rect) : Rect :=
  { r with size := r.size.inf (maxSize.toPoint.diff r.origin) }

end Spreadsheet
