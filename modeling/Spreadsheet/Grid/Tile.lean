import Std.Data.ExtTreeMap
import Spreadsheet.Geometry

/-
  Tiles: sparse blocks of slots with a count.

  A slot of a leaf tile holds a cell, and a slot of any other
  tile holds a tile of the level below. A tile counts the
  cells beneath it, and a tile without cells is taken out of
  its slot when the work on it ends.

  Key definitions include:
    * `Tile`
    * `Slot`
    * `Tile.visit`
    * `Tile.visitPair`
    * `Slot.inside`
    * `TilePath.of`
-/

namespace Spreadsheet

------------------------------------------------------------
-- Slots
------------------------------------------------------------

/- What a slot holds, if anything. -/
abbrev Slot (β : Type) := Option β

/-
  A change of one slot, which depends on a state and may
  change it.
-/
abbrev SlotVisit (β σ : Type) := Slot β → σ → Slot β × σ

/-
  The number of cells in a slot, given how many cells its
  content stands for.
-/
def Slot.weight {β : Type} (weigh : β → Nat) : Slot β → Nat
  | none => 0
  | some b => weigh b

------------------------------------------------------------
-- Tiles
------------------------------------------------------------

/- The filled slots by index, and the number of cells. -/
structure Tile (β : Type) where
  count : Nat
  slots : Std.ExtTreeMap Nat β

namespace Tile

variable {β σ : Type}

/- A tile without any content. -/
def empty : Tile β := ⟨0, ∅⟩

/- The content of a slot. -/
def get? (t : Tile β) (i : Nat) : Slot β :=
  t.slots[i]?

/- Replace the content of a slot, whose old one is given. -/
def put
    (weigh : β → Nat)
    (i : Nat)
    (old new : Slot β)
    (t : Tile β) : Tile β :=
  match old, new with
  | none, none => t
  | some b, none => ⟨t.count - weigh b, t.slots.erase i⟩
  | old, some b =>
      ⟨t.count + weigh b - old.weight weigh, t.slots.insert i b⟩

/- Visit one slot. -/
def visit
    (weigh : β → Nat)
    (i : Nat)
    (f : SlotVisit β σ)
    (t : Tile β)
    (s : σ) : Tile β × σ :=
  let old := t.get? i
  let (new, s) := f old s
  (t.put weigh i old new, s)

/- Visit a source slot and then a destination slot. -/
def visitPair
    (weigh : β → Nat)
    (i j : Nat)
    (source dest : SlotVisit β σ)
    (t : Tile β)
    (s : σ) : Tile β × σ :=
  let (t, s) := t.visit weigh i source s
  t.visit weigh j dest s

end Tile

/-
  Work on the tile in a slot. An absent tile is made only if
  it is wanted, and a tile left without cells is taken out.
-/
def Slot.inside
    {β σ : Type}
    (wanted : σ → Bool)
    (f : Tile β → σ → Tile β × σ) : SlotVisit (Tile β) σ :=
  fun slot s =>
    let tile? :=
      match slot with
      | some t => some t
      | none => if wanted s then some Tile.empty else none
    match tile? with
    | none => (none, s)
    | some t =>
        let (t, s) := f t s
        (if t.count = 0 then none else some t, s)

------------------------------------------------------------
-- Shapes
------------------------------------------------------------

namespace TileShape

/- The size of a tile in slots. -/
def size (shape : TileShape) : Size :=
  ⟨1 <<< shape.columnBits, 1 <<< shape.rowBits⟩

/- The index of a slot, row by row. -/
def index (shape : TileShape) (x y : Nat) : Nat :=
  y <<< shape.columnBits + x

end TileShape

/-
  The way to a cell: the slot at each level, and the column
  and row inside the leaf tile.
-/
structure TilePath where
  top : Nat
  middle : Nat
  leaf : Nat
deriving DecidableEq, Repr

/- The cells that a slot of a middle tile stands for. -/
def leafSize : Size :=
  TileShape.leaf.size

/- The cells that a slot of the top tile stands for. -/
def middleSize : Size :=
  ⟨TileShape.middle.size.width * leafSize.width,
    TileShape.middle.size.height * leafSize.height⟩

theorem leafSize_eq : leafSize = ⟨256, 2048⟩ := rfl

theorem middleSize_eq : middleSize = ⟨4096, 2097152⟩ := rfl

/- The position of a point inside blocks of a given size. -/
def Point.within (p : Point) (block : Size) : Point :=
  ⟨p.x % block.width, p.y % block.height⟩

/- The number of the block that a point lies in. -/
def Point.blockOf (p : Point) (block : Size) : Point :=
  ⟨p.x / block.width, p.y / block.height⟩

/- The index of the slot that a point lies in. -/
def Point.slotIndex
    (p : Point)
    (shape : TileShape)
    (block : Size) : Nat :=
  shape.index (p.blockOf block).x (p.blockOf block).y

/- The way to the cell at a point. -/
def TilePath.of (p : Point) : TilePath where
  top := p.slotIndex .top middleSize
  middle := (p.within middleSize).slotIndex .middle leafSize
  leaf := (p.within leafSize).slotIndex .leaf Size.one

/- How far it is from a point to the end of its block. -/
def Point.toBlockEnd (p : Point) (block : Size) : Size :=
  ⟨block.width - p.x % block.width,
    block.height - p.y % block.height⟩

end Spreadsheet
