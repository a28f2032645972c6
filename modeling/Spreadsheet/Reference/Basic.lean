import Spreadsheet.Address
import Spreadsheet.Reference.Coord

/-
  References to cells, areas, whole columns and whole rows,
  as formulas hold them.

  Key definitions include:
    * `Reference`
    * `Reference.read?`
    * `Reference.onSheet`
    * `Reference.toRect?`
    * `Reference.source`
-/

namespace Spreadsheet

/-
  What a formula refers to. A reference whose target is gone
  is illegal.
-/
inductive Reference where
  | cell (x y : Coord)
  | area (x y : Span)
  | band (axis : Axis) (span : Span)
  | illegal
deriving DecidableEq, Repr, Inhabited

namespace Reference

------------------------------------------------------------
-- Reading
------------------------------------------------------------

/- The coordinate of a part of a name along an axis. -/
def coordOf
    (anchor : Point)
    (axis : Axis)
    (part : Address.Part) : Coord :=
  Coord.ofIndex part.index part.absolute (anchor.along axis)

/- A column or row and nothing else. -/
def readCoord?
    (axis : Axis)
    (cs : List Char)
    (anchor : Point) : Option Coord :=
  ((Address.scan axis cs).filter (·.length == cs.length)).map
    (coordOf anchor axis)

/- The two coordinates of a cell name and nothing else. -/
def readCell?
    (cs : List Char)
    (anchor : Point) : Option (Coord × Coord) :=
  (Address.readParts? cs).map fun (column, row) =>
    (coordOf anchor .columns column, coordOf anchor .rows row)

/- Two columns or two rows. -/
def readBand?
    (axis : Axis)
    (first second : List Char)
    (anchor : Point) : Option Reference := do
  let start ← readCoord? axis first anchor
  let stop ← readCoord? axis second anchor
  some (.band axis ⟨start, stop⟩)

/- Two corners of an area. -/
def readCorners?
    (first second : List Char)
    (anchor : Point) : Option Reference := do
  let (x₀, y₀) ← readCell? first anchor
  let (x₁, y₁) ← readCell? second anchor
  some (.area ⟨x₀, x₁⟩ ⟨y₀, y₁⟩)

/-
  Read `A1`, `A1:B2`, `A:C` or `3:5`, with `$` before any
  part, as seen from an anchor.
-/
def read? (cs : List Char) (anchor : Point) : Option Reference :=
  match Address.splitColon cs with
  | none => (readCell? cs anchor).map fun (x, y) => .cell x y
  | some (first, second) =>
      readCorners? first second anchor <|>
        readBand? .columns first second anchor <|>
        readBand? .rows first second anchor

------------------------------------------------------------
-- Meaning
------------------------------------------------------------

/- All parts of a reference lie on the sheet. -/
def onSheet (r : Reference) (anchor : Point) : Bool :=
  match r with
  | .cell x y =>
      x.onSheet anchor.x maxSize.width &&
        y.onSheet anchor.y maxSize.height
  | .area x y =>
      x.onSheet anchor.x maxSize.width &&
        y.onSheet anchor.y maxSize.height
  | .band axis s => s.onSheet (anchor.along axis) (maxSize.along axis)
  | .illegal => false

/-
  The cells that a reference on the sheet means. Whole
  columns and rows end with the given size.
-/
def toRect?
    (r : Reference)
    (anchor : Point)
    (bounds : Size) : Option Rect :=
  match r with
  | .cell x y =>
      some (.single ⟨x.index anchor.x, y.index anchor.y⟩)
  | .area x y =>
      some
        (Rect.spanning
          ⟨x.start.index anchor.x, y.start.index anchor.y⟩
          ⟨x.stop.index anchor.x, y.stop.index anchor.y⟩)
  | .band axis s =>
      let anchor := anchor.along axis
      some (Rect.band axis (s.low anchor) (s.count anchor) bounds)
  | .illegal => none

------------------------------------------------------------
-- Spelling
------------------------------------------------------------

/- The name of a coordinate, with `$` if it is fixed. -/
def coordSource
    (axis : Axis)
    (anchor : Point)
    (c : Coord) : List Char :=
  (if c.isAbsolute then ['$'] else []) ++
    Address.indexName axis (c.index (anchor.along axis))

/- The name of a cell. -/
def cellSource (anchor : Point) (x y : Coord) : List Char :=
  coordSource .columns anchor x ++ coordSource .rows anchor y

/-
  The spelling of a reference as seen from an anchor; one
  that leaves the sheet is spelled as an error.
-/
def source (r : Reference) (anchor : Point) : List Char :=
  if r.onSheet anchor then
    match r with
    | .cell x y => cellSource anchor x y
    | .area x y =>
        cellSource anchor x.start y.start ++
          ':' :: cellSource anchor x.stop y.stop
    | .band axis s =>
        coordSource axis anchor s.start ++
          ':' :: coordSource axis anchor s.stop
    | .illegal => []
  else
    ['#', 'R', 'E', 'F', '!']

end Reference

end Spreadsheet
