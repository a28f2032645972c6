import Spreadsheet.Geometry

/-
  One coordinate of a reference.

  A coordinate is a fixed position or a signed distance from
  the cell that holds the formula, its anchor. Distances let
  a formula be copied and moved without reading it again.

  Key definitions include:
    * `Coord`
    * `Coord.position`
    * `Coord.moveAnchor`
    * `Coord.erase`
    * `Coord.insert?`
-/

namespace Spreadsheet

/- A position that is fixed or seen from an anchor. -/
inductive Coord where
  | relative (distance : Int)
  | absolute (position : Nat)
deriving DecidableEq, Repr, Inhabited

namespace Coord

/- A coordinate for an index, as seen from an anchor. -/
def ofIndex (index : Nat) (fixed : Bool) (anchor : Nat) : Coord :=
  if fixed then .absolute index else .relative (index - anchor)

/- The coordinate does not depend on the anchor. -/
def isAbsolute : Coord → Bool
  | .absolute _ => true
  | .relative _ => false

/-
  The position seen from an anchor, which may lie outside of
  the sheet.
-/
def position (c : Coord) (anchor : Nat) : Int :=
  match c with
  | .absolute p => p
  | .relative d => anchor + d

/- The position lies on a sheet with `limit` positions. -/
def onSheet (c : Coord) (anchor limit : Nat) : Bool :=
  0 ≤ c.position anchor && c.position anchor < limit

/- The index of a coordinate that lies on the sheet. -/
def index (c : Coord) (anchor : Nat) : Nat :=
  (c.position anchor).toNat

/- The number of positions that a coordinate can count. -/
def wordRange : Int := (1 <<< 32 : Nat)

/-
  Move the position while the anchor stays. Fixed positions
  are words of 32 bits and wrap around.
-/
def shift (c : Coord) (delta : Int) : Coord :=
  match c with
  | .absolute p => .absolute ((p + delta) % wordRange).toNat
  | .relative d => .relative (d + delta)

/- Keep the position while the anchor moves by `delta`. -/
def moveAnchor (c : Coord) (delta : Int) : Coord :=
  match c with
  | .absolute p => .absolute p
  | .relative d => .relative (d - delta)

/-
  The coordinate after the `count` indices from `start` on
  were erased, for an anchor that was not. A position past
  the band moves down with its index, and a position inside
  the band comes to lie on the first index after it.
-/
def erase (c : Coord) (anchor start count : Nat) : Coord :=
  match c with
  | .absolute p =>
      if start ≤ p then .absolute (p - min (p - start) count)
      else .absolute p
  | .relative d =>
      let p : Int := anchor + d
      if anchor < start ∧ start ≤ p then
        .relative (d - min (p - start) count)
      else if start + count ≤ anchor ∧ p < start + count then
        .relative (d + min (start + count - p) count)
      else
        .relative d

/-
  The coordinate after `count` indices were inserted before
  `before`, unless the position leaves the sheet.
-/
def insert?
    (c : Coord)
    (anchor before count limit : Nat) : Option Coord :=
  match c with
  | .absolute p =>
      if before ≤ p then
        if (limit : Int) - count ≤ p then none
        else some (.absolute (p + count))
      else
        some (.absolute p)
  | .relative d =>
      let p : Int := anchor + d
      if anchor < before ∧ before ≤ p then
        if (limit : Int) - count ≤ p then none
        else some (.relative (d + count))
      else if before ≤ anchor ∧ p < before then
        some (.relative (d - count))
      else
        some (.relative d)

end Coord

/-
  Two ends along one axis, in the order in which they are
  written.
-/
structure Span where
  start : Coord
  stop : Coord
deriving DecidableEq, Repr, Inhabited

namespace Span

/- Apply a function to both ends. -/
def map (s : Span) (f : Coord → Coord) : Span :=
  ⟨f s.start, f s.stop⟩

/- Both ends lie on the sheet. -/
def onSheet (s : Span) (anchor limit : Nat) : Bool :=
  s.start.onSheet anchor limit && s.stop.onSheet anchor limit

/- The lower of the two ends, on the sheet. -/
def low (s : Span) (anchor : Nat) : Nat :=
  min (s.start.index anchor) (s.stop.index anchor)

/- The upper of the two ends, on the sheet. -/
def high (s : Span) (anchor : Nat) : Nat :=
  max (s.start.index anchor) (s.stop.index anchor)

/- The number of indices from the lower to the upper end. -/
def count (s : Span) (anchor : Nat) : Nat :=
  s.high anchor - s.low anchor + 1

/- A position lies in the band of `count` indices. -/
def inBand (p : Int) (start count : Nat) : Bool :=
  start ≤ p && p < start + count

/-
  The span after a band was erased, unless the whole span
  lay inside. Of a span that ends inside the band, the upper
  end is pulled back to the last index before the band.
-/
def erase? (s : Span) (anchor start count : Nat) : Option Span :=
  let p := s.start.position anchor
  let q := s.stop.position anchor
  if inBand p start count && inBand q start count then
    none
  else
    let first := s.start.erase anchor start count
    let last := s.stop.erase anchor start count
    if inBand q start count && p < q then
      some ⟨first, last.shift (-1)⟩
    else if inBand p start count && q < p then
      some ⟨first.shift (-1), last⟩
    else
      some ⟨first, last⟩

/-
  The span after an insertion, unless one of its ends leaves
  the sheet.
-/
def insert?
    (s : Span)
    (anchor before count limit : Nat) : Option Span := do
  let start ← s.start.insert? anchor before count limit
  let stop ← s.stop.insert? anchor before count limit
  some ⟨start, stop⟩

end Span

/-
  A single coordinate after a band was erased, unless it lay
  inside.
-/
def Coord.erase?
    (c : Coord)
    (anchor start count : Nat) : Option Coord :=
  if Span.inBand (c.position anchor) start count then none
  else some (c.erase anchor start count)

end Spreadsheet
