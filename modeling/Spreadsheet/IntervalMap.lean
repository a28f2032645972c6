/-
  Maps from indices to values that are constant on intervals.

  A map keeps its intervals in order. They hold at least one
  index each, do not overlap, and two that touch hold
  different values, since every change joins such neighbours.

  Key definitions include:
    * `Interval`
    * `IntervalMap`
    * `IntervalMap.get?`
    * `IntervalMap.set`
    * `IntervalMap.modifyM`
    * `IntervalMap.insertIndices`
    * `IntervalMap.eraseIndices`
    * `IntervalMap.pieces`
-/

namespace Spreadsheet

------------------------------------------------------------
-- Intervals
------------------------------------------------------------

/- The indices from `start` up to `stop`, with a value. -/
structure Interval (V : Type) where
  start : Nat
  stop : Nat
  value : V
deriving DecidableEq, Repr

namespace Interval

variable {V : Type}

/- An index lies in the interval. -/
def contains (r : Interval V) (i : Nat) : Bool :=
  r.start ≤ i && i < r.stop

/- The interval `count` indices further up. -/
def shiftUp (r : Interval V) (count : Nat) : Interval V :=
  { r with start := r.start + count, stop := r.stop + count }

/- The interval `count` indices further down. -/
def shiftDown (r : Interval V) (count : Nat) : Interval V :=
  { r with start := r.start - count, stop := r.stop - count }

/-
  The interval after `count` indices were inserted before
  `before`: it grows if it holds that index.
-/
def insertIndices (before count : Nat) (r : Interval V) : Interval V :=
  if r.stop ≤ before then r
  else if r.start ≤ before then { r with stop := r.stop + count }
  else r.shiftUp count

end Interval

------------------------------------------------------------
-- Lists Of Intervals
------------------------------------------------------------

namespace Intervals

variable {V : Type}

/- The parts of intervals below an index. -/
def below (b : Nat) (rs : List (Interval V)) : List (Interval V) :=
  (rs.filter (·.start < b)).map fun r =>
    { r with stop := min r.stop b }

/- The parts of intervals from an index on. -/
def above (b : Nat) (rs : List (Interval V)) : List (Interval V) :=
  (rs.filter (b < ·.stop)).map fun r =>
    { r with start := max r.start b }

/-
  Put an interval in front of others; it is joined with a
  first one that it touches and whose value it shares.
-/
def cons
    [BEq V]
    (r : Interval V) : List (Interval V) → List (Interval V)
  | [] => [r]
  | s :: rest =>
      if r.stop = s.start ∧ r.value == s.value then
        { r with stop := s.stop } :: rest
      else
        r :: s :: rest

/- Put intervals in front of others. -/
def append
    [BEq V]
    (rs ss : List (Interval V)) : List (Interval V) :=
  rs.foldr cons ss

end Intervals

------------------------------------------------------------
-- Interval Maps
------------------------------------------------------------

/- A map given by its intervals, in order. -/
structure IntervalMap (V : Type) where
  intervals : List (Interval V)
deriving DecidableEq, Repr

/-
  Consecutive indices that share a value, or that all have
  none.
-/
abbrev Piece (V : Type) := Interval (Option V)

namespace IntervalMap

variable {V : Type}

/- The map without any value. -/
def empty : IntervalMap V := ⟨[]⟩

/- The number of intervals. -/
def size (m : IntervalMap V) : Nat :=
  m.intervals.length

/- No index has a value. -/
def isEmpty (m : IntervalMap V) : Bool :=
  m.intervals.isEmpty

/- The value of an index. -/
def get? (m : IntervalMap V) (i : Nat) : Option V :=
  (m.intervals.find? (·.contains i)).map (·.value)

/- The value of an index, or a default. -/
def getD (m : IntervalMap V) (i : Nat) (default : V) : V :=
  (m.get? i).getD default

/-
  Replace what the map says about the indices from `start` up
  to `stop` by other intervals within these bounds.
-/
def replace
    [BEq V]
    (m : IntervalMap V)
    (start stop : Nat)
    (rs : List (Interval V)) : IntervalMap V :=
  ⟨Intervals.append (Intervals.below start m.intervals)
    (Intervals.append rs (Intervals.above stop m.intervals))⟩

/- Give one value to the indices from `start` up to `stop`. -/
def set
    [BEq V]
    (m : IntervalMap V)
    (start stop : Nat)
    (value : V) : IntervalMap V :=
  if start < stop then
    m.replace start stop [⟨start, stop, value⟩]
  else
    m

/- Take the values of indices from `start` up to `stop` away. -/
def clear
    [BEq V]
    (m : IntervalMap V)
    (start stop : Nat) : IntervalMap V :=
  if start < stop then m.replace start stop [] else m

------------------------------------------------------------
-- Pieces
------------------------------------------------------------

/-
  Tile the indices from `start` up to `stop` by the given
  intervals and the gaps between them.
-/
def piecesOf (start stop : Nat) :
    List (Interval V) → List (Piece V)
  | [] => if start < stop then [⟨start, stop, none⟩] else []
  | r :: rest =>
      if r.stop ≤ start then
        piecesOf start stop rest
      else
        let first := max start (min r.start stop)
        let last := max first (min r.stop stop)
        (if start < first then [⟨start, first, none⟩] else []) ++
          (if first < last then [⟨first, last, some r.value⟩]
            else []) ++
          piecesOf last stop rest

/-
  The consecutive pieces of the indices from `start` up to
  `stop`, gaps included.
-/
def pieces
    (m : IntervalMap V)
    (start stop : Nat) : List (Piece V) :=
  piecesOf start stop m.intervals

/- The pieces, with a default value in the gaps. -/
def filled
    (m : IntervalMap V)
    (start stop : Nat)
    (default : V) : List (Interval V) :=
  (m.pieces start stop).map fun p =>
    ⟨p.start, p.stop, p.value.getD default⟩

/-
  Visit elements in order with a state, until a visit ends
  with an answer.
-/
def visitUntil
    {α β σ : Type}
    (f : σ → α → σ × Option β)
    (s : σ) : List α → σ × Option β
  | [] => (s, none)
  | a :: rest =>
      match f s a with
      | (s, some b) => (s, some b)
      | (s, none) => visitUntil f s rest

------------------------------------------------------------
-- Changes By Piece
------------------------------------------------------------

/- The intervals that pieces with a value stand for. -/
def ofPieces (ps : List (Piece V)) : List (Interval V) :=
  ps.filterMap fun p =>
    p.value.map fun value => ⟨p.start, p.stop, value⟩

/-
  Give each piece of the indices from `start` up to `stop` the
  value that an operation computes from its value. The
  operation is run once for each piece, in order.
-/
def modifyM
    {m : Type → Type}
    [Monad m]
    [BEq V]
    (map : IntervalMap V)
    (start stop : Nat)
    (op : Option V → m (Option V)) : m (IntervalMap V) := do
  let changed ← (map.pieces start stop).mapM fun p => do
    let value ← op p.value
    pure (⟨p.start, p.stop, value⟩ : Piece V)
  pure
    (if start < stop then
      map.replace start stop (ofPieces changed)
    else
      map)

/- Change each value by an operation without effects. -/
def modify
    [BEq V]
    (map : IntervalMap V)
    (start stop : Nat)
    (op : Option V → Option V) : IntervalMap V :=
  Id.run (map.modifyM start stop fun v => pure (op v))

------------------------------------------------------------
-- Changes Of The Indices
------------------------------------------------------------

/-
  Insert `count` indices before `before`. They take the value
  that this index has.
-/
def insertIndices
    (m : IntervalMap V)
    (before count : Nat) : IntervalMap V :=
  ⟨m.intervals.map (Interval.insertIndices before count)⟩

/-
  Erase the indices from `start` up to `stop`; those after
  them move down.
-/
def eraseIndices
    [BEq V]
    (m : IntervalMap V)
    (start stop : Nat) : IntervalMap V :=
  if start < stop then
    ⟨Intervals.append (Intervals.below start m.intervals)
      ((Intervals.above stop m.intervals).map
        (·.shiftDown (stop - start)))⟩
  else
    m

end IntervalMap

end Spreadsheet
