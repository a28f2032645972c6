import Spreadsheet.Proofs.Address.Points
import Spreadsheet.Proofs.Reference.Ends

/-
  References mean the areas that their texts name.

  A text is read as a reference exactly if it is read as an
  area, and from the anchor where it was read the reference
  means that area.

  Main declarations:
    * `Reference.Means`
    * `Reference.rel_read?`
    * `Reference.readers_agree`
-/

namespace Spreadsheet

------------------------------------------------------------
-- Optional Results
------------------------------------------------------------

section Rel

variable {α β : Type}
variable {r : α → β → Prop}
variable {a a' : Option α} {b b' : Option β}

/- What is related step by step is related. -/
theorem rel_bind
    {γ δ : Type}
    {s : γ → δ → Prop}
    {f : α → Option γ}
    {g : β → Option δ}
    (hRel : Option.Rel r a b)
    (hStep : ∀ x y, r x y → Option.Rel s (f x) (g y)) :
    Option.Rel s (a.bind f) (b.bind g) := by
  cases hRel with
  | some hSome => exact hStep _ _ hSome
  | none => exact .none

/- Two first choices and two second ones are related. -/
theorem rel_orElse
    (hFirst : Option.Rel r a b)
    (hSecond : Option.Rel r a' b') :
    Option.Rel r (a <|> a') (b <|> b') := by
  cases hFirst with
  | some hRel => exact .some hRel
  | none => exact hSecond

end Rel

namespace Address

variable {axis : Axis} {cs : List Char}

/- What is read as a column or row lies on the sheet. -/
theorem index_lt_of_scan
    {part : Part}
    (hScan : scan axis cs = some part) :
    part.index < maxSize.along axis := by
  rcases scan_eq_some_iff.1 hScan with
    ⟨run, rest, -, hRun, -, hIndex, -⟩
  exact ((indexOf?_eq_some_iff hRun).1 hIndex).1

end Address

namespace Reference

open Address

variable {anchor : Point} {bounds : Size}

------------------------------------------------------------
-- Coordinates
------------------------------------------------------------

/- A coordinate is seen at an index of the sheet. -/
def Seen (anchor : Point) (axis : Axis) (c : Coord) (i : Nat) : Prop :=
  c.position (anchor.along axis) = i ∧ i < maxSize.along axis

theorem Seen.onSheet
    {axis : Axis}
    {c : Coord}
    {i : Nat}
    (hSeen : Seen anchor axis c i) :
    c.onSheet (anchor.along axis) (maxSize.along axis) = true :=
  (Coord.onSheet_of_position hSeen.1).2 hSeen.2

theorem Seen.index_eq
    {axis : Axis}
    {c : Coord}
    {i : Nat}
    (hSeen : Seen anchor axis c i) :
    c.index (anchor.along axis) = i :=
  Coord.index_eq_of_position hSeen.1

/- Fixed or not, a coordinate is seen at the index it is from. -/
theorem position_coordOf
    (anchor : Point)
    (axis : Axis)
    (part : Part) :
    (coordOf anchor axis part).position (anchor.along axis) =
      part.index := by
  unfold coordOf Coord.ofIndex
  cases part.absolute with
  | true => rfl
  | false =>
      change ((anchor.along axis : Int) + (part.index - _)) = _
      omega

theorem seen_of_scan
    {axis : Axis}
    {cs : List Char}
    {part : Part}
    (hScan : scan axis cs = some part) :
    Seen anchor axis (coordOf anchor axis part) part.index :=
  ⟨position_coordOf anchor axis part, index_lt_of_scan hScan⟩

theorem rel_readCoord?
    (axis : Axis)
    (cs : List Char) :
    Option.Rel (Seen anchor axis) (readCoord? axis cs anchor)
      (readIndex? axis cs) := by
  unfold readCoord? readIndex?
  cases hWhole : (scan axis cs).filter (·.length == cs.length) with
  | none => exact .none
  | some part =>
      have hScan := (Option.filter_eq_some_iff.1 hWhole).1
      exact .some (seen_of_scan hScan)

/- The coordinates of a corner are seen at a point. -/
def SeenAt (anchor : Point) (c : Coord × Coord) (p : Point) : Prop :=
  Seen anchor .columns c.1 p.x ∧ Seen anchor .rows c.2 p.y

theorem rel_readCell? (cs : List Char) :
    Option.Rel (SeenAt anchor) (readCell? cs anchor)
      (readPoint? cs) := by
  unfold readCell? readPoint?
  cases hParts : readParts? cs with
  | none => exact .none
  | some parts =>
      simp only [readParts?, Option.bind_eq_bind,
        Option.bind_eq_some_iff, Option.ite_none_right_eq_some]
        at hParts
      rcases hParts with ⟨column, hColumn, row, hRow, -, ⟨⟩⟩
      exact .some ⟨seen_of_scan hColumn, seen_of_scan hRow⟩

------------------------------------------------------------
-- References
------------------------------------------------------------

/- A reference is on the sheet and means an area. -/
def Means
    (anchor : Point)
    (bounds : Size)
    (r : Reference)
    (a : Rect) : Prop :=
  r.onSheet anchor = true ∧ r.toRect? anchor bounds = some a

theorem means_cell
    {c : Coord × Coord}
    {p : Point}
    (hSeen : SeenAt anchor c p) :
    Means anchor bounds (.cell c.1 c.2) (Rect.single p) := by
  constructor
  · exact Bool.and_eq_true_iff.2 ⟨hSeen.1.onSheet, hSeen.2.onSheet⟩
  · have hx : c.1.index anchor.x = p.x := hSeen.1.index_eq
    have hy : c.2.index anchor.y = p.y := hSeen.2.index_eq
    rw [toRect?, hx, hy]

theorem means_area
    {c d : Coord × Coord}
    {p q : Point}
    (hFirst : SeenAt anchor c p)
    (hSecond : SeenAt anchor d q) :
    Means anchor bounds (.area ⟨c.1, d.1⟩ ⟨c.2, d.2⟩)
      (Rect.spanning p q) := by
  have hx : Span.At ⟨c.1, d.1⟩ anchor.x p.x q.x :=
    ⟨hFirst.1.1, hSecond.1.1⟩
  have hy : Span.At ⟨c.2, d.2⟩ anchor.y p.y q.y :=
    ⟨hFirst.2.1, hSecond.2.1⟩
  constructor
  · exact Bool.and_eq_true_iff.2
      ⟨hx.onSheet_iff.2 ⟨hFirst.1.2, hSecond.1.2⟩,
        hy.onSheet_iff.2 ⟨hFirst.2.2, hSecond.2.2⟩⟩
  · simp only [toRect?, Coord.index_eq_of_position hx.1,
      Coord.index_eq_of_position hx.2,
      Coord.index_eq_of_position hy.1,
      Coord.index_eq_of_position hy.2]

theorem means_band
    {axis : Axis}
    {c d : Coord}
    {i j : Nat}
    (hFirst : Seen anchor axis c i)
    (hSecond : Seen anchor axis d j) :
    Means anchor bounds (.band axis ⟨c, d⟩)
      (Rect.band axis (min i j) (max i j - min i j + 1) bounds) := by
  have hAt : Span.At ⟨c, d⟩ (anchor.along axis) i j :=
    ⟨hFirst.1, hSecond.1⟩
  constructor
  · exact hAt.onSheet_iff.2 ⟨hFirst.2, hSecond.2⟩
  · rw [toRect?, hAt.low, hAt.count]

------------------------------------------------------------
-- Texts
------------------------------------------------------------

theorem rel_readBand?
    (axis : Axis)
    (first second : List Char) :
    Option.Rel (Means anchor bounds)
      (readBand? axis first second anchor)
      ((Address.readBand? axis first second).map fun (a, b) =>
        Rect.band axis a (b - a + 1) bounds) := by
  unfold readBand? Address.readBand?
  simp only [Option.bind_eq_bind, Option.map_bind,
    Function.comp_def, Option.map_some]
  refine rel_bind (rel_readCoord? axis first) fun c i hFirst => ?_
  refine rel_bind (rel_readCoord? axis second) fun d j hSecond => ?_
  exact .some (means_band hFirst hSecond)

theorem rel_readCorners?
    (first second : List Char) :
    Option.Rel (Means anchor bounds)
      (readCorners? first second anchor)
      ((readPoint? first).bind fun p =>
        (readPoint? second).bind fun q =>
          some (Rect.spanning p q)) := by
  refine rel_bind (rel_readCell? first) fun c p hFirst => ?_
  refine rel_bind (rel_readCell? second) fun d q hSecond => ?_
  exact .some (means_area hFirst hSecond)

/- The ways to read two texts around a colon, in their order. -/
theorem readSpan?_eq
    (first second : List Char)
    (bounds : Size) :
    readSpan? first second bounds =
      (((readPoint? first).bind fun p =>
        (readPoint? second).bind fun q =>
          some (Rect.spanning p q)) <|>
        ((Address.readBand? .columns first second).map fun (a, b) =>
          Rect.band .columns a (b - a + 1) bounds) <|>
        ((Address.readBand? .rows first second).map fun (a, b) =>
          Rect.band .rows a (b - a + 1) bounds)) := by
  unfold readSpan?
  cases readPoint? first with
  | none =>
      cases Address.readBand? .columns first second <;> rfl
  | some p =>
      cases readPoint? second with
      | none =>
          cases Address.readBand? .columns first second <;> rfl
      | some q => rfl

/- Either both readers fail, or the reference means the area. -/
theorem rel_read?
    (cs : List Char)
    (anchor : Point)
    (bounds : Size) :
    Option.Rel (Means anchor bounds) (read? cs anchor)
      (readArea? cs bounds) := by
  unfold read? readArea?
  cases splitColon cs with
  | none =>
      simp only [Option.map_eq_bind]
      exact rel_bind (rel_readCell? cs) fun c p hSeen =>
        .some (means_cell hSeen)
  | some parts =>
      rcases parts with ⟨first, second⟩
      dsimp only
      rw [readSpan?_eq]
      exact rel_orElse (rel_readCorners? first second)
        (rel_orElse (rel_readBand? .columns first second)
          (rel_readBand? .rows first second))

theorem map_eq_of_means
    {r : Option Reference}
    {a : Option Rect}
    (hRel : Option.Rel (Means anchor bounds) r a) :
    r.map (fun r => (r.onSheet anchor, r.toRect? anchor bounds)) =
      a.map fun a => (true, some a) := by
  cases hRel with
  | some hMeans => exact congrArg some (Prod.ext hMeans.1 hMeans.2)
  | none => rfl

/-
  A text is read as a reference exactly if it is read as an
  area. Whatever the anchor, the reference is on the sheet
  from there and means that area.
-/
theorem readers_agree
    (s : String)
    (anchor : Point)
    (bounds : Size) :
    (read? s.toList anchor).map (fun r =>
        (r.onSheet anchor, r.toRect? anchor bounds)) =
      (readArea? s.toList bounds).map fun a => (true, some a) :=
  map_eq_of_means (rel_read? s.toList anchor bounds)

end Reference

end Spreadsheet
