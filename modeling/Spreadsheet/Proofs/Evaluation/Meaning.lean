import Spreadsheet.Proofs.Evaluation.Extent
import Spreadsheet.Proofs.Evaluation.Offsets
import Spreadsheet.Proofs.Evaluation.Readings

/-
  What an expression means, element by element.

  An expression spreads an operand over its extent: there is
  one at each offset. Operations combine the operands of their
  arguments at the same offset, and aggregates gather those at
  all offsets. Nothing is said about the order in which this
  is computed, nor about cells that have to be waited for.

  Key definitions include:
    * `Spread`
    * `Operation.spread`
    * `Site.spread`
    * `Spread.Steady`
    * `Site.Regular`
-/

namespace Spreadsheet

------------------------------------------------------------
-- Elements
------------------------------------------------------------

/-
  A scalar that an aggregate gathers: one that stands in the
  formula itself, or a content of a cell or an array.
-/
inductive Item where
  | direct (v : Scalar)
  | content (v : Scalar)

/- The scalar itself. -/
def Item.scalar : Item → Scalar
  | .direct v | .content v => v

/- Gather a scalar as what it is. -/
def Fold.addItem
    (f : Aggregate)
    (fold : Fold)
    (item : Item) : Except ErrorValue Fold :=
  match item with
  | .direct v => fold.addDirect f v
  | .content v => fold.addIndirect f v

namespace Operand

/- The scalar of an operand at an offset, given the cells. -/
def scalarAt
    (cells : Point → Scalar)
    (o : Operand)
    (p : Point) : Scalar :=
  match o with
  | .scalar v => v
  | .array a => a.element p
  | .cell q => cells q
  | .area r =>
      match r.element p with
      | .ok q => cells q
      | .error e => .error e

/- What an aggregate gathers from an operand at an offset. -/
def itemAt
    (cells : Point → Scalar)
    (o : Operand)
    (p : Point) : Item :=
  match o with
  | .scalar v => .direct v
  | o => .content (o.scalarAt cells p)

theorem scalar_itemAt
    (cells : Point → Scalar)
    (o : Operand)
    (p : Point) :
    (o.itemAt cells p).scalar = o.scalarAt cells p := by
  cases o <;> rfl

/- A part of an operand shows the same scalar. -/
theorem scalarAt_narrow
    (cells : Point → Scalar)
    (o : Operand)
    (size : Size)
    (p : Point) :
    (o.narrow size p).scalarAt cells p = o.scalarAt cells p := by
  cases o with
  | scalar v => rfl
  | cell q => rfl
  | array a =>
      unfold narrow
      dsimp only
      split <;> rfl
  | area r =>
      unfold narrow
      dsimp only
      split
      · rfl
      · cases hElement : r.element p <;>
          simp [scalarAt, hElement, error]

end Operand

------------------------------------------------------------
-- Operands Over An Extent
------------------------------------------------------------

/- An operand at each offset of an extent. -/
structure Spread where
  extent : Size
  get : Point → Operand

/- The result of an infix operator on two scalars. -/
def InfixOp.onScalars (op : InfixOp) (vs : List Scalar) : Scalar :=
  op.apply (vs[0]?.getD .blank) (vs[1]?.getD .blank)

/- The result of a prefix or postfix operator on a scalar. -/
def onFirst (f : Scalar → Scalar) (vs : List Scalar) : Scalar :=
  f (vs[0]?.getD .blank)

/- The result that a choice function gives on scalars. -/
def Choice.apply (f : Choice) (vs : List Scalar) : Scalar :=
  match f.select vs.length (vs[0]?.getD .blank) with
  | .argument i => if 0 < i then vs[i]?.getD .blank else .blank
  | .result v => v

namespace Spread

section

variable (cells : Point → Scalar)

/- The scalar at an offset. -/
def scalarAt (a : Spread) (p : Point) : Scalar :=
  (a.get p).scalarAt cells p

/- The scalars at all offsets, row by row. -/
def scalars (a : Spread) : List Scalar :=
  (Rect.whole a.extent).points.map (a.scalarAt cells)

/- What an aggregate gathers at all offsets, row by row. -/
def items (a : Spread) : List Item :=
  (Rect.whole a.extent).points.map fun p => (a.get p).itemAt cells p

/- The least extent that covers all arguments. -/
def covering (args : List Spread) : Size :=
  (args.map extent).foldl Size.sup Size.one

/- A function acts on the scalars at the same offset. -/
def elementwise
    (f : List Scalar → Scalar)
    (args : List Spread) : Spread :=
  ⟨covering args, fun p => .scalar (f (args.map (scalarAt cells · p)))⟩

/- An aggregate gathers all arguments, one after the other. -/
def aggregate (f : Aggregate) (args : List Spread) : Spread :=
  ⟨Size.one, fun _ =>
    .scalar <| .ofExcept (Fold.result f) <|
      (args.flatMap (items cells)).foldlM (Fold.addItem f) (.start f)⟩

/- The products of two arguments of one extent are summed. -/
def sumProduct (args : List Spread) : Spread :=
  ⟨Size.one, fun _ =>
    .scalar <| .ofExcept .ofFloat <|
      match args with
      | [a, b] =>
          if a.extent = b.extent then
            ProductNotes.sumScalars (a.scalars cells)
              (b.scalars cells)
          else .error .wrongValue
      | _ => .error .wrongValue⟩

/- The operand that a choice function selects at an offset. -/
def selected
    (f : Choice)
    (args : List Spread)
    (p : Point) : Operand :=
  match
    f.select args.length
      ((args[0]?.map (scalarAt cells · p)).getD .blank) with
  | .argument i =>
      if 0 < i then (args[i]?.map (·.get p)).getD .blank else .blank
  | .result v => .scalar v

/-
  A choice function hands on what it selects. A part of what
  does not have the extent of the result is taken.
-/
def choice (f : Choice) (args : List Spread) : Spread :=
  ⟨covering args, fun p =>
    (selected cells f args p).narrow (covering args) p⟩

end

/- Single operands only, or the same one at all offsets. -/
def Steady (a : Spread) : Prop :=
  (∀ p, a.extent.contains p = true → (a.get p).isSingle = true) ∨
    ∃ o, ∀ p, a.extent.contains p = true → a.get p = o

/-
  An aggregate can gather a spread from its operands. A sum of
  products takes a cell for an argument of one element.
-/
structure Suits (f : Aggregate) (a : Spread) : Prop where
  steady : a.Steady
  flat :
    f = .sumProduct →
      ∀ p q, a.extent.contains p = true → a.get p = .cell q →
        a.extent = Size.one

/- A choice gives, at each offset, what its function gives. -/
theorem scalarAt_choice
    (cells : Point → Scalar)
    (f : Choice)
    (args : List Spread)
    (p : Point) :
    (choice cells f args).scalarAt cells p =
      f.apply (args.map (scalarAt cells · p)) := by
  rw [scalarAt, choice]
  dsimp only
  rw [Operand.scalarAt_narrow, selected, Choice.apply,
    List.length_map, List.getElem?_map]
  generalize f.select args.length _ = selection
  cases selection with
  | result v => rfl
  | argument i =>
      dsimp only
      split
      · rw [List.getElem?_map]
        cases args[i]? <;> rfl
      · rfl

end Spread

/- An operation on operands over extents. -/
def Operation.spread
    (cells : Point → Scalar) :
    Operation → List Spread → Spread
  | .infixOp op => .elementwise cells op.onScalars
  | .negate => .elementwise cells (onFirst Scalar.negate)
  | .percent => .elementwise cells (onFirst Scalar.percent)
  | .aggregate .sumProduct => .sumProduct cells
  | .aggregate f => .aggregate cells f
  | .elementwise f => .elementwise cells f.apply
  | .choice f => .choice cells f

/- Only a choice hands on anything but scalars. -/
theorem Operation.get_spread
    (cells : Point → Scalar)
    {op : Operation}
    (hOp : ∀ f, op ≠ .choice f)
    (args : List Spread)
    (p : Point) :
    ∃ v, (op.spread cells args).get p = .scalar v := by
  cases op with
  | choice f => exact absurd rfl (hOp f)
  | aggregate f => cases f <;> exact ⟨_, rfl⟩
  | _ => exact ⟨_, rfl⟩

namespace Site

variable {s : Site} {cells : Point → Scalar}

/- What an expression means, given what the cells show. -/
def spread (s : Site) (cells : Point → Scalar) : Expr → Spread
  | .leaf _ l => ⟨(s.operand l).2, fun _ => (s.operand l).1⟩
  | .apply _ op args => op.spread cells (args.map (s.spread cells))

/- All cells that an expression reads show their scalars. -/
def Reveals
    (s : Site)
    (cells : Point → Scalar)
    (e : Expr) : Prop :=
  ∀ p, s.Reads e p → s.read p = .value (cells p)

/- The arguments of all aggregates can be gathered. -/
inductive Regular (s : Site) (cells : Point → Scalar) : Expr → Prop where
  | leaf (bracketed : Bool) (l : Leaf) :
      Regular s cells (.leaf bracketed l)
  | apply
      (bracketed : Bool)
      {op : Operation}
      {args : List Expr}
      (hArgs : ∀ a ∈ args, Regular s cells a)
      (hSuits :
        ∀ f, op = .aggregate f →
          ∀ a ∈ args, (s.spread cells a).Suits f) :
      Regular s cells (.apply bracketed op args)

------------------------------------------------------------
-- Extents
------------------------------------------------------------

/- The meaning has the extent of the result. -/
theorem extent_spread
    (s : Site)
    (cells : Point → Scalar)
    {e : Expr}
    (hProper : e.Proper) :
    (s.spread cells e).extent = s.extent e := by
  induction hProper with
  | leaf b _ =>
      rw [spread, extent]
  | @apply b op args _ _ ih =>
      have hArgs :
          Spread.covering (args.map (s.spread cells)) =
            (args.map s.extent).foldl Size.sup Size.one := by
        rw [Spread.covering, List.map_map]
        congr 1
        exact List.map_congr_left ih
      rw [spread]
      unfold extent
      cases op with
      | aggregate f => cases f <;> rfl
      | _ => exact hArgs

end Site

/-
  An operand that stands for a rectangle has a given size and
  lies on the sheet.
-/
def Operand.Spans (size : Size) : Operand → Prop
  | .array a => a.size = size
  | .area r => r.size = size ∧ r.clip = r
  | _ => True

theorem Operand.Spans.narrow
    {o : Operand}
    {t : Size}
    (hSpans : o.Spans t)
    (size : Size)
    (p : Point) :
    (o.narrow size p).Spans size := by
  cases o with
  | scalar v => trivial
  | cell q => trivial
  | array a =>
      unfold Operand.narrow
      dsimp only
      split
      · assumption
      · trivial
  | area r =>
      unfold Operand.narrow
      dsimp only
      split
      · rename_i hSize
        exact ⟨hSize, hSpans.2⟩
      · split <;> trivial

/- The cells of a reference on the sheet lie on the sheet. -/
theorem Reference.clip_toRect?
    {r : Reference}
    {anchor : Point}
    {bounds : Size}
    {a : Rect}
    (hBounds : bounds.Fits maxSize)
    (hOn : r.onSheet anchor = true)
    (hRect : r.toRect? anchor bounds = some a) :
    a.clip = a := by
  have hInside :
      a.origin.x + a.size.width ≤ maxSize.width ∧
        a.origin.y + a.size.height ≤ maxSize.height := by
    have hIndex :
        ∀ {c : Coord} {i limit : Nat},
          c.onSheet i limit = true → c.index i < limit := by
      intro c i limit hCoord
      simp only [Coord.onSheet, Bool.and_eq_true,
        decide_eq_true_eq] at hCoord
      rw [Coord.index]
      omega
    cases r with
    | cell x y =>
        cases hRect
        rw [onSheet, Bool.and_eq_true] at hOn
        have hX := hIndex hOn.1
        have hY := hIndex hOn.2
        simp only [Rect.single, Size.one]
        omega
    | area x y =>
        cases hRect
        simp only [onSheet, Span.onSheet, Bool.and_eq_true] at hOn
        have hLeft := hIndex hOn.1.1
        have hRight := hIndex hOn.1.2
        have hTop := hIndex hOn.2.1
        have hBottom := hIndex hOn.2.2
        simp only [Rect.spanning]
        omega
    | band axis span =>
        cases hRect
        simp only [onSheet, Span.onSheet, Bool.and_eq_true] at hOn
        have hFirst := hIndex hOn.1
        have hLast := hIndex hOn.2
        have hOther := hBounds
        simp only [Size.Fits] at hOther
        cases axis <;>
          simp only [Size.along, Point.along] at hFirst hLast <;>
          simp only [Rect.band, Rect.of, Span.low, Span.count,
            Span.high, Point.along] <;>
          omega
    | illegal => cases hRect
  rw [Rect.clip, Rect.mk.injEq]
  refine ⟨rfl, Size.ext ?_ ?_⟩ <;>
    simp only [Size.inf, Size.toPoint, Point.diff] <;>
    omega

namespace Site

variable {s : Site} {cells : Point → Scalar}

theorem spans_operand
    (hFits : s.grid.size.Fits maxSize)
    (l : Leaf) :
    (s.operand l).1.Spans (s.operand l).2 := by
  cases l with
  | constant v => trivial
  | array a => rfl
  | unreadable e cs => trivial
  | reference i =>
      rw [operand]
      split
      · unfold referenceOperand
        split
        · rename_i hOn
          split
          · trivial
          · rename_i hRect
            have hBounds : s.bounds.Fits maxSize :=
              Size.sup_fits hFits (by decide)
            exact ⟨rfl, Reference.clip_toRect? hBounds hOn hRect⟩
          · trivial
        · trivial
      · trivial

/- A leaf that stands for a cell has one element. -/
theorem operand_cell
    {l : Leaf}
    {q : Point}
    (hCell : (s.operand l).1 = .cell q) :
    (s.operand l).2 = Size.one := by
  cases l with
  | constant v => rfl
  | array a => cases hCell
  | unreadable e cs => rfl
  | reference i =>
      rw [operand] at hCell ⊢
      split
      · unfold referenceOperand at hCell ⊢
        grind
      · rfl

/- A rectangle that an expression spreads has its extent. -/
theorem spans_spread
    (hFits : s.grid.size.Fits maxSize)
    (cells : Point → Scalar)
    {e : Expr}
    (hProper : e.Proper)
    (p : Point) :
    ((s.spread cells e).get p).Spans (s.extent e) := by
  induction hProper with
  | leaf b _ =>
      rw [spread, extent]
      exact spans_operand hFits _
  | @apply b op args hCount hArgs ih =>
      by_cases hOp : ∀ f, op ≠ .choice f
      · rw [spread]
        rcases Operation.get_spread cells hOp
            (args.map (s.spread cells)) p with
          ⟨v, hScalar⟩
        rw [hScalar]
        trivial
      · obtain ⟨f, rfl⟩ : ∃ f, op = .choice f := by
          simpa using hOp
        have hExtent :=
          extent_spread s cells (.apply b hCount hArgs)
        rw [← hExtent, spread]
        -- whatever is selected has its own size
        have hSelected :
            ∃ t,
              (Spread.selected cells f (args.map (s.spread cells))
                p).Spans t := by
          unfold Spread.selected
          generalize f.select _ _ = selection
          cases selection with
          | result v => exact ⟨Size.one, trivial⟩
          | argument i =>
              dsimp only
              split
              · rw [List.getElem?_map]
                cases hArg : args[i]? with
                | none => exact ⟨Size.one, trivial⟩
                | some a =>
                    exact
                      ⟨_, ih a (List.mem_of_getElem? hArg)⟩
              · exact ⟨Size.one, trivial⟩
        rcases hSelected with ⟨t, hSpans⟩
        exact hSpans.narrow _ p

end Site

------------------------------------------------------------
-- Whole Rectangles
------------------------------------------------------------

namespace Rect

/- At an offset within its size, a rectangle has a cell. -/
theorem element_of_contains
    {r : Rect}
    (hClip : r.clip = r)
    {p : Point}
    (hIn : r.size.contains p = true) :
    r.element p = .ok (p.add r.origin.toSize) := by
  have hThere : r.clip.contains (p.add r.origin.toSize) = true := by
    rw [hClip]
    exact contains_clip_add (by rw [hClip]; exact hIn)
  unfold element
  split
  · rename_i hOne
    rw [hOne, Size.contains_iff] at hIn
    simp only [Size.one] at hIn
    congr 1
    ext <;> simp only [Point.add, Point.toSize] <;> omega
  · rw [Size.locate?_of_contains hIn]
    dsimp only
    rw [contains_clip] at hThere
    rw [if_pos hThere.2]

end Rect

namespace Spread

variable {cells : Point → Scalar} {a : Spread}

/- The elements of an array are gathered as they stand. -/
theorem items_of_array
    {b : ScalarArray}
    (hGet :
      ∀ p, a.extent.contains p = true → a.get p = .array b)
    (hSize : b.size = a.extent) :
    a.items cells = b.data.toList.map .content := by
  rw [items, b.data_eq_map, List.map_map, ← hSize]
  refine List.map_congr_left fun p hp => ?_
  rw [Rect.mem_points, Rect.contains_whole, hSize] at hp
  rw [hGet p hp]
  rfl

/- The cells of a rectangle are gathered as they stand. -/
theorem items_of_area
    {r : Rect}
    (hGet : ∀ p, a.extent.contains p = true → a.get p = .area r)
    (hSpans : (Operand.area r).Spans a.extent) :
    a.items cells = r.points.map fun q => .content (cells q) := by
  rcases hSpans with ⟨hSize, hClip⟩
  rw [items, r.points_eq_map, List.map_map, ← hSize]
  refine List.map_congr_left fun p hp => ?_
  rw [Rect.mem_points, Rect.contains_whole] at hp
  rw [hGet p (hSize ▸ hp), Operand.itemAt, Operand.scalarAt,
    Rect.element_of_contains hClip hp]
  · rfl
  · simp

/- The scalars are those that are gathered. -/
theorem scalars_eq_map (a : Spread) :
    a.scalars cells = (a.items cells).map Item.scalar := by
  rw [scalars, items, List.map_map]
  refine List.map_congr_left fun p _ => ?_
  exact (Operand.scalar_itemAt cells (a.get p) p).symm

end Spread

------------------------------------------------------------
-- Expressions Without Choices
------------------------------------------------------------

/- No choice function is part of an expression. -/
inductive Expr.ChoiceFree : Expr → Prop where
  | leaf (bracketed : Bool) (l : Leaf) :
      Expr.ChoiceFree (.leaf bracketed l)
  | apply
      (bracketed : Bool)
      {op : Operation}
      {args : List Expr}
      (hOp : ∀ f, op ≠ .choice f)
      (hArgs : ∀ a ∈ args, Expr.ChoiceFree a) :
      Expr.ChoiceFree (.apply bracketed op args)

namespace Site

variable (s : Site) (cells : Point → Scalar)

/- What is not chosen can be gathered. -/
theorem steady_of_choiceFree
    {e : Expr}
    (hFree : e.ChoiceFree) :
    (s.spread cells e).Steady := by
  cases hFree with
  | leaf b l =>
      rw [spread]
      exact Or.inr ⟨_, fun _ _ => rfl⟩
  | apply b hOp _ =>
      rw [spread]
      refine Or.inl fun p _ => ?_
      rcases Operation.get_spread cells hOp _ p with ⟨v, hScalar⟩
      rw [hScalar]
      rfl

/- A cell that is not chosen is a single element. -/
theorem suits_of_choiceFree
    (f : Aggregate)
    {e : Expr}
    (hFree : e.ChoiceFree) :
    (s.spread cells e).Suits f := by
  refine ⟨s.steady_of_choiceFree cells hFree, fun _ p q _ hCell => ?_⟩
  cases hFree with
  | leaf b l =>
      rw [spread] at hCell ⊢
      exact operand_cell hCell
  | apply b hOp _ =>
      rw [spread] at hCell
      rcases Operation.get_spread cells hOp _ p with ⟨v, hScalar⟩
      rw [hScalar] at hCell
      cases hCell

theorem regular_of_choiceFree
    {e : Expr}
    (hFree : e.ChoiceFree) :
    s.Regular cells e := by
  induction hFree with
  | leaf b l => exact .leaf b l
  | apply b _ hArgs ih =>
      exact
        .apply b ih fun f _ a ha =>
          s.suits_of_choiceFree cells f (hArgs a ha)

end Site

end Spreadsheet
