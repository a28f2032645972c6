import Mathlib
import Spreadsheet.Evaluation.Evaluator
import Spreadsheet.Proofs.Reference.Ends

/-
  References after columns or rows were inserted.

  Seen from where its formula is then, a reference addresses
  everything between the new places of its ends. If an end is
  pushed off the sheet, the reference is an error from there,
  whether it was made illegal or is left as it was.

  Main declarations:
    * `Reference.DeadAt`
    * `Reference.InsertedTo`
    * `Reference.insertedTo_inserted`
    * `References.insertion_moves_ends`
-/

namespace Spreadsheet

variable {before count limit p q : Nat}

------------------------------------------------------------
-- Spans
------------------------------------------------------------

namespace Span

variable {s t : Span} {anchor : Nat}

/- A single coordinate is moved as two equal ends are. -/
theorem insert?_single (anchor before count limit : Nat) (c : Coord) :
    Span.insert? ⟨c, c⟩ anchor before count limit =
      (c.insert? anchor before count limit).map fun c => ⟨c, c⟩ := by
  unfold Span.insert?
  cases c.insert? anchor before count limit <;> rfl

theorem insert?_eq_some
    (hInsert : s.insert? anchor before count limit = some t) :
    s.start.insert? anchor before count limit = some t.start ∧
      s.stop.insert? anchor before count limit = some t.stop := by
  simp only [insert?, Option.bind_eq_bind, Option.bind_eq_some_iff,
    Option.some.injEq] at hInsert
  rcases hInsert with ⟨start, hStart, stop, hStop, rfl⟩
  exact ⟨hStart, hStop⟩

theorem sameMarks_of_insert?
    (hInsert : s.insert? anchor before count limit = some t) :
    s.SameMarks t :=
  have hEnds := insert?_eq_some hInsert
  ⟨Coord.isAbsolute_of_insert? hEnds.1,
    Coord.isAbsolute_of_insert? hEnds.2⟩

/- Two ends that are one coordinate are so afterwards. -/
theorem start_eq_stop_of_insert?
    (hInsert : s.insert? anchor before count limit = some t)
    (hOne : s.start = s.stop) :
    t.start = t.stop := by
  have hEnds := insert?_eq_some hInsert
  rw [hOne, hEnds.2] at hEnds
  exact (Option.some.inj hEnds.1).symm

/- The ends of a span that is left, as they are seen then. -/
theorem at_of_insert?
    (hAt : s.At anchor p q)
    (hInsert : s.insert? anchor before count limit = some t) :
    t.At (afterInsertion before count anchor)
      (afterInsertion before count p)
      (afterInsertion before count q) :=
  have hEnds := insert?_eq_some hInsert
  ⟨Coord.position_of_insert? hEnds.1 hAt.1,
    Coord.position_of_insert? hEnds.2 hAt.2⟩

/- A span is lost only if one of its ends is pushed off. -/
theorem pushed_of_insert?_eq_none
    (hAt : s.At anchor p q)
    (hInsert : s.insert? anchor before count limit = none) :
    ¬ (afterInsertion before count p < limit ∧
        afterInsertion before count q < limit) := by
  intro hRoom
  have hKept :
      ∀ {c : Coord} {i : Nat},
        c.position anchor = i →
        afterInsertion before count i < limit →
        ∃ c', c.insert? anchor before count limit = some c' := by
    intro c i hPosition hFits
    refine Coord.exists_insert? hPosition fun hPushed => ?_
    rw [afterInsertion, if_pos hPushed.1] at hFits
    omega
  rcases hKept hAt.1 hRoom.1 with ⟨start, hStart⟩
  rcases hKept hAt.2 hRoom.2 with ⟨stop, hStop⟩
  rw [insert?, hStart, hStop] at hInsert
  cases hInsert

end Span

------------------------------------------------------------
-- References That Lead Nowhere
------------------------------------------------------------

/- The evaluation of a leaf is the leaf as an operand. -/
theorem Evaluation.fst_advance_leaf
    (s : Site)
    (owner : Handle)
    (bracketed : Bool)
    {l : Leaf}
    {v : Scalar}
    (hOperand : s.operand l = (.scalar v, Size.one)) :
    (Evaluation.start.advance s owner (.leaf bracketed l)).1 =
      .ready v := by
  have hRun :
      Walk.run s.visitor (.leaf bracketed l)
          (s.fuel (.leaf bracketed l)) none Registers.start =
        (.done, some [],
          Registers.start.publish (.scalar v) Size.one) := by
    rw [Site.fuel, Expr.stepBound]
    change
      (WalkStatus.done, some [],
          Registers.start.publish (s.operand l).1 (s.operand l).2) =
        _
    rw [hOperand]
  rw [Evaluation.advance]
  simp only [Evaluation.start, Bool.false_eq_true, if_false, hRun]
  rfl

namespace Reference

/-
  Seen from a cell, a reference leads off the sheet. It is
  spelled as an error, and in a formula of that cell it is one.
-/
structure DeadAt (r : Reference) (anchor : Point) : Prop where
  offSheet : r.onSheet anchor = false
  source : r.source anchor = ErrorValue.badReference.text.toList
  operand :
    ∀ (s : Site) i, s.location = anchor → s.refs[i]? = some r →
      s.operand (.reference i) = (.error .badReference, Size.one)
  value :
    ∀ (s : Site) owner bracketed i,
      s.location = anchor → s.refs[i]? = some r →
        (Evaluation.start.advance s owner
            (.leaf bracketed (.reference i))).1 =
          .ready (.error .badReference)

theorem deadAt_of_offSheet
    {r : Reference}
    {anchor : Point}
    (hOff : r.onSheet anchor = false) :
    r.DeadAt anchor := by
  have hOperand :
      ∀ (s : Site) i, s.location = anchor → s.refs[i]? = some r →
        s.operand (.reference i) =
          (.error .badReference, Size.one) := by
    rintro s i rfl hRef
    simp [Site.operand, Site.referenceOperand, hRef, hOff]
  refine ⟨hOff, ?_, hOperand, ?_⟩
  · unfold Reference.source
    rw [hOff]
    rfl
  · intro s owner bracketed i hHere hRef
    exact
      Evaluation.fst_advance_leaf s owner bracketed
        (hOperand s i hHere hRef)

end Reference

------------------------------------------------------------
-- References
------------------------------------------------------------

/- A rectangle that reaches from `i` to `j` along an axis. -/
def Rect.stretch (a : Rect) (axis : Axis) (i j : Nat) : Rect :=
  ⟨a.origin.setAlong axis (min i j),
    a.size.setAlong axis (max i j - min i j + 1)⟩

/- Where a cell is after an insertion. -/
def Point.afterInsertion
    (p : Point)
    (axis : Axis)
    (before count : Nat) : Point :=
  p.setAlong axis
    (Spreadsheet.afterInsertion before count (p.along axis))

namespace Reference

/-
  A reference became another one by an insertion along an axis.
  If it was on the sheet, and so are the new places of its
  ends, then it addresses what lies between them. What it says
  along the other axis stays, and so does which of its ends
  are fixed. Else it leads nowhere from where its formula is.
  What reaches across the insertion means what it did.
-/
structure InsertedTo
    (axis : Axis)
    (before count : Nat)
    (anchor : Point)
    (r r' : Reference) : Prop where
  across_stays :
    r.endsAlong axis = none →
      let anchor' := anchor.afterInsertion axis before count
      r' = r ∧ r'.onSheet anchor' = r.onSheet anchor ∧
        ∀ bounds, r'.toRect? anchor' bounds = r.toRect? anchor bounds
  kept :
    r.onSheet anchor = true →
      ∀ s, r.endsAlong axis = some s →
        let i :=
          Spreadsheet.afterInsertion before count
            (s.start.index (anchor.along axis))
        let j :=
          Spreadsheet.afterInsertion before count
            (s.stop.index (anchor.along axis))
        let anchor' := anchor.afterInsertion axis before count
        i < maxSize.along axis ∧ j < maxSize.along axis →
          r'.onSheet anchor' = true ∧
            r'.endsAlong axis.cross = r.endsAlong axis.cross ∧
            (∃ t, r'.endsAlong axis = some t ∧ s.SameMarks t) ∧
            ∀ bounds,
              r'.toRect? anchor' bounds =
                (r.toRect? anchor bounds).map (·.stretch axis i j)
  dead :
    r.onSheet anchor = true →
      ∀ s, r.endsAlong axis = some s →
        let i :=
          Spreadsheet.afterInsertion before count
            (s.start.index (anchor.along axis))
        let j :=
          Spreadsheet.afterInsertion before count
            (s.stop.index (anchor.along axis))
        ¬ (i < maxSize.along axis ∧ j < maxSize.along axis) →
          r'.DeadAt (anchor.afterInsertion axis before count)

variable
  {axis : Axis}
  {r : Reference}
  {anchor : Point}
  {s t : Span}

theorem inserted_eq
    (axis : Axis)
    (anchor before count : Nat)
    (r : Reference) :
    r.inserted axis anchor before count =
      (r.endsAlong axis).elim r fun s =>
        (s.insert? anchor before count (maxSize.along axis)).elim
          .illegal (r.setEnds axis) :=
  adjustAlong_eq
    (Span.insert?_single anchor before count (maxSize.along axis))
    axis r

/- What is addressed with other ends along an axis. -/
theorem toRect?_setEnds
    (hEnds : r.endsAlong axis = some s)
    (hOne : s.start = s.stop → t.start = t.stop)
    {i : Nat}
    (hAt : t.At i p q)
    (bounds : Size) :
    (r.setEnds axis t).toRect? (anchor.setAlong axis i) bounds =
      (r.toRect? anchor bounds).map (·.stretch axis p q) := by
  have hLegal := ne_illegal_of_endsAlong hEnds
  have hEnds' := endsAlong_setEnds hEnds hOne
  have hCross := endsAlong_cross_setEnds hEnds t
  rw [toRect?_eq hLegal,
    toRect?_eq (setEnds_ne_illegal hLegal axis t), Option.map_some]
  cases axis <;>
    simp only [Axis.cross] at hCross <;>
    simp only [firstAlong, countAlong, hEnds', hCross,
      Option.elim_some, Rect.stretch, Point.setAlong, Point.along,
      Size.setAlong, hAt.low, hAt.count]

theorem insertedTo_across (hAcross : r.endsAlong axis = none) :
    InsertedTo axis before count anchor r r := by
  refine
    ⟨fun _ =>
        ⟨rfl, onSheet_of_across hAcross _ _,
          toRect?_of_across hAcross _ _⟩,
      fun _ s hEnds => ?_, fun _ s hEnds => ?_⟩ <;>
    · rw [hAcross] at hEnds
      cases hEnds

/- An end of a reference that is made illegal was pushed off. -/
theorem insertedTo_illegal
    (hEnds : r.endsAlong axis = some s)
    (hInsert :
      s.insert? (anchor.along axis) before count
          (maxSize.along axis) =
        none) :
    InsertedTo axis before count anchor r .illegal := by
  refine
    ⟨fun hAcross => ?_, fun hSheet s' hEnds' => ?_,
      fun _ _ _ _ => deadAt_of_offSheet rfl⟩
  · rw [hAcross] at hEnds
    cases hEnds
  · rw [hEnds] at hEnds'
    cases hEnds'
    have hAt := Span.at_of_onSheet (onSheet_ends hSheet hEnds)
    exact fun hRoom =>
      absurd hRoom (Span.pushed_of_insert?_eq_none hAt hInsert)

/- Else it has the new ends, be they on the sheet or not. -/
theorem insertedTo_setEnds
    (hEnds : r.endsAlong axis = some s)
    (hInsert :
      s.insert? (anchor.along axis) before count
          (maxSize.along axis) =
        some t) :
    InsertedTo axis before count anchor r (r.setEnds axis t) := by
  have hOne := Span.start_eq_stop_of_insert? hInsert
  have hSeen :=
    fun hSheet =>
      Span.at_of_insert?
        (Span.at_of_onSheet (onSheet_ends hSheet hEnds)) hInsert
  -- on the sheet are the places to which the ends are moved
  have hSheet_iff :=
    fun hSheet =>
      (onSheet_setEnds_iff hEnds hOne hSheet
        (Spreadsheet.afterInsertion before count
          (anchor.along axis))).trans
        (hSeen hSheet).onSheet_iff
  refine
    ⟨fun hAcross => ?_, fun hSheet s' hEnds' => ?_,
      fun hSheet s' hEnds' => ?_⟩
  · rw [hAcross] at hEnds
    cases hEnds
  · rw [hEnds] at hEnds'
    cases hEnds'
    intro i j anchor' hRoom
    exact
      ⟨(hSheet_iff hSheet).2 hRoom, endsAlong_cross_setEnds hEnds t,
        ⟨t, endsAlong_setEnds hEnds hOne,
          Span.sameMarks_of_insert? hInsert⟩,
        toRect?_setEnds hEnds hOne (hSeen hSheet)⟩
  · rw [hEnds] at hEnds'
    cases hEnds'
    intro i j hPushed
    refine deadAt_of_offSheet (Bool.eq_false_iff.2 fun hOn => ?_)
    exact hPushed ((hSheet_iff hSheet).1 hOn)

/- An adjusted reference is what an insertion makes of it. -/
theorem insertedTo_inserted
    (axis : Axis)
    (before count : Nat)
    (anchor : Point)
    (r : Reference) :
    InsertedTo axis before count anchor r
      (r.inserted axis (anchor.along axis) before count) := by
  rw [inserted_eq]
  cases hEnds : r.endsAlong axis with
  | none => exact insertedTo_across hEnds
  | some s =>
      rw [Option.elim_some]
      cases hInsert :
          s.insert? (anchor.along axis) before count
            (maxSize.along axis) with
      | none => exact insertedTo_illegal hEnds hInsert
      | some t => exact insertedTo_setEnds hEnds hInsert

end Reference

------------------------------------------------------------
-- Lists
------------------------------------------------------------

/-
  After columns or rows were inserted, each reference of a
  formula addresses what lies between the new places of its
  ends, as seen from where the formula is then, or it leads
  nowhere if one of them is off the sheet. There is no new
  list only if no reference has changed.
-/
theorem References.insertion_moves_ends
    (axis : Axis)
    (before count : Nat)
    (anchor : Point)
    (refs : References) :
    let adjusted? :=
      refs.adjustToInsertion? axis (anchor.along axis) before count
    List.Forall₂ (Reference.InsertedTo axis before count anchor) refs
        (adjusted?.getD refs) ∧
      (adjusted? = none ↔ adjusted?.getD refs = refs) := by
  dsimp only
  rw [adjustToInsertion?_eq]
  exact
    forall₂_changed?
      (Reference.insertedTo_inserted axis before count anchor) refs

/- An area grows, and a cell of the last row is pushed off. -/
example :
    References.adjustToInsertion?
        [.area ⟨.relative 2, .relative 3⟩ ⟨.relative 0, .absolute 2⟩,
          .cell (.relative 0) (.absolute 2147483646)]
        .rows 0 1 3 =
      some
        [.area ⟨.relative 2, .relative 3⟩ ⟨.relative 0, .absolute 5⟩,
          .illegal] := by
  decide

end Spreadsheet
