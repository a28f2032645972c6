import Spreadsheet.Proofs.Evaluation.Later
import Spreadsheet.Proofs.Evaluation.Visit

/-
  The same formula on two sheets that agree on some cells.

  A node goes on in the same way on both, as long as its
  operand stands only for cells that the sheets agree on. A
  node that is suppressed needs no cell.

  Main declarations:
    * `Site.Alike`
    * `Site.Agrees`
    * `Notes.afterOperand_agrees`
    * `Notes.leave_agrees`
-/

namespace Spreadsheet

open Registers

namespace Site

------------------------------------------------------------
-- Sheets Of One Size
------------------------------------------------------------

/- The same formula at one place, with sheets of one size. -/
structure Alike (s t : Site) : Prop where
  size : t.grid.size = s.grid.size
  refs : t.refs = s.refs
  location : t.location = s.location

namespace Alike

variable {s t u : Site}

theorem refl (s : Site) : s.Alike s :=
  ⟨rfl, rfl, rfl⟩

theorem symm (hAlike : s.Alike t) : t.Alike s :=
  ⟨hAlike.size.symm, hAlike.refs.symm, hAlike.location.symm⟩

theorem trans (hFirst : s.Alike t) (hNext : t.Alike u) :
    s.Alike u :=
  ⟨hNext.size.trans hFirst.size, hNext.refs.trans hFirst.refs,
    hNext.location.trans hFirst.location⟩

theorem operand (hAlike : s.Alike t) (l : Leaf) :
    t.operand l = s.operand l :=
  operand_eq hAlike.size hAlike.refs hAlike.location l

theorem reads (hAlike : s.Alike t) : t.Reads = s.Reads := by
  funext e p
  exact propext
    ⟨.congr hAlike.symm.size hAlike.symm.refs hAlike.symm.location,
      .congr hAlike.size hAlike.refs hAlike.location⟩

theorem extent (hAlike : s.Alike t) : t.extent = s.extent := by
  funext e
  induction e using Site.extent.induct with
  | case1 b l => rw [Site.extent, Site.extent, hAlike.operand]
  | case2 b f args => rw [Site.extent, Site.extent]
  | case3 b op args hOp ih =>
      rw [t.extent_apply b hOp, s.extent_apply b hOp, Site.spanned,
        Site.spanned, List.take_length, List.map_congr_left ih]

theorem left (hAlike : s.Alike t) : Left t = Left s := by
  funext e r r'
  refine propext ⟨fun h => ?_, fun h => ?_⟩
  · exact ⟨h.suppressed, h.circular, h.offset, h.missing,
      h.extent.trans (congrFun hAlike.extent e),
      hAlike.reads ▸ h.value, h.scalar⟩
  · exact ⟨h.suppressed, h.circular, h.offset, h.missing,
      h.extent.trans (congrFun hAlike.extent e).symm,
      hAlike.symm.reads ▸ h.value, h.scalar⟩

end Alike

------------------------------------------------------------
-- Cells That Are Read Alike
------------------------------------------------------------

/- There is the same to read in all cells of some kind. -/
structure Agrees
    (covers : Point → Prop)
    (s t : Site) : Prop extends s.Alike t where
  read : ∀ {p}, covers p → t.read p = s.read p

end Site

variable {s t : Site} {covers : Point → Prop}

namespace Registers

variable {r : Registers}

theorem read_agrees
    (hAgrees : s.Agrees covers t)
    {p : Point}
    (hCovers : covers p) :
    r.read t p = r.read s p := by
  rw [read, read, hAgrees.read hCovers]

theorem element_agrees
    (hAgrees : s.Agrees covers t)
    {o : Operand}
    (hWithin : o.Within covers) :
    r.element t o = r.element s o := by
  cases o with
  | scalar v => rfl
  | array a => rfl
  | cell p => exact read_agrees hAgrees hWithin
  | area a =>
      unfold element
      dsimp only
      cases hElement : a.element r.offset with
      | error e => rfl
      | ok p =>
          exact
            read_agrees hAgrees
              (hWithin (Rect.contains_element hElement))

theorem result_agrees
    (hAgrees : s.Agrees covers t)
    (hWithin : r.value.Within covers) :
    r.result t = r.result s :=
  element_agrees hAgrees hWithin

theorem reduce_agrees
    (hAgrees : s.Agrees covers t)
    (hWithin : r.suppressed = false → r.value.Within covers) :
    r.reduce t = r.reduce s := by
  unfold reduce
  split
  · rfl
  · rename_i hNeeded
    rw [result_agrees hAgrees (hWithin (by simpa using hNeeded))]

end Registers

------------------------------------------------------------
-- Rectangles
------------------------------------------------------------

/- Cells that are treated alike are folded alike. -/
theorem Rect.foldUntil_congr
    {ε τ : Type}
    {area : Rect}
    {f g : Point → τ → Except ε τ}
    (hSame : ∀ p a, area.contains p = true → f p a = g p a)
    (a : τ) :
    area.foldUntil f a = area.foldUntil g a := by
  rw [foldUntil_eq_foldlM, foldUntil_eq_foldlM,
    List.foldlM_eq_foldl, List.foldlM_eq_foldl]
  refine List.foldl_ext _ _ _ fun a p hIn => ?_
  rw [Rect.mem_points] at hIn
  exact bind_congr fun b => hSame p b hIn

namespace Registers

variable {ε τ : Type} {r : Registers}

theorem foldArea_agrees
    (hAgrees : s.Agrees covers t)
    {area : Rect}
    (hCovers : ∀ {p}, area.contains p = true → covers p)
    (op : Scalar → τ → Except ε τ)
    (a : τ) :
    r.foldArea t area op a = r.foldArea s area op a := by
  unfold foldArea
  rw [Rect.foldUntil_congr fun p g hIn => ?_]
  rw [Rect.contains_clip] at hIn
  simp only [Gathering.read, hAgrees.read (hCovers hIn.1)]

theorem foldAreas_agrees
    (hAgrees : s.Agrees covers t)
    {first second : Rect}
    (hFirst : ∀ {p}, first.contains p = true → covers p)
    (hSecond : ∀ {p}, second.contains p = true → covers p)
    (op : Scalar → Scalar → τ → Except ε τ)
    (a : τ) :
    r.foldAreas t first second op a =
      r.foldAreas s first second op a := by
  unfold foldAreas
  rw [Rect.foldUntil_congr fun p g hIn => ?_]
  rw [Rect.contains_whole] at hIn
  have hRead := hAgrees.read (hFirst (Rect.contains_clip_add hIn))
  have hReadIf :
      ∀ g : Gathering τ,
        g.readIf (ε := ε) (second.clip.size.contains p) t
            (p.add second.origin.toSize) =
          g.readIf (second.clip.size.contains p) s
            (p.add second.origin.toSize) := by
    intro g
    unfold Gathering.readIf
    split
    · rename_i hInside
      rw [Gathering.read, Gathering.read,
        hAgrees.read (hSecond (Rect.contains_clip_add hInside))]
    · rfl
  simp only [Gathering.read, hRead, hReadIf]

end Registers

------------------------------------------------------------
-- Nodes
------------------------------------------------------------

theorem AggregateNotes.afterOperand_agrees
    (hAgrees : s.Agrees covers t)
    {f : Aggregate}
    {n : AggregateNotes}
    {r : Registers}
    (hWithin : r.suppressed = false → r.value.Within covers) :
    n.afterOperand f t r = n.afterOperand f s r := by
  unfold afterOperand
  split
  · rfl
  · rename_i hNeeded
    replace hWithin := hWithin (by simpa using hNeeded)
    cases n.fold with
    | error e => rfl
    | ok fold =>
        dsimp only
        unfold foldOperand
        cases hValue : r.value with
        | scalar v => rfl
        | array a => rfl
        | cell p =>
            rw [hValue] at hWithin
            dsimp only
            rw [read_agrees hAgrees hWithin]
        | area a =>
            rw [hValue] at hWithin
            dsimp only
            rw [foldArea_agrees hAgrees hWithin]

theorem Factor.collect_agrees
    (hAgrees : s.Agrees covers t)
    {a : Factor}
    (hWithin : a.Within covers)
    (r : Registers) :
    a.collect t r = a.collect s r := by
  cases a with
  | scalars extent vs => rfl
  | area a =>
      unfold collect
      dsimp only
      rw [foldArea_agrees hAgrees hWithin]

namespace ProductNotes

theorem afterOperand_agrees
    (hAgrees : s.Agrees covers t)
    {i : Nat}
    {n : ProductNotes}
    {r : Registers}
    (hWithin : r.suppressed = false → r.value.Within covers) :
    n.afterOperand t i r = n.afterOperand s i r := by
  unfold afterOperand
  split
  · rfl
  · rename_i hNeeded
    replace hWithin := hWithin (by simpa using hNeeded)
    cases hValue : r.value with
    | scalar v => rfl
    | array a => rfl
    | area a => rfl
    | cell p =>
        rw [hValue] at hWithin
        dsimp only
        rw [read_agrees hAgrees hWithin]

theorem sumFactors_agrees
    (hAgrees : s.Agrees covers t)
    {a b : Factor}
    (hFirst : a.Within covers)
    (hSecond : b.Within covers)
    (r : Registers) :
    sumFactors t a b r = sumFactors s a b r := by
  unfold sumFactors
  split
  · unfold sumAreas
    rw [foldAreas_agrees hAgrees hFirst hSecond]
  · simp only [Factor.collect_agrees hAgrees hFirst,
      Factor.collect_agrees hAgrees hSecond]

theorem leave_agrees
    (hAgrees : s.Agrees covers t)
    {n : ProductNotes}
    {r : Registers}
    (hWithin : r.suppressed = false → n.Within covers) :
    n.leave t r = n.leave s r := by
  unfold leave
  split
  · rfl
  · rename_i hNeeded
    replace hWithin := hWithin (by simpa using hNeeded)
    have hSame : n.compute t r = n.compute s r := by
      unfold compute
      split
      · rename_i a b hFirst hSecond
        split
        · exact
            sumFactors_agrees hAgrees (hWithin 0 a hFirst)
              (hWithin 1 b hSecond) r
        · rfl
      · rfl
    rw [hSame]

end ProductNotes

namespace Notes

/- A node goes on alike after one of its operands. -/
theorem afterOperand_agrees
    (hAgrees : s.Agrees covers t)
    {i : Nat}
    {n : Notes}
    {r : Registers}
    (hWithin : r.suppressed = false → r.value.Within covers) :
    n.afterOperand t i r = n.afterOperand s i r := by
  have hReduce := reduce_agrees hAgrees hWithin
  cases n with
  | leaf l => rfl
  | infixOp op n =>
      refine congrArg (lift _) ?_
      rw [InfixNotes.afterOperand, InfixNotes.afterOperand, hReduce]
  | unary f n =>
      refine congrArg (lift _) ?_
      rw [UnaryNotes.afterOperand, UnaryNotes.afterOperand, hReduce]
  | elementwise f n =>
      refine congrArg (lift _) ?_
      rw [ElementwiseNotes.afterOperand,
        ElementwiseNotes.afterOperand, hReduce]
  | choice f count n =>
      refine congrArg (lift _) ?_
      rw [ChoiceNotes.afterOperand, ChoiceNotes.afterOperand,
        ChoiceNotes.afterSelector, ChoiceNotes.afterSelector, hReduce]
  | aggregate f n =>
      exact
        congrArg (lift _)
          (AggregateNotes.afterOperand_agrees hAgrees hWithin)
  | product n =>
      exact
        congrArg (lift _)
          (ProductNotes.afterOperand_agrees hAgrees hWithin)

/- A node is left alike. -/
theorem leave_agrees
    (hAgrees : s.Agrees covers t)
    {n : Notes}
    {r : Registers}
    (hWithin :
      ∀ m, n = .product m → r.suppressed = false →
        m.Within covers) :
    n.leave t r = n.leave s r := by
  cases n with
  | leaf l => rw [leave, leave, hAgrees.operand]
  | product n =>
      exact
        congrArg (lift _)
          (ProductNotes.leave_agrees hAgrees (hWithin n rfl))
  | infixOp op n => rfl
  | unary f n => rfl
  | aggregate f n => rfl
  | elementwise f n => rfl
  | choice f count n => rfl

end Notes

end Spreadsheet
