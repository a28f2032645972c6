import Spreadsheet.Proofs.Evaluation.Advance
import Spreadsheet.Proofs.Expr.Walk

/-
  The same formula at a later time, when more cells can be
  read.

  An evaluation that did not have to wait for any cell comes
  to the same then, as long as the cells that could be read
  have kept their values.

  Main declarations:
    * `Site.Later`
    * `Evaluation.advance_later`
-/

namespace Spreadsheet

/-
  A site at a later time. What could be read before is read
  again, and the same cells are in the way of a result.
-/
structure Site.Later (s t : Site) : Prop where
  size : t.grid.size = s.grid.size
  blocks :
    ∀ owner p,
      (t.grid.get? p).any (Registers.blocks owner) =
        (s.grid.get? p).any (Registers.blocks owner)
  refs : t.refs = s.refs
  location : t.location = s.location
  read : ∀ {p v}, s.read p = .value v → t.read p = .value v

variable {s t : Site}

/- Operands do not depend on what can be read. -/
theorem Site.operand_eq
    (hSize : t.grid.size = s.grid.size)
    (hRefs : t.refs = s.refs)
    (hLocation : t.location = s.location)
    (l : Leaf) :
    t.operand l = s.operand l := by
  have hBounds : t.bounds = s.bounds := by
    rw [Site.bounds, Site.bounds, hSize]
  cases l with
  | reference i =>
      simp only [Site.operand, Site.referenceOperand, hRefs,
        hLocation, hBounds]
  | constant v => rfl
  | array a => rfl
  | unreadable e cs => rfl

theorem Site.Later.operand
    (hLater : s.Later t)
    (l : Leaf) :
    t.operand l = s.operand l :=
  Site.operand_eq hLater.size hLater.refs hLater.location l

theorem Site.reach_eq
    (hSize : t.grid.size = s.grid.size)
    (hRefs : t.refs = s.refs)
    (hLocation : t.location = s.location)
    {e : Expr}
    (hProper : e.Proper) :
    t.reach e = s.reach e := by
  induction hProper with
  | leaf b hLeaf =>
      rw [Site.reach, Site.reach,
        Site.operand_eq hSize hRefs hLocation]
  | apply b hCount hArgs ih =>
      rw [Site.reach, Site.reach, List.map_congr_left ih]

------------------------------------------------------------
-- Single Cells
------------------------------------------------------------

namespace Registers

theorem read_later
    (hLater : s.Later t)
    {r : Registers}
    {p : Point}
    (hRead : (r.read s p).1 ≠ none) :
    r.read t p = r.read s p := by
  unfold read at hRead ⊢
  cases hCell : s.read p with
  | value v => rw [hLater.read hCell]
  | pending id =>
      rw [hCell] at hRead
      exact absurd rfl hRead
  | circular =>
      rw [hCell] at hRead
      exact absurd rfl hRead

theorem element_later
    (hLater : s.Later t)
    {r : Registers}
    {o : Operand}
    (hRead : (r.element s o).1 ≠ none) :
    r.element t o = r.element s o := by
  cases o with
  | scalar v => rfl
  | array a => rfl
  | cell p => exact read_later hLater hRead
  | area a =>
      unfold element at hRead ⊢
      dsimp only at hRead ⊢
      cases hElement : a.element r.offset with
      | ok p =>
          rw [hElement] at hRead
          exact read_later hLater hRead
      | error e => rfl

theorem result_later
    (hLater : s.Later t)
    {r : Registers}
    (hRead : (r.result s).1 ≠ none) :
    r.result t = r.result s :=
  element_later hLater hRead

theorem reduce_later
    (hLater : s.Later t)
    {r : Registers}
    (hRead : ∀ r', r.reduce s ≠ (.waiting, r')) :
    r.reduce t = r.reduce s := by
  unfold reduce at hRead ⊢
  split
  · rfl
  · rename_i hNeeded
    rw [if_neg hNeeded] at hRead
    rw [result_later hLater]
    intro hNone
    generalize r.result s = res at hRead hNone
    rcases res with ⟨v, r'⟩
    obtain rfl : v = none := hNone
    exact hRead r' rfl

end Registers

------------------------------------------------------------
-- Rectangles
------------------------------------------------------------

namespace Gathering

variable {ε τ β γ : Type}

/- A run had to wait for a cell. -/
def Waited : Ended ε τ → Prop
  | (.waiting _, _) => True
  | _ => False

/- A run has to wait for a cell, wherever it ends. -/
def Waits
    (view : β → Gathering τ) : Except (Ended ε τ) β → Prop
  | .ok b => (view b).waiting = true
  | .error ended => Waited ended

/- A run is the same later, unless it has to wait. -/
def Lasts
    (view : β → Gathering τ)
    (x later : Except (Ended ε τ) β) : Prop :=
  later = x ∨ Waits view x

variable {view : β → Gathering τ} {view' : γ → Gathering τ}
variable {x later : Except (Ended ε τ) β}

theorem Waits.bind
    {f : β → Except (Ended ε τ) γ}
    (hWaits : Waits view x)
    (hNext : ∀ b, (view b).waiting = true → Waits view' (f b)) :
    Waits view' (x >>= f) := by
  cases x with
  | ok b => exact hNext b hWaits
  | error ended => exact hWaits

theorem Lasts.bind
    {f f' : β → Except (Ended ε τ) γ}
    (hLasts : Lasts view x later)
    (hNext : ∀ b, Lasts view' (f b) (f' b))
    (hWaiting : ∀ b, (view b).waiting = true → Waits view' (f b)) :
    Lasts view' (x >>= f) (later >>= f') := by
  rcases hLasts with rfl | hWaits
  · cases later with
    | ok b => exact hNext b
    | error ended => exact Or.inl rfl
  · exact Or.inr (hWaits.bind hWaiting)

theorem waits_read
    {g : Gathering τ}
    (hWaiting : g.waiting = true)
    (s : Site)
    (p : Point) :
    Waits (ε := ε) Prod.snd (g.read s p) := by
  unfold Gathering.read
  cases s.read p with
  | value v => exact hWaiting
  | pending id => rfl
  | circular => trivial

theorem lasts_read
    (hLater : s.Later t)
    (g : Gathering τ)
    (p : Point) :
    Lasts (ε := ε) Prod.snd (g.read s p) (g.read t p) := by
  unfold Gathering.read
  cases hCell : s.read p with
  | value v =>
      rw [hLater.read hCell]
      exact Or.inl rfl
  | pending id => exact Or.inr rfl
  | circular => exact Or.inr trivial

theorem waits_readIf
    {g : Gathering τ}
    (hWaiting : g.waiting = true)
    (inside : Bool)
    (s : Site)
    (p : Point) :
    Waits (ε := ε) Prod.snd (g.readIf inside s p) := by
  unfold readIf
  split
  · exact waits_read hWaiting s p
  · exact hWaiting

theorem lasts_readIf
    (hLater : s.Later t)
    (g : Gathering τ)
    (inside : Bool)
    (p : Point) :
    Lasts (ε := ε) Prod.snd (g.readIf inside s p)
      (g.readIf inside t p) := by
  unfold readIf
  split
  · exact lasts_read hLater g p
  · exact Or.inl rfl

theorem waits_add
    {g : Gathering τ}
    (hWaiting : g.waiting = true)
    (op : τ → Except ε τ) :
    Waits id (g.add op) := by
  rw [add, if_pos hWaiting]
  exact hWaiting

/- Steps that are the same later make the same run. -/
theorem ending_later
    {first later :
      Gathering τ → Point → Except (Ended ε τ) (Gathering τ)}
    (hStep : ∀ g p, Lasts id (first g p) (later g p))
    (hWaiting :
      ∀ g p, g.waiting = true → Waits id (first g p))
    (l : List Point)
    (g : Gathering τ)
    (hRead : ¬ Waited (ending (l.foldlM first g))) :
    ending (l.foldlM later g) = ending (l.foldlM first g) := by
  have hRuns : Lasts id (l.foldlM first g) (l.foldlM later g) ∧
      (g.waiting = true → Waits id (l.foldlM first g)) := by
    clear hRead
    induction l generalizing g with
    | nil => exact ⟨Or.inl rfl, fun hWas => hWas⟩
    | cons p l ih =>
        rw [List.foldlM_cons, List.foldlM_cons]
        refine ⟨(hStep g p).bind (fun b => (ih b).1)
          fun b => (ih b).2, fun hWas => ?_⟩
        exact (hWaiting g p hWas).bind fun b => (ih b).2
  rcases hRuns.1 with hSame | hWaits
  · rw [hSame]
  · refine absurd ?_ hRead
    generalize l.foldlM first g = x at hWaits
    cases x with
    | ok g' =>
        change g'.waiting = true at hWaits
        simp only [ending, hWaits]
        trivial
    | error ended => exact hWaits

end Gathering

namespace Registers

open Gathering

variable {ε τ : Type} {r : Registers}

theorem foldArea_later
    (hLater : s.Later t)
    {area : Rect}
    {op : Scalar → τ → Except ε τ}
    {a : τ}
    (hRead : ¬ Waited (r.foldArea s area op a)) :
    r.foldArea t area op a = r.foldArea s area op a := by
  rw [foldArea, Rect.foldUntil_eq_foldlM] at hRead ⊢
  rw [foldArea, Rect.foldUntil_eq_foldlM]
  refine ending_later (fun g p => ?_) (fun g p hWaiting => ?_) _ _
    hRead
  · exact
      (lasts_read hLater g p).bind (fun b => Or.inl rfl)
        fun b hWas => waits_add hWas _
  · exact
      (waits_read hWaiting s p).bind fun b hWas => waits_add hWas _

theorem foldAreas_later
    (hLater : s.Later t)
    {first second : Rect}
    {op : Scalar → Scalar → τ → Except ε τ}
    {a : τ}
    (hRead : ¬ Waited (r.foldAreas s first second op a)) :
    r.foldAreas t first second op a =
      r.foldAreas s first second op a := by
  rw [foldAreas, Rect.foldUntil_eq_foldlM] at hRead ⊢
  rw [foldAreas, Rect.foldUntil_eq_foldlM]
  have hWaits :
      ∀ (v : Scalar) (g : Gathering τ) (p : Point),
        g.waiting = true →
        Waits id
          (g.readIf (second.clip.size.contains p) s
              (p.add second.origin.toSize) >>=
            fun b => b.2.add (op v b.1)) := by
    intro v g p hWaiting
    exact
      (waits_readIf hWaiting _ s _).bind fun b hWas =>
        waits_add hWas _
  refine ending_later (fun g p => ?_) (fun g p hWaiting => ?_) _ _
    hRead
  · refine
      (lasts_read hLater g _).bind (fun b => ?_)
        fun b hWas => hWaits b.1 b.2 p hWas
    exact
      (lasts_readIf hLater b.2 _ _).bind (fun c => Or.inl rfl)
        fun c hWas => waits_add hWas _
  · exact
      (waits_read hWaiting s _).bind fun b hWas =>
        hWaits b.1 b.2 p hWas

end Registers

------------------------------------------------------------
-- Nodes
------------------------------------------------------------

theorem InfixNotes.afterOperand_later
    (hLater : s.Later t)
    {op : InfixOp}
    {i : Nat}
    {n : InfixNotes}
    {r : Registers}
    (hGoesOn : (n.afterOperand op s i r).1 ≠ .pause) :
    n.afterOperand op t i r = n.afterOperand op s i r := by
  unfold afterOperand at hGoesOn ⊢
  rw [Registers.reduce_later hLater fun r' hEq =>
    hGoesOn (by rw [hEq])]

theorem UnaryNotes.afterOperand_later
    (hLater : s.Later t)
    {f : Scalar → Scalar}
    {n : UnaryNotes}
    {r : Registers}
    (hGoesOn : (n.afterOperand f s r).1 ≠ .pause) :
    n.afterOperand f t r = n.afterOperand f s r := by
  unfold afterOperand at hGoesOn ⊢
  rw [Registers.reduce_later hLater fun r' hEq =>
    hGoesOn (by rw [hEq])]

theorem ElementwiseNotes.afterOperand_later
    (hLater : s.Later t)
    {n : ElementwiseNotes}
    {r : Registers}
    (hGoesOn : (n.afterOperand s r).1 ≠ .pause) :
    n.afterOperand t r = n.afterOperand s r := by
  unfold afterOperand at hGoesOn ⊢
  rw [Registers.reduce_later hLater fun r' hEq =>
    hGoesOn (by rw [hEq])]

theorem ChoiceNotes.afterOperand_later
    (hLater : s.Later t)
    {f : Choice}
    {count i : Nat}
    {n : ChoiceNotes}
    {r : Registers}
    (hGoesOn : (n.afterOperand f count s i r).1 ≠ .pause) :
    n.afterOperand f count t i r = n.afterOperand f count s i r := by
  unfold afterOperand at hGoesOn ⊢
  split
  · rename_i hFirst
    rw [if_pos hFirst] at hGoesOn
    unfold afterSelector at hGoesOn ⊢
    rw [Registers.reduce_later hLater fun r' hEq =>
      hGoesOn (by rw [hEq])]
  · rfl

theorem AggregateNotes.afterOperand_later
    (hLater : s.Later t)
    {f : Aggregate}
    {n : AggregateNotes}
    {r : Registers}
    (hGoesOn : (n.afterOperand f s r).1 ≠ .pause) :
    n.afterOperand f t r = n.afterOperand f s r := by
  unfold afterOperand at hGoesOn ⊢
  split
  · rfl
  · rename_i hNeeded
    rw [if_neg hNeeded] at hGoesOn
    cases hFold : n.fold with
    | error e => rfl
    | ok fold =>
        rw [hFold] at hGoesOn
        dsimp only at hGoesOn ⊢
        unfold foldOperand at hGoesOn ⊢
        cases hValue : r.value with
        | scalar v => rfl
        | array a => rfl
        | cell p =>
            rw [hValue] at hGoesOn
            dsimp only at hGoesOn ⊢
            rw [Registers.read_later hLater]
            intro hNone
            generalize r.read s p = res at hGoesOn hNone
            rcases res with ⟨v, r'⟩
            obtain rfl : v = none := hNone
            exact hGoesOn rfl
        | area a =>
            rw [hValue] at hGoesOn
            dsimp only at hGoesOn ⊢
            rw [Registers.foldArea_later hLater]
            intro hWaited
            generalize r.foldArea s a (Fold.addIndirect f) fold = res
              at hGoesOn hWaited
            rcases res with ⟨sweep, r'⟩
            cases sweep with
            | complete _ => exact hWaited
            | aborted _ => exact hWaited
            | waiting _ => exact hGoesOn rfl

theorem Factor.collect_later
    (hLater : s.Later t)
    {a : Factor}
    {r : Registers}
    (hRead : (a.collect s r).1 ≠ none) :
    a.collect t r = a.collect s r := by
  cases a with
  | scalars extent vs => rfl
  | area a =>
      unfold collect at hRead ⊢
      dsimp only at hRead ⊢
      rw [Registers.foldArea_later hLater]
      intro hWaited
      generalize
        r.foldArea s a (fun v vs => .ok (v :: vs)) [] = res
        at hRead hWaited
      rcases res with ⟨sweep, r'⟩
      cases sweep with
      | complete _ => exact hWaited
      | aborted _ => exact hWaited
      | waiting _ => exact hRead rfl

namespace ProductNotes

theorem afterOperand_later
    (hLater : s.Later t)
    {i : Nat}
    {n : ProductNotes}
    {r : Registers}
    (hGoesOn : (n.afterOperand s i r).1 ≠ .pause) :
    n.afterOperand t i r = n.afterOperand s i r := by
  unfold afterOperand at hGoesOn ⊢
  split
  · rfl
  · rename_i hNeeded
    rw [if_neg hNeeded] at hGoesOn
    cases hValue : r.value with
    | scalar v => rfl
    | array a => rfl
    | area a => rfl
    | cell p =>
        rw [hValue] at hGoesOn
        dsimp only at hGoesOn ⊢
        rw [Registers.read_later hLater]
        intro hNone
        generalize r.read s p = res at hGoesOn hNone
        rcases res with ⟨v, r'⟩
        obtain rfl : v = none := hNone
        exact hGoesOn rfl

theorem sumAreas_later
    (hLater : s.Later t)
    {a b : Rect}
    {r : Registers}
    (hRead : (sumAreas s a b r).1 ≠ none) :
    sumAreas t a b r = sumAreas s a b r := by
  unfold sumAreas at hRead ⊢
  rw [Registers.foldAreas_later hLater]
  intro hWaited
  generalize r.foldAreas s a b addProduct 0 = res at hRead hWaited
  rcases res with ⟨sweep, r'⟩
  cases sweep with
  | complete _ => exact hWaited
  | aborted _ => exact hWaited
  | waiting _ => exact hRead rfl

/- Two arguments that are collected one after the other. -/
theorem collectBoth_later
    (hLater : s.Later t)
    (a b : Factor)
    (r : Registers)
    (both : Site → Option (Except ErrorValue Float) × Registers)
    (hBoth :
      ∀ u, both u =
        match a.collect u r with
        | (none, r) => (none, r)
        | (some vs, r) =>
            match b.collect u r with
            | (none, r) => (none, r)
            | (some ws, r) => (some (sumScalars vs ws), r))
    (hRead : (both s).1 ≠ none) :
    both t = both s := by
  rw [hBoth] at hRead ⊢
  rw [hBoth]
  have hFirst : a.collect t r = a.collect s r := by
    refine Factor.collect_later hLater fun hNone => hRead ?_
    generalize a.collect s r = res at hNone ⊢
    rcases res with ⟨vs, r'⟩
    obtain rfl : vs = none := hNone
    rfl
  rw [hFirst]
  generalize a.collect s r = res at hRead ⊢
  rcases res with ⟨- | vs, r'⟩
  · rfl
  · have hSecond : b.collect t r' = b.collect s r' := by
      refine Factor.collect_later hLater fun hNone => hRead ?_
      generalize hEq : b.collect s r' = res at hNone ⊢
      rcases res with ⟨ws, r''⟩
      obtain rfl : ws = none := hNone
      dsimp only
      rw [hEq]
    dsimp only
    rw [hSecond]

theorem sumFactors_later
    (hLater : s.Later t)
    {a b : Factor}
    {r : Registers}
    (hRead : (sumFactors s a b r).1 ≠ none) :
    sumFactors t a b r = sumFactors s a b r := by
  cases a with
  | scalars extent vs =>
      exact
        collectBoth_later hLater (.scalars extent vs) b r
          (fun u => sumFactors u (.scalars extent vs) b r)
          (fun u => by cases b <;> rfl) hRead
  | area c =>
      cases b with
      | scalars extent vs =>
          exact
            collectBoth_later hLater (.area c) (.scalars extent vs) r
              (fun u => sumFactors u (.area c) (.scalars extent vs) r)
              (fun u => rfl) hRead
      | area d => exact sumAreas_later hLater hRead

theorem leave_later
    (hLater : s.Later t)
    {n : ProductNotes}
    {r : Registers}
    (hGoesOn : (n.leave s r).1 ≠ .pause) :
    n.leave t r = n.leave s r := by
  unfold leave at hGoesOn ⊢
  split
  · rfl
  · rename_i hNeeded
    rw [if_neg hNeeded] at hGoesOn
    have hRead : (n.compute s r).1 ≠ none := by
      intro hNone
      generalize n.compute s r = res at hGoesOn hNone
      rcases res with ⟨v, r'⟩
      obtain rfl : v = none := hNone
      exact hGoesOn rfl
    have hSame : n.compute t r = n.compute s r := by
      unfold compute at hRead ⊢
      cases hFirst : n.first with
      | none => rfl
      | some a =>
          cases hSecond : n.second with
          | none => rfl
          | some b =>
              rw [hFirst, hSecond] at hRead
              dsimp only at hRead ⊢
              split
              · rename_i hExtent
                rw [if_pos hExtent] at hRead
                exact sumFactors_later hLater hRead
              · rfl
    rw [hSame]

end ProductNotes

------------------------------------------------------------
-- Evaluations
------------------------------------------------------------

namespace Notes

theorem afterOperand_later
    (hLater : s.Later t)
    {i : Nat}
    {n : Notes}
    {r : Registers}
    (hGoesOn : (n.afterOperand s i r).1 ≠ .pause) :
    n.afterOperand t i r = n.afterOperand s i r := by
  cases n with
  | leaf l => rfl
  | infixOp op n =>
      exact congrArg (lift _) (n.afterOperand_later hLater hGoesOn)
  | unary f n =>
      exact congrArg (lift _) (n.afterOperand_later hLater hGoesOn)
  | aggregate f n =>
      exact congrArg (lift _) (n.afterOperand_later hLater hGoesOn)
  | product n =>
      exact congrArg (lift _) (n.afterOperand_later hLater hGoesOn)
  | elementwise f n =>
      exact congrArg (lift _) (n.afterOperand_later hLater hGoesOn)
  | choice f count n =>
      exact congrArg (lift _) (n.afterOperand_later hLater hGoesOn)

theorem leave_later
    (hLater : s.Later t)
    {n : Notes}
    {r : Registers}
    (hGoesOn : (n.leave s r).1 ≠ .pause) :
    n.leave t r = n.leave s r := by
  cases n with
  | leaf l => rw [leave, leave, hLater.operand]
  | product n =>
      exact congrArg (lift _) (n.leave_later hLater hGoesOn)
  | infixOp op n => rfl
  | unary f n => rfl
  | aggregate f n => rfl
  | elementwise f n => rfl
  | choice f count n => rfl

end Notes

namespace Site

theorem Later.follows
    (hLater : s.Later t) :
    Walk.Follows s.visitor t.visitor where
  fresh := rfl
  respond f r hGoesOn := by
    simp only [visitor] at hGoesOn ⊢
    cases hStage : f.stage with
    | entering => rfl
    | beforeChild => rfl
    | afterChild =>
        rw [hStage] at hGoesOn
        exact Notes.afterOperand_later hLater hGoesOn
    | leaving =>
        rw [hStage] at hGoesOn
        exact Notes.leave_later hLater hGoesOn

end Site

namespace Registers

theorem spill_later
    (hLater : s.Later t)
    (owner : Handle)
    (r : Registers) :
    r.spill t owner = r.spill s owner := by
  unfold spill isObstructed
  simp only [hLater.size, hLater.blocks, hLater.location]

end Registers

namespace Evaluation

theorem yield_later
    (hLater : s.Later t)
    {ev : Evaluation}
    (hReady : ∃ v, (ev.yield s).1 = .ready v) :
    ev.yield t = ev.yield s := by
  unfold yield at hReady ⊢
  rw [Registers.result_later hLater]
  intro hNone
  generalize ev.registers.result s = res at hReady hNone
  rcases res with ⟨v, r⟩
  obtain rfl : v = none := hNone
  rcases hReady with ⟨v, hReady⟩
  dsimp only at hReady
  unfold missing at hReady
  split at hReady <;> cases hReady

/- A scalar that was found is found again. -/
theorem advance_later
    (hLater : s.Later t)
    (owner : Handle)
    {e : Expr}
    (hProper : e.Proper)
    {ev : Evaluation}
    {v : Scalar}
    (hReady : (ev.advance s owner e).1 = .ready v) :
    ev.advance t owner e = ev.advance s owner e := by
  unfold advance at hReady ⊢
  split
  · rename_i hIndexed
    rw [if_pos hIndexed] at hReady
    exact yield_later hLater ⟨v, hReady⟩
  · rename_i hNot
    rw [if_neg hNot] at hReady
    have hMissing : ∀ r : Registers, missing r ≠ .ready v := by
      intro r
      unfold missing
      split <;> simp
    have hFuel : t.fuel e = s.fuel e := by
      rw [Site.fuel, Site.fuel,
        Site.reach_eq hLater.size hLater.refs hLater.location hProper]
    have hEnter :
        Frame.enter t.visitor e ev.registers =
          Frame.enter s.visitor e ev.registers :=
      hLater.follows.enter e ev.registers
    rw [Walk.run] at hReady ⊢
    rw [Walk.run, hFuel, hEnter]
    dsimp only at hReady ⊢
    have hGoesOn :
        (Walk.steps s.visitor (s.fuel e)
          (ev.walk.getD [Frame.enter s.visitor e ev.registers])
          ev.registers).1 ≠ .paused := by
      intro hPaused
      generalize
        Walk.steps s.visitor (s.fuel e)
          (ev.walk.getD [Frame.enter s.visitor e ev.registers])
          ev.registers = res at hReady hPaused
      rcases res with ⟨status, stack, r⟩
      obtain rfl : status = .paused := hPaused
      exact hMissing r hReady
    rw [Walk.steps_follow hLater.follows hGoesOn]
    generalize
      Walk.steps s.visitor (s.fuel e)
        (ev.walk.getD [Frame.enter s.visitor e ev.registers])
        ev.registers = res at hReady
    rcases res with ⟨status, stack, r⟩
    cases status with
    | done =>
        dsimp only at hReady ⊢
        unfold finish at hReady ⊢
        simp only [Registers.spill_later hLater]
        exact yield_later hLater ⟨v, hReady⟩
    | paused => rfl
    | unfinished => rfl

end Evaluation

end Spreadsheet
