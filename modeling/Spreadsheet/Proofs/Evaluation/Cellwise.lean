import Spreadsheet.Proofs.Evaluation.Answers

/-
  Expressions over single cells.

  An expression of constants, references to single cells and
  operations on scalars has one scalar. Its evaluation reads
  all cells that it names, whatever they show, before it comes
  to a value.

  Main declarations:
    * `Expr.isCellwise`
    * `Expr.names`
    * `Expr.scalarOver`
    * `Site.shown_of_ready`
    * `Site.over_of_ready`
-/

namespace Spreadsheet

------------------------------------------------------------
-- Expressions Over Single Cells
------------------------------------------------------------

/- The operation acts on one scalar of each operand. -/
def Operation.isPointwise : Operation → Bool
  | .infixOp _ | .negate | .percent | .elementwise _ => true
  | .aggregate _ | .choice _ => false

/- The result of an operation that acts on single scalars. -/
def Operation.onScalars : Operation → List Scalar → Scalar
  | .infixOp op => op.onScalars
  | .negate => onFirst Scalar.negate
  | .percent => onFirst Scalar.percent
  | .elementwise f => f.apply
  | .aggregate _ | .choice _ => fun _ => .blank

namespace Reference

/- The reference is one to a single cell, which may be gone. -/
def isSingle : Reference → Bool
  | .cell _ _ | .illegal => true
  | .area _ _ | .band _ _ => false

/- The cell that a reference names, as seen from an anchor. -/
def cell? (r : Reference) (anchor : Point) : Option Point :=
  match r with
  | .cell x y =>
      if r.onSheet anchor then
        some ⟨x.index anchor.x, y.index anchor.y⟩
      else none
  | _ => none

end Reference

namespace Expr

/-
  Constants, references to single cells, and operations that
  act on single scalars.
-/
def isCellwise (refs : References) : Expr → Bool
  | .leaf _ (.constant _) => true
  | .leaf _ (.array _) => false
  | .leaf _ (.reference i) => (refs[i]?).all Reference.isSingle
  | .leaf _ (.unreadable _ _) => true
  | .apply _ op args =>
      op.isPointwise && (args.map (isCellwise refs)).all id

/- The cells that the references of an expression name. -/
def names
    (refs : References)
    (anchor : Point)
    (e : Expr) : List Point :=
  e.referenceIndices.filterMap fun i =>
    (refs[i]?).bind (·.cell? anchor)

/- The scalar of an expression over the values of cells. -/
def scalarOver
    (refs : References)
    (anchor : Point)
    (cells : Point → Scalar) : Expr → Scalar
  | .leaf _ (.constant v) => v
  | .leaf _ (.array a) => a.element Point.zero
  | .leaf _ (.reference i) =>
      match (refs[i]?).bind (·.cell? anchor) with
      | some p => cells p
      | none => .error .badReference
  | .leaf _ (.unreadable e _) => .error e
  | .apply _ op args => op.onScalars (args.map (scalarOver refs anchor cells))

variable {refs : References} {anchor : Point}

/- The arguments of an expression are expressions of its kind. -/
theorem isCellwise_apply
    {bracketed : Bool}
    {op : Operation}
    {args : List Expr}
    (hCells : (Expr.apply bracketed op args).isCellwise refs = true) :
    op.isPointwise = true ∧ ∀ a ∈ args, a.isCellwise refs = true := by
  rw [isCellwise, Bool.and_eq_true, List.all_eq_true] at hCells
  exact ⟨hCells.1, fun a ha => hCells.2 _ (List.mem_map_of_mem ha)⟩

/- An expression names whatever its arguments name. -/
theorem names_subset_apply
    {bracketed : Bool}
    {op : Operation}
    {args : List Expr}
    {a : Expr}
    (hArg : a ∈ args) :
    a.names refs anchor ⊆
      (Expr.apply bracketed op args).names refs anchor := by
  intro p hp
  rw [names, List.mem_filterMap] at hp ⊢
  rcases hp with ⟨i, hIndex, hCell⟩
  refine ⟨i, ?_, hCell⟩
  rw [referenceIndices]
  exact List.mem_flatMap.mpr ⟨a, hArg, hIndex⟩

/- Only the cells that an expression names matter to it. -/
theorem scalarOver_congr
    {cells cells' : Point → Scalar}
    {e : Expr}
    (hSame : ∀ p ∈ e.names refs anchor, cells p = cells' p) :
    e.scalarOver refs anchor cells =
      e.scalarOver refs anchor cells' := by
  fun_induction Expr.scalarOver refs anchor cells e with
  | case3 b i p hCell =>
      rw [scalarOver, hCell]
      refine hSame p ?_
      simp [names, referenceIndices, hCell]
  | case4 b i hNone => rw [scalarOver, hNone]
  | case6 b op args ih =>
      rw [scalarOver]
      congr 1
      refine List.map_congr_left fun a ha => ?_
      exact ih a ha fun p hp => hSame p (names_subset_apply ha hp)
  | _ => rw [scalarOver]

end Expr

/- The notes of an operation that acts on single scalars. -/
def Notes.isPointwise : Notes → Bool
  | .infixOp _ _ | .unary _ _ | .elementwise _ _ => true
  | _ => false

namespace Site

open Registers

variable {s : Site} {cells : Point → Scalar} {e : Expr}

------------------------------------------------------------
-- What They Read And Mean
------------------------------------------------------------

/- A reference to a single cell covers the cell it names. -/
theorem covers_iff_of_isSingle
    {r : Reference}
    (hSingle : r.isSingle = true)
    (p : Point) :
    s.Covers r p ↔ r.cell? s.location = some p := by
  cases r with
  | area x y => cases hSingle
  | band axis span => cases hSingle
  | illegal => simp [Covers, Reference.cell?, Reference.onSheet]
  | cell x y =>
      rw [Covers, Reference.cell?]
      split
      · rename_i hOn
        simp only [hOn, Reference.toRect?, Option.some.injEq,
          exists_eq_left', true_and, Rect.contains_single]
        exact ⟨fun h => h.symm, fun h => h.symm⟩
      · rename_i hOff
        simp [hOff]

/- The references of an expression are to single cells. -/
theorem isSingle_of_isCellwise
    {refs : References}
    (hProper : e.Proper)
    (hCells : e.isCellwise refs = true)
    {i : Nat}
    (hIndex : i ∈ e.referenceIndices)
    {r : Reference}
    (hRef : refs[i]? = some r) :
    r.isSingle = true := by
  induction hProper with
  | @leaf b l _ =>
      cases l with
      | reference j =>
          rw [Expr.referenceIndices, List.mem_singleton] at hIndex
          rw [← hIndex, Expr.isCellwise, hRef] at hCells
          exact hCells
      | _ => simp [Expr.referenceIndices] at hIndex
  | @apply b op args _ _ ih =>
      rw [Expr.referenceIndices, List.mem_flatMap] at hIndex
      rcases hIndex with ⟨a, ha, hIndex⟩
      exact ih a ha ((Expr.isCellwise_apply hCells).2 a ha) hIndex

/- An expression over single cells reads those that it names. -/
theorem reads_iff_mem_names
    (hProper : e.Proper)
    (hCells : e.isCellwise s.refs = true)
    (p : Point) :
    s.Reads e p ↔ p ∈ e.names s.refs s.location := by
  simp only [Reads, Expr.names, List.mem_filterMap,
    Option.bind_eq_some_iff]
  refine exists_congr fun i => and_congr_right fun hIndex =>
    exists_congr fun r => and_congr_right fun hRef => ?_
  exact
    covers_iff_of_isSingle
      (isSingle_of_isCellwise hProper hCells hIndex hRef) p

/- A leaf that names a cell stands for it. -/
theorem operand_of_mem_names
    {b : Bool}
    {l : Leaf}
    {p : Point}
    (hName : p ∈ (Expr.leaf b l).names s.refs s.location) :
    (s.operand l).1 = .cell p := by
  cases l with
  | reference i =>
      simp only [Expr.names, Expr.referenceIndices,
        List.mem_filterMap, List.mem_singleton, exists_eq_left,
        Option.bind_eq_some_iff] at hName
      rcases hName with ⟨r, hRef, hCell⟩
      rw [operand, hRef]
      cases r with
      | cell x y =>
          simp only [Reference.cell?, Option.ite_none_right_eq_some,
            Option.some.injEq] at hCell
          simp only [referenceOperand, if_pos hCell.1]
          exact congrArg Operand.cell hCell.2
      | _ => cases hCell
  | _ => simp [Expr.names, Expr.referenceIndices] at hName

/- A leaf stands for the scalar that it means. -/
theorem scalarAt_operand
    (b : Bool)
    {l : Leaf}
    (hCells : (Expr.leaf b l).isCellwise s.refs = true) :
    (s.operand l).2 = Size.one ∧
      (s.operand l).1.scalarAt cells Point.zero =
        (Expr.leaf b l).scalarOver s.refs s.location cells := by
  cases l with
  | constant v => exact ⟨rfl, by rw [Expr.scalarOver]; rfl⟩
  | array a =>
      rw [Expr.isCellwise] at hCells
      cases hCells
  | unreadable e cs => exact ⟨rfl, by rw [Expr.scalarOver]; rfl⟩
  | reference i =>
      rw [operand, Expr.scalarOver]
      rw [Expr.isCellwise] at hCells
      cases hRef : s.refs[i]? with
      | none => exact ⟨rfl, rfl⟩
      | some r =>
          rw [hRef] at hCells
          change r.isSingle = true at hCells
          simp only [Option.bind_some, referenceOperand]
          cases r with
          | area x y => cases hCells
          | band axis span => cases hCells
          | illegal => exact ⟨rfl, rfl⟩
          | cell x y =>
              rw [Reference.cell?]
              split <;> exact ⟨rfl, rfl⟩

/- An expression over single cells has one scalar. -/
theorem scalarAt_spread
    (cells : Point → Scalar)
    (hProper : e.Proper)
    (hCells : e.isCellwise s.refs = true) :
    s.extent e = Size.one ∧
      (s.spread cells e).scalarAt cells Point.zero =
        e.scalarOver s.refs s.location cells := by
  induction hProper with
  | @leaf b l _ =>
      rw [extent, Spread.scalarAt, spread]
      exact scalarAt_operand b hCells
  | @apply b op args hCount hArgs ih =>
      rcases Expr.isCellwise_apply hCells with ⟨hOp, hAll⟩
      have hExtents : ∀ a ∈ args, s.extent a = Size.one :=
        fun a ha => (ih a ha (hAll a ha)).1
      have hScalars :
          (args.map (s.spread cells)).map
              (Spread.scalarAt cells · Point.zero) =
            args.map (Expr.scalarOver s.refs s.location cells) := by
        rw [List.map_map]
        exact List.map_congr_left fun a ha => (ih a ha (hAll a ha)).2
      constructor
      · have hFold : ∀ f, op ≠ .aggregate f := by
          rintro f rfl
          cases hOp
        rw [extent_apply s b hFold, spanned, List.take_length]
        refine
          Size.Fits.antisymm
            (Size.foldl_sup_fits_iff.mpr ⟨.refl _, fun t ht => ?_⟩)
            (Size.fits_foldl_sup _ _)
        rcases List.mem_map.mp ht with ⟨a, ha, rfl⟩
        rw [hExtents a ha]
        exact .refl _
      · rw [Expr.scalarOver, spread, ← hScalars]
        cases op with
        | aggregate f => cases hOp
        | choice f => cases hOp
        | _ => rfl

theorem choiceFree_of_isCellwise
    {refs : References}
    (hProper : e.Proper)
    (hCells : e.isCellwise refs = true) :
    e.ChoiceFree := by
  induction hProper with
  | @leaf b l _ => exact .leaf b l
  | @apply b op args _ _ ih =>
      rcases Expr.isCellwise_apply hCells with ⟨hOp, hAll⟩
      refine .apply b ?_ fun a ha => ih a ha (hAll a ha)
      rintro f rfl
      cases hOp

------------------------------------------------------------
-- What Was Read
------------------------------------------------------------

/- All cells that an expression reads show something. -/
def Shown (s : Site) (e : Expr) : Prop :=
  ∀ p, s.Reads e p → ∃ v, s.read p = .value v

/-
  All cells that an expression reads show something, apart
  from one that its value stands for.
-/
def Seen (s : Site) (e : Expr) (_ r : Registers) : Prop :=
  ∀ p, s.Reads e p →
    (∃ v, s.read p = .value v) ∨ r.value = .cell p

/- The cell of an operand shows something, if it was read. -/
theorem shown_of_result
    {r r' r'' : Registers}
    {v : Scalar}
    (hSeen : s.Seen e r r')
    (hRead : r'.result s = (some v, r'')) :
    s.Shown e ∧ r'' = r' := by
  unfold Registers.result element at hRead
  refine ⟨fun p hReads => ?_, by grind [Registers.read]⟩
  rcases hSeen p hReads with hShown | hCell
  · exact hShown
  · rw [hCell] at hRead
    dsimp only at hRead
    unfold Registers.read at hRead
    cases hThere : s.read p with
    | value w => exact ⟨w, rfl⟩
    | pending id => simp [hThere] at hRead
    | circular => simp [hThere] at hRead

/- An operand waits for its cell, or the cell was read. -/
theorem reduce_cases
    {a : Expr}
    {r r' : Registers}
    (hNeeded : r.suppressed = false)
    (hLearns : r.Learns s (Seen s) a r') :
    (∃ r'', r'.reduce s = (.waiting, r'')) ∨
      s.Shown a ∧ ∃ v, r'.reduce s = (.scalar v, r') := by
  have hSuppressed := hLearns.left.suppressed.trans hNeeded
  unfold reduce
  rw [if_neg (by simp [hSuppressed])]
  rcases hResult : r'.result s with ⟨- | v, r''⟩
  · exact Or.inl ⟨r'', rfl⟩
  · rcases shown_of_result (hLearns.known hNeeded) hResult with
      ⟨hShown, rfl⟩
    exact Or.inr ⟨hShown, v, rfl⟩

variable {bracketed : Bool} {op : Operation} {args : List Expr}

/- A node of single scalars reads the cells of its operands. -/
theorem exists_sees
    (hOp : op.isPointwise = true)
    (hCount : op.accepts args.length = true)
    (hOne : ∀ a ∈ args, Size.one.Fits (s.extent a))
    (r₀ : Registers) :
    ∃ Inv, s.Handles (Learns s (Seen s)) bracketed op args r₀ Inv := by
  have hThere : ∃ Inv, s.Handles (Left s) bracketed op args r₀ Inv :=
    s.exists_handles hCount hOne r₀
  rcases hThere with ⟨Inv, hHandles⟩
  refine
    ⟨_, hHandles.strengthen
      (fun i n r =>
        n.isPointwise = true ∧ r.suppressed = false ∧
          ∀ a ∈ args.take i, s.Shown a)
      (fun hNeeded => ?_) (fun {i a n r r'} _ hArg _ hKnows hLearns => ?_)
      fun {n n' r r'} _ _ hKnows _ p hReads => ?_⟩
  · cases op with
    | aggregate f => cases hOp
    | choice f => cases hOp
    | _ => split <;> exact ⟨rfl, hNeeded, by simp⟩
  · rcases hKnows with ⟨hPoint, hInside, hBefore⟩
    have hNext :
        s.Shown a → ∀ a' ∈ args.take (i + 1), s.Shown a' := by
      intro hShown a' ha'
      rw [List.take_add_one, hArg] at ha'
      rcases List.mem_append.mp ha' with hEarlier | hHere
      · exact hBefore a' hEarlier
      · rwa [List.mem_singleton.mp hHere]
    have hSuppressed := hLearns.left.suppressed.trans hInside
    rcases reduce_cases hInside hLearns with
      ⟨r'', hEq⟩ | ⟨hShown, v, hEq⟩
    · cases n with
      | infixOp op n =>
          rw [Notes.afterOperand, InfixNotes.afterOperand, hEq]
          exact .pause
      | unary f n =>
          rw [Notes.afterOperand, UnaryNotes.afterOperand, hEq]
          exact .pause
      | elementwise f n =>
          rw [Notes.afterOperand, ElementwiseNotes.afterOperand, hEq]
          exact .pause
      | _ => cases hPoint
    · cases n with
      | infixOp op n =>
          rw [Notes.afterOperand, InfixNotes.afterOperand, hEq]
          exact .proceed ⟨rfl, hSuppressed, hNext hShown⟩
      | unary f n =>
          rw [Notes.afterOperand, UnaryNotes.afterOperand, hEq]
          exact .proceed ⟨rfl, hSuppressed, hNext hShown⟩
      | elementwise f n =>
          rw [Notes.afterOperand, ElementwiseNotes.afterOperand, hEq]
          exact .proceed ⟨rfl, hSuppressed, hNext hShown⟩
      | _ => cases hPoint
  · rcases hReads with ⟨i, hIndex, hRef⟩
    rw [Expr.referenceIndices, List.mem_flatMap] at hIndex
    rcases hIndex with ⟨a, ha, hIndex⟩
    rw [List.take_length] at hKnows
    exact Or.inl (hKnows.2.2 a ha p ⟨i, hIndex, hRef⟩)

/- Every expression over single cells reads what it names. -/
theorem sees_of_isCellwise
    (hProper : e.Proper)
    (hCells : e.isCellwise s.refs = true)
    {V : Nat}
    (hReach : (s.reach e).area ≤ V) :
    s.Visits (Learns s (Seen s)) (e.stepBound V) e := by
  induction hProper with
  | @leaf b l hLeaf =>
      refine
        s.visits_leaf b l
          (fun r => ⟨left_leaf b l r, fun _ p hReads => ?_⟩) V
      rw [reads_iff_mem_names (.leaf b hLeaf) hCells] at hReads
      exact Or.inr (operand_of_mem_names hReads)
  | @apply b op args hCount hArgs ih =>
      rcases Expr.isCellwise_apply hCells with ⟨hOp, hAll⟩
      have hOne : ∀ a ∈ args, Size.one.Fits (s.extent a) :=
        fun a ha => s.one_fits_extent (hArgs a ha)
      exact
        visits_node hArgs hReach (exists_sees hOp hCount hOne)
          fun a ha => ih a ha (hAll a ha)

/- All cells were read before an evaluation comes to a value. -/
theorem shown_of_ready
    {owner : Handle}
    (hProper : e.Proper)
    (hCells : e.isCellwise s.refs = true)
    {v : Scalar}
    {ev : Evaluation}
    (hReady :
      Evaluation.start.advance s owner e = (.ready v, ev)) :
    s.Shown e := by
  have hVisits :=
    sees_of_isCellwise hProper hCells
      (Nat.le_max_right 1 (s.reach e).area)
  have hCases :=
    @Evaluation.advance_cases _ owner _ _ hVisits .start rfl rfl
  rcases hCases with ⟨r, hLearns, hEq⟩ | ⟨stack, r, -, hEq⟩
  · have hOne : r.extent = Size.one := by
      rw [hLearns.left.extent]
      exact (scalarAt_spread (fun _ => .blank) hProper hCells).1
    have hSame :
        (if r.offset = Point.zero then r.spill s owner else r) = r := by
      rw [r.spill_eq_self (by rw [hOne]; rfl), ite_self]
    rw [hEq, Evaluation.finish] at hReady
    dsimp only at hReady
    rw [hSame, Evaluation.yield] at hReady
    dsimp only at hReady
    rcases hResult : r.result s with ⟨- | w, r'⟩
    · rw [hResult] at hReady
      simp only [Evaluation.missing] at hReady
      split at hReady <;> cases hReady
    · exact (shown_of_result (hLearns.known rfl) hResult).1
  · rw [hEq, Evaluation.missing] at hReady
    split at hReady <;> cases hReady

/- The value is what the expression means over the cells. -/
theorem scalarOver_of_ready
    {owner : Handle}
    (hFits : s.grid.size.Fits maxSize)
    (hProper : e.Proper)
    (hCells : e.isCellwise s.refs = true)
    {v : Scalar}
    {ev : Evaluation}
    (hReady :
      Evaluation.start.advance s owner e = (.ready v, ev)) :
    ∃ cells, s.Reveals cells e ∧
      v = e.scalarOver s.refs s.location cells := by
  classical
  have hShown := shown_of_ready hProper hCells hReady
  choose cells hReveals using fun p =>
    show ∃ v, s.Reads e p → s.read p = .value v by
      by_cases hReads : s.Reads e p
      · rcases hShown p hReads with ⟨v, hRead⟩
        exact ⟨v, fun _ => hRead⟩
      · exact ⟨.blank, fun h => absurd h hReads⟩
  rcases scalarAt_spread cells hProper hCells with
    ⟨hOne, hMeans⟩
  have hEvaluable : s.Evaluable owner cells e :=
    ⟨hFits, hProper, hReveals, by rw [hOne]; rfl⟩
  rcases
    hEvaluable.advance_eq
      (s.regular_of_choiceFree cells
        (choiceFree_of_isCellwise hProper hCells))
      (Evaluation.ready_start _) (by simp [Evaluation.start]) with
    ⟨ev', hAdvance, -⟩
  rw [hReady, Prod.mk.injEq, Answer.ready.injEq] at hAdvance
  exact ⟨cells, hReveals, hAdvance.1.trans hMeans⟩

end Site

end Spreadsheet
