import Spreadsheet.Proofs.Evaluation.Node

/-
  Every operation treats its operands as a node should, so
  that every expression is visited within its steps.

  Main declarations:
    * `Site.Tracks`
    * `Site.handles_tracks`
    * `Site.visits_of_proper`
-/

namespace Spreadsheet

open Registers

namespace Registers

/- Evaluation has come back to where it was. -/
structure Keeps (r r' : Registers) : Prop where
  suppressed : r'.suppressed = r.suppressed
  circular : r'.circular = r.circular
  offset : r'.offset = r.offset
  missing : r'.missing = r.missing

theorem Left.keeps
    {s : Site}
    {e : Expr}
    {r₀ r r' : Registers}
    (hLeft : r.Left s e r')
    (hKeeps : r₀.Keeps r) :
    r₀.Keeps r' :=
  ⟨hLeft.suppressed.trans hKeeps.suppressed,
    hLeft.circular.trans hKeeps.circular,
    hLeft.offset.trans hKeeps.offset,
    hLeft.missing.trans hKeeps.missing⟩

theorem left_publishScalar
    {s : Site}
    {e : Expr}
    {r₀ r : Registers}
    {size : Size}
    (hKeeps : r₀.Keeps r)
    (hExtent : size = s.extent e)
    (v : Scalar) :
    r₀.Left s e (r.publishScalar v size) := by
  unfold publishScalar
  split
  · rename_i hSuppressed
    have hNever : r₀.suppressed ≠ false := by
      rw [← hKeeps.suppressed, hSuppressed]
      exact Bool.noConfusion
    exact
      ⟨hKeeps.suppressed, hKeeps.circular, hKeeps.offset,
        hKeeps.missing, hExtent, fun hNot => absurd hNot hNever,
        fun hNot => absurd hNot hNever⟩
  · exact
      ⟨hKeeps.suppressed, hKeeps.circular, hKeeps.offset,
        hKeeps.missing, hExtent, fun _ => trivial,
        fun _ _ => ⟨v, rfl⟩⟩

/- A leaf leaves itself as an operand. -/
theorem left_leaf
    {s : Site}
    (bracketed : Bool)
    (l : Leaf)
    (r : Registers) :
    r.Left s (.leaf bracketed l)
      (r.publish (s.operand l).1 (s.operand l).2) := by
  refine ⟨rfl, rfl, rfl, rfl, ?_, fun _ => ?_, fun _ => False.elim⟩
  · rw [Site.extent]
    rfl
  · exact s.within_operand bracketed l

end Registers

namespace Site

variable {s : Site} {bracketed : Bool} {args : List Expr}

------------------------------------------------------------
-- Elementwise Operations
------------------------------------------------------------

/- The operand that was visited is reduced. -/
theorem left_reduce
    {r₀ r r' : Registers}
    {op : Operation}
    {a : Expr}
    (hMem : a ∈ args)
    (hKeeps : r₀.Keeps r)
    (hLeft : r.Left s a r') :
    r'.reduce s = (.unneeded, r') ∨
      (∃ v, r'.reduce s = (.scalar v, r')) ∨
        ∃ r'', r'.reduce s = (.waiting, r'') ∧
          r₀.Stops s (s.Reads (.apply bracketed op args)) r'' := by
  have hBack := hLeft.keeps hKeeps
  have hWithin :
      r'.suppressed = false →
        r'.value.Within (s.Reads (.apply bracketed op args)) := by
    intro hNeeded
    rw [hLeft.suppressed] at hNeeded
    exact (hLeft.value hNeeded).imp fun h => h.apply hMem
  rcases reduce_spec (s := s) hWithin with
    ⟨-, hEq⟩ | ⟨-, ⟨v, hEq⟩ | ⟨r'', hEq, hStops⟩⟩
  · exact Or.inl hEq
  · exact Or.inr (Or.inl ⟨v, hEq⟩)
  · exact
      Or.inr
        (Or.inr
          ⟨r'', hEq, hStops.of_eq hBack.circular hBack.missing⟩)

theorem handles_infixOp
    (op : InfixOp)
    (r₀ : Registers)
    (hOne : ∀ a ∈ args, Size.one.Fits (s.extent a))
    (hSome : 0 < args.length) :
    s.Handles (Left s) bracketed (.infixOp op) args r₀ fun i n r =>
      ∃ m, n = .infixOp op m ∧ r₀.Keeps r ∧
        (0 < i → m.extent = s.spanned args i) := by
  constructor
  case bare => exact fun _ => ⟨_, rfl, ⟨rfl, rfl, rfl, rfl⟩, by simp⟩
  case before =>
    exact fun _ => ⟨_, rfl, ⟨rfl, rfl, rfl, rfl⟩, by simp⟩
  case steady =>
    rintro i n r ⟨m, -, hKeeps, -⟩
    exact ⟨hKeeps.circular, hKeeps.missing⟩
  case after =>
    rintro i a n r r' hArg ⟨m, rfl, hKeeps, hExtent⟩ hLeft
    have hMem := List.mem_of_getElem? hArg
    have hBack := hLeft.keeps hKeeps
    have hCover :
        ∀ m' : InfixNotes, m'.extent = m.extent →
          (m'.cover i r'.extent).extent = s.spanned args (i + 1) := by
      intro m' hSame
      rw [spanned_succ hArg, hLeft.extent, InfixNotes.cover]
      dsimp only
      split
      · rename_i hZero
        rw [hZero, spanned_zero, Size.one_sup (hOne a hMem)]
      · rw [hSame, hExtent (by omega)]
    change Answers _ _ _ _ _ _ _ _
      (Notes.lift (.infixOp op) (m.afterOperand op s i r'))
    unfold InfixNotes.afterOperand
    rcases left_reduce hMem hKeeps hLeft with
      hEq | ⟨v, hEq⟩ | ⟨r'', hEq, hStops⟩
    · rw [hEq]
      exact .proceed ⟨_, rfl, hBack, fun _ => hCover m rfl⟩
    · rw [hEq]
      refine .proceed ⟨_, rfl, hBack, fun _ => hCover _ ?_⟩
      unfold InfixNotes.note
      split <;> rfl
    · rw [hEq]
      exact .pause hStops
  case leave =>
    rintro n r ⟨m, rfl, hKeeps, hExtent⟩
    refine .proceed (left_publishScalar hKeeps ?_ _)
    rw [hExtent hSome, extent_apply _ _ (by simp)]

theorem handles_unary
    {op : Operation}
    {f : Scalar → Scalar}
    (hOp : Notes.ofOperation args.length op = .unary f .start)
    (hNot : ∀ f, op ≠ .aggregate f)
    (r₀ : Registers)
    (hOne : ∀ a ∈ args, Size.one.Fits (s.extent a))
    (hSingle : args.length = 1) :
    s.Handles (Left s) bracketed op args r₀ fun i n r =>
      ∃ m, n = .unary f m ∧ r₀.Keeps r ∧
        (0 < i → r.extent = s.spanned args i) := by
  have hStart : r₀.Keeps r₀ := ⟨rfl, rfl, rfl, rfl⟩
  constructor
  case bare =>
    intro _
    rw [hOp]
    exact ⟨_, rfl, hStart, by simp⟩
  case before =>
    intro _
    rw [hOp]
    exact ⟨_, rfl, hStart, by simp⟩
  case steady =>
    rintro i n r ⟨m, -, hKeeps, -⟩
    exact ⟨hKeeps.circular, hKeeps.missing⟩
  case after =>
    rintro i a n r r' hArg ⟨m, rfl, hKeeps, -⟩ hLeft
    have hMem := List.mem_of_getElem? hArg
    have hBack := hLeft.keeps hKeeps
    obtain rfl : i = 0 := by
      rcases List.getElem?_eq_some_iff.mp hArg with ⟨hIn, -⟩
      omega
    have hExtent : r'.extent = s.spanned args (0 + 1) := by
      rw [spanned_succ hArg, hLeft.extent, spanned_zero,
        Size.one_sup (hOne a hMem)]
    change Answers _ _ _ _ _ _ _ _
      (Notes.lift (.unary f) (m.afterOperand f s r'))
    unfold UnaryNotes.afterOperand
    rcases left_reduce hMem hKeeps hLeft with
      hEq | ⟨v, hEq⟩ | ⟨r'', hEq, hStops⟩
    · rw [hEq]
      exact .proceed ⟨_, rfl, hBack, fun _ => hExtent⟩
    · rw [hEq]
      exact .proceed ⟨_, rfl, hBack, fun _ => hExtent⟩
    · rw [hEq]
      exact .pause hStops
  case leave =>
    rintro n r ⟨m, rfl, hKeeps, hExtent⟩
    refine .proceed (left_publishScalar hKeeps ?_ _)
    rw [hExtent (by omega), extent_apply _ _ hNot]

theorem handles_elementwise
    (f : Elementwise)
    (r₀ : Registers) :
    s.Handles (Left s) bracketed (.elementwise f) args r₀ fun i n r =>
      ∃ m, n = .elementwise f m ∧ r₀.Keeps r ∧
        m.extent = s.spanned args i := by
  constructor
  case bare => exact fun _ => ⟨_, rfl, ⟨rfl, rfl, rfl, rfl⟩, rfl⟩
  case before => exact fun _ => ⟨_, rfl, ⟨rfl, rfl, rfl, rfl⟩, rfl⟩
  case steady =>
    rintro i n r ⟨m, -, hKeeps, -⟩
    exact ⟨hKeeps.circular, hKeeps.missing⟩
  case after =>
    rintro i a n r r' hArg ⟨m, rfl, hKeeps, hExtent⟩ hLeft
    have hMem := List.mem_of_getElem? hArg
    have hBack := hLeft.keeps hKeeps
    have hCover :
        (m.cover r'.extent).extent = s.spanned args (i + 1) := by
      rw [spanned_succ hArg, hLeft.extent, ← hExtent]
      rfl
    change Answers _ _ _ _ _ _ _ _
      (Notes.lift (.elementwise f) (m.afterOperand s r'))
    unfold ElementwiseNotes.afterOperand
    rcases left_reduce hMem hKeeps hLeft with
      hEq | ⟨v, hEq⟩ | ⟨r'', hEq, hStops⟩
    · rw [hEq]
      exact .proceed ⟨_, rfl, hBack, hCover⟩
    · rw [hEq]
      exact .proceed ⟨_, rfl, hBack, hCover⟩
    · rw [hEq]
      exact .pause hStops
  case leave =>
    rintro n r ⟨m, rfl, hKeeps, hExtent⟩
    refine .proceed (left_publishScalar hKeeps ?_ _)
    rw [hExtent, extent_apply _ _ (by simp)]

------------------------------------------------------------
-- Choices
------------------------------------------------------------

/- What is known at a choice before an operand is visited. -/
structure Chooses
    (s : Site)
    (bracketed : Bool)
    (f : Choice)
    (args : List Expr)
    (r₀ : Registers)
    (i : Nat)
    (m : ChoiceNotes)
    (r : Registers) : Prop where
  outside : m.outside = r₀.suppressed
  circular : r.circular = r₀.circular
  offset : r.offset = r₀.offset
  missing : r.missing = r₀.missing
  suppressed :
    r.suppressed =
      (r₀.suppressed || (decide (0 < i) && !m.selection.isArgument i))
  extent : 0 < i → m.extent = s.spanned args i
  value :
    m.value.Within (s.Reads (.apply bracketed (.choice f) args))

theorem handles_choice
    (f : Choice)
    (r₀ : Registers)
    (hOne : ∀ a ∈ args, Size.one.Fits (s.extent a))
    (hSome : 0 < args.length) :
    s.Handles (Left s) bracketed (.choice f) args r₀ fun i n r =>
      ∃ m, n = .choice f args.length m ∧
        s.Chooses bracketed f args r₀ i m r := by
  constructor
  case bare =>
    intro hNil
    rw [hNil] at hSome
    simp at hSome
  case before =>
    intro _
    refine ⟨_, rfl, rfl, rfl, rfl, rfl, ?_, by simp, trivial⟩
    change r₀.suppressed = _
    simp
  case steady =>
    rintro i n r ⟨m, -, hChooses⟩
    exact ⟨hChooses.circular, hChooses.missing⟩
  case after =>
    rintro i a n r r' hArg ⟨m, rfl, hChooses⟩ hLeft
    have hMem := List.mem_of_getElem? hArg
    have hCircular := hLeft.circular.trans hChooses.circular
    have hOffset := hLeft.offset.trans hChooses.offset
    have hMissing := hLeft.missing.trans hChooses.missing
    have hSuppressed := hLeft.suppressed.trans hChooses.suppressed
    change Answers _ _ _ _ _ _ _ _
      (Notes.lift (.choice f args.length)
        (m.afterOperand f args.length s i r'))
    unfold ChoiceNotes.afterOperand
    split
    · -- the first operand selects
      rename_i hZero
      subst hZero
      have hExtent : r'.extent = s.spanned args (0 + 1) := by
        rw [spanned_succ hArg, hLeft.extent, spanned_zero,
          Size.one_sup (hOne a hMem)]
      have hSame : r'.suppressed = r₀.suppressed := by
        simpa using hSuppressed
      have hKeeps : r₀.Keeps r :=
        ⟨by simpa using hChooses.suppressed, hChooses.circular,
          hChooses.offset, hChooses.missing⟩
      have hWithin :
          r'.suppressed = false →
            r'.value.Within
              (s.Reads (.apply bracketed (.choice f) args)) := by
        intro hNeeded
        rw [hLeft.suppressed] at hNeeded
        exact (hLeft.value hNeeded).imp fun h => h.apply hMem
      unfold ChoiceNotes.afterSelector
      rcases reduce_spec (s := s) hWithin with
        ⟨hTrue, hEq⟩ | ⟨hFalse, ⟨v, hEq⟩ | ⟨r'', hEq, hStops⟩⟩
      · rw [hEq]
        refine .proceed ⟨_, rfl, hChooses.outside, hCircular, hOffset,
          hMissing, ?_, fun _ => hExtent, hChooses.value⟩
        rw [← hSame, hTrue]
        rfl
      · rw [hEq]
        have hOutside : (m.noteSelection
            (f.select args.length v)).outside = m.outside := by
          unfold ChoiceNotes.noteSelection
          split <;> rfl
        have hValue : (m.noteSelection
            (f.select args.length v)).value.Within
              (s.Reads (.apply bracketed (.choice f) args)) := by
          unfold ChoiceNotes.noteSelection
          split
          · exact hChooses.value
          · trivial
        refine .proceed ⟨_, rfl, hOutside.trans hChooses.outside,
          hCircular, hOffset, hMissing, ?_, fun _ => hExtent,
          hValue⟩
        rw [← hSame, hFalse]
        simp [ChoiceNotes.suppressFor]
      · rw [hEq]
        exact .pause (hStops.of_eq hCircular hMissing)
    · rename_i hPos
      have hExtent :
          m.extent.sup r'.extent = s.spanned args (i + 1) := by
        rw [spanned_succ hArg, hLeft.extent,
          hChooses.extent (by omega)]
      unfold ChoiceNotes.afterAlternative
      dsimp only
      split
      · rename_i hOutside
        rw [hChooses.outside] at hOutside
        refine .proceed ⟨_, rfl, hChooses.outside, hCircular, hOffset,
          hMissing, ?_, fun _ => hExtent, hChooses.value⟩
        rw [hSuppressed, hOutside]
        rfl
      · rename_i hInside
        rw [hChooses.outside, Bool.not_eq_true] at hInside
        refine .proceed ⟨_, rfl, hChooses.outside, hCircular, hOffset,
          hMissing, ?_, fun _ => hExtent, ?_⟩
        · rw [hInside]
          simp [ChoiceNotes.suppressFor]
        · dsimp only
          split
          · rename_i hSelected
            refine (hLeft.value ?_).imp fun h => h.apply hMem
            rw [hChooses.suppressed, hInside, hSelected]
            simp
          · exact hChooses.value
  case leave =>
    rintro n r ⟨m, rfl, hChooses⟩
    have hExtent :
        m.extent = s.extent (.apply bracketed (.choice f) args) := by
      rw [hChooses.extent hSome, extent_apply _ _ (by simp)]
    refine .proceed ?_
    unfold ChoiceNotes.leave
    dsimp only
    split
    · rename_i hOutside
      refine ⟨hChooses.outside, hChooses.circular, hChooses.offset,
        hChooses.missing, hExtent, fun hNot => ?_,
        fun _ => False.elim⟩
      rw [← hChooses.outside, hOutside] at hNot
      cases hNot
    · exact
        ⟨hChooses.outside, hChooses.circular, hChooses.offset,
          hChooses.missing, hExtent,
          fun _ => hChooses.value.narrow _ _, fun _ => False.elim⟩

------------------------------------------------------------
-- Aggregates
------------------------------------------------------------

/-
  Everything but the offset is as it was outside; the offset
  is kept aside.
-/
structure Aggregates
    (r₀ : Registers)
    (outside : Point)
    (r : Registers) : Prop where
  outside_eq : outside = r₀.offset
  suppressed : r.suppressed = r₀.suppressed
  circular : r.circular = r₀.circular
  missing : r.missing = r₀.missing

theorem Aggregates.of_left
    {r₀ r r' : Registers}
    {outside : Point}
    {a : Expr}
    (hOutside : Aggregates r₀ outside r)
    (hLeft : r.Left s a r') :
    Aggregates r₀ outside r' :=
  ⟨hOutside.outside_eq, hLeft.suppressed.trans hOutside.suppressed,
    hLeft.circular.trans hOutside.circular,
    hLeft.missing.trans hOutside.missing⟩

/- The offset outside is current again in the end. -/
theorem Aggregates.left
    {r₀ r : Registers}
    {outside : Point}
    {e : Expr}
    (hOutside : Aggregates r₀ outside r)
    (hOne : s.extent e = Size.one)
    (v : Scalar) :
    r₀.Left s e
      ({ r with offset := outside }.publishScalar v Size.one) :=
  left_publishScalar
    (r := { r with offset := outside })
    ⟨hOutside.suppressed, hOutside.circular, hOutside.outside_eq,
      hOutside.missing⟩
    hOne.symm v

/-
  The operand is visited again at its next offset, or it was
  the last one.
-/
theorem nextElement_cases (r : Registers) :
    (∃ p, r.extent.next? r.offset = some p ∧
      r.nextElement = (.repeatChild, { r with offset := p })) ∨
      r.nextElement = (.proceed, { r with offset := Point.zero }) := by
  unfold nextElement
  cases hNext : r.extent.next? r.offset with
  | some p => exact Or.inl ⟨p, rfl, rfl⟩
  | none => exact Or.inr rfl

theorem handles_aggregate
    {f : Aggregate}
    (hFold :
      Notes.ofOperation args.length (.aggregate f) =
        .aggregate f (.start f))
    (r₀ : Registers)
    (hSome : 0 < args.length) :
    s.Handles (Left s) bracketed (.aggregate f) args r₀ fun _ n r =>
      ∃ m, n = .aggregate f m ∧ Aggregates r₀ m.outside r := by
  have hExtent :
      s.extent (.apply bracketed (.aggregate f) args) = Size.one := by
    rw [extent]
  constructor
  case bare =>
    intro hNil
    rw [hNil] at hSome
    simp at hSome
  case before =>
    intro _
    rw [hFold]
    exact ⟨_, rfl, rfl, rfl, rfl, rfl⟩
  case steady =>
    rintro i n r ⟨m, -, hOutside⟩
    exact ⟨hOutside.circular, hOutside.missing⟩
  case after =>
    rintro i a n r r' hArg ⟨m, rfl, hBefore⟩ hLeft
    have hMem := List.mem_of_getElem? hArg
    have hOutside := hBefore.of_left hLeft
    change Answers _ _ _ _ _ _ _ _
      (Notes.lift (.aggregate f) (m.afterOperand f s r'))
    -- after one element, and after all of them
    have hElement :
        ∀ fold, Answers s
          (s.Reads (.apply bracketed (.aggregate f) args)) args
          (fun _ n r =>
            ∃ m, n = .aggregate f m ∧ Aggregates r₀ m.outside r)
          r₀ r i a
          (Notes.lift (.aggregate f) (m.afterElement fold r')) := by
      intro fold
      unfold AggregateNotes.afterElement
      cases fold with
      | error e => exact .skipAll ⟨_, rfl, hOutside⟩
      | ok fold =>
          rcases nextElement_cases r' with ⟨p, hNext, hEq⟩ | hEq
          · dsimp only
            rw [hEq]
            rw [hLeft.extent, hLeft.offset] at hNext
            exact
              .repeats hNext
                ⟨_, rfl, hOutside.outside_eq, hOutside.suppressed,
                  hOutside.circular, hOutside.missing⟩
          · dsimp only
            rw [hEq]
            exact
              .proceed
                ⟨_, rfl, hOutside.outside_eq, hOutside.suppressed,
                  hOutside.circular, hOutside.missing⟩
    have hAll :
        ∀ fold, Answers s
          (s.Reads (.apply bracketed (.aggregate f) args)) args
          (fun _ n r =>
            ∃ m, n = .aggregate f m ∧ Aggregates r₀ m.outside r)
          r₀ r i a
          (Notes.lift (.aggregate f) (m.afterAll fold r')) := by
      intro fold
      unfold AggregateNotes.afterAll
      cases fold with
      | error e => exact .skipAll ⟨_, rfl, hOutside⟩
      | ok fold => exact .proceed ⟨_, rfl, hOutside⟩
    unfold AggregateNotes.afterOperand
    split
    · exact .skipAll ⟨_, rfl, hOutside⟩
    · rename_i hNeeded
      rw [Bool.not_eq_true, hLeft.suppressed] at hNeeded
      have hWithin :
          r'.value.Within
            (s.Reads (.apply bracketed (.aggregate f) args)) :=
        (hLeft.value hNeeded).imp fun h => h.apply hMem
      split
      · exact .skipAll ⟨_, rfl, hOutside⟩
      · rename_i fold _
        unfold AggregateNotes.foldOperand
        cases hValue : r'.value with
        | scalar v => exact hElement _
        | cell p =>
            rw [hValue] at hWithin
            dsimp only
            rcases
              (read_spec hWithin : Gives s (s.Reads _) r' (r'.read s p))
              with
              ⟨v, hEq⟩ | ⟨r'', hEq, hStops⟩
            · rw [hEq]
              exact hElement _
            · rw [hEq]
              exact
                .pause
                  (hStops.of_eq hOutside.circular hOutside.missing)
        | array a => exact hAll _
        | area a =>
            rw [hValue] at hWithin
            dsimp only
            have hSettles :=
              foldArea_spec (s := s) r' (fun h => hWithin h)
                (Fold.addIndirect f) fold
            generalize r'.foldArea s a (Fold.addIndirect f) fold =
              sweep at hSettles
            rcases sweep with ⟨t | e | t, r''⟩
            · cases hSettles
              exact hAll _
            · cases hSettles.1
              exact hAll _
            · exact
                .pause
                  (hSettles.of_eq hOutside.circular hOutside.missing)
  case leave =>
    rintro n r ⟨m, rfl, hOutside⟩
    exact .proceed (hOutside.left hExtent _)

------------------------------------------------------------
-- Sums Of Products
------------------------------------------------------------

end Site

/- A factor that is a rectangle has covered cells. -/
def Factor.Within (covers : Point → Prop) : Factor → Prop
  | .area a => ∀ {p}, a.contains p = true → covers p
  | .scalars _ _ => True

theorem Factor.within_extend
    (covers : Point → Prop)
    (v : Scalar)
    (r : Registers)
    (factor : Option Factor) :
    (Factor.extend v r factor).Within covers := by
  unfold Factor.extend
  split
  · split <;> trivial
  · trivial

/- The scalars of a factor are read, or there is one to wait
  for. -/
theorem Factor.collect_spec
    {s : Site}
    {covers : Point → Prop}
    {a : Factor}
    (hWithin : a.Within covers)
    (r : Registers) :
    (∃ vs, a.collect s r = (some vs, r)) ∨
      ∃ r', a.collect s r = (none, r') ∧ r.Stops s covers r' := by
  cases a with
  | scalars extent vs => exact Or.inl ⟨_, rfl⟩
  | area a =>
      unfold Factor.collect
      dsimp only
      have hSettles :=
        foldArea_spec (s := s) r
          (fun h => hWithin h)
          (fun v vs => (.ok (v :: vs) : Except ErrorValue _)) []
      generalize
        r.foldArea s a (fun v vs => .ok (v :: vs)) [] = sweep
        at hSettles
      rcases sweep with ⟨t | e | t, r'⟩
      · cases hSettles
        exact Or.inl ⟨_, rfl⟩
      · -- collecting does not fail
        rcases hSettles.2 with ⟨v, vs, hError⟩
        cases hError
      · exact Or.inr ⟨_, rfl, hSettles⟩

namespace ProductNotes

/- Rectangles among the factors have covered cells. -/
def Within (covers : Point → Prop) (n : ProductNotes) : Prop :=
  ∀ i a, n.factor i = some a → a.Within covers

theorem Within.imp
    {covers covers' : Point → Prop}
    {n : ProductNotes}
    (hWithin : n.Within covers)
    (hImp : ∀ {p}, covers p → covers' p) :
    n.Within covers' := by
  intro i a ha
  have hFactor := hWithin i a ha
  cases a with
  | area a =>
      intro p hIn
      exact hImp (hFactor hIn)
  | scalars extent vs => trivial

theorem within_note
    {covers : Point → Prop}
    {n : ProductNotes}
    {i : Nat}
    {a : Factor}
    (hWithin : n.Within covers)
    (hFactor : a.Within covers) :
    (n.note i a).Within covers := by
  intro j b hb
  have hFirst := hWithin 0
  have hSecond := hWithin 1
  simp only [factor, note] at hb hFirst hSecond
  grind

/- The sum is known, or there is a cell to wait for. -/
theorem compute_spec
    {s : Site}
    {covers : Point → Prop}
    {n : ProductNotes}
    (hWithin : n.Within covers)
    (r : Registers) :
    (∃ total, n.compute s r = (some total, r)) ∨
      ∃ r', n.compute s r = (none, r') ∧ r.Stops s covers r' := by
  unfold compute
  split
  · rename_i a b hFirst hSecond
    split
    · have hA : a.Within covers := hWithin 0 a hFirst
      have hB : b.Within covers := hWithin 1 b hSecond
      unfold sumFactors
      split
      · rename_i a b _
        have hSettles :=
          foldAreas_spec (s := s) r (fun h => hA h) (fun h => hB h)
            addProduct 0
        unfold sumAreas
        generalize r.foldAreas s a b addProduct 0 = sweep
          at hSettles
        rcases sweep with ⟨t | e | t, r'⟩
        · cases hSettles
          exact Or.inl ⟨_, rfl⟩
        · cases hSettles.1
          exact Or.inl ⟨_, rfl⟩
        · exact Or.inr ⟨_, rfl, hSettles⟩
      · rcases Factor.collect_spec (s := s) hA r with
          ⟨vs, hEq⟩ | ⟨r', hEq, hStops⟩
        · rw [hEq]
          dsimp only
          rcases Factor.collect_spec (s := s) hB r with
            ⟨ws, hEq'⟩ | ⟨r', hEq', hStops⟩
          · rw [hEq']
            exact Or.inl ⟨_, rfl⟩
          · rw [hEq']
            exact Or.inr ⟨_, rfl, hStops⟩
        · rw [hEq]
          exact Or.inr ⟨_, rfl, hStops⟩
    · exact Or.inl ⟨_, rfl⟩
  · exact Or.inl ⟨_, rfl⟩

end ProductNotes

namespace Site

variable {s : Site} {bracketed : Bool} {args : List Expr}

theorem handles_product
    (r₀ : Registers)
    (hSome : 0 < args.length) :
    s.Handles (Left s) bracketed (.aggregate .sumProduct) args r₀
      fun _ n r =>
        ∃ m, n = .product m ∧ Aggregates r₀ m.outside r ∧
          m.Within
            (s.Reads
              (.apply bracketed (.aggregate .sumProduct) args)) := by
  have hExtent :
      s.extent (.apply bracketed (.aggregate .sumProduct) args) =
        Size.one := by
    rw [extent]
  constructor
  case bare =>
    intro hNil
    rw [hNil] at hSome
    simp at hSome
  case before =>
    intro _
    refine ⟨_, rfl, ⟨rfl, rfl, rfl, rfl⟩, ?_⟩
    intro i a ha
    simp [ProductNotes.factor, ProductNotes.start] at ha
  case steady =>
    rintro i n r ⟨m, -, hOutside, -⟩
    exact ⟨hOutside.circular, hOutside.missing⟩
  case after =>
    rintro i a n r r' hArg ⟨m, rfl, hBefore, hNotes⟩ hLeft
    have hMem := List.mem_of_getElem? hArg
    have hOutside := hBefore.of_left hLeft
    have hKept : ∀ b, (m.note i b).outside = m.outside := by
      intro b
      unfold ProductNotes.note
      split <;> rfl
    change Answers _ _ _ _ _ _ _ _
      (Notes.lift .product (m.afterOperand s i r'))
    unfold ProductNotes.afterOperand
    split
    · exact .skipAll ⟨_, rfl, hOutside, hNotes⟩
    · rename_i hNeeded
      rw [Bool.not_eq_true, hLeft.suppressed] at hNeeded
      have hWithin :
          r'.value.Within
            (s.Reads
              (.apply bracketed (.aggregate .sumProduct) args)) :=
        (hLeft.value hNeeded).imp fun h => h.apply hMem
      cases hValue : r'.value with
      | area a =>
          rw [hValue] at hWithin
          refine .proceed ⟨_, rfl, ?_, ProductNotes.within_note hNotes
            (fun h => hWithin h)⟩
          rw [hKept]
          exact hOutside
      | array a =>
          refine .proceed ⟨_, rfl, ?_,
            ProductNotes.within_note hNotes trivial⟩
          rw [hKept]
          exact hOutside
      | cell p =>
          rw [hValue] at hWithin
          dsimp only
          rcases
            (read_spec hWithin : Gives s (s.Reads _) r' (r'.read s p))
            with
            ⟨v, hEq⟩ | ⟨r'', hEq, hStops⟩
          · rw [hEq]
            refine .proceed ⟨_, rfl, ?_,
              ProductNotes.within_note hNotes trivial⟩
            rw [hKept]
            exact hOutside
          · rw [hEq]
            exact
              .pause (hStops.of_eq hOutside.circular hOutside.missing)
      | scalar v =>
          dsimp only
          have hNoted :=
            ProductNotes.within_note (i := i) hNotes
              (Factor.within_extend _ v r' (m.factor i))
          rcases nextElement_cases r' with ⟨p, hNext, hEq⟩ | hEq
          · rw [hEq]
            rw [hLeft.extent, hLeft.offset] at hNext
            refine .repeats hNext ⟨_, rfl, ?_, hNoted⟩
            rw [hKept]
            exact
              ⟨hOutside.outside_eq, hOutside.suppressed,
                hOutside.circular, hOutside.missing⟩
          · rw [hEq]
            refine .proceed ⟨_, rfl, ?_, hNoted⟩
            rw [hKept]
            exact
              ⟨hOutside.outside_eq, hOutside.suppressed,
                hOutside.circular, hOutside.missing⟩
  case leave =>
    rintro n r ⟨m, rfl, hOutside, hNotes⟩
    change Leaves _ _ _ _ (Notes.lift .product (m.leave s r))
    unfold ProductNotes.leave
    split
    · exact .proceed (hOutside.left hExtent _)
    · rcases ProductNotes.compute_spec (s := s) hNotes r with
        ⟨total, hEq⟩ | ⟨r', hEq, hStops⟩
      · rw [hEq]
        exact .proceed (hOutside.left hExtent _)
      · rw [hEq]
        exact
          .pause (hStops.of_eq hOutside.circular hOutside.missing)

------------------------------------------------------------
-- Expressions
------------------------------------------------------------

/-
  What every node keeps track of before an operand is visited,
  by the kind of its operation.
-/
def Tracks
    (s : Site)
    (bracketed : Bool)
    (op : Operation)
    (args : List Expr)
    (r₀ : Registers)
    (i : Nat)
    (n : Notes)
    (r : Registers) : Prop :=
  match op with
  | .infixOp op =>
      ∃ m, n = .infixOp op m ∧ r₀.Keeps r ∧
        (0 < i → m.extent = s.spanned args i)
  | .negate =>
      ∃ m, n = .unary Scalar.negate m ∧ r₀.Keeps r ∧
        (0 < i → r.extent = s.spanned args i)
  | .percent =>
      ∃ m, n = .unary Scalar.percent m ∧ r₀.Keeps r ∧
        (0 < i → r.extent = s.spanned args i)
  | .aggregate .sumProduct =>
      ∃ m, n = .product m ∧ Aggregates r₀ m.outside r ∧
        m.Within
          (s.Reads
            (.apply bracketed (.aggregate .sumProduct) args))
  | .aggregate f =>
      ∃ m, n = .aggregate f m ∧ Aggregates r₀ m.outside r
  | .elementwise f =>
      ∃ m, n = .elementwise f m ∧ r₀.Keeps r ∧
        m.extent = s.spanned args i
  | .choice f =>
      ∃ m, n = .choice f args.length m ∧
        s.Chooses bracketed f args r₀ i m r

/- Every operation has operands, or needs none. -/
theorem handles_tracks
    {op : Operation}
    (hCount : op.accepts args.length = true)
    (hOne : ∀ a ∈ args, Size.one.Fits (s.extent a))
    (r₀ : Registers) :
    s.Handles (Left s) bracketed op args r₀
      (s.Tracks bracketed op args r₀) := by
  simp only [Operation.accepts, Bool.and_eq_true, decide_eq_true_eq]
    at hCount
  cases op with
  | infixOp op =>
      have hSome : 2 ≤ args.length := hCount.1
      exact handles_infixOp op r₀ hOne (by omega)
  | negate =>
      have hFew : 1 ≤ args.length := hCount.1
      have hMost : args.length ≤ 1 := of_decide_eq_true hCount.2
      exact handles_unary rfl (by simp) r₀ hOne (by omega)
  | percent =>
      have hFew : 1 ≤ args.length := hCount.1
      have hMost : args.length ≤ 1 := of_decide_eq_true hCount.2
      exact handles_unary rfl (by simp) r₀ hOne (by omega)
  | aggregate f =>
      have hSome : 0 < args.length := by
        have hFew := hCount.1
        cases f <;> simp only [Operation.fewest] at hFew <;> omega
      cases f with
      | sumProduct => exact handles_product r₀ hSome
      | _ => exact handles_aggregate rfl r₀ hSome
  | elementwise f => exact handles_elementwise f r₀
  | choice f =>
      have hSome : 2 ≤ args.length := hCount.1
      exact handles_choice f r₀ hOne (by omega)

theorem exists_handles
    {op : Operation}
    (hCount : op.accepts args.length = true)
    (hOne : ∀ a ∈ args, Size.one.Fits (s.extent a))
    (r₀ : Registers) :
    ∃ Inv, s.Handles (Left s) bracketed op args r₀ Inv :=
  ⟨_, handles_tracks hCount hOne r₀⟩

/- A node is visited if all its operands are. -/
theorem visits_node
    {Done : Expr → Registers → Registers → Prop}
    (hArgs : ∀ a ∈ args, a.Proper)
    {V : Nat}
    (hReach : (s.reach (.apply bracketed op args)).area ≤ V)
    (hHandles : ∀ r₀, ∃ Inv, s.Handles Done bracketed op args r₀ Inv)
    (hVisits :
      ∀ a ∈ args, (s.reach a).area ≤ V →
        s.Visits Done (a.stepBound V) a) :
    s.Visits Done ((Expr.apply bracketed op args).stepBound V)
      (.apply bracketed op args) := by
  have hReaches : ∀ a ∈ args, (s.reach a).area ≤ V := by
    intro a ha
    refine le_trans (Size.area_le ?_) hReach
    rw [reach]
    exact Size.fits_foldl_sup_of_mem (List.mem_map_of_mem ha) _
  refine
    visits_apply hHandles
      (fun a ha => s.one_fits_extent (hArgs a ha)) (fun a ha => ?_)
      fun a ha => hVisits a ha (hReaches a ha)
  exact
    (Size.area_le (s.extent_fits_reach (hArgs a ha))).trans
      (hReaches a ha)

/- Every expression is visited within its steps. -/
theorem visits_of_proper
    (s : Site)
    {e : Expr}
    (hProper : e.Proper)
    {V : Nat}
    (hReach : (s.reach e).area ≤ V) :
    s.Visits (Left s) (e.stepBound V) e := by
  induction hProper with
  | leaf b _ => exact s.visits_leaf b _ (left_leaf b _) V
  | @apply b op args hCount hArgs ih =>
      have hOne : ∀ a ∈ args, Size.one.Fits (s.extent a) :=
        fun a ha => s.one_fits_extent (hArgs a ha)
      exact visits_node hArgs hReach (exists_handles hCount hOne) ih

end Site

end Spreadsheet
