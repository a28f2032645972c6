import Spreadsheet.Proofs.Evaluation.Meaning
import Spreadsheet.Proofs.Evaluation.Visit

/-
  The value that a visit leaves is what the expression means
  at the current offset, if all cells can be read.

  Main declarations:
    * `Registers.Learns`
    * `Registers.Computes`
    * `Site.Handles.strengthen`
    * `Site.computes_infixOp`
    * `Site.computes_elementwise`
    * `Site.computes_choice`
-/

namespace Spreadsheet

open Registers

/-
  An expression was evaluated at the current offset. Unless
  this was suppressed, something is known afterwards.
-/
structure Registers.Learns
    (s : Site)
    (Known : Expr → Registers → Registers → Prop)
    (e : Expr)
    (r r' : Registers) : Prop where
  left : r.Left s e r'
  known : r.suppressed = false → Known e r r'

/- The value is what the expression means at the offset. -/
abbrev Registers.Computes
    (s : Site)
    (cells : Point → Scalar)
    (e : Expr)
    (r r' : Registers) : Prop :=
  Learns s
    (fun e r r' => r'.value = (s.spread cells e).get r.offset) e r r'

------------------------------------------------------------
-- Reading What Can Be Read
------------------------------------------------------------

namespace Registers

variable {s : Site} {cells : Point → Scalar}
variable {covers : Point → Prop}

theorem read_eq
    {p : Point}
    {v : Scalar}
    (hShown : s.read p = .value v)
    (r : Registers) :
    r.read s p = (some v, r) := by
  rw [read, hShown]

theorem element_eq
    {o : Operand}
    (hShown : ∀ p, covers p → s.read p = .value (cells p))
    (hWithin : o.Within covers)
    (r : Registers) :
    r.element s o = (some (o.scalarAt cells r.offset), r) := by
  cases o with
  | scalar v => rfl
  | array a => rfl
  | cell p => exact read_eq (hShown p hWithin) r
  | area a =>
      unfold element Operand.scalarAt
      dsimp only
      cases hElement : a.element r.offset with
      | error e => rfl
      | ok p =>
          exact
            read_eq (hShown p (hWithin (Rect.contains_element hElement)))
              r

/- An operand is reduced to what it means at the offset. -/
theorem reduce_eq
    {a : Expr}
    {r r' : Registers}
    (hReveals : s.Reveals cells a)
    (hNeeded : r.suppressed = false)
    (hComputes : r.Computes s cells a r') :
    r'.reduce s =
      (.scalar ((s.spread cells a).scalarAt cells r.offset), r') := by
  have hSuppressed := hComputes.left.suppressed.trans hNeeded
  have hWithin := hComputes.left.value hNeeded
  unfold reduce
  rw [if_neg (by simp [hSuppressed]), result,
    element_eq hReveals hWithin, hComputes.left.offset,
    hComputes.known hNeeded]
  rfl

end Registers

namespace Gathering

variable {ε τ : Type}

/- How a run ends when nothing has to be waited for. -/
def settled
    (r : Registers)
    (result : Except ε τ) : Ended ε τ :=
  match result with
  | .ok t => (.complete t, r)
  | .error e => (.aborted e, r)

/- By induction on the cells that are left. -/
theorem ending_eq
    {l : List Point}
    {r : Registers}
    {step : Gathering τ → Point → Except (Ended ε τ) (Gathering τ)}
    {f : τ → Point → Except ε τ}
    (hStep :
      ∀ p ∈ l, ∀ t,
        step ⟨t, false, r⟩ p =
          match f t p with
          | .ok t => .ok ⟨t, false, r⟩
          | .error e => .error (.aborted e, r))
    (t : τ) :
    ending (l.foldlM step ⟨t, false, r⟩) =
      settled r (l.foldlM f t) := by
  induction l generalizing t with
  | nil => rfl
  | cons p l ih =>
      rw [List.foldlM_cons, List.foldlM_cons,
        hStep p List.mem_cons_self]
      cases f t p with
      | error e => rfl
      | ok t =>
          exact ih (fun q hq => hStep q (List.mem_cons_of_mem _ hq)) t

end Gathering

namespace Registers

open Gathering

variable {s : Site} {cells : Point → Scalar} {ε τ : Type}

theorem foldArea_eq
    {area : Rect}
    (hClip : area.clip = area)
    (hShown :
      ∀ p, area.contains p = true → s.read p = .value (cells p))
    (r : Registers)
    (op : Scalar → τ → Except ε τ)
    (t : τ) :
    r.foldArea s area op t =
      settled r (area.points.foldlM (fun t p => op (cells p) t) t) := by
  rw [foldArea, Rect.foldUntil_eq_foldlM, hClip]
  refine ending_eq (fun p hp t => ?_) t
  rw [Rect.mem_points] at hp
  rw [Gathering.read, hShown p hp]
  change (Gathering.mk t false r).add (op (cells p)) = _
  unfold Gathering.add
  cases op (cells p) t <;> rfl

/- Two rectangles of one size are folded cell by cell. -/
theorem foldAreas_eq
    {first second : Rect}
    (hFirst : first.clip = first)
    (hSecond : second.clip = second)
    (hSize : first.size = second.size)
    (hShown :
      ∀ p, first.contains p = true ∨ second.contains p = true →
        s.read p = .value (cells p))
    (r : Registers)
    (op : Scalar → Scalar → τ → Except ε τ)
    (t : τ) :
    r.foldAreas s first second op t =
      settled r
        (((first.points.map cells).zip
          (second.points.map cells)).foldlM
            (fun t v => op v.1 v.2 t) t) := by
  rw [foldAreas, Rect.foldUntil_eq_foldlM, hFirst, hSecond,
    first.points_eq_map, second.points_eq_map, ← hSize, List.map_map,
    List.map_map, List.zip_map', List.foldlM_map]
  refine ending_eq (fun p hp t => ?_) t
  rw [Rect.mem_points, Rect.contains_whole] at hp
  have hLeft :
      s.read (p.add first.origin.toSize) =
        .value (cells (p.add first.origin.toSize)) :=
    hShown _ (Or.inl (Rect.contains_clip_add (by rwa [hFirst])))
  have hRight :
      s.read (p.add second.origin.toSize) =
        .value (cells (p.add second.origin.toSize)) :=
    hShown _
      (Or.inr (Rect.contains_clip_add (by rwa [hSecond, ← hSize])))
  rw [Gathering.read, hLeft]
  change
    ((Gathering.mk t false r).readIf (first.size.contains p) s _ >>=
      _) = _
  rw [hp, Gathering.readIf, if_pos rfl, Gathering.read, hRight]
  change (Gathering.mk t false r).add (op _ _) = _
  unfold Gathering.add
  dsimp only [Function.comp_apply]
  cases op (cells (p.add first.origin.toSize))
    (cells (p.add second.origin.toSize)) t <;> rfl

end Registers

namespace Site

------------------------------------------------------------
-- What A Node Knows
------------------------------------------------------------

/-
  What a node knows is kept after an operand was left, however
  the node goes on.
-/
inductive Continues
    (count : Nat)
    (Knows : Nat → Notes → Registers → Prop)
    (i : Nat) : Response Notes → Prop where
  | pause {n : Notes} {r : Registers} :
      Continues count Knows i (.pause, n, r)
  | proceed
      {n : Notes}
      {r : Registers}
      (hKnows : Knows (i + 1) n r) :
      Continues count Knows i (.proceed, n, r)
  | skipAll
      {n : Notes}
      {r : Registers}
      (hKnows : Knows count n r) :
      Continues count Knows i (.skipAll, n, r)
  | repeats
      {n : Notes}
      {r : Registers}
      (hKnows : Knows i n r) :
      Continues count Knows i (.repeatChild, n, r)

variable {s : Site} {cells : Point → Scalar} {bracketed : Bool}
variable {op : Operation} {args : List Expr} {r₀ : Registers}
variable {Inv : Nat → Notes → Registers → Prop}

/- A node that goes on as it should keeps what it knows. -/
theorem Answers.learn
    {covers : Point → Prop}
    {Knows : Nat → Notes → Registers → Prop}
    {r : Registers}
    {i : Nat}
    {a : Expr}
    {res : Response Notes}
    (hAnswers : Answers s covers args Inv r₀ r i a res)
    (hContinues :
      r₀.suppressed = false → Continues args.length Knows i res) :
    Answers s covers args
      (fun i n r => Inv i n r ∧ (r₀.suppressed = false → Knows i n r))
      r₀ r i a res := by
  cases hAnswers with
  | pause hStops => exact .pause hStops
  | proceed hNext =>
      refine .proceed ⟨hNext, fun hNeeded => ?_⟩
      cases hContinues hNeeded with
      | proceed hKnows => exact hKnows
  | skipAll hNext =>
      refine .skipAll ⟨hNext, fun hNeeded => ?_⟩
      cases hContinues hNeeded with
      | skipAll hKnows => exact hKnows
  | repeats hOffset hNext =>
      refine .repeats hOffset ⟨hNext, fun hNeeded => ?_⟩
      cases hContinues hNeeded with
      | repeats hKnows => exact hKnows

/- A node that is left as it should lets something be known. -/
theorem Leaves.learn
    {t : Site}
    {e : Expr}
    {Known : Expr → Registers → Registers → Prop}
    {res : Response Notes}
    (hLeaves : Leaves t (Left s) e r₀ res)
    (hKnown :
      r₀.suppressed = false →
        ∀ n r, res = (.proceed, n, r) → Known e r₀ r) :
    Leaves t (Learns s Known) e r₀ res := by
  cases hLeaves with
  | pause hStops => exact .pause hStops
  | proceed hLeft =>
      exact .proceed ⟨hLeft, fun hNeeded => hKnown hNeeded _ _ rfl⟩

/-
  A node that treats its operands as it should lets something
  be known, if it knows enough about them.
-/
theorem Handles.strengthen
    {Known : Expr → Registers → Registers → Prop}
    (hHandles : s.Handles (Left s) bracketed op args r₀ Inv)
    (Knows : Nat → Notes → Registers → Prop)
    (hStart :
      r₀.suppressed = false →
        if args = [] then
          Knows 0 (.ofOperation args.length op) r₀
        else
          Knows 0 ((Notes.ofOperation args.length op).beforeOperands
            r₀).1 ((Notes.ofOperation args.length op).beforeOperands
              r₀).2)
    (hAfter :
      ∀ {i a n r r'}, r₀.suppressed = false → args[i]? = some a →
        Inv i n r → Knows i n r → r.Learns s Known a r' →
          Continues args.length Knows i (n.afterOperand s i r'))
    (hLeave :
      ∀ {n n' r r'}, r₀.suppressed = false → Inv args.length n r →
        Knows args.length n r → n.leave s r = (.proceed, n', r') →
          Known (.apply bracketed op args) r₀ r') :
    s.Handles (Learns s Known) bracketed op args r₀ fun i n r =>
      Inv i n r ∧ (r₀.suppressed = false → Knows i n r) := by
  constructor
  case bare =>
    intro hNil
    refine ⟨hHandles.bare hNil, fun hNeeded => ?_⟩
    have hKnows := hStart hNeeded
    rwa [if_pos hNil] at hKnows
  case before =>
    intro hSome
    refine ⟨hHandles.before hSome, fun hNeeded => ?_⟩
    have hKnows := hStart hNeeded
    rwa [if_neg hSome] at hKnows
  case steady =>
    rintro i n r ⟨hInv, -⟩
    exact hHandles.steady hInv
  case after =>
    rintro i a n r r' hArg ⟨hInv, hKnows⟩ hLearns
    exact
      (hHandles.after hArg hInv hLearns.left).learn
        fun hNeeded => hAfter hNeeded hArg hInv (hKnows hNeeded) hLearns
  case leave =>
    rintro n r ⟨hInv, hKnows⟩
    exact
      (hHandles.leave hInv).learn fun hNeeded _ _ hEq =>
        hLeave hNeeded hInv (hKnows hNeeded) hEq

/- The scalars of the operands at an offset. -/
def scalarsAt
    (s : Site)
    (cells : Point → Scalar)
    (args : List Expr)
    (p : Point) : List Scalar :=
  args.map fun a => (s.spread cells a).scalarAt cells p

theorem scalarsAt_eq
    (s : Site)
    (cells : Point → Scalar)
    (args : List Expr)
    (p : Point) :
    (args.map (s.spread cells)).map (Spread.scalarAt cells · p) =
      s.scalarsAt cells args p := by
  rw [List.map_map]
  rfl

theorem getElem?_scalarsAt
    {i : Nat}
    {a : Expr}
    (hArg : args[i]? = some a)
    (p : Point) :
    (s.scalarsAt cells args p)[i]?.getD .blank =
      (s.spread cells a).scalarAt cells p := by
  rw [scalarsAt, List.getElem?_map, hArg]
  rfl

/- A scalar that is left unless it is suppressed. -/
theorem value_publishScalar
    {r : Registers}
    (hNeeded : r.suppressed = false)
    (v : Scalar)
    (size : Size) :
    (r.publishScalar v size).value = .scalar v := by
  rw [publishScalar, hNeeded]
  rfl

------------------------------------------------------------
-- Elementwise Operations
------------------------------------------------------------

theorem computes_infixOp
    (op : InfixOp)
    (r₀ : Registers)
    (hOne : ∀ a ∈ args, Size.one.Fits (s.extent a))
    (hTwo : args.length = 2)
    (hReveals : ∀ a ∈ args, s.Reveals cells a) :
    ∃ Inv, s.Handles (Computes s cells) bracketed (.infixOp op) args
      r₀ Inv := by
  refine
    ⟨_, (handles_infixOp op r₀ hOne (by omega)).strengthen
      (fun i n _ =>
        ∃ m, n = .infixOp op m ∧
          (0 < i →
            m.first =
              (s.scalarsAt cells args r₀.offset)[0]?.getD .blank) ∧
          (1 < i →
            m.result = op.onScalars
              (s.scalarsAt cells args r₀.offset)))
      (fun _ => ?_) (fun {i a n r r'} hNeeded hArg hInv => ?_)
      fun {n n' r r'} hNeeded hInv => ?_⟩
  · split <;> exact ⟨_, rfl, by simp, by simp⟩
  · rintro ⟨m, rfl, hFirst, -⟩ hComputes
    rcases hInv with ⟨_, -, hKeeps, -⟩
    have hMem := List.mem_of_getElem? hArg
    have hIn := (List.getElem?_eq_some_iff.mp hArg).1
    change Continues _ _ _
      (Notes.lift (.infixOp op) (m.afterOperand op s i r'))
    rw [InfixNotes.afterOperand,
      reduce_eq (hReveals a hMem) (hKeeps.suppressed.trans hNeeded)
        hComputes, hKeeps.offset]
    have hValue :
        (s.scalarsAt cells args r₀.offset)[i]?.getD .blank = _ :=
      getElem?_scalarsAt hArg r₀.offset
    rcases Nat.eq_zero_or_pos i with rfl | hPos
    · refine .proceed ⟨_, rfl, fun _ => ?_, by simp⟩
      rw [hValue]
      rfl
    · obtain rfl : i = 1 := by omega
      refine .proceed ⟨_, rfl, fun _ => ?_, fun _ => ?_⟩
      · exact hFirst Nat.one_pos
      · rw [InfixOp.onScalars, hValue, ← hFirst Nat.one_pos]
        rfl
  · rintro ⟨m, rfl, -, hResult⟩ hLeave
    rcases hInv with ⟨_, -, hKeeps, -⟩
    cases hLeave
    rw [InfixNotes.leave,
      value_publishScalar (hKeeps.suppressed.trans hNeeded),
      hResult (by omega), spread, ← scalarsAt_eq]
    rfl

theorem computes_unary
    {op : Operation}
    {f : Scalar → Scalar}
    (hOp : Notes.ofOperation args.length op = .unary f .start)
    (hNot : ∀ f, op ≠ .aggregate f)
    (hSpread : op.spread cells = .elementwise cells (onFirst f))
    (r₀ : Registers)
    (hOne : ∀ a ∈ args, Size.one.Fits (s.extent a))
    (hSingle : args.length = 1)
    (hReveals : ∀ a ∈ args, s.Reveals cells a) :
    ∃ Inv, s.Handles (Computes s cells) bracketed op args r₀
      Inv := by
  refine
    ⟨_, (handles_unary hOp hNot r₀ hOne hSingle).strengthen
      (fun i n _ =>
        ∃ m, n = .unary f m ∧
          (0 < i →
            m.result =
              onFirst f (s.scalarsAt cells args r₀.offset)))
      (fun _ => ?_) (fun {i a n r r'} hNeeded hArg hInv => ?_)
      fun {n n' r r'} hNeeded hInv => ?_⟩
  · rw [hOp]
    split <;> exact ⟨_, rfl, by simp⟩
  · rintro ⟨m, rfl, -⟩ hComputes
    rcases hInv with ⟨_, -, hKeeps, -⟩
    have hMem := List.mem_of_getElem? hArg
    have hIn := (List.getElem?_eq_some_iff.mp hArg).1
    change Continues _ _ _
      (Notes.lift (.unary f) (m.afterOperand f s r'))
    rw [UnaryNotes.afterOperand,
      reduce_eq (hReveals a hMem) (hKeeps.suppressed.trans hNeeded)
        hComputes, hKeeps.offset]
    obtain rfl : i = 0 := by omega
    refine .proceed ⟨_, rfl, fun _ => ?_⟩
    rw [onFirst, getElem?_scalarsAt hArg]
  · rintro ⟨m, rfl, hResult⟩ hLeave
    rcases hInv with ⟨_, -, hKeeps, -⟩
    cases hLeave
    rw [UnaryNotes.leave,
      value_publishScalar (hKeeps.suppressed.trans hNeeded),
      hResult (by omega), spread, ← scalarsAt_eq, hSpread]
    rfl

theorem computes_elementwise
    (f : Elementwise)
    (r₀ : Registers)
    (hReveals : ∀ a ∈ args, s.Reveals cells a) :
    ∃ Inv, s.Handles (Computes s cells) bracketed (.elementwise f)
      args r₀ Inv := by
  refine
    ⟨_, (handles_elementwise f r₀).strengthen
      (fun i n _ =>
        ∃ m, n = .elementwise f m ∧
          m.args = s.scalarsAt cells (args.take i) r₀.offset)
      (fun _ => ?_) (fun {i a n r r'} hNeeded hArg hInv => ?_)
      fun {n n' r r'} hNeeded hInv => ?_⟩
  · split <;> exact ⟨_, rfl, by rw [List.take_zero]; rfl⟩
  · rintro ⟨m, rfl, hArgs⟩ hComputes
    rcases hInv with ⟨_, -, hKeeps, -⟩
    have hMem := List.mem_of_getElem? hArg
    change Continues _ _ _
      (Notes.lift (.elementwise f) (m.afterOperand s r'))
    rw [ElementwiseNotes.afterOperand,
      reduce_eq (hReveals a hMem) (hKeeps.suppressed.trans hNeeded)
        hComputes, hKeeps.offset]
    refine .proceed ⟨_, rfl, ?_⟩
    rw [List.take_add_one, hArg, scalarsAt, List.map_append,
      ← scalarsAt, ← hArgs]
    rfl
  · rintro ⟨m, rfl, hArgs⟩ hLeave
    rcases hInv with ⟨_, -, hKeeps, -⟩
    cases hLeave
    rw [ElementwiseNotes.leave,
      value_publishScalar (hKeeps.suppressed.trans hNeeded), hArgs,
      List.take_length, spread, ← scalarsAt_eq]
    rfl

------------------------------------------------------------
-- Choices
------------------------------------------------------------

/-
  The operand that a choice hands on, once its first `i`
  operands were visited.
-/
def chosen
    (s : Site)
    (cells : Point → Scalar)
    (args : List Expr)
    (p : Point)
    (i : Nat) : Selection → Operand
  | .argument j =>
      if 0 < j ∧ j < i then
        (args[j]?.map fun a => (s.spread cells a).get p).getD .blank
      else .blank
  | .result v => .scalar v

theorem chosen_length
    (f : Choice)
    (args : List Expr)
    (p : Point) :
    s.chosen cells args p args.length
        (f.select args.length
          ((s.scalarsAt cells args p)[0]?.getD .blank)) =
      Spread.selected cells f (args.map (s.spread cells)) p := by
  have hFirst :
      ((args.map (s.spread cells))[0]?.map
          (Spread.scalarAt cells · p)).getD .blank =
        (s.scalarsAt cells args p)[0]?.getD .blank := by
    simp only [← scalarsAt_eq, List.getElem?_map]
  rw [Spread.selected, hFirst, List.length_map]
  generalize f.select _ _ = selection
  cases selection with
  | result v => rfl
  | argument j =>
      unfold chosen
      dsimp only
      rw [List.getElem?_map, Option.map_map]
      by_cases hIn : j < args.length
      · simp [hIn]
      · rw [if_neg (by omega), List.getElem?_eq_none (by omega)]
        simp

theorem computes_choice
    (f : Choice)
    (r₀ : Registers)
    (hOne : ∀ a ∈ args, Size.one.Fits (s.extent a))
    (hSome : 0 < args.length)
    (hProper : (Expr.apply bracketed (.choice f) args).Proper)
    (hReveals : ∀ a ∈ args, s.Reveals cells a) :
    ∃ Inv, s.Handles (Computes s cells) bracketed (.choice f) args
      r₀ Inv := by
  refine
    ⟨_, (handles_choice f r₀ hOne hSome).strengthen
      (fun i n _ =>
        ∃ m, n = .choice f args.length m ∧
          (i = 0 → m.value = .blank) ∧
          (0 < i →
            m.selection =
                f.select args.length
                  ((s.scalarsAt cells args
                    r₀.offset)[0]?.getD .blank) ∧
              m.value =
                s.chosen cells args r₀.offset i m.selection))
      (fun _ => ?_) (fun {i a n r r'} hNeeded hArg hInv => ?_)
      fun {n n' r r'} hNeeded hInv => ?_⟩
  · split <;> exact ⟨_, rfl, fun _ => rfl, by simp⟩
  · rintro ⟨m, rfl, hBlank, hKnown⟩ hComputes
    rcases hInv with ⟨m', hSame, hChooses⟩
    cases hSame
    have hMem := List.mem_of_getElem? hArg
    change Continues _ _ _
      (Notes.lift (.choice f args.length)
        (m.afterOperand f args.length s i r'))
    unfold ChoiceNotes.afterOperand
    split
    · -- the first operand selects
      rename_i hZero
      subst hZero
      have hInside : r.suppressed = false := by
        simpa [hNeeded] using hChooses.suppressed
      rw [ChoiceNotes.afterSelector,
        reduce_eq (hReveals a hMem) hInside hComputes,
        hChooses.offset, ← getElem?_scalarsAt hArg]
      dsimp only
      generalize f.select _ _ = selection
      refine .proceed ⟨_, rfl, by simp, fun _ => ?_⟩
      cases selection with
      | result v => exact ⟨rfl, rfl⟩
      | argument j =>
          refine ⟨rfl, ?_⟩
          change m.value = _
          rw [hBlank rfl]
          exact (if_neg (by omega)).symm
    · rename_i hNotFirst
      have hPos : 0 < i := by omega
      rcases hKnown hPos with ⟨hSelection, hValue⟩
      unfold ChoiceNotes.afterAlternative
      dsimp only
      rw [hChooses.outside, hNeeded, if_neg (by simp)]
      refine .proceed ⟨_, rfl, by simp, fun _ => ⟨hSelection, ?_⟩⟩
      dsimp only
      cases hCase : m.selection with
      | result v =>
          rw [hCase] at hValue
          rw [Selection.isArgument, if_neg (by simp), hValue]
          rfl
      | argument j =>
          rw [hCase] at hValue
          by_cases hHere : i = j
          · -- the operand that was selected
            subst hHere
            have hInside : r.suppressed = false := by
              rw [hChooses.suppressed, hNeeded, hCase]
              simp [Selection.isArgument]
            rw [Selection.isArgument, if_pos (by simp),
              hComputes.known hInside, hChooses.offset]
            unfold chosen
            dsimp only
            rw [if_pos ⟨hPos, by omega⟩, hArg]
            rfl
          · rw [Selection.isArgument, if_neg (by simpa using hHere),
              hValue]
            have hBounds : (0 < j ∧ j < i) ↔ (0 < j ∧ j < i + 1) := by
              omega
            unfold chosen
            simp only [hBounds]
  · rintro ⟨m, rfl, -, hKnown⟩ hLeave
    rcases hInv with ⟨m', hSame, hChooses⟩
    cases hSame
    rcases hKnown hSome with ⟨hSelection, hValue⟩
    have hExtent :
        m.extent = s.extent (.apply bracketed (.choice f) args) := by
      rw [hChooses.extent hSome, extent_apply _ _ (by simp)]
    cases hLeave
    unfold ChoiceNotes.leave
    dsimp only
    rw [hChooses.outside, hNeeded, if_neg (by simp)]
    dsimp only
    rw [hExtent, ← extent_spread s cells hProper, hChooses.offset,
      hValue, hSelection, chosen_length, spread]
    rfl

end Site

end Spreadsheet
