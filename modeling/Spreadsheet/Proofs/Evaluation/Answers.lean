import Mathlib
import Spreadsheet.Proofs.Evaluation.Advance
import Spreadsheet.Proofs.Evaluation.Gathering
import Spreadsheet.Sheet.Commands

/-
  The answers of an evaluation over a sheet that does not
  change.

  Main declarations:
    * `Evaluation.answers`
    * `Site.Evaluable`
    * `Site.Evaluable.answers_eq`
-/

namespace Spreadsheet

------------------------------------------------------------
-- Offset By Offset
------------------------------------------------------------

/-
  What an evaluation comes to at one offset after the other,
  with the extent of the result.
-/
def Evaluation.answers
    (s : Site)
    (owner : Handle)
    (e : Expr) :
    Nat → Evaluation → List (Point × Size × Answer)
  | 0, _ => []
  | n + 1, ev =>
      match ev.advance s owner e with
      | (.ready v, ev) =>
          (ev.registers.offset, ev.registers.extent, .ready v) ::
            match ev.next? with
            | none => []
            | some ev => answers s owner e n ev
      | (answer, ev) =>
          [(ev.registers.offset, ev.registers.extent, answer)]

namespace Evaluation

variable {s : Site} {owner : Handle} {e : Expr} {ev : Evaluation}

theorem answers_of_ready
    {v : Scalar}
    {ev₁ : Evaluation}
    (hScalar : ev.advance s owner e = (.ready v, ev₁))
    (n : Nat) :
    ev.answers s owner e (n + 1) =
      (ev₁.registers.offset, ev₁.registers.extent, .ready v) ::
        match ev₁.next? with
        | none => []
        | some ev₂ => ev₂.answers s owner e n := by
  rw [answers, hScalar]

/- An evaluation that has to wait, or meets a cycle, stops there. -/
theorem answers_of_stopped
    {a : Answer}
    {ev₁ : Evaluation}
    (hStopped : ev.advance s owner e = (a, ev₁))
    (hNone : ∀ v, a ≠ .ready v)
    (n : Nat) :
    ev.answers s owner e (n + 1) =
      [(ev₁.registers.offset, ev₁.registers.extent, a)] := by
  cases a with
  | ready v => exact absurd rfl (hNone v)
  | waiting => rw [answers, hStopped]
  | circular => rw [answers, hStopped]

end Evaluation

/-
  An expression can be evaluated: all cells that it reads show
  their scalars, and there is room for the result.
-/
structure Site.Evaluable
    (s : Site)
    (owner : Handle)
    (cells : Point → Scalar)
    (e : Expr) : Prop where
  fits : s.grid.size.Fits maxSize
  proper : e.Proper
  reveals : s.Reveals cells e
  room : s.reserve owner (s.extent e) = s.extent e

/- A result that there is room for stays as it is. -/
theorem Registers.spill_eq_self
    (r : Registers)
    {s : Site}
    {owner : Handle}
    (hRoom : s.reserve owner r.extent = r.extent) :
    r.spill s owner = r := by
  unfold Site.reserve at hRoom
  unfold spill
  by_cases hOne : r.extent = Size.one
  · rw [if_pos hOne]
  · rw [if_neg hOne] at hRoom ⊢
    dsimp only at hRoom ⊢
    cases hShared :
        (Rect.mk s.location r.extent).clip.intersection
          (.whole s.grid.size) with
    | none => rfl
    | some area =>
        rw [hShared] at hRoom
        dsimp only at hRoom ⊢
        by_cases hObstructed : isObstructed s owner area = true
        · rw [if_pos hObstructed] at hRoom
          exact absurd hRoom.symm hOne
        · rw [if_neg hObstructed] at hRoom ⊢
          rw [hRoom]

namespace Site.Evaluable

open Registers

variable {s : Site} {owner : Handle} {cells : Point → Scalar}
variable {e : Expr}

/- No cell keeps an evaluation from going on. -/
theorem not_stops
    (hEvaluable : s.Evaluable owner cells e)
    (r r' : Registers) :
    ¬ r.Stops s (s.Reads e) r' := by
  rintro (⟨-, p, hReads, hRead⟩ | ⟨-, ids, hSome, -, hIds⟩)
  · rw [hEvaluable.reveals p hReads] at hRead
    cases hRead
  · rcases List.exists_mem_of_ne_nil ids hSome with ⟨id, hId⟩
    rcases hIds id hId with ⟨p, hReads, hRead⟩
    rw [hEvaluable.reveals p hReads] at hRead
    cases hRead

/- What an evaluation comes to at one offset. -/
theorem advance_eq
    (hEvaluable : s.Evaluable owner cells e)
    (hRegular : s.Regular cells e)
    {ev : Evaluation}
    (hReady : ev.Ready (s.Reads e))
    (hIndexed :
      ev.indexed = true →
        ev.registers.value =
            (s.spread cells e).get ev.registers.offset ∧
          ev.registers.extent = s.extent e) :
    ∃ ev', ev.advance s owner e =
        (.ready ((s.spread cells e).scalarAt cells
          ev.registers.offset), ev') ∧
      ev.Yields s owner e (s.Reads e) ev' ∧
      ev'.registers.value =
        (s.spread cells e).get ev.registers.offset ∧
      ev'.registers.extent = s.extent e := by
  have hAdvances :=
    Evaluation.advance_spec owner hEvaluable.proper (s.Reads e)
      (fun h => h) hReady
  have hExtent : ev.extentAt s owner e = s.extent e := by
    unfold Evaluation.extentAt
    split
    · rename_i hAlready
      exact (hIndexed hAlready).2
    · rw [hEvaluable.room, ite_self]
  -- the walk ends with the value, unless it is known already
  have hYield :
      ∃ ev' : Evaluation, ev.advance s owner e = ev'.yield s ∧
        ev'.registers.offset = ev.registers.offset ∧
        ev'.registers.value =
          (s.spread cells e).get ev.registers.offset ∧
        ev'.registers.value.Within (s.Reads e) := by
    by_cases hAlready : ev.indexed = true
    · rw [Evaluation.advance, if_pos hAlready]
      exact
        ⟨ev, rfl, rfl, (hIndexed hAlready).1, hReady.value hAlready⟩
    · have hFree : ev.indexed = false := by simpa using hAlready
      have hVisits :=
        computes_of_regular hEvaluable.fits hEvaluable.proper hRegular
          hEvaluable.reveals (Nat.le_max_right 1 (s.reach e).area)
      rcases
        Evaluation.advance_cases owner hVisits hFree
          (hReady.walk hFree) with
        ⟨r, hComputes, hEq⟩ | ⟨stack, r, hStops, -⟩
      · have hLeft := hComputes.left
        have hSame :
            (if r.offset = Point.zero then r.spill s owner else r) =
              r := by
          split
          · refine r.spill_eq_self ?_
            rw [hLeft.extent]
            exact hEvaluable.room
          · rfl
        refine
          ⟨⟨some [], r, false⟩, ?_, hLeft.offset,
            hComputes.known hReady.suppressed,
            hLeft.value hReady.suppressed⟩
        rw [hEq, Evaluation.finish]
        dsimp only
        rw [hSame]
      · exact absurd hStops (hEvaluable.not_stops _ _)
  rcases hYield with ⟨ev', hEq, hOffset, hValue, hWithin⟩
  have hResult :
      ev'.registers.result s =
        (some ((s.spread cells e).scalarAt cells ev.registers.offset),
          ev'.registers) := by
    rw [result, element_eq hEvaluable.reveals hWithin, hOffset, hValue]
    rfl
  rw [Evaluation.yield, hResult] at hEq
  rw [hEq] at hAdvances
  refine ⟨_, hEq, ?_⟩
  cases hAdvances with
  | ready v hYields =>
      exact ⟨hYields, hValue, hYields.extent.trans hExtent⟩

/-
  The evaluation goes on to the last offset. By induction on
  the offsets that are left: once the result is indexed, it is
  the same at all of them.
-/
theorem answers_from
    (hEvaluable : s.Evaluable owner cells e)
    (hRegular : s.Regular cells e)
    (hSteady : (s.spread cells e).Steady)
    {before after : List Point}
    {p : Point}
    (hPoints :
      (Rect.whole (s.extent e)).points = before ++ p :: after)
    {ev : Evaluation}
    (hReady : ev.Ready (s.Reads e))
    (hOffset : ev.registers.offset = p)
    (hIndexed :
      ev.indexed = true →
        ev.registers.value = (s.spread cells e).get p ∧
          ev.registers.extent = s.extent e)
    {n : Nat}
    (hEnough : after.length < n) :
    ev.answers s owner e n =
      (p :: after).map fun p =>
        (p, s.extent e, .ready ((s.spread cells e).scalarAt cells p)) := by
  induction after generalizing before p ev n with
  | nil =>
      cases n with
      | zero => cases hEnough
      | succ n =>
          rw [← hOffset] at hIndexed
          rcases hEvaluable.advance_eq hRegular hReady hIndexed with
            ⟨ev', hAdvance, hYields, hValue, hExtent⟩
          have hNone : ev'.next? = none := by
            rw [Evaluation.next?, hExtent, hYields.offset, hOffset,
              Size.next?_of_points hPoints]
            rfl
          rw [Evaluation.answers, hAdvance]
          dsimp only
          rw [hNone, hExtent, hYields.offset, hOffset]
          rfl
  | cons q after ih =>
      cases n with
      | zero => cases hEnough
      | succ n =>
          rw [← hOffset] at hIndexed
          rcases hEvaluable.advance_eq hRegular hReady hIndexed with
            ⟨ev', hAdvance, hYields, hValue, hExtent⟩
          obtain ⟨ev'', hNext⟩ : ∃ ev'', ev'.next? = some ev'' := by
            rw [Evaluation.next?, hExtent, hYields.offset, hOffset,
              Size.next?_of_points hPoints]
            exact ⟨_, rfl⟩
          rcases Evaluation.ready_next? hYields hNext with
            ⟨hReady', hOffset', hExtent', hIndexed'⟩
          have hThere : ev''.registers.offset = q := by
            rw [hExtent, hOffset, Size.next?_of_points hPoints]
              at hOffset'
            exact (Option.some.inj hOffset').symm
          have hKept : ev''.registers.value = ev'.registers.value := by
            rw [Evaluation.next?, Option.map_eq_some_iff] at hNext
            rcases hNext with ⟨o, -, rfl⟩
            rfl
          have hInside :
              ∀ o, o ∈ before ++ p :: q :: after →
                (s.spread cells e).extent.contains o = true := by
            intro o ho
            rw [← hPoints, Rect.mem_points, Rect.contains_whole] at ho
            rw [extent_spread s cells hEvaluable.proper]
            exact ho
          have hSame :
              ev''.indexed = true →
                ev''.registers.value = (s.spread cells e).get q ∧
                  ev''.registers.extent = s.extent e := by
            intro hWhole
            refine ⟨?_, hExtent'.trans hExtent⟩
            rw [hIndexed', hYields.indexed, hValue, hOffset] at hWhole
            rw [hKept, hValue, hOffset]
            rcases hSteady with hSingle | ⟨o, hAll⟩
            · rw [hSingle p (hInside p (by simp))] at hWhole
              cases hWhole
            · rw [hAll p (hInside p (by simp)),
                hAll q (hInside q (by simp))]
          have hLater :
              (Rect.whole (s.extent e)).points =
                (before ++ [p]) ++ q :: after := by
            simpa using hPoints
          have hRest :=
            ih hLater hReady' hThere hSame (by simpa using hEnough)
          rw [Evaluation.answers, hAdvance]
          dsimp only
          rw [hNext]
          dsimp only
          rw [hRest, hExtent, hYields.offset, hOffset]
          rfl

/- The answers are what the expression means, row by row. -/
theorem answers_eq
    (hEvaluable : s.Evaluable owner cells e)
    (hRegular : s.Regular cells e)
    (hSteady : (s.spread cells e).Steady)
    (n : Nat) :
    Evaluation.start.answers s owner e ((s.extent e).area + n) =
      (Rect.whole (s.extent e)).points.map fun p =>
        (p, s.extent e, .ready ((s.spread cells e).scalarAt cells p)) := by
  rcases Size.points_eq_cons (s.one_fits_extent hEvaluable.proper) with
    ⟨after, hPoints⟩
  have hArea : (s.extent e).area = after.length + 1 := by
    rw [← Size.length_points, hPoints, List.length_cons]
  have hFirst :
      (Rect.whole (s.extent e)).points = [] ++ Point.zero :: after :=
    hPoints
  rw [hPoints]
  refine
    hEvaluable.answers_from hRegular hSteady hFirst
      (Evaluation.ready_start _) rfl (fun h => ?_) (by omega)
  cases h

end Site.Evaluable

------------------------------------------------------------
-- Expressions Without Choices
------------------------------------------------------------

/-
  Without choice functions, the evaluation of an expression
  gives what it means: at every offset of the result, row by
  row, and nowhere else.
-/
theorem Evaluation.answers_of_choiceFree
    {s : Site}
    {owner : Handle}
    {cells : Point → Scalar}
    {e : Expr}
    (hEvaluable : s.Evaluable owner cells e)
    (hFree : e.ChoiceFree)
    (n : Nat) :
    Evaluation.start.answers s owner e ((s.extent e).area + n) =
      (Rect.whole (s.spread cells e).extent).points.map fun p =>
        (p, (s.spread cells e).extent,
          .ready ((s.spread cells e).scalarAt cells p)) := by
  rw [Site.extent_spread s cells hEvaluable.proper]
  exact
    hEvaluable.answers_eq (s.regular_of_choiceFree cells hFree)
      (s.steady_of_choiceFree cells hFree) n

/- All cells that an expression reads show their scalars. -/
def Site.isRevealed
    (s : Site)
    (cells : Point → Scalar)
    (e : Expr) : Bool :=
  e.referenceIndices.all fun i =>
    (s.refs[i]?).all fun r =>
      (r.toRect? s.location s.bounds).all fun a =>
        a.points.all fun p => s.read p == .value (cells p)

theorem Site.reveals_of_isRevealed
    {s : Site}
    {cells : Point → Scalar}
    {e : Expr}
    (hAll : s.isRevealed cells e = true) :
    s.Reveals cells e := by
  rintro p ⟨i, hIndex, r, hRef, hOn, a, hRect, hIn⟩
  have hHere := List.all_eq_true.mp hAll i hIndex
  rw [hRef, Option.all_some, hRect, Option.all_some] at hHere
  have hRead :=
    List.all_eq_true.mp hHere p (Rect.mem_points.mpr hIn)
  exact eq_of_beq hRead

/- An array and a column of cells, one of which is empty. -/
theorem Evaluation.answers_of_choiceFree_concat :
    ∃ (t : Sheet) (s : Site) (cells : Point → Scalar) (e : Expr),
      (Sheet.new ⟨false, 15, 64⟩).setValue ⟨0, 0⟩ (.bool true) =
          .ok t ∧
        s =
          ⟨t.grid, t.formulas,
            [.area ⟨.absolute 0, .absolute 0⟩
              ⟨.absolute 0, .absolute 1⟩],
            ⟨3, 3⟩, t.generation⟩ ∧
        e =
          .apply false (.infixOp .concat)
            [.leaf false
              (.array ⟨⟨2, 1⟩, #[.bool true, .bool false], rfl⟩),
              .leaf false (.reference 0)] ∧
        s.Evaluable ⟨7, 0⟩ cells e ∧ e.ChoiceFree ∧
        Evaluation.start.answers s ⟨7, 0⟩ e ((s.extent e).area + 0) =
          [(⟨0, 0⟩, ⟨2, 2⟩, .ready (.text "TRUETRUE")),
            (⟨1, 0⟩, ⟨2, 2⟩, .ready (.text "FALSETRUE")),
            (⟨0, 1⟩, ⟨2, 2⟩, .ready (.text "TRUE")),
            (⟨1, 1⟩, ⟨2, 2⟩, .ready (.text "FALSE"))] := by
  let cells : Point → Scalar := fun p =>
    if p = ⟨0, 0⟩ then .bool true else .blank
  let e : Expr :=
    .apply false (.infixOp .concat)
      [.leaf false (.array ⟨⟨2, 1⟩, #[.bool true, .bool false], rfl⟩),
        .leaf false (.reference 0)]
  have hRun :
      ∃ (t : Sheet) (s : Site),
        (Sheet.new ⟨false, 15, 64⟩).setValue ⟨0, 0⟩ (.bool true) =
            .ok t ∧
          s =
            ⟨t.grid, t.formulas,
              [.area ⟨.absolute 0, .absolute 0⟩
                ⟨.absolute 0, .absolute 1⟩],
              ⟨3, 3⟩, t.generation⟩ ∧
          (s.grid.size, s.isRevealed cells e,
              s.reserve ⟨7, 0⟩ (s.extent e), s.extent e,
              (Rect.whole (s.spread cells e).extent).points.map fun p =>
                (p, (s.spread cells e).extent,
                  Answer.ready ((s.spread cells e).scalarAt cells p))) =
            (⟨1, 1⟩, true, ⟨2, 2⟩, ⟨2, 2⟩,
              [(⟨0, 0⟩, ⟨2, 2⟩, .ready (.text "TRUETRUE")),
                (⟨1, 0⟩, ⟨2, 2⟩, .ready (.text "FALSETRUE")),
                (⟨0, 1⟩, ⟨2, 2⟩, .ready (.text "TRUE")),
                (⟨1, 1⟩, ⟨2, 2⟩, .ready (.text "FALSE"))]) :=
    ⟨_, _, rfl, rfl, by cbv⟩
  rcases hRun with ⟨t, s, hValue, hSite, hShows⟩
  simp only [Prod.mk.injEq] at hShows
  rcases hShows with ⟨hSize, hAll, hRoom, hExtent, hMeaning⟩
  have hEvaluable : s.Evaluable ⟨7, 0⟩ cells e :=
    ⟨by rw [hSize]; decide,
      .apply false rfl (by
        simp only [List.mem_cons, List.not_mem_nil, or_false,
          forall_eq_or_imp, forall_eq]
        exact ⟨.leaf false ⟨by decide, by decide⟩, .leaf false trivial⟩),
      Site.reveals_of_isRevealed hAll, hRoom.trans hExtent.symm⟩
  have hFree : e.ChoiceFree :=
    .apply false (by simp) (by
      simp only [List.mem_cons, List.not_mem_nil, or_false,
        forall_eq_or_imp, forall_eq]
      exact ⟨.leaf false _, .leaf false _⟩)
  exact
    ⟨t, s, cells, e, hValue, hSite, rfl, hEvaluable, hFree,
      (Evaluation.answers_of_choiceFree hEvaluable hFree 0).trans
        hMeaning⟩

------------------------------------------------------------
-- Choices
------------------------------------------------------------

/- The elements of a choice are what its function gives. -/
theorem Site.scalars_choice
    {s : Site}
    {cells : Point → Scalar}
    {bracketed : Bool}
    {f : Choice}
    {args : List Expr}
    (hProper : (Expr.apply bracketed (.choice f) args).Proper) :
    (s.spread cells (.apply bracketed (.choice f) args)).scalars
        cells =
      (Rect.whole
        (s.extent (.apply bracketed (.choice f) args))).points.map
          fun p => f.apply (s.scalarsAt cells args p) := by
  rw [Spread.scalars, extent_spread s cells hProper]
  refine List.map_congr_left fun p _ => ?_
  rw [spread, ← scalarsAt_eq]
  exact Spread.scalarAt_choice cells f _ p

/-
  A choice gives, at every offset of the result, what its
  function gives on the scalars of its arguments there. An
  aggregate gathers these elements, and all those of its other
  arguments, from their first ones on. This holds if what is
  selected is a single operand at all offsets, or the same one
  at all of them.
-/
theorem Evaluation.answers_of_choice
    {s : Site}
    {owner : Handle}
    {cells : Point → Scalar}
    {bracketed : Bool}
    {f : Choice}
    {args : List Expr}
    {e : Expr}
    (hChoice : e = .apply bracketed (.choice f) args)
    (hProper : e.Proper)
    (hRegular : s.Regular cells e)
    (hSteady : (s.spread cells e).Steady) :
    (s.Evaluable owner cells e →
      ∀ n, Evaluation.start.answers s owner e
          ((s.extent e).area + n) =
        (Rect.whole (s.extent e)).points.map fun p =>
          (p, s.extent e,
            .ready (f.apply (s.scalarsAt cells args p)))) ∧
      ((s.spread cells e).items cells).map Item.scalar =
        ((Rect.whole (s.extent e)).points.map fun p =>
          f.apply (s.scalarsAt cells args p)) ∧
      ∀ g b args', e ∈ args' →
        s.Evaluable owner cells (.apply b (.aggregate g) args') →
        s.Regular cells (.apply b (.aggregate g) args') →
          ∃ v, (∀ n, Evaluation.start.answers s owner
              (.apply b (.aggregate g) args') (1 + n) =
                [(Point.zero, Size.one, .ready v)]) ∧
            (g ≠ .sumProduct →
              v = .ofExcept (Fold.result g)
                ((args'.flatMap fun a =>
                    (s.spread cells a).items cells).foldlM
                  (Fold.addItem g) (.start g))) ∧
            (g = .sumProduct → ∀ a a', args' = [a, a'] →
              v = .ofExcept .ofFloat
                (if s.extent a = s.extent a' then
                  ProductNotes.sumScalars
                    ((s.spread cells a).scalars cells)
                    ((s.spread cells a').scalars cells)
                else .error .wrongValue)) := by
  subst hChoice
  refine ⟨fun hEvaluable n => ?_, ?_, ?_⟩
  · rw [hEvaluable.answers_eq hRegular hSteady n]
    refine List.map_congr_left fun p _ => ?_
    have hValue :=
      Spread.scalarAt_choice cells f (args.map (s.spread cells)) p
    rw [Site.scalarsAt_eq] at hValue
    rw [← hValue, Site.spread]
    rfl
  · rw [← Spread.scalars_eq_map]
    exact Site.scalars_choice hProper
  · intro g b args' _ hEvaluable hWhole
    have hExtent :
        s.extent (.apply b (.aggregate g) args') = Size.one := by
      rw [Site.extent]
    have hScalar :
        ∀ p, ∃ v,
          (s.spread cells (.apply b (.aggregate g) args')).get p =
            .scalar v := by
      intro p
      rw [Site.spread]
      exact Operation.get_spread cells (by simp) _ p
    have hSingle :
        (s.spread cells (.apply b (.aggregate g) args')).Steady := by
      refine Or.inl fun p _ => ?_
      rcases hScalar p with ⟨v, hEq⟩
      rw [hEq]
      rfl
    refine
      ⟨(s.spread cells (.apply b (.aggregate g) args')).scalarAt cells
        Point.zero, fun n => ?_, fun hFold => ?_, ?_⟩
    · have hAnswers := hEvaluable.answers_eq hWhole hSingle n
      rw [hExtent] at hAnswers
      exact hAnswers
    · rw [Site.spread, ← List.flatMap_map (s.spread cells)]
      cases g <;> first | exact absurd rfl hFold | rfl
    · rintro rfl a a' rfl
      have hArgs := hEvaluable.proper
      cases hArgs with
      | apply _ _ hArgs =>
        rw [Site.spread,
          ← Site.extent_spread s cells (hArgs a (by simp)),
          ← Site.extent_spread s cells (hArgs a' (by simp))]
        rfl

/- A column that selects, and a row that is narrowed. -/
theorem Evaluation.answers_of_choice_narrow :
    ∃ (s : Site) (cells : Point → Scalar) (e c : Expr),
      s = ⟨.empty, .empty, [], ⟨0, 0⟩, false⟩ ∧
        e =
          .apply false (.choice .ifElse)
            [.leaf false
              (.array ⟨⟨1, 2⟩, #[.bool true, .bool false], rfl⟩),
              .leaf false
                (.array ⟨⟨2, 1⟩, #[.bool true, .bool false], rfl⟩),
              .leaf false (.constant (.text "x"))] ∧
        c =
          .apply false (.aggregate .concat)
            [e, .leaf false (.constant (.text "y"))] ∧
        s.Evaluable ⟨0, 0⟩ cells e ∧ s.Regular cells e ∧
        (s.spread cells e).Steady ∧
        s.Evaluable ⟨0, 0⟩ cells c ∧ s.Regular cells c ∧
        Evaluation.start.answers s ⟨0, 0⟩ e ((s.extent e).area + 0) =
          [(⟨0, 0⟩, ⟨2, 2⟩, .ready (.bool true)),
            (⟨1, 0⟩, ⟨2, 2⟩, .ready (.bool false)),
            (⟨0, 1⟩, ⟨2, 2⟩, .ready (.text "x")),
            (⟨1, 1⟩, ⟨2, 2⟩, .ready (.text "x"))] ∧
        Evaluation.start.answers s ⟨0, 0⟩ c (1 + 0) =
          [(⟨0, 0⟩, ⟨1, 1⟩, .ready (.text "TRUEFALSExxy"))] := by
  let s : Site := ⟨.empty, .empty, [], ⟨0, 0⟩, false⟩
  let cells : Point → Scalar := fun _ => .blank
  let selector : Expr :=
    .leaf false (.array ⟨⟨1, 2⟩, #[.bool true, .bool false], rfl⟩)
  let row : Expr :=
    .leaf false (.array ⟨⟨2, 1⟩, #[.bool true, .bool false], rfl⟩)
  let other : Expr := .leaf false (.constant (.text "x"))
  let last : Expr := .leaf false (.constant (.text "y"))
  let e : Expr :=
    .apply false (.choice .ifElse) [selector, row, other]
  let c : Expr := .apply false (.aggregate .concat) [e, last]
  have hProper : e.Proper :=
    .apply false rfl (by
      simp only [List.mem_cons, List.not_mem_nil, or_false,
        forall_eq_or_imp, forall_eq]
      exact
        ⟨.leaf false ⟨by decide, by decide⟩,
          .leaf false ⟨by decide, by decide⟩, .leaf false trivial⟩)
  have hProper' : c.Proper :=
    .apply false rfl (by
      simp only [List.mem_cons, List.not_mem_nil, or_false,
        forall_eq_or_imp, forall_eq]
      exact ⟨hProper, .leaf false trivial⟩)
  have hEvaluable : s.Evaluable ⟨0, 0⟩ cells e :=
    ⟨by decide, hProper, Site.reveals_of_isRevealed (by cbv), by cbv⟩
  have hEvaluable' : s.Evaluable ⟨0, 0⟩ cells c :=
    ⟨by decide, hProper', Site.reveals_of_isRevealed (by cbv), by cbv⟩
  have hRegular : s.Regular cells e :=
    .apply false (by
      simp only [List.mem_cons, List.not_mem_nil, or_false,
        forall_eq_or_imp, forall_eq]
      exact ⟨.leaf false _, .leaf false _, .leaf false _⟩) (by simp)
  have hAll :
      (Rect.whole (s.spread cells e).extent).points.all
          (fun p => ((s.spread cells e).get p).isSingle) = true := by
    cbv
  have hSteady : (s.spread cells e).Steady := by
    refine Or.inl fun p hp => ?_
    refine List.all_eq_true.mp hAll p ?_
    rwa [Rect.mem_points, Rect.contains_whole]
  have hRegular' : s.Regular cells c := by
    refine .apply false ?_ fun f hFold a ha => ?_
    · simp only [List.mem_cons, List.not_mem_nil, or_false,
        forall_eq_or_imp, forall_eq]
      exact ⟨hRegular, .leaf false _⟩
    · cases hFold
      refine ⟨?_, fun h => by cases h⟩
      simp only [List.mem_cons, List.not_mem_nil, or_false] at ha
      rcases ha with rfl | rfl
      · exact hSteady
      · exact s.steady_of_choiceFree cells (.leaf false _)
  rcases Evaluation.answers_of_choice rfl hProper hRegular hSteady with
    ⟨hAnswers, -, hGathered⟩
  rcases
    hGathered .concat false [e, last] List.mem_cons_self hEvaluable'
      hRegular' with
    ⟨v, hResult, hFold, -⟩
  refine
    ⟨s, cells, e, c, rfl, rfl, rfl, hEvaluable, hRegular, hSteady,
      hEvaluable', hRegular', ?_, ?_⟩
  · rw [hAnswers hEvaluable 0]
    cbv
  · rw [hResult 0, hFold (by simp)]
    cbv

/-
  An array that is selected at the first offset, and has the
  extent of the result, stands at the second one, too, where
  the other argument should be taken.
-/
theorem Evaluation.answers_of_choice_whole :
    ∃ (s : Site) (cells : Point → Scalar) (args : List Expr),
      s = ⟨.empty, .empty, [], ⟨0, 0⟩, false⟩ ∧
        args =
          [.leaf false
              (.array ⟨⟨2, 1⟩, #[.bool true, .bool false], rfl⟩),
            .leaf false
              (.array ⟨⟨2, 1⟩, #[.bool true, .bool true], rfl⟩),
            .leaf false (.constant (.bool false))] ∧
        s.Evaluable ⟨0, 0⟩ cells
          (.apply false (.choice .ifElse) args) ∧
        Evaluation.start.answers s ⟨0, 0⟩
            (.apply false (.choice .ifElse) args) 2 ≠
          (Rect.whole
            (s.extent (.apply false (.choice .ifElse) args))).points.map
              fun p =>
                (p, s.extent (.apply false (.choice .ifElse) args),
                  .ready
                    (Choice.ifElse.apply (s.scalarsAt cells args p))) := by
  let s : Site := ⟨.empty, .empty, [], ⟨0, 0⟩, false⟩
  let cells : Point → Scalar := fun _ => .blank
  let args : List Expr :=
    [.leaf false (.array ⟨⟨2, 1⟩, #[.bool true, .bool false], rfl⟩),
      .leaf false (.array ⟨⟨2, 1⟩, #[.bool true, .bool true], rfl⟩),
      .leaf false (.constant (.bool false))]
  have hProper : (Expr.apply false (.choice .ifElse) args).Proper :=
    .apply false rfl (by
      simp only [args, List.mem_cons, List.not_mem_nil, or_false,
        forall_eq_or_imp, forall_eq]
      exact
        ⟨.leaf false ⟨by decide, by decide⟩,
          .leaf false ⟨by decide, by decide⟩, .leaf false trivial⟩)
  have hAnswers :
      Evaluation.start.answers s ⟨0, 0⟩
          (.apply false (.choice .ifElse) args) 2 =
        [(⟨0, 0⟩, ⟨2, 1⟩, .ready (.bool true)),
          (⟨1, 0⟩, ⟨2, 1⟩, .ready (.bool true))] := by
    cbv
  have hMeaning :
      ((Rect.whole
          (s.extent (.apply false (.choice .ifElse) args))).points.map
            fun p =>
              (p, s.extent (.apply false (.choice .ifElse) args),
                Answer.ready
                  (Choice.ifElse.apply (s.scalarsAt cells args p)))) =
        [(⟨0, 0⟩, ⟨2, 1⟩, .ready (.bool true)),
          (⟨1, 0⟩, ⟨2, 1⟩, .ready (.bool false))] := by
    cbv
  refine
    ⟨s, cells, args, rfl, rfl,
      ⟨by decide, hProper, Site.reveals_of_isRevealed (by cbv),
        by cbv⟩, ?_⟩
  rw [hAnswers, hMeaning]
  simp

end Spreadsheet
