import Spreadsheet.Proofs.Evaluation.Standing

/-
  Suppressed evaluations are silent, and cells that are only
  referred to in arguments that were not selected are not
  read.

  A step is the same on two sheets that agree on the cells
  that are referred to otherwise. Where evaluation is
  suppressed, they need not agree on any.

  Main declarations:
    * `Site.Stands.course_agrees`
    * `Site.exists_steps_of_suppressed`
    * `Site.silent_unless_selected`
-/

namespace Spreadsheet

open Registers

namespace Site

namespace Stands

variable {s u v : Site} {Held : Site → Prop} {e : Expr}
variable {r₀ r : Registers} {f : Frame Notes}
variable {rest stack : List (Frame Notes)}

------------------------------------------------------------
-- Two Sheets
------------------------------------------------------------

/- Nothing is read before an operand. -/
theorem respond_congr
    (u v : Site)
    {f : Frame Notes}
    (hStage : f.stage = .entering ∨ f.stage = .beforeChild)
    (r : Registers) :
    v.visitor.respond f r = u.visitor.respond f r := by
  rcases hStage with h | h <;> simp only [visitor, h]

/-
  A step is the same on sheets that agree on the cells that
  are referred to.
-/
theorem step_agrees
    {covers : Point → Prop}
    (hAgrees : u.Agrees covers v)
    (hStands : s.Stands Held e r₀ (f :: rest) r)
    (hCovers :
      r₀.suppressed = false →
        ∀ {p}, s.Demands Held e r₀.offset p → covers p) :
    Walk.step v.visitor f rest r = Walk.step u.visitor f rest r := by
  have hFresh : v.visitor.fresh = u.visitor.fresh := rfl
  generalize hStack : f :: rest = stack at hStands
  induction hStands generalizing f rest with
  | left hBrings => cases hStack
  | @leaf b l stage r hStage =>
      cases hStack
      refine Walk.step_congr hFresh ?_ []
      cases stage with
      | entering => exact respond_congr u v (Or.inl rfl) r
      | beforeChild => exact respond_congr u v (Or.inr rfl) r
      | afterChild => exact absurd rfl hStage
      | leaving =>
          change Notes.leave v (.leaf l) r = Notes.leave u (.leaf l) r
          exact Notes.leave_agrees hAgrees (by simp)
  | entering =>
      cases hStack
      exact
        Walk.step_congr hFresh (respond_congr u v (Or.inl rfl) _) []
  | first =>
      cases hStack
      exact
        Walk.step_congr hFresh (respond_congr u v (Or.inr rfl) _) []
  | before hPos hIn hKnows =>
      cases hStack
      exact
        Walk.step_congr hFresh (respond_congr u v (Or.inr rfl) _) []
  | @inside b op args i a n r₀ r r' f' rest' hArg hKnows hComes
      hInner ih =>
      cases hStack
      rw [Walk.step_append, Walk.step_append, ih ?_ rfl]
      intro hNeeded p hDemands
      have hBoth := hKnows.demands hArg hNeeded
      exact hCovers hBoth.1 (hBoth.2 hDemands)
  | after hArg hKnows hBrings hCame =>
      cases hStack
      refine Walk.step_congr hFresh ?_ []
      refine Notes.afterOperand_agrees hAgrees fun hNeeded => ?_
      rw [hBrings.left.suppressed] at hNeeded
      have hBoth := hKnows.demands hArg hNeeded
      exact
        (hBrings.known hNeeded).imp fun h =>
          hCovers hBoth.1 (hBoth.2 h)
  | leaving hKnows =>
      cases hStack
      refine Walk.step_congr hFresh ?_ []
      refine Notes.leave_agrees hAgrees fun m hEq hNeeded => ?_
      have hWithin := hKnows.product hEq hNeeded
      exact hWithin.2.imp (hCovers hWithin.1)

/- So is every walk, by induction on its steps. -/
theorem steps_agrees
    {covers : Point → Prop}
    (hAlike : ∀ {u}, Held u → s.Alike u)
    (hProper : e.Proper)
    (hHeld : Held u)
    (hAgrees : u.Agrees covers v)
    (hStands : s.Stands Held e r₀ stack r)
    (hCovers :
      r₀.suppressed = false →
        ∀ {p}, s.Demands Held e r₀.offset p → covers p)
    (k : Nat) :
    Walk.steps v.visitor k stack r =
      Walk.steps u.visitor k stack r := by
  induction k generalizing r₀ stack r with
  | zero => cases stack <;> simp only [Walk.steps]
  | succ k ih =>
      cases stack with
      | nil => simp only [Walk.steps]
      | cons f rest =>
          have hNext := hStands.step hAlike hProper hHeld
          rw [Walk.steps, Walk.steps,
            hStands.step_agrees hAgrees hCovers]
          generalize Walk.step u.visitor f rest r = res at hNext
          rcases hNext with ⟨c, m, hNext⟩
          rcases res with ⟨- | -, stack, r'⟩
          · exact ih hNext hCovers
          · rfl

/- And every evaluation, by induction on its pauses. -/
theorem course_agrees
    {covers : Point → Prop}
    (hAlike : ∀ {u}, Held u → s.Alike u)
    (hProper : e.Proper)
    {times others : List (Site × Nat)}
    (hTimes : ∀ u ∈ times, Held u.1)
    (hAgree :
      List.Forall₂ (fun u v => u.1.Agrees covers v.1 ∧ v.2 = u.2)
        times others)
    (hStands : s.Stands Held e r₀ stack r)
    (hCovers :
      r₀.suppressed = false →
        ∀ {p}, s.Demands Held e r₀.offset p → covers p) :
    Site.course others stack r = Site.course times stack r := by
  induction hAgree generalizing r₀ stack r with
  | nil => rfl
  | @cons u v times others hHere hLater ih =>
      have hHeld := hTimes u List.mem_cons_self
      have hSame :=
        hStands.steps_agrees hAlike hProper hHeld hHere.1 hCovers u.2
      rcases hStands.steps hAlike hProper hHeld u.2 with
        ⟨c, m, hNext⟩
      rw [Site.course, Site.course, hHere.2, hSame]
      exact
        ih (fun t ht => hTimes t (List.mem_cons_of_mem _ ht)) hNext
          hCovers

end Stands

------------------------------------------------------------
-- Suppressed Evaluations
------------------------------------------------------------

section

variable {s : Site} {e : Expr}

/-
  Every evaluation that comes to its end has come to the
  extent of the expression, whatever the cells were meanwhile.
-/
theorem extent_of_course
    (hProper : e.Proper)
    {times : List (Site × Nat)}
    (hTimes : ∀ u ∈ times, s.Alike u.1)
    {r r' : Registers}
    (hCourse : course times [opening e] r = ([], r')) :
    r'.extent = s.extent e := by
  rcases (Stands.enters s s.Alike e).course (fun h => h) hProper
      hTimes with
    ⟨c, m, hStands⟩
  rw [hCourse] at hStands
  exact hStands.brings.left.extent

/- Without formulas, there is no cell to wait for. -/
theorem not_stops_of_empty
    (hEmpty : s.formulas = .empty)
    {covers : Point → Prop}
    {r r' : Registers} :
    ¬ r.Stops s covers r' := by
  have hShown : ∀ p, ∃ v, s.read p = .value v := by
    intro p
    unfold Site.read
    cases s.grid.get? p with
    | none => exact ⟨_, rfl⟩
    | some c =>
        have hNone : s.pending? c = none := by
          rw [pending?, hEmpty]
          cases c.owner? <;> rfl
        dsimp only
        rw [hNone]
        exact ⟨_, rfl⟩
  rintro (⟨-, p, -, hCircular⟩ | ⟨-, ids, hSome, -, hIds⟩)
  · rcases hShown p with ⟨v, hValue⟩
    rw [hValue] at hCircular
    cases hCircular
  · rcases List.exists_mem_of_ne_nil ids hSome with ⟨id, hId⟩
    rcases hIds id hId with ⟨p, -, hPending⟩
    rcases hShown p with ⟨v, hValue⟩
    rw [hValue] at hPending
    cases hPending

/-
  Where evaluation is suppressed, it goes as it would on a
  sheet without formulas.
-/
theorem exists_steps_of_suppressed
    (hProper : e.Proper)
    {r : Registers}
    (hSuppressed : r.suppressed = true) :
    ∃ n r', r.Left s e r' ∧
      ∀ t, s.Alike t →
        Walk.steps t.visitor n [opening e] r = (.done, [], r') := by
  let calm : Site := { s with formulas := .empty }
  have hCalm : s.Alike calm := ⟨rfl, rfl, rfl⟩
  rcases
    Walk.steps_of_reaches
      (calm.visits_of_proper hProper (Nat.le_refl _) [] r) with
    ⟨r', hLeft, hDone⟩ | ⟨stack, r', hStops, -⟩
  · rw [hCalm.left] at hLeft
    refine
      ⟨e.stepBound (calm.reach e).area, r', hLeft, fun t ht => ?_⟩
    have hAgrees : calm.Agrees (fun _ => False) t :=
      ⟨hCalm.symm.trans ht, fun h => h.elim⟩
    refine
      ((Stands.enters s s.Alike e).steps_agrees (fun h => h) hProper
        hCalm hAgrees (fun hNot => ?_) _).trans hDone
    rw [hSuppressed] at hNot
    cases hNot
  · exact absurd hStops (not_stops_of_empty rfl)

end

------------------------------------------------------------
-- Silence And Selection
------------------------------------------------------------

/-
  An evaluation of a suppressed expression, in any context and
  whatever the cells hold: it never pauses, leaves what it
  found in the registers, and comes to the extent that any
  other evaluation comes to.
-/
structure Silent
    (s : Site)
    (e : Expr)
    (r r' : Registers) : Prop where
  keeps : r.Keeps r'
  runs :
    ∀ t, s.Alike t → ∃ n, ∀ rest k,
      Walk.steps t.visitor (n + k) (opening e :: rest) r =
        Walk.steps t.visitor k rest r'
  goesOn :
    ∀ t, s.Alike t → ∀ n,
      (Walk.steps t.visitor n [opening e] r).1 ≠ .paused
  extent :
    ∀ times q q', (∀ u ∈ times, s.Alike u.1) →
      q.suppressed = false →
        course times [opening e] q = ([], q') →
          q'.extent = r'.extent

/-
  Suppressed expressions are silent. Whatever is evaluated
  comes to the same, if only cells differ that are referred to
  in arguments that were not selected.
-/
theorem silent_unless_selected
    {s : Site}
    {e : Expr}
    (hProper : e.Proper) :
    (∀ r, r.suppressed = true → ∃ r', s.Silent e r r') ∧
      ∀ (Held : Site → Prop) (times others : List (Site × Nat)) r,
        (∀ u, Held u → s.Alike u) → (∀ u ∈ times, Held u.1) →
          List.Forall₂
              (fun u v =>
                u.1.Agrees (s.Demands Held e r.offset) v.1 ∧
                  v.2 = u.2)
              times others →
            course others [opening e] r =
                course times [opening e] r ∧
              ∀ u v r', r.suppressed = false →
                u.Agrees (s.Demands Held e r.offset) v →
                  course times [opening e] r = ([], r') →
                    r'.result v = r'.result u := by
  refine ⟨fun r hSuppressed => ?_, ?_⟩
  · rcases exists_steps_of_suppressed (s := s) hProper hSuppressed
      with ⟨n, r', hLeft, hRuns⟩
    refine
      ⟨r',
        ⟨hLeft.suppressed, hLeft.circular, hLeft.offset,
          hLeft.missing⟩,
        fun t ht => Walk.exists_steps_append (hRuns t ht),
        fun t ht k hPaused => ?_, ?_⟩
    · -- it would still pause after more steps
      have hStill :
          Walk.steps t.visitor (k + n) [opening e] r =
            Walk.steps t.visitor k [opening e] r :=
        Walk.steps_add (by simp [hPaused]) n
      have hDone :
          Walk.steps t.visitor (n + k) [opening e] r =
            Walk.steps t.visitor n [opening e] r :=
        Walk.steps_add (by simp [hRuns t ht]) k
      rw [← hStill, Nat.add_comm, hDone, hRuns t ht] at hPaused
      cases hPaused
    · intro times q q' hTimes _ hCourse
      rw [extent_of_course hProper hTimes hCourse, hLeft.extent]
  · intro Held times others r hAlike hTimes hAgree
    have hEnters := Stands.enters (r := r) s Held e
    refine
      ⟨hEnters.course_agrees (fun h => hAlike _ h) hProper hTimes
        hAgree fun _ _ h => h, ?_⟩
    intro u v r' hNeeded hAgrees hCourse
    rcases hEnters.course (fun h => hAlike _ h) hProper hTimes with
      ⟨c, m, hStands⟩
    rw [hCourse] at hStands
    exact result_agrees hAgrees (hStands.brings.known hNeeded)

/- An argument that was not selected, with a cell to wait for. -/
theorem silent_unless_selected_if :
    ∃ (g : Grid Cell) (id : Handle) (fs : FormulaList) (s t : Site)
      (e : Expr),
      (id, fs) =
          LinkedArena.empty.pushBack
            (.new (.constant .blank) [] Point.zero false) ∧
        g =
          (Grid.empty.modifyCell
            (⟨fun _ => true, fun _ u => (some (.formula id), u)⟩ :
              CellVisitor Cell Unit)
            Point.zero ()).1 ∧
        s =
          ⟨g, .empty, [.cell (.relative (-1)) (.relative 0)], ⟨1, 0⟩,
            true⟩ ∧
        t = { s with formulas := fs } ∧
        e =
          .apply false (.choice .ifElse)
            [.constant (.bool false),
              .apply false (.aggregate .sum)
                [.leaf false (.reference 0)],
              .constant (.bool true)] ∧
        e.Proper ∧ s.Reads e Point.zero ∧
        s.read Point.zero = .value .blank ∧
        t.read Point.zero = .pending id ∧
        (∃ r', s.Silent e { start with suppressed := true } r') ∧
        ∃ r', course [(t, 99)] [opening e] start = ([], r') ∧
          r'.missing = #[] ∧ r'.extent = Size.one ∧
          (r'.result t).1 = some (.bool true) := by
  let g : Grid Cell :=
    (Grid.empty.modifyCell
      (⟨fun _ => true, fun _ u => (some (.formula ⟨0, 0⟩), u)⟩ :
        CellVisitor Cell Unit)
      Point.zero ()).1
  let fs : FormulaList :=
    (LinkedArena.empty.pushBack
      (.new (.constant .blank) [] Point.zero false)).2
  let s : Site :=
    ⟨g, .empty, [.cell (.relative (-1)) (.relative 0)], ⟨1, 0⟩, true⟩
  let t : Site := { s with formulas := fs }
  let e : Expr :=
    .apply false (.choice .ifElse)
      [.constant (.bool false),
        .apply false (.aggregate .sum) [.leaf false (.reference 0)],
        .constant (.bool true)]
  have hProper : e.Proper :=
    .apply false rfl (by
      simp only [List.mem_cons, List.not_mem_nil, or_false,
        forall_eq_or_imp, forall_eq]
      exact
        ⟨.leaf false trivial,
          .apply false rfl (by
            simp only [List.mem_cons, List.not_mem_nil, or_false,
              forall_eq]
            exact .leaf false trivial),
          .leaf false trivial⟩)
  have hConstant :
      ∀ {v offset p},
        ¬ s.Demands (· = s) (.constant v) offset p := by
    intro v offset p hDemands
    cases hDemands with
    | leaf hReads =>
        rcases hReads with ⟨i, hIndex, -⟩
        simp [Expr.referenceIndices] at hIndex
  -- only the last argument is selected
  have hNone : ∀ {p}, ¬ s.Demands (· = s) e start.offset p := by
    intro p hDemands
    change s.Demands _ (.apply false (.choice .ifElse) _) _ p
      at hDemands
    cases hDemands with
    | operand _ hChoice _ _ => exact hChoice _ rfl
    | selector hArg hInner =>
        cases hArg
        exact hConstant hInner
    | selected hSelects hArg hInner =>
        rcases hSelects with ⟨a, v, hFirst, hShows, hSelect⟩
        cases hFirst
        rw [eq_of_shows_constant hShows] at hSelect
        cases hSelect
        cases hArg
        exact hConstant hInner
  have hAgrees : s.Agrees (s.Demands (· = s) e start.offset) t :=
    ⟨⟨rfl, rfl, rfl⟩, fun hDemands => (hNone hDemands).elim⟩
  rcases silent_unless_selected (s := s) hProper with
    ⟨hSilent, hSame⟩
  rcases
    hSame (· = s) [(s, 99)] [(t, 99)] start
      (fun u hu => hu ▸ .refl s) (by simp)
      (.cons ⟨hAgrees, rfl⟩ .nil) with
    ⟨hCourse, hResult⟩
  have hRun :
      course [(s, 99)] [opening e] start =
          ([], (course [(s, 99)] [opening e] start).2) ∧
        (course [(s, 99)] [opening e] start).2.missing = #[] ∧
        (course [(s, 99)] [opening e] start).2.extent = Size.one ∧
        ((course [(s, 99)] [opening e] start).2.result s).1 =
          some (.bool true) :=
    ⟨rfl, rfl, rfl, rfl⟩
  rcases hRun with ⟨hDone, hMissing, hExtent, hScalar⟩
  refine
    ⟨g, ⟨0, 0⟩, fs, s, t, e, rfl, rfl, rfl, rfl, rfl, hProper,
      ⟨0, by simp [e, Expr.referenceIndices], _, rfl, by decide,
        ⟨Point.zero, Size.one⟩, rfl, by decide⟩,
      rfl, rfl, hSilent _ rfl, _, hCourse.trans hDone, hMissing,
      hExtent, ?_⟩
  rw [hResult s t _ rfl hAgrees hDone]
  exact hScalar

end Site

end Spreadsheet
