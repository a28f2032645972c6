import Spreadsheet.Proofs.Evaluation.Resumption
import Spreadsheet.Proofs.Evaluation.Ripening
import Spreadsheet.Sheet.Commands

/-
  Calls of one evaluation while formulas are calculated.

  Wherever it had to wait, it finds the same in the end as an
  evaluation that starts when there is no more to wait for.

  Main declarations:
    * `Evaluation.calls`
    * `Evaluation.found`
    * `Evaluation.Waits`
    * `Site.NotesCells`
    * `Evaluation.resumed_answers`
-/

namespace Spreadsheet

namespace Evaluation

open Registers

variable {s t : Site} {owner : Handle} {e : Expr}
variable {ev ev' : Evaluation}

------------------------------------------------------------
-- What Calls Find
------------------------------------------------------------

/- A call: the site, what was found there, and what is left. -/
abbrev Call := Site × Answer × Evaluation

/-
  Call an evaluation in one site after the other, until there
  is a cycle or no offset is left. After a scalar it goes on
  to the next offset, and after it had to wait it is called
  again.
-/
def calls
    (owner : Handle)
    (e : Expr) :
    List Site → Evaluation → List Call
  | [], _ => []
  | s :: sites, ev =>
      let res := ev.advance s owner e
      (s, res) ::
        match res.1 with
        | .ready _ =>
            match res.2.next? with
            | some ev => calls owner e sites ev
            | none => []
        | .waiting => calls owner e sites res.2.drain
        | .circular => []

/-
  What calls have come to, offset by offset. A call that had
  to wait only counts if it is the last one.
-/
def found : List Call → List (Point × Size × Answer)
  | [] => []
  | [(_, a, ev)] => [(ev.registers.offset, ev.registers.extent, a)]
  | (_, a, ev) :: c :: cs =>
      if a = .waiting then found (c :: cs)
      else
        (ev.registers.offset, ev.registers.extent, a) ::
          found (c :: cs)

theorem found_of_waiting
    {s : Site}
    {a : Answer}
    {cs : List Call}
    (hWaiting : a = .waiting)
    (hMore : cs ≠ []) :
    found ((s, a, ev) :: cs) = found cs := by
  obtain ⟨c, cs, rfl⟩ := List.exists_cons_of_ne_nil hMore
  rw [found, if_pos hWaiting]

theorem found_of_ready
    {s : Site}
    (v : Scalar)
    (cs : List Call) :
    found ((s, .ready v, ev) :: cs) =
      (ev.registers.offset, ev.registers.extent, .ready v) ::
        found cs := by
  cases cs with
  | nil => rfl
  | cons c cs => rfl

theorem calls_ne_nil
    {sites : List Site}
    (hSome : sites ≠ [])
    (ev : Evaluation) :
    ev.calls owner e sites ≠ [] := by
  obtain ⟨s, sites, rfl⟩ := List.exists_cons_of_ne_nil hSome
  exact List.cons_ne_nil _ _

/- An evaluation that is ready can go on, or needs to wait. -/
theorem advances_later
    (owner : Handle)
    (hProper : e.Proper)
    (hLater : s.Later t)
    (hReady : ev.Ready (t.Reads e)) :
    ev.Advances s owner e (t.Reads e) (ev.advance s owner e) :=
  advance_spec owner hProper _
    (fun hReads => hReads.congr hLater.size hLater.refs hLater.location)
    hReady

theorem Ready.next?
    (hProper : e.Proper)
    (hLater : s.Later t)
    (hReady : ev.Ready (t.Reads e))
    {v : Scalar}
    {ev₁ : Evaluation}
    (hRes : ev.advance s owner e = (.ready v, ev₁))
    (hNext : ev₁.next? = some ev') :
    ev'.Ready (t.Reads e) := by
  have hAdvances := advances_later owner hProper hLater hReady
  rw [hRes] at hAdvances
  cases hAdvances with
  | ready _ hYields => exact (ready_next? hYields hNext).1

/- Calls in one site only come to the same as without waiting. -/
theorem found_replicate
    (hProper : e.Proper)
    (hReady : ev'.Ready (t.Reads e))
    (hSame : ev.advance t owner e = ev'.advance t owner e)
    (n : Nat) :
    ∃ m > n,
      found (ev.calls owner e (List.replicate (n + 1) t)) =
        ev'.answers t owner e m := by
  induction n generalizing ev ev' with
  | zero =>
      refine ⟨1, Nat.one_pos, ?_⟩
      rw [List.replicate_one, calls, hSame]
      cases hRes : ev'.advance t owner e with
      | mk a ev₁ =>
          cases a with
          | ready v =>
              rw [answers_of_ready hRes]
              dsimp only
              cases ev₁.next? <;> rfl
          | waiting => rw [answers_of_stopped hRes nofun]; rfl
          | circular => rw [answers_of_stopped hRes nofun]; rfl
  | succ n ih =>
      rw [List.replicate_succ, calls, hSame]
      cases hRes : ev'.advance t owner e with
      | mk a ev₁ =>
          cases a with
          | ready v =>
              dsimp only
              cases hNext : ev₁.next? with
              | none =>
                  refine ⟨n + 1 + 1, Nat.lt_succ_self _, ?_⟩
                  rw [answers_of_ready hRes, hNext]
                  rfl
              | some ev₂ =>
                  have hReady₂ :=
                    hReady.next? hProper (Site.Ripens.refl t).later
                      hRes hNext
                  obtain ⟨m, hm, hFound⟩ := ih hReady₂ rfl
                  refine ⟨m + 1, Nat.succ_lt_succ hm, ?_⟩
                  dsimp only
                  rw [found_of_ready, hFound, answers_of_ready hRes,
                    hNext]
          | waiting =>
              obtain ⟨m, hm, hFound⟩ :=
                ih hReady
                  (advance_drain (Site.Ripens.refl t).later hProper
                    hReady hRes)
              obtain ⟨k, rfl⟩ := Nat.exists_eq_succ_of_ne_zero
                (Nat.ne_of_gt (Nat.zero_lt_of_lt hm))
              refine ⟨k + 1 + 1, Nat.succ_lt_succ hm, ?_⟩
              dsimp only
              rw [found_of_waiting rfl (calls_ne_nil (by simp) _), hFound,
                answers_of_stopped hRes nofun,
                answers_of_stopped hRes nofun]
          | circular =>
              refine ⟨n + 1 + 1, Nat.lt_succ_self _, ?_⟩
              rw [answers_of_stopped hRes nofun]
              rfl

/-
  Calls from one evaluation on come to what another one comes
  to in the last site, if both come to the same wherever the
  first one is called. By induction on the sites before.
-/
theorem found_calls
    (hProper : e.Proper)
    {sites : List Site}
    (hOrder : sites.Pairwise Site.Later)
    (hLast : ∀ s ∈ sites, s.Later t)
    (hReady : ev'.Ready (t.Reads e))
    (hSame : ∀ s ∈ sites, ev.advance s owner e = ev'.advance s owner e)
    (hSameLast : ev.advance t owner e = ev'.advance t owner e)
    (n : Nat)
    (hOpen :
      ∀ c ∈ ev.calls owner e (sites ++ List.replicate (n + 1) t),
        c.2.1 ≠ .circular) :
    ∃ m > n,
      found (ev.calls owner e (sites ++ List.replicate (n + 1) t)) =
        ev'.answers t owner e m := by
  induction sites generalizing ev ev' with
  | nil => exact found_replicate hProper hReady hSameLast n
  | cons s sites ih =>
      have hLater := hLast s List.mem_cons_self
      obtain ⟨hFirst, hRest⟩ := List.pairwise_cons.mp hOrder
      have hLastRest : ∀ u ∈ sites, u.Later t :=
        fun u hu => hLast u (List.mem_cons_of_mem _ hu)
      rw [List.cons_append, calls, hSame s List.mem_cons_self] at hOpen ⊢
      cases hRes : ev'.advance s owner e with
      | mk a ev₁ =>
          rw [hRes] at hOpen
          have hOpenRest := fun c hc =>
            hOpen c (List.mem_cons_of_mem _ hc)
          cases a with
          | circular => exact absurd rfl (hOpen _ List.mem_cons_self)
          | ready v =>
              have hFresh : ev'.advance t owner e = (.ready v, ev₁) := by
                rw [advance_later hLater owner hProper (by rw [hRes]),
                  hRes]
              dsimp only at hOpenRest ⊢
              cases hNext : ev₁.next? with
              | none =>
                  refine ⟨n + 1, Nat.lt_succ_self n, ?_⟩
                  rw [answers_of_ready hFresh, hNext]
                  rfl
              | some ev₂ =>
                  have hReady₂ :=
                    hReady.next? hProper hLater hRes hNext
                  rw [hNext] at hOpenRest
                  obtain ⟨m, hm, hFound⟩ :=
                    ih hRest hLastRest hReady₂ (fun _ _ => rfl) rfl
                      hOpenRest
                  refine ⟨m + 1, Nat.lt_succ_of_lt hm, ?_⟩
                  dsimp only
                  rw [found_of_ready, hFound, answers_of_ready hFresh,
                    hNext]
          | waiting =>
              dsimp only
              rw [found_of_waiting rfl (calls_ne_nil (by simp) _)]
              exact
                ih hRest hLastRest hReady
                  (fun u hu =>
                    advance_drain (hFirst u hu) hProper hReady hRes)
                  (advance_drain hLater hProper hReady hRes) hOpenRest

/-
  Each call is one of an evaluation that can go on: one that
  had to wait was called again as if it had not been called.
  By induction on the sites.
-/
theorem mem_calls
    (hProper : e.Proper)
    {sites : List Site}
    (hOrder : sites.Pairwise Site.Later)
    (hLast : ∀ s ∈ sites, s.Later t)
    (hReady : ev'.Ready (t.Reads e))
    (hSame : ∀ s ∈ sites, ev.advance s owner e = ev'.advance s owner e)
    {c : Call}
    (hCall : c ∈ ev.calls owner e sites) :
    c.1.Later t ∧
      ∃ ev₀ : Evaluation, ev₀.Ready (t.Reads e) ∧
        c.2 = ev₀.advance c.1 owner e := by
  induction sites generalizing ev ev' with
  | nil => cases hCall
  | cons s sites ih =>
      have hLater := hLast s List.mem_cons_self
      obtain ⟨hFirst, hRest⟩ := List.pairwise_cons.mp hOrder
      have hLastRest : ∀ u ∈ sites, u.Later t :=
        fun u hu => hLast u (List.mem_cons_of_mem _ hu)
      rw [calls, hSame s List.mem_cons_self] at hCall
      rcases List.mem_cons.mp hCall with rfl | hCall
      · exact ⟨hLater, ev', hReady, rfl⟩
      · cases hRes : ev'.advance s owner e with
        | mk a ev₁ =>
            rw [hRes] at hCall
            cases a with
            | ready v =>
                dsimp only at hCall
                cases hNext : ev₁.next? with
                | none => rw [hNext] at hCall; cases hCall
                | some ev₂ =>
                    rw [hNext] at hCall
                    exact ih hRest hLastRest
                      (hReady.next? hProper hLater hRes hNext)
                      (fun _ _ => rfl) hCall
            | waiting =>
                exact ih hRest hLastRest hReady
                  (fun u hu =>
                    advance_drain (hFirst u hu) hProper hReady hRes)
                  hCall
            | circular => cases hCall

------------------------------------------------------------
-- Calls That Have To Wait
------------------------------------------------------------

/-
  How a call comes to wait: for the scalar of the result, or
  at an event of the walk. Nothing was missing until there.
-/
inductive Waits (s : Site) : Evaluation → Prop where
  | result
      {walk : Walk Notes}
      {r r' : Registers}
      {indexed : Bool}
      (hClear : r.Clear)
      (hResult : r.result s = (none, r')) :
      Waits s ⟨walk, r', indexed⟩
  | event
      {f : Frame Notes}
      {rest : List (Frame Notes)}
      {r r' : Registers}
      (hClear : r.Clear)
      (hPause : s.visitor.respond f r = (.pause, f.scratch, r')) :
      Waits s ⟨some (f :: rest), r', false⟩

theorem waits_of_yield
    (hClear : ev.registers.Clear)
    (hWaiting : (ev.yield s).1 = .waiting) :
    Waits s (ev.yield s).2 := by
  unfold yield at hWaiting ⊢
  cases hResult : ev.registers.result s with
  | mk v r =>
      rw [hResult] at hWaiting
      cases v with
      | none => exact .result hClear hResult
      | some v => cases hWaiting

theorem waits_of_waiting
    (hProper : e.Proper)
    {covers : Point → Prop}
    (hReady : ev.Ready covers)
    (hWaiting : (ev.advance s owner e).1 = .waiting) :
    Waits s (ev.advance s owner e).2 := by
  have hClear : ev.registers.Clear := ⟨hReady.circular, hReady.missing⟩
  cases hIndexed : ev.indexed with
  | true =>
      rw [advance, if_pos hIndexed] at hWaiting ⊢
      exact waits_of_yield hClear hWaiting
  | false =>
      have hWalk := hReady.walk hIndexed
      rw [advance_of_steps hIndexed] at hWaiting ⊢
      rcases steps_cases (s := s) hProper hWalk with
        ⟨r, hLeft, hEq⟩ | ⟨stack, r, hEq⟩
      · rw [hEq] at hWaiting ⊢
        have hClear' : r.Clear :=
          ⟨hLeft.circular.trans hClear.1, hLeft.missing.trans hClear.2⟩
        exact waits_of_yield (clear_settled hClear') hWaiting
      · rw [hEq]
        rw [steps, hWalk, Option.getD_none] at hEq
        obtain ⟨-, f, rest, u, -, hu, -, hPause, rfl, rfl⟩ :=
          Walk.steps_paused (fun _ _ => Clear.respond) hClear hEq
        obtain ⟨hNotes, -⟩ := s.rests_respond f u hPause
        rw [hNotes]
        exact .event hu (Prod.ext hPause (Prod.ext hNotes rfl))

end Evaluation

/-
  At each event, nodes that fold cells note all formulas that
  the cells wait for, unless the fold fails before.
-/
structure Site.NotesCells (s : Site) : Prop where
  aggregate :
    ∀ (f : Frame Notes) (r : Registers) {g n fold a},
      f.stage = .afterChild → f.scratch = .aggregate g n →
      r.suppressed = false → n.fold = .ok fold → r.value = .area a →
        s.FoldsCells a.clip.points
          (fun first => ∃ e,
            first.foldlM
              (fun t p => Fold.addIndirect g (s.shown p) t) fold =
                .error e)
          r (s.visitor.respond f r).1 (s.visitor.respond f r).2.2
  product :
    ∀ (f : Frame Notes) (r : Registers) {n a b},
      f.stage = .leaving → f.scratch = .product n →
      r.suppressed = false → n.first = some a → n.second = some b →
      a.extent = b.extent →
        s.FoldsCells (a.cells b) (a.Fails s b) r
          (s.visitor.respond f r).1 (s.visitor.respond f r).2.2

theorem Site.notesCells (s : Site) : s.NotesCells where
  aggregate f r g n fold a hStage hScratch hNeeded hFold hValue := by
    simp only [visitor, hStage, hScratch]
    exact AggregateNotes.foldsCells_afterOperand s g hNeeded hFold hValue
  product f r n a b hStage hScratch hNeeded hFirst hSecond hExtent := by
    simp only [visitor, hStage, hScratch]
    exact ProductNotes.foldsCells_leave s hNeeded hFirst hSecond hExtent

namespace Evaluation

open Registers

/-
  Calls of an evaluation, in one site after the other while
  formulas are calculated, find what an evaluation finds that
  starts in the last one, offset by offset. Those that have to
  wait note formulas that have still to be calculated.
-/
theorem resumed_answers
    {owner : Handle}
    {e : Expr}
    (hProper : e.Proper)
    {sites : List Site}
    {t : Site}
    (hChain : (sites ++ [t]).IsChain Site.Ripens)
    (n : Nat)
    {cs : List Call}
    (hCalls :
      start.calls owner e (sites ++ List.replicate (n + 1) t) = cs)
    (hOpen : ∀ c ∈ cs, c.2.1 ≠ .circular) :
    (∃ m > n, found cs = start.answers t owner e m) ∧
      ∀ c ∈ cs, c.1.NotesCells ∧
        (c.2.1 = .waiting →
          Waits c.1 c.2.2 ∧
          c.2.2.registers.missing.toList ≠ [] ∧
          ∀ id ∈ c.2.2.registers.missing.toList,
            c.1.IsStale id ∧
            ∃ p, c.1.Reads e p ∧ c.1.read p = .pending id) := by
  subst hCalls
  obtain ⟨hOrder, -, hLast⟩ := List.pairwise_append.mp hChain.pairwise
  have hOrder := hOrder.imp Site.Ripens.later
  have hLast : ∀ s ∈ sites, s.Later t :=
    fun s hs => (hLast s hs t List.mem_cons_self).later
  have hSelf : t.Later t := (Site.Ripens.refl t).later
  have hReady := ready_start (t.Reads e)
  refine ⟨found_calls hProper hOrder hLast hReady (fun _ _ => rfl) rfl n
    hOpen, fun c hc => ⟨c.1.notesCells, fun hWaiting => ?_⟩⟩
  have hAll :
      (sites ++ List.replicate (n + 1) t).Pairwise Site.Later := by
    refine List.pairwise_append.mpr ⟨hOrder, ?_, fun s hs u hu => ?_⟩
    · exact List.pairwise_replicate.mpr (Or.inr hSelf)
    · obtain ⟨-, rfl⟩ := List.mem_replicate.mp hu
      exact hLast s hs
  have hAllLast :
      ∀ s ∈ sites ++ List.replicate (n + 1) t, s.Later t := by
    intro s hs
    rcases List.mem_append.mp hs with hs | hs
    · exact hLast s hs
    · obtain ⟨-, rfl⟩ := List.mem_replicate.mp hs
      exact hSelf
  obtain ⟨hLater, ev, hReadyHere, hCall⟩ :=
    mem_calls hProper hAll hAllLast hReady (fun _ _ => rfl) hc
  have hAdvances := advances_later owner hProper hLater hReadyHere
  rw [hCall] at hWaiting
  have hWaits := waits_of_waiting hProper hReadyHere hWaiting
  rw [← hCall] at hAdvances hWaits hWaiting
  refine ⟨hWaits, ?_⟩
  obtain ⟨s, a, ev₁⟩ := c
  cases hAdvances with
  | ready v => cases hWaiting
  | circular => cases hWaiting
  | waiting hSome hIds =>
      refine ⟨hSome, fun id hid => ?_⟩
      obtain ⟨p, hReads, hPending⟩ := hIds id hid
      exact ⟨Site.isStale_of_read hPending, p,
        hReads.congr hLater.size.symm hLater.refs.symm
          hLater.location.symm,
        hPending⟩

/- Two formulas that are calculated one after the other. -/
theorem resumed_answers_pair :
    ∃ (t u : Sheet) (s₀ s₁ s₂ : Site) (e : Expr),
      (Sheet.new ⟨false, 15, 64⟩).setFormula ⟨0, 0⟩
          ['T', 'R', 'U', 'E', '(', ')'] = .ok t ∧
        t.setFormula ⟨0, 1⟩ ['T', 'R', 'U', 'E', '(', ')'] = .ok u ∧
        s₀ =
          ⟨u.grid, u.formulas,
            [.area ⟨.absolute 0, .absolute 0⟩
              ⟨.absolute 0, .absolute 1⟩],
            ⟨3, 3⟩, !u.generation⟩ ∧
        s₁ = s₀.calculate ⟨0, 0⟩ (.text "x") ∧
        s₂ = s₁.calculate ⟨1, 0⟩ (.text "y") ∧
        e = .apply false (.aggregate .concat)
          [.leaf false (.reference 0)] ∧
        ([s₀, s₁] ++ [s₂]).IsChain Site.Ripens ∧
        (start.calls ⟨7, 0⟩ e ([s₀, s₁] ++ List.replicate 1 s₂)).map
            (fun c => (c.2.1, c.2.2.registers.missing.toList)) =
          [(.waiting, [⟨0, 0⟩, ⟨1, 0⟩]), (.waiting, [⟨1, 0⟩]),
            (.ready (.text "xy"), [])] ∧
        ∃ m > 0,
          found
              (start.calls ⟨7, 0⟩ e
                ([s₀, s₁] ++ List.replicate 1 s₂)) =
            start.answers s₂ ⟨7, 0⟩ e m := by
  let e : Expr :=
    .apply false (.aggregate .concat) [.leaf false (.reference 0)]
  have hRun :
      ∃ (t u : Sheet) (s₀ s₁ s₂ : Site),
        (Sheet.new ⟨false, 15, 64⟩).setFormula ⟨0, 0⟩
            ['T', 'R', 'U', 'E', '(', ')'] = .ok t ∧
          t.setFormula ⟨0, 1⟩ ['T', 'R', 'U', 'E', '(', ')'] = .ok u ∧
          s₀ =
            ⟨u.grid, u.formulas,
              [.area ⟨.absolute 0, .absolute 0⟩
                ⟨.absolute 0, .absolute 1⟩],
              ⟨3, 3⟩, !u.generation⟩ ∧
          s₁ = s₀.calculate ⟨0, 0⟩ (.text "x") ∧
          s₂ = s₁.calculate ⟨1, 0⟩ (.text "y") ∧
          (decide (s₀.IsStale ⟨0, 0⟩), decide (s₁.IsStale ⟨1, 0⟩),
            (start.calls ⟨7, 0⟩ e
                ([s₀, s₁] ++ List.replicate 1 s₂)).map
              (fun c => (c.2.1, c.2.2.registers.missing.toList))) =
          (true, true,
            [(.waiting, [⟨0, 0⟩, ⟨1, 0⟩]), (.waiting, [⟨1, 0⟩]),
              (.ready (.text "xy"), [])]) :=
    ⟨_, _, _, _, _, rfl, rfl, rfl, rfl, rfl, by cbv⟩
  rcases hRun with
    ⟨t, u, s₀, s₁, s₂, hFirst, hSecond, hSite, hX, hY, hShows⟩
  simp only [Prod.mk.injEq] at hShows
  rcases hShows with ⟨hStale, hStale', hCalls⟩
  have hProper : e.Proper := .apply false rfl (by
    simp only [List.mem_cons, List.not_mem_nil, or_false, forall_eq]
    exact .leaf false trivial)
  have hChain : ([s₀, s₁] ++ [s₂]).IsChain Site.Ripens := by
    refine .cons_cons ?_ (.cons_cons ?_ (.singleton s₂))
    · rw [hX]
      exact Site.ripens_calculate (of_decide_eq_true hStale) _
    · rw [hY]
      exact Site.ripens_calculate (of_decide_eq_true hStale') _
  have hOpen :
      ∀ c ∈ start.calls ⟨7, 0⟩ e ([s₀, s₁] ++ List.replicate 1 s₂),
        c.2.1 ≠ .circular := by
    intro c hc hCircular
    have hHere := List.mem_map_of_mem
      (f := fun c => (c.2.1, c.2.2.registers.missing.toList)) hc
    rw [hCalls, hCircular] at hHere
    simp at hHere
  exact
    ⟨t, u, s₀, s₁, s₂, e, hFirst, hSecond, hSite, hX, hY, rfl, hChain,
      hCalls, (resumed_answers hProper hChain 0 rfl hOpen).1⟩

end Evaluation

end Spreadsheet
