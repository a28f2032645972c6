import Spreadsheet.Proofs.Sheet.Dependencies

/-
  What a calculation leaves when results have one cell each.

  Each formula that is not blocked holds the value that its
  evaluation gives afterwards. A formula is blocked because
  it can reach a cycle, or because a mark of an earlier
  calculation has stopped it.

  Main declarations:
    * `Sheet.Settles`
    * `Sheet.Halfway.settles`
    * `Sheet.settles_single`
-/

namespace Spreadsheet

namespace Sheet

variable {s t : Sheet} {id : Handle} {f : FormulaCell}
variable {done todo : List Handle}

/-
  A calculation comes to its end, and all formulas are at
  rest. Whatever it is interrupted for could be calculated.
-/
structure Settles (s : Sheet) : Prop where
  ends :
    ∀ n, { s with generation := !s.generation }.recalculateFrom
      (s.stepBound + n) s.formulas.first? = s.recalculate
  order : s.recalculate.formulas.handles.Perm s.formulas.handles
  current :
    ∀ {id f}, s.recalculate.formulas.get? id = some f →
      f.generation = s.recalculate.generation ∧
        f.inProgress = false
  waits :
    ∀ {id t f missing}, s.Loop (some id) t →
      t.formulas.get? id = some f →
      ((t.begun id).evaluate id f).1 = .interrupted missing →
        missing ≠ [] ∧
          ∀ k ∈ missing, ∃ g,
            (t.begun id).formulas.get? k = some g ∧
              g.generation ≠ t.generation ∧ g.inProgress = false
  found :
    ∀ {id f}, s.recalculate.formulas.get? id = some f →
      f.blocked = false → s.recalculate.Finds id f f.value
  refused :
    ∀ {id f}, s.recalculate.formulas.get? id = some f →
      f.blocked = true → f.value = .error .badReference

------------------------------------------------------------
-- The End Of A Calculation
------------------------------------------------------------

/- All formulas of a sheet have been calculated at the end. -/
theorem Halfway.mem_done
    (hHalf : s.Halfway done [] t)
    (hLive : t.formulas.get? id = some f) :
    id ∈ done := by
  have hListed := hHalf.pass.listed
  rw [List.append_nil] at hListed
  rw [← hListed.isSome_get?_iff, hLive]
  rfl

/- Nothing but formulas that can be begun is waited for. -/
theorem Loop.waits
    (hOrderly : s.Orderly)
    (hSingle : s.Single)
    (hLoop : s.Loop (some id) t)
    (hLive : t.formulas.get? id = some f)
    {missing : List Handle}
    (hEnd :
      ((t.begun id).evaluate id f).1 = .interrupted missing) :
    missing ≠ [] ∧
      ∀ k ∈ missing, ∃ g,
        (t.begun id).formulas.get? k = some g ∧
          g.generation ≠ t.generation ∧ g.inProgress = false := by
  rcases hLoop.halfway hOrderly hSingle with
    ⟨done, todo, hHalf, hHead⟩
  cases todo with
  | nil => cases hHead
  | cons k todo =>
      cases hHead
      have hEnds := hHalf.ends hSingle hLive
      generalize (t.begun id).evaluate id f = res at hEnds hEnd
      cases hEnds with
      | finished hFinds => cases hEnd
      | circular hReads hRead => cases hEnd
      | interrupted hSome hMissing =>
          cases hEnd
          refine ⟨hSome, fun k hk => ?_⟩
          rcases hMissing k hk with ⟨p, hReads, hRead⟩
          rcases (hHalf.awaits hSingle hLive hReads hRead).2 with
            ⟨g, hg, hAwaited⟩
          exact ⟨g, hg, hAwaited.stale, hAwaited.idle⟩

/- The calculation of a sheet, from its start to its end. -/
theorem Orderly.settles
    (hOrderly : s.Orderly)
    (hSingle : s.Single) :
    s.Settles := by
  rcases hOrderly.halfway with ⟨todo, hListed, hStart⟩
  rcases (hStart.recalculate hOrderly hSingle).1 with ⟨done, hEnd⟩
  have hFuel :=
    effort_le_stepBound
      (s := { s with generation := !s.generation }) hListed
  have hMore := (hStart.run hOrderly hSingle hFuel).2.2
  rw [← hListed.first?_eq] at hMore
  refine
    ⟨hMore, ?_,
      fun hLive => hEnd.pass.current (hEnd.mem_done hLive) hLive,
      fun hLoop hLive hEnd =>
        hLoop.waits hOrderly hSingle hLive hEnd,
      fun hLive => hEnd.found (hEnd.mem_done hLive) hLive,
      fun hLive hMark =>
        (hEnd.stuck (hEnd.mem_done hLive) hLive hMark).1⟩
  rw [hEnd.pass.listed.handles_eq]
  exact hEnd.perm

------------------------------------------------------------
-- Marks Of Earlier Calculations
------------------------------------------------------------

/- A formula that is stopped stays blocked to the end. -/
theorem Stopped.blocked
    (hOrderly : s.Orderly)
    (hSingle : s.Single)
    (hStopped : s.Stopped id) :
    s.recalculate.Blocked id := by
  rcases hStopped with ⟨t, f, -, -, hLoop, hLive, hEnd, -⟩
  rcases hLoop.halfway hOrderly hSingle with
    ⟨done, todo, hHalf, hHead⟩
  cases todo with
  | nil => cases hHead
  | cons k todo =>
      cases hHead
      rcases hHalf.finish_circular hSingle hLive hEnd with
        ⟨hNext, hMark⟩
      have hSame := (hNext.recalculate hOrderly hSingle).2
      rw [Blocked, hSame id (by simp)]
      exact hMark

/- A formula that stops another one was blocked before. -/
theorem Stopped.refers_blocked
    (hOrderly : s.Orderly)
    (hSingle : s.Single)
    (hStopped : s.Stopped id) :
    ∃ k, s.Refers id k ∧ s.Blocked k := by
  rcases hStopped with
    ⟨t, f, k, g, hLoop, hLive, -, hEdge, hThere, hStale, hMark⟩
  rcases hLoop.halfway hOrderly hSingle with
    ⟨done, todo, hHalf, hHead⟩
  refine ⟨k, hEdge, hHalf.marked ?_ ⟨g, hThere, hMark⟩⟩
  have hIn : k ∈ done ++ todo := by
    rw [← hHalf.pass.listed.isSome_get?_iff, hThere]
    rfl
  refine (List.mem_append.mp hIn).resolve_left fun hDone => ?_
  rw [FormulaCell.isStale, (hHalf.pass.current hDone hThere).1]
    at hStale
  simp at hStale

/- What a formula refers to reaches a cycle with it. -/
theorem ReachesCycle.head
    {k : Handle}
    (hReaches : s.ReachesCycle k)
    (hEdge : s.Refers id k) :
    s.ReachesCycle id := by
  rcases hReaches with ⟨j, hPath, hCycle⟩
  exact ⟨j, hPath.head hEdge, hCycle⟩

/- A blocked formula can reach one that was stopped, at least. -/
theorem Orderly.stuck_of_blocked
    (hOrderly : s.Orderly)
    (hSingle : s.Single)
    (hBlocked : s.recalculate.Blocked id) :
    s.Stuck id := by
  rcases hOrderly.halfway with ⟨todo, -, hStart⟩
  rcases (hStart.recalculate hOrderly hSingle).1 with ⟨done, hEnd⟩
  rcases hBlocked with ⟨f, hLive, hMark⟩
  exact (hEnd.stuck (hEnd.mem_done hLive) hLive hMark).2

theorem Stuck.reachesCycle
    (hStopped : ∀ k, s.Stopped k → s.ReachesCycle k)
    (hStuck : s.Stuck id) :
    s.ReachesCycle id := by
  rcases hStuck with ⟨k, hPath, hWhy⟩
  have hHere : s.ReachesCycle k :=
    hWhy.elim (fun hCycle => ⟨k, .refl, hCycle⟩) (hStopped k)
  induction hPath using Relation.ReflTransGen.head_induction_on with
  | refl => exact hHere
  | head hEdge _ ih => exact ih.head hEdge

/-
  Without marks of an earlier calculation on formulas that
  reach no cycle, nothing else is blocked.
-/
theorem Orderly.reachesCycle_of_blocked
    (hOrderly : s.Orderly)
    (hSingle : s.Single)
    (hMarks : ∀ id, s.Blocked id → s.ReachesCycle id)
    (hBlocked : s.recalculate.Blocked id) :
    s.ReachesCycle id := by
  refine
    (hOrderly.stuck_of_blocked hSingle hBlocked).reachesCycle
      fun k hStopped => ?_
  rcases hStopped.refers_blocked hOrderly hSingle with
    ⟨j, hEdge, hMark⟩
  exact (hMarks j hMark).head hEdge

------------------------------------------------------------
-- Calculations With One Cell Each
------------------------------------------------------------

/-
  A calculation settles. All blocked formulas reach a cycle,
  exactly if those do that an earlier mark has stopped. They
  do if this held of the marks before.
-/
theorem settles_single
    {config : SheetConfig}
    (hCalls : Calls (new config) s)
    (hSingle : s.Single) :
    s.Settles ∧
      ((∀ id, s.recalculate.Blocked id → s.ReachesCycle id) ↔
        ∀ id, s.Stopped id → s.ReachesCycle id) ∧
      ((∀ id, s.Blocked id → s.ReachesCycle id) →
        ∀ id, s.recalculate.Blocked id → s.ReachesCycle id) := by
  have hOrderly := orderly_of_calls hCalls
  refine
    ⟨hOrderly.settles hSingle, ⟨fun hAll id hStopped => ?_,
      fun hAll id hBlocked => ?_⟩, fun hMarks id => ?_⟩
  · exact hAll id (hStopped.blocked hOrderly hSingle)
  · exact
      (hOrderly.stuck_of_blocked hSingle hBlocked).reachesCycle hAll
  · exact hOrderly.reachesCycle_of_blocked hSingle hMarks

/- The list has all formulas. -/
theorem Orderly.mem_handles
    (hOrderly : s.Orderly)
    (hLive : s.formulas.get? id = some f) :
    id ∈ s.formulas.handles := by
  rcases hOrderly.listed with ⟨l, hListed⟩
  rw [hListed.handles_eq, ← hListed.isSome_get?_iff, hLive]
  rfl

/- All formulas of the list and their results have one cell. -/
def isSingle (s : Sheet) : Bool :=
  s.formulas.handles.all fun id =>
    (s.formulas.get? id).all fun f =>
      f.extent == Size.one && (s.site f).extent f.expr == Size.one

theorem Orderly.single_of_isSingle
    (hOrderly : s.Orderly)
    (hAll : s.isSingle = true) :
    s.Single := by
  intro id f hLive
  have hHere :=
    List.all_eq_true.mp hAll id (hOrderly.mem_handles hLive)
  simpa [hLive] using hHere

/- Which formulas of the list refer to which others. -/
def edges (s : Sheet) : List (Handle × Handle) :=
  (s.formulas.handles.product s.formulas.handles).filter
    fun (id, k) =>
      match s.formulas.get? id, s.formulas.get? k with
      | some f, some g =>
          f.expr.referenceIndices.any fun i =>
            (f.refs[i]?).any fun r =>
              r.onSheet f.location &&
                (r.toRect? f.location (s.grid.size.sup Size.one)).any
                  (·.contains g.location)
      | _, _ => false

theorem Orderly.mem_edges
    {k : Handle}
    (hOrderly : s.Orderly)
    (hEdge : s.Refers id k) :
    (id, k) ∈ s.edges := by
  rcases hEdge with
    ⟨f, g, hf, hg, i, hIndex, r, hRef, hOn, a, hRect, hIn⟩
  rw [edges, List.mem_filter]
  refine
    ⟨List.pair_mem_product.mpr
      ⟨hOrderly.mem_handles hf, hOrderly.mem_handles hg⟩, ?_⟩
  dsimp only
  rw [hf, hg]
  dsimp only
  rw [List.any_eq_true]
  refine ⟨i, hIndex, ?_⟩
  change f.refs[i]? = some r at hRef
  change r.onSheet f.location = true at hOn
  change
    r.toRect? f.location (s.grid.size.sup Size.one) = some a at hRect
  rw [hRef, Option.any_some, hOn, hRect, Option.any_some, hIn]
  rfl

theorem refers_of_mem_edges
    {k : Handle}
    (hEdge : (id, k) ∈ s.edges) :
    s.Refers id k := by
  rw [edges, List.mem_filter] at hEdge
  have hTest := hEdge.2
  dsimp only at hTest
  cases hf : s.formulas.get? id with
  | none => simp [hf] at hTest
  | some f =>
      cases hg : s.formulas.get? k with
      | none => simp [hf, hg] at hTest
      | some g =>
          simp only [hf, hg, List.any_eq_true, Option.any_eq_true,
            Bool.and_eq_true] at hTest
          rcases hTest with
            ⟨i, hIndex, r, hRef, hOn, a, hRect, hIn⟩
          exact ⟨f, g, hf, hg, i, hIndex, r, hRef, hOn, a, hRect, hIn⟩

/- A formula that is entered before the one it refers to. -/
theorem settles_single_pair :
    ∃ s t, (new ⟨false, 15, 64⟩).setFormula ⟨0, 0⟩ ['B', '1'] =
          .ok s ∧
      s.setFormula ⟨1, 0⟩ ['T', 'R', 'U', 'E', '(', ')'] = .ok t ∧
      t.Single ∧ t.Settles := by
  have hRun :
      ∃ s t, (new ⟨false, 15, 64⟩).setFormula ⟨0, 0⟩ ['B', '1'] =
            .ok s ∧
        s.setFormula ⟨1, 0⟩ ['T', 'R', 'U', 'E', '(', ')'] = .ok t ∧
        (s.size, t.size, t.isSingle) = (⟨1, 1⟩, ⟨2, 1⟩, true) :=
    ⟨_, _, rfl, rfl, by cbv⟩
  rcases hRun with ⟨s, t, hFirst, hSecond, hShows⟩
  simp only [Prod.mk.injEq] at hShows
  rcases hShows with ⟨hSize, hSize', hAll⟩
  have hCalls : Calls (new ⟨false, 15, 64⟩) t :=
    .call
      (.call (.refl _) (.setFormula ⟨0, 0⟩ _) hFirst
        (by rw [hSize]; decide))
      (.setFormula ⟨1, 0⟩ _) hSecond (by rw [hSize']; decide)
  have hSingle :=
    (orderly_of_calls hCalls).single_of_isSingle hAll
  exact
    ⟨s, t, hFirst, hSecond, hSingle,
      (settles_single hCalls hSingle).1⟩

/-
  A mark of an earlier calculation blocks a formula, although
  no formula is part of a cycle any more.
-/
theorem blocked_without_cycle :
    ∃ s t u, (new ⟨false, 15, 64⟩).setFormula ⟨0, 0⟩ ['B', '1'] =
          .ok s ∧
      s.setFormula ⟨1, 0⟩ ['A', '1'] = .ok t ∧
      t.recalculate.setFormula ⟨0, 0⟩
          ['T', 'R', 'U', 'E', '(', ')'] = .ok u ∧
      u.Single ∧
      (∀ id, ¬ Relation.TransGen u.Refers id id) ∧
      u.recalculate.Blocked ⟨1, 0⟩ := by
  have hRun :
      ∃ s t u, (new ⟨false, 15, 64⟩).setFormula ⟨0, 0⟩ ['B', '1'] =
            .ok s ∧
        s.setFormula ⟨1, 0⟩ ['A', '1'] = .ok t ∧
        t.recalculate.setFormula ⟨0, 0⟩
            ['T', 'R', 'U', 'E', '(', ')'] = .ok u ∧
        ([s.size, t.size, t.recalculate.size, u.size], u.isSingle,
            u.edges, (u.recalculate.formulas.get? ⟨1, 0⟩).map
              (·.blocked)) =
          ([⟨1, 1⟩, ⟨2, 1⟩, ⟨2, 1⟩, ⟨2, 1⟩], true,
            [(⟨1, 0⟩, ⟨0, 0⟩)], some true) :=
    ⟨_, _, _, rfl, rfl, rfl, by cbv⟩
  rcases hRun with ⟨s, t, u, hFirst, hSecond, hThird, hShows⟩
  simp only [Prod.mk.injEq, List.cons.injEq,
    Option.map_eq_some_iff] at hShows
  rcases hShows with
    ⟨⟨hSize₁, hSize₂, hSize₃, hSize₄, -⟩, hAll, hEdges, hBlocked⟩
  have hCalls : Calls (new ⟨false, 15, 64⟩) u := by
    refine .call (.call (.call (.call (.refl _)
      (.setFormula ⟨0, 0⟩ _) hFirst ?_)
      (.setFormula ⟨1, 0⟩ _) hSecond ?_)
      .recalculate rfl ?_)
      (.setFormula ⟨0, 0⟩ _) hThird ?_
    · rw [hSize₁]
      decide
    · rw [hSize₂]
      decide
    · rw [hSize₃]
      decide
    · rw [hSize₄]
      decide
  have hOrderly := orderly_of_calls hCalls
  refine
    ⟨s, t, u, hFirst, hSecond, hThird,
      hOrderly.single_of_isSingle hAll, fun id hCycle => ?_, hBlocked⟩
  have hOnly :
      ∀ {j k}, u.Refers j k → j = ⟨1, 0⟩ ∧ k = ⟨0, 0⟩ := by
    intro j k hEdge
    have hIn := hOrderly.mem_edges hEdge
    rw [hEdges] at hIn
    simpa using hIn
  rcases Relation.TransGen.head'_iff.mp hCycle with ⟨j, hStart, -⟩
  rcases Relation.TransGen.tail'_iff.mp hCycle with ⟨k, -, hEnd⟩
  have hHere := (hOnly hStart).1.symm.trans (hOnly hEnd).2
  cases hHere

end Sheet

end Spreadsheet
