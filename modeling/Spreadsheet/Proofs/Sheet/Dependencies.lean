import Mathlib.Logic.Relation
import Spreadsheet.Proofs.Evaluation.Later
import Spreadsheet.Proofs.Sheet.Calls

/-
  A pass over formulas whose results have one cell each.

  Formulas that refer to each other make a graph. Whatever
  the order of their list, a pass calculates each formula
  after those that its value is read from. One that is
  blocked can reach a cycle, or a formula that was blocked
  before the pass.

  Main declarations:
    * `Sheet.Refers`
    * `Sheet.Loop`
    * `Sheet.Halfway`
    * `Sheet.Halfway.step`
    * `Sheet.Halfway.recalculate`
-/

namespace Spreadsheet

namespace Sheet

------------------------------------------------------------
-- Dependencies
------------------------------------------------------------

/- A reference in a formula covers the cell of another one. -/
def Refers (s : Sheet) (id k : Handle) : Prop :=
  ∃ f g, s.formulas.get? id = some f ∧
    s.formulas.get? k = some g ∧
    (s.site f).Reads f.expr g.location

/- A formula can reach a cycle. -/
def ReachesCycle (s : Sheet) (id : Handle) : Prop :=
  ∃ k, Relation.ReflTransGen s.Refers id k ∧
    Relation.TransGen s.Refers k k

/- A formula is marked as blocked. -/
def Blocked (s : Sheet) (id : Handle) : Prop :=
  ∃ f, s.formulas.get? id = some f ∧ f.blocked = true

/- All formulas and their results have a single cell. -/
def Single (s : Sheet) : Prop :=
  ∀ id f, s.formulas.get? id = some f →
    f.extent = Size.one ∧ (s.site f).extent f.expr = Size.one

/-
  The states of a calculation of all formulas: the formula
  that comes next, if there is one, and the sheet.
-/
inductive Loop (s : Sheet) : Option Handle → Sheet → Prop where
  | start :
      Loop s s.formulas.first? { s with generation := !s.generation }
  | calculate
      {id : Handle}
      {t : Sheet}
      {f : FormulaCell}
      (hLoop : Loop s (some id) t)
      (hLive : t.formulas.get? id = some f)
      (hStale : f.isStale t.generation = true) :
      Loop s (t.recalculateOne id f).1 (t.recalculateOne id f).2
  | skip
      {id : Handle}
      {t : Sheet}
      {f : FormulaCell}
      (hLoop : Loop s (some id) t)
      (hLive : t.formulas.get? id = some f)
      (hStale : f.isStale t.generation = false) :
      Loop s (t.formulas.next? id) t

/-
  A formula is stopped by another one that an earlier pass left
  blocked, and that has not been calculated again.
-/
def Stopped (s : Sheet) (id : Handle) : Prop :=
  ∃ t f k g, s.Loop (some id) t ∧ t.formulas.get? id = some f ∧
    ((t.begun id).evaluate id f).1 = .circular ∧
    s.Refers id k ∧ t.formulas.get? k = some g ∧
    g.isStale t.generation = true ∧ g.blocked = true

variable {s t u : Sheet} {id k : Handle} {f g : FormulaCell}

------------------------------------------------------------
-- Reading Cells
------------------------------------------------------------

/- The owner of a cell stands in it. -/
theorem Coherent.location_of_owner
    (hCoherent : s.Coherent)
    {c : Cell}
    {p : Point}
    (hCell : s.grid.get? p = some c)
    (hOwner : c.owner? = some k)
    (hLive : s.formulas.get? k = some g)
    (hOne : g.extent = Size.one) :
    g.location = p := by
  cases c with
  | value v => cases hOwner
  | formula j =>
      obtain rfl : j = k := by simpa [Cell.owner?] using hOwner
      have hHere : (s.grid.get? p).formula? = some j := by
        rw [hCell]
        rfl
      rcases hCoherent.agrees.formula_live hHere with ⟨-, h, hh, hAt⟩
      rw [hLive, Option.some.injEq] at hh
      rw [hh, hAt]
  | extension j v =>
      obtain rfl : j = k := by simpa [Cell.owner?] using hOwner
      have hHere : (s.grid.get? p).parent? = some j := by
        rw [hCell]
        rfl
      rcases hCoherent.live_of_part hHere with ⟨h, hh, hBeyond⟩
      rw [hLive, Option.some.injEq] at hh
      rw [← hh] at hBeyond
      exact absurd hBeyond (FormulaCell.not_beyond_of_extent hOne p)

/- Every owner of a cell is a formula of the sheet. -/
theorem Coherent.live_of_owner
    (hCoherent : s.Coherent)
    {c : Cell}
    {p : Point}
    (hCell : s.grid.get? p = some c)
    (hOwner : c.owner? = some k) :
    ∃ g, s.formulas.get? k = some g := by
  cases c with
  | value v => cases hOwner
  | formula j =>
      obtain rfl : j = k := by simpa [Cell.owner?] using hOwner
      have hHere : (s.grid.get? p).formula? = some j := by
        rw [hCell]
        rfl
      rcases hCoherent.agrees.formula_live hHere with ⟨-, h, hh, -⟩
      exact ⟨h, hh⟩
  | extension j v =>
      obtain rfl : j = k := by simpa [Cell.owner?] using hOwner
      have hHere : (s.grid.get? p).parent? = some j := by
        rw [hCell]
        rfl
      rcases hCoherent.live_of_part hHere with ⟨h, hh, -⟩
      exact ⟨h, hh⟩

/-
  A formula refers to the owners of all cells that its
  references cover, if results have one cell each.
-/
theorem refers_of_owner
    (hSingle : s.Single)
    (hCoherent : u.Coherent)
    (hGrid : u.grid = s.grid)
    (hUnchanged :
      ∀ {k g}, u.formulas.get? k = some g →
        ∃ f, s.formulas.get? k = some f ∧ g.expr = f.expr ∧
          g.refs = f.refs ∧ g.location = f.location ∧
          g.extent = f.extent)
    (hLive : u.formulas.get? id = some f)
    {p : Point}
    (hReads : (u.site f).Reads f.expr p)
    {c : Cell}
    (hCell : u.grid.get? p = some c)
    (hOwner : c.owner? = some k) :
    s.Refers id k := by
  rcases hCoherent.live_of_owner hCell hOwner with ⟨g, hThere⟩
  rcases hUnchanged hLive with ⟨f₀, hf₀, hExpr, hRefs, hLocation, -⟩
  rcases hUnchanged hThere with ⟨g₀, hg₀, -, -, hAt, hExtent⟩
  have hHere : g₀.location = p := by
    rw [← hAt]
    refine hCoherent.location_of_owner hCell hOwner hThere ?_
    rw [hExtent]
    exact (hSingle _ _ hg₀).1
  have hStill : (s.site f₀).Reads f₀.expr p := by
    rw [← hExpr]
    exact
      Site.Reads.congr (s := u.site f) (t := s.site f₀)
        (congrArg Grid.size hGrid.symm) hRefs.symm hLocation.symm
        hReads
  exact ⟨f₀, g₀, hf₀, hg₀, hHere ▸ hStill⟩

------------------------------------------------------------
-- Single Evaluations
------------------------------------------------------------

theorem resize_same
    (hLive : s.formulas.get? id = some g)
    {extent : Size}
    (hSame : g.extent = extent) :
    s.resize id extent = s := by
  rw [resize, hLive]
  exact if_pos hSame

theorem collapse_single
    (hLive : s.formulas.get? id = some g)
    (hOne : g.extent = Size.one) :
    s.collapse id = s := by
  rw [collapse, hLive]
  exact if_pos hOne

/- A formula has found its value, and needs no other round. -/
def Finds
    (s : Sheet)
    (id : Handle)
    (f : FormulaCell)
    (v : Scalar) : Prop :=
  ∃ ev, Evaluation.start.advance (s.site f) id f.expr =
      (.ready v, ev) ∧
    ev.registers.missing = #[] ∧ ev.next? = none

/-
  A value is found again when only a formula has changed that
  could not be read.
-/
theorem Finds.later
    {v : Scalar}
    (hFinds : s.Finds id f v)
    (hProper : f.expr.Proper)
    (hGrid : t.grid = s.grid)
    (hGeneration : t.generation = s.generation)
    (hTable :
      ∀ j, j ≠ k → t.formulas.get? j = s.formulas.get? j)
    {h : FormulaCell}
    (hLive : s.formulas.get? k = some h)
    (hStale : h.generation ≠ s.generation) :
    t.Finds id f v := by
  have hRead :
      ∀ {p w}, (s.site f).read p = .value w →
        (t.site f).read p = .value w := by
    intro p w hRead
    change
      Site.read ⟨t.grid, t.formulas, f.refs, f.location,
        t.generation⟩ p = _
    rw [hGrid, hGeneration]
    have hSite : (s.site f).grid = s.grid := rfl
    unfold Site.read at hRead ⊢
    rw [hSite] at hRead
    cases hCell : s.grid.get? p with
    | none =>
        rw [hCell] at hRead
        exact hRead
    | some c =>
        rw [hCell] at hRead
        dsimp only at hRead ⊢
        by_cases hOwner : c.owner? = some k
        · -- it could not be read
          have hPending : (s.site f).pending? c = some (k, h) := by
            simp [Site.pending?, hOwner, site, hLive,
              FormulaCell.isPending, FormulaCell.isStale, hStale]
          rw [hPending] at hRead
          dsimp only at hRead
          split at hRead <;> cases hRead
        · rw [← hRead]
          have hSame :
              ∀ j, c.owner? = some j →
                t.formulas.get? j = s.formulas.get? j :=
            fun j hj => hTable j fun hEq => hOwner (hEq ▸ hj)
          have hPending :
              Site.pending?
                  ⟨s.grid, t.formulas, f.refs, f.location,
                    s.generation⟩ c =
                (s.site f).pending? c := by
            unfold Site.pending?
            cases hMine : c.owner? with
            | none => rfl
            | some j =>
                change (t.formulas.get? j).bind _ = _
                rw [hSame j hMine]
                rfl
          have hScalar :
              c.scalar? t.formulas = c.scalar? s.formulas := by
            cases c with
            | value v => rfl
            | formula j => simp [Cell.scalar?, hSame j rfl]
            | extension j v => rfl
          rw [hPending, hScalar]
          rfl
  have hLater : (s.site f).Later (t.site f) :=
    ⟨congrArg Grid.size hGrid,
      fun owner p =>
        congrArg (fun g => (g.get? p).any (Registers.blocks owner))
          hGrid,
      rfl, rfl, hRead⟩
  rcases hFinds with ⟨ev, hRound, hMissing, hLast⟩
  refine ⟨ev, ?_, hMissing, hLast⟩
  rw [Evaluation.advance_later hLater id hProper (by rw [hRound]),
    hRound]

/- How the evaluation of a formula with one cell ends. -/
inductive Ends
    (s : Sheet)
    (id : Handle)
    (f : FormulaCell) : Verdict × Sheet → Prop where
  | finished
      {v : Scalar}
      (hFinds : s.Finds id f v) :
      Ends s id f (.finished, s.setValueOf id v)
  | circular
      {p : Point}
      (hReads : (s.site f).Reads f.expr p)
      (hRead : (s.site f).read p = .circular) :
      Ends s id f
        (.circular, s.setValueOf id (.error .badReference))
  | interrupted
      {missing : List Handle}
      (hSome : missing ≠ [])
      (hMissing :
        ∀ k ∈ missing, ∃ p, (s.site f).Reads f.expr p ∧
          (s.site f).read p = .pending k) :
      Ends s id f (.interrupted missing, s)

theorem evaluate_single
    (hLive : s.formulas.get? id = some g)
    (hOne : g.extent = Size.one)
    (hProper : f.expr.Proper)
    (hRoot : (s.site f).extent f.expr = Size.one) :
    s.Ends id f (s.evaluate id f) := by
  have hSome : 0 < s.offsetBound f :=
    Nat.lt_of_lt_of_le Nat.one_pos (le_max_left _ _)
  rcases Nat.exists_eq_add_of_lt hSome with ⟨n, hBound⟩
  rw [Nat.zero_add] at hBound
  rw [evaluate, hBound, evaluateFrom]
  have hAdvances :=
    Evaluation.advance_spec (s := s.site f) id hProper
      ((s.site f).Reads f.expr) (fun h => h)
      (Evaluation.ready_start _)
  generalize hRound :
    Evaluation.start.advance (s.site f) id f.expr = res at hAdvances
  cases hAdvances with
  | ready v hYields =>
      rename_i ev
      have hExtent : ev.registers.extent = Size.one := by
        rw [hYields.extent]
        change (s.site f).reserve id ((s.site f).extent f.expr) = _
        rw [hRoot]
        rfl
      have hOffset : ev.registers.offset = Point.zero :=
        hYields.offset
      have hLast : ev.next? = none := by
        rw [Evaluation.next?, hExtent, hOffset]
        rfl
      have hStore : s.store id ev v = s.setValueOf id v := by
        rw [store, if_pos hOffset, hExtent, resize_same hLive hOne]
      dsimp only
      rw [hLast, hStore]
      exact .finished ⟨ev, hRound, hYields.missing, hLast⟩
  | circular ev hCovers hRead =>
      dsimp only
      rw [collapse_single hLive hOne]
      exact .circular hCovers hRead
  | waiting hSome hIds =>
      dsimp only
      exact .interrupted hSome hIds

------------------------------------------------------------
-- States Of A Pass
------------------------------------------------------------

/- A formula is being calculated. -/
def Begun (s : Sheet) (id : Handle) : Prop :=
  ∃ f, s.formulas.get? id = some f ∧ f.inProgress = true

/-
  The formulas that wait for the current one wait for those,
  too, that it is interrupted for.
-/
theorem waits_bringForward
    {Edge : Handle → Handle → Prop}
    {missing todo : List Handle}
    (hAmong : ∀ h ∈ missing, h ∈ id :: todo)
    (hEdge : ∀ h ∈ missing, Edge id h)
    (hWaits :
      (id :: todo).Pairwise fun k j =>
        t.Begun j → Relation.TransGen Edge j k)
    (hBegun : ∀ j ∈ todo, u.Begun j → t.Begun j) :
    (bringForward missing (id :: todo)).Pairwise fun k j =>
      u.Begun j → Relation.TransGen Edge j k := by
  rcases List.pairwise_cons.mp hWaits with ⟨hHere, hLater⟩
  refine pairwise_bringForward ?_ hAmong fun h hh k hk hNow => ?_
  · rw [List.pairwise_cons]
    refine ⟨fun j hj hNow => hHere j hj (hBegun j hj hNow), ?_⟩
    exact
      hLater.imp_of_mem fun {k j} _ hj hSoon hNow =>
        hSoon (hBegun j hj hNow)
  · rcases List.mem_cons.mp hk with rfl | hk
    · exact .single (hEdge h hh)
    · exact (hHere k hk (hBegun k hk hNow)).tail (hEdge h hh)

/- A formula can reach a cycle, or one that was stopped. -/
def Stuck (s : Sheet) (id : Handle) : Prop :=
  ∃ k, Relation.ReflTransGen s.Refers id k ∧
    (Relation.TransGen s.Refers k k ∨ s.Stopped k)

theorem Stuck.head
    (hStuck : s.Stuck k)
    (hEdge : s.Refers id k) :
    s.Stuck id := by
  rcases hStuck with ⟨j, hPath, hWhy⟩
  exact ⟨j, hPath.head hEdge, hWhy⟩

/-
  In the middle of a pass over the formulas of a sheet. All
  formulas that have been begun can reach the current one.
-/
structure Halfway
    (s : Sheet)
    (done todo : List Handle)
    (t : Sheet) : Prop where
  pass : Pass done todo t
  loop : s.Loop todo.head? t
  grid : t.grid = s.grid
  generation : t.generation = !s.generation
  perm : (done ++ todo).Perm s.formulas.handles
  origin :
    ∀ {k g}, t.formulas.get? k = some g →
      ∃ f, s.formulas.get? k = some f ∧
        g = { f with
          value := g.value
          generation := g.generation
          inProgress := g.inProgress
          blocked := g.blocked }
  waits :
    todo.Pairwise fun k j =>
      t.Begun j → Relation.TransGen s.Refers j k
  marked : ∀ {k}, k ∈ todo → t.Blocked k → s.Blocked k
  found :
    ∀ {k g}, k ∈ done → t.formulas.get? k = some g →
      g.blocked = false → t.Finds k g g.value
  stuck :
    ∀ {k g}, k ∈ done → t.formulas.get? k = some g →
      g.blocked = true →
        g.value = .error .badReference ∧ s.Stuck k

variable {done todo : List Handle}

/- At the beginning nothing has been begun. -/
theorem Orderly.halfway
    (hOrderly : s.Orderly) :
    ∃ todo, s.formulas.Listed todo ∧
      s.Halfway [] todo { s with generation := !s.generation } := by
  rcases hOrderly.pass with ⟨todo, hListed, hPass⟩
  have hIdle :
      ∀ k, ¬ Begun { s with generation := !s.generation } k := by
    rintro k ⟨f, hLive, hBegun⟩
    have hSettled := (hOrderly.settled hLive).idle
    rw [hSettled] at hBegun
    cases hBegun
  refine ⟨todo, hListed, hPass, ?_, rfl, rfl, ?_,
    fun hLive => ⟨_, hLive, rfl⟩, ?_, fun _ h => h, by simp, by simp⟩
  · rw [← hListed.first?_eq]
    exact .start
  · rw [hListed.handles_eq]
    exact List.Perm.refl _
  · exact
      List.pairwise_of_forall fun k j hBegun =>
        absurd hBegun (hIdle j)

/- Only the value and the marks of one formula have changed. -/
structure Revises
    (id : Handle)
    (f g : FormulaCell)
    (t u : Sheet) : Prop where
  grid : u.grid = t.grid
  generation : u.generation = t.generation
  own : u.formulas.get? id = some g
  same :
    g = { f with
      value := g.value
      generation := g.generation
      inProgress := g.inProgress
      blocked := g.blocked }
  other :
    ∀ {k}, k ≠ id → u.formulas.get? k = t.formulas.get? k

theorem get?_setValueOf
    (s : Sheet)
    (id k : Handle)
    (v : Scalar) :
    (s.setValueOf id v).formulas.get? k =
      if k = id then
        (s.formulas.get? k).map ({ · with value := v })
      else s.formulas.get? k :=
  LinkedArena.get?_modify s.formulas id k _

theorem get?_finish
    (s : Sheet)
    (id k : Handle)
    (blocked : Bool) :
    (s.finish id blocked).2.formulas.get? k =
      if k = id then
        (s.formulas.get? k).map (·.finish s.generation blocked)
      else s.formulas.get? k :=
  LinkedArena.get?_modify s.formulas id k _

theorem revises_finish
    (hLive : t.formulas.get? id = some f)
    (v : Scalar)
    (blocked : Bool) :
    Revises id f
      ({ f.setInProgress true with value := v }.finish t.generation
        blocked)
      t (((t.begun id).setValueOf id v).finish id blocked).2 := by
  refine ⟨rfl, rfl, ?_, rfl, fun {k} hNe => ?_⟩
  · rw [get?_finish, if_pos rfl, get?_setValueOf, if_pos rfl,
      get?_begun, if_pos rfl, hLive]
    rfl
  · rw [get?_finish, if_neg hNe, get?_setValueOf, if_neg hNe,
      get?_begun, if_neg hNe]

/- Putting formulas in another order changes none of them. -/
theorem get?_schedule
    (id : Handle)
    (missing : List Handle)
    (formulas : FormulaList)
    (k : Handle) :
    (schedule id missing formulas).2.get? k = formulas.get? k := by
  induction missing generalizing id formulas with
  | nil => rfl
  | cons h missing ih =>
      rw [schedule, List.foldl_cons]
      dsimp only
      split
      · exact ih id formulas
      · rw [← LinkedArena.get?_moveBefore formulas h id k]
        exact ih h _

theorem revises_interrupted
    (hLive : t.formulas.get? id = some f)
    (missing : List Handle) :
    Revises id f (f.setInProgress true) t
      ((t.begun id).interrupted id missing).2 := by
  have hTable :
      ∀ k, ((t.begun id).interrupted id missing).2.formulas.get? k =
        (t.begun id).formulas.get? k :=
    get?_schedule id missing (t.begun id).formulas
  refine ⟨rfl, rfl, ?_, rfl, fun {k} hNe => ?_⟩
  · rw [hTable, get?_begun, if_pos rfl, hLive]
    rfl
  · rw [hTable, get?_begun, if_neg hNe]

namespace Halfway

/- The current formula and the sheet on which it is evaluated. -/
theorem current
    (hHalf : s.Halfway done (id :: todo) t)
    (hLive : t.formulas.get? id = some f) :
    (t.begun id).formulas.get? id = some (f.setInProgress true) ∧
      f.generation ≠ t.generation ∧ id ∉ done ∧ id ∉ todo ∧
      f.expr.Proper := by
  have hNodup := hHalf.pass.listed.threads.nodup
  refine ⟨?_, hHalf.pass.stale List.mem_cons_self hLive,
    fun hDone => ?_, ?_, hHalf.pass.proper hLive⟩
  · rw [get?_begun, if_pos rfl, hLive]
    rfl
  · exact
      (List.disjoint_of_nodup_append hNodup) hDone List.mem_cons_self
  · exact (List.nodup_cons.mp hNodup.of_append_right).1

/- What a formula says, and where it stands, has not changed. -/
theorem unchanged
    (hHalf : s.Halfway done todo t)
    (hLive : t.formulas.get? k = some g) :
    ∃ f, s.formulas.get? k = some f ∧ g.expr = f.expr ∧
      g.refs = f.refs ∧ g.location = f.location ∧
      g.extent = f.extent := by
  rcases hHalf.origin hLive with ⟨f, hf, hSame⟩
  refine ⟨f, hf, ?_, ?_, ?_, ?_⟩ <;> rw [hSame]

/- Whether it has been begun makes no difference. -/
theorem unchanged_begun
    (hHalf : s.Halfway done todo t)
    (hLive : (t.begun id).formulas.get? k = some g) :
    ∃ f, s.formulas.get? k = some f ∧ g.expr = f.expr ∧
      g.refs = f.refs ∧ g.location = f.location ∧
      g.extent = f.extent := by
  rw [get?_begun] at hLive
  split at hLive
  · rw [Option.map_eq_some_iff] at hLive
    rcases hLive with ⟨h, hh, rfl⟩
    have hOld := hHalf.unchanged hh
    exact hOld
  · exact hHalf.unchanged hLive

/-
  A cell that the current formula cannot read belongs to a
  formula that it refers to.
-/
theorem refers
    (hSingle : s.Single)
    (hHalf : s.Halfway done (id :: todo) t)
    (hLive : t.formulas.get? id = some f)
    {p : Point}
    (hReads : ((t.begun id).site f).Reads f.expr p)
    (hRead : ∀ v, ((t.begun id).site f).read p ≠ .value v) :
    ∃ k g, (t.begun id).formulas.get? k = some g ∧
      g.isPending t.generation = true ∧
      ((t.begun id).site f).read p =
        (if g.isCircular then .circular else .pending k) ∧
      s.Refers id k := by
  rcases pending_of_read hRead with
    ⟨k, g, hThere, hPending, hWhy, c, hCell, hOwner⟩
  refine ⟨k, g, hThere, hPending, hWhy, ?_⟩
  exact
    refers_of_owner hSingle (hHalf.pass.coherent.begun id) hHalf.grid
      (fun hLive => hHalf.unchanged_begun hLive)
      (hHalf.current hLive).1 hReads hCell hOwner

/-
  A step changes the value and the marks of the current formula
  only, which may be calculated afterwards.
-/
theorem next
    (hHalf : s.Halfway done (id :: todo) t)
    (hLive : t.formulas.get? id = some f)
    {done' todo' : List Handle}
    {u : Sheet}
    (hPass : Pass done' todo' u)
    (hLoop : s.Loop todo'.head? u)
    (hPerm : (done' ++ todo').Perm (done ++ id :: todo))
    (hRevises : Revises id f g t u)
    (hDone : ∀ k ∈ done', k = id ∨ k ∈ done)
    (hTodo : ∀ k ∈ todo', k ∈ id :: todo)
    (hWaits :
      todo'.Pairwise fun k j =>
        u.Begun j → Relation.TransGen s.Refers j k)
    (hMarked : id ∈ todo' → g.blocked = f.blocked)
    (hFound :
      id ∈ done' → g.blocked = false → u.Finds id g g.value)
    (hStuck :
      id ∈ done' → g.blocked = true →
        g.value = .error .badReference ∧ s.Stuck id) :
    s.Halfway done' todo' u := by
  have hStale := hHalf.pass.stale List.mem_cons_self hLive
  refine ⟨hPass, hLoop, hRevises.grid.trans hHalf.grid,
    hRevises.generation.trans hHalf.generation,
    hPerm.trans hHalf.perm, ?_, hWaits, ?_, ?_, ?_⟩
  · intro k h hk
    by_cases hEq : k = id
    · rw [hEq, hRevises.own, Option.some.injEq] at hk
      rw [hEq, ← hk]
      rcases hHalf.origin hLive with ⟨f₀, hf₀, hSame⟩
      refine ⟨f₀, hf₀, ?_⟩
      rw [hRevises.same, hSame]
    · rw [hRevises.other hEq] at hk
      exact hHalf.origin hk
  · intro k hk hBlocked
    refine hHalf.marked (hTodo k hk) ?_
    by_cases hEq : k = id
    · rcases hBlocked with ⟨h, hh, hMark⟩
      rw [hEq, hRevises.own, Option.some.injEq] at hh
      rw [hEq] at hk ⊢
      rw [← hh, hMarked hk] at hMark
      exact ⟨f, hLive, hMark⟩
    · rw [Blocked, hRevises.other hEq] at hBlocked
      exact hBlocked
  · intro k h hk hh hFree
    by_cases hEq : k = id
    · rw [hEq] at hk hh ⊢
      rw [hRevises.own, Option.some.injEq] at hh
      rw [← hh] at hFree ⊢
      exact hFound hk hFree
    · rw [hRevises.other hEq] at hh
      exact
        (hHalf.found ((hDone k hk).resolve_left hEq) hh hFree).later
          (hHalf.pass.proper hh) hRevises.grid hRevises.generation
          (fun j => hRevises.other) hLive hStale
  · intro k h hk hh hBlocked
    by_cases hEq : k = id
    · rw [hEq] at hk hh ⊢
      rw [hRevises.own, Option.some.injEq] at hh
      rw [← hh] at hBlocked ⊢
      exact hStuck hk hBlocked
    · rw [hRevises.other hEq] at hh
      exact
        hHalf.stuck ((hDone k hk).resolve_left hEq) hh hBlocked

/- The current formula is evaluated, and it is finished. -/
theorem finish
    (hHalf : s.Halfway done (id :: todo) t)
    (hLive : t.formulas.get? id = some f)
    {v : Scalar}
    {blocked : Bool}
    (hResult :
      t.recalculateOne id f =
        ((t.begun id).setValueOf id v).finish id blocked)
    (hFound : blocked = false → (t.begun id).Finds id f v)
    (hStuck :
      blocked = true → v = .error .badReference ∧ s.Stuck id)
    {n : Nat}
    (hCount : 0 < n) :
    s.Halfway (done ++ [id]) todo (t.recalculateOne id f).2 ∧
      (t.recalculateOne id f).1 = todo.head? ∧
      effort n todo (t.recalculateOne id f).2 <
        effort n (id :: todo) t := by
  have hChanged :
      ChangesResult id (t.begun id) ((t.begun id).setValueOf id v) :=
    (hHalf.pass.coherent.begun id).setValueOf id v
  rcases hHalf.pass.finish hLive hChanged blocked hCount with
    ⟨hPass, hHead, hLess⟩
  rcases hHalf.current hLive with
    ⟨hBegun, hStale, hNotDone, hNotTodo, hProper⟩
  have hLoop :=
    Loop.calculate hHalf.loop hLive
      (by simpa [FormulaCell.isStale] using hStale)
  rw [hResult] at hLoop ⊢
  rw [hHead] at hLoop
  refine ⟨?_, hHead, hLess⟩
  have hRevises :=
    revises_finish hLive v blocked
  refine
    hHalf.next hLive hPass hLoop (by simp) hRevises
      (fun k hk => by simpa [or_comm] using hk)
      (fun k hk => List.mem_cons_of_mem _ hk) ?_
      (fun hTodo => absurd hTodo hNotTodo) (fun _ hFree => ?_)
      fun _ hBlocked => hStuck hBlocked
  · refine hHalf.waits.of_cons.imp_of_mem fun {k j} _ hj hWaits => ?_
    have hNe : j ≠ id := fun hEq => hNotTodo (hEq ▸ hj)
    rw [Begun, hRevises.other hNe]
    exact hWaits
  · exact
      (hFound hFree).later hProper hRevises.grid hRevises.generation
        (fun j hj => by
          rw [hRevises.other hj, get?_begun, if_neg hj])
        hBegun hStale

/- The current formula needs others first. -/
theorem interrupt
    (hHalf : s.Halfway done (id :: todo) t)
    (hLive : t.formulas.get? id = some f)
    {missing : List Handle}
    (hSome : missing ≠ [])
    (hResult :
      t.recalculateOne id f = (t.begun id).interrupted id missing)
    (hMissing :
      ∀ k ∈ missing, s.Refers id k ∧
        ∃ g, (t.begun id).formulas.get? k = some g ∧
          (t.begun id).Awaited g)
    (n : Nat) :
    s.Halfway done (bringForward missing (id :: todo))
        (t.recalculateOne id f).2 ∧
      (t.recalculateOne id f).1 =
        (bringForward missing (id :: todo)).head? ∧
      effort n (bringForward missing (id :: todo))
          (t.recalculateOne id f).2 <
        effort n (id :: todo) t := by
  have hChanged :=
    (hHalf.pass.coherent.begun id).changesResult_refl id
  rcases
    hHalf.pass.interrupt hLive hChanged hSome
      (fun k hk => (hMissing k hk).2) n with
    ⟨hIn, hPass, hHead, -, hLess⟩
  rcases hHalf.current hLive with
    ⟨-, hStale, hNotDone, hNotTodo, -⟩
  have hAmong : ∀ k ∈ missing, k ∈ id :: todo := fun k hk =>
    List.mem_cons_of_mem _ (hIn k hk)
  have hPerm := perm_bringForward hAmong
  have hLoop :=
    Loop.calculate hHalf.loop hLive
      (by simpa [FormulaCell.isStale] using hStale)
  rw [hResult] at hLoop ⊢
  refine ⟨?_, hHead.symm, hLess⟩
  have hRevises := revises_interrupted hLive missing
  refine
    hHalf.next hLive hPass (by rw [hHead]; exact hLoop)
      (hPerm.append_left done) hRevises (fun k => Or.inr)
      (fun k => hPerm.mem_iff.mp) ?_ (fun _ => rfl)
      (fun hDone => absurd hDone hNotDone)
      fun hDone => absurd hDone hNotDone
  refine
    waits_bringForward hAmong (fun h hh => (hMissing h hh).1)
      hHalf.waits fun j hj hBegun => ?_
  rw [Begun, hRevises.other fun hEq => hNotTodo (hEq ▸ hj)] at hBegun
  exact hBegun

/- The evaluation of the current formula ends in one cell. -/
theorem ends
    (hSingle : s.Single)
    (hHalf : s.Halfway done (id :: todo) t)
    (hLive : t.formulas.get? id = some f) :
    (t.begun id).Ends id f ((t.begun id).evaluate id f) := by
  rcases hHalf.current hLive with ⟨hBegun, -, -, -, hProper⟩
  rcases hHalf.unchanged hLive with
    ⟨f₀, hf₀, hExpr, hRefs, hLocation, hExtent⟩
  rcases hSingle _ _ hf₀ with ⟨hOne, hRoot⟩
  refine evaluate_single hBegun (hExtent.trans hOne) hProper ?_
  have hSize : (t.begun id).grid.size = s.grid.size := by
    rw [← hHalf.grid]
    rfl
  rw [Site.extent_eq (s := s.site f₀) hRefs hLocation hSize hProper,
    hExpr]
  exact hRoot

/- The current formula waits for others that can be begun. -/
theorem awaits
    (hSingle : s.Single)
    (hHalf : s.Halfway done (id :: todo) t)
    (hLive : t.formulas.get? id = some f)
    {p : Point}
    (hReads : ((t.begun id).site f).Reads f.expr p)
    (hRead : ((t.begun id).site f).read p = .pending k) :
    s.Refers id k ∧
      ∃ g, (t.begun id).formulas.get? k = some g ∧
        (t.begun id).Awaited g := by
  rcases
    hHalf.refers hSingle hLive hReads (by rw [hRead]; simp) with
    ⟨j, g, -, -, hWhy, hEdge⟩
  rw [hRead] at hWhy
  split at hWhy
  · cases hWhy
  · cases hWhy
    rcases awaited_of_read hRead with ⟨h, hh, hAwaited, -⟩
    exact ⟨hEdge, h, hh, hAwaited⟩

/- A formula that reads one that is begun or blocked is stuck. -/
theorem stuck_of_circular
    (hSingle : s.Single)
    (hHalf : s.Halfway done (id :: todo) t)
    (hLive : t.formulas.get? id = some f)
    {p : Point}
    (hReads : ((t.begun id).site f).Reads f.expr p)
    (hRead : ((t.begun id).site f).read p = .circular)
    (hEnd : ((t.begun id).evaluate id f).1 = .circular) :
    s.Stuck id := by
  rcases
    hHalf.refers hSingle hLive hReads (by rw [hRead]; simp) with
    ⟨k, g, hThere, -, hWhy, hEdge⟩
  rw [hRead] at hWhy
  have hCircular : g.inProgress = true ∨ g.blocked = true := by
    split at hWhy
    · rename_i hClosed
      simpa [FormulaCell.isCircular] using hClosed
    · cases hWhy
  by_cases hSame : k = id
  · rw [hSame] at hEdge
    exact ⟨id, .refl, Or.inl (.single hEdge)⟩
  rw [get?_begun, if_neg hSame] at hThere
  have hIn : k ∈ done ++ id :: todo := by
    rw [← hHalf.pass.listed.isSome_get?_iff, hThere]
    rfl
  rcases List.mem_append.mp hIn with hDone | hTodo
  · have hIdle := (hHalf.pass.current hDone hThere).2
    have hBlocked : g.blocked = true := by
      simpa [hIdle] using hCircular
    exact (hHalf.stuck hDone hThere hBlocked).2.head hEdge
  · have hLater : k ∈ todo := by simpa [hSame] using hTodo
    cases hCircular with
    | inl hBegun =>
        -- it waits for the current formula
        have hBack :=
          (List.pairwise_cons.mp hHalf.waits).1 k hLater
            ⟨g, hThere, hBegun⟩
        exact ⟨id, .refl, Or.inl (hBack.head hEdge)⟩
    | inr hBlocked =>
        have hStale := hHalf.pass.stale hTodo hThere
        refine ⟨id, .refl, Or.inr ?_⟩
        exact
          ⟨t, f, k, g, hHalf.loop, hLive, hEnd, hEdge, hThere,
            by simpa [FormulaCell.isStale] using hStale, hBlocked⟩

/- The calculation of a formula that turns out to be stuck. -/
theorem finish_circular
    (hSingle : s.Single)
    (hHalf : s.Halfway done (id :: todo) t)
    (hLive : t.formulas.get? id = some f)
    (hEnd : ((t.begun id).evaluate id f).1 = .circular) :
    s.Halfway (done ++ [id]) todo (t.recalculateOne id f).2 ∧
      (t.recalculateOne id f).2.Blocked id := by
  have hEnds := hHalf.ends hSingle hLive
  have hResult := recalculateOne_eq t id f
  have hStuck := fun p =>
    hHalf.stuck_of_circular (p := p) hSingle hLive
  generalize (t.begun id).evaluate id f = res
    at hEnds hResult hEnd hStuck
  cases hEnds with
  | finished hFinds => cases hEnd
  | interrupted hSome hMissing => cases hEnd
  | circular hReads hRead =>
      refine
        ⟨(hHalf.finish hLive hResult (by simp)
          (fun _ => ⟨rfl, hStuck _ hReads hRead rfl⟩)
          Nat.one_pos).1, ?_⟩
      have hRevises :=
        revises_finish hLive (.error .badReference) true
      rw [hResult]
      exact ⟨_, hRevises.own, rfl⟩

/-
  One step of a pass. Those that have been calculated stay as
  they are.
-/
theorem step
    (hSingle : s.Single)
    (hHalf : s.Halfway done (id :: todo) t)
    (hLive : t.formulas.get? id = some f)
    {n : Nat}
    (hCount : 0 < n) :
    (∃ done' todo',
      s.Halfway done' todo' (t.recalculateOne id f).2 ∧
        (t.recalculateOne id f).1 = todo'.head? ∧
        effort n todo' (t.recalculateOne id f).2 <
          effort n (id :: todo) t ∧
        done ⊆ done') ∧
      ∃ g, Revises id f g t (t.recalculateOne id f).2 := by
  have hEnds := hHalf.ends hSingle hLive
  have hResult := recalculateOne_eq t id f
  have hStuck := fun p =>
    hHalf.stuck_of_circular (p := p) hSingle hLive
  generalize (t.begun id).evaluate id f = res at hEnds hResult hStuck
  cases hEnds with
  | finished hFinds =>
      rcases
        hHalf.finish hLive hResult (fun _ => hFinds) (by simp)
          hCount with
        ⟨hNext, hHead, hLess⟩
      refine
        ⟨⟨_, _, hNext, hHead, hLess, List.subset_append_left _ _⟩, ?_⟩
      rw [hResult]
      exact ⟨_, revises_finish hLive _ false⟩
  | circular hReads hRead =>
      rcases
        hHalf.finish hLive hResult (by simp)
          (fun _ => ⟨rfl, hStuck _ hReads hRead rfl⟩) hCount with
        ⟨hNext, hHead, hLess⟩
      refine
        ⟨⟨_, _, hNext, hHead, hLess, List.subset_append_left _ _⟩, ?_⟩
      rw [hResult]
      exact ⟨_, revises_finish hLive _ true⟩
  | interrupted hSome hMissing =>
      rename_i missing
      have hLater :
          t.recalculateOne id f =
            (t.begun id).interrupted id missing := by
        rw [hResult]
        cases missing with
        | nil => exact absurd rfl hSome
        | cons k missing => rfl
      have hAwaits :
          ∀ k ∈ missing, s.Refers id k ∧
            ∃ g, (t.begun id).formulas.get? k = some g ∧
              (t.begun id).Awaited g := by
        intro k hk
        rcases hMissing k hk with ⟨p, hReads, hRead⟩
        exact hHalf.awaits hSingle hLive hReads hRead
      rcases hHalf.interrupt hLive hSome hLater hAwaits n with
        ⟨hNext, hHead, hLess⟩
      refine ⟨⟨_, _, hNext, hHead, hLess, fun _ h => h⟩, ?_⟩
      rw [hLater]
      exact ⟨_, revises_interrupted hLive missing⟩

end Halfway

------------------------------------------------------------
-- Whole Passes
------------------------------------------------------------

/- All states of a calculation are states of a pass. -/
theorem Loop.halfway
    (hOrderly : s.Orderly)
    (hSingle : s.Single)
    {cursor : Option Handle}
    (hLoop : s.Loop cursor t) :
    ∃ done todo, s.Halfway done todo t ∧ cursor = todo.head? := by
  induction hLoop with
  | start =>
      rcases hOrderly.halfway with ⟨todo, hListed, hHalf⟩
      exact ⟨[], todo, hHalf, hListed.first?_eq⟩
  | calculate hLoop hLive hStale ih =>
      rcases ih with ⟨done, todo, hHalf, hHead⟩
      cases todo with
      | nil => cases hHead
      | cons k todo =>
          cases hHead
          rcases hHalf.step hSingle hLive Nat.one_pos with
            ⟨⟨done', todo', hNext, hHead', -, -⟩, -⟩
          exact ⟨done', todo', hNext, hHead'⟩
  | skip hLoop hLive hCurrent ih =>
      rcases ih with ⟨done, todo, hHalf, hHead⟩
      cases todo with
      | nil => cases hHead
      | cons k todo =>
          -- what is left has not been calculated
          cases hHead
          have hStale := hHalf.pass.stale List.mem_cons_self hLive
          rw [FormulaCell.isStale, bne_eq_false_iff_eq] at hCurrent
          exact absurd hCurrent hStale

/-
  A pass that is in the middle comes to its end. The formulas
  that have been calculated stay as they are.
-/
theorem Halfway.run
    (hOrderly : s.Orderly)
    (hSingle : s.Single)
    (hHalf : s.Halfway done todo t)
    {fuel : Nat}
    (hFuel : effort s.formulas.size todo t ≤ fuel) :
    (∃ done', s.Halfway done' []
        (t.recalculateFrom fuel todo.head?)) ∧
      (∀ k ∈ done,
        (t.recalculateFrom fuel todo.head?).formulas.get? k =
          t.formulas.get? k) ∧
      ∀ n, t.recalculateFrom (fuel + n) todo.head? =
        t.recalculateFrom fuel todo.head? := by
  rcases hOrderly.listed with ⟨l, hListed⟩
  have hLasts :
      Lasts s.formulas.size fun done' todo' u =>
        s.Halfway done' todo' u ∧ done ⊆ done' ∧
          ∀ k ∈ done, u.formulas.get? k = t.formulas.get? k := by
    refine ⟨fun h => h.1.pass, ?_⟩
    rintro done' id todo' u f ⟨hHere, hSub, hSame⟩ hLive
    have hCount : 0 < s.formulas.size := by
      have hLength := hHere.perm.length_eq
      rw [hListed.handles_eq, ← hListed.size_eq] at hLength
      rw [← hLength]
      simp
    rcases hHere.step hSingle hLive hCount with
      ⟨⟨done'', todo'', hNext, hHead, hLess, hMore⟩, g, hRevises⟩
    refine
      ⟨done'', todo'', ⟨hNext, fun _ hk => hMore (hSub hk), ?_⟩,
        hHead, hLess⟩
    intro k hk
    rcases hHere.current hLive with ⟨-, -, hNew, -, -⟩
    have hNe : k ≠ id := fun hEq => hNew (hEq ▸ hSub hk)
    rw [hRevises.other hNe, hSame k hk]
  rcases hLasts.run ⟨hHalf, fun _ h => h, fun _ _ => rfl⟩ hFuel with
    ⟨done', ⟨hEnd, -, hSame⟩, hMore⟩
  exact ⟨⟨done', hEnd⟩, hSame, hMore⟩

/- The calculation from any of its states on leads to its end. -/
theorem Loop.rest
    (hOrderly : s.Orderly)
    (hSingle : s.Single)
    {cursor : Option Handle}
    (hLoop : s.Loop cursor t) :
    ∃ n, ∀ m, n ≤ m → t.recalculateFrom m cursor = s.recalculate := by
  induction hLoop with
  | start =>
      rcases hOrderly.halfway with ⟨todo, hListed, hHalf⟩
      have hFuel :
          effort s.formulas.size todo
              { s with generation := !s.generation } ≤ s.stepBound :=
        effort_le_stepBound
          (s := { s with generation := !s.generation }) hListed
      have hMore :=
        (hHalf.run hOrderly hSingle hFuel).2.2
      refine ⟨s.stepBound, fun m hm => ?_⟩
      rw [← hListed.first?_eq] at hMore
      rw [← Nat.add_sub_of_le hm, hMore]
      rfl
  | calculate hLoop hLive hStale ih =>
      rcases ih with ⟨n, hRest⟩
      refine ⟨n, fun m hm => ?_⟩
      have hStep := hRest (m + 1) (by omega)
      rw [recalculateFrom, hLive] at hStep
      dsimp only at hStep
      rw [if_pos hStale] at hStep
      exact hStep
  | skip hLoop hLive hCurrent ih =>
      rcases ih with ⟨n, hRest⟩
      refine ⟨n, fun m hm => ?_⟩
      have hStep := hRest (m + 1) (by omega)
      rw [recalculateFrom, hLive] at hStep
      dsimp only at hStep
      rw [if_neg (by simp [hCurrent])] at hStep
      exact hStep

/- What a calculation has found stands at its end. -/
theorem Halfway.recalculate
    (hOrderly : s.Orderly)
    (hSingle : s.Single)
    (hHalf : s.Halfway done todo t) :
    (∃ done', s.Halfway done' [] s.recalculate) ∧
      ∀ k ∈ done,
        s.recalculate.formulas.get? k = t.formulas.get? k := by
  rcases hHalf.loop.rest hOrderly hSingle with ⟨n, hRest⟩
  rcases
    hHalf.run hOrderly hSingle (le_max_left _ n) with
    ⟨hEnd, hSame, -⟩
  rw [hRest _ (le_max_right _ n)] at hEnd hSame
  exact ⟨hEnd, hSame⟩

end Sheet

end Spreadsheet
