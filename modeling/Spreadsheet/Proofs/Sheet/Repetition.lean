import Spreadsheet.Proofs.Evaluation.Answers
import Spreadsheet.Proofs.Sheet.Entries

/-
  Calculating a sheet again that has been calculated.

  On a sheet at rest the evaluation of each formula gives what
  is shown already. Another calculation may begin formulas,
  interrupt them and put them in another order, but all that
  is shown stays as it is.

  Main declarations:
    * `Sheet.AtRest`
    * `Sheet.Retains`
    * `Sheet.Again`
    * `Sheet.recalculates_once`
-/

namespace Spreadsheet

namespace Sheet

------------------------------------------------------------
-- Sheets At Rest
------------------------------------------------------------

/- A reference in a formula covers a cell that one occupies. -/
def Uses (s : Sheet) (id k : Handle) : Prop :=
  ∃ f p c, s.formulas.get? id = some f ∧
    (s.site f).Reads f.expr p ∧ s.grid.get? p = some c ∧
    c.owner? = some k

/- Storing a scalar at an offset of a result changes nothing. -/
def Holds
    (s : Sheet)
    (f : FormulaCell)
    (offset : Point)
    (extent : Size)
    (v : Scalar) : Prop :=
  if offset = Point.zero then
    f.extent = extent ∧ f.value = v
  else
    s.size.contains (f.location.add offset.toSize) = true ∧
      ∀ k w,
        s.grid.get? (f.location.add offset.toSize) =
          some (.extension k w) → w = v

/- The evaluation of a formula gives what is shown already. -/
def Repeats (s : Sheet) (id : Handle) (f : FormulaCell) : Prop :=
  ∀ offset extent answer,
    (offset, extent, answer) ∈
        Evaluation.start.answers (s.site f) id f.expr
          (s.offsetBound f) →
      ∃ v, answer = .ready v ∧ s.Holds f offset extent v

/-
  Every formula gives what is shown already, unless it is
  blocked and reads a cell that is. Those that use blocked ones
  or each other in a cycle are all blocked.
-/
structure AtRest (s : Sheet) : Prop where
  repeats :
    ∀ id f, s.formulas.get? id = some f → f.blocked = false →
      s.Repeats id f
  refused :
    ∀ id f, s.formulas.get? id = some f → f.blocked = true →
      f.extent = Size.one ∧ f.value = .error .badReference ∧
        (Evaluation.start.advance (s.site f) id f.expr).1 = .circular
  apart : ∀ id k, s.Uses id k → s.Blocked k → s.Blocked id
  acyclic : ∀ id, Relation.TransGen s.Uses id id → s.Blocked id

variable {s t u w : Sheet} {id k : Handle} {f g : FormulaCell}

------------------------------------------------------------
-- What Is Shown
------------------------------------------------------------

/-
  A sheet shows what another one shows. Formulas may have been
  begun since, or calculated, or put in another order.
-/
structure Retains (s t : Sheet) : Prop where
  size : t.grid.size = s.grid.size
  cells : t.grid.get? = s.grid.get?
  origin :
    ∀ {k g}, t.formulas.get? k = some g →
      ∃ f, s.formulas.get? k = some f ∧
        g = { f with
          generation := g.generation
          inProgress := g.inProgress }
  kept :
    ∀ {k f}, s.formulas.get? k = some f →
      ∃ g, t.formulas.get? k = some g

/- Nothing but the order of the formulas differs. -/
structure Alike (s t : Sheet) : Prop where
  size : t.grid.size = s.grid.size
  cells : t.grid.get? = s.grid.get?
  formulas : t.formulas.get? = s.formulas.get?
  generation : t.generation = s.generation

theorem alike_refl (s : Sheet) : s.Alike s :=
  ⟨rfl, rfl, rfl, rfl⟩

theorem Alike.trans
    (hAlike : s.Alike t)
    (hNext : t.Alike u) :
    s.Alike u :=
  ⟨hNext.size.trans hAlike.size, hNext.cells.trans hAlike.cells,
    hNext.formulas.trans hAlike.formulas,
    hNext.generation.trans hAlike.generation⟩

theorem Retains.alike
    (hRetains : s.Retains t)
    (hAlike : t.Alike u) :
    s.Retains u := by
  refine
    ⟨hAlike.size.trans hRetains.size,
      hAlike.cells.trans hRetains.cells, fun hLive => ?_,
      fun hLive => ?_⟩
  · rw [hAlike.formulas] at hLive
    exact hRetains.origin hLive
  · rw [hAlike.formulas]
    exact hRetains.kept hLive

/- All cells show the same values. -/
theorem Retains.value
    (hRetains : s.Retains t)
    (p : Point) :
    t.value p = s.value p := by
  unfold Sheet.value
  rw [hRetains.cells]
  cases hCell : s.grid.get? p with
  | none => rfl
  | some c =>
      cases c with
      | value v => rfl
      | extension j v => rfl
      | formula j =>
          simp only [Option.bind_some, Cell.scalar?]
          cases hLive : s.formulas.get? j with
          | some f =>
              rcases hRetains.kept hLive with ⟨g, hg⟩
              rcases hRetains.origin hg with ⟨f', hf', hSame⟩
              rw [hLive, Option.some.injEq] at hf'
              rw [hg, hSame, hf']
              rfl
          | none =>
              cases hThere : t.formulas.get? j with
              | none => rfl
              | some g =>
                  rcases hRetains.origin hThere with ⟨f, hf, -⟩
                  rw [hLive] at hf
                  cases hf

------------------------------------------------------------
-- What Can Be Read
------------------------------------------------------------

/- What is read of a cell is what it shows. -/
theorem value_of_read
    {p : Point}
    {v : Scalar}
    (hRead : (s.site f).read p = .value v) :
    s.value p = v := by
  have hGrid : (s.site f).grid = s.grid := rfl
  unfold Site.read at hRead
  unfold Sheet.value
  rw [hGrid] at hRead
  cases hCell : s.grid.get? p with
  | none =>
      rw [hCell] at hRead
      cases hRead
      rfl
  | some c =>
      rw [hCell] at hRead
      dsimp only at hRead
      split at hRead
      · split at hRead <;> cases hRead
      · cases hRead
        rfl

/- A cell cannot be read that a formula occupies which waits. -/
theorem read_of_pending
    {p : Point}
    {c : Cell}
    (hCell : s.grid.get? p = some c)
    (hOwner : c.owner? = some k)
    (hLive : s.formulas.get? k = some g)
    (hPending : g.isPending s.generation = true) :
    (s.site f).read p =
      if g.isCircular then .circular else .pending k := by
  have hGrid : (s.site f).grid = s.grid := rfl
  have hWaits : (s.site f).pending? c = some (k, g) := by
    simp [Site.pending?, hOwner, site, hLive, hPending]
  rw [Site.read, hGrid, hCell]
  dsimp only
  rw [hWaits]

/-
  What is read while a sheet is calculated again can be read
  before.
-/
theorem Retains.read
    (hOrderly : s.Orderly)
    (hRetains : s.Retains t)
    {p : Point}
    {v : Scalar}
    (hRead : (t.site g).read p = .value v) :
    (s.site f).read p = .value v := by
  have hShown := value_of_read hRead
  rw [hRetains.value] at hShown
  by_contra hNot
  have hNone : ∀ v, (s.site f).read p ≠ .value v := fun v' hThere =>
    hNot (hThere.trans (by rw [← hShown, value_of_read hThere]))
  rcases pending_of_read hNone with
    ⟨k, h, hLive, hPending, -, c, hCell, hOwner⟩
  have hBlocked : h.blocked = true := by
    simpa [FormulaCell.isPending, FormulaCell.isStale,
      (hOrderly.settled hLive).generation_eq] using hPending
  rcases hRetains.kept hLive with ⟨h', hh'⟩
  rcases hRetains.origin hh' with ⟨h₀, hh₀, hSame⟩
  rw [hLive, Option.some.injEq] at hh₀
  have hMark : h'.blocked = true := by
    rw [hSame, ← hh₀]
    exact hBlocked
  rw [← hRetains.cells] at hCell
  rw [read_of_pending hCell hOwner hh'
    (by simp [FormulaCell.isPending, hMark])] at hRead
  split at hRead <;> cases hRead

/- A formula sees at least as much before. -/
theorem Retains.later
    (hOrderly : s.Orderly)
    (hRetains : s.Retains t)
    (hRefs : g.refs = f.refs)
    (hLocation : g.location = f.location) :
    (t.site g).Later (s.site f) :=
  ⟨hRetains.size.symm,
    fun _ p => congrArg (Option.any _) (congrFun hRetains.cells.symm p),
    hRefs.symm, hLocation.symm, hRetains.read hOrderly⟩

theorem Alike.read
    (hAlike : s.Alike t)
    (f : FormulaCell)
    (p : Point) :
    (t.site f).read p = (s.site f).read p := by
  unfold Site.read Site.pending? site
  dsimp only
  rw [hAlike.cells, hAlike.formulas, hAlike.generation]
  cases s.grid.get? p with
  | none => rfl
  | some c =>
      have hScalar : c.scalar? t.formulas = c.scalar? s.formulas := by
        cases c with
        | formula j => simp [Cell.scalar?, hAlike.formulas]
        | value v => rfl
        | extension j v => rfl
      dsimp only
      rw [hScalar]

------------------------------------------------------------
-- Single Evaluations
------------------------------------------------------------

/- Storing what is shown already changes nothing. -/
theorem Holds.alike
    (hCoherent : s.Coherent)
    (hFits : s.size.Fits maxSize)
    (hLive : s.formulas.get? id = some g)
    {ev : Evaluation}
    {v : Scalar}
    (hHolds : s.Holds g ev.registers.offset ev.registers.extent v) :
    s.Alike (s.store id ev v) := by
  unfold Holds at hHolds
  unfold store
  dsimp only
  split at hHolds
  · rename_i hZero
    rcases hHolds with ⟨hExtent, hValue⟩
    rw [if_pos hZero, resize_same hLive hExtent]
    refine ⟨rfl, rfl, funext fun k => ?_, rfl⟩
    rw [get?_setValueOf]
    split
    · rename_i hSame
      rw [hSame, hLive, Option.map_some, ← hValue]
    · rfl
  · rename_i hLater
    rcases hHolds with ⟨hUsed, hPart⟩
    rw [if_neg hLater, hLive]
    dsimp only
    generalize
      g.location.add ev.registers.offset.toSize = p at hUsed hPart
    have hOn : maxSize.contains p = true := by
      rw [Size.contains_iff] at hUsed ⊢
      simp only [Size.Fits] at hFits
      omega
    refine ⟨Grid.size_change _ hUsed, ?_, rfl, rfl⟩
    have hRun :=
      congrArg Prod.fst
        (Grid.modifyCell_spec (Spill.lazy_write v) hCoherent.sound
          hOn ()).2
    refine hRun.trans ?_
    simp only [Script.visit]
    rw [Function.update_eq_self_iff]
    cases hCell : s.grid.get? p with
    | none => rfl
    | some c =>
        cases c with
        | value w => rfl
        | formula k => rfl
        | extension k w =>
            rw [hPart k w hCell]
            rfl

/- What holds before holds while it is calculated again. -/
theorem Retains.holds
    (hRetains : s.Retains t)
    (hSame :
      g = { f with
        generation := g.generation
        inProgress := g.inProgress })
    {offset : Point}
    {extent : Size}
    {v : Scalar}
    (hHolds : s.Holds f offset extent v) :
    t.Holds g offset extent v := by
  have hSize : t.size = s.size := hRetains.size
  unfold Holds at hHolds ⊢
  rw [hSame, hSize, hRetains.cells]
  exact hHolds

/- As many offsets are evaluated. -/
theorem Retains.offsetBound
    (hRetains : s.Retains t)
    (hProper : f.expr.Proper)
    (hRefs : g.refs = f.refs)
    (hLocation : g.location = f.location)
    (hExpr : g.expr = f.expr) :
    t.offsetBound g = s.offsetBound f := by
  unfold Sheet.offsetBound
  dsimp only
  rw [hExpr,
    Site.reach_eq
      (s := { s.site f with grid := s.grid.expand maxSize })
      (by simp only [Grid.expand, hRetains.size]) hRefs hLocation
      hProper]

/-
  A formula is evaluated again, from one offset on: it comes
  to what is shown, or it has to stop at a cell. By induction
  on the offsets that are left.
-/
theorem Retains.evaluateFrom
    (hOrderly : s.Orderly)
    (hFits : s.size.Fits maxSize)
    (hRetains : s.Retains t)
    (hLive : t.formulas.get? id = some g)
    (hSame :
      g = { f with
        generation := g.generation
        inProgress := g.inProgress })
    (hProper : f.expr.Proper)
    (hOpen :
      ∀ p, (t.site f).Reads f.expr p →
        (t.site f).read p ≠ .circular)
    (hAlike : t.Alike u)
    (hCoherent : u.Coherent)
    {n : Nat}
    {ev : Evaluation}
    (hReady : ev.Ready ((t.site f).Reads f.expr))
    (hRepeats :
      ∀ offset extent answer,
        (offset, extent, answer) ∈
            ev.answers (s.site f) id f.expr n →
          ∃ v, answer = .ready v ∧ s.Holds f offset extent v) :
    t.Alike (u.evaluateFrom id f n ev).2 ∧
      ((u.evaluateFrom id f n ev).1 = .finished ∨
        ∃ missing,
          (u.evaluateFrom id f n ev).1 = .interrupted missing ∧
            ∀ k ∈ missing, ∃ p, (t.site f).Reads f.expr p ∧
              (t.site f).read p = .pending k) := by
  induction n generalizing ev u with
  | zero => exact ⟨hAlike, Or.inl rfl⟩
  | succ n ih =>
      have hHere := hRetains.alike hAlike
      have hThere : u.formulas.get? id = some g := by
        rw [hAlike.formulas, hLive]
      have hUsed : u.size.Fits maxSize := by
        unfold Sheet.size at hFits ⊢
        rw [hHere.size]
        exact hFits
      have hAdvances :=
        Evaluation.advance_spec (s := u.site f) id hProper
          ((t.site f).Reads f.expr)
          (Site.Reads.congr (s := u.site f) (t := t.site f)
            hAlike.size.symm rfl rfl)
          hReady
      rw [Sheet.evaluateFrom]
      generalize hRound : ev.advance (u.site f) id f.expr = res
        at hAdvances
      cases hAdvances with
      | ready v hYields =>
          rename_i ev'
          -- the same scalar was found before
          have hBefore :
              ev.advance (s.site f) id f.expr = (.ready v, ev') := by
            rw [Evaluation.advance_later
              (hHere.later hOrderly rfl rfl) id hProper
              (by rw [hRound]), hRound]
          have hFound :
              s.Holds f ev'.registers.offset ev'.registers.extent
                v := by
            rcases
              hRepeats ev'.registers.offset ev'.registers.extent
                (.ready v) (by
                  rw [Evaluation.answers, hBefore]
                  exact List.mem_cons_self) with
              ⟨v', hEq, hHolds⟩
            cases hEq
            exact hHolds
          have hStored :=
            hAlike.trans
              ((hHere.holds hSame hFound).alike hCoherent hUsed hThere)
          dsimp only
          cases hNext : ev'.next? with
          | none => exact ⟨hStored, Or.inl rfl⟩
          | some ev'' =>
              have hLocation : f.location = g.location := by rw [hSame]
              refine
                ih hStored
                  (hCoherent.store hThere hLocation hProper hReady
                    hYields v).coherent
                  (Evaluation.ready_next? hYields hNext).1
                  fun offset extent answer hIn => ?_
              refine hRepeats offset extent answer ?_
              rw [Evaluation.answers, hBefore]
              dsimp only
              rw [hNext]
              exact List.mem_cons_of_mem _ hIn
      | circular _ hReads hRead =>
          rw [hAlike.read] at hRead
          exact absurd hRead (hOpen _ hReads)
      | waiting hSome hIds =>
          refine ⟨hAlike, Or.inr ⟨_, rfl, fun k hk => ?_⟩⟩
          rcases hIds k hk with ⟨p, hReads, hRead⟩
          rw [hAlike.read] at hRead
          exact ⟨p, hReads, hRead⟩

/- The marks of a formula have changed, but it is as blocked. -/
theorem Retains.marked
    (hRetains : s.Retains t)
    (hSize : u.grid.size = t.grid.size)
    (hCells : u.grid.get? = t.grid.get?)
    {change : FormulaCell → FormulaCell}
    (hTable :
      ∀ k, u.formulas.get? k =
        if k = id then (t.formulas.get? k).map change
        else t.formulas.get? k)
    (hChange :
      ∀ g, t.formulas.get? id = some g →
        change g = { g with
          generation := (change g).generation
          inProgress := (change g).inProgress }) :
    s.Retains u := by
  refine
    ⟨hSize.trans hRetains.size, hCells.trans hRetains.cells,
      fun {k g} hLive => ?_, fun {k f} hLive => ?_⟩
  · rw [hTable] at hLive
    split at hLive
    · rename_i hEq
      rw [Option.map_eq_some_iff] at hLive
      rcases hLive with ⟨h, hh, rfl⟩
      rcases hRetains.origin hh with ⟨f, hf, hSame⟩
      refine ⟨f, hf, ?_⟩
      rw [hChange h (hEq ▸ hh), hSame]
    · exact hRetains.origin hLive
  · rcases hRetains.kept hLive with ⟨g, hg⟩
    rw [hTable]
    split
    · exact ⟨_, by rw [hg]; rfl⟩
    · exact ⟨g, hg⟩

theorem Retains.begun
    (hRetains : s.Retains t)
    (id : Handle) :
    s.Retains (t.begun id) :=
  hRetains.marked rfl rfl (get?_begun t id) fun _ _ => rfl

/- A formula that was refused is refused again. -/
theorem Retains.evaluate_refused
    (hOrderly : s.Orderly)
    (hRetains : s.Retains t)
    (hLive : t.formulas.get? id = some g)
    (hOne : g.extent = Size.one)
    (hValue : g.value = .error .badReference)
    (hProper : f.expr.Proper)
    (hCircular :
      (Evaluation.start.advance (s.site f) id f.expr).1 =
        .circular) :
    t.Alike (t.evaluate id f).2 ∧
      ((t.evaluate id f).1 = .circular ∨
        ∃ missing, (t.evaluate id f).1 = .interrupted missing ∧
          ∀ k ∈ missing, ∃ p, (t.site f).Reads f.expr p ∧
            (t.site f).read p = .pending k) := by
  have hSome : 0 < t.offsetBound f :=
    Nat.lt_of_lt_of_le Nat.one_pos (le_max_left _ _)
  rcases Nat.exists_eq_add_of_lt hSome with ⟨n, hBound⟩
  rw [Nat.zero_add] at hBound
  rw [evaluate, hBound, Sheet.evaluateFrom]
  have hAdvances :=
    Evaluation.advance_spec (s := t.site f) id hProper
      ((t.site f).Reads f.expr) (fun h => h)
      (Evaluation.ready_start _)
  generalize hRound :
    Evaluation.start.advance (t.site f) id f.expr = res at hAdvances
  cases hAdvances with
  | ready v hYields =>
      -- it would have had a result before
      rw [Evaluation.advance_later (hRetains.later hOrderly rfl rfl) id
        hProper (by rw [hRound]), hRound] at hCircular
      cases hCircular
  | circular _ hReads hRead =>
      dsimp only
      rw [collapse_single hLive hOne]
      refine ⟨⟨rfl, rfl, funext fun k => ?_, rfl⟩, Or.inl rfl⟩
      rw [get?_setValueOf]
      split
      · rename_i hEq
        rw [hEq, hLive, Option.map_some, ← hValue]
      · rfl
  | waiting hSome hIds =>
      exact ⟨alike_refl t, Or.inr ⟨_, rfl, hIds⟩⟩

------------------------------------------------------------
-- Passes
------------------------------------------------------------

/-
  In the middle of another calculation. All formulas that have
  been begun use the current one, maybe through others.
-/
structure Again
    (s : Sheet)
    (done todo : List Handle)
    (t : Sheet) : Prop where
  pass : Pass done todo t
  retains : s.Retains t
  waits :
    todo.Pairwise fun k j =>
      t.Begun j → Relation.TransGen s.Uses j k

variable {done todo : List Handle}

/- At the beginning nothing has been begun. -/
theorem Orderly.again
    (hOrderly : s.Orderly) :
    ∃ todo, s.formulas.Listed todo ∧
      s.Again [] todo { s with generation := !s.generation } := by
  rcases hOrderly.pass with ⟨todo, hListed, hPass⟩
  refine
    ⟨todo, hListed, hPass,
      ⟨rfl, rfl, fun hLive => ⟨_, hLive, rfl⟩,
        fun hLive => ⟨_, hLive⟩⟩, ?_⟩
  refine List.pairwise_of_forall fun k j hBegun => ?_
  rcases hBegun with ⟨f, hLive, hBegun⟩
  have hIdle := (hOrderly.settled hLive).idle
  rw [hIdle] at hBegun
  cases hBegun

namespace Again

/- What the current formula cannot read, it uses. -/
theorem uses
    (hAgain : s.Again done todo t)
    (hLive : t.formulas.get? id = some f)
    {p : Point}
    (hReads : ((t.begun id).site f).Reads f.expr p)
    {c : Cell}
    (hCell : (t.begun id).grid.get? p = some c)
    (hOwner : c.owner? = some k) :
    s.Uses id k := by
  have hRetains := hAgain.retains
  rcases hRetains.origin hLive with ⟨f₀, hf₀, hSame⟩
  refine ⟨f₀, p, c, hf₀, ?_, ?_, hOwner⟩
  · rw [hSame] at hReads
    exact
      Site.Reads.congr (s := (t.begun id).site f₀) (t := s.site f₀)
        hRetains.size.symm rfl rfl hReads
  · rw [← hRetains.cells]
    exact hCell

/- The current formula reads no cell that is part of a cycle. -/
theorem not_circular
    (hRest : s.AtRest)
    (hAgain : s.Again done (id :: todo) t)
    (hLive : t.formulas.get? id = some f)
    (hFree : f.blocked = false)
    {p : Point}
    (hReads : ((t.begun id).site f).Reads f.expr p) :
    ((t.begun id).site f).read p ≠ .circular := by
  intro hRead
  have hRetains := hAgain.retains
  have hNot : ¬ s.Blocked id := by
    rintro ⟨f₀, hf₀, hMark⟩
    rcases hRetains.origin hLive with ⟨f', hf', hSame⟩
    rw [hf₀, Option.some.injEq] at hf'
    rw [hSame, ← hf', hMark] at hFree
    cases hFree
  rcases pending_of_read (fun v => by rw [hRead]; simp) with
    ⟨k, g, hThere, -, hWhy, c, hCell, hOwner⟩
  have hEdge := hAgain.uses hLive hReads hCell hOwner
  have hCircular : g.inProgress = true ∨ g.blocked = true := by
    rw [hRead] at hWhy
    split at hWhy
    · rename_i hClosed
      simpa [FormulaCell.isCircular] using hClosed
    · cases hWhy
  rcases hCircular with hBegun | hMark
  · -- it uses the current formula, which is part of a cycle then
    by_cases hEq : k = id
    · rw [hEq] at hEdge
      exact hNot (hRest.acyclic id (.single hEdge))
    · rw [get?_begun, if_neg hEq] at hThere
      have hIn : k ∈ done ++ id :: todo := by
        rw [← hAgain.pass.listed.isSome_get?_iff, hThere]
        rfl
      rcases List.mem_append.mp hIn with hDone | hTodo
      · rw [(hAgain.pass.current hDone hThere).2] at hBegun
        cases hBegun
      · have hLater : k ∈ todo := by simpa [hEq] using hTodo
        have hBack :=
          (List.pairwise_cons.mp hAgain.waits).1 k hLater
            ⟨g, hThere, hBegun⟩
        exact hNot (hRest.acyclic id (hBack.head hEdge))
  · rcases (hRetains.begun id).origin hThere with ⟨g₀, hg₀, hSame⟩
    rw [hSame] at hMark
    exact hNot (hRest.apart id k hEdge ⟨g₀, hg₀, hMark⟩)

/-
  The current formula comes to what is shown, or it needs
  others that it uses.
-/
theorem ends
    (hRest : s.AtRest)
    (hOrderly : s.Orderly)
    (hFits : s.size.Fits maxSize)
    (hAgain : s.Again done (id :: todo) t)
    (hLive : t.formulas.get? id = some f) :
    (t.begun id).Alike ((t.begun id).evaluate id f).2 ∧
      (((t.begun id).evaluate id f).1 =
          (if f.blocked then .circular else .finished) ∨
        ∃ missing,
          ((t.begun id).evaluate id f).1 = .interrupted missing ∧
            ∀ k ∈ missing, s.Uses id k) := by
  have hRetains := hAgain.retains.begun id
  have hProper := hAgain.pass.proper hLive
  have hBegun :
      (t.begun id).formulas.get? id =
        some (f.setInProgress true) := by
    rw [get?_begun, if_pos rfl, hLive]
    rfl
  rcases hAgain.retains.origin hLive with ⟨f₀, hf₀, hSame⟩
  have hUses :
      ∀ {k p}, ((t.begun id).site f).Reads f.expr p →
        ((t.begun id).site f).read p = .pending k → s.Uses id k := by
    intro k p hReads hRead
    rcases awaited_of_read hRead with ⟨-, -, -, c, hCell, hOwner⟩
    exact hAgain.uses hLive hReads hCell hOwner
  -- the formula says what it said before
  have hSite : s.site f = s.site f₀ := by
    rw [hSame]
    rfl
  have hExpr : f.expr = f₀.expr := by rw [hSame]
  cases hMark : f.blocked with
  | true =>
      have hMark₀ : f₀.blocked = true := by rwa [hSame] at hMark
      rcases hRest.refused id f₀ hf₀ hMark₀ with
        ⟨hOne, hValue, hCircular⟩
      rw [← hSite, ← hExpr] at hCircular
      have hAgainRefused :=
        hRetains.evaluate_refused hOrderly hBegun
          (by rw [hSame]; exact hOne) (by rw [hSame]; exact hValue)
          hProper hCircular
      refine ⟨hAgainRefused.1, hAgainRefused.2.imp_right ?_⟩
      rintro ⟨missing, hEnd, hMissing⟩
      refine ⟨missing, hEnd, fun k hk => ?_⟩
      rcases hMissing k hk with ⟨p, hReads, hRead⟩
      exact hUses hReads hRead
  | false =>
      have hMark₀ : f₀.blocked = false := by rwa [hSame] at hMark
      have hRepeats : s.Repeats id f := by
        rw [hSame]
        exact hRest.repeats id f₀ hf₀ hMark₀
      have hBound : (t.begun id).offsetBound f = s.offsetBound f :=
        hRetains.offsetBound hProper rfl rfl rfl
      rw [evaluate, hBound]
      have hEnds :=
        hRetains.evaluateFrom hOrderly hFits hBegun rfl hProper
          (fun p => hAgain.not_circular hRest hLive hMark)
          (alike_refl _) (hAgain.pass.coherent.begun id)
          (Evaluation.ready_start _) hRepeats
      refine ⟨hEnds.1, hEnds.2.imp_right ?_⟩
      rintro ⟨missing, hEnd, hMissing⟩
      refine ⟨missing, hEnd, fun k hk => ?_⟩
      rcases hMissing k hk with ⟨p, hReads, hRead⟩
      exact hUses hReads hRead

/-
  One step of a calculation: what is shown stays as it is.
-/
theorem step
    (hRest : s.AtRest)
    (hOrderly : s.Orderly)
    (hFits : s.size.Fits maxSize)
    (hAgain : s.Again done (id :: todo) t)
    (hLive : t.formulas.get? id = some f)
    {n : Nat}
    (hCount : 0 < n) :
    ∃ done' todo',
      s.Again done' todo' (t.recalculateOne id f).2 ∧
        (t.recalculateOne id f).1 = todo'.head? ∧
        effort n todo' (t.recalculateOne id f).2 <
          effort n (id :: todo) t := by
  have hEnds := hAgain.ends hRest hOrderly hFits hLive
  have hEvaluated := hAgain.pass.evaluate hLive
  have hNotTodo : id ∉ todo :=
    (List.nodup_cons.mp
      hAgain.pass.listed.threads.nodup.of_append_right).1
  have hBegun :
      (t.begun id).formulas.get? id =
        some (f.setInProgress true) := by
    rw [get?_begun, if_pos rfl, hLive]
    rfl
  rw [recalculateOne_eq]
  generalize (t.begun id).evaluate id f = res at hEnds hEvaluated
  rcases res with ⟨verdict, u⟩
  rcases hEvaluated with ⟨hChanged, hFair⟩
  rcases hEnds with ⟨hAlike, hVerdict⟩
  dsimp only at hChanged hFair hAlike hVerdict ⊢
  have hRetains : s.Retains u := (hAgain.retains.begun id).alike hAlike
  have hFinish :
      ∃ done' todo',
        s.Again done' todo' (u.finish id f.blocked).2 ∧
          (u.finish id f.blocked).1 = todo'.head? ∧
          effort n todo' (u.finish id f.blocked).2 <
            effort n (id :: todo) t := by
    rcases hAgain.pass.finish hLive hChanged f.blocked hCount with
      ⟨hPass, hHead, hLess⟩
    refine ⟨_, _, ⟨hPass, ?_, ?_⟩, hHead, hLess⟩
    · refine
        hRetains.marked rfl rfl (get?_finish u id · f.blocked)
          fun g hg => ?_
      rw [hAlike.formulas, hBegun, Option.some.injEq] at hg
      rw [← hg]
      rfl
    · refine
        hAgain.waits.of_cons.imp_of_mem fun {k j} _ hj hWaits => ?_
      have hNe : j ≠ id := fun hEq => hNotTodo (hEq ▸ hj)
      rw [Begun, get?_finish, if_neg hNe, hAlike.formulas, get?_begun,
        if_neg hNe]
      exact hWaits
  rcases hVerdict with hResult | ⟨missing, hResult, hUses⟩
  · rw [hResult]
    cases hMark : f.blocked with
    | true =>
        rw [hMark] at hFinish
        exact hFinish
    | false =>
        rw [hMark] at hFinish
        exact hFinish
  · rw [hResult] at hFair ⊢
    rcases hFair with ⟨hSome, hAwaited⟩
    rcases hAgain.pass.interrupt hLive hChanged hSome hAwaited n with
      ⟨hIn, hPass, hHead, hTable, hLess⟩
    have hConclude :
        u.conclude id (.interrupted missing) =
          u.interrupted id missing := by
      cases missing with
      | nil => exact absurd rfl hSome
      | cons k missing => rfl
    have hOrder :
        ∀ j, (u.interrupted id missing).2.formulas.get? j =
          u.formulas.get? j := hTable
    rw [hConclude]
    refine ⟨_, _, ⟨hPass, ?_, ?_⟩, hHead.symm, hLess⟩
    · exact hRetains.alike ⟨rfl, rfl, funext hTable, rfl⟩
    · refine
        waits_bringForward
          (fun k hk => List.mem_cons_of_mem _ (hIn k hk)) hUses
          hAgain.waits fun j hj hBegun => ?_
      have hNe : j ≠ id := fun hEq => hNotTodo (hEq ▸ hj)
      rw [Begun, hOrder, hAlike.formulas, get?_begun, if_neg hNe]
        at hBegun
      exact hBegun

end Again

------------------------------------------------------------
-- Whole Calculations
------------------------------------------------------------

/- Another calculation of a sheet at rest changes nothing. -/
theorem AtRest.recalculate
    (hRest : s.AtRest)
    (hOrderly : s.Orderly)
    (hFits : s.size.Fits maxSize) :
    s.Retains s.recalculate := by
  rcases hOrderly.again with ⟨todo, hListed, hStart⟩
  have hLasts : Lasts s.formulas.size s.Again := by
    refine ⟨Again.pass, fun hAgain hLive => ?_⟩
    refine hAgain.step hRest hOrderly hFits hLive ?_
    rcases hAgain.retains.origin hLive with ⟨f, hf, -⟩
    rw [hListed.size_eq, List.length_pos_iff_exists_mem]
    exact
      ⟨_, (hListed.isSome_get?_iff _).mp
        (Option.isSome_iff_exists.mpr ⟨f, hf⟩)⟩
  have hFuel :=
    effort_le_stepBound
      (s := { s with generation := !s.generation }) hListed
  rcases hLasts.run hStart hFuel with ⟨done, hEnd, -⟩
  rw [← hListed.first?_eq] at hEnd
  exact hEnd.retains

------------------------------------------------------------
-- Results With One Cell
------------------------------------------------------------

/- A formula with one cell is evaluated once. -/
theorem Finds.answers_eq
    {v : Scalar}
    (hFinds : s.Finds id f v)
    (hProper : f.expr.Proper)
    (hRoot : (s.site f).extent f.expr = Size.one)
    (n : Nat) :
    Evaluation.start.answers (s.site f) id f.expr (n + 1) =
      [(Point.zero, Size.one, .ready v)] := by
  rcases hFinds with ⟨ev, hRound, -, hLast⟩
  have hAdvances :=
    Evaluation.advance_spec (s := s.site f) id hProper
      ((s.site f).Reads f.expr) (fun h => h)
      (Evaluation.ready_start _)
  rw [hRound] at hAdvances
  cases hAdvances with
  | ready _ hYields =>
      have hExtent : ev.registers.extent = Size.one := by
        rw [hYields.extent]
        change (s.site f).reserve id ((s.site f).extent f.expr) = _
        rw [hRoot]
        rfl
      have hOffset : ev.registers.offset = Point.zero :=
        hYields.offset
      rw [Evaluation.answers, hRound]
      dsimp only
      rw [hLast, hExtent, hOffset]

/-
  The end of a calculation in which all results have one cell,
  if those that are blocked are refused again.
-/
theorem Halfway.atRest
    (hSingle : s.Single)
    (hEnd : s.Halfway done [] t)
    (hRefused :
      ∀ id f, t.formulas.get? id = some f → f.blocked = true →
        (Evaluation.start.advance (t.site f) id f.expr).1 =
          .circular)
    (hApart : ∀ id k, s.Refers id k → t.Blocked k → t.Blocked id)
    (hAcyclic :
      ∀ id, Relation.TransGen s.Refers id id → t.Blocked id) :
    t.AtRest := by
  have hEdge : ∀ {id k}, t.Uses id k → s.Refers id k := by
    rintro id k ⟨f, p, c, hLive, hReads, hCell, hOwner⟩
    exact
      refers_of_owner hSingle hEnd.pass.coherent hEnd.grid
        (fun hLive => hEnd.unchanged hLive) hLive hReads hCell hOwner
  refine
    ⟨fun id f hLive hFree => ?_, fun id f hLive hMark => ?_,
      fun id k hUses => hApart id k (hEdge hUses), fun id hCycle => ?_⟩
  · rcases hEnd.unchanged hLive with
      ⟨f₀, hf₀, hExpr, hRefs, hLocation, hExtent⟩
    rcases hSingle id f₀ hf₀ with ⟨hOne, hRoot⟩
    have hProper := hEnd.pass.proper hLive
    have hRoot' : (t.site f).extent f.expr = Size.one := by
      rw [Site.extent_eq (s := s.site f₀) hRefs hLocation
        (congrArg Grid.size hEnd.grid) hProper, hExpr]
      exact hRoot
    have hFinds := hEnd.found (hEnd.mem_done hLive) hLive hFree
    have hSome : 0 < t.offsetBound f :=
      Nat.lt_of_lt_of_le Nat.one_pos (le_max_left _ _)
    intro offset extent answer hIn
    rcases Nat.exists_eq_add_of_lt hSome with ⟨n, hBound⟩
    rw [hBound, Nat.zero_add, hFinds.answers_eq hProper hRoot' n,
      List.mem_singleton, Prod.mk.injEq, Prod.mk.injEq] at hIn
    rcases hIn with ⟨rfl, rfl, rfl⟩
    refine ⟨f.value, rfl, ?_⟩
    rw [Holds, if_pos rfl]
    exact ⟨hExtent.trans hOne, rfl⟩
  · rcases hEnd.unchanged hLive with ⟨f₀, hf₀, -, -, -, hExtent⟩
    exact
      ⟨hExtent.trans (hSingle id f₀ hf₀).1,
        (hEnd.stuck (hEnd.mem_done hLive) hLive hMark).1,
        hRefused id f hLive hMark⟩
  · refine hAcyclic id ?_
    exact Relation.TransGen.mono (fun _ _ => hEdge) _ _ hCycle

/- Without marks and cycles nothing is blocked. -/
theorem Orderly.atRest_of_acyclic
    (hOrderly : s.Orderly)
    (hSingle : s.Single)
    (hFree : ∀ id, ¬ s.Blocked id)
    (hAcyclic : ∀ id, ¬ Relation.TransGen s.Refers id id) :
    s.recalculate.AtRest := by
  rcases hOrderly.halfway with ⟨todo, -, hStart⟩
  rcases (hStart.recalculate hOrderly hSingle).1 with ⟨done, hEnd⟩
  have hNone : ∀ id, ¬ s.recalculate.Blocked id := by
    intro id hBlocked
    rcases
      hOrderly.reachesCycle_of_blocked hSingle
        (fun k hMark => absurd hMark (hFree k)) hBlocked with
      ⟨k, -, hCycle⟩
    exact hAcyclic k hCycle
  refine
    hEnd.atRest hSingle (fun id f hLive hMark => ?_)
      (fun id k _ hBlocked => absurd hBlocked (hNone k))
      fun id hCycle => absurd hCycle (hAcyclic id)
  exact absurd ⟨f, hLive, hMark⟩ (hNone id)

/- Over single cells, what reaches a cycle is refused. -/
theorem Orderly.atRest_of_restful
    (hOrderly : s.Orderly)
    (hFits : s.size.Fits maxSize)
    (hRestful : s.Restful) :
    s.recalculate.AtRest := by
  have hSingle := hOrderly.single_of_cellwise hRestful.cellwise
  rcases hOrderly.halfway with ⟨todo, -, hStart⟩
  rcases (hStart.recalculate hOrderly hSingle).1 with ⟨done, hEnd⟩
  have hReaches :
      ∀ {id}, s.recalculate.Blocked id → s.ReachesCycle id :=
    hOrderly.reachesCycle_of_blocked hSingle hRestful.marks
  have hBlocks :
      ∀ {id}, s.ReachesCycle id → s.recalculate.Blocked id := by
    intro id hCycle
    rcases hCycle.next with ⟨-, ⟨f, -, hf, -⟩, -⟩
    rcases hEnd.kept hOrderly hf with ⟨g, hg, -⟩
    rcases hOrderly.calculated hFits hRestful hg with
      ⟨hMark, -⟩ | ⟨-, -, hNot⟩
    · exact ⟨g, hg, hMark⟩
    · exact absurd hCycle hNot
  refine
    hEnd.atRest hSingle (fun id f hLive hMark => ?_)
      (fun id k hEdge hBlocked =>
        hBlocks ((hReaches hBlocked).head hEdge))
      fun id hCycle => hBlocks ⟨id, .refl, hCycle⟩
  rcases (hReaches ⟨f, hLive, hMark⟩).next with ⟨k, hEdge, hRest⟩
  rcases hBlocks hRest with ⟨h, hh, hClosed⟩
  rcases hEnd.refers_of_refers hOrderly hEdge with
    ⟨f', h', hf', hh', hReads⟩
  rw [hLive, Option.some.injEq] at hf'
  rw [hh, Option.some.injEq] at hh'
  rw [← hf', ← hh'] at hReads
  -- the cell of a blocked formula is read
  have hRead :
      (s.recalculate.site f).read h.location = .circular := by
    rcases Slot.formula?_eq_some_iff.mp
        (hEnd.pass.coherent.agrees.held hh (by simp)) with hCell
    rw [read_of_formula hCell hh]
    simp [FormulaCell.isPending, FormulaCell.isCircular, hClosed]
  rcases hEnd.unchanged hLive with ⟨f₀, hf₀, hExpr, hRefs, -, -⟩
  have hHere : f.expr.isCellwise f.refs = true := by
    rw [hExpr, hRefs]
    exact (hRestful.cellwise _ _ hf₀).2
  have hProper := hEnd.pass.proper hLive
  have hAdvances :=
    Evaluation.advance_spec (s := s.recalculate.site f) id hProper
      ((s.recalculate.site f).Reads f.expr) (fun h => h)
      (Evaluation.ready_start _)
  generalize hRound :
    Evaluation.start.advance (s.recalculate.site f) id f.expr = res
    at hAdvances
  cases hAdvances with
  | ready v hYields =>
      rcases
        Site.shown_of_ready (s := s.recalculate.site f) hProper hHere
          hRound h.location hReads with
        ⟨w, hShown⟩
      rw [hRead] at hShown
      cases hShown
  | circular _ _ _ => rfl
  | waiting hSome hIds =>
      rcases List.exists_mem_of_ne_nil _ hSome with ⟨j, hj⟩
      rcases hIds j hj with ⟨p, -, hAwaited⟩
      rcases awaited_of_read hAwaited with ⟨g, hg, hWaits, -⟩
      exact
        absurd (hEnd.pass.current (hEnd.mem_done hg) hg).1 hWaits.stale

------------------------------------------------------------
-- Calculations That Are Repeated
------------------------------------------------------------

/-
  A calculation that has brought a sheet to rest can be
  repeated, and nothing changes. It brings a sheet to rest
  whose formulas are over single cells, and one whose results
  have one cell each and that has no cycles, unless marks of
  earlier calculations are left.
-/
theorem recalculates_once
    {config : SheetConfig}
    (hCalls : Calls (new config) s)
    (hReturns : s.recalculate.size.Fits maxSize)
    (hRest :
      s.recalculate.AtRest ∨ s.Restful ∨
        s.Single ∧ (∀ id, ¬ s.Blocked id) ∧
          ∀ id, ¬ Relation.TransGen s.Refers id id) :
    (∀ p,
      s.recalculate.recalculate.value p = s.recalculate.value p) ∧
      (∀ id,
        (s.recalculate.recalculate.formulas.get? id).map
            (fun f => (f.extent, f.blocked)) =
          (s.recalculate.formulas.get? id).map
            fun f => (f.extent, f.blocked)) ∧
      s.recalculate.recalculate.size = s.recalculate.size := by
  rcases
    hCalls.orderly (orderly_new config)
      ⟨Nat.zero_le _, Nat.zero_le _⟩ with
    ⟨hOrderly, hFits⟩
  have hAtRest : s.recalculate.AtRest := by
    rcases hRest with hRest | hRestful | ⟨hSingle, hFree, hAcyclic⟩
    · exact hRest
    · exact hOrderly.atRest_of_restful hFits hRestful
    · exact hOrderly.atRest_of_acyclic hSingle hFree hAcyclic
  have hRetains :=
    hAtRest.recalculate hOrderly.recalculate.1 hReturns
  refine ⟨hRetains.value, fun id => ?_, hRetains.size⟩
  cases hLive : s.recalculate.formulas.get? id with
  | some f =>
      rcases hRetains.kept hLive with ⟨g, hg⟩
      rcases hRetains.origin hg with ⟨f', hf', hSame⟩
      rw [hLive, Option.some.injEq] at hf'
      rw [hg, hSame, hf']
      rfl
  | none =>
      cases hThere : s.recalculate.recalculate.formulas.get? id with
      | none => rfl
      | some g =>
          rcases hRetains.origin hThere with ⟨f, hf, -⟩
          rw [hLive] at hf
          cases hf

/- Every formula of the list gives what is shown, or is refused. -/
def isRepeated (s : Sheet) : Bool :=
  s.formulas.handles.all fun id =>
    (s.formulas.get? id).all fun f =>
      if f.blocked then
        f.extent == Size.one && f.value == .error .badReference &&
          (Evaluation.start.advance (s.site f) id f.expr).1 ==
            .circular
      else
        (Evaluation.start.answers (s.site f) id f.expr
          (s.offsetBound f)).all fun a =>
            if a.1 = Point.zero then
              f.extent == a.2.1 && a.2.2 == .ready f.value
            else
              s.size.contains (f.location.add a.1.toSize) &&
                a.2.2 ==
                  .ready (s.value (f.location.add a.1.toSize))

/- Which formulas of the list use which others. -/
def usage (s : Sheet) : List (Handle × Handle) :=
  (s.formulas.handles.product s.formulas.handles).filter fun e =>
    (s.formulas.get? e.1).any fun f =>
      f.expr.referenceIndices.any fun i =>
        (f.refs[i]?).any fun r =>
          r.onSheet f.location &&
            (r.toRect? f.location (s.grid.size.sup Size.one)).any
              (·.any fun p =>
                (s.grid.get? p).any (·.owner? == some e.2))

theorem Orderly.mem_usage
    (hOrderly : s.Orderly)
    (hUses : s.Uses id k) :
    (id, k) ∈ s.usage := by
  rcases hUses with
    ⟨f, p, c, hLive, ⟨i, hIndex, r, hRef, hOn, a, hRect, hIn⟩, hCell,
      hOwner⟩
  rcases hOrderly.toCoherent.live_of_owner hCell hOwner with ⟨g, hg⟩
  rw [usage, List.mem_filter]
  refine
    ⟨List.pair_mem_product.mpr
      ⟨hOrderly.mem_handles hLive, hOrderly.mem_handles hg⟩, ?_⟩
  change f.refs[i]? = some r at hRef
  change r.onSheet f.location = true at hOn
  change
    r.toRect? f.location (s.grid.size.sup Size.one) = some a at hRect
  dsimp only
  rw [hLive, Option.any_some, List.any_eq_true]
  refine ⟨i, hIndex, ?_⟩
  rw [hRef, Option.any_some, hOn, hRect, Option.any_some,
    Bool.true_and, Rect.any_eq_true_iff]
  refine ⟨p, hIn, ?_⟩
  rw [hCell, Option.any_some, hOwner]
  exact beq_self_eq_true _

theorem Orderly.atRest_of_isRepeated
    (hOrderly : s.Orderly)
    (hAll : s.isRepeated = true)
    (hApart : ∀ id k, s.Uses id k → s.Blocked k → s.Blocked id)
    (hAcyclic : ∀ id, Relation.TransGen s.Uses id id → s.Blocked id) :
    s.AtRest := by
  have hEach := fun {id f} (hLive : s.formulas.get? id = some f) =>
    (Option.all_eq_true _ _).mp
      (List.all_eq_true.mp hAll id (hOrderly.mem_handles hLive)) f hLive
  refine
    ⟨fun id f hLive hFree offset extent answer hIn => ?_,
      fun id f hLive hMark => ?_, hApart, hAcyclic⟩
  · have hHere := hEach hLive
    rw [if_neg (by simp [hFree])] at hHere
    have hAnswer := List.all_eq_true.mp hHere _ hIn
    unfold Holds
    split at hAnswer
    · rename_i hZero
      rw [Bool.and_eq_true, beq_iff_eq, beq_iff_eq] at hAnswer
      refine ⟨f.value, hAnswer.2, ?_⟩
      rw [if_pos hZero]
      exact ⟨hAnswer.1, rfl⟩
    · rename_i hLater
      rw [Bool.and_eq_true, beq_iff_eq] at hAnswer
      refine ⟨_, hAnswer.2, ?_⟩
      rw [if_neg hLater]
      refine ⟨hAnswer.1, fun k w hCell => ?_⟩
      rw [value, hCell]
      rfl
  · have hHere := hEach hLive
    rw [if_pos hMark] at hHere
    simpa [and_assoc] using hHere

/- A column, a formula that reads from it, and a cycle. -/
theorem recalculates_once_column :
    ∃ s t u, (new ⟨false, 15, 64⟩).setFormula ⟨0, 0⟩
          ['{', 'T', 'R', 'U', 'E', ';', 'F', 'A', 'L', 'S', 'E', '}'] =
        .ok s ∧
      s.setFormula ⟨1, 0⟩ ['A', '2'] = .ok t ∧
      t.setFormula ⟨2, 0⟩ ['C', '1'] = .ok u ∧
      u.recalculate.AtRest ∧ u.recalculate.Blocked ⟨2, 0⟩ ∧
      u.recalculate.recalculate.size = ⟨3, 2⟩ ∧
      u.recalculate.recalculate.value ⟨0, 1⟩ = .bool false ∧
      u.recalculate.recalculate.value ⟨1, 0⟩ = .bool false := by
  have hRun :
      ∃ s t u, (new ⟨false, 15, 64⟩).setFormula ⟨0, 0⟩
            ['{', 'T', 'R', 'U', 'E', ';', 'F', 'A', 'L', 'S', 'E',
              '}'] =
          .ok s ∧
        s.setFormula ⟨1, 0⟩ ['A', '2'] = .ok t ∧
        t.setFormula ⟨2, 0⟩ ['C', '1'] = .ok u ∧
        ([s.size, t.size, u.size, u.recalculate.size],
            u.recalculate.isRepeated, u.recalculate.usage,
            (u.recalculate.formulas.get? ⟨0, 0⟩).map (·.blocked),
            (u.recalculate.formulas.get? ⟨2, 0⟩).map (·.blocked),
            [u.recalculate.value ⟨0, 1⟩,
              u.recalculate.value ⟨1, 0⟩]) =
          ([⟨1, 1⟩, ⟨2, 1⟩, ⟨3, 1⟩, ⟨3, 2⟩], true,
            [(⟨1, 0⟩, ⟨0, 0⟩), (⟨2, 0⟩, ⟨2, 0⟩)], some false,
            some true, [.bool false, .bool false]) :=
    ⟨_, _, _, rfl, rfl, rfl, by cbv⟩
  rcases hRun with ⟨s, t, u, hFirst, hSecond, hThird, hShows⟩
  simp only [Prod.mk.injEq, List.cons.injEq,
    Option.map_eq_some_iff] at hShows
  rcases hShows with
    ⟨⟨hSize₁, hSize₂, hSize₃, hSize₄, -⟩, hAll, hUsage,
      ⟨f, hf, hFree⟩, hBlocked, hBelow, hRight, -⟩
  have hCalls : Calls (new ⟨false, 15, 64⟩) u := by
    refine .call (.call (.call (.refl _)
      (.setFormula ⟨0, 0⟩ _) hFirst ?_)
      (.setFormula ⟨1, 0⟩ _) hSecond ?_)
      (.setFormula ⟨2, 0⟩ _) hThird ?_
    · rw [hSize₁]
      decide
    · rw [hSize₂]
      decide
    · rw [hSize₃]
      decide
  have hReturns : u.recalculate.size.Fits maxSize := by
    rw [hSize₄]
    decide
  have hOrderly := (orderly_of_calls hCalls).recalculate.1
  have hUses :
      ∀ {j k}, u.recalculate.Uses j k →
        j = ⟨1, 0⟩ ∧ k = ⟨0, 0⟩ ∨ j = ⟨2, 0⟩ ∧ k = ⟨2, 0⟩ := by
    intro j k hEdge
    have hIn := hOrderly.mem_usage hEdge
    rw [hUsage] at hIn
    simpa using hIn
  have hRest : u.recalculate.AtRest := by
    refine
      hOrderly.atRest_of_isRepeated hAll (fun j k hEdge hMark => ?_)
        fun j hCycle => ?_
    · rcases hUses hEdge with ⟨rfl, rfl⟩ | ⟨rfl, rfl⟩
      · rcases hMark with ⟨g, hg, hMark⟩
        rw [hf, Option.some.injEq] at hg
        rw [← hg, hFree] at hMark
        cases hMark
      · exact hMark
    · rcases Relation.TransGen.head'_iff.mp hCycle with
        ⟨k, hEdge, hBack⟩
      rcases hUses hEdge with ⟨rfl, rfl⟩ | ⟨rfl, rfl⟩
      · -- the column uses nothing
        rcases Relation.ReflTransGen.cases_head hBack with
          hEq | ⟨l, hNext, -⟩
        · cases hEq
        · rcases hUses hNext with ⟨hEq, -⟩ | ⟨hEq, -⟩ <;> cases hEq
      · exact hBlocked
  rcases recalculates_once hCalls hReturns (Or.inl hRest) with
    ⟨hValue, -, hSize⟩
  refine
    ⟨s, t, u, hFirst, hSecond, hThird, hRest, hBlocked,
      hSize.trans hSize₄, (hValue _).trans hBelow,
      (hValue _).trans hRight⟩

/-
  A mark of an earlier calculation blocks a formula only once,
  so that another calculation gives it another value.
-/
theorem recalculates_twice :
    ∃ s t u, (new ⟨false, 15, 64⟩).setFormula ⟨0, 0⟩ ['B', '1'] =
          .ok s ∧
      s.setFormula ⟨1, 0⟩ ['A', '1'] = .ok t ∧
      t.recalculate.setFormula ⟨0, 0⟩
          ['T', 'R', 'U', 'E', '(', ')'] = .ok u ∧
      Calls (new ⟨false, 15, 64⟩) u.recalculate ∧
      u.recalculate.value ⟨1, 0⟩ = .error .badReference ∧
      u.recalculate.recalculate.value ⟨1, 0⟩ = .bool true := by
  have hRun :
      ∃ s t u, (new ⟨false, 15, 64⟩).setFormula ⟨0, 0⟩ ['B', '1'] =
            .ok s ∧
        s.setFormula ⟨1, 0⟩ ['A', '1'] = .ok t ∧
        t.recalculate.setFormula ⟨0, 0⟩
            ['T', 'R', 'U', 'E', '(', ')'] = .ok u ∧
        ([s.size, t.size, t.recalculate.size, u.size,
              u.recalculate.size],
            u.recalculate.value ⟨1, 0⟩,
            u.recalculate.recalculate.value ⟨1, 0⟩) =
          ([⟨1, 1⟩, ⟨2, 1⟩, ⟨2, 1⟩, ⟨2, 1⟩, ⟨2, 1⟩],
            .error .badReference, .bool true) :=
    ⟨_, _, _, rfl, rfl, rfl, by cbv⟩
  rcases hRun with ⟨s, t, u, hFirst, hSecond, hThird, hShows⟩
  simp only [Prod.mk.injEq, List.cons.injEq] at hShows
  rcases hShows with
    ⟨⟨hSize₁, hSize₂, hSize₃, hSize₄, hSize₅, -⟩, hOnce, hTwice⟩
  refine ⟨s, t, u, hFirst, hSecond, hThird, ?_, hOnce, hTwice⟩
  refine .call (.call (.call (.call (.call (.refl _)
    (.setFormula ⟨0, 0⟩ _) hFirst ?_)
    (.setFormula ⟨1, 0⟩ _) hSecond ?_)
    .recalculate rfl ?_)
    (.setFormula ⟨0, 0⟩ _) hThird ?_)
    .recalculate rfl ?_
  · rw [hSize₁]
    decide
  · rw [hSize₂]
    decide
  · rw [hSize₃]
    decide
  · rw [hSize₄]
    decide
  · rw [hSize₅]
    decide

end Sheet

end Spreadsheet
