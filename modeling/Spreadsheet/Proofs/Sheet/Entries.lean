import Spreadsheet.Proofs.Evaluation.Cellwise
import Spreadsheet.Proofs.Sheet.SinglePass

/-
  What was entered in the cells of a sheet, and what it means.

  The value that a cell shows is found by evaluating the
  formula in it over the values of the cells that it names,
  and so on. There is no such value for a formula that can
  reach a cycle. A calculation finds these values, whatever
  the order of the formulas is.

  Main declarations:
    * `Entries`
    * `Entries.Shows`
    * `Sheet.Cellwise`
    * `Sheet.Loop.shows`
    * `Sheet.calculates_entries`
-/

namespace Spreadsheet

------------------------------------------------------------
-- The Values Of Entries
------------------------------------------------------------

/- What was entered in a cell. -/
inductive Entry where
  | value (v : Scalar)
  | formula (e : Expr) (refs : References)

/- What was entered in the cells of a sheet. -/
abbrev Entries := Point → Option Entry

namespace Entries

/-
  A cell shows a value, because it was entered or because the
  formula in the cell evaluates to it.
-/
inductive Shows (entries : Entries) : Point → Scalar → Prop where
  | blank
      {p : Point}
      (hEntry : entries p = none) :
      Shows entries p .blank
  | value
      {p : Point}
      {v : Scalar}
      (hEntry : entries p = some (.value v)) :
      Shows entries p v
  | formula
      {p : Point}
      {e : Expr}
      {refs : References}
      (cells : Point → Scalar)
      (hEntry : entries p = some (.formula e refs))
      (hCells : ∀ q ∈ e.names refs p, Shows entries q (cells q)) :
      Shows entries p (e.scalarOver refs p cells)

/- A cell shows one value at most. -/
theorem Shows.unique
    {entries : Entries}
    {p : Point}
    {v w : Scalar}
    (hShows : entries.Shows p v)
    (hOther : entries.Shows p w) :
    v = w := by
  induction hShows generalizing w with
  | blank hEntry =>
      cases hOther with
      | blank _ => rfl
      | value hHere => simp [hEntry] at hHere
      | formula _ hHere _ => simp [hEntry] at hHere
  | value hEntry =>
      cases hOther with
      | blank hHere => simp [hEntry] at hHere
      | value hHere => simpa [hEntry] using hHere
      | formula _ hHere _ => simp [hEntry] at hHere
  | formula cells hEntry _ ih =>
      cases hOther with
      | blank hHere => simp [hEntry] at hHere
      | value hHere => simp [hEntry] at hHere
      | formula cells' hHere hCells' =>
          rw [hEntry, Option.some.injEq, Entry.formula.injEq] at hHere
          rcases hHere with ⟨rfl, rfl⟩
          exact
            Expr.scalarOver_congr fun q hq => ih q hq (hCells' q hq)

end Entries

namespace Sheet

variable {s t : Sheet} {id k : Handle} {f g : FormulaCell}

/- What was entered in the cells of a sheet. -/
def entries (s : Sheet) : Entries :=
  fun p =>
    match s.grid.get? p with
    | some (.value v) => some (.value v)
    | some (.formula id) =>
        (s.formulas.get? id).map fun f => .formula f.expr f.refs
    | _ => none

/-
  All formulas are expressions over single cells, and have one
  cell themselves.
-/
def Cellwise (s : Sheet) : Prop :=
  ∀ id f, s.formulas.get? id = some f →
    f.extent = Size.one ∧ f.expr.isCellwise f.refs = true

theorem Orderly.single_of_cellwise
    (hOrderly : s.Orderly)
    (hCells : s.Cellwise) :
    s.Single := by
  intro id f hLive
  rcases hCells id f hLive with ⟨hOne, hExpr⟩
  refine ⟨hOne, ?_⟩
  exact
    (Site.scalarAt_spread (s := s.site f) (fun _ => .blank)
      (hOrderly.settled hLive).proper hExpr).1

/- The entry in the cell of a formula. -/
theorem Coherent.entries_location
    (hCoherent : s.Coherent)
    (hLive : s.formulas.get? id = some f) :
    s.entries f.location = some (.formula f.expr f.refs) := by
  have hHere := hCoherent.agrees.held hLive (by simp)
  unfold entries
  cases hCell : s.grid.get? f.location with
  | none => simp [hCell] at hHere
  | some c =>
      cases c with
      | value v => simp [hCell] at hHere
      | extension j v => simp [hCell] at hHere
      | formula j =>
          obtain rfl : j = id := by simpa [hCell] using hHere
          simp [hLive]

------------------------------------------------------------
-- Values That A Pass Finds
------------------------------------------------------------

/-
  The formulas that have been calculated hold the values that
  their cells show.
-/
def Shown (s t : Sheet) : Prop :=
  ∀ k g, t.formulas.get? k = some g → g.generation = t.generation →
    g.blocked = false → s.entries.Shows g.location g.value

variable {done todo : List Handle}

/- What there is to read in a cell that no formula owns. -/
theorem read_of_none
    {p : Point}
    (hCell : s.grid.get? p = none) :
    (s.site f).read p = .value .blank := by
  have hGrid : (s.site f).grid = s.grid := rfl
  rw [Site.read, hGrid, hCell]

theorem read_of_value
    {p : Point}
    {v : Scalar}
    (hCell : s.grid.get? p = some (.value v)) :
    (s.site f).read p = .value v := by
  have hGrid : (s.site f).grid = s.grid := rfl
  rw [Site.read, hGrid, hCell]
  rfl

/- What there is to read in the cell of a formula. -/
theorem read_of_formula
    {p : Point}
    (hCell : s.grid.get? p = some (.formula k))
    (hLive : s.formulas.get? k = some g) :
    (s.site f).read p =
      if g.isPending s.generation then
        if g.isCircular then .circular else .pending k
      else .value g.value := by
  have hGrid : (s.site f).grid = s.grid := rfl
  rw [Site.read, hGrid, hCell]
  cases hPending : g.isPending s.generation <;>
    simp [Site.pending?, Cell.owner?, Cell.scalar?, site, hLive,
      hPending]

/- What the current formula can read is what a cell shows. -/
theorem Halfway.shows_of_read
    (hCells : s.Cellwise)
    (hHalf : s.Halfway done (id :: todo) t)
    (hLive : t.formulas.get? id = some f)
    (hShown : s.Shown t)
    {q : Point}
    {v : Scalar}
    (hRead : ((t.begun id).site f).read q = .value v) :
    s.entries.Shows q v := by
  have hCoherent := hHalf.pass.coherent.begun id
  have hGrid : (t.begun id).grid = s.grid := hHalf.grid
  cases hCell : s.grid.get? q with
  | none =>
      rw [read_of_none (hGrid ▸ hCell)] at hRead
      cases hRead
      exact .blank (by simp [entries, hCell])
  | some c =>
      cases c with
      | value w =>
          rw [read_of_value (hGrid ▸ hCell)] at hRead
          cases hRead
          exact .value (by simp [entries, hCell])
      | extension j w =>
          -- no result has more than one cell
          have hPart :
              ((t.begun id).grid.get? q).parent? = some j := by
            rw [hGrid, hCell]
            rfl
          rcases hCoherent.live_of_part hPart with ⟨h, hh, hBeyond⟩
          rcases hHalf.unchanged_begun hh with
            ⟨h₀, hh₀, -, -, -, hExtent⟩
          have hOne := hExtent.trans (hCells _ _ hh₀).1
          exact absurd hBeyond (FormulaCell.not_beyond_of_extent hOne q)
      | formula j =>
          have hHere :
              ((t.begun id).grid.get? q).formula? = some j := by
            rw [hGrid, hCell]
            rfl
          rcases hCoherent.agrees.formula_live hHere with
            ⟨-, h, hh, rfl⟩
          rw [read_of_formula (hGrid ▸ hCell) hh] at hRead
          split at hRead
          · split at hRead <;> cases hRead
          · rename_i hFree
            cases hRead
            simp only [FormulaCell.isPending, FormulaCell.isStale,
              Bool.or_eq_true, not_or, Bool.not_eq_true,
              bne_eq_false_iff_eq] at hFree
            by_cases hSame : j = id
            · -- the current formula has not been calculated
              rcases hHalf.current hLive with ⟨hBegun, hStale, -⟩
              rw [hSame, hBegun, Option.some.injEq] at hh
              rw [← hh] at hFree
              exact absurd hFree.1 hStale
            · rw [get?_begun, if_neg hSame] at hh
              exact hShown j h hh hFree.1 hFree.2

/- The value that the current formula finds is what it shows. -/
theorem Halfway.shows_of_finds
    (hOrderly : s.Orderly)
    (hFits : s.grid.size.Fits maxSize)
    (hCells : s.Cellwise)
    (hHalf : s.Halfway done (id :: todo) t)
    (hLive : t.formulas.get? id = some f)
    (hShown : s.Shown t)
    {v : Scalar}
    (hFinds : (t.begun id).Finds id f v) :
    s.entries.Shows f.location v := by
  rcases hHalf.unchanged hLive with
    ⟨f₀, hf₀, hExpr, hRefs, hLocation, -⟩
  have hHere : f.expr.isCellwise f.refs = true := by
    rw [hExpr, hRefs]
    exact (hCells _ _ hf₀).2
  have hProper := hHalf.pass.proper hLive
  have hFits' : (t.begun id).grid.size.Fits maxSize := by
    change t.grid.size.Fits maxSize
    rw [hHalf.grid]
    exact hFits
  rcases hFinds with ⟨ev, hReady, -, -⟩
  rcases
    Site.scalarOver_of_ready (s := (t.begun id).site f) hFits'
      hProper hHere hReady with
    ⟨cells, hReveals, rfl⟩
  refine .formula cells ?_ fun q hq => ?_
  · change s.entries f.location = some (.formula f.expr f.refs)
    rw [hExpr, hRefs, hLocation]
    exact hOrderly.toCoherent.entries_location hf₀
  · refine hHalf.shows_of_read hCells hLive hShown (hReveals q ?_)
    exact
      (Site.reads_iff_mem_names (s := (t.begun id).site f) hProper
        hHere q).mpr hq

/- All values that a calculation has found are what cells show. -/
theorem Loop.shows
    (hOrderly : s.Orderly)
    (hFits : s.grid.size.Fits maxSize)
    (hCells : s.Cellwise)
    {cursor : Option Handle}
    (hLoop : s.Loop cursor t) :
    s.Shown t := by
  have hSingle := hOrderly.single_of_cellwise hCells
  induction hLoop with
  | start =>
      intro k g hLive hCurrent
      change g.generation = !s.generation at hCurrent
      have hSettled : g.generation = s.generation :=
        (hOrderly.settled hLive).generation_eq
      simp [hSettled] at hCurrent
  | skip _ _ _ ih => exact ih
  | @calculate id t f hLoop hLive _ ih =>
      rcases hLoop.halfway hOrderly hSingle with
        ⟨done, todo, hHalf, hHead⟩
      cases todo with
      | nil => cases hHead
      | cons j todo =>
          cases hHead
          have hEnds := hHalf.ends hSingle hLive
          have hResult := recalculateOne_eq t id f
          have hShows := fun v =>
            hHalf.shows_of_finds (v := v) hOrderly hFits hCells hLive ih
          -- nothing has changed but the current formula
          have hKept :
              ∀ {g u}, Revises id f g t u →
                (g.generation = t.generation → g.blocked = false →
                  s.entries.Shows g.location g.value) →
                s.Shown u := by
            intro g u hRevises hOwn k h hh
            rw [hRevises.generation]
            by_cases hSame : k = id
            · rw [hSame, hRevises.own, Option.some.injEq] at hh
              rw [← hh]
              exact hOwn
            · rw [hRevises.other hSame] at hh
              exact ih k h hh
          generalize (t.begun id).evaluate id f = res
            at hEnds hResult
          rw [hResult]
          cases hEnds with
          | finished hFinds =>
              exact
                hKept (revises_finish hLive _ false) fun _ _ =>
                  hShows _ hFinds
          | circular hReads hRead =>
              exact
                hKept (revises_finish hLive _ true) fun _ hFree => by
                  cases hFree
          | interrupted hSome hMissing =>
              rename_i missing
              have hStale := (hHalf.current hLive).2.1
              cases missing with
              | nil => exact absurd rfl hSome
              | cons k missing =>
                  exact
                    hKept (revises_interrupted hLive _)
                      fun hCurrent => absurd hCurrent hStale

------------------------------------------------------------
-- Cycles
------------------------------------------------------------

/- What reaches a cycle refers to something that does. -/
theorem ReachesCycle.next
    (hReaches : s.ReachesCycle id) :
    ∃ k, s.Refers id k ∧ s.ReachesCycle k := by
  rcases hReaches with ⟨j, hPath, hCycle⟩
  rcases Relation.ReflTransGen.cases_head hPath with
    rfl | ⟨k, hEdge, hRest⟩
  · rcases Relation.TransGen.head'_iff.mp hCycle with
      ⟨k, hEdge, hRest⟩
    exact ⟨k, hEdge, id, hRest, hCycle⟩
  · exact ⟨k, hEdge, j, hRest, hCycle⟩

/- A formula that has a value reaches no cycle. -/
theorem Orderly.not_reachesCycle_of_shows
    (hOrderly : s.Orderly)
    (hCells : s.Cellwise)
    {p : Point}
    {v : Scalar}
    (hShows : s.entries.Shows p v)
    (hLive : s.formulas.get? id = some f)
    (hLocation : f.location = p) :
    ¬ s.ReachesCycle id := by
  have hEntry := hOrderly.toCoherent.entries_location hLive
  rw [hLocation] at hEntry
  induction hShows generalizing id f with
  | blank hHere => simp [hEntry] at hHere
  | value hHere => simp [hEntry] at hHere
  | formula cells hHere _ ih =>
      intro hReaches
      rcases hReaches.next with
        ⟨k, ⟨f', g, hf', hg, hReads⟩, hRest⟩
      rw [hLive, Option.some.injEq] at hf'
      rw [hEntry, Option.some.injEq, Entry.formula.injEq] at hHere
      rw [← hf', Site.reads_iff_mem_names (s := s.site f)
        (hOrderly.settled hLive).proper (hCells _ _ hLive).2] at hReads
      change g.location ∈ f.expr.names f.refs f.location at hReads
      rw [hHere.1, hHere.2, hLocation] at hReads
      exact
        ih g.location hReads hg rfl
          (hOrderly.toCoherent.entries_location hg) hRest

------------------------------------------------------------
-- Calculations Over Single Cells
------------------------------------------------------------

/- Every formula is kept in a calculation. -/
theorem Halfway.kept
    (hOrderly : s.Orderly)
    (hHalf : s.Halfway done todo t)
    (hLive : s.formulas.get? id = some f) :
    ∃ g, t.formulas.get? id = some g ∧ g.expr = f.expr ∧
      g.refs = f.refs ∧ g.location = f.location ∧
      g.extent = f.extent := by
  rcases hOrderly.listed with ⟨l, hListed⟩
  have hThere : (t.formulas.get? id).isSome = true := by
    rw [hHalf.pass.listed.isSome_get?_iff, hHalf.perm.mem_iff,
      hListed.handles_eq, ← hListed.isSome_get?_iff, hLive]
    rfl
  rcases Option.isSome_iff_exists.mp hThere with ⟨g, hg⟩
  rcases hHalf.unchanged hg with ⟨f', hf', hSame⟩
  rw [hLive, Option.some.injEq] at hf'
  exact ⟨g, hg, hf' ▸ hSame⟩

/- The formulas refer to each other as before. -/
theorem Halfway.refers_of_refers
    (hOrderly : s.Orderly)
    (hHalf : s.Halfway done todo t)
    (hEdge : s.Refers id k) :
    t.Refers id k := by
  rcases hEdge with ⟨f, g, hf, hg, hReads⟩
  rcases hHalf.kept hOrderly hf with
    ⟨f', hf', hExpr, hRefs, hLocation, -⟩
  rcases hHalf.kept hOrderly hg with ⟨g', hg', -, -, hAt, -⟩
  refine ⟨f', g', hf', hg', ?_⟩
  rw [hExpr, hAt]
  exact
    Site.Reads.congr (s := s.site f) (t := t.site f')
      (congrArg Grid.size hHalf.grid) hRefs hLocation hReads

theorem Halfway.reachesCycle_of_reachesCycle
    (hOrderly : s.Orderly)
    (hHalf : s.Halfway done todo t)
    (hReaches : s.ReachesCycle id) :
    t.ReachesCycle id := by
  rcases hReaches with ⟨k, hPath, hCycle⟩
  have hEdges : s.Refers ≤ t.Refers := fun _ _ =>
    hHalf.refers_of_refers hOrderly
  exact
    ⟨k, Relation.ReflTransGen.mono hEdges _ _ hPath,
      Relation.TransGen.mono hEdges _ _ hCycle⟩

/- Nothing is entered in a calculation. -/
theorem Halfway.entries_eq
    (hOrderly : s.Orderly)
    (hHalf : s.Halfway done todo t) :
    t.entries = s.entries := by
  funext p
  unfold entries
  rw [hHalf.grid]
  cases hCell : s.grid.get? p with
  | none => rfl
  | some c =>
      cases c with
      | value v => rfl
      | extension j v => rfl
      | formula j =>
          dsimp only
          have hHere : (s.grid.get? p).formula? = some j := by
            rw [hCell]
            rfl
          rcases hOrderly.agrees.formula_live hHere with ⟨-, f, hf, -⟩
          rcases hHalf.kept hOrderly hf with ⟨g, hg, hExpr, hRefs, -⟩
          rw [hf, hg, Option.map_some, Option.map_some, hExpr, hRefs]

/-
  The sheets that a calculation brings to rest: no formula was
  left blocked that reaches no cycle.
-/
structure Restful (s : Sheet) : Prop where
  cellwise : s.Cellwise
  marks : ∀ id, s.Blocked id → s.ReachesCycle id

/- What a calculation leaves of a formula. -/
theorem Orderly.calculated
    (hOrderly : s.Orderly)
    (hFits : s.grid.size.Fits maxSize)
    (hRestful : s.Restful)
    (hLive : s.recalculate.formulas.get? id = some f) :
    (f.blocked = true ∧ f.value = .error .badReference ∧
        s.ReachesCycle id ∧ ∀ v, ¬ s.entries.Shows f.location v) ∨
      f.blocked = false ∧ s.entries.Shows f.location f.value ∧
        ¬ s.ReachesCycle id := by
  have hSingle := hOrderly.single_of_cellwise hRestful.cellwise
  rcases hOrderly.halfway with ⟨todo, -, hStart⟩
  rcases (hStart.recalculate hOrderly hSingle).1 with ⟨done, hEnd⟩
  have hDone := hEnd.mem_done hLive
  rcases hEnd.unchanged hLive with ⟨f₀, hf₀, -, -, hLocation, -⟩
  cases hMark : f.blocked with
  | true =>
      have hReaches :=
        hOrderly.reachesCycle_of_blocked hSingle hRestful.marks
          ⟨f, hLive, hMark⟩
      refine
        Or.inl ⟨rfl, (hEnd.stuck hDone hLive hMark).1, hReaches,
          fun v hShows => ?_⟩
      exact
        hOrderly.not_reachesCycle_of_shows hRestful.cellwise hShows hf₀
          hLocation.symm hReaches
  | false =>
      have hShows :=
        hEnd.loop.shows hOrderly hFits hRestful.cellwise id f hLive
          (hEnd.pass.current hDone hLive).1 hMark
      exact
        Or.inr ⟨rfl, hShows,
          hOrderly.not_reachesCycle_of_shows hRestful.cellwise hShows
            hf₀ hLocation.symm⟩

/- Every cell shows the value of its entry, if there is one. -/
theorem Orderly.value_recalculate
    (hOrderly : s.Orderly)
    (hFits : s.grid.size.Fits maxSize)
    (hRestful : s.Restful)
    (p : Point) :
    s.entries.Shows p (s.recalculate.value p) ∨
      (∀ v, ¬ s.entries.Shows p v) ∧
        s.recalculate.value p = .error .badReference := by
  have hSingle := hOrderly.single_of_cellwise hRestful.cellwise
  rcases hOrderly.halfway with ⟨todo, -, hStart⟩
  rcases (hStart.recalculate hOrderly hSingle).1 with ⟨done, hEnd⟩
  unfold value
  rw [hEnd.grid]
  cases hCell : s.grid.get? p with
  | none => exact Or.inl (.blank (by simp [entries, hCell]))
  | some c =>
      cases c with
      | value v =>
          have hEntry : s.entries p = some (.value v) := by
            simp [entries, hCell]
          exact Or.inl (.value hEntry)
      | extension j v =>
          have hPart : (s.grid.get? p).parent? = some j := by
            rw [hCell]
            rfl
          rcases hOrderly.toCoherent.live_of_part hPart with
            ⟨f, hf, hBeyond⟩
          have hOne := (hRestful.cellwise _ _ hf).1
          exact absurd hBeyond (FormulaCell.not_beyond_of_extent hOne p)
      | formula j =>
          have hHere : (s.grid.get? p).formula? = some j := by
            rw [hCell]
            rfl
          rcases hOrderly.agrees.formula_live hHere with
            ⟨-, f, hf, rfl⟩
          rcases hEnd.kept hOrderly hf with ⟨g, hg, -, -, hAt, -⟩
          have hShown :
              ((some (Cell.formula j)).bind
                (·.scalar? s.recalculate.formulas)).getD .blank =
                  g.value := by
            simp [Cell.scalar?, hg]
          rw [hShown, ← hAt]
          rcases hOrderly.calculated hFits hRestful hg with
            ⟨-, hValue, -, hNone⟩ | ⟨-, hShows, -⟩
          · exact Or.inr ⟨hNone, hValue⟩
          · exact Or.inl hShows

/- A calculation leaves a sheet that it would bring to rest. -/
theorem Orderly.restful_recalculate
    (hOrderly : s.Orderly)
    (hRestful : s.Restful) :
    s.recalculate.Restful := by
  have hSingle := hOrderly.single_of_cellwise hRestful.cellwise
  rcases hOrderly.halfway with ⟨todo, -, hStart⟩
  rcases (hStart.recalculate hOrderly hSingle).1 with ⟨done, hEnd⟩
  refine ⟨fun id f hLive => ?_, fun id hBlocked => ?_⟩
  · rcases hEnd.unchanged hLive with
      ⟨f₀, hf₀, hExpr, hRefs, -, hExtent⟩
    rw [hExpr, hRefs, hExtent]
    exact hRestful.cellwise _ _ hf₀
  · exact
      hEnd.reachesCycle_of_reachesCycle hOrderly
        (hOrderly.reachesCycle_of_blocked hSingle hRestful.marks
          hBlocked)

/-
  Formulas over single cells are blocked if and only if they
  reach a cycle, and all others hold the value of their entry.
  So what is shown depends on the entries only, and not on the
  calculations before.
-/
theorem calculates_entries
    {config : SheetConfig}
    (hCalls : Calls (new config) s)
    (hRestful : s.Restful) :
    (∀ id f, s.formulas.get? id = some f →
      ∃ g, s.recalculate.formulas.get? id = some g ∧
        g.location = f.location ∧
        (g.blocked = true ∧ g.value = .error .badReference ↔
          s.ReachesCycle id) ∧
        (¬ s.ReachesCycle id →
          g.blocked = false ∧
            ∀ v, s.entries.Shows f.location v ↔ v = g.value)) ∧
      s.recalculate.Restful ∧
      s.recalculate.entries = s.entries ∧
      ∀ {config' : SheetConfig} {t : Sheet},
        Calls (new config') t → t.Restful →
          t.entries = s.entries →
            ∀ p, t.recalculate.value p = s.recalculate.value p := by
  have hReached :
      ∀ {config : SheetConfig} {u : Sheet}, Calls (new config) u →
        u.Orderly ∧ u.grid.size.Fits maxSize :=
    fun hCalls =>
      hCalls.orderly (orderly_new _) ⟨Nat.zero_le _, Nat.zero_le _⟩
  rcases hReached hCalls with ⟨hOrderly, hFits⟩
  have hSingle := hOrderly.single_of_cellwise hRestful.cellwise
  rcases hOrderly.halfway with ⟨todo, -, hStart⟩
  rcases (hStart.recalculate hOrderly hSingle).1 with ⟨done, hEnd⟩
  refine
    ⟨fun id f hLive => ?_, hOrderly.restful_recalculate hRestful,
      hEnd.entries_eq hOrderly, fun hOther hRest hSame p => ?_⟩
  · rcases hEnd.kept hOrderly hLive with ⟨g, hg, -, -, hAt, -⟩
    refine ⟨g, hg, hAt, ?_⟩
    rw [← hAt]
    rcases hOrderly.calculated hFits hRestful hg with
      ⟨hMark, hValue, hReaches, -⟩ | ⟨hFree, hShows, hNot⟩
    · exact
        ⟨⟨fun _ => hReaches, fun _ => ⟨hMark, hValue⟩⟩,
          fun hNot => absurd hReaches hNot⟩
    · refine ⟨⟨fun h => ?_, fun h => absurd h hNot⟩, fun _ => ?_⟩
      · simp [hFree] at h
      · exact
          ⟨hFree, fun v =>
            ⟨fun h => h.unique hShows, fun h => h ▸ hShows⟩⟩
  · rcases hReached hOther with ⟨hOrderly', hFits'⟩
    have hHere := hOrderly.value_recalculate hFits hRestful p
    have hThere := hOrderly'.value_recalculate hFits' hRest p
    rw [hSame] at hThere
    rcases hHere with hShows | ⟨hNone, hValue⟩ <;>
      rcases hThere with hShows' | ⟨hNone', hValue'⟩
    · exact hShows'.unique hShows
    · exact absurd hShows (hNone' _)
    · exact absurd hShows' (hNone _)
    · rw [hValue, hValue']

/- All formulas of the list are over single cells. -/
def isCellwise (s : Sheet) : Bool :=
  s.formulas.handles.all fun id =>
    (s.formulas.get? id).all fun f =>
      f.extent == Size.one && f.expr.isCellwise f.refs

/- All formulas of the list that were left blocked. -/
def blockedFormulas (s : Sheet) : List Handle :=
  s.formulas.handles.filter fun id =>
    (s.formulas.get? id).any (·.blocked)

theorem Orderly.cellwise_of_isCellwise
    (hOrderly : s.Orderly)
    (hAll : s.isCellwise = true) :
    s.Cellwise := by
  intro id f hLive
  have hHere :=
    List.all_eq_true.mp hAll id (hOrderly.mem_handles hLive)
  simpa [hLive] using hHere

theorem Orderly.mem_blockedFormulas
    (hOrderly : s.Orderly)
    (hBlocked : s.Blocked id) :
    id ∈ s.blockedFormulas := by
  rcases hBlocked with ⟨f, hLive, hMark⟩
  rw [blockedFormulas, List.mem_filter, hLive]
  exact ⟨hOrderly.mem_handles hLive, hMark⟩

/- Two formulas that refer to each other, and one that is apart. -/
theorem calculates_entries_cycle :
    ∃ s t u, (new ⟨false, 15, 64⟩).setFormula ⟨0, 0⟩ ['B', '1'] =
          .ok s ∧
      s.setFormula ⟨1, 0⟩ ['A', '1'] = .ok t ∧
      t.setFormula ⟨0, 1⟩ ['T', 'R', 'U', 'E', '(', ')'] = .ok u ∧
      u.Restful ∧
      (∃ g, u.recalculate.formulas.get? ⟨0, 0⟩ = some g ∧
        g.blocked = true ∧ g.value = .error .badReference) ∧
      ∃ g, u.recalculate.formulas.get? ⟨2, 0⟩ = some g ∧
        g.blocked = false ∧ g.value = .bool true := by
  have hRun :
      ∃ s t u, (new ⟨false, 15, 64⟩).setFormula ⟨0, 0⟩ ['B', '1'] =
            .ok s ∧
        s.setFormula ⟨1, 0⟩ ['A', '1'] = .ok t ∧
        t.setFormula ⟨0, 1⟩ ['T', 'R', 'U', 'E', '(', ')'] = .ok u ∧
        ([s.size, t.size, u.size], u.isCellwise, u.blockedFormulas,
            u.edges, u.formulas.handles) =
          ([⟨1, 1⟩, ⟨2, 1⟩, ⟨2, 2⟩], true, [],
            [(⟨0, 0⟩, ⟨1, 0⟩), (⟨1, 0⟩, ⟨0, 0⟩)],
            [⟨0, 0⟩, ⟨1, 0⟩, ⟨2, 0⟩]) ∧
        (u.formulas.get? ⟨2, 0⟩).map (fun f => (f.expr, f.refs)) =
          some (.call (.elementwise .alwaysTrue) [], []) :=
    ⟨_, _, _, rfl, rfl, rfl, by cbv, by cbv⟩
  rcases hRun with
    ⟨s, t, u, hFirst, hSecond, hThird, hShows, hApart⟩
  simp only [Prod.mk.injEq, List.cons.injEq] at hShows
  rcases hShows with
    ⟨⟨hSize₁, hSize₂, hSize₃, -⟩, hAll, hMarks, hEdges, hHandles⟩
  have hCalls : Calls (new ⟨false, 15, 64⟩) u := by
    refine .call (.call (.call (.refl _)
      (.setFormula ⟨0, 0⟩ _) hFirst ?_)
      (.setFormula ⟨1, 0⟩ _) hSecond ?_)
      (.setFormula ⟨0, 1⟩ _) hThird ?_
    · rw [hSize₁]
      decide
    · rw [hSize₂]
      decide
    · rw [hSize₃]
      decide
  have hOrderly := orderly_of_calls hCalls
  have hRestful : u.Restful := by
    refine ⟨hOrderly.cellwise_of_isCellwise hAll, fun id hBlocked => ?_⟩
    have hIn := hOrderly.mem_blockedFormulas hBlocked
    rw [hMarks] at hIn
    cases hIn
  have hCycle : u.ReachesCycle ⟨0, 0⟩ := by
    have hThere : u.Refers ⟨0, 0⟩ ⟨1, 0⟩ :=
      refers_of_mem_edges (by rw [hEdges]; decide)
    have hBack : u.Refers ⟨1, 0⟩ ⟨0, 0⟩ :=
      refers_of_mem_edges (by rw [hEdges]; decide)
    exact ⟨_, .refl, .head hThere (.single hBack)⟩
  have hNone : ¬ u.ReachesCycle ⟨2, 0⟩ := by
    intro hReaches
    rcases hReaches.next with ⟨k, hEdge, -⟩
    have hIn := hOrderly.mem_edges hEdge
    rw [hEdges] at hIn
    revert hIn
    simp
  rcases calculates_entries hCalls hRestful with ⟨hEach, -⟩
  rcases Option.map_eq_some_iff.mp hApart with ⟨f, hf, hText⟩
  rw [Prod.mk.injEq] at hText
  refine ⟨s, t, u, hFirst, hSecond, hThird, hRestful, ?_, ?_⟩
  · rcases hCycle.next with ⟨-, ⟨f, -, hf, -⟩, -⟩
    rcases hEach _ f hf with ⟨g, hg, -, hBlocked, -⟩
    exact ⟨g, hg, hBlocked.mpr hCycle⟩
  · rcases hEach _ f hf with ⟨g, hg, -, -, hFree⟩
    rcases hFree hNone with ⟨hMark, hValue⟩
    refine ⟨g, hg, hMark, ((hValue (.bool true)).mp ?_).symm⟩
    have hEntry := hOrderly.toCoherent.entries_location hf
    rw [hText.1, hText.2] at hEntry
    have hOver :
        (Expr.call (.elementwise .alwaysTrue) []).scalarOver []
          f.location (fun _ => .blank) = .bool true := by
      cbv
    rw [← hOver]
    exact .formula _ hEntry (by simp [Expr.names])

/-
  A mark of an earlier calculation blocks a formula that
  reaches no cycle.
-/
theorem blocked_off_cycle :
    ∃ s t u, (new ⟨false, 15, 64⟩).setFormula ⟨0, 0⟩ ['B', '1'] =
          .ok s ∧
      s.setFormula ⟨1, 0⟩ ['A', '1'] = .ok t ∧
      t.recalculate.setFormula ⟨0, 0⟩
          ['T', 'R', 'U', 'E', '(', ')'] = .ok u ∧
      u.Cellwise ∧ ¬ u.ReachesCycle ⟨1, 0⟩ ∧
      u.recalculate.Blocked ⟨1, 0⟩ := by
  have hRun :
      ∃ s t u, (new ⟨false, 15, 64⟩).setFormula ⟨0, 0⟩ ['B', '1'] =
            .ok s ∧
        s.setFormula ⟨1, 0⟩ ['A', '1'] = .ok t ∧
        t.recalculate.setFormula ⟨0, 0⟩
            ['T', 'R', 'U', 'E', '(', ')'] = .ok u ∧
        ([s.size, t.size, t.recalculate.size, u.size], u.isCellwise,
            u.edges, (u.recalculate.formulas.get? ⟨1, 0⟩).map
              (·.blocked)) =
          ([⟨1, 1⟩, ⟨2, 1⟩, ⟨2, 1⟩, ⟨2, 1⟩], true,
            [(⟨1, 0⟩, ⟨0, 0⟩)], some true) :=
    ⟨_, _, _, rfl, rfl, rfl, by cbv⟩
  rcases hRun with ⟨s, t, u, hFirst, hSecond, hThird, hShows⟩
  simp only [Prod.mk.injEq, List.cons.injEq,
    Option.map_eq_some_iff] at hShows
  rcases hShows with
    ⟨⟨hSize₁, hSize₂, hSize₃, hSize₄, -⟩, hAll, hEdges, hBlocked⟩
  have hCalls : Calls (new ⟨false, 15, 64⟩) u := by
    refine .call (.call (.call (.call (.refl _)
      (.setFormula ⟨0, 0⟩ _) hFirst ?_)
      (.setFormula ⟨1, 0⟩ _) hSecond ?_)
      .recalculate rfl ?_)
      (.setFormula ⟨0, 0⟩ _) hThird ?_
    · rw [hSize₁]
      decide
    · rw [hSize₂]
      decide
    · rw [hSize₃]
      decide
    · rw [hSize₄]
      decide
  have hOrderly := orderly_of_calls hCalls
  refine
    ⟨s, t, u, hFirst, hSecond, hThird,
      hOrderly.cellwise_of_isCellwise hAll, fun hReaches => ?_,
      hBlocked⟩
  -- the only formula that it refers to refers to none
  rcases hReaches.next with ⟨j, hEdge, hRest⟩
  rcases hRest.next with ⟨k, hEdge', -⟩
  have hFirstEdge := hOrderly.mem_edges hEdge
  have hSecondEdge := hOrderly.mem_edges hEdge'
  rw [hEdges, List.mem_singleton, Prod.mk.injEq]
    at hFirstEdge hSecondEdge
  rw [hSecondEdge.1] at hFirstEdge
  exact absurd hFirstEdge.2 (by decide)

end Sheet

end Spreadsheet
