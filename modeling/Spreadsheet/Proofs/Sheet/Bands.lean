import Spreadsheet.Proofs.Grid.Shift
import Spreadsheet.Proofs.Sheet.Edits
import Spreadsheet.Sheet.Bands

/-
  Inserting and deleting columns and rows, up to the
  calculation that follows.

  Main declarations:
    * `Agrees.relocate`
    * `Sheet.Coherent.collapse_spec`
    * `Sheet.Orderly.insertedBand`
    * `Sheet.Orderly.deletedBand`
    * `Sheet.Orderly.setMeasures`
-/

namespace Spreadsheet

------------------------------------------------------------
-- Relocated Cells
------------------------------------------------------------

/-
  Cells come from elsewhere, and formulas go with their cells.
  A formula whose cell is gone is removed with its parts.
-/
structure Relocates
    (source? : Point → Option Point)
    (cells : Contents Point Cell)
    (formulas : FormulaTable)
    (cells' : Contents Point Cell)
    (formulas' : FormulaTable) : Prop where
  injective :
    ∀ {p q o}, source? p = some o → source? q = some o → p = q
  formula?_eq :
    ∀ {p id}, (cells' p).formula? = some id ↔
      ∃ o, source? p = some o ∧ (cells o).formula? = some id
  parent?_eq :
    ∀ {p id}, (cells' p).parent? = some id ↔
      formulas' id ≠ none ∧
        ∃ o, source? p = some o ∧ (cells o).parent? = some id
  kept :
    ∀ {id f'}, formulas' id = some f' →
      ∃ f, formulas id = some f ∧
        source? f'.location = some f.location ∧
        ∀ p, f'.area.Beyond p ↔
          ∃ o, source? p = some o ∧ f.area.Beyond o
  removed :
    ∀ {id f p}, formulas id = some f → formulas' id = none →
      source? p ≠ some f.location
  rooted :
    ∀ {id f'}, formulas' id = some f' → f'.area.Rooted

theorem Agrees.relocate
    {source? : Point → Option Point}
    {cells cells' : Contents Point Cell}
    {formulas formulas' : FormulaTable}
    (hAgrees : Agrees cells formulas [] none)
    (hMoved : Relocates source? cells formulas cells' formulas') :
    Agrees cells' formulas' [] none := by
  constructor
  case formula_live =>
    intro p id hFormula
    rcases hMoved.formula?_eq.mp hFormula with ⟨o, hSource, hCell⟩
    rcases hAgrees.formula_live hCell with ⟨-, f, hLive, hLocation⟩
    cases hKept : formulas' id with
    | none =>
        rw [← hLocation] at hSource
        exact absurd hSource (hMoved.removed hLive hKept)
    | some f' =>
        rcases hMoved.kept hKept with ⟨g, hg, hPlace, -⟩
        rw [hLive, Option.some.injEq] at hg
        refine ⟨by simp, f', rfl, ?_⟩
        refine hMoved.injective hPlace ?_
        rw [hSource, ← hg, hLocation]
  case held =>
    intro id f' hKept _
    rcases hMoved.kept hKept with ⟨f, hLive, hPlace, -⟩
    exact
      hMoved.formula?_eq.mpr
        ⟨f.location, hPlace, hAgrees.held hLive (by simp)⟩
  case carried_live => simp
  case part_live =>
    intro p id hParent
    rcases hMoved.parent?_eq.mp hParent with
      ⟨hKept, o, hSource, hPart⟩
    rcases Option.ne_none_iff_exists'.mp hKept with ⟨f', hKept⟩
    rcases hMoved.kept hKept with ⟨f, hLive, -, hArea⟩
    rcases hAgrees.part_live hPart with
      ⟨g, hg, hBeyond⟩ | ⟨_, hOrphan, -⟩
    · rw [hLive, Option.some.injEq] at hg
      exact
        Or.inl ⟨f', hKept, (hArea p).mpr ⟨o, hSource, hg ▸ hBeyond⟩⟩
    · cases hOrphan
  case covered =>
    intro id f' p hKept hBeyond
    rcases hMoved.kept hKept with ⟨f, hLive, -, hArea⟩
    rcases (hArea p).mp hBeyond with ⟨o, hSource, hWas⟩
    refine hMoved.parent?_eq.mpr ⟨by rw [hKept]; simp, o, hSource, ?_⟩
    exact hAgrees.covered hLive hWas
  case located => exact hMoved.rooted
  case orphan_single => simp
  case orphan_located => simp

------------------------------------------------------------
-- Collapsing
------------------------------------------------------------

namespace Sheet

/- A result of one cell. -/
def shrunk (f : FormulaCell) : FormulaCell :=
  { f with extent := Size.one }

/- The formulas after one was cut down to its first cell. -/
theorem get?_collapse (s : Sheet) (id k : Handle) :
    (s.collapse id).formulas.get? k =
      if k = id then (s.formulas.get? k).map shrunk
      else s.formulas.get? k := by
  unfold collapse
  split
  · rename_i hGone
    split
    · rename_i hEq
      rw [hEq, hGone]
      rfl
    · rfl
  · rename_i f hLive
    split
    · rename_i hOne
      split
      · rename_i hEq
        rw [hEq, hLive, Option.map_some, shrunk, ← hOne]
      · rfl
    · exact LinkedArena.get?_modify s.formulas id k shrunk

theorem listed_collapse
    {s : Sheet}
    {l : List Handle}
    (hListed : s.formulas.Listed l)
    (id : Handle) :
    (s.collapse id).formulas.Listed l := by
  unfold collapse
  split
  · exact hListed
  · split
    · exact hListed
    · exact hListed.modify id shrunk

/- The cells beyond the first one of a result are emptied. -/
theorem collapse_cells
    {s : Sheet}
    (hSound : s.grid.Sound)
    (hWithin : s.grid.Within)
    (id : Handle)
    (hRooted :
      ∀ {f}, s.formulas.get? id = some f → f.area.Rooted)
    (hParts :
      ∀ {p}, (s.grid.get? p).parent? = some id →
        ∃ f, s.formulas.get? id = some f ∧ f.area.Beyond p) :
    (s.collapse id).grid.Sound ∧
      (s.collapse id).grid.Within ∧
      (s.collapse id).size = s.size ∧
      ∀ p, (s.collapse id).grid.get? p =
        if (s.grid.get? p).parent? = some id then none
        else s.grid.get? p := by
  unfold collapse
  split
  · rename_i hGone
    refine ⟨hSound, hWithin, rfl, fun p => ?_⟩
    rw [if_neg]
    intro hPart
    rcases hParts hPart with ⟨f, hLive, -⟩
    rw [hGone] at hLive
    cases hLive
  · rename_i f hLive
    split
    · rename_i hOne
      refine ⟨hSound, hWithin, rfl, fun p => ?_⟩
      rw [if_neg]
      intro hPart
      rcases hParts hPart with ⟨g, hg, hBeyond⟩
      rw [hLive, Option.some.injEq] at hg
      rw [← hg] at hBeyond
      exact FormulaCell.not_beyond_of_extent hOne p hBeyond
    · rcases Grid.clearSpill_spec hSound hWithin id
          (hRooted hLive) with
        ⟨hSound', hSize, hWithin', hCells⟩
      refine ⟨hSound', hWithin', hSize, fun p => ?_⟩
      refine (hCells p).trans ?_
      have hIff :
          ((s.grid.get? p).parent? = some id ∧ f.area.Beyond p) ↔
            (s.grid.get? p).parent? = some id := by
        refine and_iff_left_of_imp fun hPart => ?_
        rcases hParts hPart with ⟨g, hg, hBeyond⟩
        rw [hLive, Option.some.injEq] at hg
        rwa [hg]
      simp only [hIff]

/-
  The result of a formula is cut down, and the cells beyond
  its first are emptied.
-/
theorem Coherent.collapse_spec
    {s : Sheet}
    (hCoherent : s.Coherent)
    (id : Handle) :
    (s.collapse id).Coherent ∧
      (s.collapse id).size = s.size ∧
      (s.collapse id).formulas.handles = s.formulas.handles ∧
      ∀ p, (s.collapse id).grid.get? p =
        if (s.grid.get? p).parent? = some id then none
        else s.grid.get? p := by
  rcases hCoherent.listed with ⟨l, hListed⟩
  have hParts :
      ∀ {p}, (s.grid.get? p).parent? = some id →
        ∃ f, s.formulas.get? id = some f ∧ f.area.Beyond p := by
    intro p hPart
    rcases hCoherent.agrees.part_live hPart with
      hOwn | ⟨_, hOrphan, -⟩
    · exact hOwn
    · cases hOrphan
  rcases collapse_cells hCoherent.sound hCoherent.within id
      (fun {f} hLive => hCoherent.agrees.located hLive) hParts with
    ⟨hSound, hWithin, hSize, hCells⟩
  have hAgrees :
      Agrees (s.collapse id).grid.get?
        (s.collapse id).formulas.get? [] none := by
    have hTable := get?_collapse s id
    cases hLive : s.formulas.get? id with
    | none =>
        have hSame : s.collapse id = s := by
          rw [collapse, hLive]
        rw [hSame]
        exact hCoherent.agrees
    | some f =>
        have hUpdate :
            (s.collapse id).formulas.get? =
              Function.update s.formulas.get? id
                (some (shrunk f)) := by
          funext k
          rw [hTable, Function.update_apply]
          split
          · rename_i hEq
            rw [hEq, hLive]
            rfl
          · rfl
        rw [hUpdate]
        refine
          (hCoherent.agrees.shrink (shrunk f) hLive rfl
            rfl).giveUp fun p => ?_
        rw [hCells]
        have hIff :
            (s.grid.get? p).parent? = some id ↔
              (s.grid.get? p).parent? = some id ∧
                f.area.Beyond p := by
          refine (and_iff_left_of_imp fun hPart => ?_).symm
          rcases hParts hPart with ⟨g, hg, hBeyond⟩
          rw [hLive, Option.some.injEq] at hg
          rwa [hg]
        exact if_congr hIff rfl rfl
  refine ⟨⟨hSound, hWithin, hAgrees,
    ⟨l, listed_collapse hListed id⟩⟩, hSize, ?_, hCells⟩
  rw [(listed_collapse hListed id).handles_eq, hListed.handles_eq]

------------------------------------------------------------
-- Areas Along An Axis
------------------------------------------------------------

theorem eq_iff_along
    {p q : Point}
    (axis : Axis) :
    p = q ↔
      p.along axis = q.along axis ∧
        p.along axis.cross = q.along axis.cross := by
  rw [Point.ext_iff]
  cases axis with
  | columns => exact Iff.rfl
  | rows => exact and_comm

/- The cells beyond the first one, by their places. -/
theorem beyond_iff_along
    {r : Rect}
    {p : Point}
    (axis : Axis) :
    r.Beyond p ↔
      ((r.origin.along axis ≤ p.along axis ∧
          p.along axis < r.origin.along axis + r.size.along axis) ∧
        r.origin.along axis.cross ≤ p.along axis.cross ∧
          p.along axis.cross <
            r.origin.along axis.cross + r.size.along axis.cross) ∧
      ¬ (p.along axis = r.origin.along axis ∧
          p.along axis.cross = r.origin.along axis.cross) := by
  rw [Rect.Beyond, ne_eq, eq_iff_along axis, Rect.contains_iff]
  cases axis with
  | columns => exact Iff.rfl
  | rows => exact and_congr_left' and_comm

theorem rooted_iff_along {r : Rect} (axis : Axis) :
    r.Rooted ↔
      (r.origin.along axis < maxSize.along axis ∧
        r.origin.along axis.cross < maxSize.along axis.cross) ∧
      0 < r.size.along axis ∧ 0 < r.size.along axis.cross := by
  rw [Rect.Rooted, Grid.contains_iff_along axis, Rect.contains_iff]
  cases axis <;>
    (simp only [Point.along, Size.along, Axis.cross]
     omega)

------------------------------------------------------------
-- Inserting
------------------------------------------------------------

variable {s : Sheet}

/- The result reaches across a place along an axis. -/
def IsAcross
    (axis : Axis)
    (before : Nat)
    (f : FormulaCell) : Prop :=
  f.location.along axis < before ∧ before < f.stopAlong axis

/- What commands on formulas leave as it is. -/
structure SameFrame (s t : Sheet) : Prop where
  generation : t.generation = s.generation
  suspended : t.suspended = s.suspended
  config : t.config = s.config

theorem sameFrame_refl (s : Sheet) : SameFrame s s :=
  ⟨rfl, rfl, rfl⟩

theorem SameFrame.trans
    {s t u : Sheet}
    (hFirst : SameFrame s t)
    (hSecond : SameFrame t u) :
    SameFrame s u :=
  ⟨hSecond.generation.trans hFirst.generation,
    hSecond.suspended.trans hFirst.suspended,
    hSecond.config.trans hFirst.config⟩

theorem sameFrame_collapse (s : Sheet) (id : Handle) :
    SameFrame s (s.collapse id) := by
  unfold collapse
  split
  · exact sameFrame_refl s
  · split
    · exact sameFrame_refl s
    · exact ⟨rfl, rfl, rfl⟩

theorem Orderly.collapse
    (hOrderly : s.Orderly)
    (id : Handle) :
    (s.collapse id).Orderly := by
  rcases hOrderly.toCoherent.collapse_spec id with
    ⟨hCoherent, -⟩
  refine ⟨hCoherent, ?_⟩
  intro k f hLive
  rw [(sameFrame_collapse s id).generation]
  rw [get?_collapse] at hLive
  split at hLive
  · rcases Option.map_eq_some_iff.mp hLive with ⟨g, hg, rfl⟩
    exact (hOrderly.settled hg).setExtent _
  · exact hOrderly.settled hLive

/- No result reaches across the place where cells come in. -/
theorem foldl_collapseAcross
    (hOrderly : s.Orderly)
    (axis : Axis)
    (before : Nat)
    (l : List Handle) :
    (l.foldl (collapseAcross axis before) s).Orderly ∧
      (l.foldl (collapseAcross axis before) s).size = s.size ∧
      (l.foldl (collapseAcross axis before) s).formulas.handles =
        s.formulas.handles ∧
      SameFrame s (l.foldl (collapseAcross axis before) s) ∧
      ∀ id f,
        (l.foldl (collapseAcross axis before) s).formulas.get? id =
            some f →
          (id ∈ l ∨
            ∀ g, s.formulas.get? id = some g →
              ¬ IsAcross axis before g) →
          ¬ IsAcross axis before f := by
  induction l generalizing s with
  | nil =>
      refine ⟨hOrderly, rfl, rfl, sameFrame_refl s, ?_⟩
      rintro id f hLive (hMem | hNot)
      · cases hMem
      · exact hNot f hLive
  | cons id l ih =>
      have hStep :
          (collapseAcross axis before s id).Orderly ∧
            (collapseAcross axis before s id).size = s.size ∧
            (collapseAcross axis before s id).formulas.handles =
              s.formulas.handles ∧
            SameFrame s (collapseAcross axis before s id) ∧
            ∀ k g,
              (collapseAcross axis before s id).formulas.get? k =
                  some g →
                (k = id ∨
                  ∀ f, s.formulas.get? k = some f →
                    ¬ IsAcross axis before f) →
                ¬ IsAcross axis before g := by
        rcases hOrderly.toCoherent.collapse_spec id with
          ⟨-, hSize, hHandles, -⟩
        unfold collapseAcross
        split
        · rename_i hGone
          refine ⟨hOrderly, rfl, rfl, sameFrame_refl s, ?_⟩
          rintro k g hLive (hEq | hNot)
          · rw [hEq, hGone] at hLive
            cases hLive
          · exact hNot g hLive
        · rename_i f hLive
          split
          · refine ⟨hOrderly.collapse id, hSize, hHandles,
              sameFrame_collapse s id, ?_⟩
            intro k g hg hWhy
            rw [get?_collapse] at hg
            split at hg
            · rcases Option.map_eq_some_iff.mp hg with ⟨g', -, rfl⟩
              rintro ⟨hBefore, hAfter⟩
              have hStop :
                  (shrunk g').stopAlong axis =
                    g'.location.along axis + 1 := by
                cases axis <;> rfl
              rw [hStop] at hAfter
              change g'.location.along axis < before at hBefore
              omega
            · rename_i hNe
              rcases hWhy with hEq | hNot
              · exact absurd hEq hNe
              · exact hNot g hg
          · rename_i hNot
            refine ⟨hOrderly, rfl, rfl, sameFrame_refl s, ?_⟩
            rintro k g hg (hEq | hNo)
            · rw [hEq, hLive, Option.some.injEq] at hg
              rw [← hg]
              exact hNot
            · exact hNo g hg
      rcases hStep with
        ⟨hOrderly₁, hSize₁, hHandles₁, hFrame₁, hNot₁⟩
      rcases ih hOrderly₁ with
        ⟨hOrderly₂, hSize₂, hHandles₂, hFrame₂, hNot₂⟩
      refine ⟨hOrderly₂, hSize₂.trans hSize₁,
        hHandles₂.trans hHandles₁, hFrame₁.trans hFrame₂, ?_⟩
      intro k g hg hWhy
      refine hNot₂ k g hg ?_
      rcases hWhy with hMem | hNo
      · rcases List.mem_cons.mp hMem with hEq | hLater
        · exact Or.inr fun f hf => hNot₁ k f hf (Or.inl hEq)
        · exact Or.inl hLater
      · exact Or.inr fun f hf => hNot₁ k f hf (Or.inr hNo)

theorem mem_handles
    {formulas : FormulaList}
    (hListed : ∃ l, formulas.Listed l)
    {id : Handle}
    {f : FormulaCell}
    (hLive : formulas.get? id = some f) :
    id ∈ formulas.handles := by
  rcases hListed with ⟨l, hListed⟩
  rw [hListed.handles_eq, ← hListed.isSome_get?_iff, hLive]
  rfl

/- No formula is listed twice. -/
theorem nodup_handles
    {formulas : FormulaList}
    (hListed : ∃ l, formulas.Listed l) :
    formulas.handles.Nodup := by
  rcases hListed with ⟨l, hListed⟩
  rw [hListed.handles_eq]
  exact hListed.threads.nodup

/- All formulas are changed alike. -/
theorem modifyFormulas_spec
    (hListed : ∃ l, s.formulas.Listed l)
    (change : FormulaCell → FormulaCell) :
    (∃ l, (s.modifyFormulas change).formulas.Listed l) ∧
      (s.modifyFormulas change).grid = s.grid ∧
      SameFrame s (s.modifyFormulas change) ∧
      ∀ id, (s.modifyFormulas change).formulas.get? id =
        (s.formulas.get? id).map change := by
  rcases hListed with ⟨all, hListed⟩
  -- by induction on the handles that are left
  have hAll :
      ∀ (l : List Handle) (t : Sheet), l.Nodup →
        t.formulas.Listed all →
        (l.foldl (fun s id => s.modifyFormula id change)
            t).formulas.Listed all ∧
          (l.foldl (fun s id => s.modifyFormula id change) t).grid =
            t.grid ∧
          SameFrame t
            (l.foldl (fun s id => s.modifyFormula id change) t) ∧
          ∀ id,
            (l.foldl (fun s id => s.modifyFormula id change)
                t).formulas.get? id =
              if id ∈ l then (t.formulas.get? id).map change
              else t.formulas.get? id := by
    intro l
    induction l with
    | nil =>
        intro t _ hListed
        exact ⟨hListed, rfl, sameFrame_refl t, fun id => by simp⟩
    | cons k l ih =>
        intro t hNodup hListed
        rw [List.nodup_cons] at hNodup
        rcases ih (t.modifyFormula k change) hNodup.2
            (hListed.modify k change) with
          ⟨hListed', hGrid, hFrame, hTable⟩
        have hHere : SameFrame t (t.modifyFormula k change) :=
          ⟨rfl, rfl, rfl⟩
        refine ⟨hListed', hGrid, hHere.trans hFrame, ?_⟩
        intro id
        rw [List.foldl_cons, hTable]
        change
          (if id ∈ l then
              ((t.formulas.modify k change).get? id).map change
            else (t.formulas.modify k change).get? id) = _
        rw [LinkedArena.get?_modify]
        by_cases hFirst : id = k
        · rw [hFirst]
          simp [hNodup.1]
        · simp [hFirst]
  rcases hAll all s hListed.threads.nodup hListed with
    ⟨hListed', hGrid, hFrame, hTable⟩
  rw [modifyFormulas, hListed.handles_eq]
  refine ⟨⟨all, hListed'⟩, hGrid, hFrame, ?_⟩
  intro id
  rw [hTable]
  split
  · rfl
  · rename_i hNot
    rw [← hListed.isSome_get?_iff, Option.not_isSome_iff_eq_none]
      at hNot
    rw [hNot]
    rfl

@[simp] theorem along_insertBand
    (f : FormulaCell)
    (axis : Axis)
    (before count : Nat) :
    (f.insertBand axis before count).location.along axis =
        (if before ≤ f.location.along axis then
          f.location.along axis + count
        else
          f.location.along axis) ∧
      (f.insertBand axis before count).location.along axis.cross =
        f.location.along axis.cross ∧
      (f.insertBand axis before count).extent = f.extent := by
  refine ⟨?_, ?_, ?_⟩
  · rw [FormulaCell.insertBand, Point.along_setAlong]
  · rw [FormulaCell.insertBand, Point.along_cross_setAlong]
  · simp [FormulaCell.insertBand]

/- Cells come from where they were before the insertion. -/
theorem insertSource?_eq_some_iff
    {axis : Axis}
    {before count : Nat}
    {p o : Point} :
    Grid.insertSource? axis before count p = some o ↔
      o.along axis.cross = p.along axis.cross ∧
        (p.along axis < before ∧ o.along axis = p.along axis ∨
          before + count ≤ p.along axis ∧
            o.along axis + count = p.along axis) := by
  unfold Grid.insertSource?
  split
  · rw [Option.some.injEq, eq_iff_along axis]
    omega
  · split
    · simp only [reduceCtorEq, false_iff]
      omega
    · rw [Option.some.injEq, eq_iff_along axis, Point.along_setAlong,
        Point.along_cross_setAlong]
      omega

/- Inserting columns or rows relocates cells and formulas. -/
theorem relocates_insert
    {cells : Contents Point Cell}
    {formulas : FormulaTable}
    (hAgrees : Agrees cells formulas [] none)
    {axis : Axis}
    {before count : Nat}
    (hRoom :
      ∀ {id f}, formulas id = some f →
        f.location.along axis + count < maxSize.along axis)
    (hNotAcross :
      ∀ {id f}, formulas id = some f → ¬ IsAcross axis before f)
    {cells' : Contents Point Cell}
    (hCells :
      ∀ p, cells' p =
        (Grid.insertSource? axis before count p).bind cells)
    {formulas' : FormulaTable}
    (hFormulas :
      ∀ id, formulas' id =
        (formulas id).map (·.insertBand axis before count)) :
    Relocates (Grid.insertSource? axis before count) cells formulas
      cells' formulas' := by
  constructor
  case injective =>
    intro p q o hp hq
    rw [insertSource?_eq_some_iff] at hp hq
    rw [eq_iff_along axis]
    omega
  case formula?_eq =>
    intro p id
    rw [hCells]
    cases Grid.insertSource? axis before count p <;> simp
  case parent?_eq =>
    intro p id
    rw [hCells, hFormulas]
    cases hSource : Grid.insertSource? axis before count p with
    | none => simp
    | some o =>
        simp only [Option.bind_some, Option.some.injEq,
          exists_eq_left', ne_eq, Option.map_eq_none_iff,
          iff_and_self]
        intro hPart hNone
        rcases hAgrees.part_live hPart with
          ⟨f, hLive, -⟩ | ⟨_, hOrphan, -⟩
        · rw [hNone] at hLive
          cases hLive
        · cases hOrphan
  case kept =>
    intro id f' hKept
    rw [hFormulas] at hKept
    rcases Option.map_eq_some_iff.mp hKept with ⟨f, hLive, rfl⟩
    have hSides := hNotAcross hLive
    rcases along_insertBand f axis before count with
      ⟨hAlong, hCross, hExtent⟩
    refine ⟨f, hLive, ?_, ?_⟩
    · rw [insertSource?_eq_some_iff, hAlong, hCross]
      split <;> omega
    · intro p
      have hStop :
          f.stopAlong axis =
            f.location.along axis + f.extent.along axis := rfl
      rw [IsAcross, hStop] at hSides
      simp only [beyond_iff_along axis, FormulaCell.area, hAlong,
        hCross, hExtent, insertSource?_eq_some_iff]
      constructor
      · intro hBeyond
        by_cases hShift : before ≤ f.location.along axis
        · rw [if_pos hShift] at hBeyond
          refine ⟨p.setAlong axis (p.along axis - count), ?_, ?_⟩ <;>
            rw [Point.along_setAlong, Point.along_cross_setAlong] <;>
            omega
        · rw [if_neg hShift] at hBeyond
          exact ⟨p, by omega, by omega⟩
      · rintro ⟨o, hSource, hBeyond⟩
        split <;> omega
  case removed =>
    intro id f p hLive hNone
    rw [hFormulas, hLive] at hNone
    cases hNone
  case rooted =>
    intro id f' hKept
    rw [hFormulas] at hKept
    rcases Option.map_eq_some_iff.mp hKept with ⟨f, hLive, rfl⟩
    have hRooted := hAgrees.located hLive
    have hFits := hRoom hLive
    rcases along_insertBand f axis before count with
      ⟨hAlong, hCross, hExtent⟩
    rw [rooted_iff_along axis] at hRooted ⊢
    simp only [FormulaCell.area, hAlong, hCross, hExtent]
      at hRooted ⊢
    split <;> omega

/- A sheet with columns or rows inserted, before calculation. -/
def insertedBand
    (s : Sheet)
    (axis : Axis)
    (before count : Nat) : Sheet :=
  let s := s.formulas.handles.foldl (collapseAcross axis before) s
  let grid := (s.grid.insertBand axis Edit.shifter before count none).1
  let s :=
    { s with grid := grid }.modifyFormulas
      (·.insertBand axis before count)
  s.setMeasures axis ((s.measures axis).insertIndices before count)

theorem grid_setMeasures
    (s : Sheet)
    (axis : Axis)
    (m : Measures) :
    (s.setMeasures axis m).grid = s.grid ∧
      (s.setMeasures axis m).formulas = s.formulas ∧
      SameFrame s (s.setMeasures axis m) := by
  cases axis <;> exact ⟨rfl, rfl, ⟨rfl, rfl, rfl⟩⟩

theorem Orderly.setMeasures
    (hOrderly : s.Orderly)
    (axis : Axis)
    (m : Measures) :
    (s.setMeasures axis m).Orderly := by
  rcases hOrderly with
    ⟨⟨hSound, hWithin, hAgrees, hListed⟩, hSettled⟩
  cases axis <;>
    exact ⟨⟨hSound, hWithin, hAgrees, hListed⟩, hSettled⟩

theorem settled_insertBand
    {generation : Bool}
    {f : FormulaCell}
    (hSettled : f.Settled generation)
    (axis : Axis)
    (before count : Nat) :
    (f.insertBand axis before count).Settled generation := by
  have hRefs :=
    hSettled.setRefs?
      (f.refs.adjustToInsertion? axis (f.location.along axis) before
        count)
  exact ⟨hRefs.generation_eq, hRefs.idle, hRefs.proper⟩

theorem Orderly.insertedBand
    (hOrderly : s.Orderly)
    (hFits : s.size.Fits maxSize)
    (axis : Axis)
    {before count : Nat}
    (hRoom :
      max (s.size.along axis) before + count ≤ maxSize.along axis) :
    (s.insertedBand axis before count).Orderly ∧
      SameFrame s (s.insertedBand axis before count) := by
  rcases foldl_collapseAcross hOrderly axis before
      s.formulas.handles with
    ⟨hOrderly₁, hSize₁, hHandles₁, hFrame₁, hNot₁⟩
  unfold Sheet.insertedBand
  dsimp only
  generalize hCut :
    s.formulas.handles.foldl (collapseAcross axis before) s = t
    at hOrderly₁ hSize₁ hHandles₁ hFrame₁ hNot₁
  rw [← hSize₁] at hFits hRoom
  rcases
    Grid.insertBand_spec Edit.hands_shifter Edit.moves_shifter
      hOrderly₁.sound hOrderly₁.within hFits Edit.free_shifter axis
      hRoom with
    ⟨hSound, hWithin⟩
  have hCells :=
    Grid.get?_insertBand Edit.hands_shifter Edit.moves_shifter
      hOrderly₁.sound hOrderly₁.within hFits Edit.free_shifter axis
      hRoom
  generalize
    (t.grid.insertBand axis Edit.shifter before count none).1 = grid
    at hSound hWithin hCells
  rcases modifyFormulas_spec (s := { t with grid := grid })
      hOrderly₁.listed (·.insertBand axis before count) with
    ⟨hListed, hGrid, hFrame, hTable⟩
  have hSettled :
      ∀ {id f},
        ({ t with grid := grid }.modifyFormulas
            (·.insertBand axis before count)).formulas.get? id =
            some f →
          f.Settled t.generation := by
    intro id f hLive
    rw [hTable] at hLive
    rcases Option.map_eq_some_iff.mp hLive with ⟨g, hg, rfl⟩
    exact settled_insertBand (hOrderly₁.settled hg) axis before count
  have hAgrees :=
    hOrderly₁.agrees.relocate
      (relocates_insert hOrderly₁.agrees
        (fun {id f} hLive => by
          have hHeld := hOrderly₁.agrees.held hLive (by simp)
          have hUsed :=
            hOrderly₁.within f.location (by
              intro hNone
              rw [hNone] at hHeld
              cases hHeld)
          rw [Grid.contains_iff_along axis] at hUsed
          change f.location.along axis < t.size.along axis ∧ _
            at hUsed
          omega)
        (fun {id f} hLive => hNot₁ id f hLive (Or.inl (by
          rw [← hHandles₁]
          exact mem_handles hOrderly₁.listed hLive)))
        hCells hTable)
  have hSheet :
      ({ t with grid := grid }.modifyFormulas
        (·.insertBand axis before count)).Orderly := by
    refine ⟨⟨?_, ?_, ?_, hListed⟩, ?_⟩
    · rw [hGrid]
      exact hSound
    · rw [hGrid]
      exact hWithin
    · rw [hGrid]
      exact hAgrees
    · intro id f hLive
      rw [hFrame.generation]
      exact hSettled hLive
  exact
    ⟨hSheet.setMeasures axis _,
      hFrame₁.trans
        (SameFrame.trans ⟨hFrame.1, hFrame.2, hFrame.3⟩
          (grid_setMeasures _ axis _).2.2)⟩

------------------------------------------------------------
-- Deleting
------------------------------------------------------------

/- A formula stands in a column or row that is deleted. -/
def IsDeleted
    (axis : Axis)
    (first count : Nat)
    (f : FormulaCell) : Prop :=
  first ≤ f.location.along axis ∧
    f.location.along axis < first + count

instance
    (axis : Axis)
    (first count : Nat)
    (f : FormulaCell) : Decidable (IsDeleted axis first count f) :=
  inferInstanceAs (Decidable (_ ∧ _))

/- What becomes of a formula when columns or rows are deleted. -/
def afterDeletion
    (axis : Axis)
    (first count : Nat)
    (f : FormulaCell) : Option FormulaCell :=
  if IsDeleted axis first count f then none
  else some (f.deleteBand axis first count)

theorem along_deleteBand
    (f : FormulaCell)
    (axis : Axis)
    (first count : Nat) :
    (f.deleteBand axis first count).location.along axis =
        (if f.location.along axis < first then
          f.location.along axis
        else
          f.location.along axis - count) ∧
      (f.deleteBand axis first count).location.along axis.cross =
        f.location.along axis.cross ∧
      (f.deleteBand axis first count).extent.along axis =
        (if f.location.along axis < first then
          f.extent.along axis -
            min count
              (f.location.along axis + f.extent.along axis - first)
        else
          f.extent.along axis) ∧
      (f.deleteBand axis first count).extent.along axis.cross =
        f.extent.along axis.cross := by
  rw [FormulaCell.deleteBand]
  split
  · simp only [FormulaCell.setRefs?_location,
      FormulaCell.setRefs?_extent]
    cases axis <;> simp [Size.setAlong, Size.along, Axis.cross]
  · simp only [FormulaCell.setRefs?_extent]
    cases axis <;> simp [Point.setAlong, Point.along, Axis.cross]

theorem settled_deleteBand
    {generation : Bool}
    {f : FormulaCell}
    (hSettled : f.Settled generation)
    (axis : Axis)
    (first count : Nat) :
    (f.deleteBand axis first count).Settled generation := by
  have hRefs :=
    hSettled.setRefs?
      (f.refs.adjustToErasure? axis (f.location.along axis) first
        count)
  rw [FormulaCell.deleteBand]
  split <;>
    exact ⟨hRefs.generation_eq, hRefs.idle, hRefs.proper⟩

/-
  The sheet after some formulas were removed or changed, as
  seen from the sheet before: the parts of removed formulas
  are gone, but their own cells are still there.
-/
structure Deletes
    (axis : Axis)
    (first count : Nat)
    (done : List Handle)
    (s t : Sheet) : Prop where
  sound : t.grid.Sound
  within : t.grid.Within
  size_eq : t.size = s.size
  listed : ∃ l, t.formulas.Listed l
  frame : SameFrame s t
  formulas_eq :
    ∀ id, t.formulas.get? id =
      if id ∈ done then
        (s.formulas.get? id).bind (afterDeletion axis first count)
      else
        s.formulas.get? id
  formula?_eq :
    ∀ p, (t.grid.get? p).formula? = (s.grid.get? p).formula?
  parent?_eq :
    ∀ p id, (t.grid.get? p).parent? = some id ↔
      (s.grid.get? p).parent? = some id ∧
        t.formulas.get? id ≠ none

theorem Coherent.live_of_part
    (hCoherent : s.Coherent)
    {p : Point}
    {id : Handle}
    (hPart : (s.grid.get? p).parent? = some id) :
    ∃ f, s.formulas.get? id = some f ∧ f.area.Beyond p := by
  rcases hCoherent.agrees.part_live hPart with hOwn | ⟨_, hOrphan, -⟩
  · exact hOwn
  · cases hOrphan

theorem deletes_refl
    (hOrderly : s.Orderly)
    (axis : Axis)
    (first count : Nat) :
    Deletes axis first count [] s s where
  sound := hOrderly.sound
  within := hOrderly.within
  size_eq := rfl
  listed := hOrderly.listed
  frame := sameFrame_refl s
  formulas_eq := by simp
  formula?_eq _ := rfl
  parent?_eq p id := by
    refine (and_iff_left_of_imp fun hPart => ?_).symm
    rcases hOrderly.toCoherent.live_of_part hPart with ⟨f, hLive, -⟩
    rw [hLive]
    simp

/- A formula in the band is removed with its parts. -/
theorem Deletes.drop
    {axis : Axis}
    {first count : Nat}
    {done : List Handle}
    {t : Sheet}
    (hCoherent : s.Coherent)
    (hDeletes : Deletes axis first count done s t)
    {id : Handle}
    {f : FormulaCell}
    (hNew : id ∉ done)
    (hLive : s.formulas.get? id = some f)
    (hDeleted : IsDeleted axis first count f) :
    Deletes axis first count (id :: done) s (t.dropFormula id) := by
  have hStill : t.formulas.get? id = some f := by
    rw [hDeletes.formulas_eq, if_neg hNew, hLive]
  rcases collapse_cells hDeletes.sound hDeletes.within id
      (fun {g} hg => by
        rw [hStill, Option.some.injEq] at hg
        rw [← hg]
        exact hCoherent.agrees.located hLive)
      (fun {p} hPart => by
        rw [hStill, ← hLive]
        exact
          hCoherent.live_of_part
            ((hDeletes.parent?_eq p id).mp hPart).1) with
    ⟨hSound, hWithin, hSize, hCells⟩
  have hTable :
      ∀ k, (t.dropFormula id).formulas.get? k =
        if k = id then none else t.formulas.get? k := by
    intro k
    rw [dropFormula, LinkedArena.Listed.get?_remove, get?_collapse]
    split <;> rfl
  rcases hDeletes.listed with ⟨l, hListed⟩
  constructor
  case sound => exact hSound
  case within => exact hWithin
  case size_eq => exact hSize.trans hDeletes.size_eq
  case listed =>
    refine ⟨_, (listed_collapse hListed id).remove ?_⟩
    rw [← hListed.isSome_get?_iff, hStill]
    rfl
  case frame =>
    exact
      hDeletes.frame.trans
        ((sameFrame_collapse t id).trans ⟨rfl, rfl, rfl⟩)
  case formulas_eq =>
    intro k
    rw [hTable, hDeletes.formulas_eq]
    by_cases hEq : k = id
    · simp [hEq, hLive, afterDeletion, hDeleted]
    · simp [hEq]
  case formula?_eq =>
    intro p
    change ((t.collapse id).grid.get? p).formula? = _
    rw [← hDeletes.formula?_eq, hCells]
    split
    · rename_i hPart
      rcases Slot.parent?_eq_some_iff.mp hPart with ⟨v, hEq⟩
      rw [hEq]
      rfl
    · rfl
  case parent?_eq =>
    intro p k
    have hWas := hDeletes.parent?_eq p
    change ((t.collapse id).grid.get? p).parent? = some k ↔ _
    rw [hCells, hTable]
    grind [Slot.parent?_none]

/- Any other formula is changed. -/
theorem Deletes.change
    {axis : Axis}
    {first count : Nat}
    {done : List Handle}
    {t : Sheet}
    (hDeletes : Deletes axis first count done s t)
    {id : Handle}
    {f : FormulaCell}
    (hNew : id ∉ done)
    (hLive : s.formulas.get? id = some f)
    (hKept : ¬ IsDeleted axis first count f) :
    Deletes axis first count (id :: done) s
      (t.modifyFormula id (·.deleteBand axis first count)) := by
  have hTable :
      ∀ k, (t.modifyFormula id
          (·.deleteBand axis first count)).formulas.get? k =
        if k = id then
          (t.formulas.get? k).map (·.deleteBand axis first count)
        else
          t.formulas.get? k := fun k =>
    LinkedArena.get?_modify t.formulas id k _
  rcases hDeletes.listed with ⟨l, hListed⟩
  constructor
  case sound => exact hDeletes.sound
  case within => exact hDeletes.within
  case size_eq => exact hDeletes.size_eq
  case listed =>
    exact ⟨l, hListed.modify id (·.deleteBand axis first count)⟩
  case frame => exact hDeletes.frame.trans ⟨rfl, rfl, rfl⟩
  case formulas_eq =>
    intro k
    rw [hTable, hDeletes.formulas_eq]
    by_cases hEq : k = id
    · simp [hEq, hNew, hLive, afterDeletion, hKept]
    · simp [hEq]
  case formula?_eq => exact hDeletes.formula?_eq
  case parent?_eq =>
    intro p k
    rw [hTable]
    refine (hDeletes.parent?_eq p k).trans ?_
    split <;> simp

theorem Deletes.step
    {axis : Axis}
    {first count : Nat}
    {done : List Handle}
    {t : Sheet}
    (hCoherent : s.Coherent)
    (hDeletes : Deletes axis first count done s t)
    {id : Handle}
    (hNew : id ∉ done) :
    Deletes axis first count (id :: done) s
      (deleteAcross axis first count t id) := by
  have hStill : t.formulas.get? id = s.formulas.get? id := by
    rw [hDeletes.formulas_eq, if_neg hNew]
  unfold deleteAcross
  cases hLive : s.formulas.get? id with
  | none =>
      rw [hStill, hLive]
      refine { hDeletes with formulas_eq := fun k => ?_ }
      rw [hDeletes.formulas_eq]
      by_cases hEq : k = id
      · simp [hEq, hLive]
      · simp [hEq]
  | some f =>
      rw [hStill, hLive]
      dsimp only
      split
      · rename_i hDeleted
        exact hDeletes.drop hCoherent hNew hLive hDeleted
      · rename_i hKept
        exact hDeletes.change hNew hLive hKept

/- Formulas were removed or changed one after the other. -/
theorem Deletes.foldl
    {axis : Axis}
    {first count : Nat}
    (hCoherent : s.Coherent)
    {done l : List Handle}
    {t : Sheet}
    (hDeletes : Deletes axis first count done s t)
    (hNodup : l.Nodup)
    (hNew : ∀ id ∈ l, id ∉ done) :
    Deletes axis first count (l.reverse ++ done) s
      (l.foldl (deleteAcross axis first count) t) := by
  induction l generalizing t done with
  | nil => exact hDeletes
  | cons id l ih =>
      rw [List.nodup_cons] at hNodup
      have hRest : ∀ k ∈ l, k ∉ id :: done := by
        intro k hk hIn
        rcases List.mem_cons.mp hIn with hEq | hDone
        · exact hNodup.1 (hEq ▸ hk)
        · exact hNew k (List.mem_cons_of_mem _ hk) hDone
      have hHere :=
        hDeletes.step hCoherent (hNew id List.mem_cons_self)
      have hEnd := ih hHere hNodup.2 hRest
      rwa [List.reverse_cons, List.append_assoc]

/- All formulas were removed or changed. -/
theorem Deletes.all
    (hOrderly : s.Orderly)
    (axis : Axis)
    (first count : Nat) :
    ∃ done,
      Deletes axis first count done s
        (s.formulas.handles.foldl (deleteAcross axis first count) s) ∧
      ∀ id,
        (s.formulas.handles.foldl (deleteAcross axis first count)
            s).formulas.get? id =
          (s.formulas.get? id).bind
            (afterDeletion axis first count) := by
  have hEnd :=
    (deletes_refl hOrderly axis first count).foldl
      hOrderly.toCoherent (nodup_handles hOrderly.listed) (by simp)
  refine ⟨_, hEnd, fun id => ?_⟩
  rw [hEnd.formulas_eq]
  split
  · rfl
  · rename_i hNot
    cases hLive : s.formulas.get? id with
    | none => rfl
    | some f =>
        have hMem := mem_handles hOrderly.listed hLive
        simp [hMem] at hNot

/- Deleting columns or rows relocates cells and formulas. -/
theorem relocates_delete
    {cells : Contents Point Cell}
    {formulas : FormulaTable}
    (hAgrees : Agrees cells formulas [] none)
    (axis : Axis)
    (first count : Nat)
    {cells' : Contents Point Cell}
    {formulas' : FormulaTable}
    (hFormula :
      ∀ p, (cells' p).formula? =
        (cells (Grid.deleteSource axis first count p)).formula?)
    (hParent :
      ∀ p id, (cells' p).parent? = some id ↔
        (cells (Grid.deleteSource axis first count p)).parent? =
            some id ∧
          formulas' id ≠ none)
    (hFormulas :
      ∀ id, formulas' id =
        (formulas id).bind (afterDeletion axis first count)) :
    Relocates
      (fun p => some (Grid.deleteSource axis first count p))
      cells formulas cells' formulas' := by
  have hKept :
      ∀ {id f'}, formulas' id = some f' →
        ∃ f, formulas id = some f ∧
          ¬ IsDeleted axis first count f ∧
          f.deleteBand axis first count = f' := by
    intro id f' hf'
    rw [hFormulas] at hf'
    rcases Option.bind_eq_some_iff.mp hf' with ⟨f, hLive, hAfter⟩
    unfold afterDeletion at hAfter
    split at hAfter
    · cases hAfter
    · rename_i hNot
      exact ⟨f, hLive, hNot, Option.some.inj hAfter⟩
  have hSource :
      ∀ {p o : Point},
        Grid.deleteSource axis first count p = o ↔
          o.along axis.cross = p.along axis.cross ∧
            o.along axis =
              if p.along axis < first then p.along axis
              else p.along axis + count := by
    intro p o
    rw [eq_comm, eq_iff_along axis, Grid.deleteSource]
    split
    · exact and_comm
    · rw [Point.along_setAlong, Point.along_cross_setAlong]
      exact and_comm
  constructor
  case injective =>
    intro p q o hp hq
    rw [Option.some.injEq, hSource] at hp hq
    rw [eq_iff_along axis]
    split at hp <;> split at hq <;> omega
  case formula?_eq =>
    intro p id
    simp [hFormula]
  case parent?_eq =>
    intro p id
    rw [hParent]
    simp [and_comm]
  case kept =>
    intro id f' hf'
    rcases hKept hf' with ⟨f, hLive, hNot, rfl⟩
    rcases along_deleteBand f axis first count with
      ⟨hAlong, hCross, hExtent, hExtentCross⟩
    rw [IsDeleted] at hNot
    refine ⟨f, hLive, ?_, fun p => ?_⟩
    · rw [Option.some.injEq, hSource, hAlong, hCross]
      refine ⟨rfl, ?_⟩
      by_cases hFront : f.location.along axis < first
      · simp [hFront]
      · rw [if_neg hFront]
        split <;> omega
    · have hAt := (@hSource p _).mp rfl
      generalize Grid.deleteSource axis first count p = o at hAt
      simp only [Option.some.injEq, exists_eq_left',
        beyond_iff_along axis, FormulaCell.area, hAlong, hCross,
        hExtent, hExtentCross, hAt.1]
      rcases hAt with ⟨-, hAt⟩
      split at hAt <;> split <;> omega
  case removed =>
    intro id f p hLive hNone hAt
    rw [hFormulas, hLive] at hNone
    rw [Option.some.injEq, hSource] at hAt
    have hIn : IsDeleted axis first count f := by
      by_contra hNot
      simp [afterDeletion, hNot] at hNone
    rw [IsDeleted] at hIn
    split at hAt <;> omega
  case rooted =>
    intro id f' hf'
    rcases hKept hf' with ⟨f, hLive, hNot, rfl⟩
    rcases along_deleteBand f axis first count with
      ⟨hAlong, hCross, hExtent, hExtentCross⟩
    have hRooted := hAgrees.located hLive
    rw [IsDeleted] at hNot
    rw [rooted_iff_along axis] at hRooted ⊢
    simp only [FormulaCell.area, hAlong, hCross, hExtent,
      hExtentCross] at hRooted ⊢
    split <;> omega

/- A sheet with columns or rows deleted, before calculation. -/
def deletedBand
    (s : Sheet)
    (axis : Axis)
    (first count : Nat) : Sheet :=
  let s := s.formulas.handles.foldl (deleteAcross axis first count) s
  let grid := (s.grid.deleteBand axis Edit.shifter first count none).1
  { s with grid := grid }.setMeasures axis
    ((s.measures axis).eraseIndices first (first + count))

theorem Orderly.deletedBand
    (hOrderly : s.Orderly)
    (hFits : s.size.Fits maxSize)
    (axis : Axis)
    (first count : Nat) :
    (s.deletedBand axis first count).Orderly ∧
      SameFrame s (s.deletedBand axis first count) := by
  rcases Deletes.all hOrderly axis first count with
    ⟨done, hDeletes, hTable⟩
  unfold Sheet.deletedBand
  dsimp only
  generalize hCut :
    s.formulas.handles.foldl (deleteAcross axis first count) s = t
    at hDeletes hTable
  rw [← hDeletes.size_eq] at hFits
  rcases
    Grid.deleteBand_spec Edit.hands_shifter Edit.moves_shifter
      hDeletes.sound hDeletes.within hFits Edit.free_shifter axis
      first count with
    ⟨hSound, hWithin, hCells⟩
  generalize
    (t.grid.deleteBand axis Edit.shifter first count none).1 = grid
    at hSound hWithin hCells
  have hAgrees : Agrees grid.get? t.formulas.get? [] none := by
    refine hOrderly.agrees.relocate
      (relocates_delete hOrderly.agrees axis first count
        (fun p => ?_) (fun p id => ?_) hTable)
    · rw [hCells, hDeletes.formula?_eq]
    · rw [hCells, hDeletes.parent?_eq]
  have hSheet : ({ t with grid := grid } : Sheet).Orderly := by
    refine ⟨⟨hSound, hWithin, hAgrees, hDeletes.listed⟩, ?_⟩
    intro id f hLive
    change t.formulas.get? id = some f at hLive
    change f.Settled t.generation
    rw [hTable] at hLive
    rcases Option.bind_eq_some_iff.mp hLive with ⟨g, hg, hAfter⟩
    unfold afterDeletion at hAfter
    split at hAfter
    · cases hAfter
    · rw [← Option.some.inj hAfter, hDeletes.frame.generation]
      exact
        settled_deleteBand (hOrderly.settled hg) axis first count
  have hMeasured :=
    (grid_setMeasures { t with grid := grid } axis
      ((t.measures axis).eraseIndices first (first + count))).2.2
  exact
    ⟨hSheet.setMeasures axis _,
      hDeletes.frame.trans
        ⟨hMeasured.1, hMeasured.2, hMeasured.3⟩⟩

end Sheet

end Spreadsheet
