import Spreadsheet.Proofs.Evaluation.Later
import Spreadsheet.Proofs.LinkedArena.Threads

/-
  Sites in which formulas come to be calculated.

  Nothing else changes: what could be read before is the same
  afterwards, and results take no other cells.

  Main declarations:
    * `Site.IsStale`
    * `Site.Ripens`
    * `Site.Ripens.read`
    * `Site.Ripens.later`
    * `Site.ripens_calculate`
-/

namespace Spreadsheet

namespace Site

/- A formula has still to be calculated. -/
def IsStale (s : Site) (id : Handle) : Prop :=
  ∃ f, s.formulas.get? id = some f ∧
    f.isPending s.generation = true

instance (s : Site) (id : Handle) : Decidable (s.IsStale id) :=
  decidable_of_iff
    ((s.formulas.get? id).any (·.isPending s.generation) = true)
    (Option.any_eq_true _ _)

/- The site after a formula was calculated. -/
def calculate (s : Site) (id : Handle) (v : Scalar) : Site :=
  { s with
    formulas :=
      s.formulas.modify id fun f =>
        { f.finish s.generation false with value := v } }

/-
  A site later on, when formulas may have been calculated that
  had still to be. Other formulas and cells are the same, and
  the cells of such a formula remain its own.
-/
structure Ripens (s t : Site) : Prop where
  size : t.grid.size = s.grid.size
  refs : t.refs = s.refs
  location : t.location = s.location
  generation : t.generation = s.generation
  formulas :
    ∀ id, t.formulas.get? id = s.formulas.get? id ∨ s.IsStale id
  cells :
    ∀ p, t.grid.get? p = s.grid.get? p ∨
      ∃ id v w,
        s.grid.get? p = some (.extension id v) ∧
        t.grid.get? p = some (.extension id w) ∧
        s.IsStale id

variable {s t u : Site}

theorem Ripens.isStale
    (hRipens : s.Ripens t)
    {id : Handle}
    (hStale : t.IsStale id) :
    s.IsStale id := by
  rcases hRipens.formulas id with hSame | hWas
  · obtain ⟨f, hf, hPending⟩ := hStale
    exact ⟨f, hSame ▸ hf, hRipens.generation ▸ hPending⟩
  · exact hWas

theorem Ripens.refl (s : Site) : s.Ripens s :=
  ⟨rfl, rfl, rfl, rfl, fun _ => Or.inl rfl, fun _ => Or.inl rfl⟩

theorem Ripens.trans
    (hFirst : s.Ripens t)
    (hNext : t.Ripens u) :
    s.Ripens u where
  size := hNext.size.trans hFirst.size
  refs := hNext.refs.trans hFirst.refs
  location := hNext.location.trans hFirst.location
  generation := hNext.generation.trans hFirst.generation
  formulas id := by
    rcases hNext.formulas id with hSame | hStale
    · rw [hSame]
      exact hFirst.formulas id
    · exact Or.inr (hFirst.isStale hStale)
  cells p := by
    rcases hNext.cells p with hSame | ⟨id, v, w, hv, hw, hStale⟩
    · rw [hSame]
      exact hFirst.cells p
    · refine Or.inr ?_
      rcases hFirst.cells p with
        hBefore | ⟨id', v', w', hv', hw', hStale'⟩
      · exact ⟨id, v, w, hBefore ▸ hv, hw, hFirst.isStale hStale⟩
      · rw [hv, Option.some.injEq, Cell.extension.injEq] at hw'
        obtain ⟨rfl, rfl⟩ := hw'
        exact ⟨id, v', w, hv', hw, hStale'⟩

instance : Trans Ripens Ripens Ripens where
  trans := Ripens.trans

theorem ripens_calculate
    {id : Handle}
    (hStale : s.IsStale id)
    (v : Scalar) :
    s.Ripens (s.calculate id v) where
  size := rfl
  refs := rfl
  location := rfl
  generation := rfl
  formulas k := by
    rw [calculate, LinkedArena.get?_modify]
    split
    · rename_i hSame
      exact Or.inr (hSame ▸ hStale)
    · exact Or.inl rfl
  cells _ := Or.inl rfl

/- A cell that can be read is not that of a stale formula. -/
theorem not_isStale_of_pending?
    {c : Cell}
    {id : Handle}
    (hOwner : c.owner? = some id)
    (hNone : s.pending? c = none) :
    ¬ s.IsStale id := by
  rintro ⟨f, hf, hPending⟩
  simp [pending?, hOwner, hf, hPending] at hNone

/- A cell that can be read keeps its content. -/
theorem Ripens.cell_eq
    (hRipens : s.Ripens t)
    {p : Point}
    {c : Cell}
    (hCell : s.grid.get? p = some c)
    (hNone : s.pending? c = none) :
    t.grid.get? p = some c := by
  rcases hRipens.cells p with hSame | ⟨id, v, w, hv, -, hStale⟩
  · rw [hSame, hCell]
  · obtain rfl := Option.some.inj (hCell.symm.trans hv)
    exact absurd hStale (not_isStale_of_pending? rfl hNone)

/- The formula of a cell that can be read is the same. -/
theorem Ripens.formula_eq
    (hRipens : s.Ripens t)
    {c : Cell}
    {id : Handle}
    (hOwner : c.owner? = some id)
    (hNone : s.pending? c = none) :
    t.formulas.get? id = s.formulas.get? id :=
  (hRipens.formulas id).resolve_right
    (not_isStale_of_pending? hOwner hNone)

/- What could be read is read again. -/
theorem Ripens.read
    (hRipens : s.Ripens t)
    {p : Point}
    {v : Scalar}
    (hRead : s.read p = .value v) :
    t.read p = .value v := by
  unfold Site.read at hRead ⊢
  cases hCell : s.grid.get? p with
  | none =>
      have hSame : t.grid.get? p = none := by
        rcases hRipens.cells p with hSame | ⟨id, w, w', hw, -, -⟩
        · rw [hSame, hCell]
        · rw [hCell] at hw
          cases hw
      rw [hCell] at hRead
      rw [hSame]
      exact hRead
  | some c =>
      rw [hCell] at hRead
      dsimp only at hRead
      cases hNone : s.pending? c with
      | some x =>
          rw [hNone] at hRead
          dsimp only at hRead
          split at hRead <;> cases hRead
      | none =>
          have hFormula :
              ∀ {id}, c.owner? = some id →
                t.formulas.get? id = s.formulas.get? id :=
            fun hOwner => hRipens.formula_eq hOwner hNone
          have hPending : t.pending? c = s.pending? c := by
            unfold pending?
            cases hOwner : c.owner? with
            | none => rfl
            | some id =>
                simp [hFormula hOwner, hRipens.generation]
          have hScalar :
              c.scalar? t.formulas = c.scalar? s.formulas := by
            cases c with
            | value w => rfl
            | formula id => simp [Cell.scalar?, hFormula rfl]
            | extension id w => rfl
          rw [hRipens.cell_eq hCell hNone]
          dsimp only
          rw [hPending, hScalar]
          exact hRead

theorem Ripens.blocks
    (hRipens : s.Ripens t)
    (owner : Handle)
    (p : Point) :
    (t.grid.get? p).any (Registers.blocks owner) =
      (s.grid.get? p).any (Registers.blocks owner) := by
  rcases hRipens.cells p with hSame | ⟨id, v, w, hv, hw, -⟩
  · rw [hSame]
  · rw [hv, hw]
    rfl

theorem Ripens.later (hRipens : s.Ripens t) : s.Later t :=
  ⟨hRipens.size, hRipens.blocks, hRipens.refs, hRipens.location,
    hRipens.read⟩

/- A formula that a cell waits for has still to be calculated. -/
theorem isStale_of_read
    {p : Point}
    {id : Handle}
    (hPending : s.read p = .pending id) :
    s.IsStale id := by
  unfold read at hPending
  cases hCell : s.grid.get? p with
  | none => simp [hCell] at hPending
  | some c =>
      rw [hCell] at hPending
      dsimp only at hPending
      cases hWaits : s.pending? c with
      | none => simp [hWaits] at hPending
      | some x =>
          obtain ⟨id', f⟩ := x
          rw [hWaits] at hPending
          dsimp only at hPending
          split at hPending
          · cases hPending
          · obtain rfl := CellReading.pending.inj hPending
            simp only [pending?, Option.bind_eq_bind,
              Option.bind_eq_some_iff] at hWaits
            obtain ⟨id, hOwner, g, hg, hIf⟩ := hWaits
            split at hIf
            · rename_i hStale
              cases hIf
              exact ⟨_, hg, hStale⟩
            · cases hIf

end Site

end Spreadsheet
