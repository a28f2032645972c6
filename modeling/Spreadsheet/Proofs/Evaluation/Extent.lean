import Spreadsheet.Evaluation.Evaluator
import Spreadsheet.Proofs.Expr.Proper
import Spreadsheet.Proofs.Geometry

/-
  Extents of results.

  The extent of a result is known from the references and
  arrays of an expression alone. An aggregate has one cell,
  and any other operation covers its operands.

  Main declarations:
    * `Site.extent`
    * `Site.one_fits_extent`
    * `Site.extent_fits_reach`
    * `Site.Outgrows.extent_fits`
-/

namespace Spreadsheet

------------------------------------------------------------
-- Sizes That Cover Others
------------------------------------------------------------

namespace Size

/- The least size that covers all sizes of a list. -/
theorem foldl_sup_fits_iff
    {l : List Size}
    {a t : Size} :
    (l.foldl sup a).Fits t ↔ a.Fits t ∧ ∀ s ∈ l, s.Fits t := by
  induction l generalizing a with
  | nil => simp
  | cons s l ih =>
      rw [List.foldl_cons, ih]
      simp only [List.mem_cons, forall_eq_or_imp, ← and_assoc]
      refine and_congr_left fun _ => ?_
      simp only [Fits, sup]
      omega

theorem fits_foldl_sup (l : List Size) (a : Size) :
    a.Fits (l.foldl sup a) :=
  (foldl_sup_fits_iff.mp (Fits.refl _)).1

theorem fits_foldl_sup_of_mem
    {l : List Size}
    {s : Size}
    (hMem : s ∈ l)
    (a : Size) :
    s.Fits (l.foldl sup a) :=
  (foldl_sup_fits_iff.mp (Fits.refl _)).2 s hMem

theorem one_sup {s : Size} (hFits : one.Fits s) : one.sup s = s := by
  simp only [Fits, one] at hFits
  ext <;> simp only [one, sup] <;> omega

theorem area_le {s t : Size} (hFits : s.Fits t) :
    s.area ≤ t.area :=
  Nat.mul_le_mul hFits.1 hFits.2

end Size

------------------------------------------------------------
-- Extents
------------------------------------------------------------

namespace Site

variable {s : Site}

/- The extent of the result of an expression. -/
def extent (s : Site) : Expr → Size
  | .leaf _ l => (s.operand l).2
  | .apply _ (.aggregate _) _ => Size.one
  | .apply _ _ args => (args.map s.extent).foldl Size.sup Size.one

/- The extent that covers the first operands of a list. -/
def spanned (s : Site) (args : List Expr) (i : Nat) : Size :=
  ((args.take i).map s.extent).foldl Size.sup Size.one

theorem spanned_zero (args : List Expr) :
    s.spanned args 0 = Size.one := rfl

theorem spanned_succ
    {args : List Expr}
    {i : Nat}
    {a : Expr}
    (hArg : args[i]? = some a) :
    s.spanned args (i + 1) =
      (s.spanned args i).sup (s.extent a) := by
  rw [spanned, List.take_add_one, hArg]
  simp [spanned]

/- The cells of a reference on the sheet. -/
theorem one_fits_toRect?
    {r : Reference}
    {p : Point}
    {bounds : Size}
    {a : Rect}
    (hBounds : Size.one.Fits bounds)
    (hRect : r.toRect? p bounds = some a) :
    Size.one.Fits a.size := by
  cases r with
  | cell x y =>
      cases hRect
      exact Size.Fits.refl _
  | area x y =>
      cases hRect
      simp only [Size.Fits, Size.one, Rect.spanning]
      omega
  | band axis span =>
      cases hRect
      simp only [Size.Fits, Size.one] at hBounds ⊢
      cases axis <;>
        (simp only [Rect.band, Rect.of, Span.count]
         omega)
  | illegal => cases hRect

theorem one_fits_operand
    (s : Site)
    {l : Leaf}
    (hProper : l.Proper) :
    Size.one.Fits (s.operand l).2 := by
  cases l with
  | constant v => exact Size.Fits.refl _
  | array a => exact hProper
  | unreadable e cs => exact Size.Fits.refl _
  | reference i =>
      rw [operand]
      split
      · unfold referenceOperand
        split
        · split
          · exact Size.Fits.refl _
          · rename_i hRect
            exact one_fits_toRect? (Size.fits_sup_right _ _) hRect
          · exact Size.Fits.refl _
        · exact Size.Fits.refl _
      · exact Size.Fits.refl _

/- A result has at least one cell. -/
theorem one_fits_extent
    (s : Site)
    {e : Expr}
    (hProper : e.Proper) :
    Size.one.Fits (s.extent e) := by
  cases hProper with
  | leaf _ hLeaf =>
      rw [extent]
      exact s.one_fits_operand hLeaf
  | @apply _ op args _ _ =>
      unfold extent
      split
      · rename_i hEq
        cases hEq
      · exact Size.Fits.refl _
      · exact Size.fits_foldl_sup _ _

/- A result of several cells covers all of its operands. -/
theorem extent_apply
    (s : Site)
    (bracketed : Bool)
    {op : Operation}
    (hOp : ∀ f, op ≠ .aggregate f)
    (args : List Expr) :
    s.extent (.apply bracketed op args) =
      s.spanned args args.length := by
  rw [extent, spanned, List.take_length]
  intro f
  exact hOp f

/- The extent of a result lies within that of all leaves. -/
theorem extent_fits_reach
    (s : Site)
    {e : Expr}
    (hProper : e.Proper) :
    (s.extent e).Fits (s.reach e) := by
  induction hProper with
  | leaf b hLeaf =>
      rw [extent, reach]
      exact Size.Fits.refl _
  | @apply b op args _ _ ih =>
      rw [reach]
      unfold extent
      split
      · rename_i hEq
        cases hEq
      · exact Size.fits_foldl_sup _ _
      · rename_i hEq
        cases hEq
        rw [Size.foldl_sup_fits_iff]
        refine ⟨Size.fits_foldl_sup _ _, fun t ht => ?_⟩
        rcases List.mem_map.mp ht with ⟨a, ha, rfl⟩
        refine (ih a ha).trans ?_
        exact
          Size.fits_foldl_sup_of_mem (List.mem_map_of_mem ha) _

------------------------------------------------------------
-- Sheets That Grow
------------------------------------------------------------

/-
  The same formula at another time, when no less of the sheet
  is in use.
-/
structure Outgrows (s t : Site) : Prop where
  refs : t.refs = s.refs
  location : t.location = s.location
  bounds : s.bounds.Fits t.bounds

/- Whole columns and rows become longer, if anything. -/
theorem Outgrows.operand_fits
    {t : Site}
    (hGrown : s.Outgrows t)
    (l : Leaf) :
    (s.operand l).2.Fits (t.operand l).2 := by
  cases l with
  | constant v => exact Size.Fits.refl _
  | array a => exact Size.Fits.refl _
  | unreadable e cs => exact Size.Fits.refl _
  | reference i =>
      rw [operand, operand, hGrown.refs]
      cases s.refs[i]? with
      | none => exact Size.Fits.refl _
      | some r =>
          dsimp only
          unfold referenceOperand
          rw [hGrown.location]
          by_cases hOn : r.onSheet s.location = true
          · rw [if_pos hOn, if_pos hOn]
            cases r with
            | cell x y => exact Size.Fits.refl _
            | area x y => exact Size.Fits.refl _
            | illegal => exact Size.Fits.refl _
            | band axis span =>
                have hBounds := hGrown.bounds
                simp only [Size.Fits] at hBounds
                cases axis <;>
                  simp [Reference.toRect?, Rect.band, Rect.of,
                    Size.Fits, hBounds]
          · rw [if_neg hOn, if_neg hOn]
            exact Size.Fits.refl _

/- So do the results that are computed from them. -/
theorem Outgrows.extent_fits
    {t : Site}
    (hGrown : s.Outgrows t)
    {e : Expr}
    (hProper : e.Proper) :
    (s.extent e).Fits (t.extent e) := by
  induction hProper with
  | leaf b hLeaf =>
      rw [extent, extent]
      exact hGrown.operand_fits _
  | @apply b op args _ _ ih =>
      by_cases hOp : ∃ f, op = .aggregate f
      · rcases hOp with ⟨f, rfl⟩
        rw [extent, extent]
        exact Size.Fits.refl _
      · have hOther : ∀ f, op ≠ .aggregate f :=
          fun f hEq => hOp ⟨f, hEq⟩
        rw [s.extent_apply b hOther, t.extent_apply b hOther,
          spanned, spanned, List.take_length]
        rw [Size.foldl_sup_fits_iff]
        refine ⟨Size.fits_foldl_sup _ _, fun u hu => ?_⟩
        rcases List.mem_map.mp hu with ⟨a, ha, rfl⟩
        refine (ih a ha).trans ?_
        exact
          Size.fits_foldl_sup_of_mem (List.mem_map_of_mem ha) _

theorem extent_eq
    {t : Site}
    (hRefs : t.refs = s.refs)
    (hLocation : t.location = s.location)
    (hSize : t.grid.size = s.grid.size)
    {e : Expr}
    (hProper : e.Proper) :
    t.extent e = s.extent e := by
  have hBounds : t.bounds = s.bounds := by
    rw [bounds, bounds, hSize]
  have hThere : s.Outgrows t :=
    ⟨hRefs, hLocation, hBounds ▸ Size.Fits.refl _⟩
  have hBack : t.Outgrows s :=
    ⟨hRefs.symm, hLocation.symm, hBounds ▸ Size.Fits.refl _⟩
  exact
    (hBack.extent_fits hProper).antisymm (hThere.extent_fits hProper)

end Site

end Spreadsheet
