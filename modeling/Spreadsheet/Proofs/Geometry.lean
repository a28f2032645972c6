import Mathlib.Data.List.Basic
import Mathlib.Data.List.Nodup
import Mathlib.Data.List.Range
import Spreadsheet.Geometry

/-
  The cells of rectangles, as lists.

  Main declarations:
    * `Rect.mem_points`
    * `Rect.fold_eq_foldl`
    * `Rect.Enumerates`
-/

namespace Spreadsheet

------------------------------------------------------------
-- Points And Sizes
------------------------------------------------------------

attribute [ext] Point Size

namespace Point

@[simp] theorem along_setAlong
    (p : Point)
    (axis : Axis)
    (i : Nat) :
    (p.setAlong axis i).along axis = i := by
  cases axis <;> rfl

@[simp] theorem along_cross_setAlong
    (p : Point)
    (axis : Axis)
    (i : Nat) :
    (p.setAlong axis i).along axis.cross = p.along axis.cross := by
  cases axis <;> rfl

@[simp] theorem setAlong_along (p : Point) (axis : Axis) :
    p.setAlong axis (p.along axis) = p := by
  cases axis <;> rfl

@[simp] theorem setAlong_setAlong
    (p : Point)
    (axis : Axis)
    (i j : Nat) :
    (p.setAlong axis i).setAlong axis j = p.setAlong axis j := by
  cases axis <;> rfl

end Point

namespace Size

@[simp] theorem along_setAlong (s : Size) (axis : Axis) (n : Nat) :
    (s.setAlong axis n).along axis = n := by
  cases axis <;> rfl

@[simp] theorem along_cross_setAlong
    (s : Size)
    (axis : Axis)
    (n : Nat) :
    (s.setAlong axis n).along axis.cross = s.along axis.cross := by
  cases axis <;> rfl

theorem contains_iff {s : Size} {p : Point} :
    s.contains p = true ↔ p.x < s.width ∧ p.y < s.height := by
  simp [contains]

/- One size is not larger than another, on either side. -/
def Fits (s t : Size) : Prop :=
  s.width ≤ t.width ∧ s.height ≤ t.height

instance (s t : Size) : Decidable (s.Fits t) :=
  inferInstanceAs (Decidable (_ ∧ _))

theorem Fits.refl (s : Size) : s.Fits s :=
  ⟨le_rfl, le_rfl⟩

theorem Fits.trans
    {s t u : Size}
    (hFirst : s.Fits t)
    (hSecond : t.Fits u) :
    s.Fits u :=
  ⟨hFirst.1.trans hSecond.1, hFirst.2.trans hSecond.2⟩

theorem Fits.antisymm
    {s t : Size}
    (hFits : s.Fits t)
    (hFits' : t.Fits s) :
    s = t :=
  Size.ext (le_antisymm hFits.1 hFits'.1)
    (le_antisymm hFits.2 hFits'.2)

theorem Fits.contains
    {s t : Size}
    (hFits : s.Fits t)
    {p : Point}
    (hIn : s.contains p = true) :
    t.contains p = true := by
  rw [contains_iff] at hIn ⊢
  exact ⟨hIn.1.trans_le hFits.1, hIn.2.trans_le hFits.2⟩

theorem fits_sup_left (s t : Size) : s.Fits (s.sup t) :=
  ⟨le_max_left _ _, le_max_left _ _⟩

theorem fits_sup_right (s t : Size) : t.Fits (s.sup t) :=
  ⟨le_max_right _ _, le_max_right _ _⟩

theorem sup_fits
    {s t u : Size}
    (hLeft : s.Fits u)
    (hRight : t.Fits u) :
    (s.sup t).Fits u :=
  ⟨max_le hLeft.1 hRight.1, max_le hLeft.2 hRight.2⟩

end Size

------------------------------------------------------------
-- Rectangles
------------------------------------------------------------

namespace Rect

theorem contains_iff {r : Rect} {p : Point} :
    r.contains p = true ↔
      (r.origin.x ≤ p.x ∧ p.x < r.origin.x + r.size.width) ∧
        r.origin.y ≤ p.y ∧ p.y < r.origin.y + r.size.height := by
  simp only [contains, Bool.and_eq_true, decide_eq_true_eq]
  omega

theorem contains_single {p q : Point} :
    (single p).contains q = true ↔ q = p := by
  rw [contains_iff, Point.ext_iff]
  simp only [single, Size.one]
  omega

theorem mem_points {r : Rect} {p : Point} :
    p ∈ r.points ↔ r.contains p = true := by
  simp only [points, List.mem_flatMap, List.mem_range, List.mem_map,
    contains_iff]
  constructor
  · rintro ⟨dy, hRow, dx, hColumn, rfl⟩
    dsimp only
    omega
  · intro hIn
    refine ⟨p.y - r.origin.y, by omega, p.x - r.origin.x, by omega, ?_⟩
    ext <;> dsimp only <;> omega

theorem nodup_points (r : Rect) : r.points.Nodup := by
  rw [points, List.nodup_flatMap]
  constructor
  · intro dy _
    refine List.Nodup.map ?_ List.nodup_range
    intro a b hEq
    have hColumn := (Point.ext_iff.mp hEq).1
    dsimp only at hColumn
    omega
  · refine List.Pairwise.imp ?_ List.nodup_range
    intro a b hOther
    rw [Function.onFun_apply, List.disjoint_left]
    intro p hFirst hSecond
    simp only [List.mem_map] at hFirst hSecond
    rcases hFirst with ⟨dx, _, rfl⟩
    rcases hSecond with ⟨dx', _, hEq⟩
    have hRow := (Point.ext_iff.mp hEq).2
    dsimp only at hRow
    exact hOther (by omega)

/- Cells are listed from the top, and rows from the left. -/
theorem pairwise_points (r : Rect) :
    r.points.Pairwise fun p q =>
      p.y < q.y ∨ p.y = q.y ∧ p.x < q.x := by
  rw [points, List.pairwise_flatMap]
  constructor
  · intro dy _
    rw [List.pairwise_map]
    refine List.Pairwise.imp ?_ List.pairwise_lt_range
    intro a b hLess
    right
    dsimp only
    omega
  · refine List.Pairwise.imp ?_ List.pairwise_lt_range
    intro a b hLess p hFirst q hSecond
    simp only [List.mem_map] at hFirst hSecond
    rcases hFirst with ⟨dx, _, rfl⟩
    rcases hSecond with ⟨dx', _, rfl⟩
    left
    dsimp only
    omega

theorem points_eq_nil
    {r : Rect}
    (hEmpty : r.isEmpty = true) :
    r.points = [] := by
  rw [List.eq_nil_iff_forall_not_mem]
  intro p hIn
  rw [mem_points, contains_iff] at hIn
  simp only [isEmpty, Size.isEmpty, Bool.or_eq_true,
    beq_iff_eq] at hEmpty
  omega

/- The cells that two rectangles share. -/
theorem contains_intersection
    {r s t : Rect}
    (hShared : r.intersection s = some t)
    (p : Point) :
    t.contains p = true ↔
      r.contains p = true ∧ s.contains p = true := by
  unfold intersection at hShared
  dsimp only at hShared
  split at hShared
  · cases hShared
    simp only [contains_iff, of, endPoint, Point.add] at *
    omega
  · cases hShared

theorem intersection_eq_none
    {r s : Rect}
    (hApart : r.intersection s = none)
    {p : Point}
    (hFirst : r.contains p = true) :
    ¬ s.contains p = true := by
  unfold intersection at hApart
  dsimp only at hApart
  split at hApart
  · cases hApart
  · simp only [contains_iff, endPoint, Point.add] at *
    omega

theorem contains_whole {s : Size} {p : Point} :
    (whole s).contains p = true ↔ s.contains p = true := by
  rw [contains_iff, Size.contains_iff]
  simp [whole, Point.zero]

/- Clipping leaves the cells that lie on the sheet. -/
theorem contains_clip {r : Rect} {p : Point} :
    r.clip.contains p = true ↔
      r.contains p = true ∧ maxSize.contains p = true := by
  simp only [contains_iff, Size.contains_iff, clip, Size.inf,
    Size.toPoint, Point.diff]
  omega

------------------------------------------------------------
-- Running Through Cells
------------------------------------------------------------

theorem foldIndices_eq_foldl
    {τ : Type}
    (f : Nat → τ → τ)
    (count start : Nat)
    (t : τ) :
    foldIndices f count start t =
      ((List.range count).map (start + ·)).foldl
        (fun t i => f i t) t := by
  rw [← List.range'_eq_map_range]
  induction count generalizing start t with
  | zero => rfl
  | succ count ih =>
      rw [foldIndices, List.range'_succ, List.foldl_cons, ih]

theorem fold_eq_foldl
    {τ : Type}
    (r : Rect)
    (f : Point → τ → τ)
    (t : τ) :
    r.fold f t = r.points.foldl (fun t p => f p t) t := by
  rw [fold, foldIndices_eq_foldl, points, List.foldl_flatMap,
    List.foldl_map]
  congr 1
  funext t dy
  rw [foldIndices_eq_foldl, List.foldl_map, List.foldl_map]

theorem foldIndicesUntil_eq_foldlM
    {ε τ : Type}
    (f : Nat → τ → Except ε τ)
    (count start : Nat)
    (t : τ) :
    foldIndicesUntil f count start t =
      ((List.range count).map (start + ·)).foldlM
        (fun t i => f i t) t := by
  rw [← List.range'_eq_map_range]
  induction count generalizing start t with
  | zero => rfl
  | succ count ih =>
      rw [foldIndicesUntil, List.range'_succ, List.foldlM_cons]
      cases f start t with
      | error e => rfl
      | ok t => exact ih (start + 1) t

theorem foldUntil_eq_foldlM
    {ε τ : Type}
    (r : Rect)
    (f : Point → τ → Except ε τ)
    (t : τ) :
    r.foldUntil f t = r.points.foldlM (fun t p => f p t) t := by
  rw [foldUntil, foldIndicesUntil_eq_foldlM, points,
    List.foldlM_map]
  -- row by row
  induction List.range r.size.height generalizing t with
  | nil => rfl
  | cons dy rows ih =>
      rw [List.foldlM_cons, List.flatMap_cons, List.foldlM_append,
        foldIndicesUntil_eq_foldlM, List.foldlM_map,
        List.foldlM_map]
      congr 1
      funext t
      exact ih t

theorem anyIndex_eq_true_iff
    (f : Nat → Bool)
    (count start : Nat) :
    anyIndex f count start = true ↔
      ∃ i, start ≤ i ∧ i < start + count ∧ f i = true := by
  induction count generalizing start with
  | zero =>
      simp only [anyIndex, Bool.false_eq_true, false_iff]
      rintro ⟨i, hLow, hHigh, -⟩
      omega
  | succ count ih =>
      rw [anyIndex, Bool.or_eq_true, ih]
      constructor
      · rintro (hFirst | ⟨i, hLow, hHigh, hTest⟩)
        · exact ⟨start, le_rfl, by omega, hFirst⟩
        · exact ⟨i, by omega, by omega, hTest⟩
      · rintro ⟨i, hLow, hHigh, hTest⟩
        by_cases hFirst : i = start
        · exact Or.inl (hFirst ▸ hTest)
        · exact Or.inr ⟨i, by omega, by omega, hTest⟩

theorem any_eq_true_iff (r : Rect) (f : Point → Bool) :
    r.any f = true ↔ ∃ p, r.contains p = true ∧ f p = true := by
  rw [any, anyIndex_eq_true_iff]
  constructor
  · rintro ⟨y, hLow, hHigh, hRow⟩
    rw [anyIndex_eq_true_iff] at hRow
    rcases hRow with ⟨x, hLeft, hRight, hTest⟩
    exact ⟨⟨x, y⟩, contains_iff.mpr ⟨⟨hLeft, hRight⟩, hLow, hHigh⟩,
      hTest⟩
  · rintro ⟨p, hIn, hTest⟩
    rw [contains_iff] at hIn
    refine ⟨p.y, hIn.2.1, hIn.2.2, ?_⟩
    rw [anyIndex_eq_true_iff]
    exact ⟨p.x, hIn.1.1, hIn.1.2, hTest⟩

/- A list of the cells of a rectangle, in some order. -/
structure Enumerates (r : Rect) (l : List Point) : Prop where
  nodup : l.Nodup
  mem_iff : ∀ p, p ∈ l ↔ r.contains p = true

theorem enumerates_points (r : Rect) : r.Enumerates r.points :=
  ⟨r.nodup_points, fun _ => mem_points⟩

/-
  A list for a rectangle consists of lists for two parts that
  share no cell.
-/
theorem Enumerates.append
    {r s t : Rect}
    {l m : List Point}
    (hLeft : s.Enumerates l)
    (hRight : t.Enumerates m)
    (hParts :
      ∀ p, r.contains p = true ↔
        s.contains p = true ∨ t.contains p = true)
    (hApart :
      ∀ p, s.contains p = true → ¬ t.contains p = true) :
    r.Enumerates (l ++ m) where
  nodup := by
    refine hLeft.nodup.append hRight.nodup ?_
    intro p hFirst hSecond
    exact hApart p ((hLeft.mem_iff p).mp hFirst)
      ((hRight.mem_iff p).mp hSecond)
  mem_iff p := by
    rw [List.mem_append, hLeft.mem_iff, hRight.mem_iff, hParts]

end Rect

end Spreadsheet
