import Mathlib.Data.List.Range
import Spreadsheet.Evaluation.Operand
import Spreadsheet.Proofs.Geometry

/-
  The offsets of a size, one after the other.

  Main declarations:
    * `Size.next?_of_points`
    * `Rect.points_eq_map`
    * `ScalarArray.data_eq_map`
-/

namespace Spreadsheet

------------------------------------------------------------
-- Offsets In Order
------------------------------------------------------------

namespace Size

/- A size of the same area that covers another one is equal. -/
theorem Fits.eq_of_area
    {s t : Size}
    (hFits : s.Fits t)
    (hOne : one.Fits s)
    (hArea : t.area ≤ s.area) :
    s = t := by
  have hWidth : t.width ≤ s.width := by
    by_contra hLess
    have hMore : s.width * s.height < t.width * t.height :=
      Nat.mul_lt_mul_of_lt_of_le (by omega) hFits.2
        (hOne.2.trans hFits.2)
    simp only [area] at hArea
    omega
  have hHeight : t.height ≤ s.height := by
    by_contra hLess
    have hMore : s.width * s.height < t.width * t.height :=
      Nat.mul_lt_mul_of_le_of_lt hFits.1 (by omega)
        (hOne.1.trans hFits.1)
    simp only [area] at hArea
    omega
  exact hFits.antisymm ⟨hWidth, hHeight⟩

theorem length_points (s : Size) :
    (Rect.whole s).points.length = s.area := by
  simp [Rect.points, Rect.whole, area, Nat.mul_comm]

/- The offsets of a size start with the first one. -/
theorem points_eq_cons {s : Size} (hOne : one.Fits s) :
    ∃ after, (Rect.whole s).points = Point.zero :: after := by
  simp only [Fits, one] at hOne
  have hRows : s.height = s.height - 1 + 1 := by omega
  have hColumns : s.width = s.width - 1 + 1 := by omega
  rw [Rect.points, Rect.whole]
  dsimp only
  rw [hRows, hColumns, List.range_succ_eq_map,
    List.range_succ_eq_map]
  exact ⟨_, rfl⟩

/- Each offset is followed by the next one of the list. -/
theorem next?_of_points
    {s : Size}
    {before after : List Point}
    {p : Point}
    (hPoints : (Rect.whole s).points = before ++ p :: after) :
    s.next? p = after.head? := by
  have hMem :
      ∀ q, q ∈ before ++ p :: after ↔
        q.x < s.width ∧ q.y < s.height := by
    intro q
    rw [← hPoints, Rect.mem_points, Rect.contains_whole,
      contains_iff]
  have hSorted := (Rect.whole s).pairwise_points
  rw [hPoints, List.pairwise_append] at hSorted
  rcases hSorted with ⟨-, hSorted, hBefore⟩
  rw [List.pairwise_cons] at hSorted
  have hHere := (hMem p).mp (by simp)
  -- what comes later in the order comes later in the list
  have hLater :
      ∀ {q : Point}, q.x < s.width → q.y < s.height →
        p.y < q.y ∨ p.y = q.y ∧ p.x < q.x → q ∈ after := by
    intro q hx hy hLess
    have hIn := (hMem q).mpr ⟨hx, hy⟩
    rw [List.mem_append, List.mem_cons] at hIn
    rcases hIn with hIn | rfl | hIn
    · have hOther := hBefore q hIn p List.mem_cons_self
      omega
    · omega
    · exact hIn
  cases after with
  | nil =>
      have hNone :
          ∀ {q : Point}, q.x < s.width → q.y < s.height →
            ¬ (p.y < q.y ∨ p.y = q.y ∧ p.x < q.x) := by
        intro q hx hy hLess
        cases hLater hx hy hLess
      unfold next?
      rw [if_neg, if_neg]
      · rfl
      · intro hRow
        exact hNone (q := ⟨0, p.y + 1⟩) (by dsimp only; omega) hRow
          (Or.inl (Nat.lt_succ_self _))
      · intro hColumn
        exact hNone (q := ⟨p.x + 1, p.y⟩) hColumn hHere.2
          (Or.inr ⟨rfl, Nat.lt_succ_self _⟩)
  | cons q after =>
      have hNext := hSorted.1 q List.mem_cons_self
      have hInside := (hMem q).mp (by simp)
      -- nothing lies between the two
      have hFirst :
          ∀ {o : Point}, o.x < s.width → o.y < s.height →
            p.y < o.y ∨ p.y = o.y ∧ p.x < o.x →
              o = q ∨ q.y < o.y ∨ q.y = o.y ∧ q.x < o.x := by
        intro o hx hy hLess
        rcases List.mem_cons.mp (hLater hx hy hLess) with hEq | hIn
        · exact Or.inl hEq
        · exact
            Or.inr
              ((List.pairwise_cons.mp hSorted.2).1 o hIn)
      unfold next?
      rw [List.head?_cons]
      split
      · rename_i hColumn
        have hEq :=
          hFirst (o := ⟨p.x + 1, p.y⟩) hColumn hHere.2
            (Or.inr ⟨rfl, Nat.lt_succ_self _⟩)
        rw [Point.ext_iff] at hEq
        rw [Option.some.injEq, Point.ext_iff]
        dsimp only at hEq ⊢
        omega
      · rename_i hColumn
        split
        · rename_i hRow
          have hEq :=
            hFirst (o := ⟨0, p.y + 1⟩) (by dsimp only; omega) hRow
              (Or.inl (Nat.lt_succ_self _))
          rw [Point.ext_iff] at hEq
          rw [Option.some.injEq, Point.ext_iff]
          dsimp only at hEq ⊢
          omega
        · omega

/- Only the first offset is zero. -/
theorem ne_zero_of_points
    {s : Size}
    {before after : List Point}
    {p : Point}
    (hPoints : (Rect.whole s).points = before ++ p :: after)
    {q : Point}
    (hIn : q ∈ after) :
    q ≠ Point.zero := by
  have hSorted := Rect.pairwise_points (.whole s)
  rw [hPoints, List.pairwise_append] at hSorted
  have hLess := (List.pairwise_cons.mp hSorted.2.1).1 q hIn
  rintro rfl
  simp only [Point.zero] at hLess
  omega

end Size

------------------------------------------------------------
-- Rectangles And Arrays
------------------------------------------------------------

/- The cells of a rectangle stand at the offsets of its size. -/
theorem Rect.points_eq_map (r : Rect) :
    r.points =
      (Rect.whole r.size).points.map (·.add r.origin.toSize) := by
  simp only [points, whole, List.map_flatMap, List.map_map]
  congr 1
  funext dy
  congr 1
  funext dx
  simp [Point.add, Point.toSize, Point.zero, Nat.add_comm]

/- An offset within a size stands for itself. -/
theorem Size.locate?_of_contains
    {s : Size}
    {p : Point}
    (hIn : s.contains p = true) :
    s.locate? p = some p := by
  rw [contains_iff] at hIn
  have hAlong :
      ∀ {side i : Nat}, i < side → locateAlong side i = some i := by
    intro side i hLess
    unfold locateAlong
    split
    · rw [Option.some.injEq]
      omega
    · rfl
  rw [locate?, hAlong hIn.1, hAlong hIn.2]
  rfl

/- The positions of the elements of rows, counted through. -/
theorem flatMap_range_eq_map
    {α : Type}
    (w h : Nat)
    (g : Nat → α) :
    ((List.range h).flatMap fun y =>
        (List.range w).map fun x => g (y * w + x)) =
      (List.range (h * w)).map g := by
  induction h with
  | zero => simp
  | succ h ih =>
      rw [List.range_succ, List.flatMap_append, ih, Nat.add_one_mul,
        List.range_add, List.map_append]
      simp

/- The elements of an array, in the order of its offsets. -/
theorem ScalarArray.data_eq_map (a : ScalarArray) :
    a.data.toList = (Rect.whole a.size).points.map a.element := by
  have hElement :
      ∀ y x, y < a.size.height → x < a.size.width →
        a.element ⟨x, y⟩ =
          (a.data[y * a.size.width + x]?).getD
            (.error .notAvailable) := by
    intro y x hy hx
    have hIn : a.size.contains ⟨x, y⟩ = true := by
      rw [Size.contains_iff]
      exact ⟨hx, hy⟩
    rw [element, Size.locate?_of_contains hIn, Option.bind_some, get?,
      if_pos hIn]
  have hRows :
      (Rect.whole a.size).points.map a.element =
        (List.range a.size.height).flatMap fun y =>
          (List.range a.size.width).map fun x =>
            (a.data[y * a.size.width + x]?).getD
              (.error .notAvailable) := by
    rw [Rect.points, Rect.whole, List.map_flatMap]
    dsimp only
    refine List.flatMap_congr fun y hy => ?_
    rw [List.map_map]
    refine List.map_congr_left fun x hx => ?_
    rw [List.mem_range] at hx hy
    rw [Function.comp_apply, Point.zero, Nat.zero_add, Nat.zero_add,
      hElement y x hy hx]
  rw [hRows,
    flatMap_range_eq_map a.size.width a.size.height fun i =>
      (a.data[i]?).getD (.error .notAvailable)]
  have hLength : a.data.toList.length = a.size.height * a.size.width := by
    rw [Array.length_toList, a.data_size, Size.area, Nat.mul_comm]
  refine List.ext_getElem (by simpa using hLength) fun i hi _ => ?_
  have hIn : i < a.data.size := by simpa using hi
  simp [hIn]

end Spreadsheet
