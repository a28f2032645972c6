import Spreadsheet.Proofs.IntervalMap.Dense

/-
  Inserting indices and erasing them again.

  What was inserted strictly inside an interval cuts it in two
  when it is erased. The parts are joined again, since they
  share their value, unless that value is not equal to itself.

  Main declarations:
    * `Intervals.tornAt`
    * `Intervals.append_below_above`
    * `IntervalMap.intervals_erase_insert`
    * `IntervalMap.erase_insert`
-/

namespace Spreadsheet

namespace Intervals

variable {V : Type}

------------------------------------------------------------
-- Cutting What Was Inserted Away
------------------------------------------------------------

theorem below_insertIndices
    {b count : Nat}
    (hCount : 0 < count)
    (rs : List (Interval V)) :
    below b (rs.map (Interval.insertIndices b count)) =
      below b rs := by
  induction rs with
  | nil => rfl
  | cons r rest ih =>
      unfold below at ih ⊢
      rw [List.map_cons, List.filter_cons, List.filter_cons]
      grind [Interval.insertIndices, Interval.shiftUp]

theorem above_insertIndices
    {b count : Nat}
    (hCount : 0 < count)
    (rs : List (Interval V)) :
    (above (b + count)
        (rs.map (Interval.insertIndices b count))).map
          (·.shiftDown count) =
      above b rs := by
  induction rs with
  | nil => rfl
  | cons r rest ih =>
      unfold above at ih ⊢
      rw [List.map_cons, List.filter_cons, List.filter_cons]
      grind [Interval.insertIndices, Interval.shiftUp,
        Interval.shiftDown]

------------------------------------------------------------
-- Joining The Parts
------------------------------------------------------------

/- An index lies inside an interval and does not start it. -/
def Interior (b : Nat) (r : Interval V) : Prop :=
  r.start < b ∧ b < r.stop

instance (b : Nat) (r : Interval V) : Decidable (Interior b r) :=
  inferInstanceAs (Decidable (_ ∧ _))

theorem below_eq_nil
    {b : Nat}
    {rs : List (Interval V)}
    (hAfter : ∀ r ∈ rs, b ≤ r.start) :
    below b rs = [] := by
  have hNone : rs.filter (·.start < b) = [] := by
    rw [List.filter_eq_nil_iff]
    intro r hr
    have := hAfter r hr
    simpa using this
  rw [below, hNone]
  rfl

theorem above_eq_self
    {b : Nat}
    {rs : List (Interval V)}
    (hFilled : ∀ r ∈ rs, r.start < r.stop)
    (hAfter : ∀ r ∈ rs, b ≤ r.start) :
    above b rs = rs := by
  induction rs with
  | nil => rfl
  | cons r rest ih =>
      rw [List.forall_mem_cons] at hFilled hAfter
      have hRest := ih hFilled.2 hAfter.2
      have hStart : max r.start b = r.start := by omega
      unfold above at hRest ⊢
      rw [List.filter_cons_of_pos (by simp; omega), List.map_cons,
        hRest, hStart]

section Torn

variable [BEq V]

/-
  What is left of an interval that was cut at an index: two
  parts, if its value is not equal to itself.
-/
def tornAt (b : Nat) (r : Interval V) : List (Interval V) :=
  if Interior b r ∧ (r.value == r.value) = false then
    [⟨r.start, b, r.value⟩, ⟨b, r.stop, r.value⟩]
  else
    [r]

theorem tornAt_of_not_interior
    {b : Nat}
    {r : Interval V}
    (hOutside : ¬ Interior b r) :
    tornAt b r = [r] :=
  if_neg fun hTorn => hOutside hTorn.1

/- The first part starts as the interval did. -/
theorem exists_tornAt (b : Nat) (r : Interval V) :
    ∃ stop rest, tornAt b r = ⟨r.start, stop, r.value⟩ :: rest := by
  unfold tornAt
  split
  · exact ⟨b, _, rfl⟩
  · exact ⟨r.stop, [], rfl⟩

theorem flatMap_tornAt_of_whole
    {b : Nat}
    {rs : List (Interval V)}
    (hWhole : ∀ r ∈ rs, tornAt b r = [r]) :
    rs.flatMap (tornAt b) = rs := by
  induction rs with
  | nil => rfl
  | cons r rest ih =>
      rw [List.forall_mem_cons] at hWhole
      rw [List.flatMap_cons, hWhole.1, ih hWhole.2]
      rfl

theorem flatMap_tornAt_of_after
    {b : Nat}
    {rs : List (Interval V)}
    (hAfter : ∀ r ∈ rs, b ≤ r.start) :
    rs.flatMap (tornAt b) = rs := by
  refine flatMap_tornAt_of_whole fun r hr =>
    tornAt_of_not_interior ?_
  have := hAfter r hr
  unfold Interior
  omega

/- An interval that is apart from the others is not joined. -/
theorem cons_of_separate
    {b : Nat}
    {r : Interval V}
    {rs : List (Interval V)}
    (hSeparate : ∀ s ∈ rs, Separate r s) :
    cons r (rs.flatMap (tornAt b)) = r :: rs.flatMap (tornAt b) := by
  cases rs with
  | nil => rfl
  | cons s rest =>
      have hFirst := (hSeparate s List.mem_cons_self).2
      rcases exists_tornAt b s with ⟨stop, parts, hParts⟩
      rw [List.flatMap_cons, hParts, List.cons_append, cons, if_neg]
      rintro ⟨hTouch, hEqual⟩
      rw [hFirst hTouch] at hEqual
      cases hEqual

/- The parts of intervals on both sides of an index, joined. -/
theorem append_below_above
    {rs : List (Interval V)}
    (hCanonical : Canonical rs)
    (b : Nat) :
    append (below b rs) (above b rs) = rs.flatMap (tornAt b) := by
  induction rs with
  | nil => rfl
  | cons r rest ih =>
      rcases hCanonical with ⟨hFilled, hApart⟩
      rw [List.forall_mem_cons] at hFilled
      rw [List.pairwise_cons] at hApart
      have hRest := ih ⟨hFilled.2, hApart.2⟩
      by_cases hBefore : r.stop ≤ b
      · -- The interval stays on the left.
        have hOutside : ¬ Interior b r := by
          unfold Interior
          omega
        have hLeft : below b (r :: rest) = r :: below b rest := by
          have hStop : min r.stop b = r.stop := by omega
          rw [below, List.filter_cons_of_pos (by simp; omega),
            List.map_cons, hStop]
          rfl
        have hRight : above b (r :: rest) = above b rest := by
          rw [above, List.filter_cons_of_neg (by simpa using hBefore)]
          rfl
        rw [hLeft, hRight, List.flatMap_cons,
          tornAt_of_not_interior hOutside]
        calc cons r (append (below b rest) (above b rest))
          _ = cons r (rest.flatMap (tornAt b)) := by rw [hRest]
          _ = r :: rest.flatMap (tornAt b) :=
              cons_of_separate hApart.1
      · have hAfter : ∀ s ∈ rest, b ≤ s.start := by
          intro s hs
          have := (hApart.1 s hs).1
          omega
        have hAbove : above b rest = rest :=
          above_eq_self hFilled.2 hAfter
        rw [List.flatMap_cons, flatMap_tornAt_of_after hAfter]
        by_cases hInside : r.start < b
        · -- The interval is cut, and its parts meet.
          have hLeft :
              below b (r :: rest) = [⟨r.start, b, r.value⟩] := by
            have hNil := below_eq_nil hAfter
            have hStop : min r.stop b = b := by omega
            unfold below at hNil ⊢
            rw [List.filter_cons_of_pos (by simpa using hInside),
              List.map_cons, hNil, hStop]
          have hRight :
              above b (r :: rest) = ⟨b, r.stop, r.value⟩ :: rest := by
            have hStart : max r.start b = b := by omega
            unfold above at hAbove ⊢
            rw [List.filter_cons_of_pos (by simp; omega),
              List.map_cons, hAbove, hStart]
          have hInterior : Interior b r := ⟨hInside, by omega⟩
          rw [hLeft, hRight, tornAt]
          cases hSelf : r.value == r.value with
          | true => simp [append, cons, hSelf]
          | false => simp [append, cons, hSelf, hInterior]
        · have hAll : ∀ s ∈ r :: rest, b ≤ s.start :=
            List.forall_mem_cons.2 ⟨by omega, hAfter⟩
          have hOutside : ¬ Interior b r := by
            unfold Interior
            omega
          rw [below_eq_nil hAll,
            above_eq_self (List.forall_mem_cons.2 hFilled) hAll,
            tornAt_of_not_interior hOutside]
          rfl

/- The parts say the same of every index. -/
theorem valueAt_flatMap_tornAt
    (b : Nat)
    (rs : List (Interval V))
    (i : Nat) :
    valueAt (rs.flatMap (tornAt b)) i = valueAt rs i := by
  induction rs with
  | nil => rfl
  | cons r rest ih =>
      rw [List.flatMap_cons, valueAt_cons, tornAt]
      split
      · rename_i hTorn
        rw [Interior] at hTorn
        simp only [List.cons_append, List.nil_append, valueAt_cons,
          ih]
        grind
      · rw [List.singleton_append, valueAt_cons, ih]

end Torn

end Intervals

namespace IntervalMap

open Intervals

variable {V : Type} [BEq V] {m : IntervalMap V}

/- The intervals after indices came and went again. -/
theorem intervals_erase_insert
    (hCanonical : m.Canonical)
    (b : Nat)
    {count : Nat}
    (hCount : 0 < count) :
    ((m.insertIndices b count).eraseIndices b
        (b + count)).intervals =
      m.intervals.flatMap (tornAt b) := by
  rw [eraseIndices, if_pos (by omega), Nat.add_sub_cancel_left]
  dsimp only [insertIndices]
  rw [below_insertIndices hCount, above_insertIndices hCount]
  exact append_below_above hCanonical b

theorem get?_erase_insert
    (hCanonical : m.Canonical)
    (b : Nat)
    {count : Nat}
    (hCount : 0 < count)
    (i : Nat) :
    ((m.insertIndices b count).eraseIndices b (b + count)).get? i =
      m.get? i := by
  rw [get?_eq_valueAt, intervals_erase_insert hCanonical b hCount]
  exact valueAt_flatMap_tornAt b m.intervals i

/-
  The map is the same as before, unless the indices came into
  an interval whose value is not equal to itself.
-/
theorem erase_insert
    (hCanonical : m.Canonical)
    {b count : Nat}
    (hCount : 0 < count)
    (hSelf :
      ∀ r ∈ m.intervals, Interior b r →
        (r.value == r.value) = true) :
    (m.insertIndices b count).eraseIndices b (b + count) = m := by
  have hWhole : ∀ r ∈ m.intervals, tornAt b r = [r] := by
    intro r hr
    refine if_neg fun hTorn => ?_
    rw [hSelf r hr hTorn.1] at hTorn
    cases hTorn.2
  have hIntervals := intervals_erase_insert hCanonical b hCount
  rw [flatMap_tornAt_of_whole hWhole] at hIntervals
  exact congrArg IntervalMap.mk hIntervals

end IntervalMap

end Spreadsheet
