import Mathlib.Data.List.Forall2
import Spreadsheet.Proofs.IntervalMap.Changes
import Spreadsheet.Proofs.IntervalMap.Undo
import Spreadsheet.Sheet.Measure

/-
  Maps are told apart by the values of their indices.

  The intervals of a map that is reached are the longest ones
  on which its values are equal. So two maps whose values
  agree hold the same intervals, however they were made.

  Main declarations:
    * `Interval.Same`
    * `Intervals.same_of_alike`
    * `IntervalMap.Same`
    * `IntervalMap.same_of_agreeing`
    * `IntervalMap.insertion_leaves_seam`
-/

namespace Spreadsheet

/- Two intervals hold the same indices, and equal values. -/
def Interval.Same
    {V : Type}
    [BEq V]
    (r s : Interval V) : Prop :=
  r.start = s.start ∧ r.stop = s.stop ∧ (r.value == s.value) = true

namespace Intervals

variable {V : Type}
variable {r s : Interval V} {rs ss : List (Interval V)}

------------------------------------------------------------
-- First Intervals
------------------------------------------------------------

theorem valueAt_start
    (hSorted : Sorted (r :: rs)) :
    valueAt (r :: rs) r.start = some r.value := by
  have hFilled := (sorted_cons.1 hSorted).1
  rw [valueAt_cons, if_pos ⟨Nat.le_refl _, hFilled⟩]

/- No index has a value before the first interval. -/
theorem start_le_of_valueAt
    {i : Nat}
    {v : V}
    (hSorted : Sorted (r :: rs))
    (hValue : valueAt (r :: rs) i = some v) :
    r.start ≤ i := by
  rcases sorted_cons.1 hSorted with ⟨hFilled, hAfter, -⟩
  by_contra hBefore
  have hNone : valueAt (r :: rs) i = none := by
    refine valueAt_eq_none (List.forall_mem_cons.2 ⟨?_, ?_⟩)
    · omega
    · intro t ht
      have := hAfter t ht
      omega
  rw [hNone] at hValue
  cases hValue

section Agree

variable [BEq V]

/- Behind the first interval, its value does not go on. -/
theorem value_of_stop
    {v : V}
    (hCanonical : Canonical (r :: rs))
    (hValue : valueAt rs r.stop = some v) :
    (r.value == v) = false := by
  rcases Option.map_eq_some_iff.1 hValue with ⟨t, hFound, rfl⟩
  have ht := List.mem_of_find?_eq_some hFound
  have hContains := List.find?_some hFound
  simp only [Interval.contains, Bool.and_eq_true,
    decide_eq_true_eq] at hContains
  have hSeparate :=
    (List.pairwise_cons.1 hCanonical.separate).1 t ht
  exact hSeparate.2 (by have := hSeparate.1; omega)

/- The intervals say the same of every index. -/
def Agree (rs ss : List (Interval V)) : Prop :=
  ∀ i, Alike (valueAt rs i) (valueAt ss i)

/- What is equal to a value is a value. -/
theorem exists_of_alike
    {v : V}
    {b : Option V}
    (hAlike : Alike (some v) b) :
    ∃ w, b = some w ∧ (v == w) = true := by
  cases b with
  | none => cases hAlike
  | some w => exact ⟨w, rfl, hAlike⟩

section First

variable (hLeft : Canonical (r :: rs)) (hRight : Canonical (s :: ss))
variable (hAgree : Agree (r :: rs) (s :: ss))

include hLeft hRight hAgree

theorem Agree.start_le : s.start ≤ r.start := by
  have hAt := hAgree r.start
  rw [valueAt_start hLeft.sorted] at hAt
  rcases exists_of_alike hAt with ⟨w, hValue, -⟩
  exact start_le_of_valueAt hRight.sorted hValue

variable [PartialEquivBEq V]

omit hLeft hRight in
theorem Agree.symm : Agree (s :: ss) (r :: rs) :=
  fun i => (hAgree i).symm

theorem Agree.start_eq : r.start = s.start :=
  Nat.le_antisymm (hAgree.symm.start_le hRight hLeft)
    (hAgree.start_le hLeft hRight)

theorem Agree.value_eq : (r.value == s.value) = true := by
  have hAt := hAgree r.start
  rw [valueAt_start hLeft.sorted,
    hAgree.start_eq hLeft hRight,
    valueAt_start hRight.sorted] at hAt
  exact hAt

/-
  If the second interval were longer, its value would go on
  in the intervals behind the first one.
-/
theorem Agree.stop_le : s.stop ≤ r.stop := by
  by_contra hLonger
  have hFilled := (sorted_cons.1 hLeft.sorted).1
  have hStart := hAgree.start_eq hLeft hRight
  have hAt := (hAgree r.stop).symm
  rw [valueAt_cons s, if_pos (by omega), valueAt_cons r,
    if_neg (by omega)] at hAt
  rcases exists_of_alike hAt with ⟨w, hValue, hEqual⟩
  have hGoesOn : (r.value == w) = true :=
    PartialEquivBEq.trans (hAgree.value_eq hLeft hRight) hEqual
  rw [value_of_stop hLeft hValue] at hGoesOn
  cases hGoesOn

theorem Agree.same : r.Same s :=
  ⟨hAgree.start_eq hLeft hRight,
    Nat.le_antisymm (hAgree.symm.stop_le hRight hLeft)
      (hAgree.stop_le hLeft hRight),
    hAgree.value_eq hLeft hRight⟩

/- The intervals behind the first ones say the same, too. -/
theorem Agree.tail : Agree rs ss := by
  intro i
  rcases hAgree.same hLeft hRight with ⟨hStart, hStop, -⟩
  have hBehind : ∀ t ∈ rs, r.stop ≤ t.start :=
    (sorted_cons.1 hLeft.sorted).2.1
  have hBehind' : ∀ t ∈ ss, s.stop ≤ t.start :=
    (sorted_cons.1 hRight.sorted).2.1
  by_cases hHere : i < r.stop
  · have hNone : valueAt rs i = none :=
      valueAt_eq_none fun t ht =>
        .inl (Nat.lt_of_lt_of_le hHere (hBehind t ht))
    have hNone' : valueAt ss i = none :=
      valueAt_eq_none fun t ht =>
        .inl (Nat.lt_of_lt_of_le (hStop ▸ hHere) (hBehind' t ht))
    rw [hNone, hNone']
    exact alike_none
  · have hAt := hAgree i
    rw [valueAt_cons r, if_neg (by omega), valueAt_cons s,
      if_neg (by omega)] at hAt
    exact hAt

end First

------------------------------------------------------------
-- Uniqueness
------------------------------------------------------------

/- By induction on both lists, whose first intervals match. -/
theorem same_of_alike
    [PartialEquivBEq V]
    (hLeft : Canonical rs)
    (hRight : Canonical ss)
    (hAgree : Agree rs ss) :
    List.Forall₂ Interval.Same rs ss := by
  induction rs generalizing ss with
  | nil =>
      cases ss with
      | nil => exact .nil
      | cons s ss =>
          have hAt := hAgree s.start
          rw [valueAt_start hRight.sorted] at hAt
          cases hAt
  | cons r rs ih =>
      cases ss with
      | nil =>
          have hAt := hAgree r.start
          rw [valueAt_start hLeft.sorted] at hAt
          cases hAt
      | cons s ss =>
          exact .cons (hAgree.same hLeft hRight)
            (ih hLeft.tail hRight.tail
              (hAgree.tail hLeft hRight))

end Agree

end Intervals

namespace IntervalMap

open Intervals

variable {V : Type} [BEq V]

/- Two maps hold the same intervals, with equal values. -/
def Same (m m' : IntervalMap V) : Prop :=
  List.Forall₂ Interval.Same m.intervals m'.intervals

theorem Same.size_eq
    {m m' : IntervalMap V}
    (hSame : m.Same m') :
    m.size = m'.size :=
  List.Forall₂.length_eq hSame

/- Where equal values are the same, so are the maps. -/
theorem same_iff_eq
    [LawfulBEq V]
    {m m' : IntervalMap V} :
    m.Same m' ↔ m = m' := by
  have hInterval : Interval.Same (V := V) = Eq := by
    funext r s
    cases r
    cases s
    simp [Interval.Same]
  rw [Same, hInterval, List.forall₂_eq_eq_eq]
  cases m
  cases m'
  simp

------------------------------------------------------------
-- Maps That Are Reached
------------------------------------------------------------

omit [BEq V] in
theorem insertIndices_zero
    (m : IntervalMap V)
    (before : Nat) :
    m.insertIndices before 0 = m := by
  have hSame :
      Interval.insertIndices before 0 =
        (id : Interval V → Interval V) := by
    funext r
    simp [Interval.insertIndices, Interval.shiftUp]
  rw [insertIndices, hSame, List.map_id]

/-
  Two maps are the same if their values agree. So calls make
  the same map if they say the same of every index, and what
  was inserted and erased again leaves the map as it was,
  unless it came into an interval whose value is not equal to
  itself.
-/
theorem same_of_agreeing
    [PartialEquivBEq V]
    {m m' : IntervalMap V}
    (hReached : m.Reached)
    (hReached' : m'.Reached) :
    ((∀ i, Alike (m.get? i) (m'.get? i)) →
        m.Same m' ∧ m.size = m'.size) ∧
      (∀ calls calls' : List (Command V),
        (∀ call ∈ calls ++ calls', call.Respects) →
        (∀ i, Alike (calls.foldl Command.dense m.get? i)
          (calls'.foldl Command.dense m.get? i)) →
        (calls.foldl Command.apply m).Same
          (calls'.foldl Command.apply m)) ∧
      ∀ before count,
        (∀ r ∈ m.intervals, Interior before r →
          (r.value == r.value) = true) →
        (m.insertIndices before count).eraseIndices before
          (before + count) = m := by
  have hCanonical := hReached.canonical
  refine ⟨fun hAgree => ?_, fun calls calls' hCalls hDense => ?_, ?_⟩
  · have hSame : m.Same m' :=
      same_of_alike hCanonical hReached'.canonical hAgree
    exact ⟨hSame, hSame.size_eq⟩
  · rw [List.forall_mem_append] at hCalls
    refine same_of_alike (hReached.foldl calls).canonical
      (hReached.foldl calls').canonical fun i => ?_
    have hLeft := like_foldl hCalls.1 hCanonical
      (fun _ => .refl _) i
    have hRight := like_foldl hCalls.2 hCanonical
      (fun _ => .refl _) i
    have hOver := hRight.trans_alike (hDense i).symm
    exact hLeft.trans_alike hOver.symm
  · intro before count hSelf
    rcases Nat.eq_zero_or_pos count with rfl | hCount
    · rw [insertIndices_zero, eraseIndices, if_neg (by omega)]
    · exact erase_insert hCanonical hCount hSelf

/- An interval that grew is the same as one set in two parts. -/
theorem same_of_agreeing_grown :
    (∀ i, denseRun [Command.set 0 4 7, .insert 2 3] i =
        denseRun [Command.set 5 7 7, .set 0 5 7] i) ∧
      run [Command.set 0 4 7, .insert 2 3] =
        run [Command.set 5 7 7, .set 0 5 7] ∧
      ((run [Command.set 0 4 7, .insert 2 3]).insertIndices 2
          1).eraseIndices 2 3 =
        run [Command.set 0 4 7, .insert 2 3] := by
  have hDense :
      ∀ i, denseRun [Command.set 0 4 7, .insert 2 3] i =
        denseRun [Command.set 5 7 7, .set 0 5 7] i := by
    intro i
    simp only [denseRun, List.foldl_cons, List.foldl_nil,
      Command.dense]
    split_ifs <;> first | rfl | omega
  have hEmpty := same_of_agreeing (.empty (V := Nat)) .empty
  have hGrown := same_of_agreeing
    (reached_run [Command.set 0 4 7, .insert 2 3])
    (reached_run [Command.set 5 7 7, .set 0 5 7])
  refine ⟨hDense, same_iff_eq.1 ?_, ?_⟩
  · exact hEmpty.2.1 _ _ (fun call _ => call.respects_of_lawful)
      fun i => alike_iff_eq.2 (hDense i)
  · exact hGrown.2.2 2 1 fun r _ _ => beq_self_eq_true r.value

/-
  Where a length is no number, an index that came and went
  leaves two intervals, although all values are as before.
-/
theorem insertion_leaves_seam :
    ∃ m : Measures,
      m = run [.set 0 4 ⟨some (0 / 0), false⟩] ∧
        m.intervals = [⟨0, 4, ⟨some (0 / 0), false⟩⟩] ∧
        ((m.insertIndices 2 1).eraseIndices 2 3).intervals =
          [⟨0, 2, ⟨some (0 / 0), false⟩⟩,
            ⟨2, 4, ⟨some (0 / 0), false⟩⟩] ∧
        (m.insertIndices 2 1).eraseIndices 2 3 ≠ m ∧
        ∀ i, ((m.insertIndices 2 1).eraseIndices 2 3).get? i =
          m.get? i := by
  have hUnequal :
      ((⟨some (0 / 0), false⟩ : Measure) ==
          ⟨some (0 / 0), false⟩) =
        false := by decide
  have hCanonical :
      (⟨[⟨0, 4, ⟨some (0 / 0), false⟩⟩]⟩ : Measures).Canonical :=
    ⟨by decide, List.pairwise_singleton ..⟩
  have hCut := intervals_erase_insert hCanonical 2 Nat.one_pos
  rw [List.flatMap_singleton, tornAt,
    if_pos ⟨by decide, hUnequal⟩] at hCut
  refine ⟨_, rfl, rfl, hCut, ?_, ?_⟩
  · intro hSame
    have hIntervals := hCut.symm.trans (congrArg intervals hSame)
    cases congrArg List.length hIntervals
  · exact get?_erase_insert hCanonical 2 Nat.one_pos

end IntervalMap

end Spreadsheet
