import Mathlib.Data.List.Pairwise
import Spreadsheet.IntervalMap

/-
  What a list of intervals says about indices.

  The lists that a map keeps are canonical: their intervals
  are not empty, come in order, and two that touch do not
  share a value. The operations that maps are made of keep
  this, and change the values of indices one by one, up to
  the equality by which values are compared.

  Main declarations:
    * `Intervals.valueAt`
    * `Intervals.Canonical`
    * `Intervals.Alike`
    * `Intervals.Like`
    * `Intervals.canonical_append`
    * `Intervals.valueAt_append`
-/

namespace Spreadsheet

namespace Intervals

variable {V : Type}

------------------------------------------------------------
-- Values
------------------------------------------------------------

/- The value that intervals give to an index. -/
def valueAt (rs : List (Interval V)) (i : Nat) : Option V :=
  (rs.find? (·.contains i)).map (·.value)

@[simp] theorem valueAt_nil (i : Nat) :
    valueAt ([] : List (Interval V)) i = none := rfl

theorem valueAt_cons
    (r : Interval V)
    (rs : List (Interval V))
    (i : Nat) :
    valueAt (r :: rs) i =
      if r.start ≤ i ∧ i < r.stop then some r.value
      else valueAt rs i := by
  by_cases hIn : r.start ≤ i ∧ i < r.stop
  · simp [valueAt, Interval.contains, hIn]
  · rw [if_neg hIn]
    simp only [valueAt, List.find?_cons, Interval.contains]
    split
    · rename_i hContains
      simp only [Bool.and_eq_true, decide_eq_true_eq] at hContains
      exact absurd hContains hIn
    · rfl

theorem valueAt_eq_none
    {rs : List (Interval V)}
    {i : Nat}
    (hOutside : ∀ r ∈ rs, i < r.start ∨ r.stop ≤ i) :
    valueAt rs i = none := by
  induction rs with
  | nil => rfl
  | cons r rs ih =>
      rw [List.forall_mem_cons] at hOutside
      rw [valueAt_cons, if_neg (by omega)]
      exact ih hOutside.2

/- All intervals lie between two indices. -/
def Bounded (low high : Nat) (rs : List (Interval V)) : Prop :=
  ∀ r ∈ rs, low ≤ r.start ∧ r.stop ≤ high

/- Only indices between the bounds have values. -/
theorem Bounded.valueAt_eq_none
    {low high i : Nat}
    {rs : List (Interval V)}
    (hBounded : Bounded low high rs)
    (hOutside : i < low ∨ high ≤ i) :
    valueAt rs i = none := by
  refine Intervals.valueAt_eq_none fun r hr => ?_
  have := hBounded r hr
  omega

------------------------------------------------------------
-- Cutting
------------------------------------------------------------

theorem valueAt_below (b : Nat) (rs : List (Interval V)) (i : Nat) :
    valueAt (below b rs) i = if i < b then valueAt rs i else none := by
  induction rs with
  | nil => simp [below]
  | cons r rs ih =>
      unfold below at ih ⊢
      rw [List.filter_cons]
      split
      · rw [List.map_cons, valueAt_cons, valueAt_cons, ih]
        grind
      · rename_i hStart
        rw [decide_eq_true_eq] at hStart
        rw [ih, valueAt_cons]
        split
        · rw [if_neg (by omega)]
        · rfl

theorem valueAt_above (b : Nat) (rs : List (Interval V)) (i : Nat) :
    valueAt (above b rs) i = if b ≤ i then valueAt rs i else none := by
  induction rs with
  | nil => simp [above]
  | cons r rs ih =>
      unfold above at ih ⊢
      rw [List.filter_cons]
      split
      · rw [List.map_cons, valueAt_cons, valueAt_cons, ih]
        grind
      · rename_i hStop
        rw [decide_eq_true_eq] at hStop
        rw [ih, valueAt_cons]
        split
        · rw [if_neg (by omega)]
        · rfl

theorem stop_of_mem_below
    {b : Nat}
    {r : Interval V}
    {rs : List (Interval V)}
    (hr : r ∈ below b rs) :
    r.stop ≤ b := by
  rcases List.mem_map.1 hr with ⟨s, -, rfl⟩
  exact Nat.min_le_right s.stop b

theorem start_of_mem_above
    {b : Nat}
    {r : Interval V}
    {rs : List (Interval V)}
    (hr : r ∈ above b rs) :
    b ≤ r.start := by
  rcases List.mem_map.1 hr with ⟨s, -, rfl⟩
  exact Nat.le_max_right s.start b

------------------------------------------------------------
-- Shifting
------------------------------------------------------------

theorem valueAt_shiftDown
    {n : Nat}
    {rs : List (Interval V)}
    (hAfter : ∀ r ∈ rs, n ≤ r.start)
    (i : Nat) :
    valueAt (rs.map (·.shiftDown n)) i = valueAt rs (i + n) := by
  induction rs with
  | nil => rfl
  | cons r rs ih =>
      rw [List.forall_mem_cons] at hAfter
      rw [List.map_cons, valueAt_cons, valueAt_cons,
        ih hAfter.2]
      unfold Interval.shiftDown
      grind

theorem valueAt_insertIndices
    (before count : Nat)
    (rs : List (Interval V))
    (i : Nat) :
    valueAt (rs.map (Interval.insertIndices before count)) i =
      if i < before then valueAt rs i
      else if i < before + count then valueAt rs before
      else valueAt rs (i - count) := by
  induction rs with
  | nil => simp
  | cons r rs ih =>
      rw [List.map_cons, valueAt_cons, valueAt_cons, valueAt_cons,
        valueAt_cons, ih, Interval.insertIndices]
      unfold Interval.shiftUp
      grind

------------------------------------------------------------
-- Intervals In Order
------------------------------------------------------------

/- The intervals hold indices and come one after another. -/
structure Sorted (rs : List (Interval V)) : Prop where
  filled : ∀ r ∈ rs, r.start < r.stop
  apart : rs.Pairwise (·.stop ≤ ·.start)

theorem sorted_nil : Sorted ([] : List (Interval V)) :=
  ⟨nofun, .nil⟩

theorem sorted_cons
    {r : Interval V}
    {rs : List (Interval V)} :
    Sorted (r :: rs) ↔
      r.start < r.stop ∧ (∀ s ∈ rs, r.stop ≤ s.start) ∧
        Sorted rs := by
  constructor
  · rintro ⟨hFilled, hApart⟩
    rw [List.pairwise_cons] at hApart
    rw [List.forall_mem_cons] at hFilled
    exact ⟨hFilled.1, hApart.1, hFilled.2, hApart.2⟩
  · rintro ⟨hr, hAfter, hFilled, hApart⟩
    exact ⟨List.forall_mem_cons.2 ⟨hr, hFilled⟩,
      .cons hAfter hApart⟩

------------------------------------------------------------
-- Canonical Lists
------------------------------------------------------------

/-
  The second interval is after the first, and if they touch,
  their values are not equal.
-/
def Separate [BEq V] (r s : Interval V) : Prop :=
  r.stop ≤ s.start ∧
    (r.stop = s.start → (r.value == s.value) = false)

/- The intervals that a map keeps. -/
structure Canonical [BEq V] (rs : List (Interval V)) : Prop where
  filled : ∀ r ∈ rs, r.start < r.stop
  separate : rs.Pairwise Separate

section Canonical

variable [BEq V]

theorem Canonical.sorted
    {rs : List (Interval V)}
    (hCanonical : Canonical rs) :
    Sorted rs :=
  ⟨hCanonical.filled, hCanonical.separate.imp And.left⟩

theorem canonical_nil : Canonical ([] : List (Interval V)) :=
  ⟨nofun, .nil⟩

theorem Canonical.tail
    {r : Interval V}
    {rs : List (Interval V)}
    (hCanonical : Canonical (r :: rs)) :
    Canonical rs :=
  ⟨(List.forall_mem_cons.1 hCanonical.filled).2,
    (List.pairwise_cons.1 hCanonical.separate).2⟩

theorem Canonical.filter
    {rs : List (Interval V)}
    (hCanonical : Canonical rs)
    (keep : Interval V → Bool) :
    Canonical (rs.filter keep) :=
  ⟨fun r hr => hCanonical.filled r (List.mem_filter.1 hr).1,
    hCanonical.separate.filter keep⟩

theorem canonical_below
    {rs : List (Interval V)}
    (hCanonical : Canonical rs)
    (b : Nat) :
    Canonical (below b rs) := by
  refine ⟨?_, ?_⟩
  · intro r hr
    simp only [below, List.mem_map, List.mem_filter,
      decide_eq_true_eq] at hr
    rcases hr with ⟨s, ⟨hs, hStart⟩, rfl⟩
    have := hCanonical.filled s hs
    dsimp only
    omega
  · refine List.pairwise_map.2
      ((hCanonical.separate.filter _).imp_of_mem ?_)
    intro r s _ hs hSeparate
    simp only [List.mem_filter, decide_eq_true_eq] at hs
    refine ⟨by have := hSeparate.1; dsimp only; omega, ?_⟩
    intro hTouch
    -- The cut is not where they touch: s starts before it.
    exact hSeparate.2
      (by have := hSeparate.1; dsimp only at hTouch; omega)

theorem canonical_above
    {rs : List (Interval V)}
    (hCanonical : Canonical rs)
    (b : Nat) :
    Canonical (above b rs) := by
  refine ⟨?_, ?_⟩
  · intro r hr
    simp only [above, List.mem_map, List.mem_filter,
      decide_eq_true_eq] at hr
    rcases hr with ⟨s, ⟨hs, hStop⟩, rfl⟩
    have := hCanonical.filled s hs
    dsimp only
    omega
  · refine List.pairwise_map.2
      ((hCanonical.separate.filter _).imp_of_mem ?_)
    intro r s hr _ hSeparate
    simp only [List.mem_filter, decide_eq_true_eq] at hr
    refine ⟨by have := hSeparate.1; dsimp only; omega, ?_⟩
    intro hTouch
    exact hSeparate.2
      (by have := hSeparate.1; dsimp only at hTouch; omega)

theorem canonical_shiftDown
    {n : Nat}
    {rs : List (Interval V)}
    (hCanonical : Canonical rs)
    (hAfter : ∀ r ∈ rs, n ≤ r.start) :
    Canonical (rs.map (·.shiftDown n)) := by
  refine ⟨?_, ?_⟩
  · intro r hr
    rcases List.mem_map.1 hr with ⟨s, hs, rfl⟩
    have := hAfter s hs
    have := hCanonical.filled s hs
    dsimp only [Interval.shiftDown]
    omega
  · refine List.pairwise_map.2
      (hCanonical.separate.imp_of_mem ?_)
    intro r s hr hs hSeparate
    have := hSeparate.1
    have := hAfter r hr
    have := hAfter s hs
    have := hCanonical.filled r hr
    refine ⟨by dsimp only [Interval.shiftDown]; omega, ?_⟩
    intro hTouch
    exact hSeparate.2
      (by dsimp only [Interval.shiftDown] at hTouch; omega)

theorem canonical_insertIndices
    {rs : List (Interval V)}
    (hCanonical : Canonical rs)
    (before count : Nat) :
    Canonical (rs.map (Interval.insertIndices before count)) := by
  refine ⟨?_, ?_⟩
  · intro r hr
    rcases List.mem_map.1 hr with ⟨s, hs, rfl⟩
    have := hCanonical.filled s hs
    grind [Interval.insertIndices, Interval.shiftUp]
  · refine List.pairwise_map.2
      (hCanonical.separate.imp_of_mem ?_)
    intro r s hr hs hSeparate
    have := hCanonical.filled r hr
    have := hCanonical.filled s hs
    unfold Separate at hSeparate ⊢
    grind [Interval.insertIndices, Interval.shiftUp]

------------------------------------------------------------
-- Joining
------------------------------------------------------------

/- Only the first interval can be joined with another one. -/
theorem ends_of_mem_cons
    {r t : Interval V}
    {rs : List (Interval V)}
    (ht : t ∈ cons r rs) :
    ∃ first ∈ r :: rs, ∃ last ∈ r :: rs,
      t = ⟨first.start, last.stop, first.value⟩ := by
  cases rs with
  | nil => exact ⟨t, ht, t, ht, rfl⟩
  | cons s rest =>
      rw [cons] at ht
      split at ht
      · rcases List.mem_cons.1 ht with rfl | hRest
        · exact ⟨r, List.mem_cons_self, s, by simp, rfl⟩
        · exact ⟨t, by simp [hRest], t, by simp [hRest], rfl⟩
      · exact ⟨t, ht, t, ht, rfl⟩

/-
  An interval starts as one of those that are joined does, and
  has its value, and it stops as one of them does.
-/
theorem ends_of_mem_append
    {rs ss : List (Interval V)}
    {t : Interval V}
    (ht : t ∈ append rs ss) :
    ∃ first ∈ rs ++ ss, ∃ last ∈ rs ++ ss,
      t = ⟨first.start, last.stop, first.value⟩ := by
  induction rs generalizing t with
  | nil => exact ⟨t, ht, t, ht, rfl⟩
  | cons r rest ih =>
      have hOf :
          ∀ u ∈ r :: append rest ss,
            (∃ first ∈ r :: rest ++ ss,
                u.start = first.start ∧ u.value = first.value) ∧
              ∃ last ∈ r :: rest ++ ss, u.stop = last.stop := by
        intro u hu
        rcases List.mem_cons.1 hu with rfl | hu
        · exact ⟨⟨u, List.mem_cons_self, rfl, rfl⟩,
            u, List.mem_cons_self, rfl⟩
        · rcases ih hu with ⟨first, hFirst, last, hLast, rfl⟩
          exact ⟨⟨first, List.mem_cons_of_mem r hFirst, rfl, rfl⟩,
            last, List.mem_cons_of_mem r hLast, rfl⟩
      rcases ends_of_mem_cons ht with ⟨u, hu, v, hv, rfl⟩
      rcases (hOf u hu).1 with ⟨first, hFirst, hStart, hValue⟩
      rcases (hOf v hv).2 with ⟨last, hLast, hStop⟩
      exact ⟨first, hFirst, last, hLast, by rw [hStart, hStop, hValue]⟩

theorem start_of_mem_append
    {rs ss : List (Interval V)}
    {t : Interval V}
    (ht : t ∈ append rs ss) :
    ∃ s ∈ rs ++ ss, t.start = s.start := by
  rcases ends_of_mem_append ht with ⟨first, hFirst, _, _, rfl⟩
  exact ⟨first, hFirst, rfl⟩

theorem canonical_cons
    [PartialEquivBEq V]
    {r : Interval V}
    {rs : List (Interval V)}
    (hFilled : r.start < r.stop)
    (hAfter : ∀ s ∈ rs, r.stop ≤ s.start)
    (hCanonical : Canonical rs) :
    Canonical (cons r rs) := by
  cases rs with
  | nil =>
      exact ⟨by simpa [cons] using hFilled, List.pairwise_singleton ..⟩
  | cons s rest =>
      rcases hCanonical with ⟨hFilledAll, hSeparate⟩
      rw [List.forall_mem_cons] at hFilledAll
      rw [List.forall_mem_cons] at hAfter
      rw [List.pairwise_cons] at hSeparate
      rw [cons]
      split
      · rename_i hJoin
        refine ⟨List.forall_mem_cons.2 ⟨?_, hFilledAll.2⟩,
          .cons ?_ hSeparate.2⟩
        · dsimp only
          omega
        · intro t ht
          refine ⟨(hSeparate.1 t ht).1, fun hTouch => ?_⟩
          have hOther := (hSeparate.1 t ht).2 hTouch
          rw [← BEq.congr_left hJoin.2] at hOther
          exact hOther
      · rename_i hApart
        refine ⟨List.forall_mem_cons.2
            ⟨hFilled, List.forall_mem_cons.2 hFilledAll⟩,
          .cons ?_ (List.pairwise_cons.2 hSeparate)⟩
        intro t ht
        rcases List.mem_cons.1 ht with rfl | ht
        · refine ⟨hAfter.1, fun hTouch => ?_⟩
          rw [← Bool.not_eq_true]
          exact fun hEqual => hApart ⟨hTouch, hEqual⟩
        · -- The first interval lies between the two.
          have := (hSeparate.1 t ht).1
          exact ⟨hAfter.2 t ht, fun _ => by omega⟩

theorem canonical_append
    [PartialEquivBEq V]
    {rs ss : List (Interval V)}
    (hSorted : Sorted rs)
    (hCanonical : Canonical ss)
    (hAfter : ∀ r ∈ rs, ∀ s ∈ ss, r.stop ≤ s.start) :
    Canonical (append rs ss) := by
  induction rs with
  | nil => exact hCanonical
  | cons r rest ih =>
      rw [sorted_cons] at hSorted
      rw [List.forall_mem_cons] at hAfter
      refine canonical_cons hSorted.1 ?_ (ih hSorted.2.2 hAfter.2)
      intro t ht
      rcases start_of_mem_append ht with ⟨s, hs, hStart⟩
      rw [hStart]
      rcases List.mem_append.1 hs with hRest | hOther
      · exact hSorted.2.1 s hRest
      · exact hAfter.1 s hOther

end Canonical

------------------------------------------------------------
-- Values Up To Equality
------------------------------------------------------------

/-
  Both are nothing, or two values that are equal. Values that
  are not equal to themselves are like no others.
-/
def Alike [BEq V] (a b : Option V) : Prop :=
  (a == b) = true

/- All values of intervals have a property. -/
def Values (p : V → Prop) (rs : List (Interval V)) : Prop :=
  ∀ r ∈ rs, p r.value

/- The values of intervals are equal to themselves. -/
abbrev Proper [BEq V] (rs : List (Interval V)) : Prop :=
  Values (fun v => (v == v) = true) rs

theorem values_append
    [BEq V]
    {p : V → Prop}
    {rs ss : List (Interval V)}
    (hLeft : Values p rs)
    (hRight : Values p ss) :
    Values p (append rs ss) := by
  intro t ht
  rcases ends_of_mem_append ht with ⟨first, hFirst, _, _, rfl⟩
  rcases List.mem_append.1 hFirst with hIn | hIn
  · exact hLeft first hIn
  · exact hRight first hIn

theorem values_below
    {p : V → Prop}
    {rs : List (Interval V)}
    (hValues : Values p rs)
    (b : Nat) :
    Values p (below b rs) := by
  intro t ht
  rcases List.mem_map.1 ht with ⟨r, hr, rfl⟩
  exact hValues r (List.mem_filter.1 hr).1

theorem values_above
    {p : V → Prop}
    {rs : List (Interval V)}
    (hValues : Values p rs)
    (b : Nat) :
    Values p (above b rs) := by
  intro t ht
  rcases List.mem_map.1 ht with ⟨r, hr, rfl⟩
  exact hValues r (List.mem_filter.1 hr).1

theorem values_of_valueAt
    {p : V → Prop}
    {rs : List (Interval V)}
    (hValues : Values p rs)
    {i : Nat}
    {v : V}
    (hValue : valueAt rs i = some v) :
    p v := by
  rcases Option.map_eq_some_iff.1 hValue with ⟨r, hFound, rfl⟩
  exact hValues r (List.mem_of_find?_eq_some hFound)

section Alike

variable [BEq V]

theorem alike_iff_eq [LawfulBEq V] {a b : Option V} :
    Alike a b ↔ a = b :=
  beq_iff_eq

theorem alike_none : Alike (none : Option V) none := rfl

theorem alike_some {v w : V} :
    Alike (some v) (some w) ↔ (v == w) = true := Iff.rfl

theorem Alike.trans
    [PartialEquivBEq V]
    {a b c : Option V}
    (hFirst : Alike a b)
    (hSecond : Alike b c) :
    Alike a c := by
  cases a with
  | none =>
      cases b with
      | none => exact hSecond
      | some b => cases hFirst
  | some a =>
      cases b with
      | none => cases hFirst
      | some b =>
          cases c with
          | none => cases hSecond
          | some c =>
              rw [alike_some] at hFirst hSecond ⊢
              exact PartialEquivBEq.trans hFirst hSecond

theorem Alike.symm
    [PartialEquivBEq V]
    {a b : Option V}
    (hSame : Alike a b) :
    Alike b a := by
  cases a with
  | none =>
      cases b with
      | none => exact hSame
      | some b => cases hSame
  | some a =>
      cases b with
      | none => cases hSame
      | some b =>
          rw [alike_some] at hSame ⊢
          exact PartialEquivBEq.symm hSame

theorem Proper.alike
    {rs : List (Interval V)}
    (hProper : Proper rs)
    (i : Nat) :
    Alike (valueAt rs i) (valueAt rs i) := by
  cases hValue : valueAt rs i with
  | none => exact alike_none
  | some v => exact values_of_valueAt hProper hValue

/-
  Two values are the same or equal. A value that is not equal
  to itself is like itself only.
-/
def Like (a b : Option V) : Prop :=
  a = b ∨ Alike a b

theorem Like.refl (a : Option V) : Like a a := .inl rfl

theorem like_iff_eq [LawfulBEq V] {a b : Option V} :
    Like a b ↔ a = b := by
  rw [Like, alike_iff_eq, or_self]

theorem Like.symm
    [PartialEquivBEq V]
    {a b : Option V}
    (hLike : Like a b) :
    Like b a :=
  hLike.imp Eq.symm Alike.symm

/- What is like a value is equal to whatever the value is. -/
theorem Like.trans_alike
    [PartialEquivBEq V]
    {a b c : Option V}
    (hLike : Like a b)
    (hSame : Alike b c) :
    Alike a c := by
  rcases hLike with rfl | hEqual
  · exact hSame
  · exact hEqual.trans hSame

theorem Like.trans
    [PartialEquivBEq V]
    {a b c : Option V}
    (hFirst : Like a b)
    (hSecond : Like b c) :
    Like a c := by
  rcases hSecond with rfl | hEqual
  · exact hFirst
  · exact .inr (hFirst.trans_alike hEqual)

theorem Like.or
    {b c : Option V}
    (hLike : Like b c)
    (a : Option V) :
    Like (a.or b) (a.or c) := by
  cases a with
  | none => exact hLike
  | some a => exact .refl (some a)

/- Joining changes a value to one that is equal to it. -/
theorem valueAt_joined
    {r : Interval V}
    {rs : List (Interval V)}
    (hFilled : r.start < r.stop)
    (hFilledAll : ∀ s ∈ rs, s.start < s.stop)
    (i : Nat) :
    Like (valueAt (cons r rs) i) (valueAt (r :: rs) i) := by
  cases rs with
  | nil => exact .refl _
  | cons s rest =>
      have hs := hFilledAll s List.mem_cons_self
      rw [cons]
      split
      · rename_i hJoin
        rw [valueAt_cons, valueAt_cons, valueAt_cons]
        by_cases hFirst : r.start ≤ i ∧ i < r.stop
        · rw [if_pos hFirst, if_pos (by dsimp only; omega)]
          exact .refl _
        · rw [if_neg hFirst]
          by_cases hSecond : s.start ≤ i ∧ i < s.stop
          · rw [if_pos hSecond, if_pos (by dsimp only; omega)]
            exact .inr hJoin.2
          · rw [if_neg hSecond, if_neg (by dsimp only; omega)]
            exact .refl _
      · exact .refl _

theorem valueAt_append
    [PartialEquivBEq V]
    {rs ss : List (Interval V)}
    (hSorted : Sorted rs)
    (hCanonical : Canonical ss)
    (hAfter : ∀ r ∈ rs, ∀ s ∈ ss, r.stop ≤ s.start)
    (i : Nat) :
    Like (valueAt (append rs ss) i)
      ((valueAt rs i).or (valueAt ss i)) := by
  induction rs with
  | nil => exact .refl _
  | cons r rest ih =>
      rw [sorted_cons] at hSorted
      rw [List.forall_mem_cons] at hAfter
      have hRest := canonical_append hSorted.2.2 hCanonical hAfter.2
      have hJoined := valueAt_joined hSorted.1 hRest.filled i
      refine hJoined.trans ?_
      rw [valueAt_cons, valueAt_cons]
      split
      · exact .refl _
      · exact ih hSorted.2.2 hAfter.2

end Alike

end Intervals

end Spreadsheet
