import Mathlib
import Spreadsheet.Proofs.Reference.Ends

/-
  References after columns or rows were erased.

  Seen from where its formula is then, a reference addresses
  what is left of the cells that it addressed. It is lost only
  if nothing is left of them.

  Main declarations:
    * `landing`
    * `between_landings_iff`
    * `Span.at_of_erase?`
    * `Reference.ErasedTo`
    * `Reference.erasedTo_erased`
    * `References.erasure_leaves_survivors`
-/

namespace Spreadsheet

variable {anchor first count limit p q : Nat}

------------------------------------------------------------
-- Indices
------------------------------------------------------------

/-
  Where an end of a span lands whose other end is at `q`. An
  upper end in the band is drawn back to the last index before
  it, and all others go where their index goes.
-/
def landing (first count q p : Nat) : Nat :=
  if (first ≤ p ∧ p < first + count) ∧ q < p then first - 1
  else afterErasure first count p

/- Survivors keep their place among the indices. -/
theorem afterErasure_le_iff
    {i : Nat}
    (hLives : ¬ (first ≤ i ∧ i < first + count)) :
    afterErasure first count p ≤ afterErasure first count i ↔
      p ≤ i := by
  unfold afterErasure
  split <;> split <;> omega

theorem landing_of_le (hOrder : p ≤ q) :
    landing first count q p = afterErasure first count p :=
  if_neg fun hUpper => absurd hUpper.2 (Nat.not_lt.2 hOrder)

/- The upper end lands on the last survivor up to it. -/
theorem le_landing_iff
    {i : Nat}
    (hLives : ¬ (first ≤ i ∧ i < first + count))
    (hOrder : p ≤ q)
    (hLeft : ¬ (first ≤ p ∧ q < first + count)) :
    afterErasure first count i ≤ landing first count p q ↔
      i ≤ q := by
  unfold landing afterErasure
  split <;> split <;> try split
  all_goals omega

/- Every index is where a survivor comes to lie. -/
theorem exists_afterErasure (first count j : Nat) :
    ∃ i, ¬ (first ≤ i ∧ i < first + count) ∧
      afterErasure first count i = j := by
  by_cases hBefore : j < first
  · exact ⟨j, by omega, if_pos hBefore⟩
  · refine ⟨j + count, by omega, ?_⟩
    unfold afterErasure
    split <;> omega

/- A span of which something is left is not reversed. -/
theorem landing_le_landing
    (hOrder : p ≤ q)
    (hLeft : ¬ (first ≤ p ∧ q < first + count)) :
    landing first count q p ≤ landing first count p q := by
  rw [landing_of_le hOrder]
  unfold landing afterErasure
  split <;> split <;> try split
  all_goals omega

theorem landing_lt (hIn : p < limit) :
    landing first count q p < limit := by
  unfold landing afterErasure
  split <;> try split
  all_goals omega

/-
  What lies between the ends of a span afterwards are the
  survivors of what lay between them.
-/
theorem between_landings_iff
    (hLeft :
      ¬ ((first ≤ p ∧ p < first + count) ∧
          first ≤ q ∧ q < first + count))
    (j : Nat) :
    (min (landing first count q p) (landing first count p q) ≤ j ∧
        j ≤ max (landing first count q p) (landing first count p q)) ↔
      ∃ i, ((min p q ≤ i ∧ i ≤ max p q) ∧
          ¬ (first ≤ i ∧ i < first + count)) ∧
        afterErasure first count i = j := by
  wlog hOrder : p ≤ q generalizing p q
  · have hOther :=
      this (fun hGone => hLeft hGone.symm) (Nat.le_of_not_le hOrder)
    rwa [min_comm, max_comm (landing _ _ q p), min_comm p,
      max_comm p]
  have hLeft' : ¬ (first ≤ p ∧ q < first + count) := by omega
  have hSame := landing_le_landing hOrder hLeft'
  rw [min_eq_left hSame, max_eq_right hSame, landing_of_le hOrder,
    min_eq_left hOrder, max_eq_right hOrder]
  constructor
  · intro hIn
    rcases exists_afterErasure first count j with ⟨i, hLives, rfl⟩
    rw [afterErasure_le_iff hLives,
      le_landing_iff hLives hOrder hLeft'] at hIn
    exact ⟨i, ⟨hIn, hLives⟩, rfl⟩
  · rintro ⟨i, ⟨hIn, hLives⟩, rfl⟩
    rw [afterErasure_le_iff hLives,
      le_landing_iff hLives hOrder hLeft']
    exact hIn

------------------------------------------------------------
-- Spans
------------------------------------------------------------

/- An end that has landed behind the band is drawn back over it. -/
theorem Coord.position_drawn_back
    {c : Coord}
    (hBand : first ≤ p ∧ p < first + count)
    (hWord : p < 2 ^ 32)
    (hFirst : 0 < first)
    (hPosition : c.position anchor = afterErasure first count p) :
    (c.shift (-1)).position anchor = (first - 1 : Nat) := by
  refine Coord.position_shift_neg_one ?_ (by omega)
  rw [hPosition, afterErasure, if_neg (by omega)]
  omega

namespace Span

variable {s t : Span}

theorem inBand_iff :
    inBand p first count = true ↔ first ≤ p ∧ p < first + count := by
  simp only [inBand, Bool.and_eq_true, decide_eq_true_eq]
  omega

/- A single coordinate is erased as two equal ends are. -/
theorem erase?_single (anchor first count : Nat) (c : Coord) :
    Span.erase? ⟨c, c⟩ anchor first count =
      (c.erase? anchor first count).map fun c => ⟨c, c⟩ := by
  unfold Span.erase? Coord.erase?
  dsimp only
  split <;> simp_all

/- Two ends that are one coordinate are so afterwards. -/
theorem start_eq_stop_of_erase?
    (hErase : s.erase? anchor first count = some t)
    (hOne : s.start = s.stop) :
    t.start = t.stop := by
  obtain ⟨c, hc⟩ : ∃ c, s = ⟨c, c⟩ :=
    ⟨s.start, by rw [hOne]; cases s; cases hOne; rfl⟩
  rw [hc, erase?_single, Option.map_eq_some_iff] at hErase
  rcases hErase with ⟨c', -, rfl⟩
  rfl

/- A span is lost if both of its ends lay in the band. -/
theorem erase?_eq_none_iff (hAt : s.At anchor p q) :
    s.erase? anchor first count = none ↔
      (first ≤ p ∧ p < first + count) ∧
        first ≤ q ∧ q < first + count := by
  unfold erase?
  rw [hAt.1, hAt.2]
  dsimp only
  rw [← inBand_iff, ← inBand_iff, ← Bool.and_eq_true]
  split
  · rename_i hGone
    exact iff_of_true rfl hGone
  · rename_i hLeft
    refine iff_of_false ?_ hLeft
    split
    · exact Option.some_ne_none _
    · split <;> exact Option.some_ne_none _

theorem sameMarks_of_erase?
    (hErase : s.erase? anchor first count = some t) :
    s.SameMarks t := by
  unfold erase? at hErase
  dsimp only at hErase
  split at hErase
  · cases hErase
  · split at hErase
    · cases hErase
      simp [SameMarks]
    · split at hErase <;>
        · cases hErase
          simp [SameMarks]

/- The ends of a span that is left, as they are seen then. -/
theorem at_of_erase?
    (hAnchor : anchor < first ∨ first + count ≤ anchor)
    (hAt : s.At anchor p q)
    (hWords : p < 2 ^ 32 ∧ q < 2 ^ 32)
    (hErase : s.erase? anchor first count = some t) :
    t.At (afterErasure first count anchor) (landing first count q p)
      (landing first count p q) := by
  have hStart := Coord.position_erase hAnchor hAt.1
  have hStop := Coord.position_erase hAnchor hAt.2
  have hLeft : ¬ s.erase? anchor first count = none := by
    rw [hErase]
    exact Option.some_ne_none t
  rw [erase?_eq_none_iff hAt] at hLeft
  unfold erase? at hErase
  rw [hAt.1, hAt.2] at hErase
  simp only [← inBand_iff, ← Bool.and_eq_true] at hLeft
  rw [if_neg hLeft] at hErase
  simp only [Bool.and_eq_true, inBand_iff, Nat.cast_lt,
    decide_eq_true_eq] at hErase hLeft
  split at hErase
  · rename_i hUpper
    cases hErase
    refine ⟨?_, ?_⟩
    · rw [landing_of_le hUpper.2.le]
      exact hStart
    · rw [landing, if_pos hUpper]
      exact Coord.position_drawn_back hUpper.1 hWords.2 (by omega) hStop
  · rename_i hNotUpper
    split at hErase
    · rename_i hUpper
      cases hErase
      refine ⟨?_, ?_⟩
      · rw [landing, if_pos hUpper]
        exact Coord.position_drawn_back hUpper.1 hWords.1 (by omega) hStart
      · rw [landing_of_le hUpper.2.le]
        exact hStop
    · rename_i hNotUpper'
      cases hErase
      refine ⟨?_, ?_⟩
      · rw [landing, if_neg hNotUpper']
        exact hStart
      · rw [landing, if_neg hNotUpper]
        exact hStop

end Span

------------------------------------------------------------
-- References
------------------------------------------------------------

/- Where a cell is that an erasure has spared. -/
def Point.afterErasure
    (p : Point)
    (axis : Axis)
    (first count : Nat) : Point :=
  p.setAlong axis (Spreadsheet.afterErasure first count (p.along axis))

namespace Reference

/-
  A reference became another one by an erasure along an axis.
  What it says along the other axis stays, and so does which
  of its ends are fixed. If it was on the sheet, then it is
  lost if all of its columns or rows were erased. Else it is
  on the sheet and addresses the survivors, where they are
  now, and its ends are not reversed.
-/
structure ErasedTo
    (axis : Axis)
    (first count : Nat)
    (anchor : Point)
    (r r' : Reference) : Prop where
  across_stays : r.endsAlong axis = none → r' = r
  cross :
    r' ≠ .illegal →
      r'.endsAlong axis.cross = r.endsAlong axis.cross
  indices_cross :
    r.onSheet anchor = true → r' ≠ .illegal →
      r'.indices axis.cross (anchor.afterErasure axis first count) =
        r.indices axis.cross anchor
  marks :
    ∀ s, r.endsAlong axis = some s → r' ≠ .illegal →
      ∃ t, r'.endsAlong axis = some t ∧ s.SameMarks t
  illegal_iff :
    r.onSheet anchor = true →
      (r' = .illegal ↔
        r.indices axis anchor ⊆ Set.Ico first (first + count))
  onSheet :
    r.onSheet anchor = true → r' ≠ .illegal →
      r'.onSheet (anchor.afterErasure axis first count) = true
  indices :
    r.onSheet anchor = true →
      r'.indices axis (anchor.afterErasure axis first count) =
        Spreadsheet.afterErasure first count ''
          (r.indices axis anchor \ Set.Ico first (first + count))
  order :
    r.onSheet anchor = true →
      ∀ s t, r.endsAlong axis = some s → r'.endsAlong axis = some t →
        let i := anchor.along axis
        let i' := (anchor.afterErasure axis first count).along axis
        (s.start.index i ≤ s.stop.index i →
            t.start.index i' ≤ t.stop.index i') ∧
          (s.stop.index i ≤ s.start.index i →
            t.stop.index i' ≤ t.start.index i')

variable {axis : Axis} {r : Reference}

theorem erased_eq
    (axis : Axis)
    (anchor first count : Nat)
    (r : Reference) :
    r.erased axis anchor first count =
      (r.endsAlong axis).elim r fun s =>
        (s.erase? anchor first count).elim .illegal
          (r.setEnds axis) :=
  adjustAlong_eq (Span.erase?_single anchor first count) axis r

@[simp] theorem along_afterErasure
    (anchor : Point)
    (axis : Axis)
    (first count : Nat) :
    (anchor.afterErasure axis first count).along axis =
      Spreadsheet.afterErasure first count (anchor.along axis) :=
  Point.along_setAlong anchor axis _

/- A reference across the axis addresses as much as before. -/
theorem erasedTo_across
    {anchor : Point}
    (hAcross : r.endsAlong axis = none) :
    ErasedTo axis first count anchor r r where
  across_stays _ := rfl
  cross _ := rfl
  indices_cross _ hLegal :=
    indices_congr hLegal hLegal rfl (Point.along_cross_setAlong _ _ _)
  marks s hEnds := by
    rw [hAcross] at hEnds
    cases hEnds
  illegal_iff hSheet := by
    have hLegal := (onSheet_iff.1 hSheet).1
    refine iff_of_false hLegal fun hGone => ?_
    rw [indices_of_across hLegal hAcross] at hGone
    have hEnd := hGone (Set.mem_univ (first + count))
    exact absurd hEnd.2 (Nat.lt_irrefl _)
  onSheet hSheet _ := by
    rwa [Point.afterErasure, onSheet_of_across hAcross]
  indices hSheet := by
    have hLegal := (onSheet_iff.1 hSheet).1
    rw [indices_of_across hLegal hAcross,
      indices_of_across hLegal hAcross, eq_comm,
      Set.eq_univ_iff_forall]
    intro j
    rcases exists_afterErasure first count j with ⟨i, hLives, rfl⟩
    exact ⟨i, ⟨Set.mem_univ i, hLives⟩, rfl⟩
  order _ s t hEnds := by
    rw [hAcross] at hEnds
    cases hEnds

/- A reference is lost if both of its ends lay in the band. -/
theorem erasedTo_illegal
    {anchor : Point}
    {s : Span}
    (hEnds : r.endsAlong axis = some s)
    (hErase : s.erase? (anchor.along axis) first count = none) :
    ErasedTo axis first count anchor r .illegal := by
  have hGone :
      r.onSheet anchor = true →
        r.indices axis anchor ⊆ Set.Ico first (first + count) := by
    intro hSheet i hIn
    have hAt := Span.at_of_onSheet (onSheet_ends hSheet hEnds)
    rw [Span.erase?_eq_none_iff hAt] at hErase
    rw [mem_indices hEnds hAt] at hIn
    rw [Set.mem_Ico]
    omega
  refine
    ⟨fun hAcross => ?_, fun hLegal => absurd rfl hLegal,
      fun _ hLegal => absurd rfl hLegal,
      fun _ _ hLegal => absurd rfl hLegal,
      fun hSheet => iff_of_true rfl (hGone hSheet),
      fun _ hLegal => absurd rfl hLegal, fun hSheet => ?_,
      fun _ _ t _ hEnds' => ?_⟩
  · rw [hAcross] at hEnds
    cases hEnds
  · rw [indices_illegal, Set.sdiff_eq_empty.2 (hGone hSheet),
      Set.image_empty]
  · cases axis <;> cases hEnds'

/-
  The ends of a reference on the sheet that is left, as they
  are seen before and after.
-/
theorem exists_landings
    {anchor : Point}
    (hAnchor :
      anchor.along axis < first ∨
        first + count ≤ anchor.along axis)
    {s t : Span}
    (hOn :
      s.onSheet (anchor.along axis) (maxSize.along axis) = true)
    (hErase : s.erase? (anchor.along axis) first count = some t) :
    ∃ p q,
      (p < maxSize.along axis ∧ q < maxSize.along axis) ∧
        s.At (anchor.along axis) p q ∧
        ¬ ((first ≤ p ∧ p < first + count) ∧
            first ≤ q ∧ q < first + count) ∧
        t.At ((anchor.afterErasure axis first count).along axis)
          (landing first count q p) (landing first count p q) := by
  have hLimit : maxSize.along axis < 2 ^ 32 := by
    cases axis <;> decide
  have hAt := Span.at_of_onSheet hOn
  have hIn := hAt.onSheet_iff.1 hOn
  refine ⟨_, _, hIn, hAt, ?_, ?_⟩
  · rw [← Span.erase?_eq_none_iff hAt, hErase]
    exact Option.some_ne_none t
  · rw [along_afterErasure]
    exact
      Span.at_of_erase? hAnchor hAt
        ⟨hIn.1.trans hLimit, hIn.2.trans hLimit⟩ hErase

/- Else it has the ends that are left of it. -/
theorem erasedTo_setEnds
    {anchor : Point}
    (hAnchor :
      anchor.along axis < first ∨
        first + count ≤ anchor.along axis)
    {s t : Span}
    (hEnds : r.endsAlong axis = some s)
    (hErase : s.erase? (anchor.along axis) first count = some t) :
    ErasedTo axis first count anchor r (r.setEnds axis t) := by
  have hLegal := ne_illegal_of_endsAlong hEnds
  have hOne := Span.start_eq_stop_of_erase? hErase
  have hEnds' := endsAlong_setEnds hEnds hOne
  have hSeen :=
    fun hSheet =>
      exists_landings hAnchor (onSheet_ends hSheet hEnds) hErase
  refine
    ⟨fun hAcross => ?_, fun _ => endsAlong_cross_setEnds hEnds t,
      fun _ hLegal' =>
        indices_congr hLegal hLegal' (endsAlong_cross_setEnds hEnds t)
          (Point.along_cross_setAlong _ _ _),
      fun s' hEnds'' _ => ?_, fun hSheet => ?_, fun hSheet _ => ?_,
      fun hSheet => ?_, fun hSheet s' t' hEnds₁ hEnds₂ => ?_⟩
  · rw [hAcross] at hEnds
    cases hEnds
  · rw [hEnds] at hEnds''
    cases hEnds''
    exact ⟨t, hEnds', Span.sameMarks_of_erase? hErase⟩
  · rcases hSeen hSheet with ⟨p, q, -, hAt, hLeft, -⟩
    refine
      iff_of_false (setEnds_ne_illegal hLegal axis t) fun hGone => ?_
    have hStart := hGone ((mem_indices hEnds hAt p).2 (by omega))
    have hStop := hGone ((mem_indices hEnds hAt q).2 (by omega))
    exact hLeft ⟨hStart, hStop⟩
  · rcases hSeen hSheet with ⟨p, q, hIn, -, -, hAt'⟩
    rw [along_afterErasure] at hAt'
    rw [Point.afterErasure, onSheet_setEnds_iff hEnds hOne hSheet,
      hAt'.onSheet_iff]
    exact ⟨landing_lt hIn.1, landing_lt hIn.2⟩
  · rcases hSeen hSheet with ⟨p, q, -, hAt, hLeft, hAt'⟩
    ext j
    rw [mem_indices hEnds' hAt', between_landings_iff hLeft]
    simp only [Set.mem_image, Set.mem_sdiff, mem_indices hEnds hAt,
      Set.mem_Ico]
  · rcases hSeen hSheet with ⟨p, q, -, hAt, hLeft, hAt'⟩
    rw [hEnds] at hEnds₁
    rw [hEnds'] at hEnds₂
    cases hEnds₁
    cases hEnds₂
    simp only [Coord.index_eq_of_position hAt.1,
      Coord.index_eq_of_position hAt.2,
      Coord.index_eq_of_position hAt'.1,
      Coord.index_eq_of_position hAt'.2]
    exact
      ⟨fun hOrder => landing_le_landing hOrder (by omega),
        fun hOrder => landing_le_landing hOrder (by omega)⟩

/- An adjusted reference is what an erasure makes of it. -/
theorem erasedTo_erased
    {anchor : Point}
    (hAnchor :
      anchor.along axis < first ∨
        first + count ≤ anchor.along axis)
    (r : Reference) :
    ErasedTo axis first count anchor r
      (r.erased axis (anchor.along axis) first count) := by
  rw [erased_eq]
  cases hEnds : r.endsAlong axis with
  | none => exact erasedTo_across hEnds
  | some s =>
      rw [Option.elim_some]
      cases hErase : s.erase? (anchor.along axis) first count with
      | none => exact erasedTo_illegal hEnds hErase
      | some t => exact erasedTo_setEnds hAnchor hEnds hErase

end Reference

------------------------------------------------------------
-- Lists
------------------------------------------------------------

/-
  After columns or rows were erased, but not that of the
  formula, each of its references addresses the survivors of
  what it addressed, as seen from where the formula is then.
  There is no new list only if no reference has changed.
-/
theorem References.erasure_leaves_survivors
    {axis : Axis}
    {first count : Nat}
    {anchor : Point}
    (hAnchor :
      anchor.along axis < first ∨
        first + count ≤ anchor.along axis)
    (refs : References) :
    let adjusted? :=
      refs.adjustToErasure? axis (anchor.along axis) first count
    List.Forall₂ (Reference.ErasedTo axis first count anchor) refs
        (adjusted?.getD refs) ∧
      (adjusted? = none ↔ adjusted?.getD refs = refs) := by
  dsimp only
  rw [adjustToErasure?_eq]
  exact forall₂_changed? (Reference.erasedTo_erased hAnchor) refs

/-
  Five columns left of a formula are erased: they hold a cell,
  the right end of an area and the right end, written first
  and fixed, of whole columns. Whole rows stay.
-/
theorem References.erasure_leaves_survivors_left_of_formula :
    let anchor : Point := ⟨29, 0⟩
    let refs : References :=
      [.cell (.relative (-10)) (.relative 0),
        .area ⟨.relative (-11), .relative (-6)⟩
          ⟨.relative 2, .relative 2⟩,
        .band .columns ⟨.absolute 23, .relative (-29)⟩,
        .band .rows ⟨.relative 2, .relative 4⟩]
    let refs' : References :=
      [.illegal,
        .area ⟨.relative (-6), .relative (-6)⟩
          ⟨.relative 2, .relative 2⟩,
        .band .columns ⟨.absolute 18, .relative (-24)⟩,
        .band .rows ⟨.relative 2, .relative 4⟩]
    (anchor.along .columns < 19 ∨ 19 + 5 ≤ anchor.along .columns) ∧
      refs.adjustToErasure? .columns 29 19 5 = some refs' ∧
      List.Forall₂ (Reference.ErasedTo .columns 19 5 anchor) refs
        refs' := by
  intro anchor refs refs'
  have hAnchor :
      anchor.along .columns < 19 ∨ 19 + 5 ≤ anchor.along .columns := by
    decide
  have hAdjusted :
      refs.adjustToErasure? .columns (anchor.along .columns) 19 5 =
        some refs' := by
    decide
  have hErased := (erasure_leaves_survivors hAnchor refs).1
  rw [hAdjusted, Option.getD_some] at hErased
  exact ⟨hAnchor, hAdjusted, hErased⟩

end Spreadsheet
