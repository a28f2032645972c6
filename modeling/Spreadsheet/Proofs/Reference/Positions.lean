import Mathlib
import Spreadsheet.Proofs.Reference.Undo

/-
  Where a coordinate points after columns or rows were erased
  or inserted.

  The anchor of a coordinate moves with its formula. Seen from
  there, a coordinate points where the change took the index
  that it pointed to, whether it is fixed or not. The two kinds
  differ only when an insertion pushes the index off the sheet:
  a fixed coordinate is lost then, but one that moves along
  with its anchor stays, and points past the end of the sheet.

  Main declarations:
    * `afterErasure`
    * `Coord.position_erase`
    * `Coord.position_of_insert?`
    * `Coord.insert?_eq_none_iff`
    * `Coord.InsertedAlike`
    * `Coord.adjusted_alike_unless_pushed`
-/

namespace Spreadsheet

/-
  Where an index is after an erasure. An index of the band
  comes to lie on the first index after it.
-/
def afterErasure (first count i : Nat) : Nat :=
  if i < first then i else max first (i - count)

namespace Coord

variable {anchor first before count limit p : Nat} {c c' : Coord}

------------------------------------------------------------
-- Marks
------------------------------------------------------------

@[simp] theorem isAbsolute_erase :
    (c.erase anchor first count).isAbsolute = c.isAbsolute := by
  cases c with
  | absolute p =>
      unfold erase
      dsimp only
      split <;> rfl
  | relative d =>
      unfold erase
      dsimp only
      split
      · rfl
      · split <;> rfl

@[simp] theorem isAbsolute_shift (delta : Int) :
    (c.shift delta).isAbsolute = c.isAbsolute := by
  cases c <;> rfl

theorem isAbsolute_of_insert?
    (hInsert : c.insert? anchor before count limit = some c') :
    c'.isAbsolute = c.isAbsolute := by
  unfold insert? at hInsert
  unfold isAbsolute
  grind

------------------------------------------------------------
-- Positions
------------------------------------------------------------

/- A coordinate on the sheet is seen at its index. -/
theorem position_eq_index
    (hSheet : c.onSheet anchor limit = true) :
    c.position anchor = c.index anchor := by
  simp only [onSheet, Bool.and_eq_true, decide_eq_true_eq] at hSheet
  unfold index
  omega

theorem index_eq_of_position (hPosition : c.position anchor = p) :
    c.index anchor = p := by
  unfold index
  omega

theorem onSheet_of_position (hPosition : c.position anchor = p) :
    c.onSheet anchor limit = true ↔ p < limit := by
  simp only [onSheet, hPosition, Bool.and_eq_true,
    decide_eq_true_eq]
  omega

/- A position moves by as much as it is told to. -/
theorem position_shift_neg_one
    (hPosition : c.position anchor = (p + 1 : Nat))
    (hWord : p < 2 ^ 32) :
    (c.shift (-1)).position anchor = p := by
  cases c with
  | absolute q =>
      have hEq : (q : Int) = (p + 1 : Nat) := hPosition
      have hRange : wordRange = 4294967296 := rfl
      have hMod : ((q : Int) + -1) % wordRange = p := by
        rw [hRange]
        omega
      simp only [shift, position, hMod]
      rfl
  | relative d =>
      simp only [position, shift] at hPosition ⊢
      omega

/-
  After an erasure that spared the anchor, a coordinate points
  to where its index is then.
-/
theorem position_erase
    (hAnchor : anchor < first ∨ first + count ≤ anchor)
    (hPosition : c.position anchor = p) :
    (c.erase anchor first count).position
        (afterErasure first count anchor) =
      afterErasure first count p := by
  cases c with
  | absolute q =>
      have hEq : (q : Int) = p := hPosition
      unfold erase afterErasure
      dsimp only
      split <;> dsimp only [position] <;> split <;> omega
  | relative d =>
      have hEq : (anchor : Int) + d = p := hPosition
      unfold erase afterErasure
      simp only [hEq]
      split
      · dsimp only [position]
        split <;> split <;> omega
      · split <;> dsimp only [position] <;> split <;> split <;> omega

/-
  After an insertion, a coordinate that is left points to
  where its index is then.
-/
theorem position_of_insert?
    (hInsert : c.insert? anchor before count limit = some c')
    (hPosition : c.position anchor = p) :
    c'.position (afterInsertion before count anchor) =
      afterInsertion before count p := by
  unfold insert? at hInsert
  unfold position at *
  unfold afterInsertion
  grind

/-
  A coordinate is lost when its index is pushed off the sheet,
  but not if it moves along with its anchor.
-/
theorem insert?_eq_none_iff
    (hPosition : c.position anchor = p) :
    c.insert? anchor before count limit = none ↔
      (before ≤ p ∧ limit ≤ p + count) ∧
        (c.isAbsolute = true ∨ anchor < before) := by
  cases c with
  | absolute q =>
      have hEq : (q : Int) = p := hPosition
      simp only [insert?, isAbsolute, true_or, and_true]
      split
      · split
        · simp
          omega
        · simp
          omega
      · simp
        omega
  | relative d =>
      have hEq : (anchor : Int) + d = p := hPosition
      simp only [insert?, isAbsolute, hEq, Bool.false_eq_true,
        false_or]
      grind

------------------------------------------------------------
-- Fixed And Relative Coordinates
------------------------------------------------------------

/-
  An insertion treats the two spellings of an index alike: if
  it pushes the index off the sheet, both are lost, and else
  both are left and point to the same position.
-/
def InsertedAlike
    (anchor position before count limit : Nat) : Prop :=
  let fixed? :=
    (Coord.absolute position).insert? anchor before count limit
  let relative? :=
    (Coord.relative (position - anchor)).insert? anchor before count
      limit
  if before ≤ position ∧ limit ≤ position + count then
    fixed? = none ∧ relative? = none
  else
    ∃ fixed relative,
      fixed? = some fixed ∧ relative? = some relative ∧
        fixed.position (afterInsertion before count anchor) =
          relative.position (afterInsertion before count anchor)

theorem position_absolute (anchor position : Nat) :
    (Coord.absolute position).position anchor = position :=
  rfl

theorem position_relative (anchor position : Nat) :
    (Coord.relative (position - anchor)).position anchor =
      position := by
  simp only [Coord.position]
  omega

/- Unless its index is pushed off the sheet, a coordinate is left. -/
theorem exists_insert?
    (hPosition : c.position anchor = p)
    (hRoom : ¬ (before ≤ p ∧ limit ≤ p + count)) :
    ∃ c', c.insert? anchor before count limit = some c' := by
  rw [← Option.ne_none_iff_exists', ne_eq,
    insert?_eq_none_iff hPosition]
  exact fun hLost => hRoom hLost.1

theorem insertedAlike_of_room
    (anchor : Nat)
    {position : Nat}
    (hRoom : ¬ (before ≤ position ∧ limit ≤ position + count)) :
    InsertedAlike anchor position before count limit := by
  have hFixed := position_absolute anchor position
  have hRelative := position_relative anchor position
  rcases exists_insert? hFixed hRoom with ⟨fixed, hFixed'⟩
  rcases exists_insert? hRelative hRoom with ⟨relative, hRelative'⟩
  unfold InsertedAlike
  rw [if_neg hRoom]
  refine ⟨fixed, relative, hFixed', hRelative', ?_⟩
  rw [position_of_insert? hFixed' hFixed,
    position_of_insert? hRelative' hRelative]

/- Where the anchor does not move, both spellings are lost. -/
theorem insertedAlike_of_pushed
    {position : Nat}
    (hPushed : before ≤ position ∧ limit ≤ position + count) :
    InsertedAlike anchor position before count limit ↔
      anchor < before := by
  unfold InsertedAlike
  dsimp only
  rw [if_pos hPushed, insert?_eq_none_iff (position_absolute _ _),
    insert?_eq_none_iff (position_relative _ _)]
  simp [isAbsolute, hPushed]

/-
  Where the anchor moves, too, a relative coordinate stays as
  it is, and its index is off the sheet.
-/
theorem insert?_relative_of_moved
    {position : Nat}
    (hAnchor : before ≤ anchor)
    (hPushed : before ≤ position ∧ limit ≤ position + count) :
    (Coord.relative (position - anchor)).insert? anchor before count
          limit =
        some (.relative (position - anchor)) ∧
      (Coord.relative (position - anchor)).onSheet
          (afterInsertion before count anchor) limit =
        false := by
  have hSame :
      (Coord.relative (position - anchor)).insert? anchor before count
          limit =
        some (.relative (position - anchor)) := by
    simp only [insert?]
    rw [if_neg (by omega), if_neg (by omega)]
  refine ⟨hSame, ?_⟩
  rw [Bool.eq_false_iff, ne_eq,
    onSheet_of_position
      (position_of_insert? hSame (position_relative _ _)),
    afterInsertion, if_pos hPushed.1]
  omega

/-
  The two spellings of an index are treated alike by an
  insertion, unless it pushes the index off the sheet and
  moves the anchor, too. Then the fixed one is lost, while the
  relative one stays as it is and lies off the sheet. They are
  treated alike by every erasure that spares the anchor.
-/
theorem adjusted_alike_unless_pushed
    (anchor position before count limit : Nat) :
    let fixed := Coord.absolute position
    let relative := Coord.relative (position - anchor)
    (InsertedAlike anchor position before count limit ↔
      ¬ (before ≤ anchor ∧ before ≤ position ∧
          limit ≤ position + count)) ∧
      (before ≤ anchor ∧ before ≤ position ∧
          limit ≤ position + count →
        fixed.insert? anchor before count limit = none ∧
          relative.insert? anchor before count limit =
            some relative ∧
          relative.onSheet (afterInsertion before count anchor)
              limit =
            false) ∧
      ∀ first size,
        anchor < first ∨ first + size ≤ anchor →
          (fixed.erase anchor first size).position
                (afterErasure first size anchor) =
              afterErasure first size position ∧
            (relative.erase anchor first size).position
                (afterErasure first size anchor) =
              afterErasure first size position := by
  refine ⟨?_, ?_, fun first size hSpared => ⟨?_, ?_⟩⟩
  · by_cases hPushed : before ≤ position ∧ limit ≤ position + count
    · rw [insertedAlike_of_pushed hPushed]
      omega
    · exact
        iff_of_true (insertedAlike_of_room anchor hPushed)
          fun hMoved => hPushed hMoved.2
  · rintro ⟨hAnchor, hPushed⟩
    refine ⟨?_, insert?_relative_of_moved hAnchor hPushed⟩
    exact (insert?_eq_none_iff rfl).2 ⟨hPushed, .inl rfl⟩
  · exact position_erase hSpared (position_absolute _ _)
  · exact position_erase hSpared (position_relative _ _)

/- A row is inserted above a formula about the last row. -/
theorem not_insertedAlike_lastRow :
    0 < maxSize.height ∧ 2147483646 < maxSize.height ∧
      afterInsertion 0 1 0 < maxSize.height ∧
      ¬ InsertedAlike 0 2147483646 0 1 maxSize.height := by
  refine ⟨by decide, by decide, by decide, fun hAlike => ?_⟩
  unfold InsertedAlike at hAlike
  rw [if_pos (by decide)] at hAlike
  exact absurd hAlike.2 (by decide)

end Coord

end Spreadsheet
