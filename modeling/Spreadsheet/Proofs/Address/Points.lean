import Mathlib
import Spreadsheet.Proofs.Geometry
import Spreadsheet.Proofs.Reference.Names
import Spreadsheet.Proofs.Words.Basic

/-
  The texts that name a point.

  A number is spelled in one way only: its letters have no
  zero, and its digits do not start with one. So what is read
  as an index is the index's name, in letters of any case, and
  a text is read as a point only if it consists of the names
  of the point's column and row.

  Main declarations:
    * `Address.numeral`
    * `Address.indexOf?_eq_some_iff`
    * `Address.scan_eq_some_iff`
    * `Address.NamesPoint`
    * `Address.readPoint?_eq_some_iff`
    * `Address.indexName_injective`
-/

namespace Spreadsheet

namespace Address

------------------------------------------------------------
-- Values
------------------------------------------------------------

/- The base of the numbers along an axis. -/
def base : Axis → Nat
  | .columns => 26
  | .rows => 10

/- The value of a character in a name along an axis. -/
def value : Axis → Char → Nat
  | .columns => letterValue
  | .rows => digitValue

theorem base_pos (axis : Axis) : 0 < base axis := by
  cases axis <;> decide

section

variable
  {axis : Axis}
  {c : Char}

theorem value_le
    (hName : isNameChar axis c = true) :
    value axis c ≤ maxSize.along axis := by
  cases axis with
  | columns => exact (letterValue_le hName).trans (by decide)
  | rows => exact (digitValue_le hName).trans (by decide)

theorem toNat_toUpper_of_isAlpha
    (hLetter : c.isAlpha = true) :
    'A'.toNat ≤ c.toUpper.toNat := by
  have hUpper : c.toUpper.isUpper = true :=
    (Char.isUpper_toUpper_eq_isAlpha c).trans hLetter
  simp only [Char.isUpper, decide_eq_true_eq] at hUpper
  exact hUpper.1

theorem toUpper_of_isDigit
    (hDigit : c.isDigit = true) :
    c.toUpper = c := by
  refine Char.toUpper_eq_of_not_isLower ?_
  have hOther := Reference.isNameChar_other hDigit
  rw [isNameChar, Char.isAlpha, Bool.or_eq_false_iff] at hOther
  simp [hOther.2]

theorem map_toUpper_of_isDigit
    {run : List Char}
    (hRun : ∀ d ∈ run, d.isDigit = true) :
    run.map Char.toUpper = run := by
  have hSame :=
    List.map_congr_left fun d hd => toUpper_of_isDigit (hRun d hd)
  rw [hSame, List.map_id']

/- Letters count alike in either case. -/
theorem value_toUpper
    (hName : isNameChar axis c = true) :
    value axis c.toUpper = value axis c := by
  cases axis with
  | columns => simp [value, letterValue]
  | rows => rw [toUpper_of_isDigit hName]

end

------------------------------------------------------------
-- Numerals
------------------------------------------------------------

/- The letters or digits that spell a number, none for zero. -/
def numeral (axis : Axis) (n : Nat) : List Char :=
  match axis with
  | .columns => columnLetters n
  | .rows => if n = 0 then [] else Nat.toDigits 10 n

@[simp] theorem numeral_zero (axis : Axis) : numeral axis 0 = [] := by
  cases axis with
  | columns => rw [numeral, columnLetters]
  | rows => rfl

@[simp] theorem numeral_succ (axis : Axis) (i : Nat) :
    numeral axis (i + 1) = indexName axis i := by
  cases axis <;> rfl

section

variable
  {axis : Axis}
  {c : Char}
  {run : List Char}
  {start n i : Nat}

/-
  Some letter has any value from one to 26, and some digit
  any value below ten.
-/
theorem letter_letterValue
    (hLetter : c.isAlpha = true) :
    letter (letterValue c - 1) = c.toUpper := by
  rw [letter, letterValue, Nat.add_sub_cancel,
    Nat.add_sub_cancel' (toNat_toUpper_of_isAlpha hLetter),
    Char.ofNat_toNat]

theorem digitChar_digitValue
    (hDigit : c.isDigit = true) :
    Nat.digitChar (digitValue c) = c := by
  have hSmall := digitValue_le hDigit
  refine Char.toNat_inj.1 ?_
  rw [Nat.toNat_digitChar_of_lt_ten (by omega), digitValue]
  exact Nat.add_sub_cancel' (Char.isDigit_iff_toNat.1 hDigit).1

/-
  One more character spells a number's multiple of the base
  and the character's value, unless it is a leading zero.
-/
theorem numeral_append
    (hName : isNameChar axis c = true)
    (hFirst : 0 < n ∨ 0 < value axis c) :
    numeral axis (n * base axis + value axis c) =
      numeral axis n ++ [c.toUpper] := by
  cases axis with
  | columns =>
      have hPos := letterValue_pos c
      have hLe := letterValue_le hName
      obtain ⟨v, hValue⟩ : ∃ v, letterValue c = v + 1 :=
        ⟨letterValue c - 1, by omega⟩
      have hLetter : letter v = c.toUpper := by
        rw [← letter_letterValue hName, hValue, Nat.add_sub_cancel]
      change columnLetters (n * 26 + letterValue c) = _
      rw [hValue, ← Nat.add_assoc, columnLetters]
      congr
      · omega
      · rw [← hLetter]
        congr
        omega
  | rows =>
      have hLe := digitValue_le hName
      rw [toUpper_of_isDigit hName]
      rcases Nat.eq_zero_or_pos n with rfl | hPos
      · have hValue : digitValue c ≠ 0 :=
          (hFirst.resolve_left (Nat.lt_irrefl 0)).ne'
        simp [numeral, value, hValue, digitChar_digitValue hName,
          Nat.toDigits_of_lt_base (show digitValue c < 10 by omega)]
      · have hSum : n * 10 + digitValue c ≠ 0 := by omega
        simp only [numeral, value, base, hPos.ne', hSum, if_false]
        rw [Nat.toDigits_of_base_le (by decide) (by omega)]
        congr
        · omega
        · have hLast : (n * 10 + digitValue c) % 10 = digitValue c := by
            omega
          rw [hLast, digitChar_digitValue hName]

/- The characters that are read spell the number that comes out. -/
theorem numeral_of_boundedNumber?
    (hRun : ∀ d ∈ run, isNameChar axis d = true)
    (hFirst : 0 < start ∨ ∀ d ∈ run.head?, 0 < value axis d)
    (hRead :
      boundedNumber? (base axis) (maxSize.along axis) (value axis)
          start run =
        some n) :
    numeral axis n =
      numeral axis start ++ run.map Char.toUpper := by
  induction run generalizing start with
  | nil =>
      cases hRead
      simp
  | cons d run ih =>
      rw [List.forall_mem_cons] at hRun
      have hStep : 0 < start ∨ 0 < value axis d :=
        hFirst.imp_right fun h => h d rfl
      -- after the first character, the number is not zero again,
      -- so that zeros are digits from there on
      have hPositive : 0 < start * base axis + value axis d :=
        hStep.elim
          (fun h => Nat.add_pos_left (Nat.mul_pos h (base_pos axis)) _)
          (Nat.add_pos_right _)
      rw [boundedNumber?] at hRead
      split at hRead
      · cases hRead
      · rw [ih hRun.2 (.inl hPositive) hRead,
          numeral_append hRun.1 hStep, List.map_cons,
          List.append_assoc]
        rfl

/- A number that is read stays within the limit. -/
theorem boundedNumber?_le
    (hRun : ∀ d ∈ run, isNameChar axis d = true)
    (hStart : start ≤ maxSize.along axis)
    (hRead :
      boundedNumber? (base axis) (maxSize.along axis) (value axis)
          start run =
        some n) :
    n ≤ maxSize.along axis := by
  induction run generalizing start with
  | nil =>
      cases hRead
      exact hStart
  | cons d run ih =>
      rw [List.forall_mem_cons] at hRun
      rw [boundedNumber?] at hRead
      split at hRead
      · cases hRead
      · rename_i hRoom
        have hNext :=
          next_le (base_pos axis) (value_le hRun.1) hRoom
        exact ih hRun.2 hNext hRead

------------------------------------------------------------
-- Indices
------------------------------------------------------------

/- No name starts with a character that counts for nothing. -/
theorem indexOf?_cons
    (hFirst : 0 < value axis c)
    (run : List Char) :
    indexOf? axis (c :: run) =
      (boundedNumber? (base axis) (maxSize.along axis) (value axis)
          0 (c :: run)).map
        (· - 1) := by
  cases axis with
  | columns => rfl
  | rows =>
      have hNotZero : c ≠ '0' := by
        rintro rfl
        cases hFirst
      simp [indexOf?, base, value, maxSize, Size.along, hNotZero]

/- What an index is read from, and the number it is read as. -/
theorem indexOf?_eq_some
    (hRun : ∀ d ∈ run, isNameChar axis d = true)
    (hRead : indexOf? axis run = some i) :
    (∀ d ∈ run.head?, 0 < value axis d) ∧
      boundedNumber? (base axis) (maxSize.along axis) (value axis)
          0 run =
        some (i + 1) := by
  rcases run with - | ⟨c, run⟩
  · cases axis <;> cases hRead
  have hFirst : 0 < value axis c := by
    cases axis with
    | columns => exact letterValue_pos c
    | rows =>
        refine digitValue_pos (hRun c List.mem_cons_self) ?_
        rintro rfl
        cases hRead
  rw [indexOf?_cons hFirst] at hRead
  rcases Option.map_eq_some_iff.1 hRead with ⟨n, hNumber, rfl⟩
  have hPositive := boundedNumber?_pos (base_pos axis) hFirst hNumber
  rw [hNumber, Nat.sub_add_cancel hPositive]
  exact ⟨by rintro d ⟨⟩; exact hFirst, rfl⟩

/- Indices are read alike from letters of either case. -/
theorem boundedNumber?_map_toUpper
    (hRun : ∀ d ∈ run, isNameChar axis d = true)
    (base limit start : Nat) :
    boundedNumber? base limit (value axis) start
        (run.map Char.toUpper) =
      boundedNumber? base limit (value axis) start run := by
  induction run generalizing start with
  | nil => rfl
  | cons d run ih =>
      rw [List.forall_mem_cons] at hRun
      rw [List.map_cons, boundedNumber?, boundedNumber?,
        value_toUpper hRun.1, ih hRun.2]

theorem indexOf?_map_toUpper
    (hRun : ∀ d ∈ run, isNameChar axis d = true) :
    indexOf? axis (run.map Char.toUpper) = indexOf? axis run := by
  cases axis with
  | columns =>
      have hNumber :=
        boundedNumber?_map_toUpper hRun 26 maxSize.width 0
      simp only [indexOf?, List.isEmpty_map]
      rw [show letterValue = value .columns from rfl, hNumber]
  | rows => rw [map_toUpper_of_isDigit hRun]

/-
  Letters or digits are read as an index if and only if the
  index is on the sheet, and they are its name.
-/
theorem indexOf?_eq_some_iff
    (hRun : ∀ d ∈ run, isNameChar axis d = true) :
    indexOf? axis run = some i ↔
      i < maxSize.along axis ∧
        run.map Char.toUpper = indexName axis i := by
  constructor
  · intro hRead
    rcases indexOf?_eq_some hRun hRead with ⟨hFirst, hNumber⟩
    refine ⟨boundedNumber?_le hRun (Nat.zero_le _) hNumber, ?_⟩
    have hSpelled := numeral_of_boundedNumber? hRun (.inr hFirst) hNumber
    simpa using hSpelled.symm
  · rintro ⟨hIndex, hSpelled⟩
    -- in capitals, the characters are the name itself
    rw [← indexOf?_map_toUpper hRun, hSpelled,
      indexOf?_indexName hIndex]

end

/- No two indices have the same name. -/
theorem indexName_injective (axis : Axis) :
    Function.Injective (indexName axis) := by
  intro i j hSame
  -- both names are read, with a limit that neither index exceeds
  cases axis with
  | columns =>
      have hi := boundedNumber?_columnLetters (i + 1)
        (Nat.le_max_left (i + 1) (j + 1))
      have hj := boundedNumber?_columnLetters (j + 1)
        (Nat.le_max_right (i + 1) (j + 1))
      rw [show columnLetters (i + 1) = columnLetters (j + 1)
        from hSame, hj] at hi
      cases hi
      rfl
  | rows =>
      have hi := boundedNumber?_toDigits (i + 1)
        (Nat.le_max_left (i + 1) (j + 1))
      have hj := boundedNumber?_toDigits (j + 1)
        (Nat.le_max_right (i + 1) (j + 1))
      rw [show Nat.toDigits 10 (i + 1) = Nat.toDigits 10 (j + 1)
        from hSame, hj] at hi
      cases hi
      rfl

------------------------------------------------------------
-- Parts Of Names
------------------------------------------------------------

/- The sign in front of what is fixed. -/
def mark (fixed : Bool) : List Char :=
  if fixed then ['$'] else []

theorem length_mark (fixed : Bool) :
    (mark fixed).length = fixed.toNat := by
  cases fixed <;> rfl

/- A text without its leading sign. -/
theorem mark_append_splitFixed (cs : List Char) :
    mark (splitFixed cs).1 ++ (splitFixed cs).2 = cs := by
  unfold splitFixed
  split <;> rfl

theorem dollar_not_isNameChar (axis : Axis) :
    isNameChar axis '$' = false := by
  cases axis <;> rfl

theorem splitFixed_mark_append
    (fixed : Bool)
    {cs : List Char}
    (hHead : cs.head? ≠ some '$') :
    splitFixed (mark fixed ++ cs) = (fixed, cs) := by
  cases fixed with
  | true => rfl
  | false =>
      change splitFixed cs = (false, cs)
      unfold splitFixed
      split
      · exact absurd rfl hHead
      · rfl

theorem scan_eq (axis : Axis) (cs : List Char) :
    scan axis cs =
      (indexOf? axis
          ((splitFixed cs).2.takeWhile (isNameChar axis))).map
        fun i =>
          ⟨i, (splitFixed cs).1,
            ((splitFixed cs).2.takeWhile (isNameChar axis)).length +
              (splitFixed cs).1.toNat⟩ := rfl

/-
  A part is read from a text if and only if the text starts
  with the part's sign and a whole run of letters or digits
  that name the index.
-/
theorem scan_eq_some_iff
    {axis : Axis}
    {cs : List Char}
    {part : Part} :
    scan axis cs = some part ↔
      ∃ run rest,
        cs = mark part.absolute ++ run ++ rest ∧
          (∀ c ∈ run, isNameChar axis c = true) ∧
          (∀ c ∈ rest.head?, isNameChar axis c = false) ∧
          indexOf? axis run = some part.index ∧
          part.length = (mark part.absolute ++ run).length := by
  constructor
  · intro hScan
    rw [scan_eq] at hScan
    rcases Option.map_eq_some_iff.1 hScan with ⟨i, hIndex, rfl⟩
    refine ⟨_, (splitFixed cs).2.dropWhile (isNameChar axis), ?_,
      fun c hc => List.mem_takeWhile_imp hc, ?_, hIndex, ?_⟩
    · rw [List.append_assoc, List.takeWhile_append_dropWhile,
        mark_append_splitFixed]
    · intro c hc
      have hStop := List.head?_dropWhile_not (isNameChar axis)
        (splitFixed cs).2
      rw [Option.mem_def.1 hc] at hStop
      exact hStop
    · rw [List.length_append, length_mark, Nat.add_comm]
  · rintro ⟨run, rest, rfl, hRun, hRest, hIndex, hLength⟩
    have hHead : (run ++ rest).head? ≠ some '$' := by
      rcases run with - | ⟨c, run⟩
      · cases axis <;> cases hIndex
      · rintro ⟨⟩
        have hDollar := hRun '$' List.mem_cons_self
        rw [dollar_not_isNameChar] at hDollar
        cases hDollar
    have hTake : (run ++ rest).takeWhile (isNameChar axis) = run := by
      rw [List.takeWhile_append_of_pos hRun]
      rcases rest with - | ⟨c, rest⟩
      · simp
      · simp [hRest c rfl]
    rw [List.length_append, length_mark, Nat.add_comm] at hLength
    rw [scan_eq, List.append_assoc, splitFixed_mark_append _ hHead,
      hTake, hIndex, ← hLength]
    rfl

/- A name by itself is read as its index. -/
theorem scan_partName_self
    {axis : Axis}
    {i : Nat}
    (hIndex : i < maxSize.along axis)
    (fixed : Bool) :
    scan axis (partName axis fixed i) =
      some ⟨i, fixed, (partName axis fixed i).length⟩ := by
  have hNothing :
      ∀ c, ([] : List Char).head? = some c →
        isNameChar axis c = false := by
    simp
  simpa using scan_partName hIndex hNothing fixed

------------------------------------------------------------
-- Points
------------------------------------------------------------

/- Two texts are the same but for the case of their letters. -/
def EqualLetters (cs ds : List Char) : Prop :=
  cs.map Char.toUpper = ds.map Char.toUpper

/-
  A text names a point: it is the letters of the column, in
  any case, and the digits of the row, each with or without a
  sign in front.
-/
def NamesPoint (cs : List Char) (p : Point) : Prop :=
  ∃ fixedColumn letters fixedRow,
    cs = mark fixedColumn ++ letters ++ partName .rows fixedRow p.y ∧
      EqualLetters letters (indexName .columns p.x)

/- The names of indices on the sheet are in capital letters. -/
theorem map_toUpper_indexName
    {axis : Axis}
    {i : Nat}
    (hIndex : i < maxSize.along axis) :
    (indexName axis i).map Char.toUpper = indexName axis i :=
  ((indexOf?_eq_some_iff fun _ => isNameChar_of_mem).1
    (indexOf?_indexName hIndex)).2

/- Only letters are the letters of a column. -/
theorem isAlpha_of_equalLetters
    {letters : List Char}
    {i : Nat}
    (hLetters : EqualLetters letters (indexName .columns i)) :
    ∀ c ∈ letters, c.isAlpha = true := by
  intro c hc
  have hUpper : c.toUpper ∈ (indexName .columns i).map Char.toUpper :=
    hLetters ▸ List.mem_map_of_mem hc
  rcases List.mem_map.1 hUpper with ⟨d, hd, hSame⟩
  rw [← Char.isAlpha_toUpper_eq_isAlpha, ← hSame,
    Char.isAlpha_toUpper_eq_isAlpha]
  exact isAlpha_of_mem_columnLetters hd

/- No letter stands where the name of a row starts. -/
theorem isAlpha_head?_row
    (fixed : Bool)
    (i : Nat) :
    ∀ c ∈ (partName .rows fixed i).head?, c.isAlpha = false := by
  intro c hc
  cases fixed with
  | true =>
      cases hc
      rfl
  | false =>
      exact
        Reference.isNameChar_other
          (isNameChar_of_mem (List.mem_of_mem_head? hc))

/- A cell is read as two parts that make up the whole text. -/
theorem readPoint?_eq_some
    {cs : List Char}
    {p : Point} :
    readPoint? cs = some p ↔
      ∃ column row,
        scan .columns cs = some column ∧
          scan .rows (cs.drop column.length) = some row ∧
          row.length = (cs.drop column.length).length ∧
          (⟨column.index, row.index⟩ : Point) = p := by
  simp only [readPoint?, readParts?, Option.map_eq_some_iff,
    Option.bind_eq_bind, Option.bind_eq_some_iff,
    Option.ite_none_right_eq_some, Option.some.injEq, Prod.exists,
    Prod.mk.injEq]
  constructor
  · rintro ⟨_, _, ⟨column, hColumn, row, hRow, hWhole, rfl, rfl⟩, hPoint⟩
    exact ⟨column, row, hColumn, hRow, hWhole, hPoint⟩
  · rintro ⟨column, row, hColumn, hRow, hWhole, hPoint⟩
    exact ⟨column, row, ⟨_, hColumn, _, hRow, hWhole, rfl, rfl⟩, hPoint⟩

/-
  A text is read as a point if and only if the point is on the
  sheet, and the text names it.
-/
theorem readPoint?_eq_some_iff
    (cs : List Char)
    (p : Point) :
    readPoint? cs = some p ↔
      maxSize.contains p = true ∧ NamesPoint cs p := by
  rw [readPoint?_eq_some, Size.contains_iff]
  constructor
  · rintro ⟨column, row, hColumn, hRow, hWhole, rfl⟩
    rcases scan_eq_some_iff.1 hColumn with
      ⟨letters, rest, rfl, hLetters, -, hColumnIndex, hLength⟩
    rw [hLength, List.drop_left] at hRow hWhole
    rcases scan_eq_some_iff.1 hRow with
      ⟨digits, rest', rfl, hDigits, -, hRowIndex, hRowLength⟩
    have hNothing : rest' = [] := by
      rw [hRowLength] at hWhole
      simpa using hWhole
    subst hNothing
    rcases (indexOf?_eq_some_iff hLetters).1 hColumnIndex with
      ⟨hWidth, hColumnName⟩
    rcases (indexOf?_eq_some_iff hDigits).1 hRowIndex with
      ⟨hHeight, hRowName⟩
    refine
      ⟨⟨hWidth, hHeight⟩, column.absolute, letters, row.absolute, ?_, ?_⟩
    · rw [map_toUpper_of_isDigit hDigits] at hRowName
      rw [hRowName, List.append_nil, partName, mark, mark]
    · rw [EqualLetters, hColumnName, map_toUpper_indexName hWidth]
  · rintro ⟨⟨hWidth, hHeight⟩, fixedColumn, letters, fixedRow, rfl,
      hLetters⟩
    have hAlpha := isAlpha_of_equalLetters hLetters
    have hColumnIndex : indexOf? .columns letters = some p.x := by
      refine (indexOf?_eq_some_iff hAlpha).2 ⟨hWidth, ?_⟩
      exact hLetters.trans (map_toUpper_indexName hWidth)
    have hRow :
        scan .rows (partName .rows fixedRow p.y) =
          some
            ⟨p.y, fixedRow, (partName .rows fixedRow p.y).length⟩ :=
      scan_partName_self hHeight fixedRow
    have hColumn :
        scan .columns
            (mark fixedColumn ++ letters ++
              partName .rows fixedRow p.y) =
          some
            ⟨p.x, fixedColumn, (mark fixedColumn ++ letters).length⟩ :=
      scan_eq_some_iff.2
        ⟨letters, _, rfl, hAlpha, isAlpha_head?_row fixedRow p.y,
          hColumnIndex, rfl⟩
    refine
      ⟨_, ⟨p.y, fixedRow, (partName .rows fixedRow p.y).length⟩,
        hColumn, ?_⟩
    rw [List.drop_left]
    exact ⟨hRow, rfl, rfl⟩

/- A point's own name is one of them. -/
theorem namesPoint_pointName (p : Point) :
    NamesPoint (pointName p) p :=
  ⟨false, indexName .columns p.x, false, rfl, rfl⟩

end Address

end Spreadsheet
