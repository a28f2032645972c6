import Mathlib
import Spreadsheet.Reference.Basic

/-
  The names of references are read as these references.

  A coordinate on the sheet is spelled by its index, and the
  index is read as the coordinate again, from any anchor from
  which it lies on the sheet.

  Main declarations:
    * `Address.indexOf?_indexName`
    * `Address.scan_partName`
    * `Reference.read?_source`
-/

namespace Spreadsheet

namespace Address

------------------------------------------------------------
-- Numbers
------------------------------------------------------------

/- One more character after those that were read. -/
theorem boundedNumber?_append
    {base limit start n : Nat}
    {value : Char → Nat}
    {cs : List Char}
    (hFirst : boundedNumber? base limit value start cs = some n)
    (c : Char)
    (hBound : n ≤ (limit - value c) / base) :
    boundedNumber? base limit value start (cs ++ [c]) =
      some (n * base + value c) := by
  induction cs generalizing start with
  | nil =>
      cases hFirst
      simp [boundedNumber?, Nat.not_lt.mpr hBound]
  | cons d cs ih =>
      rw [boundedNumber?] at hFirst
      rw [List.cons_append, boundedNumber?]
      split at hFirst
      · cases hFirst
      · rename_i hFits
        rw [if_neg hFits, ih hFirst]

theorem letterValue_letter
    {r : Nat}
    (hLetter : r < 26) :
    letterValue (letter r) = r + 1 := by
  revert r
  decide

theorem digitValue_digitChar
    {r : Nat}
    (hDigit : r < 10) :
    digitValue (Nat.digitChar r) = r := by
  revert r
  decide

/- The letters of a column spell its number. -/
theorem boundedNumber?_columnLetters
    {limit : Nat}
    (n : Nat)
    (hLimit : n ≤ limit) :
    boundedNumber? 26 limit letterValue 0 (columnLetters n) =
      some n := by
  induction n using Nat.strongRecOn with
  | ind n ih =>
      cases n with
      | zero => rw [columnLetters]; rfl
      | succ n =>
          have hLetter : n % 26 < 26 := Nat.mod_lt n (by decide)
          have hFirst := ih (n / 26) (by omega) (by omega)
          rw [columnLetters,
            boundedNumber?_append hFirst (letter (n % 26))
              (by rw [letterValue_letter hLetter]; omega),
            letterValue_letter hLetter]
          congr 1
          omega

/- The digits of a row spell its number. -/
theorem boundedNumber?_toDigits
    {limit : Nat}
    (n : Nat)
    (hLimit : n ≤ limit) :
    boundedNumber? 10 limit digitValue 0 (Nat.toDigits 10 n) =
      some n := by
  induction n using Nat.strongRecOn with
  | ind n ih =>
      by_cases hSmall : n < 10
      · have hEmpty :
            boundedNumber? 10 limit digitValue 0 [] = some 0 := rfl
        have hOne :=
          boundedNumber?_append hEmpty (Nat.digitChar n)
            (Nat.zero_le _)
        rw [Nat.toDigits_of_lt_base hSmall]
        simpa [digitValue_digitChar hSmall] using hOne
      · have hDigit : n % 10 < 10 := Nat.mod_lt n (by decide)
        have hFirst := ih (n / 10) (by omega) (by omega)
        rw [Nat.toDigits_of_base_le (by decide) (by omega),
          boundedNumber?_append hFirst (Nat.digitChar (n % 10))
            (by rw [digitValue_digitChar hDigit]; omega),
          digitValue_digitChar hDigit]
        congr 1
        omega

------------------------------------------------------------
-- Characters
------------------------------------------------------------

theorem columnLetters_ne_nil
    {n : Nat}
    (hPositive : 0 < n) :
    columnLetters n ≠ [] := by
  cases n with
  | zero => cases hPositive
  | succ n =>
      rw [columnLetters]
      simp

theorem isAlpha_of_mem_columnLetters
    {n : Nat}
    {c : Char}
    (hc : c ∈ columnLetters n) :
    c.isAlpha = true := by
  induction n using Nat.strongRecOn with
  | ind n ih =>
      cases n with
      | zero =>
          rw [columnLetters] at hc
          cases hc
      | succ n =>
          rw [columnLetters, List.mem_append,
            List.mem_singleton] at hc
          rcases hc with hc | rfl
          · exact ih (n / 26) (by omega) hc
          · have hLetter : n % 26 < 26 := Nat.mod_lt n (by decide)
            have hAll : ∀ r < 26, (letter r).isAlpha = true := by
              decide
            exact hAll _ hLetter

theorem isDigit_of_mem_toDigits
    {n : Nat}
    {c : Char}
    (hc : c ∈ Nat.toDigits 10 n) :
    c.isDigit = true :=
  Nat.isDigit_of_mem_toDigits (by decide) (by decide) hc

/- No row number starts with a zero. -/
theorem head?_toDigits_ne
    (n : Nat)
    (hPositive : 0 < n) :
    (Nat.toDigits 10 n).head? ≠ some '0' := by
  induction n using Nat.strongRecOn with
  | ind n ih =>
      by_cases hSmall : n < 10
      · rw [Nat.toDigits_of_lt_base hSmall]
        simp
        omega
      · have hFirst := ih (n / 10) (by omega) (by omega)
        rw [Nat.toDigits_of_base_le (by decide) (by omega)]
        cases hDigits : Nat.toDigits 10 (n / 10) with
        | nil => exact absurd hDigits Nat.toDigits_ne_nil
        | cons c cs =>
            rw [hDigits] at hFirst
            exact hFirst

theorem indexName_ne_nil (axis : Axis) (i : Nat) :
    indexName axis i ≠ [] := by
  cases axis with
  | columns => exact columnLetters_ne_nil (Nat.succ_pos i)
  | rows => exact Nat.toDigits_ne_nil

/- Names are made of the characters of names. -/
theorem isNameChar_of_mem
    {axis : Axis}
    {i : Nat}
    {c : Char}
    (hc : c ∈ indexName axis i) :
    isNameChar axis c = true := by
  cases axis with
  | columns => exact isAlpha_of_mem_columnLetters hc
  | rows => exact isDigit_of_mem_toDigits hc

------------------------------------------------------------
-- Names
------------------------------------------------------------

/- The name of an index is read as the index. -/
theorem indexOf?_indexName
    {axis : Axis}
    {i : Nat}
    (hIndex : i < maxSize.along axis) :
    indexOf? axis (indexName axis i) = some i := by
  have hSome : (indexName axis i).isEmpty = false := by
    rw [List.isEmpty_eq_false_iff]
    exact indexName_ne_nil axis i
  cases axis with
  | columns =>
      have hRead := boundedNumber?_columnLetters (i + 1) hIndex
      simp only [indexOf?, hSome, Bool.false_eq_true, if_false]
      exact congrArg (Option.map (· - 1)) hRead
  | rows =>
      have hHead : (indexName .rows i).head? ≠ some '0' :=
        head?_toDigits_ne (i + 1) (Nat.succ_pos i)
      have hRead := boundedNumber?_toDigits (i + 1) hIndex
      simp only [indexOf?, hSome, Bool.false_or, beq_iff_eq, hHead,
        if_false]
      exact congrArg (Option.map (· - 1)) hRead

/- The name of an index, with `$` if it is fixed. -/
def partName (axis : Axis) (fixed : Bool) (i : Nat) : List Char :=
  (if fixed then ['$'] else []) ++ indexName axis i

theorem length_partName (axis : Axis) (fixed : Bool) (i : Nat) :
    (partName axis fixed i).length =
      (indexName axis i).length + fixed.toNat := by
  cases fixed <;> simp [partName, Nat.add_comm]

theorem splitFixed_partName
    (axis : Axis)
    (fixed : Bool)
    (i : Nat)
    (cs : List Char) :
    splitFixed (partName axis fixed i ++ cs) =
      (fixed, indexName axis i ++ cs) := by
  cases fixed with
  | true => rfl
  | false =>
      cases hName : indexName axis i with
      | nil => exact absurd hName (indexName_ne_nil axis i)
      | cons c name =>
          have hc : isNameChar axis c = true :=
            isNameChar_of_mem (i := i) (by simp [hName])
          have hDollar : c ≠ '$' := by
            rintro rfl
            cases axis <;> cases hc
          simp [partName, hName, splitFixed, hDollar]

/- A name is read up to a character of another kind. -/
theorem scan_partName
    {axis : Axis}
    {i : Nat}
    {cs : List Char}
    (hIndex : i < maxSize.along axis)
    (hEnd : ∀ c, cs.head? = some c → isNameChar axis c = false)
    (fixed : Bool) :
    scan axis (partName axis fixed i ++ cs) =
      some ⟨i, fixed, (partName axis fixed i).length⟩ := by
  have hRun :
      (indexName axis i ++ cs).takeWhile (isNameChar axis) =
        indexName axis i := by
    rw [List.takeWhile_append_of_pos fun c hc => isNameChar_of_mem hc]
    cases cs with
    | nil => simp
    | cons c cs => simp [hEnd c rfl]
  unfold scan
  rw [splitFixed_partName]
  dsimp only
  rw [hRun, indexOf?_indexName hIndex, length_partName]
  rfl

/- Nothing is read where a name of the other kind stands. -/
theorem scan_eq_none
    {axis : Axis}
    {cs : List Char}
    (hStart :
      ∀ c, (splitFixed cs).2.head? = some c →
        isNameChar axis c = false) :
    scan axis cs = none := by
  have hRun :
      (splitFixed cs).2.takeWhile (isNameChar axis) = [] := by
    cases hRest : (splitFixed cs).2 with
    | nil => rfl
    | cons c rest =>
        rw [hRest] at hStart
        simp [hStart c rfl]
  unfold scan
  dsimp only
  rw [hRun]
  cases axis <;> rfl

end Address

------------------------------------------------------------
-- Coordinates
------------------------------------------------------------

/- A coordinate on the sheet is the one at its index. -/
theorem Coord.ofIndex_index
    {c : Coord}
    {anchor limit : Nat}
    (hSheet : c.onSheet anchor limit = true) :
    Coord.ofIndex (c.index anchor) c.isAbsolute anchor = c := by
  cases c with
  | absolute p => simp [ofIndex, index, isAbsolute, position]
  | relative d =>
      have hStart : 0 ≤ (anchor : Int) + d := by
        simp only [onSheet, Bool.and_eq_true,
          decide_eq_true_eq] at hSheet
        exact hSheet.1
      change
        Coord.relative ((((anchor : Int) + d).toNat : Int) - anchor) =
          .relative d
      rw [Int.toNat_of_nonneg hStart]
      congr 1
      omega

theorem Coord.index_lt
    {c : Coord}
    {anchor limit : Nat}
    (hSheet : c.onSheet anchor limit = true) :
    c.index anchor < limit := by
  simp only [onSheet, Bool.and_eq_true, decide_eq_true_eq] at hSheet
  unfold index
  omega

------------------------------------------------------------
-- References
------------------------------------------------------------

namespace Reference

open Address

section

variable
  {anchor : Point}
  {axis : Axis}
  {c x y : Coord}
  {cs : List Char}

theorem coordSource_eq_partName
    (axis : Axis)
    (anchor : Point)
    (c : Coord) :
    coordSource axis anchor c =
      partName axis c.isAbsolute (c.index (anchor.along axis)) := rfl

/- A coordinate's name starts a part that is this coordinate. -/
theorem scan_coordSource
    (cs : List Char)
    (hSheet :
      c.onSheet (anchor.along axis) (maxSize.along axis) = true)
    (hEnd : ∀ d, cs.head? = some d → isNameChar axis d = false) :
    ∃ part,
      scan axis (coordSource axis anchor c ++ cs) = some part ∧
        part.length = (coordSource axis anchor c).length ∧
          coordOf anchor axis part = c := by
  refine ⟨_, scan_partName (Coord.index_lt hSheet) hEnd _, rfl, ?_⟩
  exact Coord.ofIndex_index hSheet

/- After `$`, a name starts with a character of its kind. -/
theorem head?_splitFixed_coordSource
    {d : Char}
    (hHead :
      (splitFixed (coordSource axis anchor c)).2.head? = some d) :
    isNameChar axis d = true := by
  rw [coordSource_eq_partName,
    ← List.append_nil (partName axis _ _), splitFixed_partName]
    at hHead
  cases hName : indexName axis (c.index (anchor.along axis)) with
  | nil => exact absurd hName (indexName_ne_nil _ _)
  | cons e name =>
      rw [hName] at hHead
      cases hHead
      exact isNameChar_of_mem (by rw [hName]; exact List.mem_cons_self)

/- No character belongs to names of columns and of rows. -/
theorem isNameChar_other
    {d : Char}
    (hRow : isNameChar .rows d = true) :
    isNameChar .columns d = false := by
  simp only [isNameChar, Char.isDigit, ge_iff_le, Bool.and_eq_true,
    decide_eq_true_eq, UInt32.le_iff_toNat_le] at hRow
  simp only [isNameChar, Char.isAlpha, Char.isUpper, Char.isLower,
    ge_iff_le, Bool.or_eq_false_iff, Bool.and_eq_false_iff,
    decide_eq_false_iff_not, UInt32.le_iff_toNat_le]
  simp at hRow ⊢
  omega

theorem readCoord?_coordSource
    (hSheet :
      c.onSheet (anchor.along axis) (maxSize.along axis) = true) :
    readCoord? axis (coordSource axis anchor c) anchor = some c := by
  rcases scan_coordSource [] hSheet nofun with
    ⟨part, hScan, hLength, hCoord⟩
  rw [List.append_nil] at hScan
  simp [readCoord?, hScan, hLength, hCoord, Option.filter]

/- A row has no column in its name. -/
theorem scan_columns_rowSource :
    scan .columns (coordSource .rows anchor c) = none := by
  exact
    scan_eq_none fun d hHead =>
      isNameChar_other (head?_splitFixed_coordSource hHead)

theorem readCell?_cellSource
    (hColumn : x.onSheet anchor.x maxSize.width = true)
    (hRow : y.onSheet anchor.y maxSize.height = true) :
    readCell? (cellSource anchor x y) anchor = some (x, y) := by
  have hEnd :
      ∀ d, (coordSource .rows anchor y).head? = some d →
        isNameChar .columns d = false := by
    intro d hHead
    rw [coordSource_eq_partName, partName] at hHead
    cases hFixed : y.isAbsolute with
    | true =>
        rw [hFixed] at hHead
        cases hHead
        decide
    | false =>
        rw [hFixed] at hHead
        exact
          isNameChar_other
            (isNameChar_of_mem (List.mem_of_mem_head? hHead))
  have hColumn' :
      x.onSheet (anchor.along .columns) (maxSize.along .columns) =
        true := hColumn
  have hRow' :
      y.onSheet (anchor.along .rows) (maxSize.along .rows) =
        true := hRow
  rcases scan_coordSource _ hColumn' hEnd with
    ⟨column, hScan, hLength, hX⟩
  rcases scan_coordSource [] hRow' nofun with
    ⟨row, hScan', hLength', hY⟩
  rw [List.append_nil] at hScan'
  unfold readCell? readParts? cellSource
  simp [hScan, hScan', hLength, hLength', hX, hY]

/- A column or row is no cell. -/
theorem readCell?_coordSource
    (hSheet :
      c.onSheet (anchor.along axis) (maxSize.along axis) = true) :
    readCell? (coordSource axis anchor c) anchor = none := by
  unfold readCell? readParts?
  cases axis with
  | columns =>
      rcases scan_coordSource [] hSheet nofun with
        ⟨part, hScan, hLength, -⟩
      rw [List.append_nil] at hScan
      have hNone : scan .rows [] = none := rfl
      simp [hScan, hLength, hNone]
  | rows =>
      rw [scan_columns_rowSource]
      rfl

------------------------------------------------------------
-- Colons
------------------------------------------------------------

theorem splitColon_eq_none
    (hColon : ':' ∉ cs) :
    splitColon cs = none := by
  induction cs with
  | nil => rfl
  | cons d cs ih =>
      simp only [List.mem_cons, not_or] at hColon
      rw [splitColon, ih hColon.2]
      · rfl
      · exact fun h => hColon.1 h.symm

theorem splitColon_append
    (hColon : ':' ∉ cs)
    (ds : List Char) :
    splitColon (cs ++ ':' :: ds) = some (cs, ds) := by
  induction cs with
  | nil => rfl
  | cons d cs ih =>
      simp only [List.mem_cons, not_or] at hColon
      rw [List.cons_append, splitColon, ih hColon.2]
      · rfl
      · exact fun h => hColon.1 h.symm

theorem eq_or_isNameChar_of_mem
    {d : Char}
    (hd : d ∈ coordSource axis anchor c) :
    d = '$' ∨ isNameChar axis d = true := by
  rw [coordSource_eq_partName, partName, List.mem_append] at hd
  rcases hd with hd | hd
  · refine .inl ?_
    cases hFixed : c.isAbsolute <;> simp_all
  · exact .inr (isNameChar_of_mem hd)

theorem colon_not_mem_coordSource :
    ':' ∉ coordSource axis anchor c := by
  intro hColon
  rcases eq_or_isNameChar_of_mem hColon with h | h
  · cases h
  · cases axis <;> cases h

theorem colon_not_mem_cellSource :
    ':' ∉ cellSource anchor x y := by
  rw [cellSource, List.mem_append, not_or]
  exact ⟨colon_not_mem_coordSource, colon_not_mem_coordSource⟩

end

------------------------------------------------------------
-- Whole References
------------------------------------------------------------

/- The name of a reference on the sheet is this reference. -/
theorem read?_source
    {r : Reference}
    {anchor : Point}
    (hSheet : r.onSheet anchor = true) :
    read? (r.source anchor) anchor = some r := by
  unfold source
  rw [if_pos hSheet]
  cases r with
  | illegal => cases hSheet
  | cell x y =>
      simp only [onSheet, Bool.and_eq_true] at hSheet
      dsimp only
      unfold read?
      rw [splitColon_eq_none colon_not_mem_cellSource]
      dsimp only
      rw [readCell?_cellSource hSheet.1 hSheet.2]
      rfl
  | area x y =>
      simp only [onSheet, Span.onSheet, Bool.and_eq_true] at hSheet
      dsimp only
      unfold read?
      rw [splitColon_append colon_not_mem_cellSource]
      dsimp only
      unfold readCorners?
      rw [readCell?_cellSource hSheet.1.1 hSheet.2.1,
        readCell?_cellSource hSheet.1.2 hSheet.2.2]
      rfl
  | band axis s =>
      simp only [onSheet, Span.onSheet, Bool.and_eq_true] at hSheet
      dsimp only
      unfold read?
      rw [splitColon_append colon_not_mem_coordSource]
      dsimp only
      have hCorners :
          readCorners? (coordSource axis anchor s.start)
              (coordSource axis anchor s.stop) anchor =
            none := by
        unfold readCorners?
        rw [readCell?_coordSource hSheet.1]
        rfl
      have hBand :
          readBand? axis (coordSource axis anchor s.start)
              (coordSource axis anchor s.stop) anchor =
            some (.band axis s) := by
        unfold readBand?
        rw [readCoord?_coordSource hSheet.1,
          readCoord?_coordSource hSheet.2]
        rfl
      cases axis with
      | columns =>
          rw [hCorners, hBand]
          rfl
      | rows =>
          have hColumns :
              readBand? .columns (coordSource .rows anchor s.start)
                  (coordSource .rows anchor s.stop) anchor =
                none := by
            unfold readBand? readCoord?
            rw [scan_columns_rowSource]
            rfl
          rw [hCorners, hColumns, hBand]
          rfl

end Reference

end Spreadsheet
