import Mathlib
import Spreadsheet.Proofs.Address.Points
import Spreadsheet.Proofs.Token.Encoding

/-
  Names read from bytes, in words.

  A name is read byte by byte, up to the first byte that is no
  letter or digit by itself. Room for a digit is looked for
  before the number is multiplied, so that no word overflows,
  whatever the text is.

  Main declarations:
    * `Word.mul?`
    * `Address.scanRun?`
    * `Address.scanBytes?`
    * `Address.scanBytes?_encode`
    * `Address.names_match_points`
-/

namespace Spreadsheet

/- The product of two words, if it is a word. -/
def Word.mul? (a b : Nat) : Option Nat :=
  if a * b < 2 ^ 32 then some (a * b) else none

theorem Word.mul?_eq_some {a b : Nat} (hWord : a * b < 2 ^ 32) :
    Word.mul? a b = some (a * b) :=
  if_pos hWord

namespace Address

------------------------------------------------------------
-- Runs Of Bytes
------------------------------------------------------------

/- The value of a letter or digit, in words. -/
def value? (axis : Axis) (c : Char) : Option Nat :=
  match axis with
  | .columns => do
      let rank ← Word.sub? c.toUpper.toNat 'A'.toNat
      Word.add? rank 1
  | .rows => Word.sub? c.toNat '0'.toNat

/-
  Read letters or digits from bytes on, after a number and at
  a place: the number, if it is not too large, and the place
  where they end.
-/
def scanRun?
    (axis : Axis)
    (number place : Nat) :
    List UInt8 → Option (Option (Nat × Nat))
  | [] => some (some (number, place))
  | b :: bs =>
      match (Text.ascii? b).filter (isNameChar axis) with
      | none => some (some (number, place))
      | some c => do
          let digit ← value? axis c
          let room ← Word.sub? (maxSize.along axis) digit
          if room / base axis < number then
            return none
          else
            let product ← Word.mul? number (base axis)
            let next ← Word.add? product digit
            scanRun? axis next (place + 1) bs

section

variable
  {axis : Axis}
  {c : Char}

/- Letters and digits take one byte each. -/
theorem toNat_lt_of_isNameChar
    (hName : isNameChar axis c = true) :
    c.toNat < 128 := by
  cases axis with
  | columns =>
      have hRange := toNat_of_isAlpha hName
      omega
  | rows =>
      exact (Char.isDigit_iff_toNat.1 hName).2.trans_lt (by decide)

theorem value?_eq_some
    (hName : isNameChar axis c = true) :
    value? axis c = some (value axis c) := by
  cases axis with
  | columns =>
      have hFirst := toNat_toUpper_of_isAlpha hName
      have hLast := letterValue_le hName
      rw [letterValue] at hLast
      rw [value?, Word.sub?_eq_some hFirst, Option.bind_eq_bind,
        Option.bind_some, Word.add?_eq_some (by omega)]
      rfl
  | rows => exact Word.sub?_eq_some (Char.isDigit_iff_toNat.1 hName).1

/- The bytes of a text are read as its characters are. -/
theorem scanRun?_encode
    (axis : Axis)
    (number place : Nat)
    (cs : List Char) :
    scanRun? axis number place (Text.encode cs) =
      some
        ((boundedNumber? (base axis) (maxSize.along axis) (value axis)
            number (cs.takeWhile (isNameChar axis))).map
          fun n =>
            (n, place + (cs.takeWhile (isNameChar axis)).length)) := by
  induction cs generalizing number place with
  | nil => rfl
  | cons c cs ih =>
      rcases Text.bytes_of_char c with ⟨b, parts, hBytes, -, hByte⟩
      rw [Text.encode_cons, hBytes, List.cons_append, scanRun?]
      cases hName : isNameChar axis c with
      | false =>
          have hEnd : (Text.ascii? b).filter (isNameChar axis) = none := by
            rcases hByte with ⟨hByte, -⟩ | ⟨hByte, -⟩ <;>
              simp [hByte, hName]
          rw [hEnd, List.takeWhile_cons, hName]
          rfl
      | true =>
          rcases hByte with ⟨hByte, rfl⟩ | ⟨-, hWide⟩
          · have hNext :
                (Text.ascii? b).filter (isNameChar axis) = some c := by
              simp [hByte, hName]
            have hValue := value_le hName
            rw [hNext, List.takeWhile_cons, hName, if_pos rfl,
              boundedNumber?]
            simp only [value?_eq_some hName, Word.sub?_eq_some hValue,
              Option.bind_eq_bind, Option.bind_some]
            split
            · rfl
            · rename_i hRoom
              have hWord :=
                (next_le (base_pos axis) hValue hRoom).trans_lt
                  (Word.maxSize_lt axis)
              rw [Word.mul?_eq_some (by omega), Option.bind_some,
                Word.add?_eq_some hWord, Option.bind_some,
                List.nil_append, ih, List.length_cons]
              congr 3
              funext n
              congr 1
              omega
          · -- no letter or digit takes several bytes
            exact
              absurd hWide (Nat.not_le.2 (toNat_lt_of_isNameChar hName))

end

------------------------------------------------------------
-- Parts
------------------------------------------------------------

/- Whether a name may start here; a row's does not with zero. -/
def startsName (axis : Axis) (bs : List UInt8) : Bool :=
  match axis with
  | .columns => true
  | .rows =>
      (bs.head?.bind Text.ascii?).any fun c => c.isDigit && c != '0'

/- The index before a number that was read, in words. -/
def indexBefore?
    (axis : Axis)
    (number place : Nat) : Option (Option (Nat × Nat)) :=
  if axis = .columns ∧ number = 0 then
    some none
  else do
    let index ← Word.sub? number 1
    return some (index, place)

/-
  The index that is named by the bytes at a place, and the
  place where its name ends, in words.
-/
def indexBytes?
    (axis : Axis)
    (place : Nat)
    (bs : List UInt8) : Option (Option (Nat × Nat)) :=
  if startsName axis bs then do
    match ← scanRun? axis 0 place bs with
    | none => return none
    | some (number, place) => indexBefore? axis number place
  else
    some none

/- The column or row at the start of bytes, in words. -/
def scanBytes? (axis : Axis) (bs : List UInt8) : Option (Option Part) := do
  let absolute := bs.head?.bind Text.ascii? == some '$'
  let found ← indexBytes? axis absolute.toNat (bs.drop absolute.toNat)
  return found.map fun (index, place) => ⟨index, absolute, place⟩

theorem startsName_encode (cs : List Char) :
    startsName .rows (Text.encode cs) =
      (cs.takeWhile (isNameChar .rows)).head?.any (· != '0') := by
  rw [startsName, Text.head?_encode]
  rcases cs with - | ⟨c, cs⟩
  · rfl
  · cases hDigit : c.isDigit with
    | false =>
        simp only [List.head?_cons, Option.filter, List.takeWhile_cons,
          isNameChar, hDigit]
        split <;> simp [hDigit]
    | true =>
        have hSmall : c.toNat < 128 :=
          toNat_lt_of_isNameChar (show isNameChar .rows c = true from hDigit)
        simp [Option.filter, isNameChar, hDigit, hSmall]

/-
  The number is not zero where a name starts with a character
  that counts.
-/
theorem indexBytes?_of_starts
    {axis : Axis}
    {place : Nat}
    {cs : List Char}
    {c : Char}
    {run : List Char}
    (hStart : startsName axis (Text.encode cs) = true)
    (hRun : cs.takeWhile (isNameChar axis) = c :: run)
    (hFirst : 0 < value axis c) :
    indexBytes? axis place (Text.encode cs) =
      some
        ((indexOf? axis (c :: run)).map
          fun i => (i, place + (c :: run).length)) := by
  rw [indexBytes?, if_pos hStart, scanRun?_encode, hRun,
    indexOf?_cons hFirst, Option.bind_eq_bind, Option.bind_some]
  cases hNumber :
      boundedNumber? (base axis) (maxSize.along axis) (value axis) 0
        (c :: run) with
  | none => rfl
  | some n =>
      have hPositive := boundedNumber?_pos (base_pos axis) hFirst hNumber
      change indexBefore? axis n _ = _
      rw [indexBefore?, if_neg fun h => hPositive.ne' h.2,
        Word.sub?_eq_some hPositive]
      rfl

theorem indexBytes?_encode
    (axis : Axis)
    (place : Nat)
    (cs : List Char) :
    indexBytes? axis place (Text.encode cs) =
      some
        ((indexOf? axis (cs.takeWhile (isNameChar axis))).map
          fun i =>
            (i, place + (cs.takeWhile (isNameChar axis)).length)) := by
  cases axis with
  | columns =>
      rcases hRun : cs.takeWhile (isNameChar .columns) with - | ⟨c, run⟩
      · have hStart : startsName .columns (Text.encode cs) = true := rfl
        rw [indexBytes?, if_pos hStart, scanRun?_encode, hRun]
        rfl
      · exact indexBytes?_of_starts rfl hRun (letterValue_pos c)
  | rows =>
      have hStart := startsName_encode cs
      rcases hRun : cs.takeWhile (isNameChar .rows) with - | ⟨c, run⟩
      · rw [hRun] at hStart
        rw [indexBytes?, hStart]
        rfl
      · rw [hRun] at hStart
        by_cases hZero : c = '0'
        · subst hZero
          rw [indexBytes?, hStart]
          rfl
        · have hDigit : isNameChar .rows c = true :=
            List.mem_takeWhile_imp (hRun ▸ List.mem_cons_self)
          refine indexBytes?_of_starts ?_ hRun (digitValue_pos hDigit hZero)
          simpa using hStart.trans (by simpa using hZero)

/- The sign in front takes one byte. -/
theorem drop_splitFixed_encode (cs : List Char) :
    (Text.encode cs).drop (splitFixed cs).1.toNat =
      Text.encode (splitFixed cs).2 := by
  have hLength : ∀ fixed,
      (Text.encode (mark fixed)).length = fixed.toNat := by
    decide
  conv_lhs =>
    arg 2
    rw [← mark_append_splitFixed cs, Text.encode_append]
  rw [List.drop_left' (hLength _)]

theorem head?_encode_eq_dollar (cs : List Char) :
    ((Text.encode cs).head?.bind Text.ascii? == some '$') =
      (splitFixed cs).1 := by
  rw [Bool.eq_iff_iff, beq_iff_eq, Text.head?_encode_eq (by decide)]
  unfold splitFixed
  split
  · simp
  · rename_i hOther
    simp only [Bool.false_eq_true, iff_false]
    intro hDollar
    rcases cs with - | ⟨c, cs⟩
    · cases hDollar
    · cases hDollar
      exact hOther cs rfl

/-
  Whatever a text is, its bytes are read as it is, and no word
  overflows.
-/
theorem scanBytes?_encode (axis : Axis) (cs : List Char) :
    scanBytes? axis (Text.encode cs) = some (scan axis cs) := by
  rw [scanBytes?, head?_encode_eq_dollar]
  dsimp only
  rw [drop_splitFixed_encode, indexBytes?_encode, scan_eq]
  simp only [Option.bind_eq_bind, Option.bind_some, Option.map_map]
  congr 2
  funext i
  simp [Nat.add_comm]

------------------------------------------------------------
-- Points And Their Names
------------------------------------------------------------

/-
  Names and points correspond. A point on the sheet is read
  from its own name, and from no text but those that name it;
  names are looked for in bytes without a word that overflows;
  and no two columns have the same name, on the sheet or off.
-/
theorem names_match_points :
    (∀ p : Point,
      maxSize.contains p = true → readPoint? (pointName p) = some p) ∧
    (∀ (cs : List Char) (p : Point),
      readPoint? cs = some p ↔
        maxSize.contains p = true ∧ NamesPoint cs p) ∧
    (∀ (axis : Axis) (cs : List Char),
      scanBytes? axis (Text.encode cs) = some (scan axis cs)) ∧
    Function.Injective (indexName .columns) := by
  refine
    ⟨fun p hSheet => ?_, readPoint?_eq_some_iff, scanBytes?_encode,
      indexName_injective .columns⟩
  exact
    (readPoint?_eq_some_iff _ p).2 ⟨hSheet, namesPoint_pointName p⟩

example :
    readPoint? "$crxo2147483647".toList = some ⟨65534, 2147483646⟩ ∧
      readPoint? "CRXP1".toList = none ∧
      readPoint? "A01".toList = none := by
  decide

end Address

end Spreadsheet
