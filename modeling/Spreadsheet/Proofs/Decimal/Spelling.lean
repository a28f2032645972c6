import Mathlib
import Spreadsheet.Decimal.Reader
import Spreadsheet.Proofs.Decimal.Arithmetic
import Spreadsheet.Proofs.Decimal.Shortest

/-
  Reading a decimal that is spelled in positions.

  The spelling has digits and at most one point, and it is read
  as a decimal of the same value. Its digits and its exponent
  are in the range that is read without bounding the exponent,
  so it is read as the number that it is within reach of.

  Main declarations:
    * `Decimal.Literal.value`
    * `Decimal.spells_positional`
    * `Decimal.Literal.toFloat_of_reaches`
-/

namespace Spreadsheet

namespace Decimal

------------------------------------------------------------
-- Digits
------------------------------------------------------------

/- The number that a decimal denotes. -/
def Literal.value (l : Literal) : ℚ :=
  l.mantissa * 10 ^ l.exponent

theorem ofDigits_eq (cs : List Char) :
    ofDigits cs = Nat.ofDigitChars 10 cs 0 :=
  Nat.ofDigitChars_eq_foldl.symm

theorem ofDigits_toDigits (n : Nat) :
    ofDigits (Nat.toDigits 10 n) = n := by
  rw [ofDigits_eq, Nat.ofDigitChars_ten_toDigits]

theorem ofDigits_append_zeros (cs : List Char) (n : Nat) :
    ofDigits (cs ++ List.replicate n '0') = ofDigits cs * 10 ^ n := by
  rw [ofDigits_eq, ofDigits_eq, Nat.ofDigitChars_append,
    Nat.ofDigitChars_replicate_zero, mul_comm]

theorem ofDigits_zeros_append (n : Nat) (cs : List Char) :
    ofDigits (List.replicate n '0' ++ cs) = ofDigits cs := by
  rw [ofDigits_eq, ofDigits_eq, Nat.ofDigitChars_append,
    Nat.ofDigitChars_replicate_zero, mul_zero]

/- Digits alone are a whole number. -/
theorem Literal.ofChars?_digits
    {ds : List Char}
    (hNotNil : ds ≠ [])
    (hDigits : ∀ c ∈ ds, c.isDigit = true) :
    ofChars? ds = some ⟨ofDigits ds, 0⟩ := by
  have hTake : ds.takeWhile Char.isDigit = ds :=
    List.takeWhile_eq_self_iff.mpr hDigits
  have hDrop : ds.dropWhile Char.isDigit = [] :=
    List.dropWhile_eq_nil_iff.mpr hDigits
  simp [ofChars?, hTake, hDrop, splitFraction, readExponent?, hNotNil]

/- Digits after a point count as parts of ten. -/
theorem Literal.ofChars?_point
    {ds fs : List Char}
    (hNotNil : ds ≠ [])
    (hDigits : ∀ c ∈ ds, c.isDigit = true)
    (hFraction : ∀ c ∈ fs, c.isDigit = true) :
    ofChars? (ds ++ '.' :: fs) =
      some ⟨ofDigits (ds ++ fs), -fs.length⟩ := by
  have hPoint : ('.' : Char).isDigit = false := by decide
  have hTake : fs.takeWhile Char.isDigit = fs :=
    List.takeWhile_eq_self_iff.mpr hFraction
  have hDrop : fs.dropWhile Char.isDigit = [] :=
    List.dropWhile_eq_nil_iff.mpr hFraction
  simp [ofChars?, List.takeWhile_append_of_pos hDigits,
    List.dropWhile_append_of_pos hDigits, hPoint, splitFraction, hTake,
    hDrop, readExponent?, hNotNil]

/- The spelling of a decimal: digits and points, of its value. -/
structure Spells (d : Decimal) (cs : List Char) : Prop where
  digits : ∀ c ∈ cs, c.isDigit = true ∨ c = '.'
  value :
    ∃ l, Literal.ofChars? cs = some l ∧ l.value = d.value

variable {d : Decimal} {ds fs : List Char}

theorem isDigit_of_mem_zeros
    {n : Nat}
    {c : Char}
    (hc : c ∈ List.replicate n '0') :
    c.isDigit = true := by
  rw [(List.mem_replicate.mp hc).2]
  decide

/- Zeros after the digits of a whole number. -/
theorem spells_whole
    (hNotNil : ds ≠ [])
    (hDigits : ∀ c ∈ ds, c.isDigit = true)
    (hValue : ofDigits ds = d.digits)
    (hWhole : 0 ≤ d.exponent) :
    d.Spells (ds ++ List.replicate d.exponent.toNat '0') := by
  have hAll :
      ∀ c ∈ ds ++ List.replicate d.exponent.toNat '0',
        c.isDigit = true :=
    List.forall_mem_append.mpr
      ⟨hDigits, fun _ => isDigit_of_mem_zeros⟩
  have hPower : (10 : ℚ) ^ d.exponent = 10 ^ d.exponent.toNat := by
    rw [← zpow_natCast, Int.toNat_of_nonneg hWhole]
  refine ⟨fun c hc => .inl (hAll c hc), _,
    Literal.ofChars?_digits (List.append_ne_nil_of_left_ne_nil hNotNil _)
      hAll, ?_⟩
  rw [Literal.value, value, ofDigits_append_zeros, hValue, hPower,
    zpow_zero]
  push_cast
  ring

/- A point with as many digits after it as the exponent asks for. -/
theorem spells_point
    (hNotNil : ds ≠ [])
    (hDigits : ∀ c ∈ ds, c.isDigit = true)
    (hFraction : ∀ c ∈ fs, c.isDigit = true)
    (hValue : ofDigits (ds ++ fs) = d.digits)
    (hPlaces : d.exponent = -fs.length) :
    d.Spells (ds ++ '.' :: fs) := by
  refine ⟨?_, _, Literal.ofChars?_point hNotNil hDigits hFraction, ?_⟩
  · rw [List.forall_mem_append, List.forall_mem_cons]
    exact ⟨fun c hc => .inl (hDigits c hc), .inr rfl,
      fun c hc => .inl (hFraction c hc)⟩
  · rw [Literal.value, value, hValue, hPlaces]

theorem spells_positional (d : Decimal) :
    d.Spells d.positional := by
  have hDigits :
      ∀ c ∈ Nat.toDigits 10 d.digits, c.isDigit = true := fun c =>
    Nat.isDigit_of_mem_toDigits (by decide) (by decide)
  have hNotNil : Nat.toDigits 10 d.digits ≠ [] :=
    List.ne_nil_of_length_pos Nat.length_toDigits_pos
  have hValue := ofDigits_toDigits d.digits
  unfold positional
  dsimp only
  generalize Nat.toDigits 10 d.digits = ds at *
  split
  · rename_i hWhole
    exact spells_whole hNotNil hDigits hValue hWhole
  · split
    · rename_i hPart hFew
      refine spells_point ?_
        (fun c hc => hDigits c (List.mem_of_mem_take hc))
        (fun c hc => hDigits c (List.mem_of_mem_drop hc)) ?_ ?_
      · rw [ne_eq, List.take_eq_nil_iff, not_or]
        exact ⟨by omega, hNotNil⟩
      · rw [List.take_append_drop, hValue]
      · rw [List.length_drop]
        omega
    · rename_i hPart hMany
      have hZero : ['0'] = List.replicate 1 '0' := rfl
      refine spells_point (List.cons_ne_nil '0' [])
        (fun c hc => isDigit_of_mem_zeros (hZero ▸ hc))
        (List.forall_mem_append.mpr
          ⟨fun _ => isDigit_of_mem_zeros, hDigits⟩) ?_ ?_
      · rw [hZero, ofDigits_zeros_append, ofDigits_zeros_append, hValue]
      · rw [List.length_append, List.length_replicate]
        omega

------------------------------------------------------------
-- Values In The Range
------------------------------------------------------------

variable {m : Nat} {e : Int}

theorem zpow_least :
    (10 : ℚ) ^ (-324 : Int) < 1 / 2 * 2 ^ (-1074 : Int) := by
  have hNat : 2 * 2 ^ 1074 < 10 ^ 324 := by decide +kernel
  have hCast : (2 * 2 ^ 1074 : ℚ) < 10 ^ 324 := by exact_mod_cast hNat
  calc (10 : ℚ) ^ (-324 : Int)
      = (10 ^ 324)⁻¹ := rfl
    _ < (2 * 2 ^ 1074)⁻¹ := inv_strictAnti₀ (by positivity) hCast
    _ = 1 / 2 * (2 ^ 1074)⁻¹ := by rw [mul_inv, one_div]
    _ = 1 / 2 * 2 ^ (-1074 : Int) := rfl

theorem zpow_greatest :
    (2 : ℚ) ^ 53 * 2 ^ (971 : Int) < 10 ^ (309 : Int) := by
  have hNat : 2 ^ 53 * 2 ^ 971 < 10 ^ 309 := by decide +kernel
  exact_mod_cast hNat

/- Stored numbers are in a range of powers of ten. -/
theorem Reaches.bounds
    {v : ℚ}
    (hReaches : Reaches m e v)
    (hStored : Stored m e) :
    (10 : ℚ) ^ (-324 : Int) < v ∧ v < (10 : ℚ) ^ (309 : Int) := by
  have hTwo : (1 : ℚ) ≤ 2 := one_le_two
  have hUnit : (0 : ℚ) < 2 ^ e := zpow_pos two_pos e
  have hGap := gap_le m e
  have hLow : (1 : ℚ) ≤ m := Nat.one_le_cast.mpr hStored.positive
  have hHigh : ((m + 1 : Nat) : ℚ) ≤ (2 ^ 53 : Nat) :=
    Nat.cast_le.mpr hStored.mantissa
  push_cast at hHigh
  constructor
  · calc (10 : ℚ) ^ (-324 : Int)
        < 1 / 2 * 2 ^ (-1074 : Int) := zpow_least
      _ ≤ 1 / 2 * 2 ^ e := by
          have := zpow_le_zpow_right₀ hTwo hStored.least
          linarith
      _ ≤ (m - gap m e) * 2 ^ e :=
          mul_le_mul_of_nonneg_right (by linarith) hUnit.le
      _ ≤ v := hReaches.low
  · calc v
        ≤ (m + 1 / 2) * 2 ^ e := hReaches.high
      _ ≤ 2 ^ 53 * 2 ^ e :=
          mul_le_mul_of_nonneg_right (by linarith) hUnit.le
      _ ≤ 2 ^ 53 * 2 ^ (971 : Int) := by
          have := zpow_le_zpow_right₀ hTwo hStored.greatest
          linarith
      _ < 10 ^ (309 : Int) := zpow_greatest

/- A number is less than the power of ten of its digits. -/
theorem lt_pow_digitCount (n : Nat) : n < 10 ^ digitCount n :=
  (Nat.length_toDigits_le_iff (by decide) (digitCount_pos n)).mp le_rfl

/- The exponent is as far as the digits are from the range. -/
theorem Literal.exponent_bounds
    {l : Literal}
    (hStored : Stored m e)
    (hReaches : Reaches m e l.value) :
    0 < l.mantissa ∧
      -324 < digitCount l.mantissa + l.exponent ∧
        digitCount l.mantissa + l.exponent ≤ 309 := by
  rcases hReaches.bounds hStored with ⟨hLeast, hGreatest⟩
  have hTen : (1 : ℚ) < 10 := by norm_num
  have hUnit : (0 : ℚ) < 10 ^ l.exponent := zpow_pos (by norm_num) _
  have hPos : 0 < l.mantissa := by
    rw [Nat.pos_iff_ne_zero]
    intro hZero
    rw [value, hZero, Nat.cast_zero, zero_mul] at hLeast
    exact absurd hLeast (zpow_pos (by norm_num) _).not_gt
  refine ⟨hPos, ?_, ?_⟩
  · have hLess : (l.mantissa : ℚ) < 10 ^ digitCount l.mantissa := by
      exact_mod_cast lt_pow_digitCount l.mantissa
    refine (zpow_lt_zpow_iff_right₀ hTen).mp (hLeast.trans ?_)
    rw [value, zpow_add₀ (by norm_num), zpow_natCast]
    exact mul_lt_mul_of_pos_right hLess hUnit
  · have hMore :
        (10 : ℚ) ^ (digitCount l.mantissa - 1) ≤ l.mantissa := by
      exact_mod_cast pow_digitCount_le hPos
    have hCount := digitCount_pos l.mantissa
    have hLess :
        ((digitCount l.mantissa - 1 : Nat) : Int) + l.exponent < 309 := by
      refine (zpow_lt_zpow_iff_right₀ hTen).mp
        (lt_of_le_of_lt ?_ hGreatest)
      rw [value, zpow_add₀ (by norm_num), zpow_natCast]
      exact mul_le_mul_of_nonneg_right hMore hUnit.le
    omega

/- A number has no more decimal digits than bits. -/
theorem digitCount_le_log2
    {n : Nat}
    (hPos : 0 < n) :
    digitCount n ≤ n.log2 + 1 := by
  have hPower : 2 ^ (digitCount n - 1) ≤ n :=
    (Nat.pow_le_pow_left (by decide) _).trans (pow_digitCount_le hPos)
  have := (Nat.le_log2 hPos.ne').mpr hPower
  omega

/- A decimal is read as the number that it is within reach of. -/
theorem Literal.toFloat_of_reaches
    {l : Literal}
    (hStored : Stored m e)
    (hReaches : Reaches m e l.value) :
    l.toFloat =
      .ofModel (.pack (.finite .positive m e hStored.positive)) := by
  rcases exponent_bounds hStored hReaches with ⟨hPos, hLeast, hMost⟩
  have hBits := digitCount_le_log2 hPos
  have hCount := digitCount_pos l.mantissa
  have hExponent : l.boundedExponent = l.exponent := by
    unfold boundedExponent
    change max (-400 - (digitCount l.mantissa : Int))
      (min (400 - digitCount l.mantissa) l.exponent) = l.exponent
    omega
  unfold toFloat
  rw [hExponent]
  exact ofScientific_of_reaches hPos (by omega) (by omega) hStored
    hReaches

end Decimal

end Spreadsheet
