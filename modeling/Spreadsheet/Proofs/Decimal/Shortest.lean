import Mathlib
import Spreadsheet.Decimal.Shortest
import Spreadsheet.Proofs.Decimal.Rounding

/-
  The shortest decimal of a number is within its reach.

  The interval of a number is all that is within reach of it.
  Decimals of 17 digits are closer to each other than the
  interval is wide, so one of the two neighbours of the number
  is in it, and the search comes to an end with a decimal that
  is.

  Main declarations:
    * `Decimal.value`
    * `Decimal.holds_interval`
    * `Decimal.isSome_neighbour?`
    * `Decimal.shortest_reaches`
-/

namespace Spreadsheet

namespace Decimal

variable {m : Nat} {e k : Int} {narrow : Bool}

/- The number that a decimal denotes. -/
def value (d : Decimal) : ℚ :=
  d.digits * 10 ^ d.exponent

theorem zpow_eq_div
    {b : ℚ}
    (hb : b ≠ 0)
    (k : Int) :
    b ^ k = b ^ k.toNat / b ^ (-k).toNat := by
  have hExponent : k = k.toNat - (-k).toNat := by omega
  conv_lhs =>
    rw [hExponent, zpow_sub₀ hb, zpow_natCast, zpow_natCast]

/- Quarters of the last place are its steps of two bits less. -/
theorem zpow_eq_quarters (e : Int) : (2 : ℚ) ^ e = 4 * 2 ^ (e - 2) := by
  rw [zpow_sub₀ two_ne_zero]
  norm_num
  ring

------------------------------------------------------------
-- Intervals
------------------------------------------------------------

/- All numbers of an interval have one denominator. -/
def denominator (e k : Int) : Nat :=
  2 ^ (2 - e).toNat * 10 ^ (-k).toNat

theorem denominator_pos (e k : Int) : (0 : ℚ) < denominator e k := by
  unfold denominator
  positivity

theorem quarters_eq (c : Nat) (e k : Int) :
    (c / 4 * 2 ^ e : ℚ) =
      (c * (2 ^ (e - 2).toNat * 10 ^ (-k).toNat) : Nat) /
        denominator e k := by
  rw [zpow_eq_quarters, zpow_eq_div two_ne_zero, neg_sub, denominator]
  push_cast
  field_simp

theorem decimal_eq (d : Nat) (e k : Int) :
    (d * 10 ^ k : ℚ) =
      (d * 10 ^ k.toNat * 2 ^ (2 - e).toNat : Nat) /
        denominator e k := by
  rw [zpow_eq_div (by norm_num : (10 : ℚ) ≠ 0), denominator]
  push_cast
  field_simp

theorem gap_of_narrow
    (hNarrow : narrow = true ↔ m = 2 ^ 52 ∧ e ≠ -1074)
    (hPos : 0 < m) :
    (m - gap m e) * 2 ^ e =
      ((4 * m - (if narrow then 1 else 2) : Nat) / 4 * 2 ^ e : ℚ) := by
  cases narrow with
  | true =>
      rw [gap, if_pos (hNarrow.mp rfl), if_pos rfl,
        Nat.cast_sub (by omega)]
      push_cast
      ring
  | false =>
      have hNot : ¬ (m = 2 ^ 52 ∧ e ≠ -1074) := fun h =>
        Bool.false_ne_true (hNarrow.mpr h)
      rw [gap, if_neg hNot, if_neg Bool.false_ne_true,
        Nat.cast_sub (by omega)]
      push_cast
      ring

theorem value_interval (m : Nat) (e : Int) (narrow : Bool) :
    ((interval m e narrow).value * (interval m e narrow).scaleUp : Nat) /
        (interval m e narrow).scaleDown =
      (m * 2 ^ e : ℚ) := by
  rw [zpow_eq_quarters, zpow_eq_div two_ne_zero, neg_sub]
  simp only [interval, Nat.one_shiftLeft]
  push_cast
  ring

/- The interval is all that is within reach. -/
theorem holds_interval
    (hNarrow : narrow = true ↔ m = 2 ^ 52 ∧ e ≠ -1074)
    (hPos : 0 < m)
    (d : Nat)
    (k : Int) :
    (interval m e narrow).holds d k = true ↔
      Reaches m e (d * 10 ^ k) := by
  have hHigh :
      ((m + 1 / 2) * 2 ^ e : ℚ) = (4 * m + 2 : Nat) / 4 * 2 ^ e := by
    push_cast
    ring
  have hLe (a b : Nat) :
      (a / denominator e k : ℚ) ≤ b / denominator e k ↔ a ≤ b := by
    rw [div_le_div_iff_of_pos_right (denominator_pos e k), Nat.cast_le]
  have hLt (a b : Nat) :
      (a / denominator e k : ℚ) < b / denominator e k ↔ a < b := by
    rw [div_lt_div_iff_of_pos_right (denominator_pos e k), Nat.cast_lt]
  have hLow := gap_of_narrow hNarrow hPos
  rw [quarters_eq _ e k] at hLow hHigh
  have hValue := decimal_eq d e k
  simp only [Interval.holds, interval, Nat.one_shiftLeft, Nat.pow_eq,
    beq_iff_eq]
  constructor
  · intro hHolds
    split at hHolds
    · rename_i hEven
      simp only [Bool.and_eq_true, decide_eq_true_eq] at hHolds
      refine ⟨?_, ?_, by omega⟩
      · rw [hLow, hValue, hLe]
        exact hHolds.1
      · rw [hHigh, hValue, hLe]
        exact hHolds.2
    · simp only [Bool.and_eq_true, decide_eq_true_eq] at hHolds
      refine ⟨?_, ?_, fun _ => ⟨?_, ?_⟩⟩
      · rw [hLow, hValue, hLe]
        exact hHolds.1.le
      · rw [hHigh, hValue, hLe]
        exact hHolds.2.le
      · rw [hLow, hValue, hLt]
        exact hHolds.1
      · rw [hHigh, hValue, hLt]
        exact hHolds.2
  · rintro ⟨hFrom, hTo, hOdd⟩
    rw [hLow, hHigh, hValue] at hOdd
    rw [hLow, hValue] at hFrom
    rw [hHigh, hValue] at hTo
    simp only [hLe, hLt] at hFrom hTo hOdd
    split
    · simp only [Bool.and_eq_true, decide_eq_true_eq]
      exact ⟨hFrom, hTo⟩
    · rename_i hNotEven
      simp only [Bool.and_eq_true, decide_eq_true_eq]
      exact hOdd (by omega)

------------------------------------------------------------
-- Neighbours
------------------------------------------------------------

theorem Interval.holds_of_neighbour?
    {i : Interval}
    {d : Nat}
    (hFound : i.neighbour? k = some d) :
    i.holds d k = true := by
  unfold neighbour? at hFound
  dsimp only at hFound
  split at hFound
  · rename_i hBelow hAbove
    cases hFound
    split
    · exact hBelow
    · exact hAbove
  · rename_i hBelow hAbove
    cases hFound
    exact hBelow
  · rename_i hBelow hAbove
    cases hFound
    exact hAbove
  · cases hFound

/- The lower neighbour of a number on the grid of a power of ten. -/
def below (m : Nat) (e k : Int) : Nat :=
  4 * m * 2 ^ (e - 2).toNat * 10 ^ (-k).toNat /
    (2 ^ (2 - e).toNat * 10 ^ k.toNat)

/- A number is between its neighbours. -/
theorem below_bounds (m : Nat) (e k : Int) :
    below m e k * 10 ^ k ≤ (m * 2 ^ e : ℚ) ∧
      (m * 2 ^ e : ℚ) < (below m e k + 1) * 10 ^ k := by
  have hTen : (0 : ℚ) < 10 ^ k := zpow_pos (by norm_num) k
  have hPos : 0 < 2 ^ (2 - e).toNat * 10 ^ k.toNat := by positivity
  have hValue :
      (m * 2 ^ e / 10 ^ k : ℚ) =
        (4 * m * 2 ^ (e - 2).toNat * 10 ^ (-k).toNat : Nat) /
          (2 ^ (2 - e).toNat * 10 ^ k.toNat : Nat) := by
    rw [zpow_eq_quarters, zpow_eq_div two_ne_zero, neg_sub,
      zpow_eq_div (by norm_num : (10 : ℚ) ≠ 0)]
    push_cast
    field_simp
  have hDen : (0 : ℚ) < (2 ^ (2 - e).toNat * 10 ^ k.toNat : Nat) :=
    Nat.cast_pos.mpr hPos
  constructor
  · rw [← le_div_iff₀ hTen, hValue, le_div_iff₀ hDen]
    exact_mod_cast Nat.div_mul_le_self _ _
  · rw [← div_lt_iff₀ hTen, hValue, div_lt_iff₀ hDen]
    exact_mod_cast (Nat.lt_mul_div_succ _ hPos).trans_eq (mul_comm _ _)

theorem isSome_neighbour?_eq (m : Nat) (e k : Int) (narrow : Bool) :
    ((interval m e narrow).neighbour? k).isSome =
      ((interval m e narrow).holds (below m e k) k ||
        (interval m e narrow).holds (below m e k + 1) k) := by
  have hBelow :
      (interval m e narrow).value * (interval m e narrow).scaleUp *
            Nat.pow 10 (-k).toNat /
          ((interval m e narrow).scaleDown * Nat.pow 10 k.toNat) =
        below m e k := by
    simp only [interval, below, Nat.one_shiftLeft, Nat.pow_eq]
  unfold Interval.neighbour?
  dsimp only
  rw [hBelow]
  cases (interval m e narrow).holds (below m e k) k <;>
    cases (interval m e narrow).holds (below m e k + 1) k <;> rfl

/-
  Decimals that are closer to each other than the interval is
  wide have a neighbour in it.
-/
theorem isSome_neighbour?
    (hNarrow : narrow = true ↔ m = 2 ^ 52 ∧ e ≠ -1074)
    (hPos : 0 < m)
    (hClose : (10 ^ k : ℚ) < (gap m e + 1 / 2) * 2 ^ e) :
    ((interval m e narrow).neighbour? k).isSome = true := by
  have hUnit : (0 : ℚ) < 2 ^ e := zpow_pos two_pos e
  have hGap : 0 < gap m e := gap_pos m e
  rcases below_bounds m e k with ⟨hFrom, hTo⟩
  rw [isSome_neighbour?_eq, Bool.or_eq_true, holds_interval hNarrow hPos,
    holds_interval hNarrow hPos]
  push_cast
  -- If the lower one is out of reach, then the upper one is not.
  by_cases hLow : (m - gap m e) * 2 ^ e < below m e k * 10 ^ k
  · have hHigh : (below m e k * 10 ^ k : ℚ) < (m + 1 / 2) * 2 ^ e := by
      linarith
    exact .inl ⟨hLow.le, hHigh.le, fun _ => ⟨hLow, hHigh⟩⟩
  · have hLow' :
        (m - gap m e) * 2 ^ e < (below m e k + 1) * 10 ^ k := by
      have : (m - gap m e) * 2 ^ e < m * 2 ^ e :=
        mul_lt_mul_of_pos_right (by linarith) hUnit
      linarith
    have hHigh' :
        ((below m e k + 1) * 10 ^ k : ℚ) < (m + 1 / 2) * 2 ^ e := by
      linarith
    exact .inr ⟨hLow'.le, hHigh'.le, fun _ => ⟨hLow', hHigh'⟩⟩

------------------------------------------------------------
-- The Search
------------------------------------------------------------

/- The search ends with a decimal that is in the interval. -/
theorem Interval.holds_search
    {i : Interval}
    {power : Int}
    {n fuel : Nat}
    (hLast : (i.neighbour? (power - (n + fuel : Nat))).isSome = true) :
    i.holds (i.search power n fuel).digits
        (i.search power n fuel).exponent =
      true := by
  induction fuel generalizing n with
  | zero =>
      rcases Option.isSome_iff_exists.mp hLast with ⟨d, hFound⟩
      rw [Nat.add_zero] at hFound
      have hResult : i.search power n 0 = ⟨d, power - n⟩ := by
        simp [search, hFound]
      rw [hResult]
      exact holds_of_neighbour? hFound
  | succ fuel ih =>
      rw [← Nat.add_assoc, Nat.add_right_comm] at hLast
      cases hFound : i.neighbour? (power - n) with
      | some d =>
          have hResult :
              i.search power n (fuel + 1) = ⟨d, power - n⟩ := by
            simp [search, hFound]
          rw [hResult]
          exact holds_of_neighbour? hFound
      | none =>
          have hResult :
              i.search power n (fuel + 1) =
                i.search power (n + 1) fuel := by
            simp [search, hFound]
          rw [hResult]
          exact ih hLast

theorem value_trimZeros (digits : Nat) (exponent : Int) (fuel : Nat) :
    (trimZeros digits exponent fuel).value =
      digits * 10 ^ exponent := by
  induction fuel generalizing digits exponent with
  | zero => rfl
  | succ fuel ih =>
      unfold trimZeros
      split
      · rename_i hZero
        simp only [Bool.and_eq_true, beq_iff_eq] at hZero
        rw [ih, zpow_add_one₀ (by norm_num)]
        have hDigits : ((digits / 10 : Nat) * 10 : ℚ) = digits := by
          exact_mod_cast
            Nat.div_mul_cancel (Nat.dvd_of_mod_eq_zero hZero.1)
        rw [← hDigits]
        ring
      · rfl

theorem le_mul_pow_leadingZeros
    {num den fuel : Nat}
    (hEnough : den ≤ num * 10 ^ fuel) :
    den ≤ num * 10 ^ leadingZeros num den fuel := by
  induction fuel generalizing num with
  | zero => exact hEnough
  | succ fuel ih =>
      unfold leadingZeros
      split
      · rename_i hLess
        rw [pow_zero, mul_one]
        exact hLess
      · rw [pow_succ', ← mul_assoc] at hEnough ⊢
        exact ih hEnough

theorem digitCount_pos (n : Nat) : 0 < digitCount n :=
  Nat.length_toDigits_pos

theorem pow_digitCount_le
    {n : Nat}
    (hPos : 0 < n) :
    10 ^ (digitCount n - 1) ≤ n := by
  by_contra hMore
  have hSome : 0 < digitCount n - 1 := by
    rw [Nat.pos_iff_ne_zero]
    intro hZero
    rw [hZero] at hMore
    omega
  have hFewer : digitCount n ≤ digitCount n - 1 :=
    (Nat.length_toDigits_le_iff (by decide) hSome).mpr (by omega)
  have := digitCount_pos n
  omega

/- The power of ten is not beyond the number. -/
theorem zpow_magnitude_le
    {num den bound : Nat}
    (hDen : 0 < den)
    (hEnough : den ≤ num * 10 ^ bound) :
    (10 : ℚ) ^ (magnitude num den bound - 1) ≤ num / den := by
  have hDenCast : (0 : ℚ) < den := Nat.cast_pos.mpr hDen
  unfold magnitude
  split
  · rename_i hWhole
    have hCount := digitCount_pos (num / den)
    have hExponent :
        (digitCount (num / den) : Int) - 1 =
          (digitCount (num / den) - 1 : Nat) := by
      omega
    have hPower := pow_digitCount_le (Nat.div_pos hWhole hDen)
    rw [hExponent, zpow_natCast]
    calc (10 : ℚ) ^ (digitCount (num / den) - 1)
        ≤ (num / den : Nat) := by exact_mod_cast hPower
      _ ≤ num / den := Nat.cast_div_le
  · have hExponent :
        1 - (leadingZeros num den bound : Int) - 1 =
          -(leadingZeros num den bound : Nat) := by
      omega
    rw [hExponent, zpow_neg, zpow_natCast, le_div_iff₀ hDenCast,
      inv_mul_le_iff₀ (by positivity), mul_comm]
    exact_mod_cast le_mul_pow_leadingZeros hEnough

/- Decimals of 17 digits are closer than the interval is wide. -/
theorem div_lt_gap
    (hStored : Stored m e) :
    (m / 10 ^ 16 : ℚ) < gap m e + 1 / 2 := by
  unfold gap
  split
  · rename_i hPower
    rw [hPower.1]
    norm_num
  · have hMantissa : (m : ℚ) < (2 ^ 53 : Nat) :=
      Nat.cast_lt.mpr hStored.mantissa
    rw [div_lt_iff₀ (by positivity)]
    push_cast at hMantissa
    linarith

/- The shortest decimal of a number is within its reach. -/
theorem shortest_reaches
    (hNarrow : narrow = true ↔ m = 2 ^ 52 ∧ e ≠ -1074)
    (hStored : Stored m e) :
    Reaches m e (shortest m e narrow 17).value := by
  have hPos := hStored.positive
  have hUnit : (0 : ℚ) < 2 ^ e := zpow_pos two_pos e
  unfold shortest
  simp only [value_trimZeros]
  rw [← holds_interval hNarrow hPos]
  refine Interval.holds_search (isSome_neighbour? hNarrow hPos ?_)
  generalize hPower :
    magnitude
      ((interval m e narrow).value * (interval m e narrow).scaleUp)
      (interval m e narrow).scaleDown (2 - e).toNat = power
  have hMagnitude : (10 : ℚ) ^ (power - 1) ≤ m * 2 ^ e := by
    rw [← hPower, ← value_interval m e narrow]
    refine zpow_magnitude_le (by simp [interval]) ?_
    simp only [interval, Nat.one_shiftLeft]
    calc 2 ^ (2 - e).toNat
        ≤ 10 ^ (2 - e).toNat := Nat.pow_le_pow_left (by decide) _
      _ ≤ 4 * m * 2 ^ (e - 2).toNat * 10 ^ (2 - e).toNat :=
          Nat.le_mul_of_pos_left _ (by positivity)
  calc (10 : ℚ) ^ (power - (1 + 16 : Nat))
      = 10 ^ (power - 1) / 10 ^ 16 := by
        rw [← zpow_natCast, ← zpow_sub₀ (by norm_num)]
        congr 1
        omega
    _ ≤ m * 2 ^ e / 10 ^ 16 :=
        div_le_div_of_nonneg_right hMagnitude (by positivity)
    _ = m / 10 ^ 16 * 2 ^ e := by ring
    _ < (gap m e + 1 / 2) * 2 ^ e :=
        mul_lt_mul_of_pos_right (div_lt_gap hStored) hUnit

end Decimal

end Spreadsheet
