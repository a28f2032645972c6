import Mathlib

/-
  How numbers are rounded to 64 bits.

  A mantissa is known with two further bits, which say where
  the number lies between it and the next one. Dropping bits
  keeps this up, and the mantissa that is rounded by them is
  the nearest whole number, the even one of two.

  So each number within reach of a stored number, half of its
  last place to either side, is rounded to it. The reach below
  a power of two is half as far, since numbers lie twice as
  close there.

  Main declarations:
    * `Decimal.Stored`
    * `Decimal.Locates`
    * `Decimal.Nearest`
    * `Decimal.Reaches`
    * `Decimal.roundWithAccuracy_of_reaches`
-/

namespace Spreadsheet

namespace Decimal

open Float.Model Float.Model.UnpackedFloat

------------------------------------------------------------
-- Further Bits
------------------------------------------------------------

/- The number lies past the mantissa as its further bits say. -/
def Locates (em : ExtendedMantissa) (v : ℚ) : Prop :=
  match em.roundBit, em.stickyBit with
  | false, false => v = em.mantissa
  | false, true => em.mantissa < v ∧ v < em.mantissa + 1 / 2
  | true, false => v = em.mantissa + 1 / 2
  | true, true => em.mantissa + 1 / 2 < v ∧ v < em.mantissa + 1

theorem Locates.bounds
    {em : ExtendedMantissa}
    {v : ℚ}
    (hLocates : Locates em v) :
    em.mantissa ≤ v ∧ v < em.mantissa + 1 := by
  unfold Locates at hLocates
  split at hLocates <;> constructor <;> linarith

theorem Locates.shiftRightOne
    {em : ExtendedMantissa}
    {v : ℚ}
    (hLocates : Locates em v) :
    Locates em.shiftRightOne (v / 2) := by
  rcases em with ⟨m, roundBit, stickyBit⟩
  rcases Nat.even_or_odd' m with ⟨k, rfl | rfl⟩
  all_goals
    cases roundBit <;> cases stickyBit <;>
      simp [Locates, ExtendedMantissa.shiftRightOne,
        Nat.mul_add_div] at hLocates ⊢
  all_goals first | linarith | constructor <;> linarith

theorem Locates.shiftRight
    {em : ExtendedMantissa}
    {v : ℚ}
    (hLocates : Locates em v)
    (n : Nat) :
    Locates (em >>> n) (v / 2 ^ n) := by
  induction n with
  | zero =>
      rw [pow_zero, div_one]
      exact hLocates
  | succ n ih =>
      rw [pow_succ, ← div_div]
      exact ih.shiftRightOne

/- The whole number nearest to a number, the even one of two. -/
structure Nearest (n : Nat) (v : ℚ) : Prop where
  low : n - 1 / 2 ≤ v
  high : v ≤ n + 1 / 2
  odd : n % 2 = 1 → n - 1 / 2 < v ∧ v < n + 1 / 2

theorem Nearest.le
    {m n : Nat}
    {v : ℚ}
    (hM : Nearest m v)
    (hN : Nearest n v) :
    m ≤ n := by
  by_contra hLess
  have hTwo : (m : ℚ) ≤ (n + 1 : Nat) := by
    push_cast
    linarith [hM.low, hN.high]
  obtain rfl : m = n + 1 := by
    have := Nat.cast_le.mp hTwo
    omega
  have hLow := hM.low
  have hHigh := hN.high
  push_cast at hLow
  -- One of two neighbours is odd, and reaches less far.
  rcases Nat.mod_two_eq_zero_or_one n with hEven | hOdd
  · have hStrict := (hM.odd (by omega)).1
    push_cast at hStrict
    linarith
  · linarith [(hN.odd hOdd).2]

/- A number has one nearest whole number. -/
theorem Nearest.unique
    {m n : Nat}
    {v : ℚ}
    (hM : Nearest m v)
    (hN : Nearest n v) :
    m = n :=
  Nat.le_antisymm (hM.le hN) (hN.le hM)

theorem nearest_of_lt
    {n : Nat}
    {v : ℚ}
    (hLow : n - 1 / 2 < v)
    (hHigh : v < n + 1 / 2) :
    Nearest n v :=
  ⟨hLow.le, hHigh.le, fun _ => ⟨hLow, hHigh⟩⟩

/- Further bits are rounded to the nearest whole number. -/
theorem Locates.nearest
    {em : ExtendedMantissa}
    {v : ℚ}
    (hLocates : Locates em v) :
    Nearest em.roundedMantissa v := by
  rcases em with ⟨m, _ | _, _ | _⟩
  · have hExact : v = m := hLocates
    change Nearest m v
    exact nearest_of_lt (by linarith) (by linarith)
  · have hBelow : m < v ∧ v < m + 1 / 2 := hLocates
    change Nearest m v
    exact nearest_of_lt (by linarith) hBelow.2
  · have hHalf : v = m + 1 / 2 := hLocates
    change Nearest (m + m % 2) v
    rcases Nat.mod_two_eq_zero_or_one m with hEven | hOdd
    · rw [hEven, Nat.add_zero]
      exact ⟨by linarith, hHalf.le, by omega⟩
    · rw [hOdd]
      refine ⟨?_, ?_, by omega⟩
      · push_cast
        linarith
      · push_cast
        linarith
  · have hAbove : m + 1 / 2 < v ∧ v < m + 1 := hLocates
    change Nearest (m + 1) v
    refine nearest_of_lt ?_ ?_
    · push_cast
      linarith
    · push_cast
      linarith

------------------------------------------------------------
-- Stored Numbers
------------------------------------------------------------

/-
  A mantissa with the exponent that numbers of its size are
  stored with: it has all its bits, unless the exponent is the
  least one.
-/
structure Stored (m : Nat) (e : Int) : Prop where
  positive : 0 < m
  mantissa : m < 2 ^ 53
  full : e = -1074 ∨ 2 ^ 52 ≤ m
  least : -1074 ≤ e
  greatest : e ≤ 971

theorem targetExponent_eq (m : Nat) (e : Int) :
    Format.binary64.targetExponent (totalExponent m e) =
      max (m.log2 + e - 52) (-1074) := by
  have hLeast : Format.binary64.minExponent = -1074 := by decide
  have hBits : Format.binary64.mantissaBits = 53 := by decide
  unfold Format.targetExponent totalExponent
  rw [hLeast, hBits]
  congr 1
  omega

/- A stored number has its exponent already. -/
theorem Stored.targetExponent
    {m : Nat}
    {e : Int}
    (hStored : Stored m e) :
    Format.binary64.targetExponent (totalExponent m e) = e := by
  rw [targetExponent_eq]
  have hNonzero := hStored.positive.ne'
  have hLog : m.log2 < 53 := (Nat.log2_lt hNonzero).mpr hStored.mantissa
  have hLeast := hStored.least
  rcases hStored.full with hExponent | hFull
  · omega
  · have := (Nat.le_log2 hNonzero).mpr hFull
    omega

/- Powers of two have less room below them. -/
def gap (m : Nat) (e : Int) : ℚ :=
  if m = 2 ^ 52 ∧ e ≠ -1074 then 1 / 4 else 1 / 2

/-
  The number is within reach of a stored one, half of its last
  place to either side, the ends counting for an even mantissa.
-/
structure Reaches (m : Nat) (e : Int) (v : ℚ) : Prop where
  low : (m - gap m e) * 2 ^ e ≤ v
  high : v ≤ (m + 1 / 2) * 2 ^ e
  odd :
    m % 2 = 1 → (m - gap m e) * 2 ^ e < v ∧ v < (m + 1 / 2) * 2 ^ e

------------------------------------------------------------
-- Rounding
------------------------------------------------------------

variable {m q : Nat} {e t : Int} {a : Accuracy} {w : ℚ}

/- Bits are dropped until the target exponent is reached. -/
theorem exists_shiftToTargetExponent
    (hLocates : Locates (.ofMantissaAndAccuracy q a) w)
    (hFine : t ≤ Format.binary64.targetExponent (totalExponent q t)) :
    ∃ em,
      shiftToTargetExponent Format.binary64 q t a =
          (em, Format.binary64.targetExponent (totalExponent q t)) ∧
        Locates em
          (w * 2 ^ t /
            2 ^ Format.binary64.targetExponent (totalExponent q t)) := by
  generalize hTarget :
    Format.binary64.targetExponent (totalExponent q t) = target
    at hFine
  obtain ⟨n, rfl⟩ := Int.le.dest hFine
  have hAmount : (t + n - t).toNat = n := by omega
  refine ⟨ExtendedMantissa.ofMantissaAndAccuracy q a >>> n, ?_, ?_⟩
  · simp only [shiftToTargetExponent, shiftToExponent, hTarget, hAmount]
  · have hScale : w * 2 ^ t / 2 ^ (t + n) = w / 2 ^ n := by
      rw [zpow_add₀ two_ne_zero, zpow_natCast]
      field_simp
    rw [hScale]
    exact hLocates.shiftRight n

theorem locates_exact (q : Nat) :
    Locates (.ofMantissaAndAccuracy q .exact) q := rfl

theorem mantissa_ofMantissaAndAccuracy (q : Nat) (a : Accuracy) :
    (ExtendedMantissa.ofMantissaAndAccuracy q a).mantissa = q := by
  rcases a with _ | (_ | _ | _) <;> rfl

/- The number has as many bits above the target as a mantissa. -/
theorem target_bounds
    (hLocates : Locates (.ofMantissaAndAccuracy q a) w)
    (hFine : t ≤ Format.binary64.targetExponent (totalExponent q t)) :
    w * 2 ^ t <
        2 ^ (Format.binary64.targetExponent (totalExponent q t) + 53) ∧
      (Format.binary64.targetExponent (totalExponent q t) = -1074 ∨
        2 ^ (Format.binary64.targetExponent (totalExponent q t) + 52) ≤
          w * 2 ^ t) := by
  have hBounds := hLocates.bounds
  rw [mantissa_ofMantissaAndAccuracy] at hBounds
  rw [targetExponent_eq] at hFine ⊢
  have hUnit : (0 : ℚ) < 2 ^ t := zpow_pos two_pos t
  constructor
  · have hNat : q + 1 ≤ 2 ^ (q.log2 + 1) := Nat.lt_log2_self
    have hAbove : w < 2 ^ (q.log2 + 1) := by
      have : ((q + 1 : Nat) : ℚ) ≤ (2 ^ (q.log2 + 1) : Nat) :=
        Nat.cast_le.mpr hNat
      push_cast at this
      linarith [hBounds.2]
    calc w * 2 ^ t
        < 2 ^ (q.log2 + 1) * 2 ^ t :=
          mul_lt_mul_of_pos_right hAbove hUnit
      _ = 2 ^ ((q.log2 + 1 : Nat) + t) := by
          rw [zpow_add₀ two_ne_zero, zpow_natCast]
      _ ≤ _ := zpow_le_zpow_right₀ one_le_two (by push_cast; omega)
  · by_cases hLeast : max ((q.log2 : Int) + t - 52) (-1074) = -1074
    · exact .inl hLeast
    · have hNonzero : q ≠ 0 := by
        rintro rfl
        rw [Nat.log2_zero] at hFine hLeast
        omega
      have hBelow : (2 : ℚ) ^ q.log2 ≤ w := by
        have : ((2 ^ q.log2 : Nat) : ℚ) ≤ q :=
          Nat.cast_le.mpr (Nat.log2_self_le hNonzero)
        push_cast at this
        linarith [hBounds.1]
      refine .inr ?_
      calc (2 : ℚ) ^ (max ((q.log2 : Int) + t - 52) (-1074) + 52)
          ≤ 2 ^ (q.log2 + t) :=
            zpow_le_zpow_right₀ one_le_two (by omega)
        _ = 2 ^ q.log2 * 2 ^ t := by
            rw [zpow_add₀ two_ne_zero, zpow_natCast]
        _ ≤ w * 2 ^ t := mul_le_mul_of_nonneg_right hBelow hUnit.le

theorem gap_pos (m : Nat) (e : Int) : 0 < gap m e := by
  unfold gap
  split <;> norm_num

theorem gap_le (m : Nat) (e : Int) : gap m e ≤ 1 / 2 := by
  unfold gap
  split <;> norm_num

/- A number of fewer bits has a mantissa below its power of two. -/
theorem Reaches.lt_of_lt_zpow
    {v : ℚ}
    {target : Int}
    (hReaches : Reaches m e v)
    (bits : Nat)
    (hHigh : v < 2 ^ target)
    (hBits : target ≤ e + bits) :
    m - gap m e < 2 ^ bits := by
  have hUnit : (0 : ℚ) < 2 ^ e := zpow_pos two_pos e
  have hScaled : (m - gap m e) * 2 ^ e < 2 ^ bits * 2 ^ e :=
    calc (m - gap m e) * 2 ^ e
        ≤ v := hReaches.low
      _ < 2 ^ target := hHigh
      _ ≤ 2 ^ (e + bits) := zpow_le_zpow_right₀ one_le_two hBits
      _ = 2 ^ bits * 2 ^ e := by
          rw [zpow_add₀ two_ne_zero, zpow_natCast, mul_comm]
  exact lt_of_mul_lt_mul_right hScaled hUnit.le

/- Only what is just below a power of two has fewer bits. -/
theorem Reaches.below
    {v : ℚ}
    {target : Int}
    (hReaches : Reaches m e v)
    (hStored : Stored m e)
    (hLeast : -1074 ≤ target)
    (hLess : target < e)
    (hHigh : v < 2 ^ (target + 53)) :
    m = 2 ^ 52 ∧ gap m e = 1 / 4 ∧ target + 1 = e := by
  have hFull : 2 ^ 52 ≤ m := hStored.full.resolve_left (by omega)
  have hPower : m = 2 ^ 52 := by
    by_contra hOther
    have hMore : ((2 ^ 52 + 1 : Nat) : ℚ) ≤ m :=
      Nat.cast_le.mpr (by omega)
    have hFewer := hReaches.lt_of_lt_zpow 52 hHigh (by omega)
    have hGap := gap_le m e
    push_cast at hMore
    linarith
  have hGap : gap m e = 1 / 4 := if_pos ⟨hPower, by omega⟩
  refine ⟨hPower, hGap, ?_⟩
  by_contra hOther
  have hFewer := hReaches.lt_of_lt_zpow 51 hHigh (by omega)
  rw [hGap, hPower] at hFewer
  norm_num at hFewer

/- Nothing within reach has more bits than a mantissa. -/
theorem Reaches.lt_zpow
    {v : ℚ}
    (hReaches : Reaches m e v)
    (hStored : Stored m e) :
    v < 2 ^ (e + 53) := by
  have hMantissa : ((m + 1 : Nat) : ℚ) ≤ (2 ^ 53 : Nat) :=
    Nat.cast_le.mpr hStored.mantissa
  push_cast at hMantissa
  calc v
      ≤ (m + 1 / 2) * 2 ^ e := hReaches.high
    _ < 2 ^ 53 * 2 ^ e :=
        mul_lt_mul_of_pos_right (by linarith) (zpow_pos two_pos e)
    _ = 2 ^ (e + 53) := by
        rw [zpow_add₀ two_ne_zero, mul_comm]
        norm_cast

/- In steps of its last place, it is nearest to the mantissa. -/
theorem Reaches.nearest_div
    {v : ℚ}
    (hReaches : Reaches m e v) :
    Nearest m (v / 2 ^ e) := by
  have hUnit : (0 : ℚ) < 2 ^ e := zpow_pos two_pos e
  have hGap := gap_le m e
  refine ⟨?_, ?_, fun hOdd => ⟨?_, ?_⟩⟩
  · rw [le_div_iff₀ hUnit]
    exact (mul_le_mul_of_nonneg_right (by linarith) hUnit.le).trans
      hReaches.low
  · rw [div_le_iff₀ hUnit]
    exact hReaches.high
  · rw [lt_div_iff₀ hUnit]
    exact (mul_le_mul_of_nonneg_right (by linarith) hUnit.le).trans_lt
      (hReaches.odd hOdd).1
  · rw [div_lt_iff₀ hUnit]
    exact (hReaches.odd hOdd).2

/-
  What reaches a stored number is nearest to its mantissa, or
  to the next power of two in steps that are half as wide.
-/
theorem Reaches.nearest
    {v : ℚ}
    {target : Int}
    (hReaches : Reaches m e v)
    (hStored : Stored m e)
    (hLeast : -1074 ≤ target)
    (hHigh : v < 2 ^ (target + 53))
    (hLow : target = -1074 ∨ 2 ^ (target + 52) ≤ v) :
    (target = e ∧ Nearest m (v / 2 ^ target)) ∨
      (target + 1 = e ∧ m = 2 ^ 52 ∧
        Nearest (2 ^ 53) (v / 2 ^ target)) := by
  have hAtMost : target ≤ e := by
    by_contra hMore
    have hFull := hLow.resolve_left (by have := hStored.least; omega)
    have hPower : (2 : ℚ) ^ (e + 53) ≤ 2 ^ (target + 52) :=
      zpow_le_zpow_right₀ one_le_two (by omega)
    linarith [hReaches.lt_zpow hStored]
  rcases hAtMost.eq_or_lt with rfl | hLess
  · exact .inl ⟨rfl, hReaches.nearest_div⟩
  · rcases hReaches.below hStored hLeast hLess hHigh with
      ⟨hPower, hQuarter, rfl⟩
    have hStep : (0 : ℚ) < 2 ^ target := zpow_pos two_pos target
    have hFrom := hReaches.low
    rw [hQuarter, hPower, zpow_add_one₀ two_ne_zero] at hFrom
    push_cast at hFrom
    rw [zpow_add₀ two_ne_zero] at hHigh
    norm_cast at hHigh
    push_cast at hHigh
    refine .inr ⟨rfl, hPower, ?_, ?_, by norm_num⟩
    · rw [le_div_iff₀ hStep]
      push_cast
      linarith
    · rw [div_le_iff₀ hStep]
      push_cast
      linarith

/- What is stored already loses no bits. -/
theorem shiftToTargetExponent_stored
    (hStored : Stored m e) :
    shiftToTargetExponent Format.binary64 m e .exact =
      (⟨m, false, false⟩, e) := by
  simp only [shiftToTargetExponent, hStored.targetExponent,
    shiftToExponent, sub_self, Int.toNat_zero]
  simp [ExtendedMantissa.ofMantissaAndAccuracy,
    HShiftRight.hShiftRight, Nat.repeat]

/- The next power of two loses its last bit. -/
theorem shiftToTargetExponent_carry
    (hLeast : -1074 ≤ e) :
    shiftToTargetExponent Format.binary64 (2 ^ 53) e .exact =
      (⟨2 ^ 52, false, false⟩, e + 1) := by
  have hTarget :
      Format.binary64.targetExponent (totalExponent (2 ^ 53) e) =
        e + 1 := by
    rw [targetExponent_eq, Nat.log2_two_pow]
    omega
  have hAmount : (e + 1 - e).toNat = 1 := by omega
  simp only [shiftToTargetExponent, hTarget, shiftToExponent, hAmount]
  rfl

/- A stored number is rounded to itself. -/
theorem roundWithAccuracy_of_reaches
    (hStored : Stored m e)
    (hReaches : Reaches m e (w * 2 ^ t))
    (hLocates : Locates (.ofMantissaAndAccuracy q a) w)
    (hFine : t ≤ Format.binary64.targetExponent (totalExponent q t))
    (sign : Sign) :
    roundWithAccuracy Format.binary64 sign q t a =
      .finite sign m e hStored.positive := by
  rcases exists_shiftToTargetExponent hLocates hFine with
    ⟨em, hShift, hEm⟩
  rcases target_bounds hLocates hFine with ⟨hHigh, hLow⟩
  have hLeast :
      -1074 ≤ Format.binary64.targetExponent (totalExponent q t) := by
    rw [targetExponent_eq]
    omega
  rw [roundWithAccuracy, hShift]
  dsimp only
  rcases hReaches.nearest hStored hLeast hHigh hLow with
    ⟨hTarget, hNearest⟩ | ⟨hTarget, hPower, hNearest⟩
  · rw [hEm.nearest.unique hNearest, hTarget,
      shiftToTargetExponent_stored hStored]
    exact dif_neg hStored.positive.ne'
  · rw [hEm.nearest.unique hNearest, shiftToTargetExponent_carry hLeast,
      hTarget]
    subst hPower
    rfl

end Decimal

end Spreadsheet
