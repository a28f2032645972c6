import Mathlib
import Spreadsheet.Proofs.Decimal.Rounding
import Spreadsheet.Proofs.Decimal.Signs

/-
  Decimals as numbers of 64 bits.

  A product or a quotient of numbers is rounded from its exact
  value, so it is a stored number if the value is within reach
  of that number. A decimal is such a product or quotient: of
  its digits and a power of ten.

  Main declarations:
    * `Decimal.mul_of_reaches`
    * `Decimal.div_of_reaches`
    * `Decimal.unpack_pack_of_stored`
    * `Decimal.stored_of_unpack`
    * `Decimal.ofScientific_of_reaches`
-/

namespace Spreadsheet

namespace Decimal

open Float.Model Float.Model.UnpackedFloat

variable {m p q : Nat} {e f g : Int}

------------------------------------------------------------
-- Products And Quotients
------------------------------------------------------------

theorem mul_of_reaches
    {hP : 0 < p}
    {hQ : 0 < q}
    (hStored : Stored m e)
    (hReaches : Reaches m e (p * 2 ^ f * (q * 2 ^ g)))
    (hFine : 2 ^ 52 ≤ p * q) :
    mul Format.binary64 (.finite .positive p f hP)
        (.finite .positive q g hQ) =
      .finite .positive m e hStored.positive := by
  have hValue :
      (p * 2 ^ f * (q * 2 ^ g) : ℚ) = (p * q : Nat) * 2 ^ (f + g) := by
    rw [zpow_add₀ two_ne_zero]
    push_cast
    ring
  rw [hValue] at hReaches
  refine roundWithAccuracy_of_reaches hStored hReaches
    (locates_exact _) ?_ _
  have hLog := (Nat.le_log2 (Nat.mul_pos hP hQ).ne').mpr hFine
  rw [targetExponent_eq]
  omega

/- A remainder locates a number past a mantissa. -/
theorem locates_fraction
    {n r : Nat}
    (hLess : r < q) :
    Locates (.ofMantissaAndAccuracy n (accuracyOfFraction r q))
      (n + r / q) := by
  have hPos : (0 : ℚ) < q := Nat.cast_pos.mpr (by omega)
  have hOne : (r / q : ℚ) < 1 := by
    rw [div_lt_one hPos]
    exact Nat.cast_lt.mpr hLess
  unfold accuracyOfFraction
  split
  · rename_i hZero
    rw [hZero, Nat.cast_zero, zero_div, add_zero]
    exact locates_exact n
  · rename_i hRest
    have hMore : (0 : ℚ) < r / q :=
      div_pos (Nat.cast_pos.mpr (Nat.pos_of_ne_zero hRest)) hPos
    cases hCompare : compare (2 * r) q with
    | lt =>
        have hTwice : (2 * r : ℚ) < q := by
          exact_mod_cast Nat.compare_eq_lt.mp hCompare
        have hHalf : (r / q : ℚ) < 1 / 2 := by
          rw [div_lt_iff₀ hPos]
          linarith
        change (n : ℚ) < _ ∧ _ < (n + 1 / 2 : ℚ)
        exact ⟨by linarith, by linarith⟩
    | eq =>
        have hTwice : (2 * r : ℚ) = q := by
          exact_mod_cast Nat.compare_eq_eq.mp hCompare
        have hHalf : (r / q : ℚ) = 1 / 2 := by
          rw [div_eq_iff hPos.ne']
          linarith
        rw [hHalf]
        exact rfl
    | gt =>
        have hTwice : (q : ℚ) < 2 * r := by
          exact_mod_cast Nat.compare_eq_gt.mp hCompare
        have hHalf : (1 / 2 : ℚ) < r / q := by
          rw [lt_div_iff₀ hPos]
          linarith
        change (n + 1 / 2 : ℚ) < _ ∧ _ < (n + 1 : ℚ)
        exact ⟨by linarith, by linarith⟩

theorem locates_div
    (hQ : 0 < q) :
    Locates
      (.ofMantissaAndAccuracy (p / q) (accuracyOfFraction (p % q) q))
      (p / q) := by
  have hPos : (0 : ℚ) < q := Nat.cast_pos.mpr hQ
  have hSum : (p : ℚ) = q * (p / q : Nat) + (p % q : Nat) := by
    exact_mod_cast (Nat.div_add_mod p q).symm
  have hParts :
      (p / q : ℚ) = (p / q : Nat) + (p % q : Nat) / q := by
    rw [hSum, add_div, mul_div_cancel_left₀ _ hPos.ne']
  rw [hParts]
  exact locates_fraction (Nat.mod_lt p hQ)

/- Enough bits are added to a dividend for a whole mantissa. -/
theorem le_log2_div
    {n : Nat}
    (hP : 0 < p)
    (hQ : 0 < q)
    (hBits : q.log2 + 53 ≤ p.log2 + n) :
    52 ≤ (p * 2 ^ n / q).log2 := by
  have hFull : 2 ^ 52 ≤ p * 2 ^ n / q := by
    rw [Nat.le_div_iff_mul_le hQ]
    calc 2 ^ 52 * q
        ≤ 2 ^ 52 * 2 ^ (q.log2 + 1) :=
          Nat.mul_le_mul_left _ Nat.lt_log2_self.le
      _ = 2 ^ (q.log2 + 53) := by rw [← pow_add]; congr 1; omega
      _ ≤ 2 ^ (p.log2 + n) := Nat.pow_le_pow_right two_pos hBits
      _ = 2 ^ p.log2 * 2 ^ n := pow_add _ _ _
      _ ≤ p * 2 ^ n :=
          Nat.mul_le_mul_right _ (Nat.log2_self_le hP.ne')
  exact (Nat.le_log2 (Nat.ne_of_gt (by omega))).mpr hFull

theorem div_of_reaches
    {hP : 0 < p}
    {hQ : 0 < q}
    (hStored : Stored m e)
    (hReaches : Reaches m e (p * 2 ^ f / (q * 2 ^ g))) :
    div Format.binary64 (.finite .positive p f hP)
        (.finite .positive q g hQ) =
      .finite .positive m e hStored.positive := by
  have hTarget :
      Format.binary64.targetExponent
          (totalExponent p f - totalExponent q g) =
        max (p.log2 + f - q.log2 - g - 53) (-1074) := by
    have hLeast : Format.binary64.minExponent = -1074 := by decide
    have hBits : Format.binary64.mantissaBits = 53 := by decide
    unfold Format.targetExponent totalExponent
    rw [hLeast, hBits]
    congr 1
    omega
  simp only [UnpackedFloat.div, divCore, hTarget, Nat.shiftLeft_eq]
  generalize hStep :
    min (f - g) (max (p.log2 + f - q.log2 - g - 53) (-1074)) = t
  obtain ⟨n, hn⟩ : ∃ n : Nat, f - g - t = n :=
    ⟨(f - g - t).toNat, by omega⟩
  rw [hn, Int.toNat_natCast]
  have hValue :
      (p * 2 ^ f / (q * 2 ^ g) : ℚ) =
        (p * 2 ^ n : Nat) / q * 2 ^ t := by
    have hSplit : f = g + t + n := by omega
    rw [hSplit, zpow_add₀ two_ne_zero, zpow_add₀ two_ne_zero,
      zpow_natCast]
    push_cast
    field_simp
  rw [hValue] at hReaches
  refine roundWithAccuracy_of_reaches hStored hReaches (locates_div hQ)
    ?_ _
  rw [targetExponent_eq]
  by_cases hLeast : t ≤ -1074
  · omega
  · have hBits : q.log2 + 53 ≤ p.log2 + n := by omega
    have := le_log2_div hP hQ hBits
    omega

------------------------------------------------------------
-- Storing
------------------------------------------------------------

section Storing

variable
    {b : BitVec Format.binary64.numBits}
    {sign : Sign}
    {hM : 0 < m}

theorem toNat_withImplicitBit (v : BitVec 52) :
    (1#1 ++ v).toNat = 2 ^ 52 + v.toNat := by
  rw [BitVec.toNat_append, ← Nat.shiftLeft_add_eq_or_of_lt v.isLt]
  rfl

/-
  The fields of a stored number: one of the least exponent has
  the zero exponent stored, and others do without their first
  bit.
-/
theorem fields_of_unpack
    (hUnpack :
      UnpackedFloat.unpack Format.binary64 b = .finite sign m e hM) :
    Sign.ofBitVec (unpackSign b) = sign ∧
      (((unpackExponent b).toNat = 0 ∧ m = (unpackMantissa b).toNat ∧
          e = -1074) ∨
        (0 < (unpackExponent b).toNat ∧
          (unpackExponent b).toNat < 2047 ∧
          m = 2 ^ 52 + (unpackMantissa b).toNat ∧
            e = (unpackExponent b).toNat - 1075)) := by
  have hBias :
      (Format.binary64.exponentBias +
        Format.binary64.mantissaBitsWithoutImplicit : Int) = 1075 := by
    decide
  unfold UnpackedFloat.unpack at hUnpack
  dsimp only at hUnpack
  rw [hBias] at hUnpack
  split at hUnpack
  · split at hUnpack <;> cases hUnpack
  · rename_i hNotAll
    split at hUnpack
    · rename_i hZero
      split at hUnpack
      · cases hUnpack
      · cases hUnpack
        refine ⟨rfl, .inl ⟨?_, rfl, ?_⟩⟩
        · rw [hZero]
          rfl
        · rw [hZero]
          rfl
    · rename_i hNonzero
      cases hUnpack
      refine ⟨rfl, .inr ⟨?_, ?_, toNat_withImplicitBit _, rfl⟩⟩
      · refine Nat.pos_of_ne_zero fun hEq => hNonzero ?_
        exact BitVec.eq_of_toNat_eq hEq
      · have hLess := (unpackExponent b).isLt
        have hOther : (unpackExponent b).toNat ≠ 2047 := fun hEq =>
          hNotAll (BitVec.eq_of_toNat_eq hEq)
        simp only at hLess
        omega

theorem stored_of_unpack
    (hUnpack :
      UnpackedFloat.unpack Format.binary64 b = .finite sign m e hM) :
    Stored m e := by
  have hFraction : (unpackMantissa b).toNat < 2 ^ 52 :=
    (unpackMantissa b).isLt
  rcases (fields_of_unpack hUnpack).2 with
    ⟨-, hMantissa, hExponent⟩ | ⟨hPos, hMost, hMantissa, hExponent⟩
  · exact ⟨hM, by omega, .inl hExponent, by omega, by omega⟩
  · exact ⟨hM, by omega, .inr (by omega), by omega, by omega⟩

theorem unpack_components
    (sign : Sign)
    {k : Nat}
    (hPos : 0 < k)
    (hLess : k < 2047)
    (v : BitVec 52)
    (hM : 0 < 2 ^ 52 + v.toNat) :
    UnpackedFloat.unpack Format.binary64
        (packComponents Format.binary64 sign (BitVec.ofNat 11 k) v) =
      .finite sign (2 ^ 52 + v.toNat) (k - 1075) hM := by
  have hField : (BitVec.ofNat 11 k).toNat = k := by
    rw [BitVec.toNat_ofNat]
    omega
  have hBias :
      (Format.binary64.exponentBias +
        Format.binary64.mantissaBitsWithoutImplicit : Int) = 1075 := by
    decide
  have hNotAll : BitVec.ofNat 11 k ≠ -1#11 := by
    intro hEq
    rw [hEq] at hField
    simp at hField
    omega
  have hNonzero : BitVec.ofNat 11 k ≠ 0#11 := by
    intro hEq
    rw [hEq] at hField
    simp at hField
    omega
  unfold UnpackedFloat.unpack
  simp only [unpackMantissa_packComponents,
    unpackExponent_packComponents, unpackSign_packComponents,
    Sign.ofBitVec_toBitVec]
  rw [if_neg hNotAll, if_neg hNonzero]
  rw [finite.injEq]
  refine ⟨rfl, toNat_withImplicitBit v, ?_⟩
  rw [hField, hBias]

theorem unpack_components_least
    (sign : Sign)
    {v : BitVec 52}
    (hM : 0 < v.toNat) :
    UnpackedFloat.unpack Format.binary64
        (packComponents Format.binary64 sign 0#11 v) =
      .finite sign v.toNat (-1074) hM := by
  have hNotAll : 0#11 ≠ -1#11 := by decide
  have hNonzero : v ≠ 0#52 := by
    rintro rfl
    exact hM.ne rfl
  unfold UnpackedFloat.unpack
  simp only [unpackMantissa_packComponents,
    unpackExponent_packComponents, unpackSign_packComponents,
    Sign.ofBitVec_toBitVec]
  rw [if_neg hNotAll, if_pos trivial, dif_neg hNonzero, finite.injEq]
  exact ⟨rfl, rfl, by decide⟩

/- A stored number is found again. -/
theorem unpack_pack_of_stored
    (hStored : Stored m e)
    (sign : Sign) :
    UnpackedFloat.unpack Format.binary64
        (UnpackedFloat.pack Format.binary64
          (.finite sign m e hStored.positive)) =
      .finite sign m e hStored.positive := by
  have hNonzero := hStored.positive.ne'
  have hMantissa := hStored.mantissa
  have hLeast := hStored.least
  have hGreatest := hStored.greatest
  have hBias : Format.binary64.exponentBias = 1023 := by decide
  have hBits : Format.binary64.mantissaBits = 53 := by decide
  have hStays :
      ¬ 2 ^ Format.binary64.exponentBits ≤
        (e + (1023 : Nat) + (52 : Nat)).toNat + 1 := by
    simp only
    omega
  have hFraction : (BitVec.ofNat 52 m).toNat = m % 2 ^ 52 :=
    BitVec.toNat_ofNat m 52
  simp only [UnpackedFloat.pack, hBias, hBits]
  rw [if_neg hStays]
  by_cases hNormal : m.log2 + 1 = 53
  · have hFull := ((Nat.log2_eq_iff hNonzero).mp
      (show m.log2 = 52 by omega)).1
    rw [if_pos hNormal,
      unpack_components sign (by omega) (by omega) _ (by omega),
      finite.injEq]
    exact ⟨rfl, by omega, by omega⟩
  · have hFew : m < 2 ^ 52 := by
      rw [← Nat.log2_lt hNonzero]
      have := (Nat.log2_lt hNonzero).mpr hMantissa
      omega
    rw [if_neg hNormal, unpack_components_least sign (by omega),
      finite.injEq]
    refine ⟨rfl, by omega, ?_⟩
    rcases hStored.full with hExponent | hFull
    · exact hExponent.symm
    · omega

end Storing

------------------------------------------------------------
-- Digits And Powers Of Ten
------------------------------------------------------------

/- A number is within its own reach. -/
theorem reaches_self (m : Nat) (e : Int) :
    Reaches m e (m * 2 ^ e) := by
  have hUnit : (0 : ℚ) < 2 ^ e := zpow_pos two_pos e
  have hGap := gap_pos m e
  have hLow : (m - gap m e) * 2 ^ e < m * 2 ^ e :=
    mul_lt_mul_of_pos_right (by linarith) hUnit
  have hHigh : (m : ℚ) * 2 ^ e < (m + 1 / 2) * 2 ^ e :=
    mul_lt_mul_of_pos_right (by linarith) hUnit
  exact ⟨hLow.le, hHigh.le, fun _ => ⟨hLow, hHigh⟩⟩

/- Whole numbers of few bits are stored as they are. -/
theorem ofNat_eq
    {n : Nat}
    (hStored : Stored (n * 2 ^ (52 - n.log2)) (n.log2 - 52))
    (hPos : 0 < n)
    (hFew : n.log2 ≤ 52) :
    UnpackedFloat.ofNat Format.binary64 n =
      .finite .positive (n * 2 ^ (52 - n.log2)) (n.log2 - 52)
        hStored.positive := by
  have hCompare : compare (n : Int) 0 = .gt :=
    Int.compare_eq_gt.mpr (by omega)
  have hTarget :
      Format.binary64.targetExponent (totalExponent n 0) =
        n.log2 - 52 := by
    rw [targetExponent_eq]
    omega
  have hAmount : (0 - ((n.log2 : Int) - 52)).toNat = 52 - n.log2 := by
    omega
  have hExponent :
      (0 : Int) - (52 - n.log2 : Nat) = n.log2 - 52 := by
    omega
  simp only [UnpackedFloat.ofNat, UnpackedFloat.ofInt,
    UnpackedFloat.normalize, hCompare, Int.toNat_natCast,
    UnpackedFloat.round, hTarget, decreaseExponent, hAmount, hExponent,
    Nat.shiftLeft_eq]
  exact roundWithAccuracy_of_reaches hStored (reaches_self _ _)
    (locates_exact _) hStored.targetExponent.ge _

theorem exists_unpack_toFloat
    {n : Nat}
    (hPos : 0 < n)
    (hFew : n < 2 ^ 53) :
    ∃ m e, ∃ hM : 0 < m,
      n.toUInt64.toFloat.toModel.unpack = .finite .positive m e hM ∧
        2 ^ 52 ≤ m ∧ (m * 2 ^ e : ℚ) = n := by
  have hLog : n.log2 < 53 := (Nat.log2_lt hPos.ne').mpr hFew
  have hFull : 2 ^ 52 ≤ n * 2 ^ (52 - n.log2) := by
    calc 2 ^ 52
        = 2 ^ n.log2 * 2 ^ (52 - n.log2) := by
          rw [← pow_add, Nat.add_sub_cancel' (by omega)]
      _ ≤ n * 2 ^ (52 - n.log2) :=
          Nat.mul_le_mul_right _ (Nat.log2_self_le hPos.ne')
  have hMantissa : n * 2 ^ (52 - n.log2) < 2 ^ 53 := by
    calc n * 2 ^ (52 - n.log2)
        < 2 ^ (n.log2 + 1) * 2 ^ (52 - n.log2) :=
          Nat.mul_lt_mul_of_pos_right Nat.lt_log2_self (by positivity)
      _ = 2 ^ 53 := by
          rw [← pow_add]
          congr 1
          omega
  have hStored : Stored (n * 2 ^ (52 - n.log2)) (n.log2 - 52) :=
    ⟨by omega, hMantissa, .inr hFull, by omega, by omega⟩
  have hWord : n.toUInt64.toNat = n := by
    rw [Nat.toUInt64, UInt64.toNat_ofNat']
    omega
  refine ⟨n * 2 ^ (52 - n.log2), n.log2 - 52, hStored.positive, ?_,
    hFull, ?_⟩
  · change UnpackedFloat.unpack _ (UnpackedFloat.pack _
      (UnpackedFloat.ofNat _ n.toUInt64.toNat)) = _
    rw [hWord, ofNat_eq hStored hPos (by omega),
      unpack_pack_of_stored hStored]
  · have hExponent :
        (n.log2 - 52 : Int) = -(52 - n.log2 : Nat) := by
      omega
    rw [hExponent, zpow_neg, zpow_natCast]
    push_cast
    field_simp

/- The number is the power of ten, with a full mantissa. -/
def isPower (k : Nat) : UnpackedFloat → Bool
  | .finite .positive m e _ =>
      2 ^ 52 ≤ m && m * 2 ^ e.toNat == 10 ^ k * 2 ^ (-e).toNat
  | _ => false

theorem exists_of_isPower
    {u : UnpackedFloat}
    {k : Nat}
    (hPower : isPower k u = true) :
    ∃ m e, ∃ hM : 0 < m,
      u = .finite .positive m e hM ∧ 2 ^ 52 ≤ m ∧
        (m * 2 ^ e : ℚ) = 10 ^ k := by
  unfold isPower at hPower
  split at hPower
  · rename_i m e hM
    rw [Bool.and_eq_true, decide_eq_true_eq, beq_iff_eq] at hPower
    refine ⟨m, e, hM, rfl, hPower.1, ?_⟩
    have hValue : (m * 2 ^ e.toNat : ℚ) = 10 ^ k * 2 ^ (-e).toNat := by
      exact_mod_cast hPower.2
    have hExponent : e = e.toNat - (-e).toNat := by omega
    rw [hExponent, zpow_sub₀ two_ne_zero, zpow_natCast, zpow_natCast,
      ← mul_div_assoc, hValue]
    field_simp
  · cases hPower

/- The least powers of ten are stored as they are. -/
theorem isPower_exactlyRepresentablePowersOfTen :
    ∀ k (hk : k < Float.exactlyRepresentablePowersOfTen.size),
      isPower k
        Float.exactlyRepresentablePowersOfTen[k].toModel.unpack =
        true := by
  decide

theorem unpacked_ofScientific_of_reaches
    {n : Nat}
    {k : Int}
    (hPos : 0 < n)
    (hMost : k ≤ 2048)
    (hLeast : -2048 - n.log2 ≤ k)
    (hStored : Stored m e)
    (hReaches : Reaches m e (n * 10 ^ k)) :
    UnpackedFloat.ofScientific Format.binary64 n k =
      .finite .positive m e hStored.positive := by
  have hBits : Format.binary64.mantissaBits = 53 := by decide
  unfold UnpackedFloat.ofScientific
  rw [dif_neg hPos.ne', if_neg (by simp only; omega),
    if_neg (by simp only; omega)]
  split
  · rename_i hNonneg
    have hValue :
        (n * 10 ^ k : ℚ) =
          (n <<< 53 : Nat) * 2 ^ (-(53 : Nat) : Int) *
            ((10 ^ k.toNat : Nat) * 2 ^ (0 : Int)) := by
      have hPower : (10 : ℚ) ^ k = 10 ^ k.toNat := by
        rw [← zpow_natCast, Int.toNat_of_nonneg hNonneg]
      rw [hPower, Nat.shiftLeft_eq, zpow_neg, zpow_natCast]
      push_cast
      field_simp
      ring
    have hFine : 2 ^ 52 ≤ n <<< 53 * 10 ^ k.toNat := by
      rw [Nat.shiftLeft_eq]
      calc 2 ^ 52
          ≤ n * 2 ^ 53 := by omega
        _ ≤ n * 2 ^ 53 * 10 ^ k.toNat :=
            Nat.le_mul_of_pos_right _ (by positivity)
    rw [hValue] at hReaches
    simp only [hBits]
    exact mul_of_reaches hStored hReaches hFine
  · rename_i hNegative
    have hValue :
        (n * 10 ^ k : ℚ) =
          n * 2 ^ (0 : Int) /
            ((10 ^ (-k).toNat : Nat) * 2 ^ (0 : Int)) := by
      have hPower : (10 : ℚ) ^ k = (10 ^ (-k).toNat)⁻¹ := by
        rw [← zpow_natCast, Int.toNat_of_nonneg (by omega), zpow_neg,
          inv_inv]
      rw [hPower, zpow_zero, mul_one, mul_one, div_eq_mul_inv]
      push_cast
      rfl
    rw [hValue] at hReaches
    exact div_of_reaches hStored hReaches

/- Small powers of ten multiply and divide as they are stored. -/
theorem toFloat_mul_power
    {n k : Nat}
    (hPos : 0 < n)
    (hFew : n < 2 ^ 53)
    (hk : k < Float.exactlyRepresentablePowersOfTen.size)
    (hStored : Stored m e)
    (hReaches : Reaches m e (n * 10 ^ k)) :
    n.toUInt64.toFloat * Float.exactlyRepresentablePowersOfTen[k] =
      .ofModel (.pack (.finite .positive m e hStored.positive)) := by
  rcases exists_unpack_toFloat hPos hFew with
    ⟨p, f, hP, hUnpackN, hFull, hValueN⟩
  rcases exists_of_isPower
      (isPower_exactlyRepresentablePowersOfTen k hk) with
    ⟨q, g, hQ, hUnpackK, -, hValueK⟩
  rw [← hValueN, ← hValueK] at hReaches
  have hFine : 2 ^ 52 ≤ p * q :=
    hFull.trans (Nat.le_mul_of_pos_right p hQ)
  change Float.ofModel (.pack (UnpackedFloat.mul _
    (Float.toModel _).unpack (Float.toModel _).unpack)) = _
  rw [hUnpackN, hUnpackK, mul_of_reaches hStored hReaches hFine]

theorem toFloat_div_power
    {n k : Nat}
    (hPos : 0 < n)
    (hFew : n < 2 ^ 53)
    (hk : k < Float.exactlyRepresentablePowersOfTen.size)
    (hStored : Stored m e)
    (hReaches : Reaches m e (n / 10 ^ k)) :
    n.toUInt64.toFloat / Float.exactlyRepresentablePowersOfTen[k] =
      .ofModel (.pack (.finite .positive m e hStored.positive)) := by
  rcases exists_unpack_toFloat hPos hFew with
    ⟨p, f, hP, hUnpackN, -, hValueN⟩
  rcases exists_of_isPower
      (isPower_exactlyRepresentablePowersOfTen k hk) with
    ⟨q, g, hQ, hUnpackK, -, hValueK⟩
  rw [← hValueN, ← hValueK] at hReaches
  change Float.ofModel (.pack (UnpackedFloat.div _
    (Float.toModel _).unpack (Float.toModel _).unpack)) = _
  rw [hUnpackN, hUnpackK, div_of_reaches hStored hReaches]

theorem zpow_of_nonneg
    {k : Int}
    (hNonneg : 0 ≤ k) :
    (10 : ℚ) ^ k = 10 ^ k.natAbs := by
  rw [← zpow_natCast, Int.natAbs_of_nonneg hNonneg]

theorem zpow_of_neg
    {k : Int}
    (hNegative : k < 0) :
    (10 : ℚ) ^ k = (10 ^ k.natAbs)⁻¹ := by
  rw [← zpow_natCast, ← zpow_neg,
    Int.ofNat_natAbs_of_nonpos hNegative.le, neg_neg]

/- A decimal within reach of a stored number is read as it. -/
theorem ofScientific_of_reaches
    {n : Nat}
    {k : Int}
    (hPos : 0 < n)
    (hMost : k ≤ 2048)
    (hLeast : -2048 - n.log2 ≤ k)
    (hStored : Stored m e)
    (hReaches : Reaches m e (n * 10 ^ k)) :
    Float.ofScientific n (k < 0) k.natAbs =
      .ofModel (.pack (.finite .positive m e hStored.positive)) := by
  unfold Float.ofScientific
  split
  · rename_i hFast
    dsimp only
    by_cases hNegative : k < 0
    · rw [if_pos (decide_eq_true hNegative)]
      rw [zpow_of_neg hNegative, ← div_eq_mul_inv] at hReaches
      exact toFloat_div_power hPos hFast.1 _ hStored hReaches
    · rw [if_neg (by simpa using hNegative)]
      rw [zpow_of_nonneg (by omega)] at hReaches
      exact toFloat_mul_power hPos hFast.1 _ hStored hReaches
  · have hSigned :
        (if decide (k < 0) = true then Int.negOfNat k.natAbs
          else Int.ofNat k.natAbs) = k := by
      by_cases hNegative : k < 0
      · rw [if_pos (decide_eq_true hNegative), Int.negOfNat_eq]
        exact (by omega : -(k.natAbs : Int) = k)
      · rw [if_neg (by simpa using hNegative)]
        exact Int.natAbs_of_nonneg (by omega)
    dsimp only
    rw [hSigned]
    exact congrArg (fun u => Float.ofModel (.pack u))
      (unpacked_ofScientific_of_reaches hPos hMost hLeast hStored
        hReaches)

end Decimal

end Spreadsheet
