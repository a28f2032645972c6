import Mathlib
import Spreadsheet.Decimal.Reader

/-
  The signs of numbers.

  A decimal without a sign is read as a number that is not
  negative, and a number is finite exactly if its opposite is.
  Both follow from how numbers are stored: the sign is a bit of
  its own, which multiplication and division compute apart from
  the rest.

  Main declarations:
    * `Decimal.Unsigned`
    * `Decimal.Literal.not_toFloat_lt_zero`
    * `Decimal.isFinite_of_isFinite_neg`
    * `Decimal.isFinite_neg`
    * `Decimal.isFinite_of_beq`
-/

namespace Spreadsheet

namespace Decimal

open Float.Model Float.Model.UnpackedFloat

------------------------------------------------------------
-- Stored Signs
------------------------------------------------------------

variable {spec : Float.Model.Format}

/- The sign is stored as it is. -/
theorem unpackSign_packComponents
    (sign : Sign)
    (exponent : BitVec spec.exponentBits)
    (mantissa : BitVec spec.mantissaBitsWithoutImplicit) :
    unpackSign (packComponents spec sign exponent mantissa) =
      sign.toBitVec := by
  ext i hi
  obtain rfl : i = 0 := by omega
  simp [unpackSign, packComponents, BitVec.getLsbD_eq_getElem,
    BitVec.getLsbD_append, BitVec.getElem_append]

/- The number has no minus sign; the sign of NaN is unknown. -/
def Unsigned : UnpackedFloat → Prop
  | .infinity .negative => False
  | .zero .negative => False
  | .finite .negative .. => False
  | _ => True

theorem unpackSign_pack
    {u : UnpackedFloat}
    (hUnsigned : Unsigned u) :
    unpackSign (UnpackedFloat.pack spec u) = 0#1 := by
  cases u with
  | notANumber => exact unpackSign_packComponents _ _ _
  | infinity sign | zero sign =>
      cases sign with
      | negative => exact hUnsigned.elim
      | positive => exact unpackSign_packComponents _ _ _
  | finite sign =>
      cases sign with
      | negative => exact hUnsigned.elim
      | positive =>
          simp only [UnpackedFloat.pack]
          split
          · exact unpackSign_packComponents _ _ _
          · split
            · exact unpackSign_packComponents _ _ _
            · exact unpackSign_packComponents _ _ _

theorem unsigned_unpack
    {b : BitVec spec.numBits}
    (hSign : unpackSign b = 0#1) :
    Unsigned (UnpackedFloat.unpack spec b) := by
  have hPositive : Sign.ofBitVec (unpackSign b) = .positive := by
    rw [hSign]
    rfl
  unfold UnpackedFloat.unpack
  dsimp only
  rw [hPositive]
  (repeat' split) <;> trivial

/- What is stored without a sign is read without one. -/
theorem unsigned_unpack_pack
    {u : UnpackedFloat}
    (hUnsigned : Unsigned u) :
    Unsigned (UnpackedFloat.unpack spec (UnpackedFloat.pack spec u)) :=
  unsigned_unpack (unpackSign_pack hUnsigned)

------------------------------------------------------------
-- Arithmetic
------------------------------------------------------------

/- Rounding keeps the sign. -/
theorem unsigned_roundWithAccuracy
    (mantissa : Nat)
    (exponent : Int)
    (accuracy : Accuracy) :
    Unsigned
      (roundWithAccuracy spec .positive mantissa exponent
        accuracy) := by
  unfold roundWithAccuracy
  dsimp only
  split <;> trivial

theorem unsigned_mul
    {u v : UnpackedFloat}
    (hU : Unsigned u)
    (hV : Unsigned v) :
    Unsigned (UnpackedFloat.mul spec u v) := by
  rcases u with (_ | _) | _ | (_ | _) | ⟨_ | _, m, e, hm⟩ <;>
    rcases v with (_ | _) | _ | (_ | _) | ⟨_ | _, n, f, hn⟩ <;>
    first
      | exact hU.elim
      | exact hV.elim
      | trivial
      | exact unsigned_roundWithAccuracy _ _ _

theorem unsigned_div
    {u v : UnpackedFloat}
    (hU : Unsigned u)
    (hV : Unsigned v) :
    Unsigned (UnpackedFloat.div spec u v) := by
  rcases u with (_ | _) | _ | (_ | _) | ⟨_ | _, m, e, hm⟩ <;>
    rcases v with (_ | _) | _ | (_ | _) | ⟨_ | _, n, f, hn⟩ <;>
    first
      | exact hU.elim
      | exact hV.elim
      | trivial
      | exact unsigned_roundWithAccuracy _ _ _

/- Whole numbers without a sign have none. -/
theorem unsigned_ofUInt64 (n : UInt64) :
    Unsigned (UnpackedFloat.ofUInt64 spec n) := by
  unfold UnpackedFloat.ofUInt64 UnpackedFloat.ofNat
    UnpackedFloat.ofInt UnpackedFloat.normalize
  split
  · rename_i hLess
    rw [Int.compare_eq_lt] at hLess
    omega
  · trivial
  · exact unsigned_roundWithAccuracy _ _ _

theorem unsigned_ofScientific (m : Nat) (e : Int) :
    Unsigned (UnpackedFloat.ofScientific spec m e) := by
  unfold UnpackedFloat.ofScientific
  (repeat' split)
  · trivial
  · trivial
  · trivial
  · exact unsigned_mul trivial trivial
  · exact unsigned_div trivial trivial

------------------------------------------------------------
-- Literals
------------------------------------------------------------

/- A decimal has no sign of its own. -/
theorem unsigned_floatOfScientific
    (m : Nat)
    (negative : Bool)
    (e : Nat) :
    Unsigned (Float.ofScientific m negative e).toModel.unpack := by
  have hPowers :
      ∀ i (hi : i < Float.exactlyRepresentablePowersOfTen.size),
        Unsigned
          Float.exactlyRepresentablePowersOfTen[i].toModel.unpack := by
    intro i hi
    refine unsigned_unpack ?_
    revert i
    decide
  unfold Float.ofScientific
  split
  · dsimp only
    have hMantissa : Unsigned (m.toUInt64.toFloat).toModel.unpack :=
      unsigned_unpack_pack (unsigned_ofUInt64 _)
    split
    · exact unsigned_unpack_pack (unsigned_div hMantissa (hPowers e _))
    · exact unsigned_unpack_pack (unsigned_mul hMantissa (hPowers e _))
  · exact unsigned_unpack_pack (unsigned_ofScientific _ _)

theorem unpack_zero : (0 : Float).toModel.unpack = .zero .positive := by
  rfl

theorem lt_iff_compare (x y : Float) :
    x < y ↔ x.toModel.unpack.compare y.toModel.unpack = some .lt := by
  rw [← beq_iff_eq]
  change x.lt y = true ↔ _
  rw [Float.lt, decide_eq_true_eq]
  exact Iff.rfl

/- A number without a sign is not below zero. -/
theorem not_lt_zero
    {x : Float}
    (hUnsigned : Unsigned x.toModel.unpack) :
    ¬ x < 0 := by
  intro hLess
  rw [lt_iff_compare, unpack_zero] at hLess
  generalize x.toModel.unpack = u at hUnsigned hLess
  rcases u with (_ | _) | _ | (_ | _) | ⟨_ | _, m, e, hm⟩ <;>
    first
      | exact hUnsigned.elim
      | cases hLess

theorem Literal.not_toFloat_lt_zero (l : Literal) :
    ¬ l.toFloat < 0 :=
  not_lt_zero (unsigned_floatOfScientific _ _ _)

------------------------------------------------------------
-- Opposites
------------------------------------------------------------

/- A number is finite if its opposite is. -/
theorem isFinite_of_isFinite_neg
    {x : Float}
    (hFinite : (-x).isFinite = true) :
    x.isFinite = true := by
  have hModel :
      (UnpackedFloat.unpack Float.Model.Format.binary64
        (UnpackedFloat.pack Float.Model.Format.binary64
          x.toModel.unpack.neg)).isFinite = true := hFinite
  change x.toModel.unpack.isFinite = true
  generalize x.toModel.unpack = u at hModel
  cases u with
  | zero | finite => rfl
  | infinity sign => cases sign <;> cases hModel
  | notANumber => cases hModel

/- All bits of the exponent are set where a number is not finite. -/
theorem isFinite_unpack (b : BitVec spec.numBits) :
    (UnpackedFloat.unpack spec b).isFinite =
      decide (unpackExponent b ≠ -1#_) := by
  unfold UnpackedFloat.unpack
  dsimp only
  (repeat' split) <;> simp_all [UnpackedFloat.isFinite]

/- The exponent that a number was stored with may be stored again. -/
theorem biasedExponent_lt
    {b : BitVec spec.numBits}
    {sign : Sign}
    {mantissa : Nat}
    {exponent : Int}
    {hPositive : 0 < mantissa}
    (hWide : 1 < spec.exponentBits)
    (hUnpack :
      UnpackedFloat.unpack spec b =
        .finite sign mantissa exponent hPositive) :
    (exponent + spec.exponentBias +
        spec.mantissaBitsWithoutImplicit).toNat + 1 <
      2 ^ spec.exponentBits := by
  have hFinite : unpackExponent b ≠ -1#_ := by
    have hBoth := isFinite_unpack b
    rw [hUnpack] at hBoth
    simpa [UnpackedFloat.isFinite] using hBoth
  have hExponent :
      (unpackExponent b).toNat + 1 < 2 ^ spec.exponentBits := by
    have hLess := (unpackExponent b).isLt
    have hOnes :
        (unpackExponent b).toNat ≠ 2 ^ spec.exponentBits - 1 := by
      intro hEq
      apply hFinite
      rw [BitVec.neg_one_eq_allOnes, ← BitVec.toNat_inj,
        BitVec.toNat_allOnes, hEq]
    omega
  have hPower : 2 ^ 2 ≤ 2 ^ spec.exponentBits :=
    Nat.pow_le_pow_right (by decide) hWide
  unfold UnpackedFloat.unpack at hUnpack
  dsimp only at hUnpack
  (repeat' split at hUnpack) <;> cases hUnpack
  · rename_i hZero _
    rw [hZero]
    simp
    omega
  · omega

/- The opposite is stored with the same exponent. -/
theorem isFinite_unpack_pack_neg
    {b : BitVec spec.numBits}
    (hWide : 1 < spec.exponentBits)
    (hFinite : (UnpackedFloat.unpack spec b).isFinite = true) :
    (UnpackedFloat.unpack spec
        (UnpackedFloat.pack spec
          (UnpackedFloat.unpack spec b).neg)).isFinite =
      true := by
  have hZero : BitVec.ofNat spec.exponentBits 0 ≠ -1#_ := by
    rw [BitVec.neg_one_eq_allOnes, Ne, ← BitVec.toNat_inj,
      BitVec.toNat_allOnes, BitVec.toNat_ofNat, Nat.zero_mod]
    have := Nat.one_lt_two_pow (Nat.pos_iff_ne_zero.mp spec.he)
    omega
  cases hUnpack : UnpackedFloat.unpack spec b with
  | infinity sign | notANumber =>
      rw [hUnpack] at hFinite
      cases hFinite
  | zero sign =>
      rw [isFinite_unpack, decide_eq_true_eq]
      change unpackExponent (packComponents spec _ _ _) ≠ _
      rw [unpackExponent_packComponents]
      exact hZero
  | finite sign m e hm =>
      have hLess := biasedExponent_lt hWide hUnpack
      rw [isFinite_unpack, decide_eq_true_eq]
      simp only [UnpackedFloat.neg, UnpackedFloat.pack]
      rw [if_neg (by omega)]
      split
      · rw [unpackExponent_packComponents, BitVec.neg_one_eq_allOnes,
          Ne, ← BitVec.toNat_inj, BitVec.toNat_allOnes,
          BitVec.toNat_ofNat, Nat.mod_eq_of_lt (by omega)]
        omega
      · rw [unpackExponent_packComponents]
        exact hZero

theorem isFinite_neg
    {x : Float}
    (hFinite : x.isFinite = true) :
    (-x).isFinite = true :=
  @isFinite_unpack_pack_neg Float.Model.Format.binary64
    x.toModel.toBits.toBitVec (by decide) hFinite

/- A number that is equal to a finite one is finite. -/
theorem isFinite_of_beq
    {x y : Float}
    (hSame : (x == y) = true)
    (hFinite : x.isFinite = true) :
    y.isFinite = true := by
  have hModel :
      UnpackedFloat.beq x.toModel.unpack y.toModel.unpack = true :=
    hSame
  change x.toModel.unpack.isFinite = true at hFinite
  change y.toModel.unpack.isFinite = true
  generalize x.toModel.unpack = u at hModel hFinite
  generalize y.toModel.unpack = v at hModel
  rcases u with _ | _ | _ | ⟨_ | _, m, e, hm⟩ <;>
    rcases v with (_ | _) | _ | _ | _ <;>
    simp_all [UnpackedFloat.isFinite, UnpackedFloat.beq,
      UnpackedFloat.compare]

end Decimal

end Spreadsheet
