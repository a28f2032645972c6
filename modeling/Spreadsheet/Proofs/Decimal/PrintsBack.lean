import Mathlib
import Spreadsheet.Proofs.Decimal.Spelling
import Spreadsheet.Proofs.Expr.Literals

/-
  Every number prints back.

  The shortest decimal of a finite number is within its reach,
  so reading the spelling gives the number again. A sign is
  kept apart from both.

  Main declarations:
    * `Decimal.exists_ofFloat`
    * `Decimal.printsBack`
-/

namespace Spreadsheet

namespace Decimal

open Float.Model Float.Model.UnpackedFloat

variable {m : Nat} {e : Int} {hM : 0 < m} {sign : Sign} {x : Float}

------------------------------------------------------------
-- Fields
------------------------------------------------------------

theorem toNat_unpackMantissa (b : BitVec 64) :
    (@unpackMantissa Format.binary64 b).toNat = b.toNat % 2 ^ 52 := by
  rw [unpackMantissa_def, BitVec.extractLsb'_toNat, Nat.shiftRight_zero]

theorem toNat_unpackExponent (b : BitVec 64) :
    (@unpackExponent Format.binary64 b).toNat =
      b.toNat >>> 52 % 2 ^ 11 := by
  rw [unpackExponent_def, BitVec.extractLsb'_toNat]

theorem toNat_unpackSign (b : BitVec 64) :
    (@unpackSign Format.binary64 b).toNat = b.toNat >>> 63 % 2 ^ 1 := by
  rw [unpackSign_def, BitVec.extractLsb'_toNat]
  rfl

/- The sign that a number is spelled with. -/
def signChars : Sign → List Char
  | .negative => ['-']
  | .positive => []

/- The sign is spelled as it is stored. -/
theorem toList_sign
    {b : BitVec 64}
    (hSign : Sign.ofBitVec (@unpackSign Format.binary64 b) = sign) :
    (if b.toNat >>> 63 == 1 then "-" else "").toList =
      signChars sign := by
  have hBit := toNat_unpackSign b
  have hLess : b.toNat >>> 63 < 2 := by
    rw [Nat.shiftRight_eq_div_pow]
    have := b.isLt
    omega
  rcases BitVec.eq_zero_or_eq_one (@unpackSign Format.binary64 b) with
    hZero | hOne
  · rw [hZero] at hBit hSign
    have hNot : b.toNat >>> 63 = 0 := by
      change 0 = _ at hBit
      omega
    rw [← hSign, hNot]
    rfl
  · rw [hOne] at hBit hSign
    have hSet : b.toNat >>> 63 = 1 := by
      change 1 = _ at hBit
      omega
    rw [← hSign, hSet]
    rfl

/- A number is spelled with its sign and its shortest decimal. -/
theorem exists_ofFloat
    (hUnpack : x.toModel.unpack = .finite sign m e hM) :
    ∃ narrow,
      (narrow = true ↔ m = 2 ^ 52 ∧ e ≠ -1074) ∧
        (ofFloat x).toList =
          signChars sign ++ (shortest m e narrow 17).positional := by
  have hFields := fields_of_unpack hUnpack
  rw [toNat_unpackMantissa, toNat_unpackExponent] at hFields
  have hSign := toList_sign hFields.1
  have hBits : x.toModel.toBits.toBitVec.toNat = x.toBits.toNat := rfl
  rw [hBits] at hFields hSign
  have hFraction : x.toBits.toNat % 2 ^ 52 < 2 ^ 52 :=
    Nat.mod_lt _ (by decide)
  generalize hF : x.toBits.toNat % 2 ^ 52 = fraction at *
  generalize hB : x.toBits.toNat >>> 52 % 2 ^ 11 = biased at *
  unfold ofFloat Format.text
  simp only [Format.double, Nat.one_shiftLeft, hF, hB]
  rcases hFields.2 with
    ⟨hExponent, hMantissa, hLeast⟩ |
      ⟨hSome, hNotAll, hMantissa, hExponent⟩
  · refine ⟨false, ⟨nofun, fun h => (h.2 hLeast).elim⟩, ?_⟩
    rw [if_neg (by omega), if_neg (by omega), if_pos hExponent,
      String.toList_append, String.toList_ofList, hMantissa, hLeast]
    exact congrArg (· ++ _) hSign
  · refine ⟨fraction == 0 && biased != 1, ?_, ?_⟩
    · simp only [Bool.and_eq_true, beq_iff_eq, bne_iff_ne]
      omega
    · rw [if_neg (by omega), if_neg (by omega), if_neg (by omega),
        String.toList_append, String.toList_ofList, hMantissa, hExponent]
      exact congrArg (· ++ _) hSign

------------------------------------------------------------
-- Signs
------------------------------------------------------------

theorem eq_pack_of_unpack
    (hUnpack : x.toModel.unpack = .finite sign m e hM) :
    x = .ofModel (.pack (.finite sign m e hM)) := by
  have hBits :
      (Float.ofModel (.pack x.toModel.unpack)).toBits.toBitVec =
        x.toBits.toBitVec :=
    pack_unpack_of_valid x.toModel.valid
  rw [← hUnpack]
  exact (Float.toBits_inj.mp (UInt64.toBitVec_inj.mp hBits)).symm

theorem lt_zero_iff
    (hUnpack : x.toModel.unpack = .finite sign m e hM) :
    x < 0 ↔ sign = .negative := by
  rw [lt_iff_compare, hUnpack, unpack_zero]
  cases sign <;> simp [UnpackedFloat.compare]

theorem beq_zero_of_unpack
    (hUnpack : x.toModel.unpack = .finite sign m e hM) :
    (x == 0) = false := by
  change UnpackedFloat.beq x.toModel.unpack (0 : Float).toModel.unpack =
    false
  rw [hUnpack, unpack_zero]
  cases sign <;> rfl

theorem beq_self_of_unpack
    (hUnpack : x.toModel.unpack = .finite sign m e hM) :
    (x == x) = true := by
  change UnpackedFloat.beq x.toModel.unpack x.toModel.unpack = true
  rw [beq_iff_ne_notANumber_and_eq, hUnpack]
  exact ⟨nofun, nofun, .inl rfl⟩

theorem neg_pack
    (hStored : Stored m e) :
    -Float.ofModel (.pack (.finite .positive m e hStored.positive)) =
      .ofModel (.pack (.finite .negative m e hStored.positive)) := by
  change Float.ofModel (.pack (UnpackedFloat.neg
    (UnpackedFloat.unpack _ (UnpackedFloat.pack _ _)))) = _
  rw [unpack_pack_of_stored hStored]
  rfl

------------------------------------------------------------
-- All Numbers
------------------------------------------------------------

theorem printsBack_of_unpack
    (hUnpack : x.toModel.unpack = .finite sign m e hM) :
    PrintsBack x := by
  have hStored : Stored m e := stored_of_unpack hUnpack
  rcases exists_ofFloat hUnpack with ⟨narrow, hNarrow, hText⟩
  rcases spells_positional (shortest m e narrow 17) with
    ⟨hDigits, l, hLiteral, hValue⟩
  have hFloat := Literal.toFloat_of_reaches hStored
    (hValue ▸ shortest_reaches hNarrow hStored)
  have hSelf := eq_pack_of_unpack hUnpack
  have hNumber : numberText x = ofFloat x := by
    rw [numberText, beq_zero_of_unpack hUnpack,
      if_neg Bool.false_ne_true]
  generalize (shortest m e narrow 17).positional = cs at *
  have hSign : splitSign cs = (false, cs) :=
    splitSign_literal (by rw [hLiteral]; rfl)
  rw [← hNumber] at hText
  cases sign with
  | negative =>
      have hBelow : x < 0 := (lt_zero_iff hUnpack).mpr rfl
      have hSpelled : (numberText x).toList = '-' :: cs := hText
      refine ⟨⟨cs, ?_, hDigits⟩, x, ?_, beq_self_of_unpack hUnpack⟩
      · rw [if_pos hBelow, hSpelled]
      · rw [hSpelled]
        change (Literal.ofChars? cs).map (fun l => -l.toFloat) = some x
        rw [hLiteral, Option.map_some, hFloat, neg_pack hStored, ← hSelf]
  | positive =>
      have hNotBelow : ¬ x < 0 := fun hBelow =>
        nomatch (lt_zero_iff hUnpack).mp hBelow
      have hSpelled : (numberText x).toList = cs := hText
      refine ⟨⟨cs, ?_, hDigits⟩, x, ?_, beq_self_of_unpack hUnpack⟩
      · rw [if_neg hNotBelow, hSpelled]
      · rw [hSpelled, readFloat?, hSign]
        change (Literal.ofChars? cs).map Literal.toFloat = some x
        rw [hLiteral, Option.map_some, hFloat, ← hSelf]

theorem printsBack_of_zero
    (hUnpack : x.toModel.unpack = .zero sign) :
    PrintsBack x := by
  have hSame : (x == 0) = true := by
    change UnpackedFloat.beq x.toModel.unpack
      (0 : Float).toModel.unpack = true
    rw [hUnpack, unpack_zero]
    rfl
  have hNotBelow : ¬ x < 0 := by
    intro hBelow
    rw [lt_iff_compare, hUnpack, unpack_zero] at hBelow
    cases hBelow
  have hSpelled : (numberText x).toList = ['0'] := by
    rw [numberText, if_pos hSame]
    rfl
  refine ⟨⟨['0'], ?_, by simp⟩, 0, ?_, hSame⟩
  · rw [if_neg hNotBelow, hSpelled]
  · rw [hSpelled]
    rfl

/- Every finite number is read back from its spelling. -/
theorem printsBack
    (hFinite : x.isFinite = true) :
    PrintsBack x := by
  change x.toModel.unpack.isFinite = true at hFinite
  cases hUnpack : x.toModel.unpack with
  | notANumber =>
      rw [hUnpack] at hFinite
      cases hFinite
  | infinity sign =>
      rw [hUnpack] at hFinite
      cases sign <;> cases hFinite
  | zero sign => exact printsBack_of_zero hUnpack
  | finite sign m e hM => exact printsBack_of_unpack hUnpack

end Decimal

end Spreadsheet
