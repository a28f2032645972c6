import Mathlib
import Spreadsheet.Operation.Infix
import Spreadsheet.Proofs.Decimal.Signs
import Spreadsheet.Proofs.Token.Encoding

/-
  The order of scalars.

  Each scalar that can be compared has a key, a list of
  integers, and two scalars stand as their keys do, entry by
  entry. The key of a text is made of its bytes in lower case,
  in whichever way a pair of texts is compared, so that texts
  of all alphabets stand in one order.

  Main declarations:
    * `Text.bytes_lower`
    * `Scalar.key`
    * `Scalar.compareFilled_eq`
    * `Scalar.ordering_eq_ok`
    * `Scalar.ordering_lawful`
-/

namespace Spreadsheet

open Float.Model

------------------------------------------------------------
-- Bytes In Lower Case
------------------------------------------------------------

namespace Text

theorem bytes_ofList (cs : List Char) :
    bytes (String.ofList cs) = encode cs := by
  rw [bytes, String.toUTF8_eq_toByteArray, String.toByteArray_ofList,
    List.utf8Encode, List.data_toByteArray, encode]

theorem bytes_eq_encode (s : String) : bytes s = encode s.toList := by
  rw [← bytes_ofList, String.ofList_toList]

theorem small_of_isAscii
    {s : String}
    (hAscii : isAscii s = true) :
    ∀ c ∈ s.toList, c.toNat < 128 := by
  apply small_of_encode
  intro b hb hWide
  rw [isAscii, bytes_eq_encode, List.all_eq_true] at hAscii
  have hSmall : b < 128 := of_decide_eq_true (hAscii b hb)
  have hByte : b.toNat < 128 := UInt8.lt_iff_toNat_lt.mp hSmall
  rw [ascii?, if_pos hByte] at hWide
  cases hWide

/- No letter of ASCII changes case by what stands around it. -/
theorem lowerChars_of_small
    {cs : List Char}
    (hSmall : ∀ c ∈ cs, c.toNat < 128)
    (before : List Char) :
    lowerChars before cs = cs.map Char.toLower := by
  induction cs generalizing before with
  | nil => rfl
  | cons c cs ih =>
      rw [List.forall_mem_cons] at hSmall
      have hSigma : c ≠ capitalSigma := by
        rintro rfl
        exact absurd hSmall.1 (by decide)
      rw [lowerChars, if_neg hSigma, lowerChar, if_pos hSmall.1,
        ih hSmall.2]
      rfl

theorem utf8EncodeChar_toLower
    {c : Char}
    (hSmall : c.toNat < 128) :
    String.utf8EncodeChar c.toLower =
      (String.utf8EncodeChar c).map lowerByte := by
  have hAll :
      ∀ n < 128,
        String.utf8EncodeChar (Char.ofNat n).toLower =
          (String.utf8EncodeChar (Char.ofNat n)).map lowerByte := by
    decide +kernel
  have hChar := hAll c.toNat hSmall
  rwa [Char.ofNat_toNat] at hChar

/- Bytes below 128 may be lowered one by one. -/
theorem bytes_lower
    {s : String}
    (hAscii : isAscii s = true) :
    bytes (lower s) = (bytes s).map lowerByte := by
  have hSmall := small_of_isAscii hAscii
  rw [lower, bytes_ofList, bytes_eq_encode,
    lowerChars_of_small hSmall]
  generalize s.toList = cs at hSmall
  induction cs with
  | nil => rfl
  | cons c cs ih =>
      rw [List.forall_mem_cons] at hSmall
      rw [List.map_cons, encode_cons, encode_cons, List.map_append,
        utf8EncodeChar_toLower hSmall.1, ih hSmall.2]

end Text

namespace Scalar

/- Both ways of comparing texts compare their lower cases. -/
theorem compareTexts_eq (s t : String) :
    compareTexts s t =
      compare (Text.bytes (Text.lower s))
        (Text.bytes (Text.lower t)) := by
  unfold compareTexts
  split
  · rename_i hAscii
    rw [Bool.and_eq_true] at hAscii
    rw [Text.bytes_lower hAscii.1, Text.bytes_lower hAscii.2]
  · rfl

------------------------------------------------------------
-- Integers In Place Of Other Entries
------------------------------------------------------------

theorem compare_neg (a b : Int) :
    compare (-a) (-b) = (compare a b).swap := by
  have hAnti : StrictAnti fun n : Int => -n := fun _ _ => neg_lt_neg
  rw [Int.compare_swap, ← cmp_eq_compare, ← cmp_eq_compare,
    hAnti.cmp_map_eq]

theorem compare_natCast (m n : Nat) :
    compare (m : Int) n = compare m n := by
  rw [← cmp_eq_compare, ← cmp_eq_compare,
    Nat.strictMono_cast.cmp_map_eq]

theorem compare_toNat (b c : UInt8) :
    compare (b.toNat : Int) c.toNat = compare b c := by
  rw [compare_natCast]
  simp only [compare, compareOfLessAndEq, UInt8.lt_iff_toNat_lt,
    UInt8.toNat_inj]

theorem compare_bytes (bs cs : List UInt8) :
    compare (bs.map fun b => (b.toNat : Int))
        (cs.map fun c => (c.toNat : Int)) =
      compare bs cs := by
  induction bs generalizing cs with
  | nil => cases cs <;> rfl
  | cons b bs ih =>
      cases cs with
      | nil => rfl
      | cons c cs =>
          rw [List.map_cons, List.map_cons, List.compare_cons_cons,
            List.compare_cons_cons, compare_toNat, ih]

------------------------------------------------------------
-- Keys
------------------------------------------------------------

/-
  The class of a number, its exponent and its mantissa, both
  of them negative where the number is.
-/
def floatKey : UnpackedFloat → List Int
  | .infinity .negative => [-2, 0, 0]
  | .finite .negative m e _ => [-1, -e, -m]
  | .zero _ => [0, 0, 0]
  | .finite .positive m e _ => [1, e, m]
  | .infinity .positive => [2, 0, 0]
  | .notANumber => []

/-
  The rank of a value, and what it is compared by among the
  values of its type.
-/
def key (v : Scalar) : List Int :=
  match v with
  | .number x => v.rank :: floatKey x.toModel.unpack
  | .text s =>
      v.rank ::
        (Text.bytes (Text.lower s)).map fun b => (b.toNat : Int)
  | .bool b => [v.rank, b.toNat]
  | _ => [v.rank]

/- The value is neither an error nor a float that is no number. -/
def Ordered : Scalar → Prop
  | .error _ => False
  | .number x => x.isNaN = false
  | _ => True

theorem compare_floatKey_positive
    {m n : Nat}
    {e f : Int}
    (hM : 0 < m)
    (hN : 0 < n) :
    compare (floatKey (.finite .positive m e hM))
        (floatKey (.finite .positive n f hN)) =
      (compare e f).then (compare m n) := by
  simp [floatKey, compare_natCast]

theorem compare_floatKey_negative
    {m n : Nat}
    {e f : Int}
    (hM : 0 < m)
    (hN : 0 < n) :
    compare (floatKey (.finite .negative m e hM))
        (floatKey (.finite .negative n f hN)) =
      ((compare e f).then (compare m n)).swap := by
  simp [floatKey, compare_neg, compare_natCast, Ordering.swap_then]

/- Numbers stand as their keys do. -/
theorem compare_floatKey
    {u v : UnpackedFloat}
    (hU : u.isNaN = false)
    (hV : v.isNaN = false) :
    u.compare v = some (compare (floatKey u) (floatKey v)) := by
  rcases u with (_ | _) | _ | _ | ⟨_ | _, m, e, hM⟩ <;>
    rcases v with (_ | _) | _ | _ | ⟨_ | _, n, f, hN⟩ <;>
    first
      | rfl
      | exact absurd hU (by decide)
      | exact absurd hV (by decide)
      | rw [compare_floatKey_positive]; rfl
      | rw [compare_floatKey_negative]; rfl

theorem compareNumbers_eq
    {x y : Float}
    (hX : x.isNaN = false)
    (hY : y.isNaN = false) :
    compareNumbers x y =
      compare (floatKey x.toModel.unpack)
        (floatKey y.toModel.unpack) := by
  have hForth := compare_floatKey hX hY
  have hBack := compare_floatKey hY hX
  rw [Std.OrientedOrd.eq_swap] at hBack
  unfold compareNumbers
  simp only [Decimal.lt_iff_compare, hForth, hBack]
  generalize compare (floatKey _) (floatKey _) = o
  cases o <;> rfl

theorem key_eq_cons (v : Scalar) :
    ∃ rest : List Int, v.key = (v.rank : Int) :: rest := by
  cases v <;> exact ⟨_, rfl⟩

/- Values of different ranks stand as their ranks do. -/
theorem compare_key_of_rank_ne
    {v w : Scalar}
    (hRank : v.rank ≠ w.rank) :
    compare v.key w.key = compare v.rank w.rank := by
  rcases key_eq_cons v with ⟨rest, hKey⟩
  rcases key_eq_cons w with ⟨rest', hKey'⟩
  rw [hKey, hKey', List.compare_cons_cons, compare_natCast]
  cases hOrder : compare v.rank w.rank with
  | lt | gt => rfl
  | eq => exact absurd (Nat.compare_eq_eq.mp hOrder) hRank

/- Values stand as their keys do unless one of them is filled in. -/
theorem compareFilled_eq
    {v w : Scalar}
    (hV : v.Ordered)
    (hW : w.Ordered)
    (hBlank : v = .blank ↔ w = .blank) :
    compareFilled v w = compare v.key w.key := by
  by_cases hRank : v.rank = w.rank
  · cases v with
    | error => exact hV.elim
    | blank =>
        obtain rfl := hBlank.mp rfl
        rfl
    | number a =>
        cases w with
        | number b =>
            rw [compareFilled, compareNumbers_eq hV hW]
            simp [key, rank]
        | blank => cases hBlank.mpr rfl
        | text | bool | error => cases hRank
    | text s =>
        cases w with
        | text t =>
            rw [compareFilled, compareTexts_eq, ← compare_bytes]
            simp [key, rank]
        | blank | number | bool | error => cases hRank
    | bool a =>
        cases w with
        | bool b => cases a <;> cases b <;> rfl
        | blank | number | text | error => cases hRank
  · rw [compare_key_of_rank_ne hRank]
    cases v <;> cases w <;> first | rfl | exact absurd rfl hRank

------------------------------------------------------------
-- Blanks
------------------------------------------------------------

theorem Ordered.fillBlank
    {v : Scalar}
    (hOrdered : v.Ordered)
    (w : Scalar) :
    (v.fillBlank w).Ordered := by
  cases v with
  | blank => cases w <;> trivial
  | _ => exact hOrdered

theorem fillBlank_of_ne
    {v : Scalar}
    (hSome : v ≠ .blank)
    (w : Scalar) :
    v.fillBlank w = v := by
  cases v with
  | blank => exact absurd rfl hSome
  | _ => rfl

/- After filling in, both values are blank or none is. -/
theorem fillBlank_eq_blank
    {v w : Scalar}
    (hW : w.Ordered) :
    v.fillBlank w = .blank ↔ v = .blank ∧ w = .blank := by
  cases v <;> cases w <;> simp_all [fillBlank, Ordered]

/-
  Two values that can be compared stand as the keys of what
  their blanks are filled in with.
-/
theorem ordering_eq_ok
    {v w : Scalar}
    (hV : v.Ordered)
    (hW : w.Ordered) :
    v.ordering w =
      .ok (compare (v.fillBlank w).key (w.fillBlank v).key) := by
  have hBlank : v.fillBlank w = .blank ↔ w.fillBlank v = .blank := by
    rw [fillBlank_eq_blank hW, fillBlank_eq_blank hV, and_comm]
  rw [← compareFilled_eq (hV.fillBlank w) (hW.fillBlank v) hBlank]
  cases v <;> cases w <;> first | rfl | exact hV.elim | exact hW.elim

theorem ordering_of_ne_blank
    {v w : Scalar}
    (hV : v.Ordered)
    (hW : w.Ordered)
    (hSome : v ≠ .blank)
    (hSome' : w ≠ .blank) :
    v.ordering w = .ok (compare v.key w.key) := by
  rw [ordering_eq_ok hV hW, fillBlank_of_ne hSome,
    fillBlank_of_ne hSome']

/- The first value stands before the second, or beside it. -/
def AtMost (v w : Scalar) : Prop :=
  ∃ o, v.ordering w = .ok o ∧ o.isLE = true

theorem atMost_iff
    {v w : Scalar}
    (hV : v.Ordered)
    (hW : w.Ordered)
    (hSome : v ≠ .blank)
    (hSome' : w ≠ .blank) :
    v.AtMost w ↔ (compare v.key w.key).isLE = true := by
  rw [AtMost, ordering_of_ne_blank hV hW hSome hSome']
  constructor
  · rintro ⟨o, hOrder, hLE⟩
    cases hOrder
    exact hLE
  · exact fun hLE => ⟨_, rfl, hLE⟩

end Scalar

------------------------------------------------------------
-- Comparisons
------------------------------------------------------------

/- The orders of its operands for which a comparison holds. -/
def InfixOp.orders? : InfixOp → Option (List Ordering)
  | .equal => some [.eq]
  | .unequal => some [.lt, .gt]
  | .less => some [.lt]
  | .lessEqual => some [.lt, .eq]
  | .greater => some [.gt]
  | .greaterEqual => some [.gt, .eq]
  | _ => none

/- A comparison tests the order of its operands. -/
theorem InfixOp.exists_comparison
    {op : InfixOp}
    {os : List Ordering}
    (hOrders : op.orders? = some os) :
    op.apply = Scalar.comparison fun o => os.contains o := by
  have hTest :
      ∀ test : Ordering → Bool,
        (∀ o, test o = os.contains o) →
          Scalar.comparison test =
            Scalar.comparison fun o => os.contains o :=
    fun test hSame => congrArg _ (funext hSame)
  cases op <;> cases hOrders <;>
    exact hTest _ fun o => by cases o <;> rfl

namespace Scalar

/- The first error among the operands is the order's. -/
theorem ordering_of_error
    {v w : Scalar}
    {e : ErrorValue}
    (hFirst : v = .error e ∨ v.isError = false ∧ w = .error e) :
    v.ordering w = .error e := by
  rcases hFirst with rfl | ⟨hNone, rfl⟩
  · rfl
  · cases v with
    | error => cases hNone
    | _ => rfl

/-
  Comparing the other way round reverses the order, and one of
  the three orders holds of any two values that can be
  compared. Values that are no blanks are in a total preorder,
  by type first, and texts by their bytes in lower case. An
  error is the result of every comparison, the left one first.
-/
theorem ordering_lawful
    {v w x : Scalar}
    (hV : v.Ordered)
    (hW : w.Ordered)
    (hX : x.Ordered) :
    (∃ o,
        v.ordering w = .ok o ∧ w.ordering v = .ok o.swap ∧
          ∀ (op : InfixOp) os, op.orders? = some os →
            op.apply v w = .bool (os.contains o)) ∧
      (∃! op : InfixOp,
        op ∈ [InfixOp.less, .equal, .greater] ∧
          op.apply v w = .bool true) ∧
      (v ≠ .blank → w ≠ .blank → x ≠ .blank →
        (v.AtMost w ∨ w.AtMost v) ∧
          (v.AtMost w → w.AtMost x → v.AtMost x) ∧
            (v.rank < w.rank → v.ordering w = .ok .lt)) ∧
      (∀ s t,
        (Scalar.text s).ordering (.text t) = .ok (compareTexts s t) ∧
          compareTexts s t =
            compare (Text.bytes (Text.lower s))
              (Text.bytes (Text.lower t))) ∧
      ∀ (op : InfixOp) os y z e, op.orders? = some os →
        (y = .error e ∨ y.isError = false ∧ z = .error e) →
          op.apply y z = .error e := by
  have hOrder := ordering_eq_ok hV hW
  have hSwap := ordering_eq_ok hW hV
  rw [Std.OrientedOrd.eq_swap] at hSwap
  generalize compare (v.fillBlank w).key (w.fillBlank v).key = o
    at hOrder hSwap
  have hApply :
      ∀ (op : InfixOp) os, op.orders? = some os →
        op.apply v w = .bool (os.contains o) := by
    intro op os hOrders
    rw [InfixOp.exists_comparison hOrders, comparison, hOrder]
    rfl
  refine ⟨⟨o, hOrder, hSwap, hApply⟩, ?_, ?_, ?_, ?_⟩
  · have hLess := hApply .less _ rfl
    have hEqual := hApply .equal _ rfl
    have hGreater := hApply .greater _ rfl
    cases o with
    | lt => exact ⟨.less, by simp [hLess], by simp_all⟩
    | eq => exact ⟨.equal, by simp [hEqual], by simp_all⟩
    | gt => exact ⟨.greater, by simp [hGreater], by simp_all⟩
  · intro hSomeV hSomeW hSomeX
    rw [atMost_iff hV hW hSomeV hSomeW, atMost_iff hW hV hSomeW hSomeV,
      atMost_iff hW hX hSomeW hSomeX, atMost_iff hV hX hSomeV hSomeX]
    refine ⟨?_, Std.TransCmp.isLE_trans, fun hRank => ?_⟩
    · rw [Std.OrientedOrd.eq_swap (a := w.key)]
      cases compare v.key w.key <;> simp
    · rw [ordering_of_ne_blank hV hW hSomeV hSomeW,
        compare_key_of_rank_ne (Nat.ne_of_lt hRank),
        Nat.compare_eq_lt.mpr hRank]
  · exact fun s t => ⟨rfl, compareTexts_eq s t⟩
  · intro op os y z e hOrders hFirst
    rw [InfixOp.exists_comparison hOrders, comparison,
      ordering_of_error hFirst]
    rfl

/- Texts with accents and without stand in one chain. -/
theorem ordering_lawful_accents :
    (Scalar.text "Zebra").AtMost (.text "École") ∧
      (Scalar.text "École").AtMost (.text "éz") ∧
        (Scalar.text "Zebra").AtMost (.text "éz") := by
  have hFirst : (Scalar.text "Zebra").AtMost (.text "École") :=
    ⟨.lt, by decide +kernel, rfl⟩
  have hSecond : (Scalar.text "École").AtMost (.text "éz") :=
    ⟨.lt, by decide +kernel, rfl⟩
  exact ⟨hFirst, hSecond,
    ((ordering_lawful (v := .text "Zebra") (w := .text "École")
      (x := .text "éz") trivial trivial trivial).2.2.1 nofun nofun
        nofun).2.1 hFirst hSecond⟩

end Scalar

end Spreadsheet
