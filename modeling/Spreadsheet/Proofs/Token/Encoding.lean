import Mathlib
import Spreadsheet.Proofs.Token.Tiling

/-
  The bytes that encode a text.

  A character is one byte that says which one it is, or
  several bytes, the first of which says how many. So a text
  can be read byte by byte wherever only characters of one
  byte matter.

  Main declarations:
    * `Text.encode`
    * `Text.decode?`
    * `Text.ascii?`
    * `Text.width?`
    * `Text.bytes_of_char`
    * `Text.drop_encode`
-/

namespace Spreadsheet

namespace Text

------------------------------------------------------------
-- Bytes Of Characters
------------------------------------------------------------

/- The bytes that encode a text. -/
def encode (cs : List Char) : List UInt8 :=
  cs.flatMap String.utf8EncodeChar

/- The text that bytes encode, if they encode whole characters. -/
def decode? (bs : List UInt8) : Option (List Char) :=
  bs.toByteArray.utf8Decode?.map Array.toList

/- The character that a byte encodes by itself. -/
def ascii? (b : UInt8) : Option Char :=
  if b.toNat < 128 then some (Char.ofNat b.toNat) else none

/-
  The number of bytes of the character that starts with a
  byte; some bytes start none.
-/
def width? (b : UInt8) : Option Nat :=
  if b.toNat < 128 then some 1
  else if b.toNat < 192 then none
  else if b.toNat < 224 then some 2
  else if b.toNat < 240 then some 3
  else if b.toNat < 248 then some 4
  else none

/-
  A character is one byte by itself, or several bytes none of
  which is a character by itself.
-/
inductive Encodes (c : Char) : List UInt8 → Prop
  | single {b : UInt8} (hByte : ascii? b = some c) : Encodes c [b]
  | several
      {b : UInt8}
      {bs : List UInt8}
      (hWide : 128 ≤ c.toNat)
      (hWidth : width? b = some (bs.length + 1))
      (hParts : ∀ x ∈ b :: bs, ascii? x = none) :
      Encodes c (b :: bs)

theorem ascii?_ofNat {n : Nat} (hLow : 128 ≤ n) (hHigh : n < 256) :
    ascii? (UInt8.ofNat n) = none := by
  rw [ascii?, UInt8.toNat_ofNat', Nat.mod_eq_of_lt hHigh,
    if_neg (by omega)]

theorem toNat_lt_of_char (c : Char) : c.val.toNat < 1114112 := by
  rcases c.valid with hLow | hHigh
  · have hLow : c.val.toNat < 55296 := hLow
    omega
  · exact hHigh.2

theorem encodes (c : Char) : Encodes c (String.utf8EncodeChar c) := by
  have hRange := toNat_lt_of_char c
  unfold String.utf8EncodeChar
  dsimp only
  split
  · rename_i hOne
    have hOne' : c.toNat ≤ 127 := hOne
    refine .single ?_
    rw [ascii?, UInt8.toNat_ofNat', Nat.mod_eq_of_lt (by omega),
      if_pos (by omega)]
    exact congrArg some (Char.ofNat_toNat c)
  · split
    · refine .several (Nat.lt_of_not_le ‹¬ c.val.toNat ≤ 127›) ?_ ?_
      · rw [width?, UInt8.toNat_ofNat', Nat.mod_eq_of_lt (by omega),
          if_neg (by omega), if_neg (by omega), if_pos (by omega)]
        rfl
      · simp only [List.mem_cons, List.not_mem_nil, or_false]
        rintro x (rfl | rfl) <;>
          exact ascii?_ofNat (by omega) (by omega)
    · split
      · refine .several (Nat.lt_of_not_le ‹¬ c.val.toNat ≤ 127›) ?_ ?_
        · rw [width?, UInt8.toNat_ofNat', Nat.mod_eq_of_lt (by omega),
            if_neg (by omega), if_neg (by omega), if_neg (by omega),
            if_pos (by omega)]
          rfl
        · simp only [List.mem_cons, List.not_mem_nil, or_false]
          rintro x (rfl | rfl | rfl) <;>
            exact ascii?_ofNat (by omega) (by omega)
      · refine .several (Nat.lt_of_not_le ‹¬ c.val.toNat ≤ 127›) ?_ ?_
        · rw [width?, UInt8.toNat_ofNat', Nat.mod_eq_of_lt (by omega),
            if_neg (by omega), if_neg (by omega), if_neg (by omega),
            if_neg (by omega), if_pos (by omega)]
          rfl
        · simp only [List.mem_cons, List.not_mem_nil, or_false]
          rintro x (rfl | rfl | rfl | rfl) <;>
            exact ascii?_ofNat (by omega) (by omega)

theorem toNat_lt_of_ascii?
    {b : UInt8}
    {c : Char}
    (hByte : ascii? b = some c) :
    c.toNat < 128 := by
  unfold ascii? at hByte
  split at hByte
  · cases hByte
    rename_i hLow
    rw [Char.toNat_ofNat, if_pos (.inl (by omega))]
    exact hLow
  · cases hByte

theorem width?_of_ascii?
    {b : UInt8}
    {c : Char}
    (hByte : ascii? b = some c) :
    width? b = some 1 := by
  unfold ascii? at hByte
  split at hByte
  · rename_i hLow
    rw [width?, if_pos hLow]
  · cases hByte

/- The bytes of a character: the first one tells how many. -/
theorem bytes_of_char (c : Char) :
    ∃ b parts, String.utf8EncodeChar c = b :: parts ∧
      width? b = some (parts.length + 1) ∧
      (ascii? b = some c ∧ parts = [] ∨
        ascii? b = none ∧ 128 ≤ c.toNat) := by
  have hEncodes := encodes c
  generalize String.utf8EncodeChar c = bytes at hEncodes
  cases hEncodes with
  | @single b hByte =>
      exact ⟨b, [], rfl, width?_of_ascii? hByte, .inl ⟨hByte, rfl⟩⟩
  | @several b parts hWide hWidth hParts =>
      exact ⟨b, parts, rfl, hWidth,
        .inr ⟨hParts b List.mem_cons_self, hWide⟩⟩

------------------------------------------------------------
-- Bytes Of Texts
------------------------------------------------------------

@[simp] theorem encode_nil : encode [] = [] := rfl

theorem encode_cons (c : Char) (cs : List Char) :
    encode (c :: cs) = String.utf8EncodeChar c ++ encode cs := by
  rw [encode, List.flatMap_cons]
  rfl

theorem encode_append (cs ds : List Char) :
    encode (cs ++ ds) = encode cs ++ encode ds := by
  rw [encode, List.flatMap_append]
  rfl

theorem length_encode (cs : List Char) :
    (encode cs).length = byteLength cs := by
  induction cs with
  | nil => rfl
  | cons c cs ih =>
      rw [encode_cons, List.length_append, ih, byteLength,
        String.length_utf8EncodeChar]

theorem decode?_encode (cs : List Char) :
    decode? (encode cs) = some cs := by
  change ((cs.utf8Encode).utf8Decode?).map Array.toList = some cs
  rw [List.utf8Decode?_utf8Encode]
  rfl

theorem exists_bytes (c : Char) (cs : List Char) :
    ∃ b bs, encode (c :: cs) = b :: bs := by
  rcases bytes_of_char c with ⟨b, parts, hChar, -⟩
  exact ⟨b, parts ++ encode cs, by rw [encode_cons, hChar]; rfl⟩

theorem take_encode (cs : List Char) (n : Nat) :
    (encode cs).take (byteLength (cs.take n)) =
      encode (cs.take n) := by
  conv_lhs => rw [← List.take_append_drop n cs, encode_append]
  rw [List.take_append_drop, ← length_encode, List.take_left]

theorem drop_encode (cs : List Char) (n : Nat) :
    (encode cs).drop (byteLength (cs.take n)) =
      encode (cs.drop n) := by
  conv_lhs => rw [← List.take_append_drop n cs, encode_append]
  rw [List.take_append_drop, ← length_encode, List.drop_left]

/- The first byte of a text, as a character by itself. -/
theorem head?_encode (cs : List Char) :
    (encode cs).head?.bind ascii? =
      cs.head?.filter fun c => c.toNat < 128 := by
  cases cs with
  | nil => rfl
  | cons c cs =>
      rw [encode_cons]
      generalize hBytes : String.utf8EncodeChar c = bytes
      have hEncodes := encodes c
      rw [hBytes] at hEncodes
      cases hEncodes with
      | single hByte =>
          simp [Option.filter, hByte, toNat_lt_of_ascii? hByte]
      | several hWide hWidth hParts =>
          have hFirst := hParts _ List.mem_cons_self
          simp [Option.filter, hFirst, hWide]

theorem head?_encode_eq
    {cs : List Char}
    {c : Char}
    (hSmall : c.toNat < 128) :
    (encode cs).head?.bind ascii? = some c ↔ cs.head? = some c := by
  rw [head?_encode, Option.filter_eq_some_iff]
  simp only [decide_eq_true_eq, and_iff_left_iff_imp]
  exact fun _ => hSmall

/- Each character of a text is one byte by itself. -/
theorem encode_of_small
    {cs : List Char}
    (hSmall : ∀ c ∈ cs, c.toNat < 128) :
    (encode cs).map ascii? = cs.map some := by
  induction cs with
  | nil => rfl
  | cons c cs ih =>
      rw [List.forall_mem_cons] at hSmall
      rw [encode_cons, List.map_append, ih hSmall.2]
      have hEncodes := encodes c
      generalize String.utf8EncodeChar c = bytes at hEncodes ⊢
      cases hEncodes with
      | single hByte => simp [hByte]
      | several hWide hWidth hParts => omega

/- A text of such bytes has such characters only. -/
theorem small_of_encode
    {cs : List Char}
    (hBytes : ∀ b ∈ encode cs, ascii? b ≠ none) :
    ∀ c ∈ cs, c.toNat < 128 := by
  induction cs with
  | nil => nofun
  | cons c cs ih =>
      rw [encode_cons] at hBytes
      rw [List.forall_mem_cons]
      refine ⟨?_, ih fun b hb => hBytes b (List.mem_append_right _ hb)⟩
      have hEncodes := encodes c
      generalize String.utf8EncodeChar c = bytes at hEncodes hBytes
      cases hEncodes with
      | single hByte => exact toNat_lt_of_ascii? hByte
      | several hWide hWidth hParts =>
          exact absurd (hParts _ List.mem_cons_self)
            (hBytes _ (List.mem_append_left _ List.mem_cons_self))

/- Characters of one byte each take as many bytes. -/
theorem byteLength_of_small
    {cs : List Char}
    (hSmall : ∀ c ∈ cs, c.toNat < 128) :
    byteLength cs = cs.length := by
  have hMap := congrArg List.length (encode_of_small hSmall)
  rwa [List.length_map, List.length_map, length_encode] at hMap

end Text

end Spreadsheet
