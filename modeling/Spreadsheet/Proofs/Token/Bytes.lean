import Mathlib
import Spreadsheet.Proofs.Token.Encoding
import Spreadsheet.Proofs.Token.Spelling

/-
  Reading a formula byte by byte.

  Tokens are cut out of the bytes of a formula by looking at
  single bytes. The bytes of a longer character are never
  mistaken for a quote, a blank, a sign or a bracket, so every
  token, and every character of a word, is cut out between two
  characters, and what is read is what the characters say.

  Main declarations:
    * `Lexeme.nextOfBytes?`
    * `Token.scanBytes?`
    * `Lexeme.nextOfBytes?_encode`
    * `Token.scanBytes?_encode`
    * `Token.tokens_tile_source`
-/

namespace Spreadsheet

------------------------------------------------------------
-- Pieces By Their Bytes
------------------------------------------------------------

namespace Lexeme

open Text

/- How many bytes lead to the end of a text, its quote included. -/
def endOfText? : List UInt8 → Option Nat
  | [] => none
  | b :: bs =>
      if ascii? b = some '"' then
        if bs.head?.bind ascii? = some '"' then
          (endOfText? bs.tail).map (· + 2)
        else
          some 1
      else
        (endOfText? bs).map (· + 1)
termination_by bs => bs.length
decreasing_by
  · simp only [List.length_tail, List.length_cons]
    omega
  · exact Nat.lt_succ_self _

/- Bytes start with a spelling, in any case. -/
def startWith : List Char → List UInt8 → Bool
  | [], _ => true
  | _, [] => false
  | d :: ds, b :: bs =>
      (ascii? b).map Char.toUpper == some d.toUpper &&
        startWith ds bs

/- The error value whose spelling starts here, in any case. -/
def errorOfBytes? (bs : List UInt8) : Option ErrorValue :=
  ErrorValue.all.find? fun e => startWith e.text.toList bs

/- A byte is a character that passes a test. -/
def byteIs (p : Char → Bool) (b : UInt8) : Bool :=
  (ascii? b).any p

/- A word that a sign may continue, by its bytes. -/
def isExponentBaseOfBytes (word : List UInt8) : Bool :=
  ((word.getLast?.bind ascii?) == some 'e' ||
      (word.getLast?.bind ascii?) == some 'E') &&
    1 < word.length &&
    word.dropLast.all (byteIs fun c => c.isDigit || c == '.') &&
    word.countP (byteIs (· == '.')) ≤ 1

/-
  How many bytes continue a word that so far consists of the
  bytes `word`. There is no answer if one of its characters
  would be cut out at a byte that starts none.
-/
def widthOfWord? (word : List UInt8) : List UInt8 → Option Nat
  | [] => some 0
  | b :: bs =>
      if !byteIs isSpecial b ||
          (byteIs (fun c => c == '+' || c == '-') b &&
            isExponentBaseOfBytes word) then
        (width? b).bind fun w =>
          (widthOfWord? (word ++ (b :: bs.take (w - 1)))
            (bs.drop (w - 1))).map (· + w)
      else
        some 0
termination_by bs => bs.length
decreasing_by
  simp only [List.length_drop, List.length_cons]
  omega

/- A word; one before a parenthesis opens a call. -/
def wordOfBytes?
    (b : UInt8)
    (bs : List UInt8) : Option (Lexeme × Nat) :=
  (width? b).bind fun w =>
    (widthOfWord? (b :: bs.take (w - 1)) (bs.drop (w - 1))).map
      fun n =>
        if (bs.drop (w - 1 + n)).head?.bind ascii? = some '(' then
          (.open .call, w - 1 + n + 1)
        else
          (.word, w - 1 + n)

/- An operator and how many further bytes it has. -/
def operatorOfBytes? (c : Char) (bs : List UInt8) : Lexeme × Nat :=
  if ((bs.head?.bind ascii?).map (isDoubleSign c)).getD false then
    (.operator, 1)
  else if c == '%' then
    (.percent, 0)
  else if c == '+' || c == '-' then
    (.sign, 0)
  else
    (.operator, 0)

/-
  The piece that starts with the byte `b`, and how many of the
  bytes `bs` after it belong to it.
-/
def nextOfBytes?
    (b : UInt8)
    (bs : List UInt8) : Option (Except LexFault (Lexeme × Nat)) :=
  match ascii? b with
  | none => (wordOfBytes? b bs).map .ok
  | some c =>
      if c = '"' then
        some
          (match endOfText? bs with
          | some n => .ok (.text, n)
          | none => .error .unterminatedText)
      else if c = '#' then
        some
          (match errorOfBytes? (b :: bs) with
          | some e => .ok (.error e, e.text.length - 1)
          | none => .error .unknownErrorCode)
      else if isSpace c then
        some (.ok (.blank, (bs.takeWhile (byteIs isSpace)).length))
      else if c = '\x7b' then
        some (.ok (.open .array, 0))
      else if c = '(' then
        some (.ok (.open .group, 0))
      else if c = ')' || c = '\x7d' then
        some (.ok (.close (c == '\x7d'), 0))
      else if c = ';' then
        some (.ok (.semicolon, 0))
      else if c = ',' then
        some (.ok (.comma, 0))
      else if isSpecial c then
        some (.ok (operatorOfBytes? c bs))
      else
        (wordOfBytes? b bs).map .ok

end Lexeme

namespace Token

open Text

/-
  The tokens of the rest of a formula up to a fault, read
  byte by byte. There is no answer if a token, or a character
  of a word, would be cut out between other bytes than the
  first ones of characters.
-/
def scanBytes?
    (ctx : LexContext)
    (offset : Nat) :
    List UInt8 → Option (List Token × Option LexError)
  | [] =>
      some
        ([],
          if ctx.opened.isEmpty then none
          else some ⟨.unmatchedOpener, offset⟩)
  | b :: bs =>
      (Lexeme.nextOfBytes? b bs).bind fun
        | .error .unterminatedText =>
            some
              ([], some ⟨.unterminatedText, offset + (b :: bs).length⟩)
        | .error fault => some ([], some ⟨fault, offset⟩)
        | .ok (lexeme, n) =>
            (decode? (b :: bs.take n)).bind fun chars =>
              match ctx.classify lexeme chars with
              | .error fault => some ([], some ⟨fault, offset⟩)
              | .ok (kind, opened) =>
                  (scanBytes?
                    (ctx.after ⟨kind, chars, offset⟩ opened)
                    (offset + (n + 1)) (bs.drop n)).map fun rest =>
                      (⟨kind, chars, offset⟩ :: rest.1, rest.2)
termination_by bs => bs.length
decreasing_by
  simp only [List.length_drop, List.length_cons]
  omega

end Token

------------------------------------------------------------
-- Pieces Of Encoded Texts
------------------------------------------------------------

namespace Lexeme

open Text

theorem byteIs_of_ascii?
    {b : UInt8}
    {c : Char}
    (hByte : ascii? b = some c)
    (p : Char → Bool) :
    byteIs p b = p c := by
  rw [byteIs, hByte]
  rfl

theorem byteIs_of_none
    {b : UInt8}
    (hByte : ascii? b = none)
    (p : Char → Bool) :
    byteIs p b = false := by
  rw [byteIs, hByte]
  rfl

theorem endOfText?_parts
    {bs : List UInt8}
    (hParts : ∀ x ∈ bs, ascii? x ≠ some '"')
    (rest : List UInt8) :
    endOfText? (bs ++ rest) =
      (endOfText? rest).map (· + bs.length) := by
  induction bs with
  | nil => simp
  | cons b bs ih =>
      rw [List.forall_mem_cons] at hParts
      rw [List.cons_append, endOfText?, if_neg hParts.1, ih hParts.2,
        Option.map_map]
      rfl

/- Bytes of another character than a quote are passed over. -/
theorem endOfText?_other
    {c : Char}
    (hOther : c ≠ '"')
    (rest : List UInt8) :
    endOfText? (String.utf8EncodeChar c ++ rest) =
      (endOfText? rest).map (· + c.utf8Size) := by
  rw [← String.length_utf8EncodeChar]
  refine endOfText?_parts ?_ rest
  have hEncodes := encodes c
  generalize String.utf8EncodeChar c = bytes at hEncodes ⊢
  cases hEncodes with
  | single hByte => simp [hByte, hOther]
  | several hWide hWidth hParts =>
      intro x hx
      rw [hParts x hx]
      nofun

theorem encode_quote (cs : List Char) :
    encode ('"' :: cs) = 34 :: encode cs := encode_cons _ _

theorem ascii?_quote : ascii? 34 = some '"' := rfl

theorem endOfText?_encode (cs : List Char) :
    endOfText? (encode cs) =
      (textLength? cs).map fun n => byteLength (cs.take n) := by
  induction cs using textLength?.induct with
  | case1 =>
      rw [encode_nil, endOfText?]
      rfl
  | case2 cs ih =>
      rw [encode_quote, encode_quote, endOfText?, if_pos ascii?_quote,
        if_pos (show (34 :: encode cs).head?.bind ascii? = some '"' from
          ascii?_quote),
        List.tail_cons, ih, textLength?,
        Option.map_map, Option.map_map]
      congr 1
      funext n
      simp only [Function.comp_apply, List.take_succ_cons, byteLength]
      change _ = 1 + (1 + _)
      omega
  | case3 cs hSingle =>
      have hHead : cs.head? ≠ some '"' := by
        cases cs with
        | nil => simp
        | cons d ds =>
            rintro ⟨⟩
            exact hSingle ds rfl
      have hByte : (encode cs).head?.bind ascii? ≠ some '"' :=
        fun h => hHead ((head?_encode_eq (by decide)).1 h)
      rw [encode_quote, endOfText?, if_pos ascii?_quote,
        textLength?_quote hHead, if_neg hByte]
      rfl
  | case4 c cs hPair hQuote ih =>
      have hOther : c ≠ '"' := by
        rintro rfl
        exact hQuote rfl
      rw [encode_cons, endOfText?_other hOther, ih,
        textLength?_other hOther, Option.map_map, Option.map_map]
      congr 1
      funext n
      simp only [Function.comp_apply, List.take_succ_cons, byteLength]
      omega

/- Letters in capitals take one byte as before. -/
theorem toNat_toUpper_lt {c : Char} :
    c.toUpper.toNat < 128 ↔ c.toNat < 128 := by
  by_cases hLower : c.isLower = true
  · rw [Char.toUpper_eq_of_isLower hLower]
    simp only [Char.isLower, Bool.and_eq_true, decide_eq_true_eq]
      at hLower
    have hRange : 97 ≤ c.toNat ∧ c.toNat ≤ 122 := hLower
    rw [Char.toNat_ofNat, if_pos (.inl (by omega))]
    omega
  · rw [Char.toUpper_eq_of_not_isLower (by simpa using hLower)]

theorem startWith_encode
    {ds : List Char}
    (hSmall : ∀ d ∈ ds, d.toNat < 128)
    (cs : List Char) :
    startWith ds (encode cs) =
      (decide (ds.length ≤ cs.length) &&
        (cs.take ds.length).map Char.toUpper ==
          ds.map Char.toUpper) := by
  induction ds generalizing cs with
  | nil => simp [startWith]
  | cons d ds ih =>
      rw [List.forall_mem_cons] at hSmall
      cases cs with
      | nil => simp [startWith]
      | cons c cs =>
          rw [encode_cons]
          have hEncodes := encodes c
          generalize String.utf8EncodeChar c = bytes at hEncodes ⊢
          cases hEncodes with
          | single hByte =>
              rw [List.singleton_append, startWith, hByte,
                ih hSmall.2]
              simp only [List.length_cons, List.take_succ_cons,
                List.map_cons, Nat.add_le_add_iff_right]
              rw [List.cons_beq_cons, Bool.and_left_comm]
              rfl
          | several hWide hWidth hParts =>
              have hOther : ¬ c.toUpper = d.toUpper := by
                intro hSame
                have hUpper := toNat_toUpper_lt.2 hSmall.1
                rw [← hSame, toNat_toUpper_lt] at hUpper
                omega
              rw [List.cons_append, startWith,
                hParts _ List.mem_cons_self]
              simp [hOther]

theorem errorOfBytes?_encode (cs : List Char) :
    errorOfBytes? (encode cs) = errorAt? cs := by
  have hSmall :
      ∀ e : ErrorValue, ∀ d ∈ e.text.toList, d.toNat < 128 := by
    intro e d hd
    have hAll :
        e.text.toList.all (fun d => decide (d.toNat < 128)) = true := by
      cases e <;> decide
    exact of_decide_eq_true (List.all_eq_true.1 hAll d hd)
  unfold errorOfBytes? errorAt?
  congr 1
  funext e
  rw [startWith_encode (hSmall e), Text.equalIgnoringCase,
    String.toList_ofList, String.length_toList]

/- Only characters of one byte end a word. -/
theorem toNat_lt_of_isSpecial
    {c : Char}
    (hSpecial : isSpecial c = true) :
    c.toNat < 128 := by
  refine Nat.lt_of_not_le fun hWide => ?_
  have hOrdinary :=
    isSpecial_eq_false (p := fun c => decide (128 ≤ c.toNat))
      (c := c) (by decide) (by simpa using hWide)
  rw [hSpecial] at hOrdinary
  cases hOrdinary

theorem ordinary_of_wide
    {c : Char}
    (hWide : 128 ≤ c.toNat) :
    isSpecial c = false := by
  rw [← Bool.not_eq_true]
  intro hSpecial
  have := toNat_lt_of_isSpecial hSpecial
  omega

/- The digits, the dot and the letter of an exponent. -/
theorem small_of_isExponentBase
    {word : List Char}
    (hBase : isExponentBase word = true) :
    ∀ c ∈ word, c.toNat < 128 := by
  simp only [isExponentBase, Bool.and_eq_true, Bool.or_eq_true,
    beq_iff_eq, List.all_eq_true, Char.isDigit_iff_toNat] at hBase
  rcases hBase with ⟨⟨⟨hLast, -⟩, hDigits⟩, -⟩
  intro c hc
  have hLetter : ∃ d, word.getLast? = some d ∧ d.toNat < 128 := by
    rcases hLast with hLast | hLast
    · exact ⟨'e', hLast, by decide⟩
    · exact ⟨'E', hLast, by decide⟩
  rcases hLetter with ⟨d, hLetter, hSmall⟩
  have hSome := List.dropLast_append_getLast? d hLetter
  rw [← hSome, List.mem_append, List.mem_singleton] at hc
  rcases hc with hc | rfl
  · rcases hDigits c hc with hDigit | rfl
    · have : '9'.toNat = 57 := rfl
      omega
    · decide
  · exact hSmall

/- The same test on the characters that single bytes encode. -/
theorem isExponentBaseOfBytes_of_map
    {bytes : List UInt8}
    {word : List Char}
    (hSame : bytes.map ascii? = word.map some) :
    isExponentBaseOfBytes bytes = isExponentBase word := by
  have hLength : bytes.length = word.length := by
    simpa using congrArg List.length hSame
  have hLast : bytes.getLast?.bind ascii? = word.getLast? := by
    have h := congrArg List.getLast? hSame
    rw [List.getLast?_map, List.getLast?_map] at h
    cases hb : bytes.getLast? <;> cases hw : word.getLast? <;>
      simp_all
  have hAll (p : Char → Bool) :
      bytes.dropLast.all (byteIs p) = word.dropLast.all p := by
    have h := congrArg
      (fun l => l.dropLast.all fun c? => Option.any p c?) hSame
    simp only [← List.map_dropLast, List.all_map] at h
    exact h
  have hCount (p : Char → Bool) :
      bytes.countP (byteIs p) = word.countP p := by
    have h := congrArg
      (List.countP fun c? => Option.any p c?) hSame
    simp only [List.countP_map] at h
    exact h
  rw [isExponentBaseOfBytes, isExponentBase, hLength, hLast, hAll,
    hCount]
  rfl

theorem isExponentBaseOfBytes_encode (word : List Char) :
    isExponentBaseOfBytes (encode word) = isExponentBase word := by
  by_cases hSmall : ∀ c ∈ word, c.toNat < 128
  · exact isExponentBaseOfBytes_of_map (encode_of_small hSmall)
  · rw [Bool.eq_false_iff.2 fun hBase =>
      hSmall (small_of_isExponentBase hBase), Bool.eq_false_iff]
    intro hBase
    refine hSmall (small_of_encode fun b hb hNone => ?_)
    simp only [isExponentBaseOfBytes, Bool.and_eq_true,
      Bool.or_eq_true, beq_iff_eq, List.all_eq_true] at hBase
    rcases hBase with ⟨⟨⟨hLast, -⟩, hDigits⟩, -⟩
    cases hEnd : (encode word).getLast? with
    | none =>
        rw [hEnd] at hLast
        simp at hLast
    | some d =>
        rw [← List.dropLast_append_getLast? d hEnd, List.mem_append,
          List.mem_singleton] at hb
        rcases hb with hb | rfl
        · have hDigit := hDigits b hb
          rw [byteIs_of_none hNone] at hDigit
          cases hDigit
        · rw [hEnd] at hLast
          simp [hNone] at hLast

/- The first byte of a character tells whether it ends a word. -/
theorem continues_iff
    {b : UInt8}
    {c : Char}
    (hKind :
      ascii? b = some c ∨ ascii? b = none ∧ 128 ≤ c.toNat)
    (word : List Char) :
    (!byteIs isSpecial b ||
        (byteIs (fun c => c == '+' || c == '-') b &&
          isExponentBaseOfBytes (encode word))) =
      (!isSpecial c ||
        ((c == '+' || c == '-') && isExponentBase word)) := by
  rcases hKind with hByte | ⟨hNone, hWide⟩
  · rw [byteIs_of_ascii? hByte, byteIs_of_ascii? hByte,
      isExponentBaseOfBytes_encode]
  · rw [byteIs_of_none hNone, ordinary_of_wide hWide]
    rfl

theorem widthOfWord?_encode (word cs : List Char) :
    widthOfWord? (encode word) (encode cs) =
      some (byteLength (cs.take (wordLength word cs))) := by
  induction cs generalizing word with
  | nil =>
      rw [encode_nil, widthOfWord?]
      rfl
  | cons c cs ih =>
      rcases bytes_of_char c with ⟨b, parts, hChar, hWidth, hKind⟩
      have hSize := String.length_utf8EncodeChar c
      have hWord : encode (word ++ [c]) = encode word ++ b :: parts := by
        rw [encode_append, encode_cons, encode_nil, List.append_nil,
          hChar]
      rw [hChar, List.length_cons] at hSize
      rw [encode_cons, hChar, List.cons_append, widthOfWord?, hWidth,
        Option.bind_some, Nat.add_sub_cancel, List.take_left,
        List.drop_left, ← hWord, ih, wordLength,
        continues_iff (hKind.imp_left And.left)]
      split
      · rw [List.take_succ_cons, byteLength, ← hSize, Option.map_some,
          Nat.add_comm]
      · rfl

/- The bytes of a piece after the first one. -/
def bytesAfter (c : Char) (cs : List Char) (n : Nat) : Nat :=
  byteLength (c :: cs.take n) - 1

theorem wordOfBytes?_encode
    {c : Char}
    {cs : List Char}
    {b : UInt8}
    {bs : List UInt8}
    (hBytes : encode (c :: cs) = b :: bs) :
    wordOfBytes? b bs =
      some ((wordOrCall c cs).1,
        bytesAfter c cs (wordOrCall c cs).2) := by
  rcases bytes_of_char c with ⟨b', parts, hChar, hWidth, -⟩
  have hSize := String.length_utf8EncodeChar c
  have hWord : encode [c] = b' :: parts := by
    rw [encode_cons, hChar, encode_nil, List.append_nil]
  rw [hChar, List.length_cons] at hSize
  rw [encode_cons, hChar, List.cons_append] at hBytes
  rcases List.cons.inj hBytes with ⟨rfl, rfl⟩
  have hDrop :
      (parts ++ encode cs).drop
          (parts.length + byteLength (cs.take (wordLength [c] cs))) =
        encode (cs.drop (wordLength [c] cs)) := by
    rw [← List.drop_drop, List.drop_left, drop_encode]
  have hOpen :
      (encode (cs.drop (wordLength [c] cs))).head?.bind ascii? =
          some '(' ↔
        (cs.drop (wordLength [c] cs)).head? = some '(' :=
    head?_encode_eq (by decide)
  rw [wordOfBytes?, hWidth, Option.bind_some, Nat.add_sub_cancel,
    List.take_left, List.drop_left, ← hWord, widthOfWord?_encode,
    Option.map_some, hDrop, wordOrCall]
  simp only [hOpen]
  split
  · rename_i hCall
    have hNext :
        cs.take (wordLength [c] cs + 1) =
          cs.take (wordLength [c] cs) ++ ['('] := by
      rw [List.take_add_one, ← List.head?_drop, hCall]
      rfl
    rw [bytesAfter, byteLength, hNext, byteLength_append, ← hSize]
    change some (_, _) = some (_, _ + 1 + (_ + 1) - 1)
    congr 2
    omega
  · rw [bytesAfter, byteLength, ← hSize]
    dsimp only
    congr 2
    omega

theorem isDoubleSign_small
    {c d : Char}
    (hDouble : isDoubleSign c d = true) :
    d.toNat < 128 := by
  simp only [isDoubleSign, Bool.or_eq_true, Bool.and_eq_true,
    beq_iff_eq] at hDouble
  rcases hDouble with (⟨-, rfl⟩ | ⟨-, rfl⟩) | ⟨-, rfl⟩ <;> decide

theorem operatorOfBytes?_encode (c : Char) (cs : List Char) :
    operatorOfBytes? c (encode cs) = operator? c cs := by
  have hSame :
      (((encode cs).head?.bind ascii?).map
            (isDoubleSign c)).getD false =
        (cs.head?.map (isDoubleSign c)).getD false := by
    rw [head?_encode]
    cases cs with
    | nil => rfl
    | cons d cs =>
        by_cases hSmall : d.toNat < 128
        · simp [Option.filter, hSmall]
        · have hSingle : isDoubleSign c d = false :=
            Bool.eq_false_iff.2 fun h => hSmall (isDoubleSign_small h)
          simp [Option.filter, hSmall, hSingle]
  rw [operatorOfBytes?, hSame, operator?]

/- An operator consists of characters of one byte. -/
theorem operator?_bytes (c : Char) (cs : List Char) :
    byteLength (cs.take (operator? c cs).2) = (operator? c cs).2 := by
  unfold operator?
  split
  · rename_i hDouble
    cases cs with
    | nil => cases hDouble
    | cons d cs =>
        have hSmall : ∀ e ∈ [d], e.toNat < 128 := by
          simpa using isDoubleSign_small hDouble
        exact byteLength_of_small hSmall
  · split
    · rfl
    · split <;> rfl

theorem takeWhile_encode (cs : List Char) :
    ((encode cs).takeWhile (byteIs isSpace)).length =
      byteLength (cs.take (cs.takeWhile isSpace).length) := by
  induction cs with
  | nil => rfl
  | cons c cs ih =>
      rcases bytes_of_char c with ⟨b, parts, hChar, -, hKind⟩
      have hSize := String.length_utf8EncodeChar c
      rw [encode_cons, hChar, List.cons_append, List.takeWhile_cons,
        List.takeWhile_cons]
      rcases hKind with ⟨hByte, rfl⟩ | ⟨hNone, hWide⟩
      · rw [byteIs_of_ascii? hByte, List.nil_append]
        rw [hChar] at hSize
        split
        · simp [byteLength, ih, ← hSize, Nat.add_comm]
        · rfl
      · have hOrdinary : isSpace c = false :=
          (Bool.or_eq_false_iff.1 (ordinary_of_wide hWide)).1
        rw [byteIs_of_none hNone, hOrdinary]
        rfl

/- The spelling of an error takes one byte for each character. -/
theorem bytesAfter_error
    {c : Char}
    {cs : List Char}
    {e : ErrorValue}
    (hError : errorAt? (c :: cs) = some e) :
    bytesAfter c cs (e.text.length - 1) = e.text.length - 1 := by
  rcases errorAt?_eq_some hError with ⟨hLength, hText⟩
  have hPositive : 0 < e.text.length := by cases e <;> decide
  have hTake :
      c :: cs.take (e.text.length - 1) =
        (c :: cs).take e.text.length := by
    rw [List.take_cons hPositive]
  have hSmall : ∀ d ∈ (c :: cs).take e.text.length, d.toNat < 128 := by
    intro d hd
    have hUpper := List.mem_map_of_mem (f := Char.toUpper) hd
    rw [hText] at hUpper
    rw [← toNat_toUpper_lt]
    revert hUpper
    generalize d.toUpper = u
    have hAll :
        (e.text.toList.map Char.toUpper).all
            (fun d => decide (d.toNat < 128)) = true := by
      cases e <;> decide
    exact fun hu => of_decide_eq_true (List.all_eq_true.1 hAll u hu)
  rw [bytesAfter, hTake, byteLength_of_small hSmall,
    List.length_take_of_le hLength]

/- The next piece, by the bytes that encode the text. -/
theorem nextOfBytes?_encode
    {c : Char}
    {cs : List Char}
    {b : UInt8}
    {bs : List UInt8}
    (hBytes : encode (c :: cs) = b :: bs) :
    nextOfBytes? b bs =
      some ((next c cs).map fun found =>
        (found.1, bytesAfter c cs found.2)) := by
  have hWord := wordOfBytes?_encode hBytes
  have hError := errorOfBytes?_encode (c :: cs)
  rw [hBytes] at hError
  rcases bytes_of_char c with ⟨b', parts, hChar, -, hKind⟩
  have hSize := String.length_utf8EncodeChar c
  rw [hChar] at hSize
  rw [encode_cons, hChar, List.cons_append] at hBytes
  rcases List.cons.inj hBytes with ⟨rfl, rfl⟩
  rcases hKind with ⟨hByte, rfl⟩ | ⟨hNone, hWide⟩
  · have hAfter (n : Nat) :
        bytesAfter c cs n = byteLength (cs.take n) := by
      rw [bytesAfter, byteLength, ← hSize]
      exact Nat.add_sub_cancel_left ..
    rw [List.nil_append] at hWord hError ⊢
    rw [nextOfBytes?, hByte, next]
    dsimp only
    split
    · rw [endOfText?_encode]
      cases textLength? cs with
      | none => rfl
      | some n => simp [Except.map, hAfter]
    split
    · rw [hError]
      cases hFound : errorAt? (c :: cs) with
      | none => rfl
      | some e => simp [Except.map, bytesAfter_error hFound]
    split
    · simp [Except.map, hAfter, takeWhile_encode]
    iterate 5
      split
      · simp [Except.map, hAfter, byteLength]
    split
    · rw [operatorOfBytes?_encode]
      simp [Except.map, hAfter, operator?_bytes]
    · rw [hWord]
      rfl
  · rw [nextOfBytes?, hNone, hWord,
      next_of_first (.word (ordinary_of_wide hWide) rfl)]
    rfl

/- A piece is cut out by its bytes where its characters end. -/
theorem cut_bytes
    {c : Char}
    {cs : List Char}
    {b : UInt8}
    {bs : List UInt8}
    (hBytes : encode (c :: cs) = b :: bs)
    (n : Nat) :
    b :: bs.take (bytesAfter c cs n) = encode (c :: cs.take n) ∧
      bs.drop (bytesAfter c cs n) = encode (cs.drop n) ∧
      bytesAfter c cs n + 1 = byteLength (c :: cs.take n) := by
  have hStop : bytesAfter c cs n + 1 = byteLength (c :: cs.take n) := by
    have := Token.byteLength_pos (List.cons_ne_nil c (cs.take n))
    rw [bytesAfter]
    omega
  have hTake := take_encode (c :: cs) (n + 1)
  have hDrop := drop_encode (c :: cs) (n + 1)
  rw [hBytes, List.take_succ_cons, ← hStop] at hTake hDrop
  exact ⟨hTake, hDrop, hStop⟩

end Lexeme

------------------------------------------------------------
-- Tokens Of Encoded Formulas
------------------------------------------------------------

namespace Token

open Text

/- By induction on the text, as it is read. -/
theorem scanBytes?_encode
    (ctx : LexContext)
    (offset : Nat)
    (cs : List Char) :
    scanBytes? ctx offset (encode cs) = some (scan ctx offset cs) := by
  induction ctx, offset, cs using scan.induct with
  | case1 ctx offset =>
      rw [encode_nil, scanBytes?, scan]
  | case2 ctx offset c cs hNext =>
      rcases exists_bytes c cs with ⟨b, bs, hBytes⟩
      have hLength := length_encode (c :: cs)
      rw [hBytes] at hLength ⊢
      rw [scanBytes?, Lexeme.nextOfBytes?_encode hBytes, hNext, scan]
      simp only [hNext, hLength]
      rfl
  | case3 ctx offset c cs fault hOther hNext =>
      rcases exists_bytes c cs with ⟨b, bs, hBytes⟩
      rw [hBytes, scanBytes?, Lexeme.nextOfBytes?_encode hBytes, hNext,
        scan]
      simp only [hNext]
      cases fault with
      | unterminatedText => exact absurd rfl hOther
      | _ => rfl
  | case4 ctx offset c cs lexeme n hNext chars fault hKind =>
      rcases exists_bytes c cs with ⟨b, bs, hBytes⟩
      rcases Lexeme.cut_bytes hBytes n with ⟨hTake, hDrop, hStop⟩
      rw [hBytes, scanBytes?, Lexeme.nextOfBytes?_encode hBytes, hNext,
        scan]
      simp only [hNext, Except.map, Option.bind_some, hTake,
        decode?_encode]
      rw [hKind]
  | case5 ctx offset c cs lexeme n hNext chars kind opened hKind t ih =>
      rcases exists_bytes c cs with ⟨b, bs, hBytes⟩
      rcases Lexeme.cut_bytes hBytes n with ⟨hTake, hDrop, hStop⟩
      rw [hBytes, scanBytes?, Lexeme.nextOfBytes?_encode hBytes, hNext,
        scan]
      simp only [hNext, Except.map, Option.bind_some, hTake, hDrop,
        hStop, decode?_encode]
      rw [hKind]
      change (scanBytes? (ctx.after t opened) t.stop
        (encode (cs.drop n))).map _ = _
      rw [ih]
      rfl

end Token

end Spreadsheet
