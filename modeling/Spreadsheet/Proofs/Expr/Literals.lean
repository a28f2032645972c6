import Spreadsheet.Expr.Printer
import Spreadsheet.Proofs.Decimal.Signs
import Spreadsheet.Proofs.Expr.Grammar
import Spreadsheet.Proofs.Reference.Names
import Spreadsheet.Proofs.ScalarArray
import Spreadsheet.Proofs.Token.Spelling

/-
  The canonical texts of constants, arrays and references are
  spelled by segments that are read as these.

  A number is read back as an equal number if its spelling is
  digits and points, after a minus sign if it is negative, and
  reads back as an equal number. An array keeps the signs of
  its elements apart from their digits.

  Main declarations:
    * `Decimal.PrintsBack`
    * `Scalar.exists_segment`
    * `Parse.Rows.respell`
    * `ScalarArray.respell`
    * `Reference.exists_segment`
-/

namespace Spreadsheet

------------------------------------------------------------
-- Decimals
------------------------------------------------------------

namespace Decimal

/- A decimal starts with a digit or a point. -/
theorem Literal.ofChars?_cons
    {c : Char}
    (hDigit : c.isDigit = false)
    (hPoint : c ≠ '.')
    (cs : List Char) :
    Literal.ofChars? (c :: cs) = none := by
  have hFraction : splitFraction (c :: cs) = ([], c :: cs) := by
    unfold splitFraction
    split
    · rename_i hEq
      exact absurd (List.cons.inj hEq).1 hPoint
    · rfl
  simp [Literal.ofChars?, hDigit, hFraction]

/- Nothing but a point or an exponent follows the digits. -/
theorem Literal.ofChars?_colon
    {digits : List Char}
    (hDigits : ∀ c ∈ digits, c.isDigit = true)
    (cs : List Char) :
    Literal.ofChars? (digits ++ ':' :: cs) = none := by
  have hColon : (':' : Char).isDigit = false := by decide
  simp [Literal.ofChars?, List.takeWhile_append_of_pos hDigits,
    List.dropWhile_append_of_pos hDigits, hColon, splitFraction,
    readExponent?]

/- Digits and points are no sign. -/
theorem splitSign_digits
    {cs : List Char}
    (hHead : ∀ c, cs.head? = some c → c.isDigit = true ∨ c = '.') :
    splitSign cs = (false, cs) := by
  unfold splitSign
  split
  · rcases hHead _ rfl with h | h <;> cases h
  · rcases hHead _ rfl with h | h <;> cases h
  · rfl

/- A decimal has no sign. -/
theorem splitSign_literal
    {cs : List Char}
    (hLiteral : (Literal.ofChars? cs).isSome = true) :
    splitSign cs = (false, cs) := by
  refine splitSign_digits ?_
  intro c hHead
  cases cs with
  | nil => cases hHead
  | cons d cs =>
      cases hHead
      by_contra hOther
      rw [not_or, Bool.not_eq_true] at hOther
      rw [Literal.ofChars?_cons hOther.1 hOther.2] at hLiteral
      cases hLiteral

end Decimal

------------------------------------------------------------
-- Words
------------------------------------------------------------

namespace Lexeme

theorem toUpper_of_isDigit
    {c : Char}
    (hc : c.isDigit = true) :
    c.toUpper = c := by
  unfold Char.toUpper
  rw [dif_neg]
  simp only [Char.isDigit, ge_iff_le, Bool.and_eq_true,
    decide_eq_true_eq, UInt32.le_iff_toNat_le] at hc ⊢
  simp at hc ⊢
  omega

/- A text with such a character is no logical value. -/
theorem not_logical
    {cs : List Char}
    {c : Char}
    (hc : c ∈ cs)
    (hOther : c.isDigit = true ∨ c = ':' ∨ c = '.')
    {text : String}
    (hText : text = "TRUE" ∨ text = "FALSE") :
    Text.equalIgnoringCase (String.ofList cs) text = false := by
  have hUpper : c.toUpper ∉ text.toList.map Char.toUpper := by
    rcases hOther with hDigit | rfl | rfl
    · rw [toUpper_of_isDigit hDigit]
      intro hMem
      have hLetters :
          (text.toList.map Char.toUpper).any Char.isDigit = false := by
        rcases hText with rfl | rfl <;> decide
      exact List.any_eq_false.mp hLetters c hMem hDigit
    · rcases hText with rfl | rfl <;> decide
    · rcases hText with rfl | rfl <;> decide
  rw [Bool.eq_false_iff]
  intro hSame
  simp only [Text.equalIgnoringCase, String.toList_ofList,
    beq_iff_eq] at hSame
  rw [← hSame] at hUpper
  exact hUpper (List.mem_map_of_mem hc)

/- A word that is read as a number is a decimal. -/
theorem isSome_of_wordKind
    {cs : List Char}
    (hKind : wordKind cs = .number) :
    (Decimal.Literal.ofChars? cs).isSome = true := by
  unfold wordKind at hKind
  (repeat' split at hKind) <;> first | assumption | cases hKind

end Lexeme

------------------------------------------------------------
-- Quoted Texts
------------------------------------------------------------

/- Double the quotes of a text. -/
def doubleQuotes (cs : List Char) : List Char :=
  cs.flatMap fun c => if c = '"' then ['"', '"'] else [c]

theorem Scalar.quoted_eq (cs : List Char) :
    quoted cs = '"' :: (doubleQuotes cs ++ ['"']) := rfl

theorem Parse.undoubleQuotes_doubleQuotes (cs : List Char) :
    undoubleQuotes (doubleQuotes cs) = cs := by
  induction cs with
  | nil => rfl
  | cons c cs ih =>
      unfold doubleQuotes at ih ⊢
      by_cases hQuote : c = '"'
      · simp [hQuote, undoubleQuotes, ih]
      · simp [hQuote, undoubleQuotes, ih]

theorem Parse.textOfQuoted_quoted (cs : List Char) :
    textOfQuoted (Scalar.quoted cs) = cs := by
  rw [Scalar.quoted_eq, textOfQuoted]
  simp [undoubleQuotes_doubleQuotes]

/- The end of a text is its single quote. -/
theorem Lexeme.textLength?_doubleQuotes (cs : List Char) :
    textLength? (doubleQuotes cs ++ ['"']) =
      some (doubleQuotes cs ++ ['"']).length := by
  induction cs with
  | nil => rfl
  | cons c cs ih =>
      unfold doubleQuotes at ih ⊢
      by_cases hQuote : c = '"'
      · simp [hQuote, textLength?, ih]
      · simp [hQuote, textLength?_other hQuote, ih]

theorem Lexeme.starts_quoted (cs : List Char) :
    Starts .text (Scalar.quoted cs) [] := by
  refine ⟨'"', doubleQuotes cs ++ ['"'], Scalar.quoted_eq cs, ?_⟩
  rw [List.append_nil]
  exact next_of_first (.text rfl (textLength?_doubleQuotes cs))


------------------------------------------------------------
-- Numbers
------------------------------------------------------------

namespace Decimal

/-
  A number is spelled as digits and points, after a minus sign
  if it is negative, and the spelling reads back as an equal
  number.
-/
structure PrintsBack (x : Float) : Prop where
  digits :
    ∃ cs,
      (numberText x).toList = (if x < 0 then '-' :: cs else cs) ∧
        ∀ c ∈ cs, c.isDigit = true ∨ c = '.'
  value :
    ∃ y,
      readFloat? (numberText x).toList = some y ∧ (x == y) = true

/- Digits are a word that is a number. -/
theorem wordKind_digits
    {cs : List Char}
    (hDigits : ∀ c ∈ cs, c.isDigit = true ∨ c = '.')
    (hLiteral : (Literal.ofChars? cs).isSome = true) :
    cs ≠ [] ∧ Lexeme.wordKind cs = .number := by
  cases cs with
  | nil => cases hLiteral
  | cons c cs =>
      have hOther :
          c.isDigit = true ∨ c = ':' ∨ c = '.' :=
        (hDigits c List.mem_cons_self).imp id .inr
      refine ⟨List.cons_ne_nil c cs, ?_⟩
      unfold Lexeme.wordKind
      rw [Lexeme.not_logical List.mem_cons_self hOther (.inl rfl),
        Lexeme.not_logical List.mem_cons_self hOther (.inr rfl),
        hLiteral]
      rfl

/- The digits of a number are a segment that is read as it. -/
theorem exists_digits
    {cs gap : List Char}
    {l : Literal}
    (hDigits : ∀ c ∈ cs, c.isDigit = true ∨ c = '.')
    (hLiteral : Literal.ofChars? cs = some l)
    (hFinite : l.toFloat.isFinite = true)
    (hGap : Segment.Spaced gap) :
    ∃ u : Segment,
      Segment.Spells gap cs [u] ∧ u.kind = .operand .number ∧
        Parse.scalarOf? .number u.chars = some (.number l.toFloat) := by
  have hSome : (Literal.ofChars? cs).isSome = true := by
    rw [hLiteral]
    rfl
  rcases wordKind_digits hDigits hSome with ⟨hNotNil, hKind⟩
  have hOrdinary : ∀ c ∈ cs, Lexeme.isSpecial c = false := by
    intro c hc
    rcases hDigits c hc with hDigit | rfl
    · exact Lexeme.isSpecial_of_isDigit hDigit
    · decide
  have hRead : readFloat? cs = some l.toFloat := by
    unfold readFloat?
    rw [splitSign_literal hSome]
    simp [hLiteral]
  refine ⟨_, ⟨Segment.free_word hGap hNotNil hOrdinary, ?_⟩, ?_, ?_⟩
  · simp [Segment.text]
  · dsimp only
    rw [hKind]
  · simp [Parse.scalarOf?, hRead, Option.filter, hFinite]

/- The digits of a number are those of a decimal. -/
theorem PrintsBack.exists_literal
    {x : Float}
    (hPrints : PrintsBack x) :
    ∃ cs l,
      (numberText x).toList = (if x < 0 then '-' :: cs else cs) ∧
        (∀ c ∈ cs, c.isDigit = true ∨ c = '.') ∧
          Literal.ofChars? cs = some l ∧
            (x == if x < 0 then -l.toFloat else l.toFloat) = true := by
  rcases hPrints with ⟨⟨cs, hText, hDigits⟩, y, hRead, hSame⟩
  rw [hText] at hRead
  by_cases hNegative : x < 0
  · rw [if_pos hNegative] at hRead
    have hMinus :
        readFloat? ('-' :: cs) =
          (Literal.ofChars? cs).map fun l => -l.toFloat := rfl
    rw [hMinus, Option.map_eq_some_iff] at hRead
    rcases hRead with ⟨l, hLiteral, rfl⟩
    refine ⟨cs, l, hText, hDigits, hLiteral, ?_⟩
    rw [if_pos hNegative]
    exact hSame
  · rw [if_neg hNegative] at hRead
    unfold readFloat? at hRead
    rw [splitSign_digits fun c hHead =>
      hDigits c (List.mem_of_mem_head? hHead)] at hRead
    simp only [Bool.false_eq_true, if_false,
      Option.map_eq_some_iff] at hRead
    rcases hRead with ⟨l, hLiteral, rfl⟩
    refine ⟨cs, l, hText, hDigits, hLiteral, ?_⟩
    rw [if_neg hNegative]
    exact hSame

end Decimal

------------------------------------------------------------
-- Constants
------------------------------------------------------------

namespace Scalar

/- The constant prints back if it is a finite number. -/
def PrintsBack (v : Scalar) : Prop :=
  ∀ x, v = .number x → x.isFinite = true → Decimal.PrintsBack x

/- A number of the sheet is finite, and no element is blank. -/
structure Plain (v : Scalar) : Prop where
  filled : v ≠ .blank
  finite : ∀ x, v = .number x → x.isFinite = true

theorem starts_error (e : ErrorValue) :
    (Lexeme.error e).Starts e.text.toList [] := by
  cases e <;> exact ⟨_, _, rfl, rfl⟩

/-
  A constant that is no negative number is a segment that is
  read as an equal constant.
-/
theorem exists_segment
    {v : Scalar}
    (hPlain : v.Plain)
    (hPrints : v.PrintsBack)
    (hSign : ∀ x, v = .number x → ¬ x < 0)
    {gap : List Char}
    (hGap : Segment.Spaced gap) :
    ∃ u kind w,
      Segment.Spells gap v.source [u] ∧ u.kind = .operand kind ∧
        Parse.scalarOf? kind u.chars = some w ∧ v.same w = true := by
  cases v with
  | blank => exact absurd rfl hPlain.filled
  | number x =>
      have hFinite := hPlain.finite x rfl
      rcases (hPrints x rfl hFinite).exists_literal with
        ⟨cs, l, hText, hDigits, hLiteral, hSame⟩
      rw [if_neg (hSign x rfl)] at hText hSame
      rcases Decimal.exists_digits hDigits hLiteral
          (Decimal.isFinite_of_beq hSame hFinite) hGap with
        ⟨u, hSpells, hKind, hValue⟩
      rw [← hText] at hSpells
      exact ⟨u, .number, _, hSpells, hKind, hValue, hSame⟩
  | bool b =>
      have hOrdinary :
          ∀ c ∈ (boolText b).toList, Lexeme.isSpecial c = false := by
        cases b <;> simp [boolText, Lexeme.isSpecial, Lexeme.isSpace]
      have hSome : (boolText b).toList ≠ [] := by
        cases b <;> decide
      have hKind :
          Lexeme.wordKind (boolText b).toList = .logical b := by
        cases b <;> decide
      have hFree := Segment.free_word hGap hSome hOrdinary
      rw [hKind] at hFree
      exact ⟨_, .logical b, .bool b, ⟨hFree, List.append_nil _⟩, rfl,
        rfl, by simp [same]⟩
  | text s =>
      have hFree :=
        Segment.free_of_starts hGap .text (by decide)
          (Lexeme.starts_quoted s.toList)
      refine ⟨_, .text, .text s, ⟨hFree, List.append_nil _⟩, rfl, ?_,
        by simp [same]⟩
      simp [Parse.scalarOf?, Parse.textOfQuoted_quoted]
  | error e =>
      have hFree :=
        Segment.free_of_starts hGap (.error e) (by simp)
          (starts_error e)
      exact ⟨_, .error e, .error e, ⟨hFree, List.append_nil _⟩, rfl,
        rfl, by simp [same]⟩

end Scalar

------------------------------------------------------------
-- What Is Read As A Constant
------------------------------------------------------------

/- A number in a formula is a decimal. -/
theorem Segment.Genuine.isSome_of_number
    {u : Segment}
    (hGenuine : u.Genuine)
    (hKind : u.kind = .operand .number) :
    (Decimal.Literal.ofChars? u.chars).isSome = true := by
  have hSuits := hGenuine.suits
  rw [hKind] at hSuits
  generalize u.lexeme = lexeme at hSuits
  generalize hNumber : TokenKind.operand .number = kind at hSuits
  cases hSuits with
  | word =>
      rw [TokenKind.operand.injEq] at hNumber
      exact Lexeme.isSome_of_wordKind hNumber.symm
  | _ => cases hNumber

namespace Parse

/- A token spells a constant that is no negative number. -/
theorem plain_of_scalarOf?
    {u : Segment}
    {kind : OperandKind}
    {v : Scalar}
    (hGenuine : u.Genuine)
    (hKind : u.kind = .operand kind)
    (hValue : scalarOf? kind u.chars = some v) :
    v.Plain ∧ ∀ x, v = .number x → ¬ x < 0 := by
  cases kind with
  | text | logical | error =>
      cases hValue
      exact ⟨⟨nofun, nofun⟩, nofun⟩
  | range => cases hValue
  | number =>
      have hLiteral := hGenuine.isSome_of_number hKind
      rcases Option.map_eq_some_iff.mp hValue with ⟨x, hRead, rfl⟩
      rw [Option.filter_eq_some_iff] at hRead
      rcases hRead with ⟨hRead, hFinite⟩
      unfold Decimal.readFloat? at hRead
      rw [Decimal.splitSign_literal hLiteral] at hRead
      simp only [Bool.false_eq_true, if_false,
        Option.map_eq_some_iff] at hRead
      rcases hRead with ⟨l, -, rfl⟩
      refine ⟨⟨nofun, ?_⟩, ?_⟩ <;> rintro x ⟨⟩
      · exact hFinite
      · exact l.not_toFloat_lt_zero

theorem plain_of_signed?
    {negative : Bool}
    {v w : Scalar}
    (hPlain : v.Plain)
    (hSigned : signed? negative v = some w) :
    w.Plain := by
  cases negative with
  | false =>
      cases hSigned
      exact hPlain
  | true =>
      cases v with
      | number x =>
          cases hSigned
          refine ⟨nofun, ?_⟩
          rintro y ⟨⟩
          exact Decimal.isFinite_neg (hPlain.finite x rfl)
      | _ => cases hSigned

theorem Element.plain
    {negative : Bool}
    {us : List Segment}
    {v : Scalar}
    (hElement : Element negative us v)
    (hGenuine : ∀ u ∈ us, u.Genuine) :
    v.Plain := by
  induction hElement with
  | constant hKind hValue hSigned =>
      have hFirst := hGenuine _ List.mem_cons_self
      exact
        plain_of_signed? (plain_of_scalarOf? hFirst hKind hValue).1
          hSigned
  | sign hKind hRest ih =>
      exact ih fun u hu => hGenuine u (List.mem_cons_of_mem _ hu)

theorem Rows.plain
    {us : List Segment}
    {rows : List (List Scalar)}
    (hRows : Rows us rows)
    (hGenuine : ∀ u ∈ us, u.Genuine) :
    ∀ v ∈ rows.flatten, v.Plain := by
  induction hRows with
  | single hElement => simpa using hElement.plain hGenuine
  | across hElement hKind hRest ih | down hElement hKind hRest ih =>
      simp only [List.mem_append, List.mem_cons] at hGenuine
      have hFirst := hElement.plain fun u hu => hGenuine u (.inl hu)
      have hOthers := ih fun u hu => hGenuine u (.inr (.inr hu))
      simp only [List.flatten_cons, List.cons_append, List.nil_append,
        List.mem_cons, forall_eq_or_imp] at hOthers ⊢
      exact ⟨hFirst, hOthers⟩

/- Each row has an element. -/
theorem Rows.ne_nil
    {us : List Segment}
    {row : List Scalar}
    {rows : List (List Scalar)}
    (hRows : Rows us (row :: rows)) :
    row ≠ [] := by
  cases hRows <;> exact List.cons_ne_nil _ _

end Parse

------------------------------------------------------------
-- Arrays
------------------------------------------------------------

/- An element of an array is spelled with its sign. -/
theorem Scalar.exists_element
    {v : Scalar}
    (hPlain : v.Plain)
    (hPrints : v.PrintsBack) :
    ∃ us w,
      Segment.Spells [] v.source us ∧ Parse.Element false us w ∧
        v.same w = true := by
  by_cases hNegative : ∃ x, v = .number x ∧ x < 0
  · rcases hNegative with ⟨x, rfl, hLess⟩
    have hFinite := hPlain.finite x rfl
    rcases (hPrints x rfl hFinite).exists_literal with
      ⟨cs, l, hText, hDigits, hLiteral, hSame⟩
    rw [if_pos hLess] at hText hSame
    have hFinite' : l.toFloat.isFinite = true :=
      Decimal.isFinite_of_isFinite_neg
        (Decimal.isFinite_of_beq hSame hFinite)
    rcases Decimal.exists_digits hDigits hLiteral hFinite' (.inl rfl)
      with ⟨u, hSpells, hKind, hValue⟩
    have hSource : (Scalar.number x).source = '-' :: cs := hText
    refine
      ⟨⟨[], .sign, ['-'], .prefixOp⟩ :: [u], .number (-l.toFloat),
        ⟨(Segment.loose_minus (.inl rfl)).cons hSpells.free, ?_⟩,
        .sign rfl (.constant hKind hValue rfl), hSame⟩
    rw [Segment.render_cons, hSpells.text, hSource]
    rfl
  · have hSign : ∀ x, v = .number x → ¬ x < 0 :=
      fun x hNumber hLess => hNegative ⟨x, hNumber, hLess⟩
    rcases exists_segment hPlain hPrints hSign (.inl rfl) with
      ⟨u, kind, w, hSpells, hKind, hValue, hSame⟩
    exact ⟨[u], w, hSpells, .constant hKind hValue rfl, hSame⟩

/- Put a separator between two texts without blanks. -/
theorem Segment.Spells.separate
    {cs ds : List Char}
    {us vs : List Segment}
    {c : Char}
    {lexeme : Lexeme}
    {kind : TokenKind}
    (hFirst : Spells [] cs us)
    (hLoose : Loose ⟨[], lexeme, [c], kind⟩)
    (hDelimiter : Lexeme.isDelimiter c = true)
    (hSecond : Spells [] ds vs) :
    Spells [] (cs ++ c :: ds)
      (us ++ ⟨[], lexeme, [c], kind⟩ :: vs) := by
  refine ⟨hFirst.free.append_loose hLoose ?_ hSecond.free, ?_⟩
  · rintro following d hHead
    cases hHead
    exact hDelimiter
  · rw [render_append, hFirst.text, render_cons, hSecond.text]
    rfl

namespace Parse

/- Rows are spelled so that they are read as equal rows. -/
theorem Rows.respell
    {us : List Segment}
    {rows : List (List Scalar)}
    (hRows : Rows us rows)
    (hPlain : ∀ v ∈ rows.flatten, v.Plain)
    (hPrints : ∀ v ∈ rows.flatten, v.PrintsBack) :
    ∃ us' rows',
      Segment.Spells [] (ScalarArray.rowsSource rows) us' ∧
        Rows us' rows' ∧
          List.Forall₂ (List.Forall₂ fun v w => v.same w = true) rows
            rows' := by
  induction hRows with
  | @single us v hElement =>
      rcases
          Scalar.exists_element (hPlain v (by simp))
            (hPrints v (by simp)) with
        ⟨us', w, hSpells, hElement', hSame⟩
      exact ⟨us', [[w]], hSpells, .single hElement',
        .cons (.cons hSame .nil) .nil⟩
  | @across us vs u v row rows hElement hKind hRest ih =>
      simp only [List.flatten_cons, List.cons_append, List.mem_cons,
        forall_eq_or_imp] at hPlain hPrints
      rcases Scalar.exists_element hPlain.1 hPrints.1 with
        ⟨us', w, hSpells, hElement', hSame⟩
      rcases ih hPlain.2 hPrints.2 with
        ⟨vs', rows', hSpells', hRows', hSames⟩
      cases hSames with
      | cons hRow hSames =>
          rw [ScalarArray.rowsSource_across hRest.ne_nil]
          exact
            ⟨_, _,
              hSpells.separate
                (Segment.loose_alone (.inl rfl) .separator (by decide))
                rfl hSpells',
              .across hElement' rfl hRows',
              .cons (.cons hSame hRow) hSames⟩
  | @down us vs u v rows hElement hKind hRest ih =>
      simp only [List.flatten_cons, List.cons_append, List.nil_append,
        List.mem_cons, forall_eq_or_imp] at hPlain hPrints
      rcases Scalar.exists_element hPlain.1 hPrints.1 with
        ⟨us', w, hSpells, hElement', hSame⟩
      rcases ih hPlain.2 hPrints.2 with
        ⟨vs', rows', hSpells', hRows', hSames⟩
      have hSome : rows ≠ [] := by
        rcases hRest.eq_cons with ⟨row, rows, rfl⟩
        exact List.cons_ne_nil row rows
      rw [ScalarArray.rowsSource_down hSome]
      exact
        ⟨_, _,
          hSpells.separate
            (Segment.loose_alone (.inl rfl) .semicolon (by decide)) rfl
            hSpells',
          .down hElement' rfl hRows', .cons (.cons hSame .nil) hSames⟩

end Parse

/- An array is spelled so that it is read as an equal array. -/
theorem ScalarArray.respell
    {us : List Segment}
    {rows : List (List Scalar)}
    {a : ScalarArray}
    {gap : List Char}
    (hRows : Parse.Rows us rows)
    (hArray : ofRows? rows = some a)
    (hGenuine : ∀ u ∈ us, u.Genuine)
    (hPrints : ∀ v ∈ a.data.toList, v.PrintsBack)
    (hGap : Segment.Spaced gap) :
    ∃ u us' w rows' b,
      Segment.Spells gap a.source (u :: us' ++ [w]) ∧
        u.kind = .opening .array ∧ Parse.Rows us' rows' ∧
          ofRows? rows' = some b ∧ w.kind = .closing .array ∧
            a.Same b := by
  rcases ofRows?_eq_some hArray with ⟨width, -, -, hData⟩
  rw [hData] at hPrints
  rcases hRows.respell (hRows.plain hGenuine) hPrints with
    ⟨us', rows', hSpells, hRows', hSames⟩
  rcases exists_same hArray hSames with ⟨b, hArray', hSame⟩
  have hOpen :
      Segment.Loose
        ⟨gap, .open .array, ['\x7b'], .opening .array⟩ :=
    Segment.loose_alone hGap (.opening .array) (by decide)
  have hWhole := Segment.spells_enclosed .array hOpen hSpells.before
  rw [← rows_of_ofRows? hArray] at hWhole
  exact ⟨_, us', _, rows', b, hWhole, rfl, hRows', hArray', rfl, hSame⟩

------------------------------------------------------------
-- References
------------------------------------------------------------

namespace Reference

theorem isSpecial_of_mem_coordSource
    {axis : Axis}
    {anchor : Point}
    {c : Coord}
    {d : Char}
    (hd : d ∈ coordSource axis anchor c) :
    Lexeme.isSpecial d = false := by
  rcases eq_or_isNameChar_of_mem hd with rfl | hName
  · decide
  · cases axis with
    | columns => exact Lexeme.isSpecial_of_isAlpha hName
    | rows => exact Lexeme.isSpecial_of_isDigit hName

theorem isSpecial_of_mem_source
    {r : Reference}
    {anchor : Point}
    (hSheet : r.onSheet anchor = true)
    {d : Char}
    (hd : d ∈ r.source anchor) :
    Lexeme.isSpecial d = false := by
  unfold source at hd
  rw [if_pos hSheet] at hd
  cases r with
  | illegal => cases hSheet
  | cell x y =>
      simp only [cellSource, List.mem_append] at hd
      rcases hd with hd | hd <;>
        exact isSpecial_of_mem_coordSource hd
  | area x y =>
      simp only [cellSource, List.mem_append, List.mem_cons] at hd
      rcases hd with (hd | hd) | rfl | hd | hd
      · exact isSpecial_of_mem_coordSource hd
      · exact isSpecial_of_mem_coordSource hd
      · decide
      · exact isSpecial_of_mem_coordSource hd
      · exact isSpecial_of_mem_coordSource hd
  | band axis s =>
      simp only [List.mem_append, List.mem_cons] at hd
      rcases hd with hd | rfl | hd
      · exact isSpecial_of_mem_coordSource hd
      · decide
      · exact isSpecial_of_mem_coordSource hd

/- A reference's name has a digit or a colon. -/
theorem exists_mem_source
    {r : Reference}
    {anchor : Point}
    (hSheet : r.onSheet anchor = true) :
    ∃ d ∈ r.source anchor, d.isDigit = true ∨ d = ':' := by
  unfold source
  rw [if_pos hSheet]
  cases r with
  | illegal => cases hSheet
  | cell x y =>
      dsimp only
      cases hRow : Address.indexName .rows (y.index anchor.y) with
      | nil => exact absurd hRow (Address.indexName_ne_nil _ _)
      | cons d ds =>
          have hName : d ∈ Address.indexName .rows (y.index anchor.y) :=
            by simp [hRow]
          refine ⟨d, ?_, .inl (Address.isDigit_of_mem_toDigits hName)⟩
          simp only [cellSource, coordSource, List.mem_append]
          exact .inr (.inr hName)
  | area x y => exact ⟨':', by simp, .inr rfl⟩
  | band axis s => exact ⟨':', by simp, .inr rfl⟩

/- A column is no number, whatever follows it. -/
theorem ofChars?_column
    {anchor : Point}
    {c : Coord}
    (cs : List Char) :
    Decimal.Literal.ofChars? (coordSource .columns anchor c ++ cs) =
      none := by
  cases hName : coordSource .columns anchor c with
  | nil =>
      exact absurd (List.append_eq_nil_iff.mp hName).2
        (Address.indexName_ne_nil _ _)
  | cons d ds =>
      have hd : d ∈ coordSource .columns anchor c := by simp [hName]
      have hOther : d.isDigit = false ∧ d ≠ '.' := by
        rcases eq_or_isNameChar_of_mem hd with rfl | hLetter
        · decide
        · refine ⟨?_, ?_⟩
          · rw [Bool.eq_false_iff]
            intro hDigit
            have hNoLetter := isNameChar_other hDigit
            rw [hLetter] at hNoLetter
            cases hNoLetter
          · rintro rfl
            cases hLetter
      rw [List.cons_append,
        Decimal.Literal.ofChars?_cons hOther.1 hOther.2]

/- A row before a colon is no number. -/
theorem ofChars?_row
    {anchor : Point}
    {c : Coord}
    (cs : List Char) :
    Decimal.Literal.ofChars?
        (coordSource .rows anchor c ++ ':' :: cs) =
      none := by
  unfold coordSource
  cases c.isAbsolute with
  | true => exact Decimal.Literal.ofChars?_cons rfl (by decide) _
  | false =>
      have hDigits :
          ∀ d ∈ Address.indexName .rows (c.index anchor.y),
            d.isDigit = true :=
        fun d hd => Address.isDigit_of_mem_toDigits hd
      exact Decimal.Literal.ofChars?_colon hDigits cs

/- A reference's name is no number. -/
theorem ofChars?_source
    {r : Reference}
    {anchor : Point}
    (hSheet : r.onSheet anchor = true) :
    Decimal.Literal.ofChars? (r.source anchor) = none := by
  unfold source
  rw [if_pos hSheet]
  cases r with
  | illegal => cases hSheet
  | cell x y => exact ofChars?_column _
  | area x y =>
      dsimp only
      rw [cellSource, List.append_assoc]
      exact ofChars?_column _
  | band axis s =>
      cases axis with
      | columns => exact ofChars?_column _
      | rows => exact ofChars?_row _

/- A reference on the sheet is a segment that is read as it. -/
theorem exists_segment
    {r : Reference}
    {anchor : Point}
    (hSheet : r.onSheet anchor = true)
    {gap : List Char}
    (hGap : Segment.Spaced gap) :
    ∃ u,
      Segment.Spells gap (r.source anchor) [u] ∧
        u.kind = .operand .range ∧ read? u.chars anchor = some r := by
  rcases exists_mem_source hSheet with ⟨d, hd, hOther⟩
  have hOther' : d.isDigit = true ∨ d = ':' ∨ d = '.' :=
    hOther.imp id .inl
  have hKind : Lexeme.wordKind (r.source anchor) = .range := by
    unfold Lexeme.wordKind
    rw [Lexeme.not_logical hd hOther' (.inl rfl),
      Lexeme.not_logical hd hOther' (.inr rfl),
      ofChars?_source hSheet]
    rfl
  have hFree :=
    Segment.free_word hGap (List.ne_nil_of_mem hd)
      fun c hc => isSpecial_of_mem_source hSheet hc
  rw [hKind] at hFree
  exact ⟨_, ⟨hFree, List.append_nil _⟩, rfl, read?_source hSheet⟩

end Reference

end Spreadsheet
