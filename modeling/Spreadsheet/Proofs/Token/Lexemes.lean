import Spreadsheet.Token.Lexer

/-
  Where the lexemes of a formula end.

  The first character of a text decides by which rule its
  first lexeme is read. Where the lexeme ends depends on the
  next character only, and a character that ends every lexeme
  may take its place.

  Main declarations:
    * `Lexeme.Starts`
    * `Lexeme.First`
    * `Lexeme.next_eq_ok`
    * `Lexeme.Starts.change`
-/

namespace Spreadsheet

------------------------------------------------------------
-- Where Lexemes End
------------------------------------------------------------

namespace Lexeme

/- The characters that end every piece before them. -/
def isDelimiter (c : Char) : Bool :=
  [' ', ')', ',', ';', '\x7d', '%'].contains c

/- What follows starts with a delimiter, if anything follows. -/
def Delimited (following : List Char) : Prop :=
  ∀ c, following.head? = some c → isDelimiter c = true

/- A text, followed by another one, is a lexeme. -/
def Starts
    (lexeme : Lexeme)
    (chars following : List Char) : Prop :=
  ∃ c cs,
    chars = c :: cs ∧
      next c (cs ++ following) = .ok (lexeme, cs.length)

/-
  One text may follow where another one does: they start with
  the same character, or the first one with a delimiter.
-/
def Replaces (following former : List Char) : Prop :=
  following.head? = former.head? ∨ Delimited following

theorem Replaces.prepend
    (cs : List Char)
    {following former : List Char}
    (hReplaces : Replaces following former) :
    Replaces (cs ++ following) (cs ++ former) := by
  cases cs with
  | nil => exact hReplaces
  | cons c cs => exact .inl rfl

/- A character that ends no piece does not come to follow. -/
theorem Replaces.head?_ne
    {following former : List Char}
    {c : Char}
    (hReplaces : Replaces following former)
    (hFormer : former.head? ≠ some c)
    (hOther : isDelimiter c = false) :
    following.head? ≠ some c := by
  intro hHead
  rcases hReplaces with hSame | hDelimited
  · exact hFormer (hSame ▸ hHead)
  · rw [hDelimited c hHead] at hOther
    cases hOther

------------------------------------------------------------
-- Texts
------------------------------------------------------------

theorem textLength?_quote
    {cs : List Char}
    (hSingle : cs.head? ≠ some '"') :
    textLength? ('"' :: cs) = some 1 := by
  cases cs with
  | nil => rfl
  | cons c cs =>
      have hNe : c ≠ '"' := by simpa using hSingle
      rw [textLength?]
      intro cs' hEq
      exact hNe (List.cons.inj hEq).1

theorem textLength?_other
    {c : Char}
    (hNe : c ≠ '"')
    (cs : List Char) :
    textLength? (c :: cs) = (textLength? cs).map (· + 1) := by
  rw [textLength?]
  all_goals simp [hNe]

/- A text has a closing quote. -/
theorem textLength?_ne_zero (cs : List Char) :
    textLength? cs ≠ some 0 := by
  fun_cases textLength? cs <;> simp

theorem textLength?_le
    {cs : List Char}
    {n : Nat}
    (hLength : textLength? cs = some n) :
    n ≤ cs.length := by
  fun_induction textLength? cs generalizing n with
  | case1 => cases hLength
  | case2 cs ih =>
      rcases Option.map_eq_some_iff.mp hLength with ⟨m, hRest, rfl⟩
      have := ih hRest
      simp only [List.length_cons]
      omega
  | case3 cs =>
      cases hLength
      simp
  | case4 c cs _ _ ih =>
      rcases Option.map_eq_some_iff.mp hLength with ⟨m, hRest, rfl⟩
      have := ih hRest
      simp only [List.length_cons]
      omega

theorem textLength?_replace
    {cs following former : List Char}
    (hReplaces : Replaces following former)
    (hLength : textLength? (cs ++ former) = some cs.length) :
    textLength? (cs ++ following) = some cs.length := by
  fun_induction textLength? cs with
  | case1 => exact absurd hLength (textLength?_ne_zero former)
  | case2 cs ih =>
      simp only [List.cons_append, textLength?, List.length_cons,
        Option.map_eq_some_iff, Nat.add_right_cancel_iff,
        exists_eq_right] at hLength ⊢
      exact ih hLength
  | case3 cs hDouble =>
      cases cs with
      | nil =>
          apply textLength?_quote
          refine hReplaces.head?_ne ?_ (by decide)
          intro hQuote
          cases former with
          | nil => cases hQuote
          | cons d former =>
              cases hQuote
              simp [textLength?] at hLength
      | cons c cs =>
          have hNe : c ≠ '"' := by
            rintro rfl
            exact hDouble cs rfl
          rw [List.cons_append,
            textLength?_quote (by simpa using hNe)] at hLength
          cases hLength
  | case4 c cs hDouble hQuote ih =>
      have hNe : c ≠ '"' := hQuote
      simp only [List.cons_append, textLength?_other hNe,
        List.length_cons, Option.map_eq_some_iff,
        Nat.add_right_cancel_iff, exists_eq_right] at hLength ⊢
      exact ih hLength

------------------------------------------------------------
-- Error Values
------------------------------------------------------------

/- No error's spelling continues another one's. -/
theorem eq_of_text_continues
    {e e' : ErrorValue}
    (hPrefix :
      (e.text.toList.map Char.toUpper).isPrefixOf
          (e'.text.toList.map Char.toUpper) =
        true) :
    e = e' := by
  revert hPrefix
  cases e <;> cases e' <;> decide

theorem errorAt?_eq_some
    {cs : List Char}
    {e : ErrorValue}
    (hError : errorAt? cs = some e) :
    e.text.length ≤ cs.length ∧
      (cs.take e.text.length).map Char.toUpper =
        e.text.toList.map Char.toUpper := by
  have hFound := List.find?_some hError
  simpa [Text.equalIgnoringCase] using hFound

/- What follows the spelling of an error does not matter. -/
theorem errorAt?_append
    {cs : List Char}
    {e : ErrorValue}
    (hText :
      cs.map Char.toUpper = e.text.toList.map Char.toUpper)
    (following : List Char) :
    errorAt? (cs ++ following) = some e := by
  have hLength : cs.length = e.text.length := by
    simpa [String.length_toList] using congrArg List.length hText
  have hOnly :
      ∀ e' : ErrorValue,
        (e'.text.length ≤ (cs ++ following).length &&
            Text.equalIgnoringCase
              (String.ofList
                ((cs ++ following).take e'.text.length))
              e'.text) =
          decide (e' = e) := by
    intro e'
    rw [Bool.eq_iff_iff]
    simp only [Text.equalIgnoringCase, String.toList_ofList,
      Bool.and_eq_true, decide_eq_true_eq, beq_iff_eq]
    constructor
    · rintro ⟨-, hSame⟩
      have hUpper :
          (cs.map Char.toUpper ++
              following.map Char.toUpper).take e'.text.length =
            e'.text.toList.map Char.toUpper := by
        rw [← hSame, ← List.map_append, List.map_take]
      rw [hText] at hUpper
      rcases Nat.le_total e'.text.length e.text.length with h | h
      · refine eq_of_text_continues ?_
        rw [List.isPrefixOf_iff_prefix, ← hUpper,
          List.take_append_of_le_length
            (by simpa [String.length_toList] using h)]
        exact List.take_prefix _ _
      · refine (eq_of_text_continues ?_).symm
        rw [List.isPrefixOf_iff_prefix, ← hUpper]
        refine List.prefix_take_iff.mpr
          ⟨?_, by simpa [String.length_toList] using h⟩
        exact List.prefix_append _ _
    · rintro rfl
      refine ⟨?_, ?_⟩
      · rw [List.length_append]
        omega
      · rw [← hLength, List.take_left, hText]
  have hFind :
      errorAt? (cs ++ following) =
        ErrorValue.all.find? fun e' => decide (e' = e) := by
    unfold errorAt?
    congr 1
    funext e'
    exact hOnly e'
  rw [hFind]
  cases e <;> decide

------------------------------------------------------------
-- Words
------------------------------------------------------------

theorem wordLength_le (word cs : List Char) :
    wordLength word cs ≤ cs.length := by
  fun_induction wordLength word cs with
  | case1 => exact Nat.le_refl 0
  | case2 word c cs hContinues ih =>
      exact Nat.succ_le_succ ih
  | case3 => exact Nat.zero_le _

/- Nothing that continues a word comes to follow. -/
theorem wordLength_eq_zero_of_replaces
    {word following former : List Char}
    (hReplaces : Replaces following former)
    (hEnd : wordLength word former = 0) :
    wordLength word following = 0 := by
  cases following with
  | nil => rfl
  | cons c following =>
      rcases hReplaces with hSame | hDelimited
      · cases former with
        | nil => cases hSame
        | cons d former =>
            cases hSame
            rw [wordLength] at hEnd ⊢
            split at hEnd
            · cases hEnd
            · rename_i hStops
              rw [if_neg hStops]
      · have hDelimiter := hDelimited c rfl
        simp only [isDelimiter, List.contains_cons,
          List.contains_nil, Bool.or_false, Bool.or_eq_true,
          beq_iff_eq] at hDelimiter
        rw [wordLength, if_neg]
        rcases hDelimiter with h | h | h | h | h | h <;> subst h <;>
          simp [isSpecial, isSpace]

/- A word stays as long as it ends where it ended before. -/
theorem wordLength_replace
    {word cs following former : List Char}
    (hReplaces : Replaces following former)
    (hLength : wordLength word (cs ++ former) = cs.length) :
    wordLength word (cs ++ following) = cs.length := by
  induction cs generalizing word with
  | nil => exact wordLength_eq_zero_of_replaces hReplaces hLength
  | cons c cs ih =>
      simp only [List.cons_append, wordLength,
        List.length_cons] at hLength ⊢
      split at hLength
      · rename_i hContinues
        rw [if_pos hContinues, ih (Nat.succ.inj hLength)]
      · cases hLength

/- A word that ends early does not depend on what follows. -/
theorem wordLength_append_of_lt
    {word cs former : List Char}
    (hShort : wordLength word (cs ++ former) < cs.length)
    (following : List Char) :
    wordLength word (cs ++ following) =
      wordLength word (cs ++ former) := by
  induction cs generalizing word with
  | nil => cases hShort
  | cons c cs ih =>
      simp only [List.cons_append, wordLength,
        List.length_cons] at hShort ⊢
      split
      · rename_i hContinues
        rw [if_pos hContinues] at hShort
        rw [ih (Nat.lt_of_succ_lt_succ hShort)]
      · rfl

------------------------------------------------------------
-- All Lexemes
------------------------------------------------------------

/- A word or call ends where it did before. -/
theorem wordOrCall_replace
    {c : Char}
    {cs following former : List Char}
    {lexeme : Lexeme}
    (hReplaces : Replaces following former)
    (hWord : wordOrCall c (cs ++ former) = (lexeme, cs.length)) :
    wordOrCall c (cs ++ following) = (lexeme, cs.length) := by
  unfold wordOrCall at hWord ⊢
  dsimp only at hWord ⊢
  split at hWord
  · rename_i hOpen
    obtain ⟨rfl, hLength⟩ := Prod.mk.inj hWord
    have hShort : wordLength [c] (cs ++ former) < cs.length := by
      omega
    rw [wordLength_append_of_lt hShort following]
    have hStill :
        ((cs ++ following).drop
            (wordLength [c] (cs ++ former))).head? =
          some '(' := by
      rw [← hOpen, List.head?_drop, List.head?_drop,
        List.getElem?_append_left hShort,
        List.getElem?_append_left hShort]
    rw [if_pos hStill, hLength]
  · rename_i hOpen
    obtain ⟨rfl, hLength⟩ := Prod.mk.inj hWord
    rw [hLength, List.drop_left] at hOpen
    rw [wordLength_replace hReplaces hLength, List.drop_left,
      if_neg (hReplaces.head?_ne hOpen (by decide))]

/- Two signs do not merge unless they did before. -/
theorem operator?_replace
    {c : Char}
    {cs following former : List Char}
    {lexeme : Lexeme}
    (hReplaces : Replaces following former)
    (hSign : operator? c (cs ++ former) = (lexeme, cs.length)) :
    operator? c (cs ++ following) = (lexeme, cs.length) := by
  cases cs with
  | cons d cs =>
      unfold operator? at hSign ⊢
      exact hSign
  | nil =>
      have hSingle :
          (former.head?.map (isDoubleSign c)).getD false = false := by
        rw [Bool.eq_false_iff]
        intro hDouble
        rw [List.nil_append, operator?, if_pos hDouble] at hSign
        cases hSign
      have hStill :
          (following.head?.map (isDoubleSign c)).getD false =
            false := by
        rcases hReplaces with hSame | hDelimited
        · rw [hSame, hSingle]
        · cases following with
          | nil => rfl
          | cons d following =>
              have hDelimiter := hDelimited d rfl
              simp only [isDelimiter, List.contains_cons,
                List.contains_nil, Bool.or_false, Bool.or_eq_true,
                beq_iff_eq] at hDelimiter
              rcases hDelimiter with h | h | h | h | h | h <;>
                subst h <;> simp [isDoubleSign]
      simpa only [operator?, List.nil_append, hSingle, hStill]
        using hSign

/- The characters that are a piece on their own. -/
def alone : List (Char × Lexeme) :=
  [('\x7b', .open .array), ('(', .open .group),
    (')', .close false), ('\x7d', .close true),
    (';', .semicolon), (',', .comma)]

/- The first characters of operators. -/
def signs : List Char :=
  ['+', '-', '*', '/', '^', '&', '=', '>', '<', '%']

/-
  The lexeme at the start of a text, by its first character,
  and how many more characters it takes.
-/
inductive First (c : Char) (cs : List Char) : Lexeme → Nat → Prop where
  | text
      {n : Nat}
      (hQuote : c = '"')
      (hLength : textLength? cs = some n) :
      First c cs .text n
  | error
      {e : ErrorValue}
      (hHash : c = '#')
      (hError : errorAt? (c :: cs) = some e) :
      First c cs (.error e) (e.text.length - 1)
  | blank
      (hSpace : isSpace c = true) :
      First c cs .blank (cs.takeWhile isSpace).length
  | alone
      {lexeme : Lexeme}
      (hAlone : (c, lexeme) ∈ alone) :
      First c cs lexeme 0
  | operator
      {lexeme : Lexeme}
      {n : Nat}
      (hSign : c ∈ signs)
      (hOperator : operator? c cs = (lexeme, n)) :
      First c cs lexeme n
  | word
      {lexeme : Lexeme}
      {n : Nat}
      (hOrdinary : isSpecial c = false)
      (hWord : wordOrCall c cs = (lexeme, n)) :
      First c cs lexeme n

theorem first_of_next
    {c : Char}
    {cs : List Char}
    {lexeme : Lexeme}
    {n : Nat}
    (hNext : next c cs = .ok (lexeme, n)) :
    First c cs lexeme n := by
  unfold next at hNext
  split at hNext
  case isTrue hQuote =>
    split at hNext
    · rename_i hLength
      cases hNext
      exact .text hQuote hLength
    · cases hNext
  split at hNext
  case isTrue hHash =>
    split at hNext
    · rename_i hError
      cases hNext
      exact .error hHash hError
    · cases hNext
  split at hNext
  case isTrue hSpace =>
    cases hNext
    exact .blank hSpace
  rename_i hQuote hHash hSpace
  iterate 5
    split at hNext
    case isTrue hAlone =>
      rw [Except.ok.injEq, Prod.mk.injEq] at hNext
      obtain ⟨rfl, rfl⟩ := hNext
      first
        | subst hAlone
          exact .alone (by decide)
        | simp only [Bool.or_eq_true, decide_eq_true_eq] at hAlone
          rcases hAlone with rfl | rfl <;> exact .alone (by decide)
    rename_i hNotAlone
  split at hNext
  case isTrue hSpecial =>
    rw [Except.ok.injEq] at hNext
    refine .operator ?_ hNext
    simp_all [isSpecial, signs]
  case isFalse hSpecial =>
    rw [Except.ok.injEq] at hNext
    exact .word (by simpa using hSpecial) hNext

theorem next_of_first
    {c : Char}
    {cs : List Char}
    {lexeme : Lexeme}
    {n : Nat}
    (hFirst : First c cs lexeme n) :
    next c cs = .ok (lexeme, n) := by
  cases hFirst with
  | text hQuote hLength =>
      subst hQuote
      simp [next, hLength]
  | error hHash hError =>
      subst hHash
      simp [next, hError]
  | blank hSpace =>
      have hNotText : c ≠ '"' := by
        rintro rfl
        cases hSpace
      have hNotError : c ≠ '#' := by
        rintro rfl
        cases hSpace
      rw [next, if_neg hNotText, if_neg hNotError, if_pos hSpace]
  | alone hAlone =>
      simp only [alone, List.mem_cons, Prod.mk.injEq,
        List.not_mem_nil, or_false] at hAlone
      rcases hAlone with h | h | h | h | h | h <;>
        obtain ⟨rfl, rfl⟩ := h <;> rfl
  | operator hSign hOperator =>
      rw [← hOperator]
      simp only [signs, List.mem_cons, List.not_mem_nil,
        or_false] at hSign
      rcases hSign with h | h | h | h | h | h | h | h | h | h <;>
        subst h <;> rfl
  | word hOrdinary hWord =>
      rw [← hWord]
      have hNe : ∀ d, isSpecial d = true → c ≠ d := by
        rintro d hSpecial rfl
        rw [hSpecial] at hOrdinary
        cases hOrdinary
      have hNotSpace : ¬ isSpace c = true := by
        intro hSpace
        rw [isSpecial, hSpace] at hOrdinary
        cases hOrdinary
      simp [next, hNotSpace, hOrdinary, hNe '"' rfl, hNe '#' rfl,
        hNe '\x7b' rfl, hNe '(' rfl, hNe ')' rfl, hNe '\x7d' rfl,
        hNe ';' rfl, hNe ',' rfl]

theorem next_eq_ok
    {c : Char}
    {cs : List Char}
    {lexeme : Lexeme}
    {n : Nat} :
    next c cs = .ok (lexeme, n) ↔ First c cs lexeme n :=
  ⟨first_of_next, next_of_first⟩

/- A lexeme does not reach past the end of its text. -/
theorem First.le
    {c : Char}
    {cs : List Char}
    {lexeme : Lexeme}
    {n : Nat}
    (hFirst : First c cs lexeme n) :
    n ≤ cs.length := by
  cases hFirst with
  | text hQuote hLength => exact textLength?_le hLength
  | error hHash hError =>
      have hLength := (errorAt?_eq_some hError).1
      simp only [List.length_cons] at hLength
      omega
  | blank hSpace => exact (List.takeWhile_prefix isSpace).length_le
  | alone hAlone => exact Nat.zero_le _
  | operator hSign hOperator =>
      cases cs <;> unfold operator? at hOperator <;>
        (repeat' split at hOperator) <;>
        obtain ⟨-, rfl⟩ := Prod.mk.inj hOperator <;> simp at *
  | word hOrdinary hWord =>
      have hLength := wordLength_le [c] cs
      unfold wordOrCall at hWord
      dsimp only at hWord
      split at hWord
      · rename_i hOpen
        obtain ⟨-, rfl⟩ := Prod.mk.inj hWord
        have hSome : (cs.drop (wordLength [c] cs)) ≠ [] := by
          intro hNil
          rw [hNil] at hOpen
          cases hOpen
        rw [Ne, List.drop_eq_nil_iff] at hSome
        omega
      · obtain ⟨-, rfl⟩ := Prod.mk.inj hWord
        exact hLength

/-
  A lexeme that is no blank stays one when something else
  follows in the place of what followed before.
-/
theorem Starts.change
    {lexeme : Lexeme}
    {chars following former : List Char}
    (hStarts : Starts lexeme chars former)
    (hBlank : lexeme ≠ .blank)
    (hReplaces : Replaces following former) :
    Starts lexeme chars following := by
  rcases hStarts with ⟨c, cs, rfl, hNext⟩
  refine ⟨c, cs, rfl, ?_⟩
  rw [next_eq_ok] at hNext ⊢
  generalize hLength : cs.length = n at hNext ⊢
  cases hNext with
  | text hQuote hText =>
      subst hLength
      exact .text hQuote (textLength?_replace hReplaces hText)
  | error hHash hError =>
      rename_i e
      have hMatch := errorAt?_eq_some hError
      have hPositive : 0 < e.text.length := by
        cases e <;> decide
      have hWhole : e.text.length = (c :: cs).length := by
        simp only [List.length_cons]
        omega
      rw [← List.cons_append, hWhole, List.take_left] at hMatch
      exact .error hHash (errorAt?_append hMatch.2 following)
  | blank hSpace => exact absurd rfl hBlank
  | alone hAlone => exact .alone hAlone
  | operator hSign hOperator =>
      subst hLength
      exact .operator hSign (operator?_replace hReplaces hOperator)
  | word hOrdinary hWord =>
      subst hLength
      exact .word hOrdinary (wordOrCall_replace hReplaces hWord)


theorem eq_of_starts_comma
    {chars following : List Char}
    (hStarts : Starts .comma chars following) :
    chars = [','] := by
  rcases hStarts with ⟨c, cs, rfl, hNext⟩
  rw [next_eq_ok] at hNext
  generalize hLength : cs.length = n at hNext
  cases hNext with
  | alone hAlone =>
      have hComma : c = ',' := by simpa [alone] using hAlone
      rw [hComma, List.length_eq_zero_iff.mp hLength]
  | operator hSign hOperator =>
      unfold operator? at hOperator
      (repeat' split at hOperator) <;> cases hOperator
  | word hOrdinary hWord =>
      unfold wordOrCall at hWord
      dsimp only at hWord
      split at hWord <;> cases hWord

/- A blank takes all spaces that follow. -/
theorem First.of_blank
    {c : Char}
    {cs : List Char}
    {n : Nat}
    (hFirst : First c cs .blank n) :
    isSpace c = true ∧ cs.take n = cs.takeWhile isSpace := by
  generalize hLexeme : Lexeme.blank = lexeme at hFirst
  cases hFirst with
  | blank hSpace =>
      refine ⟨hSpace, ?_⟩
      exact
        (List.prefix_iff_eq_take.mp
          (List.takeWhile_prefix isSpace)).symm
  | alone hAlone =>
      subst hLexeme
      revert hAlone
      simp [Lexeme.alone]
  | operator hSign hOperator =>
      subst hLexeme
      unfold operator? at hOperator
      (repeat' split at hOperator) <;> cases hOperator
  | word hOrdinary hWord =>
      subst hLexeme
      unfold wordOrCall at hWord
      dsimp only at hWord
      split at hWord <;> cases hWord
  | text => cases hLexeme
  | error => cases hLexeme

/- A lexeme that starts with a space is a blank. -/
theorem Starts.head_not_space
    {lexeme : Lexeme}
    {chars following : List Char}
    (hStarts : Starts lexeme chars following)
    (hBlank : lexeme ≠ .blank) :
    ∀ c, chars.head? = some c → isSpace c = false := by
  rcases hStarts with ⟨c, cs, rfl, hNext⟩
  rintro d hHead
  cases hHead
  rw [Bool.eq_false_iff]
  intro hSpace
  rw [next_of_first (.blank hSpace), Except.ok.injEq,
    Prod.mk.injEq] at hNext
  exact hBlank hNext.1.symm

end Lexeme

end Spreadsheet
