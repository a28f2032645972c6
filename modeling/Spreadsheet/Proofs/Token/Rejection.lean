import Mathlib
import Spreadsheet.Proofs.Token.Nesting

/-
  Formulas that do not split into tokens.

  A character of a formula is visible if it belongs to no text
  and to no error value. A formula is rejected for one of three
  reasons: a text does not end, a `#` starts no error value, or
  the visible brackets are not well nested. The proof follows
  the lexer piece by piece and relates its stack of brackets to
  the visible characters it has passed.

  Main declarations:
    * `Visible`
    * `LexFault.Reason`
    * `Token.visible_of_ofChars`
    * `Token.reasonIn_of_ofChars`
    * `Token.lex_classified_or_rejected`
-/

namespace Spreadsheet

------------------------------------------------------------
-- Visible Characters
------------------------------------------------------------

/- The inside of a text: a quote in it is written twice. -/
inductive Quoted : List Char → Prop where
  | nil : Quoted []
  | other
      {c : Char}
      {cs : List Char}
      (hNe : c ≠ '"')
      (hRest : Quoted cs) :
      Quoted (c :: cs)
  | quote
      {cs : List Char}
      (hRest : Quoted cs) :
      Quoted ('"' :: '"' :: cs)

/- The spelling of an error value, in any case. -/
def ErrorValue.Spells (e : ErrorValue) (code : List Char) : Prop :=
  Text.equalIgnoringCase (String.ofList code) e.text = true

/-
  The visible characters of a text up to some place in it, and
  what follows that place.
-/
inductive Visible : List Char → List Char → List Char → Prop where
  | stop (cs : List Char) : Visible cs [] cs
  | plain
      {c : Char}
      {cs out rest : List Char}
      (hText : c ≠ '"')
      (hError : c ≠ '#')
      (hRest : Visible cs out rest) :
      Visible (c :: cs) (c :: out) rest
  | text
      {body cs out rest : List Char}
      (hBody : Quoted body)
      (hEnd : cs.head? ≠ some '"')
      (hRest : Visible cs out rest) :
      Visible ('"' :: (body ++ '"' :: cs)) out rest
  | error
      {e : ErrorValue}
      {code cs out rest : List Char}
      (hCode : e.Spells code)
      (hRest : Visible cs out rest) :
      Visible (code ++ cs) out rest

/- What a character is among parentheses and braces. -/
def charSide (c : Char) : Side Bool :=
  if c = '(' then .opens false
  else if c = ')' then .closes false
  else if c = '\x7b' then .opens true
  else if c = '\x7d' then .closes true
  else .neutral

------------------------------------------------------------
-- Reasons For Rejection
------------------------------------------------------------

/- A text starts and does not end. -/
def Unterminated (cs : List Char) : Prop :=
  ∃ out body, Visible cs out ('"' :: body) ∧ Quoted body

/- A `#` starts the spelling of no error value. -/
def UnknownCode (cs : List Char) : Prop :=
  ∃ out ahead,
    Visible cs out ('#' :: ahead) ∧
      ∀ (e : ErrorValue) (code after : List Char),
        e.Spells code → '#' :: ahead ≠ code ++ after

/-
  The visible brackets are not well nested: at some place
  already nothing can follow that would make them so, or at the
  end they are not.
-/
def Misnested (cs : List Char) : Prop :=
  ∃ out rest,
    Visible cs out rest ∧
      ((∀ more, ¬ Nested charSide (out ++ more)) ∨
        (rest = [] ∧ ¬ Nested charSide out))

/- What is wrong with a text for which a fault is reported. -/
def LexFault.Reason : LexFault → List Char → Prop
  | .unterminatedText => Unterminated
  | .unknownErrorCode => UnknownCode
  | .unmatchedCloser | .mismatchedBrackets | .unmatchedOpener =>
      Misnested

------------------------------------------------------------
-- Passing Over Pieces
------------------------------------------------------------

variable {c : Char} {cs out rest : List Char}

theorem Visible.trans
    {between out' : List Char}
    (hFirst : Visible cs out between)
    (hSecond : Visible between out' rest) :
    Visible cs (out ++ out') rest := by
  induction hFirst with
  | stop => exact hSecond
  | plain hText hError hRest ih =>
      exact .plain hText hError (ih hSecond)
  | text hBody hEnd hRest ih => exact .text hBody hEnd (ih hSecond)
  | error hCode hRest ih => exact .error hCode (ih hSecond)

/- The characters outside texts and errors that are no bracket. -/
structure Inert (c : Char) : Prop where
  text : c ≠ '"'
  error : c ≠ '#'
  side : charSide c = .neutral

theorem Visible.of_inert
    (hInert : ∀ c ∈ cs, Inert c)
    (rest : List Char) :
    Visible (cs ++ rest) cs rest := by
  induction cs with
  | nil => exact .stop rest
  | cons c cs ih =>
      rw [List.forall_mem_cons] at hInert
      exact .plain hInert.1.text hInert.1.error (ih hInert.2)

theorem openAfter_inert
    (hInert : ∀ c ∈ cs, Inert c)
    (opened : List Bool) :
    openAfter charSide opened cs = some opened := by
  induction cs with
  | nil => rfl
  | cons c cs ih =>
      rw [List.forall_mem_cons] at hInert
      rw [openAfter_cons, openAfterEntry_neutral hInert.1.side]
      exact ih hInert.2

/- Of the special characters, few are not inert. -/
theorem inert_of_not_mem
    (hOther : c ∉ ['"', '#', '(', ')', '\x7b', '\x7d']) :
    Inert c := by
  simp only [List.mem_cons, List.not_mem_nil, or_false,
    not_or] at hOther
  rcases hOther with ⟨hText, hError, h₁, h₂, h₃, h₄⟩
  refine ⟨hText, hError, ?_⟩
  rw [charSide, if_neg h₁, if_neg h₂, if_neg h₃, if_neg h₄]

theorem inert_of_isSpecial
    (hOrdinary : Lexeme.isSpecial c = false) :
    Inert c := by
  apply inert_of_not_mem
  intro hMem
  rw [Bool.eq_false_iff] at hOrdinary
  apply hOrdinary
  simp only [List.mem_cons, List.not_mem_nil, or_false] at hMem
  rcases hMem with rfl | rfl | rfl | rfl | rfl | rfl <;> rfl

theorem inert_of_isSpace
    (hSpace : Lexeme.isSpace c = true) :
    Inert c := by
  apply inert_of_not_mem
  intro hMem
  simp only [List.mem_cons, List.not_mem_nil, or_false] at hMem
  rcases hMem with rfl | rfl | rfl | rfl | rfl | rfl <;> cases hSpace

/- The characters of a word are inert, signs of exponents too. -/
theorem inert_of_wordLength (word : List Char) :
    ∀ d ∈ cs.take (Lexeme.wordLength word cs), Inert d := by
  induction cs generalizing word with
  | nil => simp [Lexeme.wordLength]
  | cons c cs ih =>
      rw [Lexeme.wordLength]
      split
      · rename_i hContinues
        rw [List.take_succ_cons, List.forall_mem_cons]
        refine ⟨?_, ih _⟩
        simp only [Bool.or_eq_true, Bool.not_eq_true',
          Bool.and_eq_true, beq_iff_eq] at hContinues
        rcases hContinues with hOrdinary | ⟨rfl | rfl, -⟩
        · exact inert_of_isSpecial hOrdinary
        · exact inert_of_not_mem (by decide)
        · exact inert_of_not_mem (by decide)
      · simp

/- An operator is made of inert characters and opens nothing. -/
theorem operator?_inert
    {lexeme : Lexeme}
    {n : Nat}
    (hSign : c ∈ Lexeme.signs)
    (hOperator : Lexeme.operator? c cs = (lexeme, n)) :
    (∀ d ∈ c :: cs.take n, Inert d) ∧
      lexeme ∈ [.operator, .percent, .sign] := by
  have hFirst : Inert c := by
    apply inert_of_not_mem
    intro hMem
    simp only [List.mem_cons, List.not_mem_nil, or_false] at hMem
    rcases hMem with rfl | rfl | rfl | rfl | rfl | rfl <;>
      simp [Lexeme.signs] at hSign
  unfold Lexeme.operator? at hOperator
  split at hOperator
  · rename_i hDouble
    obtain ⟨rfl, rfl⟩ := Prod.mk.inj hOperator
    refine ⟨?_, by simp⟩
    cases cs with
    | nil => simpa using hFirst
    | cons d cs =>
        simp only [List.head?_cons, Option.map_some,
          Option.getD_some, Lexeme.isDoubleSign, Bool.or_eq_true,
          Bool.and_eq_true, beq_iff_eq] at hDouble
        have hSecond : d = '=' ∨ d = '>' := by grind
        simp only [List.take_succ_cons, List.take_zero,
          List.forall_mem_cons, List.not_mem_nil, false_imp_iff,
          implies_true, and_true]
        refine ⟨hFirst, ?_⟩
        rcases hSecond with rfl | rfl <;>
          exact inert_of_not_mem (by decide)
  · (repeat' split at hOperator) <;>
      obtain ⟨rfl, rfl⟩ := Prod.mk.inj hOperator <;>
      simpa using hFirst

------------------------------------------------------------
-- The Ends Of Texts
------------------------------------------------------------

/- A text that does not end has nothing but its inside. -/
theorem quoted_of_textLength?
    (hLength : Lexeme.textLength? cs = none) :
    Quoted cs := by
  fun_induction Lexeme.textLength? cs with
  | case1 => exact .nil
  | case2 cs ih => exact .quote (ih (Option.map_eq_none_iff.mp hLength))
  | case3 cs hDouble => cases hLength
  | case4 c cs hDouble hQuote ih =>
      exact .other hQuote (ih (Option.map_eq_none_iff.mp hLength))

theorem Quoted.textLength?_eq_none
    (hQuoted : Quoted cs) :
    Lexeme.textLength? cs = none := by
  induction hQuoted with
  | nil => rfl
  | other hNe hRest ih =>
      rw [Lexeme.textLength?_other hNe, ih, Option.map_none]
  | quote hRest ih => rw [Lexeme.textLength?, ih, Option.map_none]

/- A text ends with the first quote that stands alone. -/
theorem exists_body_of_textLength?
    {n : Nat}
    (hLength : Lexeme.textLength? cs = some n) :
    ∃ body,
      cs = body ++ '"' :: cs.drop n ∧
        Quoted body ∧ (cs.drop n).head? ≠ some '"' := by
  fun_induction Lexeme.textLength? cs generalizing n with
  | case1 => cases hLength
  | case2 cs ih =>
      rcases Option.map_eq_some_iff.mp hLength with ⟨m, hRest, rfl⟩
      rcases ih hRest with ⟨body, hSplit, hBody, hEnd⟩
      refine ⟨'"' :: '"' :: body, ?_, .quote hBody, hEnd⟩
      simpa using hSplit
  | case3 cs hDouble =>
      cases hLength
      refine ⟨[], rfl, .nil, ?_⟩
      rw [List.drop_succ_cons, List.drop_zero]
      intro hHead
      cases cs with
      | nil => cases hHead
      | cons d cs =>
          cases hHead
          exact hDouble cs rfl
  | case4 c cs hDouble hQuote ih =>
      rcases Option.map_eq_some_iff.mp hLength with ⟨m, hRest, rfl⟩
      rcases ih hRest with ⟨body, hSplit, hBody, hEnd⟩
      refine ⟨c :: body, ?_, .other hQuote hBody, hEnd⟩
      simpa using hSplit

theorem Quoted.textLength?_append
    {body : List Char}
    (hQuoted : Quoted body)
    (hEnd : cs.head? ≠ some '"') :
    Lexeme.textLength? (body ++ '"' :: cs) =
      some (body.length + 1) := by
  induction hQuoted with
  | nil => exact Lexeme.textLength?_quote hEnd
  | other hNe hRest ih =>
      rw [List.cons_append, Lexeme.textLength?_other hNe, ih]
      rfl
  | quote hRest ih =>
      rw [List.cons_append, List.cons_append, Lexeme.textLength?, ih]
      rfl

------------------------------------------------------------
-- The Spellings Of Errors
------------------------------------------------------------

variable {e : ErrorValue} {code : List Char}

theorem ErrorValue.spells_iff :
    e.Spells code ↔
      code.map Char.toUpper = e.text.toList.map Char.toUpper := by
  simp [Spells, Text.equalIgnoringCase]

theorem ErrorValue.Spells.length_eq
    (hCode : e.Spells code) :
    code.length = e.text.length := by
  have hSame := congrArg List.length (spells_iff.mp hCode)
  simpa [String.length_toList] using hSame

theorem ErrorValue.Spells.errorAt?_eq
    (hCode : e.Spells code)
    (rest : List Char) :
    Lexeme.errorAt? (code ++ rest) = some e :=
  Lexeme.errorAt?_append (spells_iff.mp hCode) rest

theorem spells_of_errorAt?
    (hError : Lexeme.errorAt? cs = some e) :
    e.Spells (cs.take e.text.length) :=
  ErrorValue.spells_iff.mpr (Lexeme.errorAt?_eq_some hError).2

theorem ErrorValue.text_length_pos (e : ErrorValue) :
    0 < e.text.length := by
  cases e <;> decide

/- No letter is written as `#` in capitals. -/
theorem eq_hash_of_toUpper (hUpper : c.toUpper = '#') : c = '#' := by
  have hAlpha := Char.isUpper_toUpper_eq_isAlpha c
  rw [hUpper, Char.isAlpha] at hAlpha
  have hLower : ¬ c.isLower = true := by
    intro hLower
    simp [hLower] at hAlpha
  rwa [Char.toUpper_eq_of_not_isLower hLower] at hUpper

/- The spelling of an error starts with `#`. -/
theorem ErrorValue.Spells.exists_tail
    (hCode : e.Spells code) :
    ∃ ds, code = '#' :: ds := by
  have hUpper : (code.map Char.toUpper).head? = some '#' := by
    rw [spells_iff.mp hCode]
    cases e <;> decide
  cases code with
  | nil => cases hUpper
  | cons c ds =>
      rw [List.map_cons, List.head?_cons, Option.some.injEq]
        at hUpper
      exact ⟨ds, by rw [eq_hash_of_toUpper hUpper]⟩

------------------------------------------------------------
-- Pieces And Brackets
------------------------------------------------------------

/- The brackets that are open, told apart as characters are. -/
def braces (opened : List Bracket) : List Bool :=
  opened.map (· == .array)

/-
  The visible characters of the piece at the start of a text:
  among brackets they do what the lexer does to its stack.
-/
structure Shown
    (c : Char)
    (cs : List Char)
    (lexeme : Lexeme)
    (n : Nat)
    (out : List Char) : Prop where
  visible : Visible (c :: cs) out (cs.drop n)
  opened :
    ∀ ctx : LexContext,
      openAfter charSide (braces ctx.opened) out =
        (ctx.classify lexeme (c :: cs.take n)).toOption.map
          fun found => braces found.2

/- Pieces of inert characters leave the brackets as they are. -/
theorem shown_of_inert
    {lexeme : Lexeme}
    {n : Nat}
    (hInert : ∀ d ∈ c :: cs.take n, Inert d)
    (hQuiet :
      ∀ ctx : LexContext, ∃ kind,
        ctx.classify lexeme (c :: cs.take n) =
          .ok (kind, ctx.opened)) :
    Shown c cs lexeme n (c :: cs.take n) := by
  refine ⟨?_, fun ctx => ?_⟩
  · have hVisible := Visible.of_inert hInert (cs.drop n)
    rwa [List.cons_append, List.take_append_drop] at hVisible
  · rcases hQuiet ctx with ⟨kind, hKind⟩
    rw [openAfter_inert hInert, hKind]
    rfl

/- A bracket that stands alone closes what the stack says. -/
theorem openAfter_closer
    {brace : Bool}
    (hSide : charSide c = .closes brace)
    (ctx : LexContext)
    (chars : List Char) :
    openAfter charSide (braces ctx.opened) [c] =
      (ctx.classify (.close brace) chars).toOption.map
        fun found => braces found.2 := by
  rcases ctx with ⟨opened, afterOperand⟩
  rw [openAfter_cons]
  cases opened with
  | nil =>
      simp [openAfterEntry, hSide, braces, LexContext.classify,
        Except.toOption]
  | cons b outer =>
      by_cases hKind : (b == .array) = brace
      · simp [openAfterEntry, hSide, braces, LexContext.classify,
          hKind, Except.toOption]
      · simp [openAfterEntry, hSide, braces, LexContext.classify,
          hKind, Except.toOption]

theorem openAfter_opener
    {b : Bracket}
    (hSide : charSide c = .opens (b == .array))
    (opened : List Bracket) :
    openAfter charSide (braces opened) [c] =
      some (braces (b :: opened)) := by
  rw [openAfter_cons, openAfterEntry_opens hSide]
  rfl

theorem Visible.single
    (hText : c ≠ '"')
    (hError : c ≠ '#')
    (rest : List Char) :
    Visible (c :: rest) [c] rest :=
  .plain hText hError (.stop rest)

/- A character that stands alone is all that is seen of it. -/
theorem shown_of_alone
    {lexeme : Lexeme}
    (hAlone : (c, lexeme) ∈ Lexeme.alone) :
    Shown c cs lexeme 0 [c] := by
  simp only [Lexeme.alone, List.mem_cons, Prod.mk.injEq,
    List.not_mem_nil, or_false] at hAlone
  refine ⟨?_, fun ctx => ?_⟩
  · apply Visible.single
    · rintro rfl
      simp at hAlone
    · rintro rfl
      simp at hAlone
  · rcases hAlone with h | h | h | h | h | h <;>
      obtain ⟨rfl, rfl⟩ := h
    · exact openAfter_opener rfl _
    · exact openAfter_opener rfl _
    · exact openAfter_closer rfl _ _
    · exact openAfter_closer rfl _ _
    · rfl
    · rfl

/- The parenthesis behind a word belongs to its piece. -/
theorem exists_shown_word
    (hOrdinary : Lexeme.isSpecial c = false) :
    ∃ out,
      Shown c cs (Lexeme.wordOrCall c cs).1 (Lexeme.wordOrCall c cs).2
        out := by
  have hInert :
      ∀ d ∈ c :: cs.take (Lexeme.wordLength [c] cs), Inert d := by
    rw [List.forall_mem_cons]
    exact ⟨inert_of_isSpecial hOrdinary, inert_of_wordLength [c]⟩
  unfold Lexeme.wordOrCall
  dsimp only
  split
  · rename_i hOpen
    generalize Lexeme.wordLength [c] cs = m at hOpen hInert
    have hDrop : cs.drop m = '(' :: cs.drop (m + 1) := by
      rw [← List.tail_drop]
      exact (List.cons_head?_tail hOpen).symm
    have hParen : Visible (cs.drop m) ['('] (cs.drop (m + 1)) := by
      rw [hDrop]
      exact .single (by decide) (by decide) _
    refine ⟨(c :: cs.take m) ++ ['('], ?_, fun ctx => ?_⟩
    · have hVisible :=
        (Visible.of_inert hInert (cs.drop m)).trans hParen
      rwa [List.cons_append, List.take_append_drop] at hVisible
    · rw [openAfter_append, openAfter_inert hInert]
      exact openAfter_opener rfl _
  · exact ⟨_, shown_of_inert hInert fun ctx => ⟨_, rfl⟩⟩

/- Each piece has visible characters, or hides all of its own. -/
theorem exists_shown
    {lexeme : Lexeme}
    {n : Nat}
    (hFirst : Lexeme.First c cs lexeme n) :
    ∃ out, Shown c cs lexeme n out := by
  cases hFirst with
  | text hQuote hLength =>
      subst hQuote
      rcases exists_body_of_textLength? hLength with
        ⟨body, hSplit, hBody, hEnd⟩
      refine ⟨[], ?_, fun ctx => rfl⟩
      have hVisible := Visible.text hBody hEnd (.stop (cs.drop n))
      rwa [← hSplit] at hVisible
  | error hHash hError =>
      rename_i e
      refine ⟨[], ?_, fun ctx => rfl⟩
      have hVisible :=
        Visible.error (spells_of_errorAt? hError)
          (.stop ((c :: cs).drop e.text.length))
      rw [List.take_append_drop] at hVisible
      rwa [← List.drop_succ_cons (a := c),
        Nat.sub_add_cancel e.text_length_pos]
  | blank hSpace =>
      refine ⟨_, shown_of_inert ?_ fun ctx => ⟨_, rfl⟩⟩
      rw [List.forall_mem_cons]
      refine ⟨inert_of_isSpace hSpace, fun d hd => ?_⟩
      rw [← List.prefix_iff_eq_take.mp
        (List.takeWhile_prefix Lexeme.isSpace)] at hd
      exact inert_of_isSpace (List.mem_takeWhile_imp hd)
  | alone hAlone => exact ⟨[c], shown_of_alone hAlone⟩
  | operator hSign hOperator =>
      rcases operator?_inert hSign hOperator with ⟨hInert, hQuiet⟩
      refine ⟨_, shown_of_inert hInert fun ctx => ?_⟩
      simp only [List.mem_cons, List.not_mem_nil, or_false]
        at hQuiet
      rcases hQuiet with rfl | rfl | rfl <;> exact ⟨_, rfl⟩
  | word hOrdinary hWord =>
      have hShown :
          ∃ out,
            Shown c cs (Lexeme.wordOrCall c cs).1
              (Lexeme.wordOrCall c cs).2 out :=
        exists_shown_word hOrdinary
      rwa [hWord] at hShown

------------------------------------------------------------
-- Reasons Seen From Inside
------------------------------------------------------------

/-
  What is wrong with the rest of a text if some brackets are
  open before it.
-/
def LexFault.ReasonIn
    (opened : List Bool) : LexFault → List Char → Prop
  | .unterminatedText, cs => Unterminated cs
  | .unknownErrorCode, cs => UnknownCode cs
  | .unmatchedCloser, cs
  | .mismatchedBrackets, cs
  | .unmatchedOpener, cs =>
      ∃ out rest,
        Visible cs out rest ∧
          (openAfter charSide opened out = none ∨
            (rest = [] ∧ openAfter charSide opened out ≠ some []))

variable {fault : LexFault} {opened opened' : List Bool}

/- What is wrong further on is wrong from here. -/
theorem LexFault.ReasonIn.before
    (hVisible : Visible cs out rest)
    (hOpen : openAfter charSide opened out = some opened')
    (hReason : fault.ReasonIn opened' rest) :
    fault.ReasonIn opened cs := by
  cases fault with
  | unterminatedText =>
      rcases hReason with ⟨out', body, hRest, hBody⟩
      exact ⟨_, body, hVisible.trans hRest, hBody⟩
  | unknownErrorCode =>
      rcases hReason with ⟨out', ahead, hRest, hUnknown⟩
      exact ⟨_, ahead, hVisible.trans hRest, hUnknown⟩
  | _ =>
      rcases hReason with ⟨out', rest', hRest, hBroken⟩
      refine ⟨_, rest', hVisible.trans hRest, ?_⟩
      rwa [openAfter_append, hOpen, Option.bind_some]

/- Nothing mends a closer that does not fit. -/
theorem LexFault.reason_of_reasonIn
    (hReason : fault.ReasonIn [] cs) :
    fault.Reason cs := by
  cases fault with
  | unterminatedText => exact hReason
  | unknownErrorCode => exact hReason
  | _ =>
      rcases hReason with ⟨out, rest, hVisible, hBroken⟩
      refine ⟨out, rest, hVisible, hBroken.imp (fun hNone => ?_) ?_⟩
      · intro more
        rw [nested_iff, openAfter_append, hNone]
        simp
      · rintro ⟨hEnd, hOpen⟩
        exact ⟨hEnd, nested_iff.not.mpr hOpen⟩

/- A piece is missing only where a text or an error starts. -/
theorem reasonIn_of_next
    (hNext : Lexeme.next c cs = .error fault) :
    fault.ReasonIn opened (c :: cs) := by
  unfold Lexeme.next at hNext
  split at hNext
  · rename_i hQuote
    subst hQuote
    split at hNext
    · cases hNext
    · rename_i hLength
      cases hNext
      exact ⟨[], cs, .stop _, quoted_of_textLength? hLength⟩
  split at hNext
  · rename_i hHash
    subst hHash
    split at hNext
    · cases hNext
    · rename_i hError
      cases hNext
      refine ⟨[], cs, .stop _, fun e code after hCode hSplit => ?_⟩
      rw [hSplit, hCode.errorAt?_eq] at hError
      cases hError
  · (repeat' split at hNext) <;> cases hNext

/- The stack refuses a closer only. -/
theorem reasonIn_of_classify
    {ctx : LexContext}
    {lexeme : Lexeme}
    {n : Nat}
    (hShown : Shown c cs lexeme n out)
    (hKind :
      ctx.classify lexeme (c :: cs.take n) = .error fault) :
    fault.ReasonIn (braces ctx.opened) (c :: cs) := by
  have hBroken := hShown.opened ctx
  rw [hKind] at hBroken
  have hFault :
      fault = .unmatchedCloser ∨ fault = .mismatchedBrackets := by
    cases lexeme with
    | close brace =>
        simp only [LexContext.classify] at hKind
        (repeat' split at hKind) <;> cases hKind <;> simp
    | _ => cases hKind
  rcases hFault with rfl | rfl <;>
    exact ⟨out, _, hShown.visible, .inl hBroken⟩

------------------------------------------------------------
-- Whole Formulas
------------------------------------------------------------

namespace Token

/- The pieces of a text that splits show brackets that fit. -/
theorem visible_of_ofChars
    {ctx : LexContext}
    {offset : Nat}
    {ts : List Token}
    (hTokens : ofChars ctx offset cs = .ok ts) :
    ∃ out,
      Visible cs out [] ∧
        openAfter charSide (braces ctx.opened) out = some [] := by
  induction hLength : cs.length using Nat.strongRecOn
    generalizing ctx offset cs ts with
  | ind length ih =>
      cases cs with
      | nil =>
          rw [ofChars] at hTokens
          split at hTokens
          · rename_i hClosed
            refine ⟨[], .stop [], ?_⟩
            rw [List.isEmpty_iff.mp hClosed]
            rfl
          · cases hTokens
      | cons c cs =>
          rcases Segment.ofChars_cons_eq_ok hTokens with
            ⟨lexeme, n, kind, opened, ts', hNext, hKind, hRest, -⟩
          rcases exists_shown (Lexeme.first_of_next hNext) with
            ⟨out, hShown⟩
          have hShorter : (cs.drop n).length < length := by
            rw [← hLength, List.length_drop, List.length_cons]
            omega
          rcases ih _ hShorter hRest rfl with ⟨out', hVisible, hOpen⟩
          refine ⟨out ++ out', hShown.visible.trans hVisible, ?_⟩
          rw [openAfter_append, hShown.opened ctx, hKind]
          exact hOpen

/- The fault that is reported is there. -/
theorem reasonIn_of_ofChars
    {ctx : LexContext}
    {offset : Nat}
    {e : LexError}
    (hTokens : ofChars ctx offset cs = .error e) :
    e.fault.ReasonIn (braces ctx.opened) cs := by
  induction hLength : cs.length using Nat.strongRecOn
    generalizing ctx offset cs with
  | ind length ih =>
      cases cs with
      | nil =>
          rw [ofChars] at hTokens
          split at hTokens
          · cases hTokens
          · rename_i hOpen
            cases hTokens
            refine ⟨[], [], .stop [], .inr ⟨rfl, fun hNil => hOpen ?_⟩⟩
            rw [openAfter_nil, Option.some.injEq, braces,
              List.map_eq_nil_iff] at hNil
            rw [hNil]
            rfl
      | cons c cs =>
          cases hNext : Lexeme.next c cs with
          | error fault =>
              have hReason :
                  fault.ReasonIn (braces ctx.opened) (c :: cs) :=
                reasonIn_of_next hNext
              rw [ofChars, hNext] at hTokens
              cases fault <;> cases hTokens <;> exact hReason
          | ok found =>
              rcases found with ⟨lexeme, n⟩
              rcases exists_shown (Lexeme.first_of_next hNext) with
                ⟨out, hShown⟩
              cases hKind : ctx.classify lexeme (c :: cs.take n) with
              | error fault =>
                  have hReason := reasonIn_of_classify hShown hKind
                  rw [ofChars, hNext] at hTokens
                  simp only [hKind, bind, Except.bind,
                    Segment.mapError_error] at hTokens
                  cases hTokens
                  exact hReason
              | ok found =>
                  rcases found with ⟨kind, opened⟩
                  rw [Segment.ofChars_cons hNext hKind] at hTokens
                  generalize hRest : ofChars _ _ (cs.drop n) = rest
                    at hTokens
                  cases rest with
                  | ok rest => cases hTokens
                  | error e' =>
                      cases hTokens
                      have hShorter : (cs.drop n).length < length := by
                        rw [← hLength, List.length_drop,
                          List.length_cons]
                        omega
                      refine .before hShown.visible ?_
                        (ih _ hShorter hRest rfl)
                      rw [hShown.opened ctx, hKind]
                      rfl

end Token

------------------------------------------------------------
-- One Way To Read
------------------------------------------------------------

/- The start of a text tells how it is passed over. -/
theorem Visible.cons_cases
    (hVisible : Visible (c :: cs) out []) :
    (c ≠ '"' ∧ c ≠ '#' ∧
        ∃ out', out = c :: out' ∧ Visible cs out' []) ∨
      (c = '"' ∧
        ∃ n, Lexeme.textLength? cs = some n ∧
          Visible (cs.drop n) out []) ∨
      (c = '#' ∧
        ∃ e, Lexeme.errorAt? (c :: cs) = some e ∧
          Visible ((c :: cs).drop e.text.length) out []) := by
  generalize hWhole : c :: cs = whole at hVisible
  cases hVisible with
  | stop => cases hWhole
  | plain hText hError hRest =>
      cases hWhole
      exact .inl ⟨hText, hError, _, rfl, hRest⟩
  | text hBody hEnd hRest =>
      cases hWhole
      refine .inr (.inl ⟨rfl, _, hBody.textLength?_append hEnd, ?_⟩)
      rwa [← List.drop_drop, List.drop_left, List.drop_succ_cons,
        List.drop_zero]
  | error hCode hRest =>
      rcases hCode.exists_tail with ⟨ds, rfl⟩
      rw [← hWhole]
      cases hWhole
      refine .inr (.inr ⟨rfl, _, hCode.errorAt?_eq _, ?_⟩)
      rename_i e cs
      have hDrop : ('#' :: ds ++ cs).drop e.text.length = cs := by
        rw [← hCode.length_eq, List.drop_left]
      exact hDrop.symm ▸ hRest

/- Nothing is visible of nothing. -/
theorem Visible.eq_nil
    (hVisible : Visible cs out rest)
    (hEmpty : cs = []) :
    out = [] := by
  cases hVisible with
  | stop => rfl
  | plain => cases hEmpty
  | text => cases hEmpty
  | error hCode hRest =>
      rcases hCode.exists_tail with ⟨ds, rfl⟩
      cases hEmpty

/- What is visible of a part is visible of the whole. -/
theorem Visible.split
    {out' : List Char}
    (hWhole : Visible cs out [])
    (hPart : Visible cs out' rest) :
    ∃ more, out = out' ++ more ∧ Visible rest more [] := by
  induction hPart generalizing out with
  | stop => exact ⟨out, rfl, hWhole⟩
  | plain hText hError hRest ih =>
      rcases hWhole.cons_cases with h | ⟨hQuote, -⟩ | ⟨hHash, -⟩
      · rcases h with ⟨-, -, out, rfl, hVisible⟩
        rcases ih hVisible with ⟨more, rfl, hMore⟩
        exact ⟨more, rfl, hMore⟩
      · exact absurd hQuote hText
      · exact absurd hHash hError
  | text hBody hEnd hRest ih =>
      rcases hWhole.cons_cases with h | ⟨-, n, hLength, hVisible⟩ | h
      · exact absurd rfl h.1
      · rw [hBody.textLength?_append hEnd, Option.some.injEq]
          at hLength
        rw [← hLength, ← List.drop_drop, List.drop_left] at hVisible
        exact ih hVisible
      · exact absurd h.1 (by decide)
  | error hCode hRest ih =>
      rename_i e code cs out' rest
      rcases hCode.exists_tail with ⟨ds, rfl⟩
      rcases hWhole.cons_cases with h | h | ⟨-, e', hError, hVisible⟩
      · exact absurd rfl h.2.1
      · exact absurd h.1 (by decide)
      · cases (hCode.errorAt?_eq _).symm.trans hError
        have hDrop :
            ('#' :: ds ++ cs).drop e.text.length = cs := by
          rw [← hCode.length_eq, List.drop_left]
        exact ih (hDrop ▸ hVisible)

/- A text whose visible brackets are well nested is fine. -/
theorem not_reason_of_visible
    (hVisible : Visible cs out [])
    (hNested : Nested charSide out)
    (fault : LexFault) :
    ¬ fault.Reason cs := by
  intro hReason
  cases fault with
  | unterminatedText =>
      rcases hReason with ⟨out', body, hPart, hBody⟩
      rcases hVisible.split hPart with ⟨more, -, hMore⟩
      rcases hMore.cons_cases with h | ⟨-, n, hLength, -⟩ | h
      · exact absurd rfl h.1
      · rw [hBody.textLength?_eq_none] at hLength
        cases hLength
      · exact absurd h.1 (by decide)
  | unknownErrorCode =>
      rcases hReason with ⟨out', ahead, hPart, hUnknown⟩
      rcases hVisible.split hPart with ⟨more, -, hMore⟩
      rcases hMore.cons_cases with h | h | ⟨-, e, hError, -⟩
      · exact absurd rfl h.2.1
      · exact absurd h.1 (by decide)
      · exact hUnknown e _ (List.drop e.text.length _)
          (spells_of_errorAt? hError)
          (List.take_append_drop _ _).symm
  | _ =>
      rcases hReason with ⟨out', rest, hPart, hBroken⟩
      rcases hVisible.split hPart with ⟨more, rfl, hMore⟩
      rcases hBroken with hBroken | ⟨rfl, hBroken⟩
      · exact hBroken more hNested
      · rw [hMore.eq_nil rfl, List.append_nil] at hNested
        exact hBroken hNested

------------------------------------------------------------
-- Acceptance And Rejection
------------------------------------------------------------

namespace Token

/- A leading equals sign is visible and no bracket. -/
theorem reason_of_lex
    {e : LexError}
    (hLex : lex cs = .error e) :
    e.fault.Reason cs := by
  apply LexFault.reason_of_reasonIn
  unfold lex at hLex
  split at hLex
  · exact .before (.single (by decide) (by decide) _) rfl
      (reasonIn_of_ofChars hLex)
  · exact reasonIn_of_ofChars hLex

theorem visible_of_lex
    {ts : List Token}
    (hLex : lex cs = .ok ts) :
    ∃ out, Visible cs out [] ∧ Nested charSide out := by
  unfold lex at hLex
  split at hLex
  · rcases visible_of_ofChars hLex with ⟨out, hVisible, hOpen⟩
    refine ⟨_, .plain (by decide) (by decide) hVisible, ?_⟩
    exact .entry rfl (nested_iff.mpr hOpen)
  · rcases visible_of_ofChars hLex with ⟨out, hVisible, hOpen⟩
    exact ⟨out, hVisible, nested_iff.mpr hOpen⟩

/-
  The tokens of a formula that splits are of the kinds that
  the brackets and operands around them ask for. A formula is
  rejected exactly for an open text, an unknown error value or
  brackets that are not well nested, and the fault tells which.
-/
theorem lex_classified_or_rejected (cs : List Char) :
    (∀ ts, lex cs = .ok ts → Classified ts) ∧
      (∀ e, lex cs = .error e → e.fault.Reason cs) ∧
      ∀ fault : LexFault,
        fault.Reason cs → ∃ e, lex cs = .error e := by
  refine ⟨fun ts => classified_of_lex, fun e => reason_of_lex, ?_⟩
  intro fault hReason
  cases hLex : lex cs with
  | error e => exact ⟨e, rfl⟩
  | ok ts =>
      rcases visible_of_lex hLex with ⟨out, hVisible, hNested⟩
      exact absurd hReason
        (not_reason_of_visible hVisible hNested fault)

/- A comma of a call, one in a group, and braces that cross. -/
theorem lex_classified_or_rejected_commas :
    (∃ ts,
      lex ['F', '(', '-', '1', ',', '(', '2', ',', '3', ')', ')'] =
          .ok ts ∧
        ts.map kind =
          [.opening .call, .prefixOp, .operand .number,
            .argumentSeparator, .opening .group, .operand .number,
            .infixOp, .operand .number, .closing .group,
            .closing .call] ∧
        Classified ts) ∧
      Misnested ['\x7b', '(', '\x7d', ')'] := by
  constructor
  · have hLex :
        lex ['F', '(', '-', '1', ',', '(', '2', ',', '3', ')', ')'] =
          .ok
            [⟨.opening .call, ['F', '('], 0⟩, ⟨.prefixOp, ['-'], 2⟩,
              ⟨.operand .number, ['1'], 3⟩,
              ⟨.argumentSeparator, [','], 4⟩,
              ⟨.opening .group, ['('], 5⟩,
              ⟨.operand .number, ['2'], 6⟩, ⟨.infixOp, [','], 7⟩,
              ⟨.operand .number, ['3'], 8⟩,
              ⟨.closing .group, [')'], 9⟩,
              ⟨.closing .call, [')'], 10⟩] := by
      cbv
    exact ⟨_, hLex, rfl, (lex_classified_or_rejected _).1 _ hLex⟩
  · have hLex :
        lex ['\x7b', '(', '\x7d', ')'] =
          .error ⟨.mismatchedBrackets, 2⟩ := by
      cbv
    exact (lex_classified_or_rejected _).2.1 _ hLex

end Token

end Spreadsheet
