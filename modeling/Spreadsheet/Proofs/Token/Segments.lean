import Spreadsheet.Proofs.Token.Lexemes

/-
  The segments of a formula's text.

  A segment is a token with the blanks before it. A text splits
  into tokens exactly if it is a list of segments, each of which
  starts where it stands and fits the brackets that are open
  there.

  Main declarations:
    * `Segment`
    * `Segment.Lays`
    * `Segment.Fits`
    * `Segment.Genuine`
    * `Segment.Splits`
    * `Segment.of_ofChars`
    * `Segment.ofChars_of_splits`
-/

namespace Spreadsheet

------------------------------------------------------------
-- Segments
------------------------------------------------------------

/- A token with the blanks before it. -/
structure Segment where
  gap : List Char
  lexeme : Lexeme
  chars : List Char
  kind : TokenKind

namespace Segment

/- The text of a segment. -/
def text (u : Segment) : List Char :=
  u.gap ++ u.chars

/- The text of a list of segments. -/
def render (us : List Segment) : List Char :=
  us.flatMap text

/- The token of a segment that stands at a given byte. -/
def token (u : Segment) (start : Nat) : Token :=
  ⟨u.kind, u.chars, start⟩

@[simp] theorem token_kind (u : Segment) (start : Nat) :
    (u.token start).kind = u.kind := rfl

@[simp] theorem token_chars (u : Segment) (start : Nat) :
    (u.token start).chars = u.chars := rfl

/- The tokens of segments whose text starts at a given byte. -/
def tokens (offset : Nat) : List Segment → List Token
  | [] => []
  | u :: us =>
      u.token (offset + Text.byteLength u.gap) ::
        tokens (offset + Text.byteLength u.text) us

@[simp] theorem render_nil : render [] = [] := rfl

@[simp] theorem render_cons (u : Segment) (us : List Segment) :
    render (u :: us) = u.text ++ render us := rfl

@[simp] theorem render_append (us vs : List Segment) :
    render (us ++ vs) = render us ++ render vs := by
  simp [render]

theorem tokens_append (offset : Nat) (us vs : List Segment) :
    tokens offset (us ++ vs) =
      tokens offset us ++
        tokens (offset + Text.byteLength (render us)) vs := by
  induction us generalizing offset with
  | nil => simp [tokens, Text.byteLength]
  | cons u us ih =>
      simp [tokens, ih, Nat.add_assoc]

@[simp] theorem length_tokens (offset : Nat) (us : List Segment) :
    (tokens offset us).length = us.length := by
  induction us generalizing offset with
  | nil => rfl
  | cons u us ih => simp [tokens, ih]

/- All characters are blanks of formulas. -/
def IsGap (cs : List Char) : Prop :=
  ∀ c ∈ cs, Lexeme.isSpace c = true

------------------------------------------------------------
-- Segments That Stand In A Text
------------------------------------------------------------

/- A segment starts where it stands, after its blanks. -/
structure Stands (following : List Char) (u : Segment) : Prop where
  gap : IsGap u.gap
  lexeme : u.lexeme ≠ .blank
  starts : u.lexeme.Starts u.chars following

/- Each segment starts where it stands. -/
def Lays (following : List Char) : List Segment → Prop
  | [] => True
  | u :: us =>
      u.Stands (render us ++ following) ∧ Lays following us

/- Each segment is of the kind that its context asks for. -/
def Fits (ctx : LexContext) : List Segment → LexContext → Prop
  | [], ctx' => ctx = ctx'
  | u :: us, ctx' =>
      ∃ opened,
        ctx.classify u.lexeme u.chars = .ok (u.kind, opened) ∧
          Fits (ctx.after (u.token 0) opened) us ctx'

theorem lays_append
    {following : List Char}
    {us vs : List Segment} :
    Lays following (us ++ vs) ↔
      Lays (render vs ++ following) us ∧ Lays following vs := by
  induction us with
  | nil => simp [Lays]
  | cons u us ih =>
      simp [Lays, ih, List.append_assoc, and_assoc]

theorem fits_append
    {ctx ctx' : LexContext}
    {us vs : List Segment} :
    Fits ctx (us ++ vs) ctx' ↔
      ∃ between, Fits ctx us between ∧ Fits between vs ctx' := by
  induction us generalizing ctx with
  | nil => simp [Fits]
  | cons u us ih =>
      simp only [List.cons_append, Fits, ih]
      constructor
      · rintro ⟨opened, hKind, between, hFirst, hSecond⟩
        exact ⟨between, ⟨opened, hKind, hFirst⟩, hSecond⟩
      · rintro ⟨between, ⟨opened, hKind, hFirst⟩, hSecond⟩
        exact ⟨opened, hKind, between, hFirst, hSecond⟩

theorem Fits.append
    {ctx between ctx' : LexContext}
    {us vs : List Segment}
    (hFirst : Fits ctx us between)
    (hSecond : Fits between vs ctx') :
    Fits ctx (us ++ vs) ctx' :=
  fits_append.mpr ⟨between, hFirst, hSecond⟩

------------------------------------------------------------
-- Kinds Of Segments
------------------------------------------------------------

/- The kinds that a lexeme can have, by where it stands. -/
inductive Suits (cs : List Char) : Lexeme → TokenKind → Prop where
  | text : Suits cs .text (.operand .text)
  | error (e : ErrorValue) : Suits cs (.error e) (.operand (.error e))
  | word : Suits cs .word (.operand (Lexeme.wordKind cs))
  | blank : Suits cs .blank .blank
  | operator : Suits cs .operator .infixOp
  | percent : Suits cs .percent .postfixOp
  | signBetween : Suits cs .sign .infixOp
  | signBefore : Suits cs .sign .prefixOp
  | opening (b : Bracket) : Suits cs (.open b) (.opening b)
  | closing (b : Bracket) :
      Suits cs (.close (b == .array)) (.closing b)
  | semicolon : Suits cs .semicolon .rowSeparator
  | separator : Suits cs .comma .argumentSeparator
  | comma : Suits cs .comma .infixOp

theorem suits_of_classify
    {ctx : LexContext}
    {lexeme : Lexeme}
    {cs : List Char}
    {kind : TokenKind}
    {opened : List Bracket}
    (hKind : ctx.classify lexeme cs = .ok (kind, opened)) :
    Suits cs lexeme kind := by
  unfold LexContext.classify at hKind
  split at hKind
  case h_7 =>
    rw [Except.ok.injEq, Prod.mk.injEq] at hKind
    rw [← hKind.1]
    split
    · exact .signBetween
    · exact .signBefore
  case h_9 brace =>
    split at hKind
    · cases hKind
    · rename_i b outer hOpened
      split at hKind
      · rename_i hBrace
        cases hKind
        rw [← hBrace]
        exact .closing b
      · cases hKind
  case h_11 =>
    rw [Except.ok.injEq, Prod.mk.injEq] at hKind
    rw [← hKind.1]
    split
    · exact .separator
    · exact .comma
  all_goals
    cases hKind
    constructor

/- A segment is of a kind that its lexeme can have. -/
structure Genuine (u : Segment) : Prop where
  suits : Suits u.chars u.lexeme u.kind
  comma : u.lexeme = .comma → u.chars = [',']

theorem genuine_of_fits
    {ctx ctx' : LexContext}
    {following : List Char}
    {us : List Segment}
    (hLays : Lays following us)
    (hFits : Fits ctx us ctx') :
    ∀ u ∈ us, u.Genuine := by
  induction us generalizing ctx with
  | nil => simp
  | cons u us ih =>
      rcases hLays with ⟨hStands, hLays⟩
      rcases hFits with ⟨opened, hKind, hFits⟩
      rintro v hv
      rcases List.mem_cons.mp hv with rfl | hv
      · refine ⟨suits_of_classify hKind, fun hComma => ?_⟩
        exact Lexeme.eq_of_starts_comma (hComma ▸ hStands.starts)
      · exact ih hLays hFits v hv

/- Only a blank is of the kind of blanks. -/
theorem kind_ne_blank
    {ctx : LexContext}
    {u : Segment}
    {opened : List Bracket}
    (hLexeme : u.lexeme ≠ .blank)
    (hKind :
      ctx.classify u.lexeme u.chars = .ok (u.kind, opened)) :
    u.kind ≠ .blank := by
  intro hBlank
  have hSuits := suits_of_classify hKind
  rw [hBlank] at hSuits
  generalize u.lexeme = lexeme at hLexeme hSuits
  cases hSuits
  exact hLexeme rfl

/- A single segment fits if it is of its kind. -/
theorem fits_single
    {ctx ctx' : LexContext}
    {u : Segment}
    {opened : List Bracket}
    (hKind :
      ctx.classify u.lexeme u.chars = .ok (u.kind, opened))
    (hAfter : ctx.after (u.token 0) opened = ctx') :
    Fits ctx [u] ctx' :=
  ⟨opened, hKind, hAfter⟩

namespace Genuine

variable {u : Segment}

theorem fits_operand
    {kind : OperandKind}
    (hGenuine : u.Genuine)
    (hKind : u.kind = .operand kind)
    (opened : List Bracket)
    (after : Bool) :
    Fits ⟨opened, after⟩ [u] ⟨opened, true⟩ := by
  rcases u with ⟨gap, lexeme, chars, _⟩
  subst hKind
  have hSuits : Suits chars lexeme (.operand kind) := hGenuine.suits
  cases hSuits <;> exact fits_single rfl rfl

theorem fits_opening
    {b : Bracket}
    (hGenuine : u.Genuine)
    (hKind : u.kind = .opening b)
    (opened : List Bracket)
    (after : Bool) :
    Fits ⟨opened, after⟩ [u] ⟨b :: opened, false⟩ := by
  rcases u with ⟨gap, lexeme, chars, _⟩
  subst hKind
  cases hGenuine.suits
  exact fits_single rfl rfl

theorem fits_closing
    {b : Bracket}
    (hGenuine : u.Genuine)
    (hKind : u.kind = .closing b)
    (opened : List Bracket)
    (after : Bool) :
    Fits ⟨b :: opened, after⟩ [u] ⟨opened, true⟩ := by
  rcases u with ⟨gap, lexeme, chars, _⟩
  subst hKind
  cases hGenuine.suits
  exact fits_single (if_pos rfl) rfl

theorem fits_argumentSeparator
    {b : Bracket}
    (hGenuine : u.Genuine)
    (hKind : u.kind = .argumentSeparator)
    (hList : b ≠ .group)
    (opened : List Bracket)
    (after : Bool) :
    Fits ⟨b :: opened, after⟩ [u] ⟨b :: opened, false⟩ := by
  rcases u with ⟨gap, lexeme, chars, _⟩
  subst hKind
  cases hGenuine.suits
  cases b with
  | group => exact absurd rfl hList
  | call => exact fits_single rfl rfl
  | array => exact fits_single rfl rfl

theorem fits_rowSeparator
    (hGenuine : u.Genuine)
    (hKind : u.kind = .rowSeparator)
    (opened : List Bracket)
    (after : Bool) :
    Fits ⟨opened, after⟩ [u] ⟨opened, false⟩ := by
  rcases u with ⟨gap, lexeme, chars, _⟩
  subst hKind
  cases hGenuine.suits
  exact fits_single rfl rfl

theorem fits_prefixOp
    (hGenuine : u.Genuine)
    (hKind : u.kind = .prefixOp)
    (opened : List Bracket) :
    Fits ⟨opened, false⟩ [u] ⟨opened, false⟩ := by
  rcases u with ⟨gap, lexeme, chars, _⟩
  subst hKind
  cases hGenuine.suits
  exact fits_single rfl rfl

theorem fits_postfixOp
    (hGenuine : u.Genuine)
    (hKind : u.kind = .postfixOp)
    (opened : List Bracket)
    (after : Bool) :
    Fits ⟨opened, after⟩ [u] ⟨opened, true⟩ := by
  rcases u with ⟨gap, lexeme, chars, _⟩
  subst hKind
  cases hGenuine.suits
  exact fits_single rfl rfl

/- An operator is no comma. -/
theorem fits_infixOp
    (hGenuine : u.Genuine)
    (hKind : u.kind = .infixOp)
    (hComma : u.chars ≠ [','])
    (opened : List Bracket) :
    Fits ⟨opened, true⟩ [u] ⟨opened, false⟩ := by
  rcases u with ⟨gap, lexeme, chars, _⟩
  subst hKind
  cases hGenuine.suits with
  | operator => exact fits_single rfl rfl
  | signBetween => exact fits_single rfl rfl
  | comma => exact absurd (hGenuine.comma rfl) hComma

end Genuine

------------------------------------------------------------
-- Splitting A Text
------------------------------------------------------------

/-
  A text is a list of segments that stand where they are and
  close all brackets, and then blanks.
-/
structure Splits
    (ctx : LexContext)
    (cs : List Char)
    (us : List Segment)
    (tail : List Char) : Prop where
  covers : cs = render us ++ tail
  blanks : IsGap tail
  lays : Lays tail us
  fits : ∃ ctx', Fits ctx us ctx' ∧ ctx'.opened = []

theorem mapError_ok
    {α ε ε' : Type}
    (f : ε → ε')
    (a : α) :
    (Except.ok a : Except ε α).mapError f = .ok a := rfl

theorem mapError_error
    {α ε ε' : Type}
    (f : ε → ε')
    (e : ε) :
    (Except.error e : Except ε α).mapError f = .error (f e) := rfl

/- The first token of a text and what its rest is read as. -/
theorem ofChars_cons
    {ctx : LexContext}
    {offset n : Nat}
    {c : Char}
    {cs : List Char}
    {lexeme : Lexeme}
    {kind : TokenKind}
    {opened : List Bracket}
    (hNext : Lexeme.next c cs = .ok (lexeme, n))
    (hKind :
      ctx.classify lexeme (c :: cs.take n) = .ok (kind, opened)) :
    Token.ofChars ctx offset (c :: cs) =
      (Token.ofChars
          (ctx.after ⟨kind, c :: cs.take n, offset⟩ opened)
          (offset + Text.byteLength (c :: cs.take n))
          (cs.drop n)).map
        (⟨kind, c :: cs.take n, offset⟩ :: ·) := by
  rw [Token.ofChars]
  simp only [hNext, hKind, bind, Except.bind, mapError_ok]
  generalize hRest : Token.ofChars _ _ (cs.drop n) = rest
  cases rest <;> simp_all [Except.map, Token.stop]

theorem ofChars_cons_eq_ok
    {ctx : LexContext}
    {offset : Nat}
    {c : Char}
    {cs : List Char}
    {ts : List Token}
    (hTokens : Token.ofChars ctx offset (c :: cs) = .ok ts) :
    ∃ lexeme n kind opened rest,
      Lexeme.next c cs = .ok (lexeme, n) ∧
        ctx.classify lexeme (c :: cs.take n) = .ok (kind, opened) ∧
        Token.ofChars
            (ctx.after ⟨kind, c :: cs.take n, offset⟩ opened)
            (offset + Text.byteLength (c :: cs.take n))
            (cs.drop n) =
          .ok rest ∧
        ts = ⟨kind, c :: cs.take n, offset⟩ :: rest := by
  cases hNext : Lexeme.next c cs with
  | error fault =>
      rw [Token.ofChars, hNext] at hTokens
      cases fault <;> cases hTokens
  | ok found =>
      rcases found with ⟨lexeme, n⟩
      cases hKind : ctx.classify lexeme (c :: cs.take n) with
      | error fault =>
          rw [Token.ofChars, hNext] at hTokens
          simp [hKind, bind, Except.bind, mapError_error] at hTokens
      | ok found =>
          rcases found with ⟨kind, opened⟩
          rw [ofChars_cons hNext hKind] at hTokens
          generalize hRest : Token.ofChars _ _ (cs.drop n) = rest
            at hTokens
          cases rest with
          | error e => cases hTokens
          | ok rest =>
              cases hTokens
              exact ⟨lexeme, n, kind, opened, rest, rfl, hKind,
                hRest, rfl⟩

/- Blanks before a text go to its first segment. -/
theorem Splits.prepend
    {ctx : LexContext}
    {gap cs : List Char}
    {us : List Segment}
    {tail : List Char}
    (hSplits : Splits ctx cs us tail)
    (hGap : IsGap gap) :
    ∃ us' tail',
      Splits ctx (gap ++ cs) us' tail' ∧
        ∀ offset,
          tokens offset us' =
            tokens (offset + Text.byteLength gap) us := by
  rcases hSplits with ⟨rfl, hBlanks, hLays, hFits⟩
  cases us with
  | nil =>
      refine ⟨[], gap ++ tail, ⟨rfl, ?_, trivial, hFits⟩,
        fun _ => rfl⟩
      intro c hc
      rcases List.mem_append.mp hc with hc | hc
      · exact hGap c hc
      · exact hBlanks c hc
  | cons u us =>
      rcases hLays with ⟨hStands, hLays⟩
      refine ⟨{ u with gap := gap ++ u.gap } :: us, tail, ?_, ?_⟩
      · refine ⟨by simp [text], hBlanks, ⟨?_, hLays⟩, hFits⟩
        refine ⟨?_, hStands.lexeme, hStands.starts⟩
        intro c hc
        rcases List.mem_append.mp hc with hc | hc
        · exact hGap c hc
        · exact hStands.gap c hc
      · intro offset
        simp [tokens, text, token, Nat.add_assoc]

/- The tokens of a text are those of its segments. -/
theorem of_ofChars
    {ctx : LexContext}
    {offset : Nat}
    {cs : List Char}
    {ts : List Token}
    (hTokens : Token.ofChars ctx offset cs = .ok ts) :
    ∃ us tail,
      Splits ctx cs us tail ∧
        ts.filter (fun t => !t.isBlank) = tokens offset us := by
  induction hLength : cs.length using Nat.strongRecOn
    generalizing ctx offset cs ts with
  | ind length ih =>
      cases cs with
      | nil =>
          rw [Token.ofChars] at hTokens
          split at hTokens
          · rename_i hClosed
            cases hTokens
            exact ⟨[], [], ⟨rfl, by simp [IsGap], trivial, ctx, rfl,
              List.isEmpty_iff.mp hClosed⟩, rfl⟩
          · cases hTokens
      | cons c cs =>
          rcases ofChars_cons_eq_ok hTokens with
            ⟨lexeme, n, kind, opened, rest, hNext, hKind, hRest,
              rfl⟩
          have hFirst := Lexeme.first_of_next hNext
          have hShorter : (cs.drop n).length < length := by
            rw [← hLength, List.length_drop, List.length_cons]
            omega
          rcases ih _ hShorter hRest rfl with
            ⟨us, tail, hSplits, hTail⟩
          have hText : c :: cs = (c :: cs.take n) ++ cs.drop n := by
            simp
          by_cases hBlank : lexeme = .blank
          · subst hBlank
            cases hKind
            rcases hFirst.of_blank with ⟨hSpace, hTake⟩
            have hGap : IsGap (c :: cs.take n) := by
              intro d hd
              rcases List.mem_cons.mp hd with rfl | hd
              · exact hSpace
              · rw [hTake] at hd
                exact List.all_eq_true.mp List.all_takeWhile d hd
            rcases hSplits.prepend hGap with
              ⟨us', tail', hSplits', hTokens'⟩
            rw [← hText] at hSplits'
            exact ⟨us', tail', hSplits', by
              rw [hTokens' offset, ← hTail]
              rfl⟩
          · have hNotBlank := kind_ne_blank
              (u := ⟨[], lexeme, c :: cs.take n, kind⟩)
              hBlank hKind
            refine
              ⟨⟨[], lexeme, c :: cs.take n, kind⟩ :: us, tail,
                ⟨?_, hSplits.blanks, ⟨⟨?_, hBlank, ?_⟩,
                  hSplits.lays⟩, ?_⟩, ?_⟩
            · rw [hText, hSplits.covers]
              simp [text]
            · simp [IsGap]
            · refine ⟨c, cs.take n, rfl, ?_⟩
              rw [← hSplits.covers, List.take_append_drop, hNext,
                List.length_take_of_le hFirst.le]
            · rcases hSplits.fits with ⟨ctx', hFits, hClosed⟩
              exact ⟨ctx', ⟨opened, hKind, hFits⟩, hClosed⟩
            · rw [List.filter_cons_of_pos, hTail]
              · simp [tokens, token, text, Text.byteLength]
              · simpa [Token.isBlank] using hNotBlank

/- Blanks before a text have no tokens. -/
theorem ofChars_gap
    {ctx : LexContext}
    {gap cs : List Char}
    (hGap : IsGap gap)
    (hEnds : ∀ c, cs.head? = some c → Lexeme.isSpace c = false)
    (offset : Nat)
    (us : List Token)
    (hRest :
      ∃ ts,
        Token.ofChars ctx (offset + Text.byteLength gap) cs =
            .ok ts ∧
          ts.filter (fun t => !t.isBlank) = us) :
    ∃ ts,
      Token.ofChars ctx offset (gap ++ cs) = .ok ts ∧
        ts.filter (fun t => !t.isBlank) = us := by
  cases gap with
  | nil => exact hRest
  | cons c gap =>
      rcases hRest with ⟨ts, hTokens, hFilter⟩
      have hTake : (gap ++ cs).takeWhile Lexeme.isSpace = gap := by
        rw [List.takeWhile_append_of_pos fun d hd =>
          hGap d (List.mem_cons_of_mem c hd)]
        cases cs with
        | nil => simp
        | cons d cs => simp [hEnds d rfl]
      have hNext :
          Lexeme.next c (gap ++ cs) = .ok (.blank, gap.length) := by
        rw [Lexeme.next_of_first
          (.blank (hGap c List.mem_cons_self)), hTake]
      refine ⟨⟨.blank, c :: gap, offset⟩ :: ts, ?_, ?_⟩
      · rw [List.cons_append, ofChars_cons hNext rfl]
        simp only [List.take_left, List.drop_left]
        exact congrArg _ hTokens
      · exact hFilter

/- The text of segments that stand where they are has their tokens. -/
theorem ofChars_of_splits
    {ctx : LexContext}
    {cs : List Char}
    {us : List Segment}
    {tail : List Char}
    (hSplits : Splits ctx cs us tail)
    (offset : Nat) :
    ∃ ts,
      Token.ofChars ctx offset cs = .ok ts ∧
        ts.filter (fun t => !t.isBlank) = tokens offset us := by
  rcases hSplits with ⟨rfl, hBlanks, hLays, ctx', hFits, hClosed⟩
  induction us generalizing ctx offset with
  | nil =>
      subst hFits
      have hEmpty : ctx.opened.isEmpty = true := by
        rw [hClosed]
        rfl
      rw [render_nil, List.nil_append, ← List.append_nil tail]
      refine ofChars_gap hBlanks (by simp) offset [] ?_
      exact ⟨[], by rw [Token.ofChars, if_pos hEmpty], rfl⟩
  | cons u us ih =>
      rcases hFits with ⟨opened, hKind, hFits⟩
      rcases hLays with ⟨hStands, hLays⟩
      rcases hStands.starts with ⟨c, cs, hChars, hNext⟩
      rw [render_cons, text, List.append_assoc, List.append_assoc]
      refine ofChars_gap hStands.gap ?_ offset _ ?_
      · have hHead := hStands.starts.head_not_space hStands.lexeme
        rw [hChars] at hHead ⊢
        exact hHead
      · rcases ih (offset + Text.byteLength u.text) hLays hFits with
          ⟨ts, hTokens, hFilter⟩
        have hNotBlank := kind_ne_blank hStands.lexeme hKind
        refine ⟨u.token (offset + Text.byteLength u.gap) :: ts, ?_, ?_⟩
        · have hToken :
              Token.ofChars
                  (ctx.after
                    (u.token (offset + Text.byteLength u.gap)) opened)
                  (offset + Text.byteLength u.gap +
                    Text.byteLength u.chars)
                  (render us ++ tail) =
                .ok ts := by
            rw [Nat.add_assoc, ← Text.byteLength_append]
            exact hTokens
          simp only [token, hChars] at hKind hToken ⊢
          rw [List.cons_append, ofChars_cons hNext (by
            rwa [List.take_left])]
          simp only [List.take_left, List.drop_left, hToken]
          rfl
        · rw [List.filter_cons_of_pos, hFilter]
          · rfl
          · simpa [Token.isBlank, token] using hNotBlank

end Segment

end Spreadsheet
