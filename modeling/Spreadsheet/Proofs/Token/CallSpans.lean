import Mathlib
import Spreadsheet.Proofs.Expr.Derivations
import Spreadsheet.Proofs.Token.Nesting
import Spreadsheet.Proofs.Token.Tiling

/-
  Calls among the tokens of a formula.

  A call starts with its name and goes on up to the parenthesis
  that closes it: between the two, brackets are well nested.
  So separators between its arguments are those outside of all
  brackets, and its text is cut out between two characters.

  Main declarations:
    * `Token.Call`
    * `Token.argumentCount`
    * `Token.Cut`
    * `Token.cut_of_lex`
-/

namespace Spreadsheet

namespace Token

------------------------------------------------------------
-- Calls And Their Arguments
------------------------------------------------------------

/- The tokens between two are those inside a call. -/
structure Call (t : Token) (inner : List Token) (w : Token) : Prop where
  opening : t.kind = .opening .call
  inner : Nested side inner
  closing : w.kind = .closing .call

/- The separators of arguments outside of all brackets. -/
def separators : Nat → List Token → Nat
  | _, [] => 0
  | depth, t :: ts =>
      match t.side with
      | .opens _ => separators (depth + 1) ts
      | .closes _ => separators (depth - 1) ts
      | .neutral =>
          (if depth = 0 ∧ t.kind = .argumentSeparator then 1 else 0) +
            separators depth ts

/-
  The number of arguments of a call, by the tokens in it that
  are no blanks: each separator has one on both sides, which
  may be omitted.
-/
def argumentCount (inner : List Token) : Nat :=
  if inner = [] then 0 else separators 0 inner + 1

variable {t w : Token} {ts us inner : List Token}

theorem separators_opens
    {b : Bracket}
    {depth : Nat}
    (hSide : t.side = .opens b) :
    separators depth (t :: ts) = separators (depth + 1) ts := by
  rw [separators, hSide]

theorem separators_closes
    {b : Bracket}
    {depth : Nat}
    (hSide : t.side = .closes b) :
    separators (depth + 1) (t :: ts) = separators depth ts := by
  rw [separators, hSide]
  rfl

/- Inside brackets, no separator is outside of all brackets. -/
theorem separators_inside
    (hNested : Nested side ts)
    (depth : Nat)
    (us : List Token) :
    separators (depth + 1) (ts ++ us) = separators (depth + 1) us := by
  induction hNested generalizing depth us with
  | nil => rfl
  | entry hSide hRest ih =>
      rw [List.cons_append, separators, hSide]
      simp [ih]
  | pair hOpen hInner hClose hRest ihInner ihRest =>
      rw [List.cons_append, List.append_assoc, List.cons_append,
        separators_opens hOpen, ihInner, separators_closes hClose,
        ihRest]

/- Well nested brackets end where they started. -/
theorem separators_append
    (hNested : Nested side ts)
    (us : List Token) :
    separators 0 (ts ++ us) = separators 0 ts + separators 0 us := by
  induction hNested with
  | nil => simp [separators]
  | entry hSide hRest ih =>
      rw [List.cons_append, separators, separators, hSide]
      simp only [ih]
      omega
  | pair hOpen hInner hClose hRest ihInner ihRest =>
      rw [List.cons_append, List.append_assoc, List.cons_append,
        separators_opens hOpen, separators_inside hInner,
        separators_closes hClose, ihRest, separators_opens hOpen,
        separators_inside hInner, separators_closes hClose]

/- No separator stands outside the brackets of an enclosed part. -/
theorem separators_enclosed
    {b : Bracket}
    (hOpen : t.side = .opens b)
    (hInner : Nested side ts)
    (hClose : w.side = .closes b) :
    separators 0 (t :: ts ++ [w]) = 0 := by
  rw [List.cons_append, separators_opens hOpen,
    separators_inside hInner, separators_closes hClose]
  rfl

------------------------------------------------------------
-- Calls And Blanks
------------------------------------------------------------

theorem side_of_isBlank
    (hBlank : t.isBlank = true) :
    t.side = .neutral := by
  rw [side, beq_iff_eq.mp hBlank]

theorem nested_of_solid
    (hNested : Nested side (solid ts)) :
    Nested side ts := by
  rw [nested_iff] at hNested ⊢
  rw [← hNested]
  refine (openAfter_filter (fun t _ hBlank => ?_) []).symm
  exact side_of_isBlank (by simpa using hBlank)

/- Blanks may stand inside a call. -/
theorem Call.of_solid
    (hCall : Call t (solid inner) w) :
    Call t inner w :=
  ⟨hCall.opening, nested_of_solid hCall.inner, hCall.closing⟩

@[simp] theorem solid_solid (ts : List Token) :
    solid (solid ts) = solid ts := by
  simp [solid]

theorem exists_of_solid_cons
    (hSolid : solid ts = t :: us) :
    ∃ blanks ts',
      ts = blanks ++ t :: ts' ∧
        solid ts' = us ∧ ∀ u ∈ blanks, u.isBlank = true := by
  rcases List.filter_eq_cons_iff.mp hSolid with
    ⟨blanks, ts', rfl, hBlanks, -, hRest⟩
  exact ⟨blanks, ts', rfl, hRest, by simpa using hBlanks⟩

/- A call among the tokens that are no blanks is one among all. -/
theorem exists_of_solid_call
    {after : List Token}
    (hSolid : solid ts = inner ++ w :: after) :
    ∃ inner' after',
      ts = inner' ++ w :: after' ∧
        solid inner' = inner ∧ solid after' = after := by
  rcases List.filter_eq_append_iff.mp hSolid with
    ⟨xs, ys, rfl, hInner, hLast⟩
  rcases exists_of_solid_cons hLast with
    ⟨blanks, after', rfl, hAfter, hBlanks⟩
  refine ⟨xs ++ blanks, after', by simp, ?_, hAfter⟩
  have hNone : solid blanks = [] := by
    simpa [solid] using hBlanks
  rw [solid, List.filter_append]
  change solid xs ++ solid blanks = inner
  rw [hNone, List.append_nil]
  exact hInner

------------------------------------------------------------
-- Spans Of Calls
------------------------------------------------------------

theorem side_of_opening
    {b : Bracket}
    (hKind : t.kind = .opening b) :
    t.side = .opens b := by
  rw [side, hKind]

theorem side_of_closing
    {b : Bracket}
    (hKind : t.kind = .closing b) :
    t.side = .closes b := by
  rw [side, hKind]

/- The tokens of a formula tile it, but for a leading sign. -/
theorem tile_of_lex
    {source : List Char}
    (hLex : lex source = .ok ts) :
    ∃ lead,
      source = lead ++ render ts ∧
        Tile (Text.byteLength lead) (Text.byteLength source) ts := by
  rcases lex_eq source with ⟨lead, hSource, hBody⟩
  rw [hBody, ofChars_eq_verdict] at hLex
  rcases reads_scan .start (Text.byteLength lead)
      (Formula.body source) with ⟨rest, hReads⟩
  generalize scan _ _ _ = read at hLex hReads
  rw [verdict] at hLex
  split at hLex
  · rename_i hDone
    cases hLex
    have hCovers := hReads.covers
    rw [hReads.done hDone, List.append_nil] at hCovers
    rw [hCovers] at hSource
    refine ⟨lead, hSource, ?_⟩
    rw [hSource, Text.byteLength_append]
    exact hReads.tile
  · cases hLex

theorem Tile.start_eq
    {start stop : Nat}
    {before after : List Token}
    (hTile : Tile start stop (before ++ t :: after)) :
    t.start = start + Text.byteLength (render before) := by
  induction before generalizing start with
  | nil => exact hTile.1
  | cons u before ih =>
      rw [ih hTile.2.2, render_cons, Text.byteLength_append, stop_eq,
        hTile.1, Nat.add_assoc]

/-
  What is cut out of a text as a call: it starts with the name
  and ends with the closing parenthesis, both between two
  characters of the text, and has all that stands in between.
-/
structure Cut
    (source : List Char)
    (t : Token)
    (inner : List Token)
    (w : Token) : Prop where
  name : t.chars = t.functionName.toList ++ ['(']
  paren : w.chars = [')']
  start : Text.IsBoundary source t.start
  stop : Text.IsBoundary source w.stop
  order : t.start < w.stop
  chars :
    Text.slice source t.start w.stop =
      t.chars ++ render inner ++ w.chars
  bytes :
    (Text.slice source t.start w.stop).utf8Encode =
      Text.bytesBetween source t.start w.stop

/- The characters that open a call are a name and a parenthesis. -/
theorem name_of_starts
    {following : List Char}
    (hStarts : (Lexeme.open .call).Starts t.chars following) :
    t.chars = t.functionName.toList ++ ['('] := by
  have hLast : ∃ cs, t.chars = cs ++ ['('] := by
    rcases hStarts with ⟨c, cs, hChars, hNext⟩
    rw [hChars]
    rw [Lexeme.next_eq_ok] at hNext
    generalize hLexeme : Lexeme.open .call = lexeme at hNext
    generalize hLength : cs.length = n at hNext
    cases hNext with
    | alone hAlone =>
        rw [← hLexeme] at hAlone
        simp [Lexeme.alone] at hAlone
    | operator hSign hOperator =>
        rw [← hLexeme] at hOperator
        unfold Lexeme.operator? at hOperator
        (repeat' split at hOperator) <;> cases hOperator
    | word hOrdinary hWord =>
        rw [← hLexeme] at hWord
        unfold Lexeme.wordOrCall at hWord
        dsimp only at hWord
        split at hWord
        · rename_i hOpen
          have hWordLength := (Prod.mk.inj hWord).2
          generalize Lexeme.wordLength _ _ = m at hOpen hWordLength
          rw [← hLength] at hWordLength
          rw [List.head?_drop, List.getElem?_append_left (by omega)]
            at hOpen
          have hLast : cs.getLast? = some '(' := by
            rw [List.getLast?_eq_getElem?, ← hOpen]
            congr 1
            omega
          refine ⟨c :: cs.dropLast, ?_⟩
          rw [List.cons_append, List.dropLast_append_getLast? _ hLast]
        · cases hWord
    | text => cases hLexeme
    | error => cases hLexeme
    | blank => cases hLexeme
  rcases hLast with ⟨cs, hChars⟩
  simp [functionName, hChars]

theorem paren_of_starts
    {following : List Char}
    (hStarts : (Lexeme.close false).Starts w.chars following) :
    w.chars = [')'] := by
  rcases hStarts with ⟨c, cs, hChars, hNext⟩
  rw [hChars]
  rw [Lexeme.next_eq_ok] at hNext
  generalize hLexeme : Lexeme.close false = lexeme at hNext
  generalize hLength : cs.length = n at hNext
  cases hNext with
  | alone hAlone =>
      rw [List.length_eq_zero_iff.mp hLength]
      rw [← hLexeme] at hAlone
      have hParen : c = ')' := by simpa [Lexeme.alone] using hAlone
      rw [hParen]
  | operator hSign hOperator =>
      rw [← hLexeme] at hOperator
      unfold Lexeme.operator? at hOperator
      (repeat' split at hOperator) <;> cases hOperator
  | word hOrdinary hWord =>
      rw [← hLexeme] at hWord
      unfold Lexeme.wordOrCall at hWord
      dsimp only at hWord
      split at hWord <;> cases hWord
  | text => cases hLexeme
  | error => cases hLexeme
  | blank => cases hLexeme

/- A bracket is read off as the lexeme of its kind. -/
theorem starts_of_lex
    {source : List Char}
    {before after : List Token}
    (hLex : lex source = .ok ts)
    (hSplit : ts = before ++ t :: after) :
    ∃ lexeme following,
      Segment.Suits t.chars lexeme t.kind ∧
        lexeme.Starts t.chars following := by
  rcases lex_eq source with ⟨lead, hSource, hBody⟩
  rw [hBody] at hLex
  rcases (contexts_of_ofChars hLex).1 before t after hSplit with
    ⟨ctx, lexeme, opened, following, -, hKind, hStarts⟩
  exact ⟨lexeme, following, Segment.suits_of_classify hKind, hStarts⟩

theorem name_of_lex
    {source : List Char}
    {before after : List Token}
    (hLex : lex source = .ok ts)
    (hSplit : ts = before ++ t :: after)
    (hOpen : t.kind = .opening .call) :
    t.chars = t.functionName.toList ++ ['('] := by
  rcases starts_of_lex hLex hSplit with
    ⟨lexeme, following, hSuits, hStarts⟩
  rw [hOpen] at hSuits
  cases hSuits
  exact name_of_starts hStarts

theorem paren_of_lex
    {source : List Char}
    {before after : List Token}
    (hLex : lex source = .ok ts)
    (hSplit : ts = before ++ w :: after)
    (hClose : w.kind = .closing .call) :
    w.chars = [')'] := by
  rcases starts_of_lex hLex hSplit with
    ⟨lexeme, following, hSuits, hStarts⟩
  rw [hClose] at hSuits
  cases hSuits
  exact paren_of_starts hStarts

/- Calls are cut out of a formula as they stand in it. -/
theorem cut_of_lex
    {source : List Char}
    {before after : List Token}
    (hLex : lex source = .ok ts)
    (hSplit : ts = before ++ t :: (inner ++ w :: after))
    (hCall : Call t inner w) :
    Cut source t inner w := by
  have hSplit' : ts = (before ++ t :: inner) ++ w :: after := by
    rw [hSplit]
    simp
  have hName := name_of_lex hLex hSplit hCall.opening
  have hParen := paren_of_lex hLex hSplit' hCall.closing
  rcases tile_of_lex hLex with ⟨lead, hSource, hTile⟩
  have hStart :
      t.start = Text.byteLength (lead ++ render before) := by
    rw [hSplit] at hTile
    rw [hTile.start_eq, Text.byteLength_append]
  have hStop :
      w.stop =
        Text.byteLength (lead ++ render before) +
          Text.byteLength (t.chars ++ render inner ++ w.chars) := by
    rw [hSplit'] at hTile
    rw [stop_eq, hTile.start_eq]
    simp [render, Nat.add_assoc]
  have hWhole :
      source =
        (lead ++ render before) ++
          ((t.chars ++ render inner ++ w.chars) ++ render after) := by
    rw [hSource, hSplit]
    simp [render]
  have hSlice :
      Text.slice source t.start w.stop =
        t.chars ++ render inner ++ w.chars := by
    rw [hStart, hStop, hWhole, Text.slice_append]
  refine ⟨hName, hParen, ?_, ?_, ?_, hSlice, ?_⟩
  · rw [hStart, hWhole]
    exact Text.isBoundary_append _ _
  · rw [hStop, ← Text.byteLength_append, hWhole, ← List.append_assoc]
    exact Text.isBoundary_append _ _
  · have hSome : t.chars ++ render inner ++ w.chars ≠ [] := by
      simp [hParen]
    have := byteLength_pos hSome
    omega
  · rw [hSlice, hStart, hStop, hWhole, Text.bytesBetween_append]

end Token

end Spreadsheet
