import Mathlib
import Spreadsheet.Proofs.Token.Segments

/-
  Well nested brackets.

  Brackets are well nested if each opener has a closer of its
  kind after it and what stands between the two is well
  nested. The lexer keeps a stack of the brackets that are
  open, whose top is the innermost bracket around the next
  token.

  Main declarations:
    * `Nested`
    * `Encloses`
    * `nested_iff`
    * `encloses_iff`
    * `Token.contexts_of_ofChars`
    * `Token.Classified`
    * `Token.classified_of_lex`
-/

namespace Spreadsheet

------------------------------------------------------------
-- Brackets In A List
------------------------------------------------------------

/- What an entry of a list is among brackets of several kinds. -/
inductive Side (β : Type) where
  | opens (b : β)
  | closes (b : β)
  | neutral

section Brackets

variable {α β : Type} {side : α → Side β} {b : β} {xs ys : List α}

/- Each bracket is closed by one of its kind, inner ones first. -/
inductive Nested (side : α → Side β) : List α → Prop where
  | nil : Nested side []
  | entry
      {x : α}
      {xs : List α}
      (hSide : side x = .neutral)
      (hRest : Nested side xs) :
      Nested side (x :: xs)
  | pair
      {x y : α}
      {inner xs : List α}
      {b : β}
      (hOpen : side x = .opens b)
      (hInner : Nested side inner)
      (hClose : side y = .closes b)
      (hRest : Nested side xs) :
      Nested side (x :: (inner ++ y :: xs))

/- A bracket of the kind is the innermost one open after a list. -/
def Encloses (side : α → Side β) (b : β) (xs : List α) : Prop :=
  ∃ before x inner,
    xs = before ++ x :: inner ∧
      side x = .opens b ∧ Nested side inner

theorem Nested.append
    (hFirst : Nested side xs)
    (hSecond : Nested side ys) :
    Nested side (xs ++ ys) := by
  induction hFirst with
  | nil => exact hSecond
  | entry hSide hRest ih => exact .entry hSide ih
  | pair hOpen hInner hClose hRest ihInner ihRest =>
      rw [List.cons_append, List.append_assoc, List.cons_append]
      exact .pair hOpen hInner hClose ihRest

theorem Nested.of_neutral
    (hNeutral : ∀ x ∈ xs, side x = .neutral) :
    Nested side xs := by
  induction xs with
  | nil => exact .nil
  | cons x xs ih =>
      rw [List.forall_mem_cons] at hNeutral
      exact .entry hNeutral.1 (ih hNeutral.2)

/- The brackets left open by an entry, innermost first. -/
def openAfterEntry
    [DecidableEq β]
    (side : α → Side β)
    (opened : List β)
    (x : α) : Option (List β) :=
  match side x with
  | .opens b => some (b :: opened)
  | .closes b =>
      if opened.head? = some b then some opened.tail else none
  | .neutral => some opened

/- The brackets left open by a list, if each closer fits. -/
def openAfter
    [DecidableEq β]
    (side : α → Side β)
    (opened : List β)
    (xs : List α) : Option (List β) :=
  xs.foldlM (openAfterEntry side) opened

variable [DecidableEq β] {opened opened' : List β} {x : α}

@[simp] theorem openAfter_nil :
    openAfter side opened [] = some opened := rfl

theorem openAfter_cons :
    openAfter side opened (x :: xs) =
      (openAfterEntry side opened x).bind (openAfter side · xs) := by
  rw [openAfter, List.foldlM_cons]
  rfl

theorem openAfter_append :
    openAfter side opened (xs ++ ys) =
      (openAfter side opened xs).bind (openAfter side · ys) := by
  rw [openAfter, List.foldlM_append]
  rfl

theorem openAfterEntry_closes
    (hSide : side x = .closes b) :
    openAfterEntry side (b :: opened) x = some opened := by
  simp [openAfterEntry, hSide]

theorem openAfterEntry_opens
    (hSide : side x = .opens b) :
    openAfterEntry side opened x = some (b :: opened) := by
  simp [openAfterEntry, hSide]

theorem openAfterEntry_neutral
    (hSide : side x = .neutral) :
    openAfterEntry side opened x = some opened := by
  simp [openAfterEntry, hSide]

/- Well nested brackets leave the ones around them open. -/
theorem Nested.openAfter_eq
    (hNested : Nested side xs)
    (opened : List β) :
    openAfter side opened xs = some opened := by
  induction hNested generalizing opened with
  | nil => rfl
  | entry hSide hRest ih =>
      rw [openAfter_cons, openAfterEntry_neutral hSide]
      exact ih opened
  | pair hOpen hInner hClose hRest ihInner ihRest =>
      rw [openAfter_cons, openAfterEntry_opens hOpen,
        Option.bind_some, openAfter_append, ihInner,
        Option.bind_some, openAfter_cons,
        openAfterEntry_closes hClose]
      exact ihRest opened

/-
  The innermost bracket is closed before the ones around it:
  between are well nested brackets only.
-/
theorem exists_closer
    (hOpen : openAfter side (b :: opened) xs = some opened')
    (hFewer : opened'.length ≤ opened.length) :
    ∃ inner y rest,
      xs = inner ++ y :: rest ∧
        Nested side inner ∧ side y = .closes b ∧
          openAfter side opened rest = some opened' := by
  induction hLength : xs.length using Nat.strongRecOn
    generalizing xs b opened with
  | ind n ih =>
      cases xs with
      | nil =>
          rw [openAfter_nil, Option.some.injEq] at hOpen
          subst hOpen
          simp at hFewer
      | cons x xs =>
          rw [List.length_cons] at hLength
          rw [openAfter_cons] at hOpen
          cases hSide : side x with
          | neutral =>
              rw [openAfterEntry_neutral hSide] at hOpen
              rcases ih _ (by omega) hOpen hFewer rfl with
                ⟨inner, y, rest, rfl, hInner, hClose, hRest⟩
              exact ⟨x :: inner, y, rest, rfl, .entry hSide hInner,
                hClose, hRest⟩
          | opens c =>
              rw [openAfterEntry_opens hSide] at hOpen
              rcases
                  ih _ (by omega) hOpen (hFewer.trans (Nat.le_succ _))
                    rfl with
                ⟨inner, y, rest, rfl, hInner, hClose, hRest⟩
              have hShorter : rest.length < n := by
                simp only [List.length_append, List.length_cons]
                  at hLength
                omega
              rcases ih _ hShorter hRest hFewer rfl with
                ⟨inner', y', rest', rfl, hInner', hClose', hRest'⟩
              refine ⟨x :: (inner ++ y :: inner'), y', rest', ?_,
                .pair hSide hInner hClose hInner', hClose', hRest'⟩
              simp
          | closes c =>
              by_cases hKind : b = c
              · subst hKind
                rw [openAfterEntry_closes hSide] at hOpen
                exact ⟨[], x, xs, rfl, .nil, hSide, hOpen⟩
              · simp [openAfterEntry, hSide, hKind] at hOpen

/- Brackets are well nested if each is closed in its turn. -/
theorem nested_iff :
    Nested side xs ↔ openAfter side [] xs = some [] := by
  refine ⟨fun hNested => hNested.openAfter_eq [], fun hOpen => ?_⟩
  induction hLength : xs.length using Nat.strongRecOn
    generalizing xs with
  | ind n ih =>
      cases xs with
      | nil => exact .nil
      | cons x xs =>
          rw [List.length_cons] at hLength
          rw [openAfter_cons] at hOpen
          cases hSide : side x with
          | neutral =>
              rw [openAfterEntry_neutral hSide] at hOpen
              exact .entry hSide (ih _ (by omega) hOpen rfl)
          | opens c =>
              rw [openAfterEntry_opens hSide] at hOpen
              rcases exists_closer hOpen (Nat.le_refl _) with
                ⟨inner, y, rest, rfl, hInner, hClose, hRest⟩
              simp only [List.length_append, List.length_cons]
                at hLength
              exact .pair hSide hInner hClose
                (ih _ (by omega) hRest rfl)
          | closes c => simp [openAfterEntry, hSide] at hOpen

/- Entries that are no brackets may be left out. -/
theorem openAfter_filter
    {p : α → Bool}
    (hNeutral : ∀ x ∈ xs, p x = false → side x = .neutral)
    (opened : List β) :
    openAfter side opened (xs.filter p) =
      openAfter side opened xs := by
  induction xs generalizing opened with
  | nil => rfl
  | cons x xs ih =>
      rw [List.forall_mem_cons] at hNeutral
      have hRest := ih hNeutral.2
      cases hKept : p x with
      | true =>
          rw [List.filter_cons_of_pos hKept, openAfter_cons,
            openAfter_cons]
          congr 1
          funext opened
          exact hRest opened
      | false =>
          rw [List.filter_cons_of_neg (by simp [hKept]),
            openAfter_cons,
            openAfterEntry_neutral (hNeutral.1 hKept)]
          exact hRest opened

/- What is open after well nested brackets behind an opener. -/
theorem openAfter_enclosed
    {inner : List α}
    (hOpen : side x = .opens b)
    (hInner : Nested side inner) :
    openAfter side opened (xs ++ x :: inner) =
      (openAfter side opened xs).map (b :: ·) := by
  rw [openAfter_append]
  cases openAfter side opened xs with
  | none => rfl
  | some opened =>
      rw [Option.bind_some, openAfter_cons, openAfterEntry_opens hOpen]
      exact hInner.openAfter_eq _

/- A closer behind well nested brackets has no opener. -/
theorem Nested.not_nested_closer
    {y : α}
    (hNested : Nested side xs)
    (hClose : side y = .closes b)
    (ys : List α) :
    ¬ Nested side (xs ++ y :: ys) := by
  rw [nested_iff, openAfter_append, nested_iff.mp hNested,
    Option.bind_some, openAfter_cons]
  simp [openAfterEntry, hClose]

/- The brackets of a list have one first closer without opener. -/
theorem Nested.closer_unique
    {y y' : α}
    {b' : β}
    {xs' ys' : List α}
    (hNested : Nested side xs)
    (hClose : side y = .closes b)
    (hNested' : Nested side xs')
    (hClose' : side y' = .closes b')
    (hSame : xs ++ y :: ys = xs' ++ y' :: ys') :
    xs = xs' ∧ y = y' ∧ ys = ys' := by
  rcases List.append_eq_append_iff.mp hSame with
    ⟨between, rfl, hRest⟩ | ⟨between, rfl, hRest⟩
  · cases between with
    | nil => simpa using hRest
    | cons x between =>
        cases hRest
        exact absurd hNested' (hNested.not_nested_closer hClose _)
  · cases between with
    | nil => simpa [eq_comm] using hRest
    | cons x between =>
        cases hRest
        exact absurd hNested (hNested'.not_nested_closer hClose' _)

/- The innermost bracket is the one that was opened last. -/
theorem encloses_of_openAfter
    (hOpen : openAfter side [] xs = some (b :: opened)) :
    Encloses side b xs := by
  induction hLength : xs.length using Nat.strongRecOn
    generalizing xs b opened with
  | ind n ih =>
      rcases List.eq_nil_or_concat xs with rfl | ⟨ys, x, rfl⟩
      · cases hOpen
      rw [List.concat_eq_append, List.length_append,
        List.length_singleton] at hLength
      rw [List.concat_eq_append, openAfter_append] at hOpen
      rcases Option.bind_eq_some_iff.mp hOpen with
        ⟨between, hBefore, hLast⟩
      rw [openAfter_cons] at hLast
      rw [List.concat_eq_append]
      cases hSide : side x with
      | neutral =>
          rw [openAfterEntry_neutral hSide] at hLast
          cases hLast
          rcases ih _ (by omega) hBefore rfl with
            ⟨before, o, inner, rfl, hOpener, hInner⟩
          exact ⟨before, o, inner ++ [x], by simp, hOpener,
            hInner.append (.entry hSide .nil)⟩
      | opens c =>
          rw [openAfterEntry_opens hSide] at hLast
          cases hLast
          exact ⟨ys, x, [], rfl, hSide, .nil⟩
      | closes c =>
          cases between with
          | nil => simp [openAfterEntry, hSide] at hLast
          | cons d between =>
              by_cases hKind : d = c
              · subst hKind
                rw [openAfterEntry_closes hSide] at hLast
                cases hLast
                rcases ih _ (by omega) hBefore rfl with
                  ⟨before, o, inner, rfl, hOpener, hInner⟩
                rw [openAfter_enclosed hOpener hInner,
                  Option.map_eq_some_iff] at hBefore
                rcases hBefore with ⟨outer, hOuter, hSame⟩
                cases hSame
                have hShorter : before.length < n := by
                  simp only [List.length_append, List.length_cons]
                    at hLength
                  omega
                rcases ih _ hShorter hOuter rfl with
                  ⟨before', o', inner', rfl, hOpener', hInner'⟩
                refine ⟨before', o', inner' ++ (o :: (inner ++ [x])),
                  by simp, hOpener', hInner'.append ?_⟩
                exact .pair hOpener hInner hSide .nil
              · simp [openAfterEntry, hSide, hKind] at hLast

theorem encloses_iff
    (hOpen : openAfter side [] xs = some opened) :
    Encloses side b xs ↔ opened.head? = some b := by
  constructor
  · rintro ⟨before, x, inner, rfl, hSide, hInner⟩
    rw [openAfter_enclosed hSide hInner, Option.map_eq_some_iff]
      at hOpen
    rcases hOpen with ⟨outer, -, rfl⟩
    rfl
  · intro hHead
    cases opened with
    | nil => cases hHead
    | cons c opened =>
        cases hHead
        exact encloses_of_openAfter hOpen

end Brackets

------------------------------------------------------------
-- Brackets Of Formulas
------------------------------------------------------------

namespace Token

/- What a token is among the brackets of its formula. -/
def side (t : Token) : Side Bracket :=
  match t.kind with
  | .opening b => .opens b
  | .closing b => .closes b
  | _ => .neutral

/- The tokens that are no blanks. -/
def solid (ts : List Token) : List Token :=
  ts.filter fun t => !t.isBlank

/- The last of the tokens that is no blank. -/
def lastSolid? (ts : List Token) : Option Token :=
  (solid ts).getLast?

/- The context in which a list of tokens leaves what follows. -/
def contextAfter? (ctx : LexContext) (ts : List Token) :
    Option LexContext :=
  (openAfter side ctx.opened ts).map fun opened =>
    ⟨opened, ((lastSolid? ts).map endsOperand).getD ctx.afterOperand⟩

/- The stack of the lexer holds the brackets that are open. -/
theorem openAfterEntry_of_classify
    {ctx : LexContext}
    {lexeme : Lexeme}
    {t : Token}
    {opened : List Bracket}
    (hKind : ctx.classify lexeme t.chars = .ok (t.kind, opened)) :
    openAfterEntry side ctx.opened t = some opened := by
  rcases t with ⟨kind, chars, start⟩
  dsimp only at hKind
  cases lexeme with
  | «open» b => cases hKind; rfl
  | close brace =>
      simp only [LexContext.classify] at hKind
      split at hKind
      · cases hKind
      · rename_i b outer hOpened
        split at hKind
        · cases hKind
          rw [hOpened]
          exact openAfterEntry_closes rfl
        · cases hKind
  | sign =>
      obtain ⟨rfl, rfl⟩ := Prod.mk.inj (Except.ok.inj hKind)
      apply openAfterEntry_neutral
      unfold side
      cases ctx.afterOperand <;> rfl
  | comma =>
      obtain ⟨rfl, rfl⟩ := Prod.mk.inj (Except.ok.inj hKind)
      apply openAfterEntry_neutral
      unfold side
      cases ctx.inList <;> rfl
  | _ =>
      obtain ⟨rfl, rfl⟩ := Prod.mk.inj (Except.ok.inj hKind)
      rfl

theorem contextAfter?_cons
    {ctx : LexContext}
    {t : Token}
    {opened : List Bracket}
    (hOpen : openAfterEntry side ctx.opened t = some opened)
    (ts : List Token) :
    contextAfter? ctx (t :: ts) =
      contextAfter? (ctx.after t opened) ts := by
  have hLast :
      ((lastSolid? (t :: ts)).map endsOperand).getD
          ctx.afterOperand =
        ((lastSolid? ts).map endsOperand).getD
          (ctx.after t opened).afterOperand := by
    unfold lastSolid? solid LexContext.after
    cases hBlank : t.isBlank with
    | true => simp [hBlank]
    | false =>
        rw [List.filter_cons_of_pos (by simp [hBlank]),
          List.getLast?_cons]
        cases (ts.filter fun t => !t.isBlank).getLast? <;> simp
  rw [contextAfter?, openAfter_cons, hOpen, Option.bind_some, hLast]
  rfl

/-
  Each token is of the kind that the tokens before it ask for,
  and no bracket is open after the last one.
-/
theorem contexts_of_ofChars
    {ctx : LexContext}
    {offset : Nat}
    {cs : List Char}
    {ts : List Token}
    (hTokens : ofChars ctx offset cs = .ok ts) :
    (∀ before t after, ts = before ++ t :: after →
        ∃ ctx' lexeme opened following,
          contextAfter? ctx before = some ctx' ∧
            ctx'.classify lexeme t.chars = .ok (t.kind, opened) ∧
              lexeme.Starts t.chars following) ∧
      openAfter side ctx.opened ts = some [] := by
  induction hLength : cs.length using Nat.strongRecOn
    generalizing ctx offset cs ts with
  | ind n ih =>
      cases cs with
      | nil =>
          rw [ofChars] at hTokens
          split at hTokens
          · rename_i hClosed
            cases hTokens
            refine ⟨fun before t after hEq => ?_, ?_⟩
            · cases before <;> cases hEq
            · rw [openAfter_nil, List.isEmpty_iff.mp hClosed]
          · cases hTokens
      | cons c cs =>
          rcases Segment.ofChars_cons_eq_ok hTokens with
            ⟨lexeme, m, kind, opened, rest, hNext, hKind, hRest, rfl⟩
          have hShorter : (cs.drop m).length < n := by
            rw [← hLength, List.length_drop, List.length_cons]
            omega
          have hOpen := openAfterEntry_of_classify
            (t := ⟨kind, c :: cs.take m, offset⟩) hKind
          rcases ih _ hShorter hRest rfl with ⟨hLater, hClosed⟩
          refine ⟨fun before t after hEq => ?_, ?_⟩
          · cases before with
            | nil =>
                cases hEq
                refine ⟨ctx, lexeme, opened, cs.drop m, ?_, hKind,
                  c, cs.take m, rfl, ?_⟩
                · rfl
                · rw [List.take_append_drop, hNext,
                    List.length_take_of_le
                      (Lexeme.first_of_next hNext).le]
            | cons u before =>
                cases hEq
                rw [contextAfter?_cons hOpen]
                exact hLater before t after rfl
          · rw [openAfter_cons, hOpen]
            exact hClosed

------------------------------------------------------------
-- Commas And Signs
------------------------------------------------------------

/-
  A comma directly inside a call or an array separates, every
  other one is an operator.
-/
def IsComma (before : List Token) (t : Token) : Prop :=
  (t.kind = .argumentSeparator ↔
      Encloses side .call before ∨ Encloses side .array before) ∧
    (t.kind = .argumentSeparator ∨ t.kind = .infixOp)

/-
  A sign stands between operands if the last token before it
  that is no blank ends one, and before an operand otherwise.
-/
def IsSign (before : List Token) (t : Token) : Prop :=
  (t.kind = .infixOp ↔
      ∃ u, lastSolid? before = some u ∧ u.endsOperand = true) ∧
    (t.kind = .infixOp ∨ t.kind = .prefixOp)

theorem isComma_of_classify
    {ctx : LexContext}
    {before : List Token}
    {t : Token}
    {opened : List Bracket}
    (hContext : contextAfter? .start before = some ctx)
    (hKind : ctx.classify .comma t.chars = .ok (t.kind, opened)) :
    IsComma before t := by
  rcases Option.map_eq_some_iff.mp hContext with
    ⟨stack, hOpen, rfl⟩
  have hSame := (Prod.mk.inj (Except.ok.inj hKind)).1
  rw [IsComma, encloses_iff hOpen, encloses_iff hOpen, ← hSame]
  unfold LexContext.inList
  rcases stack with _ | ⟨b, outer⟩
  · simp
  · cases b <;> simp

theorem isSign_of_classify
    {ctx : LexContext}
    {before : List Token}
    {t : Token}
    {opened : List Bracket}
    (hContext : contextAfter? .start before = some ctx)
    (hKind : ctx.classify .sign t.chars = .ok (t.kind, opened)) :
    IsSign before t := by
  rcases Option.map_eq_some_iff.mp hContext with
    ⟨stack, hOpen, rfl⟩
  have hSame := (Prod.mk.inj (Except.ok.inj hKind)).1
  rw [IsSign, ← hSame]
  cases lastSolid? before with
  | none => simp [LexContext.start]
  | some u => cases u.endsOperand <;> simp

/- A lexeme that is a single comma or sign is read as one. -/
theorem lexeme_of_starts
    {lexeme lexeme' : Lexeme}
    {c : Char}
    {following : List Char}
    (hStarts : lexeme.Starts [c] following)
    (hFirst : Lexeme.First c following lexeme' 0) :
    lexeme = lexeme' := by
  rcases hStarts with ⟨d, ds, hChars, hNext⟩
  cases hChars
  rw [List.nil_append, Lexeme.next_of_first hFirst] at hNext
  cases hNext
  rfl

/-
  The tokens of a formula: their brackets are well nested, and
  their commas and signs are what stands before them asks for.
-/
structure Classified (ts : List Token) : Prop where
  nested : Nested side ts
  comma :
    ∀ before t after, ts = before ++ t :: after →
      t.chars = [','] → IsComma before t
  sign :
    ∀ before t after, ts = before ++ t :: after →
      t.chars = ['+'] ∨ t.chars = ['-'] → IsSign before t

theorem classified_of_ofChars
    {offset : Nat}
    {cs : List Char}
    {ts : List Token}
    (hTokens : ofChars .start offset cs = .ok ts) :
    Classified ts := by
  rcases contexts_of_ofChars hTokens with ⟨hContexts, hClosed⟩
  refine ⟨nested_iff.mpr hClosed, ?_, ?_⟩
  · intro before t after hSplit hChars
    rcases hContexts before t after hSplit with
      ⟨ctx, lexeme, opened, following, hContext, hKind, hStarts⟩
    rw [hChars] at hStarts
    have hLexeme : lexeme = .comma :=
      lexeme_of_starts hStarts (.alone (by decide))
    subst hLexeme
    exact isComma_of_classify hContext hKind
  · intro before t after hSplit hChars
    rcases hContexts before t after hSplit with
      ⟨ctx, lexeme, opened, following, hContext, hKind, hStarts⟩
    have hLexeme : lexeme = .sign := by
      rcases hChars with hChars | hChars <;> rw [hChars] at hStarts
      · refine lexeme_of_starts hStarts (.operator (by decide) ?_)
        cases following <;> rfl
      · refine lexeme_of_starts hStarts (.operator (by decide) ?_)
        cases following <;> rfl
    subst hLexeme
    exact isSign_of_classify hContext hKind

/- The context at the start does not depend on a leading `=`. -/
theorem classified_of_lex
    {cs : List Char}
    {ts : List Token}
    (hLex : lex cs = .ok ts) :
    Classified ts := by
  unfold lex at hLex
  split at hLex <;> exact classified_of_ofChars hLex

end Token

end Spreadsheet
