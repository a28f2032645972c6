import Spreadsheet.Proofs.Expr.Reader

/-
  What is read is a phrase.

  Each function of the reader returns an expression that the
  grammar reads from the segments it took. A chain of operators
  is read on with the weakest operator that it may hold, and
  stops before operators that bind less strongly.

  Main declarations:
    * `Parse.Found`
    * `Parse.SoundBelow`
    * `Parse.soundBelow`
-/

namespace Spreadsheet

namespace Parse

------------------------------------------------------------
-- What Is Read Is A Phrase
------------------------------------------------------------

section

variable
  {ctx : ParseContext}
  {s s₁ s' : ParseState}
  {offset : Nat}
  {us left : List Segment}
  {rs : References}

/- The next segment is no operator that binds so strongly. -/
def Stops (binding : Nat) (us : List Segment) : Prop :=
  ∀ u us' op,
    us = u :: us' →
      u.kind = .infixOp →
        InfixOp.ofSymbol? (String.ofList u.chars) = some op →
          op.binding < binding

theorem stops_nil (binding : Nat) : Stops binding [] := by
  intro u us' op hEq
  cases hEq

theorem InfixOp.binding_le (op : InfixOp) : op.binding ≤ 5 := by
  cases op <;> decide

/- A chain of operators binds less strongly as well. -/
theorem Reads.lower
    {anchor : Point}
    {m n i : Nat}
    {e : Expr}
    (hReads : Reads anchor (.chain m e) us i rs)
    (hLower : n ≤ m) :
    Reads anchor (.chain n e) us i rs := by
  cases hReads with
  | operand _ hInner => exact .operand n hInner
  | operator hLeft hKind hSymbol hRight hBinding =>
      exact .operator hLeft hKind hSymbol hRight
        (Nat.le_trans hLower hBinding)

theorem Took.addReference
    (hTook : Took ctx s s' offset us left rs)
    (r : Reference) :
    Took ctx s (s'.addReference r).2 offset us left (rs ++ [r]) := by
  refine ⟨?_, hTook.stop, hTook.ahead.rest, hTook.ahead.placed⟩
  simp [ParseState.addReference, hTook.refs]

theorem operand_sound
    {u : Segment}
    {kind : OperandKind}
    {e : Expr}
    {start : Nat}
    (hKind : u.kind = .operand kind)
    (hTook : Took ctx s s₁ offset [u] left [])
    (hOk : operand ctx (u.token start) kind s₁ = .ok (e, s')) :
    ∃ rs,
      Reads ctx.anchor (.primary e) [u] s.refs.length rs ∧
        Took ctx s s' offset [u] left rs := by
  have hCount : s₁.refs.length = s.refs.length := by
    simp [hTook.refs]
  unfold operand at hOk
  split at hOk
  · split at hOk
    · rename_i r hRead
      cases hOk
      refine ⟨[r], ?_, hTook.addReference r⟩
      rw [hCount]
      exact .reference hKind hRead
    · rename_i hRead
      cases hOk
      exact ⟨[], .name hKind hRead, hTook⟩
  · rw [Except.bind_eq_ok] at hOk
    rcases hOk with ⟨⟨v, s''⟩, hConstant, hOk⟩
    rcases constant_eq_ok.mp hConstant with ⟨hValue, rfl⟩
    cases hOk
    exact ⟨[], .constant hKind hValue, hTook⟩

/- Percent signs that were read belong to the operand. -/
theorem percents_sound
    {e e' : Expr}
    {done : List Segment}
    {i : Nat}
    (hDone : Reads ctx.anchor (.scaled e) done i rs)
    (hAhead : Ahead ctx s offset us)
    (hOk : percents e s s.rest = (e', s')) :
    ∃ used left,
      us = used ++ left ∧
        Reads ctx.anchor (.scaled e') (done ++ used) i rs ∧
          Took ctx s s' offset used left [] := by
  induction us generalizing e s offset done with
  | nil =>
      rw [hAhead.rest, Segment.tokens, percents] at hOk
      have hSame : ({ s with rest := [] } : ParseState) = s := by
        rw [show ([] : List Token) = s.rest from hAhead.rest.symm]
      cases hOk
      rw [hSame]
      exact ⟨[], [], rfl, by simpa, .refl hAhead⟩
  | cons u us ih =>
      rw [hAhead.rest_cons, percents] at hOk
      split at hOk
      · rename_i hKind
        have hFirst := hAhead.advance
        rcases ih (.percent hDone hKind) hFirst.ahead hOk with
          ⟨used, left, rfl, hReads, hTook⟩
        exact ⟨u :: used, left, rfl, by simpa using hReads,
          hFirst.cons hTook⟩
      · rw [← hAhead.rest_cons] at hOk
        cases hOk
        exact ⟨[], u :: us, rfl, by simpa, .refl hAhead⟩

/- Segments at the front were read as a phrase. -/
def Found
    (ctx : ParseContext)
    (phrase : Phrase)
    (s s' : ParseState)
    (offset : Nat)
    (us left : List Segment) : Prop :=
  ∃ used rs,
    us = used ++ left ∧
      Reads ctx.anchor phrase used s.refs.length rs ∧
        Took ctx s s' offset used left rs

/- Arguments were read together with the bracket after them. -/
def FoundClosed
    (ctx : ParseContext)
    (phrase : Phrase)
    (s s' : ParseState)
    (offset : Nat)
    (us left : List Segment) : Prop :=
  ∃ used w rs,
    us = used ++ w :: left ∧
      w.kind = .closing .call ∧
        Reads ctx.anchor phrase used s.refs.length rs ∧
          Took ctx s s' offset (used ++ [w]) left rs

/-
  All functions that read a part of an expression return what
  the grammar reads, with calls at most so deep.
-/
structure SoundBelow (ctx : ParseContext) (fuel : Nat) : Prop where
  expression :
    ∀ {binding s e s' offset us}, Ahead ctx s offset us →
      Parse.expression ctx binding s fuel = .ok (e, s') →
        ∃ left, Found ctx (.chain binding e) s s' offset us left ∧
          Stops binding left
  chain :
    ∀ {binding limit left s e s' offset us done i rs},
      binding ≤ limit →
        Reads ctx.anchor (.chain limit left) done i rs →
          Stops (limit + 1) us →
            s.refs.length = i + rs.length →
              Ahead ctx s offset us →
                Parse.chain ctx binding left s fuel = .ok (e, s') →
                  ∃ used after ss,
                    us = used ++ after ∧
                      Reads ctx.anchor (.chain binding e)
                        (done ++ used) i (rs ++ ss) ∧
                        Took ctx s s' offset used after ss ∧
                          Stops binding after
  signed :
    ∀ {s e s' offset us}, Ahead ctx s offset us →
      Parse.signed ctx s fuel = .ok (e, s') →
        ∃ left, Found ctx (.signed e) s s' offset us left
  primary :
    ∀ {u s e s' offset us}, Ahead ctx s offset (u :: us) →
      Parse.primary ctx
          (u.token (offset + Text.byteLength u.gap))
          (Segment.tokens (offset + Text.byteLength u.text) us) s fuel =
        .ok (e, s') →
        ∃ left, Found ctx (.primary e) s s' offset (u :: us) left
  arguments :
    ∀ {s es s' offset us}, Ahead ctx s offset us →
      Parse.arguments ctx s fuel = .ok (es, s') →
        ∃ left, FoundClosed ctx (.arguments es) s s' offset us left
  argumentList :
    ∀ {s es s' offset us}, Ahead ctx s offset us →
      Parse.argumentList ctx s fuel = .ok (es, s') →
        ∃ left, FoundClosed ctx (.list es) s s' offset us left
  argument :
    ∀ {s e s' offset us}, Ahead ctx s offset us →
      Parse.argument ctx s fuel = .ok (e, s') →
        ∃ left, Found ctx (.argument e) s s' offset us left

namespace SoundBelow

variable {fuel : Nat} {e : Expr}

theorem expression_step
    {binding : Nat}
    (ih : SoundBelow ctx fuel)
    (hAhead : Ahead ctx s offset us)
    (hOk :
      Parse.expression ctx binding s (fuel + 1) = .ok (e, s')) :
    ∃ left, Found ctx (.chain binding e) s s' offset us left ∧
      Stops binding left := by
  rw [Parse.expression, Except.bind_eq_ok] at hOk
  rcases hOk with ⟨⟨first, s₁⟩, hFirst, hChain⟩
  rcases ih.signed hAhead hFirst with
    ⟨between, used, rs, rfl, hReads, hTook⟩
  -- No operator binds so strongly that it could not follow.
  have hStops : Stops (binding + 5 + 1) between := by
    intro u us' op _ _ _
    have := InfixOp.binding_le op
    omega
  have hCount : s₁.refs.length = s.refs.length + rs.length := by
    rw [hTook.refs, List.length_append]
  rcases ih.chain (Nat.le_add_right binding 5)
      (.operand (binding + 5) hReads) hStops hCount hTook.ahead
      hChain with
    ⟨used', left, ss, rfl, hReads', hTook', hEnd⟩
  exact ⟨left, ⟨used ++ used', rs ++ ss, by simp, hReads',
    hTook.trans hTook'⟩, hEnd⟩

theorem chain_step
    {binding limit i : Nat}
    {first : Expr}
    {done : List Segment}
    (ih : SoundBelow ctx fuel)
    (hLimit : binding ≤ limit)
    (hDone : Reads ctx.anchor (.chain limit first) done i rs)
    (hStops : Stops (limit + 1) us)
    (hCount : s.refs.length = i + rs.length)
    (hAhead : Ahead ctx s offset us)
    (hOk :
      Parse.chain ctx binding first s (fuel + 1) = .ok (e, s')) :
    ∃ used after ss,
      us = used ++ after ∧
        Reads ctx.anchor (.chain binding e) (done ++ used) i
          (rs ++ ss) ∧
          Took ctx s s' offset used after ss ∧
            Stops binding after := by
  rw [Parse.chain] at hOk
  cases us with
  | nil =>
      rw [hAhead.rest] at hOk
      cases hOk
      exact ⟨[], [], [], rfl, by simpa using hDone.lower hLimit,
        .refl hAhead, stops_nil binding⟩
  | cons u us =>
      have hNext := hAhead.advance
      rw [hAhead.rest_cons] at hOk
      dsimp only at hOk
      split at hOk
      · rename_i hKind
        split at hOk
        · cases hOk
        · rename_i op hSymbol
          split at hOk
          · rename_i hWeak
            cases hOk
            refine ⟨[], u :: us, [], rfl,
              by simpa using hDone.lower hLimit, .refl hAhead, ?_⟩
            rintro v vs op' hEq - hSymbol'
            cases hEq
            cases hSymbol.symm.trans hSymbol'
            exact hWeak
          · rename_i hStrong
            rw [Except.bind_eq_ok] at hOk
            rcases hOk with ⟨⟨right, s₁⟩, hRight, hChain⟩
            rcases ih.expression hNext.ahead hRight with
              ⟨between, ⟨used, ss, rfl, hReads, hTook⟩, hBetween⟩
            have hBelow : op.binding ≤ limit :=
              Nat.le_of_lt_succ (hStops u _ op rfl hKind hSymbol)
            rw [hNext.refs, List.append_nil, hCount] at hReads
            have hBoth :=
              Reads.operator (hDone.lower hBelow) hKind hSymbol hReads
                (Nat.le_refl _)
            have hCount' :
                s₁.refs.length = i + (rs ++ ss).length := by
              rw [hTook.refs, hNext.refs]
              simp [hCount, Nat.add_assoc]
            rcases ih.chain (Nat.le_of_not_lt hStrong) hBoth hBetween
                hCount' hTook.ahead hChain with
              ⟨used', left, rs', rfl, hReads', hTook', hEnd⟩
            exact ⟨u :: (used ++ used'), left, ss ++ rs', by simp,
              by simpa using hReads', hNext.cons (hTook.trans hTook'),
              hEnd⟩
      · rename_i hKind
        cases hOk
        refine ⟨[], u :: us, [], rfl,
          by simpa using hDone.lower hLimit, .refl hAhead, ?_⟩
        rintro v vs op hEq hKind' -
        cases hEq
        exact absurd hKind' hKind

theorem signed_step
    (ih : SoundBelow ctx fuel)
    (hAhead : Ahead ctx s offset us)
    (hOk : Parse.signed ctx s (fuel + 1) = .ok (e, s')) :
    ∃ left, Found ctx (.signed e) s s' offset us left := by
  rw [Parse.signed] at hOk
  cases us with
  | nil =>
      rw [hAhead.rest] at hOk
      cases hOk
  | cons u us =>
      have hNext := hAhead.advance
      rw [hAhead.rest_cons] at hOk
      dsimp only at hOk
      split at hOk
      · rename_i hKind
        rw [Except.bind_eq_ok] at hOk
        rcases hOk with ⟨⟨inner, s₁⟩, hInner, hEq⟩
        cases hEq
        rcases ih.signed hNext.ahead hInner with
          ⟨left, used, rs, rfl, hReads, hTook⟩
        rw [hNext.refs, List.append_nil] at hReads
        exact ⟨left, u :: used, rs, rfl, .sign hKind hReads,
          hNext.cons hTook⟩
      · rw [Except.bind_eq_ok] at hOk
        rcases hOk with ⟨⟨inner, s₁⟩, hInner, hEq⟩
        rcases ih.primary hAhead hInner with
          ⟨between, used, rs, hUs, hReads, hTook⟩
        rcases percents_sound (.plain hReads) hTook.ahead
            (Except.ok.inj hEq) with
          ⟨used', left, rfl, hReads', hTook'⟩
        exact ⟨left, used ++ used', rs, by simpa using hUs,
          .unsigned hReads', by simpa using hTook.trans hTook'⟩

theorem primary_step
    {u : Segment}
    (ih : SoundBelow ctx fuel)
    (hAhead : Ahead ctx s offset (u :: us))
    (hOk :
      Parse.primary ctx
          (u.token (offset + Text.byteLength u.gap))
          (Segment.tokens (offset + Text.byteLength u.text) us) s
          (fuel + 1) =
        .ok (e, s')) :
    ∃ left, Found ctx (.primary e) s s' offset (u :: us) left := by
  have hFirst := hAhead.advance
  rw [Parse.primary] at hOk
  split at hOk
  · rename_i kind hKind
    rcases operand_sound hKind hFirst hOk with ⟨rs, hReads, hTook⟩
    exact ⟨us, [u], rs, rfl, hReads, hTook⟩
  · rename_i hOpen
    rw [Except.bind_eq_ok] at hOk
    rcases hOk with ⟨⟨args, s₁⟩, hArgs, hEq⟩
    cases hEq
    rcases ih.arguments hFirst.ahead hArgs with
      ⟨left, used, w, rs, rfl, hClose, hReads, hTook⟩
    rw [hFirst.refs, List.append_nil] at hReads
    have hBoth := hFirst.cons hTook
    refine ⟨left, u :: used ++ [w], rs, by simp, ?_, hBoth⟩
    have hWhole :
        Ahead ctx s offset (u :: (used ++ [w]) ++ left) := by
      simpa using hAhead
    have hText :
        Text.slice ctx.source (offset + Text.byteLength u.gap)
            s'.lastStop =
          u.chars ++ Segment.render (used ++ [w]) := by
      rw [hBoth.stop, if_neg (List.cons_ne_nil _ _)]
      exact hWhole.slice (by simp [Segment.text])
    have hCall :
        callOf ctx (u.token (offset + Text.byteLength u.gap)) args s' =
          called (u.token 0).functionName args
            (u.chars ++ Segment.render (used ++ [w])) := by
      rw [← hText]
      rfl
    rw [hCall]
    exact .call hOpen hReads hClose
  · rename_i hOpen
    rw [Except.bind_eq_ok] at hOk
    rcases hOk with ⟨⟨inner, s₁⟩, hInner, hClosed⟩
    rcases ih.expression hFirst.ahead hInner with
      ⟨between, ⟨used, rs, rfl, hReads, hTook⟩, -⟩
    rw [hFirst.refs, List.append_nil] at hReads
    dsimp only at hClosed
    cases between with
    | nil =>
        rw [hTook.ahead.rest] at hClosed
        cases hClosed
    | cons w left =>
        rw [hTook.ahead.rest_cons] at hClosed
        dsimp only at hClosed
        split at hClosed
        · rename_i hClose
          cases hClosed
          refine ⟨left, u :: used ++ [w], rs, by simp,
            .group hOpen hReads hClose, ?_⟩
          simpa using hFirst.cons (hTook.trans hTook.ahead.advance)
        · cases hClosed
  · rename_i hOpen
    rcases array_sound hFirst.ahead hOk with
      ⟨used, w, left, rows, a, rfl, hClose, hRows, hArray, rfl, hTook⟩
    exact ⟨left, u :: used ++ [w], [], by simp,
      .array hOpen hRows hArray hClose, hFirst.cons hTook⟩
  · cases hOk

theorem arguments_step
    {es : List Expr}
    (ih : SoundBelow ctx fuel)
    (hAhead : Ahead ctx s offset us)
    (hOk : Parse.arguments ctx s (fuel + 1) = .ok (es, s')) :
    ∃ left, FoundClosed ctx (.arguments es) s s' offset us left := by
  rw [Parse.arguments] at hOk
  cases us with
  | nil =>
      rw [hAhead.rest] at hOk
      rcases ih.argumentList hAhead hOk with
        ⟨left, used, w, rs, hUs, -⟩
      simp at hUs
  | cons u us =>
      rw [hAhead.rest_cons] at hOk
      dsimp only at hOk
      split at hOk
      · rename_i hClose
        cases hOk
        exact ⟨us, [], u, [], rfl, hClose, .none, hAhead.advance⟩
      · rename_i hOpen
        rcases ih.argumentList hAhead hOk with
          ⟨left, used, w, rs, hUs, hClose, hReads, hTook⟩
        refine ⟨left, used, w, rs, hUs, hClose, .some hReads ?_, hTook⟩
        rintro rfl
        cases hUs
        exact hOpen hClose

theorem argumentList_step
    {es : List Expr}
    (ih : SoundBelow ctx fuel)
    (hAhead : Ahead ctx s offset us)
    (hOk : Parse.argumentList ctx s (fuel + 1) = .ok (es, s')) :
    ∃ left, FoundClosed ctx (.list es) s s' offset us left := by
  rw [Parse.argumentList, Except.bind_eq_ok] at hOk
  rcases hOk with ⟨⟨arg, s₁⟩, hArg, hRest⟩
  rcases ih.argument hAhead hArg with
    ⟨between, used, rs, rfl, hReads, hTook⟩
  dsimp only at hRest
  cases between with
  | nil =>
      rw [hTook.ahead.rest] at hRest
      cases hRest
  | cons u us =>
      have hNext := hTook.ahead.advance
      rw [hTook.ahead.rest_cons] at hRest
      dsimp only at hRest
      split at hRest
      · rename_i hKind
        rw [Except.bind_eq_ok] at hRest
        rcases hRest with ⟨⟨args, s₂⟩, hArgs, hEq⟩
        cases hEq
        rcases ih.argumentList hNext.ahead hArgs with
          ⟨left, used', w, ss, rfl, hClose, hReads', hTook'⟩
        rw [hNext.refs, hTook.refs, List.append_nil,
          List.length_append] at hReads'
        refine ⟨left, used ++ u :: used', w, rs ++ ss, by simp, hClose,
          .more hReads hKind hReads', ?_⟩
        simpa using hTook.trans (hNext.cons hTook')
      · split at hRest
        · rename_i hClose
          cases hRest
          refine ⟨us, used, u, rs, rfl, hClose, .last hReads, ?_⟩
          simpa using hTook.trans hNext
        · cases hRest

theorem argument_step
    (ih : SoundBelow ctx fuel)
    (hAhead : Ahead ctx s offset us)
    (hOk : Parse.argument ctx s (fuel + 1) = .ok (e, s')) :
    ∃ left, Found ctx (.argument e) s s' offset us left := by
  have hGiven :
      ∀ {e s'}, Parse.expression ctx 0 s fuel = .ok (e, s') →
        ∃ left, Found ctx (.argument e) s s' offset us left := by
    intro e s' hExpression
    rcases ih.expression hAhead hExpression with
      ⟨left, ⟨used, rs, hUs, hReads, hTook⟩, -⟩
    exact ⟨left, used, rs, hUs, .given hReads, hTook⟩
  rw [Parse.argument] at hOk
  split at hOk
  · split at hOk
    · cases hOk
      exact ⟨us, [], [], rfl, .omitted, .refl hAhead⟩
    · exact hGiven hOk
  · exact hGiven hOk

end SoundBelow

/- What is read is a phrase, with calls of any depth. -/
theorem soundBelow (ctx : ParseContext) (fuel : Nat) :
    SoundBelow ctx fuel := by
  induction fuel with
  | zero =>
      constructor <;>
        simp [expression, chain, signed, primary, arguments,
          argumentList, argument, ParseState.fail]
  | succ fuel ih =>
      exact
        { expression := ih.expression_step
          chain := ih.chain_step
          signed := ih.signed_step
          primary := ih.primary_step
          arguments := ih.arguments_step
          argumentList := ih.argumentList_step
          argument := ih.argument_step }

end

end Parse

end Spreadsheet
