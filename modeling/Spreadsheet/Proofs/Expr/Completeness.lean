import Spreadsheet.Formula
import Spreadsheet.Proofs.Expr.Soundness

/-
  Every phrase is read.

  The reader takes the segments of a phrase as its expression
  where nothing that follows could continue it, and the bound
  on the depth of its calls is never the reason for an error.
  So a text is read as an expression exactly if it splits
  into segments that the grammar reads as this expression.

  Main declarations:
    * `Parse.IsRead`
    * `Parse.Reads.isRead`
    * `Expr.ofChars?_eq_ok`
-/

namespace Spreadsheet

namespace Parse

------------------------------------------------------------
-- Every Phrase Is Read
------------------------------------------------------------

section

variable
  {ctx : ParseContext}
  {s : ParseState}
  {offset : Nat}
  {us left : List Segment}

/- No percent sign follows. -/
def Unscaled (us : List Segment) : Prop :=
  ∀ u us', us = u :: us' → u.kind ≠ .postfixOp

/- Only operators that bind at most so strongly follow. -/
def Yields (binding : Nat) (us : List Segment) : Prop :=
  ∀ u us',
    us = u :: us' →
      u.kind = .infixOp →
        ∃ op,
          InfixOp.ofSymbol? (String.ofList u.chars) = some op ∧
            op.binding ≤ binding

theorem Yields.mono
    {m n : Nat}
    (hYields : Yields m us)
    (hLe : m ≤ n) :
    Yields n us := by
  intro u us' hUs hKind
  rcases hYields u us' hUs hKind with ⟨op, hSymbol, hBinding⟩
  exact ⟨op, hSymbol, Nat.le_trans hBinding hLe⟩

/- A bracket or separator is no operator. -/
theorem yields_cons
    {u : Segment}
    (hKind : u.kind ≠ .infixOp)
    (binding : Nat) :
    Yields binding (u :: us) := by
  rintro v vs hEq hInfix
  cases hEq
  exact absurd hInfix hKind

theorem percents_unscaled
    (hAhead : Ahead ctx s offset us)
    (hNext : Unscaled us)
    (e : Expr) :
    percents e s s.rest = (e, s) := by
  cases us with
  | nil =>
      have hRest : s.rest = [] := hAhead.rest
      rw [hRest, percents, ← hRest]
  | cons u us =>
      have hKind := hNext u us rfl
      rw [hAhead.rest_cons, percents, Segment.token_kind, if_neg hKind,
        ← hAhead.rest_cons]

/- Operators that bind less strongly are left to others. -/
theorem chain_yields
    {binding : Nat}
    (hAhead : Ahead ctx s offset us)
    (hNext : Yields binding us)
    (e : Expr)
    (fuel : Nat) :
    chain ctx (binding + 1) e s (fuel + 1) = .ok (e, s) := by
  rw [chain]
  cases us with
  | nil => rw [hAhead.rest]; rfl
  | cons u us =>
      rw [hAhead.rest_cons]
      dsimp only
      split
      · rename_i hKind
        rcases hNext u us rfl hKind with ⟨op, hSymbol, hBinding⟩
        have hText :
            (u.token (offset + Text.byteLength u.gap)).text =
              String.ofList u.chars := rfl
        simp only [hText, hSymbol]
        rw [if_pos (Nat.lt_succ_of_le hBinding)]
      · rfl

/- A chain ends before a token that is no operator. -/
theorem chain_end
    {binding : Nat}
    (hAhead : Ahead ctx s offset us)
    (hNext : ∀ u us', us = u :: us' → u.kind ≠ .infixOp)
    (e : Expr)
    {fuel : Nat}
    (hFuel : 0 < fuel) :
    chain ctx binding e s fuel = .ok (e, s) := by
  cases fuel with
  | zero => cases hFuel
  | succ fuel =>
      rw [chain]
      cases us with
      | nil => rw [hAhead.rest]; rfl
      | cons u us =>
          rw [hAhead.rest_cons]
          dsimp only
          rw [Segment.token_kind, if_neg (hNext u us rfl)]

/-
  The reader takes the segments of a phrase, when its calls may
  be so deep and what follows does not continue the phrase.
  Operators may follow a chain, with which it is read on.
-/
def IsRead
    (ctx : ParseContext)
    (phrase : Phrase)
    (us : List Segment)
    (i : Nat)
    (rs : References) : Prop :=
  ∀ s offset left fuel,
    Ahead ctx s offset (us ++ left) → s.refs.length = i →
      match phrase with
      | .primary e =>
          8 * us.length ≤ fuel + 7 →
            ∀ t rest, s.rest = t :: rest →
              ∃ s',
                primary ctx t rest s fuel = .ok (e, s') ∧
                  Took ctx s s' offset us left rs
      | .scaled e =>
          8 * us.length ≤ fuel + 7 →
            ∀ t rest, s.rest = t :: rest →
              ∃ e₁ s₁ s',
                primary ctx t rest s fuel = .ok (e₁, s₁) ∧
                  percents e₁ s₁ s₁.rest = percents e s' s'.rest ∧
                    Took ctx s s' offset us left rs
      | .signed e =>
          8 * us.length ≤ fuel + 6 → Unscaled left →
            ∃ s',
              signed ctx s fuel = .ok (e, s') ∧
                Took ctx s s' offset us left rs
      | .chain binding e =>
          8 * us.length ≤ fuel + 5 → Unscaled left →
            Yields binding left →
              ∀ bound ≤ binding,
                ∃ s' fuel',
                  expression ctx bound s fuel =
                      chain ctx bound e s' fuel' ∧
                    fuel + 7 ≤ fuel' + 8 * us.length ∧
                      Took ctx s s' offset us left rs
      | .argument e =>
          8 * us.length + 1 ≤ fuel →
            ∀ w left', left = w :: left' →
              (w.kind = .argumentSeparator ∨
                w.kind = .closing .call) →
                ∃ s',
                  argument ctx s fuel = .ok (e, s') ∧
                    Took ctx s s' offset us left rs
      | .list es =>
          8 * us.length + 2 ≤ fuel →
            ∀ w left', left = w :: left' →
              w.kind = .closing .call →
                ∃ s',
                  argumentList ctx s fuel = .ok (es, s') ∧
                    Took ctx s s' offset (us ++ [w]) left' rs
      | .arguments es =>
          8 * us.length + 3 ≤ fuel →
            ∀ w left', left = w :: left' →
              w.kind = .closing .call →
                ∃ s',
                  arguments ctx s fuel = .ok (es, s') ∧
                    Took ctx s s' offset (us ++ [w]) left' rs

theorem Ahead.eq_of_rest
    {u : Segment}
    {t : Token}
    {rest : List Token}
    (hAhead : Ahead ctx s offset (u :: left))
    (hRest : s.rest = t :: rest) :
    t = u.token (offset + Text.byteLength u.gap) ∧
      rest = Segment.tokens (offset + Text.byteLength u.text) left :=
  List.cons.inj (hRest.symm.trans hAhead.rest_cons)

variable
  {u w : Segment}
  {vs : List Segment}
  {e : Expr}
  {es : List Expr}
  {i : Nat}
  {rs ss : References}

/- A single token is read by what it spells. -/
theorem isRead_operand
    {kind : OperandKind}
    (hKind : u.kind = .operand kind)
    (hOperand :
      ∀ s s₁ offset left start,
        Took ctx s s₁ offset [u] left [] → s.refs.length = i →
          ∃ s',
            operand ctx (u.token start) kind s₁ = .ok (e, s') ∧
              Took ctx s s' offset [u] left rs) :
    IsRead ctx (.primary e) [u] i rs := by
  intro s offset left fuel hAhead hCount hFuel t rest hRest
  obtain ⟨rfl, rfl⟩ := hAhead.eq_of_rest hRest
  cases fuel with
  | zero => simp at hFuel
  | succ fuel =>
      rw [primary, Segment.token_kind, hKind]
      exact hOperand s _ offset left _ hAhead.advance hCount

theorem isRead_constant
    {kind : OperandKind}
    {v : Scalar}
    (hKind : u.kind = .operand kind)
    (hValue : scalarOf? kind u.chars = some v) :
    IsRead ctx (.primary (.constant v)) [u] i [] := by
  refine isRead_operand hKind ?_
  intro s s₁ offset left start hTook hCount
  refine ⟨s₁, ?_, hTook⟩
  have hConstant :
      constant (u.token start) kind s₁ = .ok (v, s₁) :=
    constant_eq_ok.mpr ⟨hValue, rfl⟩
  cases kind with
  | range => cases hValue
  | _ => simp only [operand, hConstant]; rfl

theorem isRead_reference
    {r : Reference}
    (hKind : u.kind = .operand .range)
    (hRead : Reference.read? u.chars ctx.anchor = some r) :
    IsRead ctx (.primary (.leaf false (.reference i))) [u] i [r] := by
  refine isRead_operand hKind ?_
  intro s s₁ offset left start hTook hCount
  refine ⟨_, ?_, hTook.addReference r⟩
  have hPlace : s₁.refs.length = i := by
    simpa [hTook.refs] using hCount
  simp [operand, hRead, ParseState.addReference, hPlace]

theorem isRead_name
    (hKind : u.kind = .operand .range)
    (hRead : Reference.read? u.chars ctx.anchor = none) :
    IsRead ctx (.primary (.unreadable .unknownName u.chars)) [u] i
      [] := by
  refine isRead_operand hKind ?_
  intro s s₁ offset left start hTook hCount
  exact ⟨s₁, by simp [operand, hRead], hTook⟩

theorem isRead_group
    (hOpen : u.kind = .opening .group)
    (hInner : IsRead ctx (.chain 0 e) us i rs)
    (hClose : w.kind = .closing .group) :
    IsRead ctx (.primary e.bracket) (u :: us ++ [w]) i rs := by
  intro s offset left fuel hAhead hCount hFuel t rest hRest
  rw [List.append_assoc, List.cons_append] at hAhead
  obtain ⟨rfl, rfl⟩ := hAhead.eq_of_rest hRest
  have hFirst := hAhead.advance
  simp only [List.length_append, List.length_cons,
    List.length_nil] at hFuel
  cases fuel with
  | zero => omega
  | succ fuel =>
      rcases hInner _ _ _ fuel hFirst.ahead hCount (by omega)
          (by rintro v vs hEq; cases hEq; rw [hClose]; nofun)
          (yields_cons (by rw [hClose]; nofun) 0) 0 (Nat.le_refl 0)
        with ⟨s₁, fuel', hExpression, hLeft, hTook⟩
      rw [chain_end hTook.ahead
        (by rintro v vs hEq; cases hEq; rw [hClose]; nofun) e
        (by omega)] at hExpression
      refine ⟨_, ?_, by
        simpa using
          hFirst.cons (hTook.trans hTook.ahead.advance)⟩
      rw [primary, Segment.token_kind, hOpen]
      simp only [Except.bind_eq_ok]
      refine ⟨(e, s₁), hExpression, ?_⟩
      rw [hTook.ahead.rest_cons]
      simp [hClose]

theorem isRead_array
    {rows : List (List Scalar)}
    {a : ScalarArray}
    (hOpen : u.kind = .opening .array)
    (hRows : Rows us rows)
    (hArray : ScalarArray.ofRows? rows = some a)
    (hClose : w.kind = .closing .array) :
    IsRead ctx (.primary (.leaf false (.array a))) (u :: us ++ [w]) i
      [] := by
  intro s offset left fuel hAhead hCount hFuel t rest hRest
  rw [List.append_assoc, List.cons_append] at hAhead
  obtain ⟨rfl, rfl⟩ := hAhead.eq_of_rest hRest
  have hFirst := hAhead.advance
  rcases array_complete hRows hArray hClose hFirst.ahead with
    ⟨s', hOk, hTook⟩
  cases fuel with
  | zero => simp at hFuel; omega
  | succ fuel =>
      refine ⟨s', ?_, hFirst.cons hTook⟩
      rw [primary, Segment.token_kind, hOpen]
      exact hOk

theorem isRead_call
    (hOpen : u.kind = .opening .call)
    (hArgs : IsRead ctx (.arguments es) us i rs)
    (hClose : w.kind = .closing .call) :
    IsRead ctx
      (.primary
        (called (u.token 0).functionName es
          (u.chars ++ Segment.render (us ++ [w]))))
      (u :: us ++ [w]) i rs := by
  intro s offset left fuel hWhole hCount hFuel t rest hRest
  have hAhead := hWhole
  rw [List.append_assoc, List.cons_append] at hAhead
  obtain ⟨rfl, rfl⟩ := hAhead.eq_of_rest hRest
  have hFirst := hAhead.advance
  simp only [List.length_append, List.length_cons,
    List.length_nil] at hFuel
  cases fuel with
  | zero => omega
  | succ fuel =>
      rcases hArgs _ _ _ fuel hFirst.ahead hCount (by omega) w left rfl
          hClose with
        ⟨s', hArguments, hTook⟩
      have hBoth := hFirst.cons hTook
      refine ⟨s', ?_, hBoth⟩
      have hText :
          Text.slice ctx.source (offset + Text.byteLength u.gap)
              s'.lastStop =
            u.chars ++ Segment.render (us ++ [w]) := by
        rw [hBoth.stop, if_neg (List.cons_ne_nil _ _)]
        exact hWhole.slice (by simp [Segment.text])
      rw [primary, Segment.token_kind, hOpen]
      simp only [Except.bind_eq_ok]
      refine ⟨(es, s'), hArguments, ?_⟩
      rw [callOf_eq_called, ← hText]
      rfl

theorem isRead_percent
    (hInner : IsRead ctx (.scaled e) us i rs)
    (hKind : u.kind = .postfixOp) :
    IsRead ctx (.scaled (.call .percent [e])) (us ++ [u]) i rs := by
  intro s offset left fuel hAhead hCount hFuel t rest hRest
  rw [List.append_assoc] at hAhead
  simp only [List.length_append, List.length_singleton] at hFuel
  rcases hInner _ _ _ fuel hAhead hCount (by omega) t rest hRest with
    ⟨e₁, s₁, s₂, hPrimary, hPercents, hTook⟩
  have hNext := hTook.ahead.advance
  refine ⟨e₁, s₁, _, hPrimary, ?_, by simpa using hTook.trans hNext⟩
  rw [hPercents, hTook.ahead.rest_cons, percents, Segment.token_kind,
    if_pos hKind]
  rfl

theorem isRead_unsigned
    (hHead : Phrase.HasHead (.scaled e) us)
    (hInner : IsRead ctx (.scaled e) us i rs) :
    IsRead ctx (.signed e) us i rs := by
  intro s offset left fuel hAhead hCount hFuel hNext
  rcases hHead with ⟨u, us, rfl, hHead⟩
  simp only [List.length_cons] at hFuel
  cases fuel with
  | zero => omega
  | succ fuel =>
      have hNoSign : u.kind ≠ .prefixOp := by
        intro hKind
        rw [hKind] at hHead
        cases hHead
      have hRest := Ahead.rest_cons hAhead
      rcases hInner _ _ _ fuel hAhead hCount
          (by simp only [List.length_cons]; omega) _ _ hRest with
        ⟨e₁, s₁, s', hPrimary, hPercents, hTook⟩
      refine ⟨s', ?_, hTook⟩
      rw [signed, hRest]
      dsimp only
      rw [Segment.token_kind, if_neg hNoSign, Except.bind_eq_ok]
      refine ⟨(e₁, s₁), hPrimary, ?_⟩
      dsimp only
      rw [hPercents, percents_unscaled hTook.ahead hNext]

theorem isRead_sign
    (hKind : u.kind = .prefixOp)
    (hInner : IsRead ctx (.signed e) us i rs) :
    IsRead ctx (.signed (withSign u.chars e)) (u :: us) i rs := by
  intro s offset left fuel hAhead hCount hFuel hNext
  have hFirst := Ahead.advance hAhead
  simp only [List.length_cons] at hFuel
  cases fuel with
  | zero => omega
  | succ fuel =>
      rcases hInner _ _ _ fuel hFirst.ahead hCount (by omega) hNext with
        ⟨s', hSigned, hTook⟩
      refine ⟨s', ?_, hFirst.cons hTook⟩
      rw [signed, Ahead.rest_cons hAhead]
      dsimp only
      rw [Segment.token_kind, if_pos hKind, Except.bind_eq_ok]
      exact ⟨(e, s'), hSigned, rfl⟩

/- A single operand is a chain, which is read on. -/
theorem isRead_chain
    (hSegments : us ≠ [])
    (hInner : IsRead ctx (.signed e) us i rs)
    (binding : Nat) :
    IsRead ctx (.chain binding e) us i rs := by
  intro s offset left fuel hAhead hCount hFuel hNext hYields bound _
  have hSome := List.length_pos_iff.mpr hSegments
  cases fuel with
  | zero => omega
  | succ fuel =>
      rcases hInner _ _ _ fuel hAhead hCount (by omega) hNext with
        ⟨s', hSigned, hTook⟩
      refine ⟨s', fuel, ?_, by omega, hTook⟩
      rw [expression, hSigned]
      rfl

/- An operator is read after its left operand's chain. -/
theorem isRead_operator
    {op : InfixOp}
    {first second : Expr}
    {binding : Nat}
    (hLeft : IsRead ctx (.chain op.binding first) us i rs)
    (hKind : u.kind = .infixOp)
    (hSymbol : InfixOp.ofSymbol? (String.ofList u.chars) = some op)
    (hRight :
      IsRead ctx (.chain (op.binding + 1) second) vs (i + rs.length)
        ss)
    (hBinding : binding ≤ op.binding) :
    IsRead ctx (.chain binding (.call (.infixOp op) [first, second]))
      (us ++ u :: vs) i (rs ++ ss) := by
  intro s offset left fuel hAhead hCount hFuel hNext hYields bound
    hBound
  rw [List.append_assoc] at hAhead
  simp only [List.length_append, List.length_cons] at hFuel ⊢
  rcases hLeft _ _ _ fuel hAhead hCount (by omega)
      (by rintro v vs hEq; cases hEq; rw [hKind]; nofun)
      (by
        rintro v vs hEq -
        cases hEq
        exact ⟨op, hSymbol, Nat.le_refl _⟩)
      bound (Nat.le_trans hBound hBinding) with
    ⟨s₁, fuel₁, hExpression, hEnough, hTook⟩
  have hFirst := hTook.ahead.advance
  have hCount' : s₁.refs.length = i + rs.length := by
    rw [hTook.refs, List.length_append, hCount]
  cases fuel₁ with
  | zero => omega
  | succ fuel₁ =>
      rcases hRight _ _ _ fuel₁ hFirst.ahead hCount' (by omega) hNext
          (hYields.mono (by omega)) (op.binding + 1) (Nat.le_refl _)
        with ⟨s₂, fuel₂, hExpression₂, hEnough₂, hTook₂⟩
      obtain ⟨fuel₂, rfl⟩ : ∃ n, fuel₂ = n + 1 :=
        ⟨fuel₂ - 1, by omega⟩
      rw [chain_yields hTook₂.ahead (hYields.mono hBinding)]
        at hExpression₂
      refine ⟨s₂, fuel₁, ?_, by omega,
        hTook.trans (hFirst.cons hTook₂)⟩
      rw [hExpression, chain, hTook.ahead.rest_cons]
      dsimp only
      have hText :
          ∀ start, (u.token start).text = String.ofList u.chars :=
        fun _ => rfl
      rw [Segment.token_kind, if_pos hKind, hText, hSymbol]
      dsimp only
      rw [if_neg (by omega), hExpression₂]
      rfl

/- A bracket or separator ends an argument. -/
theorem isRead_given
    (hHead : Phrase.HasHead (.chain 0 e) us)
    (hInner : IsRead ctx (.chain 0 e) us i rs) :
    IsRead ctx (.argument e) us i rs := by
  rintro s offset left fuel hAhead hCount hFuel w left rfl hEnd
  have hNoScale : w.kind ≠ .postfixOp := by
    rcases hEnd with h | h <;> rw [h] <;> nofun
  have hNoOperator : w.kind ≠ .infixOp := by
    rcases hEnd with h | h <;> rw [h] <;> nofun
  cases fuel with
  | zero => omega
  | succ fuel =>
      rcases hInner _ _ _ fuel hAhead hCount (by omega)
          (by rintro v vs hEq; cases hEq; exact hNoScale)
          (yields_cons hNoOperator 0) 0 (Nat.le_refl 0) with
        ⟨s', fuel', hExpression, hEnough, hTook⟩
      rw [chain_end hTook.ahead
        (by rintro v vs hEq; cases hEq; exact hNoOperator) e
        (by omega)] at hExpression
      refine ⟨s', ?_, hTook⟩
      rcases hHead with ⟨u, us, rfl, hHead⟩
      have hGiven :
          ¬ (u.kind = .argumentSeparator ∨ u.kind = .closing .call) := by
        rintro (h | h) <;> rw [h] at hHead <;>
          simp [startsPrimary] at hHead
      rw [argument, Ahead.rest_cons hAhead]
      dsimp only
      rw [Segment.token_kind, if_neg hGiven, hExpression]

theorem isRead_omitted :
    IsRead ctx (.argument (.constant .blank)) [] i [] := by
  rintro s offset left fuel hAhead hCount hFuel w left rfl hEnd
  cases fuel with
  | zero => cases hFuel
  | succ fuel =>
      refine ⟨s, ?_, .refl hAhead⟩
      rw [argument, Ahead.rest_cons hAhead]
      dsimp only
      rw [Segment.token_kind, if_pos hEnd]

theorem isRead_last
    (hInner : IsRead ctx (.argument e) us i rs) :
    IsRead ctx (.list [e]) us i rs := by
  rintro s offset left fuel hAhead hCount hFuel w left rfl hClose
  cases fuel with
  | zero => omega
  | succ fuel =>
      rcases hInner _ _ _ fuel hAhead hCount (by omega) w left rfl
          (.inr hClose) with
        ⟨s₁, hArgument, hTook⟩
      have hNoComma : w.kind ≠ .argumentSeparator := by
        rw [hClose]
        nofun
      refine ⟨_, ?_, by simpa using hTook.trans hTook.ahead.advance⟩
      rw [argumentList, hArgument]
      simp only [bind, Except.bind]
      rw [hTook.ahead.rest_cons]
      simp [hClose]

theorem isRead_more
    (hFirst : IsRead ctx (.argument e) us i rs)
    (hKind : u.kind = .argumentSeparator)
    (hRest : IsRead ctx (.list es) vs (i + rs.length) ss) :
    IsRead ctx (.list (e :: es)) (us ++ u :: vs) i (rs ++ ss) := by
  rintro s offset left fuel hAhead hCount hFuel w left rfl hClose
  rw [List.append_assoc, List.cons_append] at hAhead
  simp only [List.length_append, List.length_cons] at hFuel
  cases fuel with
  | zero => omega
  | succ fuel =>
      rcases hFirst _ _ _ fuel hAhead hCount (by omega) u _ rfl
          (.inl hKind) with
        ⟨s₁, hArgument, hTook⟩
      have hNext := hTook.ahead.advance
      have hCount' : s₁.refs.length = i + rs.length := by
        rw [hTook.refs, List.length_append, hCount]
      rcases hRest _ _ _ fuel hNext.ahead hCount' (by omega) w left rfl
          hClose with
        ⟨s', hList, hTook'⟩
      refine ⟨s', ?_, by simpa using hTook.trans (hNext.cons hTook')⟩
      rw [argumentList, hArgument]
      simp only [bind, Except.bind]
      rw [hTook.ahead.rest_cons]
      simp [hKind, hList]

theorem isRead_none : IsRead ctx (.arguments []) [] i [] := by
  rintro s offset left fuel hAhead hCount hFuel w left rfl hClose
  cases fuel with
  | zero => cases hFuel
  | succ fuel =>
      refine ⟨_, ?_, Ahead.advance hAhead⟩
      rw [arguments, Ahead.rest_cons hAhead]
      dsimp only
      rw [Segment.token_kind, if_pos hClose]

theorem isRead_some
    (hHead : Phrase.HasHead (.list es) us)
    (hInner : IsRead ctx (.list es) us i rs)
    (hSome : us ≠ []) :
    IsRead ctx (.arguments es) us i rs := by
  rintro s offset left fuel hAhead hCount hFuel w left rfl hClose
  cases fuel with
  | zero => omega
  | succ fuel =>
      rcases hInner _ _ _ fuel hAhead hCount (by omega) w left rfl
          hClose with
        ⟨s', hList, hTook⟩
      refine ⟨s', ?_, hTook⟩
      cases us with
      | nil => exact absurd rfl hSome
      | cons u us =>
          have hOpen : u.kind ≠ .closing .call := by
            intro hKind
            rcases hHead u us rfl with h | h | h <;>
              rw [hKind] at h <;> cases h
          rw [arguments, Ahead.rest_cons hAhead]
          dsimp only
          rw [Segment.token_kind, if_neg hOpen, hList]

/- The reader takes every phrase. -/
theorem Reads.isRead
    {phrase : Phrase}
    (hReads : Reads ctx.anchor phrase us i rs) :
    IsRead ctx phrase us i rs := by
  induction hReads with
  | constant hKind hValue => exact isRead_constant hKind hValue
  | reference hKind hRead => exact isRead_reference hKind hRead
  | name hKind hRead => exact isRead_name hKind hRead
  | group hOpen _ hClose ih => exact isRead_group hOpen ih hClose
  | array hOpen hRows hArray hClose =>
      exact isRead_array hOpen hRows hArray hClose
  | call hOpen _ hClose ih => exact isRead_call hOpen ih hClose
  | plain _ ih =>
      intro s offset left fuel hAhead hCount hFuel t rest hRest
      rcases ih s offset left fuel hAhead hCount hFuel t rest hRest
        with ⟨s', hPrimary, hTook⟩
      exact ⟨_, s', s', hPrimary, rfl, hTook⟩
  | percent _ hKind ih => exact isRead_percent ih hKind
  | unsigned hInner ih => exact isRead_unsigned hInner.hasHead ih
  | sign hKind _ ih => exact isRead_sign hKind ih
  | operand binding hInner ih =>
      have hChain := Reads.operand binding hInner
      exact isRead_chain hChain.ne_nil ih binding
  | operator _ hKind hSymbol _ hBinding ihLeft ihRight =>
      exact isRead_operator ihLeft hKind hSymbol ihRight hBinding
  | given hInner ih => exact isRead_given hInner.hasHead ih
  | omitted => exact isRead_omitted
  | last _ ih => exact isRead_last ih
  | more _ hKind _ ihFirst ihRest =>
      exact isRead_more ihFirst hKind ihRest
  | none => exact isRead_none
  | some hInner hSome ih => exact isRead_some hInner.hasHead ih hSome

/- An expression is read to its end. -/
theorem Reads.expression_eq_ok
    (hReads : Reads ctx.anchor (.chain 0 e) us i rs)
    (hAhead : Ahead ctx s offset us)
    (hCount : s.refs.length = i)
    (fuel : Nat)
    (hFuel : 8 * us.length ≤ fuel) :
    ∃ s',
      expression ctx 0 s fuel = .ok (e, s') ∧
        Took ctx s s' offset us [] rs := by
  rcases hReads.isRead s offset [] fuel (by simpa using hAhead) hCount
      (by omega) nofun nofun 0 (Nat.le_refl 0) with
    ⟨s', fuel', hExpression, hEnough, hTook⟩
  refine ⟨s', ?_, hTook⟩
  rw [hExpression, chain_end hTook.ahead nofun e (by omega)]

end

end Parse

------------------------------------------------------------
-- Whole Formulas
------------------------------------------------------------

/- A text is split after one leading `=`. -/
theorem Token.lex_eq (source : List Char) :
    ∃ before,
      source = before ++ Formula.body source ∧
        Token.lex source =
          Token.ofChars .start (Text.byteLength before)
            (Formula.body source) := by
  by_cases hSign : ∃ cs, source = '=' :: cs
  · rcases hSign with ⟨cs, rfl⟩
    exact ⟨['='], rfl, rfl⟩
  · have hBody : Formula.body source = source := by
      unfold Formula.body
      split
      · exact absurd ⟨_, rfl⟩ hSign
      · rfl
    refine ⟨[], by rw [hBody, List.nil_append], ?_⟩
    rw [hBody, Token.lex]
    · rfl
    · exact fun cs hSource => hSign ⟨cs, hSource⟩

/-
  A text is read as an expression exactly if, after one
  leading `=`, it splits into segments that are a phrase.
-/
theorem Expr.ofChars?_eq_ok
    {source : List Char}
    {anchor : Point}
    {e : Expr}
    {refs : References} :
    Expr.ofChars? source anchor = .ok (e, refs) ↔
      ∃ us tail,
        Segment.Splits .start (Formula.body source) us tail ∧
          Parse.Reads anchor (.chain 0 e) us 0 refs := by
  rcases Token.lex_eq source with ⟨before, hSource, hLex⟩
  have hAhead :
      ∀ {us tail},
        Segment.Splits .start (Formula.body source) us tail →
          Parse.Ahead ⟨source, anchor⟩
            ⟨Segment.tokens (Text.byteLength before) us, 0, 0, []⟩
            (Text.byteLength before) us := by
    intro us tail hSplits
    exact ⟨rfl, before, tail, by rw [← hSplits.covers]; exact hSource,
      rfl⟩
  unfold Expr.ofChars?
  rw [hLex, Except.bind_eq_ok]
  constructor
  · rintro ⟨tokens, hTokens, hOk⟩
    cases hChars :
        Token.ofChars .start (Text.byteLength before)
          (Formula.body source) with
    | error fault =>
        rw [hChars] at hTokens
        cases hTokens
    | ok ts =>
        rw [hChars] at hTokens
        cases hTokens
        rcases Segment.of_ofChars hChars with ⟨us, tail, hSplits, hFilter⟩
        unfold ofTokens? at hOk
        rw [hFilter] at hOk
        dsimp only at hOk
        split at hOk
        · cases hOk
        · rw [Except.bind_eq_ok] at hOk
          rcases hOk with ⟨⟨e', s⟩, hExpression, hEnd⟩
          rcases (Parse.soundBelow _ _).expression (hAhead hSplits)
              hExpression with
            ⟨left, ⟨used, rs, rfl, hReads, hTook⟩, -⟩
          dsimp only at hEnd
          cases left with
          | nil =>
              rw [hTook.ahead.rest] at hEnd
              cases hEnd
              refine ⟨used, tail, by simpa using hSplits, ?_⟩
              rw [hTook.refs]
              exact hReads
          | cons u left =>
              rw [hTook.ahead.rest_cons] at hEnd
              cases hEnd
  · rintro ⟨us, tail, hSplits, hReads⟩
    rcases Segment.ofChars_of_splits hSplits (Text.byteLength before) with
      ⟨ts, hTokens, hFilter⟩
    refine ⟨ts, by rw [hTokens]; rfl, ?_⟩
    unfold ofTokens?
    rw [hFilter]
    dsimp only
    split
    · rename_i hNone
      have hNil : us = [] := by
        cases us with
        | nil => rfl
        | cons u us => cases hNone
      exact absurd hNil hReads.ne_nil
    · have hPhrase :
          Parse.Reads (ParseContext.mk source anchor).anchor
            (.chain 0 e) us 0 refs := hReads
      rcases hPhrase.expression_eq_ok (hAhead hSplits) rfl
          (8 * (Segment.tokens (Text.byteLength before) us).length + 8)
          (by rw [Segment.length_tokens]; omega) with
        ⟨s', hExpression, hTook⟩
      rw [hExpression]
      simp [bind, Except.bind, hTook.ahead.rest, hTook.refs,
        Segment.tokens]

end Spreadsheet
