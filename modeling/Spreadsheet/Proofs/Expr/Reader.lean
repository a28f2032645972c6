import Spreadsheet.Proofs.Expr.Grammar
import Spreadsheet.Proofs.Expr.Proper

/-
  The state of reading, and how arrays are read.

  While tokens are read, those that are left are the tokens of
  segments, which stand at a byte of the source. The text of a
  call is the text of its segments. What is read as an array is
  one by the grammar, and every array is read as its rows.

  Main declarations:
    * `Parse.Ahead`
    * `Parse.Took`
    * `Parse.Ahead.slice`
    * `Parse.array_sound`
    * `Parse.array_complete`
-/

namespace Spreadsheet

------------------------------------------------------------
-- Slices
------------------------------------------------------------

namespace Text

theorem dropBytes_append (before cs : List Char) :
    dropBytes (byteLength before) (before ++ cs) = cs := by
  induction before with
  | nil => cases cs <;> rfl
  | cons c before ih =>
      have hPositive := c.utf8Size_pos
      rw [List.cons_append, dropBytes, byteLength, if_neg (by omega),
        Nat.add_sub_cancel_left, ih]

theorem takeBytes_append (cs after : List Char) :
    takeBytes (byteLength cs) (cs ++ after) = cs := by
  induction cs with
  | nil => cases after <;> rfl
  | cons c cs ih =>
      have hPositive := c.utf8Size_pos
      rw [List.cons_append, takeBytes, byteLength, if_neg (by omega),
        Nat.add_sub_cancel_left, ih]

/- A part of a text by the bytes where it starts and ends. -/
theorem slice_append (before cs after : List Char) :
    slice (before ++ (cs ++ after)) (byteLength before)
        (byteLength before + byteLength cs) =
      cs := by
  rw [slice, dropBytes_append, Nat.add_sub_cancel_left,
    takeBytes_append]

end Text

namespace Parse

------------------------------------------------------------
-- States
------------------------------------------------------------

/-
  The tokens that are left are those of segments, which stand
  at a byte of the source.
-/
structure Ahead
    (ctx : ParseContext)
    (s : ParseState)
    (offset : Nat)
    (us : List Segment) : Prop where
  rest : s.rest = Segment.tokens offset us
  placed :
    ∃ before after,
      ctx.source = before ++ (Segment.render us ++ after) ∧
        Text.byteLength before = offset

/-
  Some segments that were ahead were read, and their references
  were added.
-/
structure Took
    (ctx : ParseContext)
    (s s' : ParseState)
    (offset : Nat)
    (used left : List Segment)
    (rs : References) : Prop where
  refs : s'.refs = s.refs ++ rs
  stop :
    s'.lastStop =
      if used = [] then s.lastStop
      else offset + Text.byteLength (Segment.render used)
  ahead :
    Ahead ctx s' (offset + Text.byteLength (Segment.render used)) left

section

variable
  {ctx : ParseContext}
  {s s₁ s₂ : ParseState}
  {offset : Nat}
  {us vs left : List Segment}
  {rs ss : References}

theorem Took.refl
    (hAhead : Ahead ctx s offset left) :
    Took ctx s s offset [] left [] :=
  ⟨(List.append_nil _).symm, rfl, by simpa [Text.byteLength]⟩

theorem Took.trans
    {between : List Segment}
    (hFirst : Took ctx s s₁ offset us between rs)
    (hSecond :
      Took ctx s₁ s₂
        (offset + Text.byteLength (Segment.render us)) vs left ss) :
    Took ctx s s₂ offset (us ++ vs) left (rs ++ ss) := by
  refine ⟨?_, ?_, ?_⟩
  · rw [hSecond.refs, hFirst.refs, List.append_assoc]
  · rw [hSecond.stop, hFirst.stop]
    by_cases hUs : us = [] <;> by_cases hVs : vs = [] <;>
      simp [hUs, hVs, Text.byteLength, Nat.add_assoc]
  · rw [Segment.render_append, Text.byteLength_append, ← Nat.add_assoc]
    exact hSecond.ahead

/- Read the token of a segment off. -/
theorem Ahead.advance
    {u : Segment}
    (hAhead : Ahead ctx s offset (u :: left)) :
    Took ctx s
      (s.advance (u.token (offset + Text.byteLength u.gap))
        (Segment.tokens (offset + Text.byteLength u.text) left))
      offset [u] left [] := by
  refine ⟨(List.append_nil _).symm, ?_, ?_, ?_⟩
  · simp [ParseState.advance, Token.stop, Segment.token, Segment.text,
      Nat.add_assoc]
  · simp [ParseState.advance]
  · rcases hAhead.placed with ⟨before, after, hSource, hBefore⟩
    refine ⟨before ++ u.text, after, ?_, ?_⟩
    · rw [hSource]
      simp
    · simp [hBefore]

/- Each segment that was read is one token less. -/
theorem Took.length_rest
    (hTook : Took ctx s s₁ offset us left rs)
    (hAhead : Ahead ctx s offset (us ++ left)) :
    s₁.rest.length + us.length = s.rest.length := by
  rw [hAhead.rest, hTook.ahead.rest]
  simp [Nat.add_comm]

/- Read on after the token of a segment. -/
theorem Took.cons
    {u : Segment}
    {between : List Segment}
    (hFirst : Took ctx s s₁ offset [u] between [])
    (hSecond :
      Took ctx s₁ s₂
        (offset + Text.byteLength (Segment.render [u])) vs left ss) :
    Took ctx s s₂ offset (u :: vs) left ss :=
  hFirst.trans hSecond

theorem Ahead.rest_cons
    {u : Segment}
    (hAhead : Ahead ctx s offset (u :: left)) :
    s.rest =
      u.token (offset + Text.byteLength u.gap) ::
        Segment.tokens (offset + Text.byteLength u.text) left :=
  hAhead.rest

/- The text of the segments that are ahead. -/
theorem Ahead.slice
    (hAhead : Ahead ctx s offset (us ++ left))
    {gap cs : List Char}
    (hText : Segment.render us = gap ++ cs) :
    Text.slice ctx.source (offset + Text.byteLength gap)
        (offset + Text.byteLength (Segment.render us)) =
      cs := by
  rcases hAhead.placed with ⟨before, after, hSource, rfl⟩
  have hPlace :
      ctx.source =
        (before ++ gap) ++ (cs ++ (Segment.render left ++ after)) := by
    rw [hSource, Segment.render_append, hText]
    simp
  rw [hPlace, hText, ← Text.byteLength_append,
    Text.byteLength_append gap, ← Nat.add_assoc,
    ← Text.byteLength_append, Text.slice_append]

end

------------------------------------------------------------
-- Constants
------------------------------------------------------------

theorem constant_eq_ok
    {t : Token}
    {kind : OperandKind}
    {s s' : ParseState}
    {v : Scalar} :
    constant t kind s = .ok (v, s') ↔
      scalarOf? kind t.chars = some v ∧ s' = s := by
  cases kind with
  | number =>
      unfold constant scalarOf?
      cases (Decimal.readFloat? t.chars).filter Float.isFinite with
      | none => simp [ParseState.fail]
      | some x => simp [eq_comm]
  | range => simp [constant, scalarOf?, ParseState.fail]
  | text | logical | error => simp [constant, scalarOf?, eq_comm]

/- A call that was read, with the text from its name on. -/
theorem callOf_eq_called
    (ctx : ParseContext)
    (t : Token)
    (args : List Expr)
    (s : ParseState) :
    callOf ctx t args s =
      called t.functionName args
        (Text.slice ctx.source t.start s.lastStop) :=
  rfl

------------------------------------------------------------
-- Arrays
------------------------------------------------------------

/- Apply signs to a constant that was read. -/
def applySigns
    (negative : Bool)
    (v : Scalar)
    (s : ParseState) : Except ParseError (Parsed Scalar) :=
  if negative then
    match v with
    | .number x => .ok (.number (-x), s)
    | _ => s.fail .negatedConstant
  else
    .ok (v, s)

/- Read an element after signs that were read before. -/
def elementFrom
    (negative : Bool)
    (s : ParseState) : Except ParseError (Parsed Scalar) :=
  let (negative, s) := signs negative s s.rest
  match s.rest with
  | [] => s.fail .missingElement
  | t :: rest =>
      match t.kind with
      | .operand .range => s.fail (.notAConstant t)
      | .operand kind => do
          let (v, s) ← constant t kind (s.advance t rest)
          applySigns negative v s
      | _ => s.fail (.notAConstant t)

theorem element_eq_elementFrom (s : ParseState) :
    element s = elementFrom false s := rfl

theorem applySigns_eq_ok
    {negative : Bool}
    {v w : Scalar}
    {s s' : ParseState} :
    applySigns negative v s = .ok (w, s') ↔
      signed? negative v = some w ∧ s' = s := by
  cases negative <;> cases v <;>
    simp [applySigns, signed?, ParseState.fail, eq_comm]

section

variable
  {ctx : ParseContext}
  {s s' : ParseState}
  {offset : Nat}
  {us left : List Segment}
  {t : Token}
  {rest : List Token}
  {v : Scalar}

theorem elementFrom_sign
    (hRest : s.rest = t :: rest)
    (hKind : t.kind = .prefixOp)
    (negative : Bool) :
    elementFrom negative s =
      elementFrom (negative != (t.chars == ['-']))
        (s.advance t rest) := by
  unfold elementFrom
  rw [hRest, signs, if_pos hKind]
  rfl

/- After the signs there is a constant. -/
theorem elementFrom_eq_ok
    (hRest : s.rest = t :: rest)
    (hKind : t.kind ≠ .prefixOp)
    {negative : Bool} :
    elementFrom negative s = .ok (v, s') ↔
      ∃ kind w,
        t.kind = .operand kind ∧
          scalarOf? kind t.chars = some w ∧
            signed? negative w = some v ∧ s' = s.advance t rest := by
  have hSame : ({ s with rest := t :: rest } : ParseState) = s := by
    rw [← hRest]
  unfold elementFrom
  rw [hRest, signs, if_neg hKind, hSame]
  dsimp only
  rw [hRest]
  dsimp only
  split
  · rename_i hRange
    simp [ParseState.fail, hRange, scalarOf?]
  · rename_i kind _ hOperand
    rw [hOperand, Except.bind_eq_ok]
    simp [constant_eq_ok, applySigns_eq_ok, and_assoc]
  · rename_i hOther
    simp only [ParseState.fail, reduceCtorEq, false_iff]
    rintro ⟨kind, w, hOperand, -⟩
    exact hOther kind hOperand

/- What is read as an element is one. -/
theorem elementFrom_sound
    {negative : Bool}
    (hAhead : Ahead ctx s offset us)
    (hOk : elementFrom negative s = .ok (v, s')) :
    ∃ used left,
      us = used ++ left ∧
        Element negative used v ∧
          Took ctx s s' offset used left [] := by
  induction us generalizing negative s offset with
  | nil =>
      have hRest : s.rest = [] := hAhead.rest
      unfold elementFrom at hOk
      rw [hRest] at hOk
      cases hOk
  | cons u us ih =>
      have hFirst := hAhead.advance
      by_cases hKind : u.kind = .prefixOp
      · rw [elementFrom_sign hAhead.rest_cons hKind] at hOk
        rcases ih hFirst.ahead hOk with
          ⟨used, left, rfl, hElement, hTook⟩
        exact ⟨u :: used, left, rfl, .sign hKind hElement,
          hFirst.cons hTook⟩
      · rw [elementFrom_eq_ok hAhead.rest_cons hKind] at hOk
        rcases hOk with ⟨kind, w, hOperand, hValue, hSigned, rfl⟩
        exact ⟨[u], us, rfl, .constant hOperand hValue hSigned,
          hFirst⟩

/- An element is read as its value. -/
theorem Element.complete
    {negative : Bool}
    (hElement : Element negative us v)
    (hAhead : Ahead ctx s offset (us ++ left)) :
    ∃ s',
      elementFrom negative s = .ok (v, s') ∧
        Took ctx s s' offset us left [] := by
  induction hElement generalizing s offset with
  | @constant negative u kind w v hKind hValue hSigned =>
      have hNoSign : u.kind ≠ .prefixOp := by
        rw [hKind]
        nofun
      refine ⟨_, ?_, hAhead.advance⟩
      rw [elementFrom_eq_ok hAhead.rest_cons hNoSign]
      exact ⟨kind, w, hKind, hValue, hSigned, rfl⟩
  | @sign negative u us v hKind hRest ih =>
      have hFirst := hAhead.advance
      rcases ih hFirst.ahead with ⟨s', hOk, hTook⟩
      refine ⟨s', ?_, hFirst.cons hTook⟩
      rw [elementFrom_sign hAhead.rest_cons hKind]
      exact hOk

/- Put elements before those of the first row. -/
def onto (row : List Scalar) :
    List (List Scalar) → List (List Scalar)
  | [] => []
  | r :: rows => (row ++ r) :: rows

/- What is read as the rest of an array continues its rows. -/
theorem arrayRows_sound
    {rows out : List (List Scalar)}
    {row : List Scalar}
    {fuel : Nat}
    {first : List Segment}
    (hAhead : Ahead ctx s offset us)
    (hElement : Element false first v)
    (hOk : arrayRows rows (v :: row) s fuel = .ok (out, s')) :
    ∃ used w left rows',
      us = used ++ w :: left ∧
        w.kind = .closing .array ∧
          Rows (first ++ used) rows' ∧
            out = rows.reverse ++ onto row.reverse rows' ∧
              Took ctx s s' offset (used ++ [w]) left [] := by
  induction fuel generalizing rows row v first s offset us with
  | zero => cases hOk
  | succ fuel ih =>
      rw [arrayRows] at hOk
      cases us with
      | nil =>
          rw [hAhead.rest] at hOk
          cases hOk
      | cons u us =>
          have hFirst := hAhead.advance
          rw [hAhead.rest_cons] at hOk
          dsimp only at hOk
          split at hOk
          · rename_i hKind
            rw [Except.bind_eq_ok] at hOk
            rcases hOk with ⟨⟨x, s₁⟩, hNext, hOk⟩
            rw [element_eq_elementFrom] at hNext
            rcases elementFrom_sound hFirst.ahead hNext with
              ⟨second, after, rfl, hSecond, hTook⟩
            rcases ih hTook.ahead hSecond hOk with
              ⟨used, w, left, rows', rfl, hClose, hRows, rfl, hTook'⟩
            rcases hRows.eq_cons with ⟨r, rows', rfl⟩
            refine
              ⟨u :: (second ++ used), w, left, (v :: r) :: rows',
                by simp, hClose, .across hElement hKind hRows,
                by simp [onto], ?_⟩
            simpa using hFirst.cons (hTook.trans hTook')
          · rename_i hKind
            rw [Except.bind_eq_ok] at hOk
            rcases hOk with ⟨⟨x, s₁⟩, hNext, hOk⟩
            rw [element_eq_elementFrom] at hNext
            rcases elementFrom_sound hFirst.ahead hNext with
              ⟨second, after, rfl, hSecond, hTook⟩
            rcases ih hTook.ahead hSecond hOk with
              ⟨used, w, left, rows', rfl, hClose, hRows, rfl, hTook'⟩
            rcases hRows.eq_cons with ⟨r, rows', rfl⟩
            refine
              ⟨u :: (second ++ used), w, left, [v] :: r :: rows',
                by simp, hClose, .down hElement hKind hRows,
                by simp [onto], ?_⟩
            simpa using hFirst.cons (hTook.trans hTook')
          · rename_i hKind
            cases hOk
            exact
              ⟨[], u, us, [[v]], rfl, hKind, by simpa using .single hElement,
                by simp [onto], hFirst⟩
          · cases hOk

/- The rows of an array are read as its rows. -/
theorem Rows.complete
    {w : Segment}
    {rows' : List (List Scalar)}
    (hRows : Rows us rows')
    (hClose : w.kind = .closing .array)
    (rows : List (List Scalar))
    (row : List Scalar)
    (hAhead : Ahead ctx s offset (us ++ w :: left)) :
    ∃ v s₁ s',
      element s = .ok (v, s₁) ∧
        s₁.rest.length ≤ s.rest.length ∧
          (∀ fuel, s₁.rest.length < fuel →
            arrayRows rows (v :: row) s₁ fuel =
              .ok (rows.reverse ++ onto row.reverse rows', s')) ∧
            Took ctx s s' offset (us ++ [w]) left [] := by
  induction hRows generalizing rows row s offset with
  | @single us v hElement =>
      rcases hElement.complete hAhead with ⟨s₁, hOk, hTook⟩
      have hShorter := hTook.length_rest hAhead
      refine
        ⟨v, s₁, _, hOk, by omega, ?_,
          hTook.trans hTook.ahead.advance⟩
      intro fuel hFuel
      cases fuel with
      | zero => cases hFuel
      | succ fuel =>
          rw [arrayRows, hTook.ahead.rest_cons]
          simp [Segment.token, hClose, onto]
  | @across us vs u v r rows' hElement hKind hRest ih =>
      rw [List.append_assoc] at hAhead
      rcases hElement.complete hAhead with ⟨s₁, hOk, hTook⟩
      have hNext := hTook.ahead.advance
      rcases ih rows (v :: row) hNext.ahead with
        ⟨x, s₂, s', hSecond, hLess, hLoop, hTook'⟩
      have hShorter := hTook.length_rest hAhead
      have hOne := hNext.length_rest hTook.ahead
      rw [List.length_singleton] at hOne
      refine ⟨v, s₁, s', hOk, by omega, ?_, ?_⟩
      · intro fuel hFuel
        cases fuel with
        | zero => cases hFuel
        | succ fuel =>
            rw [arrayRows, hTook.ahead.rest_cons]
            simp only [Segment.token, hKind, Except.bind_eq_ok]
            refine ⟨(x, s₂), hSecond, ?_⟩
            rw [hLoop fuel (by omega)]
            simp [onto]
      · simpa using hTook.trans (hNext.cons hTook')
  | @down us vs u v rows' hElement hKind hRest ih =>
      rw [List.append_assoc] at hAhead
      rcases hElement.complete hAhead with ⟨s₁, hOk, hTook⟩
      have hNext := hTook.ahead.advance
      rcases ih ((v :: row).reverse :: rows) [] hNext.ahead with
        ⟨x, s₂, s', hSecond, hLess, hLoop, hTook'⟩
      have hShorter := hTook.length_rest hAhead
      have hOne := hNext.length_rest hTook.ahead
      rw [List.length_singleton] at hOne
      refine ⟨v, s₁, s', hOk, by omega, ?_, ?_⟩
      · intro fuel hFuel
        cases fuel with
        | zero => cases hFuel
        | succ fuel =>
            rw [arrayRows, hTook.ahead.rest_cons]
            simp only [Segment.token, hKind, Except.bind_eq_ok]
            refine ⟨(x, s₂), hSecond, ?_⟩
            rw [hLoop fuel (by omega)]
            rcases hRest.eq_cons with ⟨r, rows', rfl⟩
            simp [onto]
      · simpa using hTook.trans (hNext.cons hTook')

/- What is read as an array has rows of one length. -/
theorem array_sound
    {e : Expr}
    (hAhead : Ahead ctx s offset us)
    (hOk : array s = .ok (e, s')) :
    ∃ used w left rows a,
      us = used ++ w :: left ∧
        w.kind = .closing .array ∧
          Rows used rows ∧
            ScalarArray.ofRows? rows = some a ∧
              e = .leaf false (.array a) ∧
                Took ctx s s' offset (used ++ [w]) left [] := by
  unfold array at hOk
  simp only [Except.bind_eq_ok] at hOk
  rcases hOk with ⟨⟨v, s₁⟩, hFirst, ⟨rows, s₂⟩, hRest, hArray⟩
  rw [element_eq_elementFrom] at hFirst
  rcases elementFrom_sound hAhead hFirst with
    ⟨first, between, rfl, hElement, hTook⟩
  rcases arrayRows_sound hTook.ahead hElement hRest with
    ⟨used, w, left, rows', rfl, hClose, hRows, hOut, hTook'⟩
  rcases hRows.eq_cons with ⟨r, rows', rfl⟩
  have hSame : rows = r :: rows' := by simpa [onto] using hOut
  subst hSame
  dsimp only at hArray
  split at hArray
  · rename_i a hOfRows
    cases hArray
    exact ⟨first ++ used, w, left, _, a, by simp, hClose, hRows,
      hOfRows, rfl, by simpa using hTook.trans hTook'⟩
  · cases hArray

theorem array_complete
    {w : Segment}
    {rows : List (List Scalar)}
    {a : ScalarArray}
    (hRows : Rows us rows)
    (hArray : ScalarArray.ofRows? rows = some a)
    (hClose : w.kind = .closing .array)
    (hAhead : Ahead ctx s offset (us ++ w :: left)) :
    ∃ s',
      array s = .ok (.leaf false (.array a), s') ∧
        Took ctx s s' offset (us ++ [w]) left [] := by
  rcases hRows.complete hClose [] [] hAhead with
    ⟨v, s₁, s', hFirst, -, hLoop, hTook⟩
  refine ⟨s', ?_, hTook⟩
  unfold array
  simp only [Except.bind_eq_ok]
  refine ⟨(v, s₁), hFirst, (rows, s'), ?_, ?_⟩
  · rw [hLoop _ (Nat.lt_succ_self _)]
    rcases hRows.eq_cons with ⟨r, rows', rfl⟩
    simp [onto]
  · simp [hArray]

end

end Parse

end Spreadsheet
