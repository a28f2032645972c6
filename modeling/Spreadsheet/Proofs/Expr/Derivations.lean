import Spreadsheet.Proofs.Expr.Completeness

/-
  Derivation trees of formulas.

  A tree shows by which rules a list of tokens is a phrase,
  and what it is read as. The tokens of a text are read as an
  expression exactly if they are the yield of a tree for it.

  Main declarations:
    * `Parse.Tree`
    * `Parse.Tree.yield`
    * `Parse.Derives`
    * `Parse.Reads.derives`
    * `Parse.Derives.reads`
    * `Expr.ofTokens?_eq_ok`
-/

namespace Spreadsheet

namespace Parse

------------------------------------------------------------
-- Trees
------------------------------------------------------------

/- Constants after signs, with the separators between them. -/
inductive Elements where
  | single (signs : List Token) (constant : Token)
  | more
      (signs : List Token)
      (constant separator : Token)
      (rest : Elements)

/- The tokens of the elements of an array, from the left. -/
def Elements.yield : Elements → List Token
  | .single signs constant => signs ++ [constant]
  | .more signs constant separator rest =>
      signs ++ constant :: separator :: rest.yield

/-
  The rules that were used for a phrase. The last four are for
  the arguments of calls.
-/
inductive Tree where
  | operand (t : Token)
  | group (opening : Token) (inner : Tree) (closing : Token)
  | array (opening : Token) (elements : Elements) (closing : Token)
  | call (opening : Token) (args : Tree) (closing : Token)
  | percent (inner : Tree) (t : Token)
  | sign (t : Token) (inner : Tree)
  | operator (left : Tree) (t : Token) (right : Tree)
  | omitted
  | last (arg : Tree)
  | more (arg : Tree) (separator : Token) (rest : Tree)
  | noArguments

/- The tokens of a tree, from the left. -/
def Tree.yield : Tree → List Token
  | .operand t => [t]
  | .group opening inner closing =>
      opening :: inner.yield ++ [closing]
  | .array opening elements closing =>
      opening :: elements.yield ++ [closing]
  | .call opening args closing => opening :: args.yield ++ [closing]
  | .percent inner t => inner.yield ++ [t]
  | .sign t inner => t :: inner.yield
  | .operator left t right => left.yield ++ t :: right.yield
  | .omitted => []
  | .last arg => arg.yield
  | .more arg separator rest =>
      arg.yield ++ separator :: rest.yield
  | .noArguments => []

------------------------------------------------------------
-- Rules
------------------------------------------------------------

/- Signs and a constant, of which some signs were read before. -/
inductive DerivesElement :
    Bool → List Token → Token → Scalar → Prop where
  | constant
      {negative : Bool}
      {t : Token}
      {kind : OperandKind}
      {v w : Scalar}
      (hKind : t.kind = .operand kind)
      (hValue : scalarOf? kind t.chars = some v)
      (hSigned : signed? negative v = some w) :
      DerivesElement negative [] t w
  | sign
      {negative : Bool}
      {t u : Token}
      {signs : List Token}
      {w : Scalar}
      (hKind : u.kind = .prefixOp)
      (hRest :
        DerivesElement (negative != (u.chars == ['-'])) signs t w) :
      DerivesElement negative (u :: signs) t w

/- Elements and the rows that their separators make of them. -/
inductive DerivesRows : Elements → List (List Scalar) → Prop where
  | single
      {signs : List Token}
      {t : Token}
      {v : Scalar}
      (hElement : DerivesElement false signs t v) :
      DerivesRows (.single signs t) [[v]]
  | across
      {signs : List Token}
      {t u : Token}
      {rest : Elements}
      {v : Scalar}
      {row : List Scalar}
      {rows : List (List Scalar)}
      (hElement : DerivesElement false signs t v)
      (hKind : u.kind = .argumentSeparator)
      (hRest : DerivesRows rest (row :: rows)) :
      DerivesRows (.more signs t u rest) ((v :: row) :: rows)
  | down
      {signs : List Token}
      {t u : Token}
      {rest : Elements}
      {v : Scalar}
      {rows : List (List Scalar)}
      (hElement : DerivesElement false signs t v)
      (hKind : u.kind = .rowSeparator)
      (hRest : DerivesRows rest rows) :
      DerivesRows (.more signs t u rest) ([v] :: rows)

/-
  The tree is one of the phrase when it is read at an anchor
  and after a number of references, and holds these
  references.
-/
inductive Derives (ctx : ParseContext) :
    Phrase → Tree → Nat → References → Prop where
  | constant
      {t : Token}
      {kind : OperandKind}
      {v : Scalar}
      {i : Nat}
      (hKind : t.kind = .operand kind)
      (hValue : scalarOf? kind t.chars = some v) :
      Derives ctx (.primary (.constant v)) (.operand t) i []
  | reference
      {t : Token}
      {r : Reference}
      {i : Nat}
      (hKind : t.kind = .operand .range)
      (hRead : Reference.read? t.chars ctx.anchor = some r) :
      Derives ctx (.primary (.leaf false (.reference i)))
        (.operand t) i [r]
  | name
      {t : Token}
      {i : Nat}
      (hKind : t.kind = .operand .range)
      (hRead : Reference.read? t.chars ctx.anchor = none) :
      Derives ctx (.primary (.unreadable .unknownName t.chars))
        (.operand t) i []
  | group
      {t w : Token}
      {inner : Tree}
      {e : Expr}
      {i : Nat}
      {rs : References}
      (hOpen : t.kind = .opening .group)
      (hInner : Derives ctx (.chain 0 e) inner i rs)
      (hClose : w.kind = .closing .group) :
      Derives ctx (.primary e.bracket) (.group t inner w) i rs
  | array
      {t w : Token}
      {elements : Elements}
      {rows : List (List Scalar)}
      {a : ScalarArray}
      {i : Nat}
      (hOpen : t.kind = .opening .array)
      (hRows : DerivesRows elements rows)
      (hArray : ScalarArray.ofRows? rows = some a)
      (hClose : w.kind = .closing .array) :
      Derives ctx (.primary (.leaf false (.array a)))
        (.array t elements w) i []
  | call
      {t w : Token}
      {args : Tree}
      {es : List Expr}
      {i : Nat}
      {rs : References}
      (hOpen : t.kind = .opening .call)
      (hArgs : Derives ctx (.arguments es) args i rs)
      (hClose : w.kind = .closing .call) :
      Derives ctx
        (.primary
          (called t.functionName es
            (Text.slice ctx.source t.start w.stop)))
        (.call t args w) i rs
  | plain
      {tree : Tree}
      {e : Expr}
      {i : Nat}
      {rs : References}
      (hInner : Derives ctx (.primary e) tree i rs) :
      Derives ctx (.scaled e) tree i rs
  | percent
      {t : Token}
      {inner : Tree}
      {e : Expr}
      {i : Nat}
      {rs : References}
      (hInner : Derives ctx (.scaled e) inner i rs)
      (hKind : t.kind = .postfixOp) :
      Derives ctx (.scaled (.call .percent [e])) (.percent inner t)
        i rs
  | unsigned
      {tree : Tree}
      {e : Expr}
      {i : Nat}
      {rs : References}
      (hInner : Derives ctx (.scaled e) tree i rs) :
      Derives ctx (.signed e) tree i rs
  | sign
      {t : Token}
      {inner : Tree}
      {e : Expr}
      {i : Nat}
      {rs : References}
      (hKind : t.kind = .prefixOp)
      (hInner : Derives ctx (.signed e) inner i rs) :
      Derives ctx (.signed (withSign t.chars e)) (.sign t inner) i rs
  | operand
      {tree : Tree}
      {e : Expr}
      {i : Nat}
      {rs : References}
      (binding : Nat)
      (hInner : Derives ctx (.signed e) tree i rs) :
      Derives ctx (.chain binding e) tree i rs
  | operator
      {left right : Tree}
      {t : Token}
      {op : InfixOp}
      {first second : Expr}
      {i binding : Nat}
      {rs ss : References}
      (hLeft : Derives ctx (.chain op.binding first) left i rs)
      (hKind : t.kind = .infixOp)
      (hSymbol : InfixOp.ofSymbol? t.text = some op)
      (hRight :
        Derives ctx (.chain (op.binding + 1) second) right
          (i + rs.length) ss)
      (hBinding : binding ≤ op.binding) :
      Derives ctx
        (.chain binding (.call (.infixOp op) [first, second]))
        (.operator left t right) i (rs ++ ss)
  | given
      {tree : Tree}
      {e : Expr}
      {i : Nat}
      {rs : References}
      (hInner : Derives ctx (.chain 0 e) tree i rs) :
      Derives ctx (.argument e) tree i rs
  | omitted
      {i : Nat} :
      Derives ctx (.argument (.constant .blank)) .omitted i []
  | last
      {arg : Tree}
      {e : Expr}
      {i : Nat}
      {rs : References}
      (hInner : Derives ctx (.argument e) arg i rs) :
      Derives ctx (.list [e]) (.last arg) i rs
  | more
      {arg rest : Tree}
      {t : Token}
      {e : Expr}
      {es : List Expr}
      {i : Nat}
      {rs ss : References}
      (hFirst : Derives ctx (.argument e) arg i rs)
      (hKind : t.kind = .argumentSeparator)
      (hRest : Derives ctx (.list es) rest (i + rs.length) ss) :
      Derives ctx (.list (e :: es)) (.more arg t rest) i (rs ++ ss)
  | none
      {i : Nat} :
      Derives ctx (.arguments []) .noArguments i []
  | some
      {tree : Tree}
      {es : List Expr}
      {i : Nat}
      {rs : References}
      (hInner : Derives ctx (.list es) tree i rs)
      (hSome : tree.yield ≠ []) :
      Derives ctx (.arguments es) tree i rs

end Parse

------------------------------------------------------------
-- Tokens Of Segments
------------------------------------------------------------

namespace Segment

/- The token of a segment whose blanks start at a given byte. -/
def tokenAt (u : Segment) (offset : Nat) : Token :=
  u.token (offset + Text.byteLength u.gap)

/- The byte after segments that start at a given byte. -/
def after (offset : Nat) (us : List Segment) : Nat :=
  offset + Text.byteLength (render us)

theorem tokens_append_cons
    (offset : Nat)
    (us : List Segment)
    (u : Segment)
    (vs : List Segment) :
    tokens offset (us ++ u :: vs) =
      tokens offset us ++
        u.tokenAt (after offset us) ::
          tokens (after offset us + Text.byteLength u.text) vs :=
  tokens_append ..

theorem tokens_enclosed
    (offset : Nat)
    (u : Segment)
    (us : List Segment)
    (w : Segment) :
    tokens offset (u :: us ++ [w]) =
      u.tokenAt offset ::
        tokens (offset + Text.byteLength u.text) us ++
          [w.tokenAt (after (offset + Text.byteLength u.text) us)] :=
  congrArg _ (tokens_append_cons ..)

/- Tokens split where their segments do. -/
theorem tokens_eq_append
    {offset : Nat}
    {us : List Segment}
    {ts rest : List Token}
    (hTokens : tokens offset us = ts ++ rest) :
    ∃ vs ws,
      us = vs ++ ws ∧
        tokens offset vs = ts ∧
          tokens (after offset vs) ws = rest := by
  refine ⟨us.take ts.length, us.drop ts.length,
    (List.take_append_drop ..).symm, ?_⟩
  rw [← List.take_append_drop ts.length us, tokens_append] at hTokens
  refine List.append_inj hTokens ?_
  have hLength := congrArg List.length hTokens
  simp only [List.length_append, length_tokens, List.length_take,
    List.length_drop] at hLength ⊢
  omega

theorem tokens_eq_cons
    {offset : Nat}
    {us : List Segment}
    {t : Token}
    {rest : List Token}
    (hTokens : tokens offset us = t :: rest) :
    ∃ u ws,
      us = u :: ws ∧
        u.tokenAt offset = t ∧
          tokens (offset + Text.byteLength u.text) ws = rest := by
  cases us with
  | nil => cases hTokens
  | cons u ws =>
      rw [tokens, List.cons.injEq] at hTokens
      exact ⟨u, ws, rfl, hTokens⟩

theorem tokens_eq_nil
    {offset : Nat}
    {us : List Segment}
    (hTokens : tokens offset us = []) :
    us = [] := by
  cases us with
  | nil => rfl
  | cons u us => cases hTokens

/- The tokens of segments between two others. -/
theorem tokens_eq_enclosed
    {offset : Nat}
    {us : List Segment}
    {t w : Token}
    {ts : List Token}
    (hTokens : tokens offset us = t :: ts ++ [w]) :
    ∃ u vs x,
      us = u :: vs ++ [x] ∧
        u.tokenAt offset = t ∧
          tokens (offset + Text.byteLength u.text) vs = ts ∧
            x.tokenAt
                (after (offset + Text.byteLength u.text) vs) =
              w := by
  rcases tokens_eq_cons hTokens with ⟨u, ws, rfl, hFirst, hRest⟩
  rcases tokens_eq_append hRest with ⟨vs, xs, rfl, hInner, hLast⟩
  rcases tokens_eq_cons hLast with ⟨x, ys, rfl, hClose, hNil⟩
  obtain rfl := tokens_eq_nil hNil
  exact ⟨u, vs, x, rfl, hFirst, hInner, hClose⟩

/- Segments stand at a byte of a text. -/
def PlacedAt
    (source : List Char)
    (offset : Nat)
    (us : List Segment) : Prop :=
  ∃ before rest,
    source = before ++ (render us ++ rest) ∧
      Text.byteLength before = offset

theorem placedAt_append
    {source : List Char}
    {offset : Nat}
    {us vs : List Segment}
    (hPlaced : PlacedAt source offset (us ++ vs)) :
    PlacedAt source offset us ∧
      PlacedAt source (after offset us) vs := by
  rcases hPlaced with ⟨before, rest, hSource, rfl⟩
  rw [render_append, List.append_assoc] at hSource
  refine ⟨⟨before, render vs ++ rest, hSource, rfl⟩,
    before ++ render us, rest, ?_, Text.byteLength_append ..⟩
  rw [hSource, List.append_assoc]

theorem placedAt_cons
    {source : List Char}
    {offset : Nat}
    {u : Segment}
    {us : List Segment}
    (hPlaced : PlacedAt source offset (u :: us)) :
    PlacedAt source (offset + Text.byteLength u.text) us := by
  have hRest : PlacedAt source (after offset [u]) us :=
    (placedAt_append hPlaced).2
  rwa [after, render_cons, render_nil, List.append_nil] at hRest

theorem placedAt_enclosed
    {source : List Char}
    {offset : Nat}
    {u w : Segment}
    {us : List Segment}
    (hPlaced : PlacedAt source offset (u :: us ++ [w])) :
    PlacedAt source (offset + Text.byteLength u.text) us :=
  (placedAt_append (placedAt_cons hPlaced)).1

/- The text from a token to another one in the same source. -/
theorem slice_enclosed
    {source : List Char}
    {offset : Nat}
    {u w : Segment}
    {us : List Segment}
    (hPlaced : PlacedAt source offset (u :: us ++ [w])) :
    Text.slice source (u.tokenAt offset).start
        (w.tokenAt
          (after (offset + Text.byteLength u.text) us)).stop =
      u.chars ++ render (us ++ [w]) := by
  rcases hPlaced with ⟨before, rest, hSource, rfl⟩
  have hPlace :
      source =
        (before ++ u.gap) ++
          ((u.chars ++ render (us ++ [w])) ++ rest) := by
    rw [hSource]
    simp [text]
  have hStart :
      (u.tokenAt (Text.byteLength before)).start =
        Text.byteLength (before ++ u.gap) :=
    (Text.byteLength_append before u.gap).symm
  have hStop :
      (w.tokenAt
          (after (Text.byteLength before + Text.byteLength u.text)
            us)).stop =
        Text.byteLength (before ++ u.gap) +
          Text.byteLength (u.chars ++ render (us ++ [w])) := by
    simp [Token.stop, tokenAt, after, token, text, Nat.add_assoc]
  rw [hStart, hStop, hPlace, Text.slice_append]

end Segment

------------------------------------------------------------
-- Trees Of Phrases
------------------------------------------------------------

namespace Parse

open Segment

theorem Element.derives
    {negative : Bool}
    {us : List Segment}
    {v : Scalar}
    (hElement : Element negative us v)
    (offset : Nat) :
    ∃ signs t,
      signs ++ [t] = tokens offset us ∧
        DerivesElement negative signs t v := by
  induction hElement generalizing offset with
  | constant hKind hValue hSigned =>
      exact ⟨[], _, rfl, .constant hKind hValue hSigned⟩
  | sign hKind hRest ih =>
      rcases ih _ with ⟨signs, t, hTokens, hDerives⟩
      exact ⟨_ :: signs, t, congrArg _ hTokens,
        .sign hKind hDerives⟩

theorem DerivesElement.reads
    {negative : Bool}
    {signs : List Token}
    {t : Token}
    {v : Scalar}
    (hDerives : DerivesElement negative signs t v)
    {offset : Nat}
    {us : List Segment}
    (hTokens : tokens offset us = signs ++ [t]) :
    Element negative us v := by
  induction hDerives generalizing offset us with
  | constant hKind hValue hSigned =>
      rcases tokens_eq_cons hTokens with ⟨u, vs, rfl, rfl, hNil⟩
      obtain rfl := tokens_eq_nil hNil
      exact .constant hKind hValue hSigned
  | sign hKind hRest ih =>
      rcases tokens_eq_cons hTokens with ⟨u, vs, rfl, rfl, hLater⟩
      exact .sign hKind (ih hLater)

theorem Rows.derives
    {us : List Segment}
    {rows : List (List Scalar)}
    (hRows : Rows us rows)
    (offset : Nat) :
    ∃ elements : Elements,
      elements.yield = tokens offset us ∧
        DerivesRows elements rows := by
  induction hRows generalizing offset with
  | single hElement =>
      rcases hElement.derives offset with ⟨signs, t, hTokens, h⟩
      exact ⟨.single signs t, hTokens, .single h⟩
  | @across us _ u _ _ _ hElement hKind hRest ih =>
      rcases hElement.derives offset with ⟨signs, t, hTokens, h⟩
      rcases ih _ with ⟨rest, hLater, hDerives⟩
      refine ⟨.more signs t (u.tokenAt (after offset us)) rest, ?_,
        .across h hKind hDerives⟩
      rw [tokens_append_cons, ← hTokens, ← hLater,
        List.append_assoc]
      rfl
  | @down us _ u _ _ hElement hKind hRest ih =>
      rcases hElement.derives offset with ⟨signs, t, hTokens, h⟩
      rcases ih _ with ⟨rest, hLater, hDerives⟩
      refine ⟨.more signs t (u.tokenAt (after offset us)) rest, ?_,
        .down h hKind hDerives⟩
      rw [tokens_append_cons, ← hTokens, ← hLater,
        List.append_assoc]
      rfl

theorem DerivesRows.reads
    {elements : Elements}
    {rows : List (List Scalar)}
    (hDerives : DerivesRows elements rows)
    {offset : Nat}
    {us : List Segment}
    (hTokens : tokens offset us = elements.yield) :
    Rows us rows := by
  induction hDerives generalizing offset us with
  | single hElement => exact .single (hElement.reads hTokens)
  | across hElement hKind hRest ih =>
      rw [Elements.yield, List.append_cons] at hTokens
      rcases tokens_eq_append hTokens with ⟨vs, ws, rfl, h, hLater⟩
      rcases tokens_eq_cons hLater with ⟨u, xs, rfl, rfl, hLast⟩
      exact .across (hElement.reads h) hKind (ih hLast)
  | down hElement hKind hRest ih =>
      rw [Elements.yield, List.append_cons] at hTokens
      rcases tokens_eq_append hTokens with ⟨vs, ws, rfl, h, hLater⟩
      rcases tokens_eq_cons hLater with ⟨u, xs, rfl, rfl, hLast⟩
      exact .down (hElement.reads h) hKind (ih hLast)

/- Segments that are a phrase have a tree of it. -/
theorem Reads.derives
    {ctx : ParseContext}
    {phrase : Phrase}
    {us : List Segment}
    {i : Nat}
    {rs : References}
    (hReads : Reads ctx.anchor phrase us i rs)
    {offset : Nat}
    (hPlaced : PlacedAt ctx.source offset us) :
    ∃ tree : Tree,
      tree.yield = tokens offset us ∧
        Derives ctx phrase tree i rs := by
  induction hReads generalizing offset with
  | @constant u _ _ _ hKind hValue =>
      exact ⟨.operand (u.tokenAt offset), rfl,
        .constant hKind hValue⟩
  | @reference u _ _ hKind hRead =>
      exact ⟨.operand (u.tokenAt offset), rfl,
        .reference hKind hRead⟩
  | @name u _ hKind hRead =>
      have hName : (u.tokenAt offset).kind = .operand .range := hKind
      exact ⟨.operand (u.tokenAt offset), rfl,
        Derives.name hName hRead⟩
  | group hOpen _ hClose ih =>
      rw [tokens_enclosed]
      rcases ih (placedAt_enclosed hPlaced) with
        ⟨inner, hYield, hDerives⟩
      rw [← hYield]
      exact ⟨.group _ inner _, rfl, .group hOpen hDerives hClose⟩
  | array hOpen hRows hArray hClose =>
      rw [tokens_enclosed]
      rcases hRows.derives _ with ⟨elements, hYield, hDerives⟩
      rw [← hYield]
      exact ⟨.array _ elements _, rfl,
        .array hOpen hDerives hArray hClose⟩
  | @call u _ _ _ _ _ hOpen _ hClose ih =>
      have hName :
          (u.token 0).functionName =
            (u.tokenAt offset).functionName := rfl
      rw [tokens_enclosed, ← slice_enclosed hPlaced, hName]
      rcases ih (placedAt_enclosed hPlaced) with
        ⟨args, hYield, hDerives⟩
      rw [← hYield]
      exact ⟨.call _ args _, rfl, .call hOpen hDerives hClose⟩
  | plain _ ih =>
      rcases ih hPlaced with ⟨tree, hYield, hDerives⟩
      exact ⟨tree, hYield, .plain hDerives⟩
  | percent _ hKind ih =>
      rw [tokens_append_cons]
      rcases ih (placedAt_append hPlaced).1 with
        ⟨inner, hYield, hDerives⟩
      rw [← hYield]
      exact ⟨.percent inner _, rfl, .percent hDerives hKind⟩
  | unsigned _ ih =>
      rcases ih hPlaced with ⟨tree, hYield, hDerives⟩
      exact ⟨tree, hYield, .unsigned hDerives⟩
  | @sign u _ _ _ _ hKind _ ih =>
      rcases ih (placedAt_cons hPlaced) with
        ⟨inner, hYield, hDerives⟩
      have hSign : (u.tokenAt offset).kind = .prefixOp := hKind
      exact ⟨.sign (u.tokenAt offset) inner, congrArg _ hYield,
        .sign hSign hDerives⟩
  | operand binding _ ih =>
      rcases ih hPlaced with ⟨tree, hYield, hDerives⟩
      exact ⟨tree, hYield, .operand binding hDerives⟩
  | operator _ hKind hSymbol _ hBinding ihLeft ihRight =>
      rw [tokens_append_cons]
      rcases ihLeft (placedAt_append hPlaced).1 with
        ⟨left, hYield, hLeft⟩
      rcases ihRight (placedAt_cons (placedAt_append hPlaced).2) with
        ⟨right, hYield', hRight⟩
      rw [← hYield, ← hYield']
      exact ⟨.operator left _ right, rfl,
        .operator hLeft hKind hSymbol hRight hBinding⟩
  | given _ ih =>
      rcases ih hPlaced with ⟨tree, hYield, hDerives⟩
      exact ⟨tree, hYield, .given hDerives⟩
  | omitted => exact ⟨.omitted, rfl, .omitted⟩
  | last _ ih =>
      rcases ih hPlaced with ⟨arg, hYield, hDerives⟩
      exact ⟨.last arg, hYield, .last hDerives⟩
  | more _ hKind _ ihFirst ihRest =>
      rw [tokens_append_cons]
      rcases ihFirst (placedAt_append hPlaced).1 with
        ⟨arg, hYield, hFirst⟩
      rcases ihRest (placedAt_cons (placedAt_append hPlaced).2) with
        ⟨rest, hYield', hRest⟩
      rw [← hYield, ← hYield']
      exact ⟨.more arg _ rest, rfl, .more hFirst hKind hRest⟩
  | none => exact ⟨.noArguments, rfl, .none⟩
  | some _ hSome ih =>
      rcases ih hPlaced with ⟨tree, hYield, hDerives⟩
      refine ⟨tree, hYield, .some hDerives ?_⟩
      rw [hYield]
      exact fun hNil => hSome (tokens_eq_nil hNil)

/- Segments with the tokens of a tree are its phrase. -/
theorem Derives.reads
    {ctx : ParseContext}
    {phrase : Phrase}
    {tree : Tree}
    {i : Nat}
    {rs : References}
    (hDerives : Derives ctx phrase tree i rs)
    {offset : Nat}
    {us : List Segment}
    (hPlaced : PlacedAt ctx.source offset us)
    (hTokens : tokens offset us = tree.yield) :
    Reads ctx.anchor phrase us i rs := by
  induction hDerives generalizing offset us with
  | constant hKind hValue =>
      rcases tokens_eq_cons hTokens with ⟨u, vs, rfl, rfl, hNil⟩
      obtain rfl := tokens_eq_nil hNil
      exact .constant hKind hValue
  | reference hKind hRead =>
      rcases tokens_eq_cons hTokens with ⟨u, vs, rfl, rfl, hNil⟩
      obtain rfl := tokens_eq_nil hNil
      exact .reference hKind hRead
  | name hKind hRead =>
      rcases tokens_eq_cons hTokens with ⟨u, vs, rfl, rfl, hNil⟩
      obtain rfl := tokens_eq_nil hNil
      exact .name hKind hRead
  | group hOpen _ hClose ih =>
      rcases tokens_eq_enclosed hTokens with
        ⟨u, vs, w, rfl, rfl, hInner, rfl⟩
      exact .group hOpen (ih (placedAt_enclosed hPlaced) hInner)
        hClose
  | array hOpen hRows hArray hClose =>
      rcases tokens_eq_enclosed hTokens with
        ⟨u, vs, w, rfl, rfl, hInner, rfl⟩
      exact .array hOpen (hRows.reads hInner) hArray hClose
  | call hOpen _ hClose ih =>
      rcases tokens_eq_enclosed hTokens with
        ⟨u, vs, w, rfl, rfl, hInner, rfl⟩
      rw [slice_enclosed hPlaced]
      exact .call hOpen (ih (placedAt_enclosed hPlaced) hInner)
        hClose
  | plain _ ih => exact .plain (ih hPlaced hTokens)
  | percent _ hKind ih =>
      rcases tokens_eq_append hTokens with ⟨vs, ws, rfl, h, hLast⟩
      rcases tokens_eq_cons hLast with ⟨u, xs, rfl, rfl, hNil⟩
      obtain rfl := tokens_eq_nil hNil
      exact .percent (ih (placedAt_append hPlaced).1 h) hKind
  | unsigned _ ih => exact .unsigned (ih hPlaced hTokens)
  | sign hKind _ ih =>
      rcases tokens_eq_cons hTokens with ⟨u, vs, rfl, rfl, hRest⟩
      exact .sign hKind (ih (placedAt_cons hPlaced) hRest)
  | operand binding _ ih => exact .operand binding (ih hPlaced hTokens)
  | operator _ hKind hSymbol _ hBinding ihLeft ihRight =>
      rcases tokens_eq_append hTokens with ⟨vs, ws, rfl, h, hLater⟩
      rcases tokens_eq_cons hLater with ⟨u, xs, rfl, rfl, hLast⟩
      rcases placedAt_append hPlaced with ⟨hFirst, hSecond⟩
      exact .operator (ihLeft hFirst h) hKind hSymbol
        (ihRight (placedAt_cons hSecond) hLast) hBinding
  | given _ ih => exact .given (ih hPlaced hTokens)
  | omitted =>
      obtain rfl := tokens_eq_nil hTokens
      exact .omitted
  | last _ ih => exact .last (ih hPlaced hTokens)
  | more _ hKind _ ihFirst ihRest =>
      rcases tokens_eq_append hTokens with ⟨vs, ws, rfl, h, hLater⟩
      rcases tokens_eq_cons hLater with ⟨u, xs, rfl, rfl, hLast⟩
      rcases placedAt_append hPlaced with ⟨hFirst, hSecond⟩
      exact .more (ihFirst hFirst h) hKind
        (ihRest (placedAt_cons hSecond) hLast)
  | none =>
      obtain rfl := tokens_eq_nil hTokens
      exact .none
  | some _ hSome ih =>
      refine .some (ih hPlaced hTokens) ?_
      rintro rfl
      exact hSome hTokens.symm

end Parse

------------------------------------------------------------
-- Whole Formulas
------------------------------------------------------------

/- The tokens of a text are those of its segments. -/
theorem Token.of_lex
    {source : List Char}
    {ts : List Token}
    (hLex : Token.lex source = .ok ts) :
    ∃ offset us tail,
      Segment.PlacedAt source offset us ∧
        Segment.Splits .start (Formula.body source) us tail ∧
          ts.filter (fun t => !t.isBlank) =
            Segment.tokens offset us := by
  rcases Token.lex_eq source with ⟨before, hSource, hBody⟩
  rw [hBody] at hLex
  rcases Segment.of_ofChars hLex with ⟨us, tail, hSplits, hFilter⟩
  refine ⟨_, us, tail, ⟨before, tail, ?_, rfl⟩, hSplits, hFilter⟩
  rw [← hSplits.covers]
  exact hSource

/-
  The tokens of a text are read as an expression exactly if
  they have a tree for it.
-/
theorem Expr.ofTokens?_eq_ok
    {source : List Char}
    {ts : List Token}
    (hLex : Token.lex source = .ok ts)
    {anchor : Point}
    {e : Expr}
    {refs : References} :
    Expr.ofTokens? source ts anchor = .ok (e, refs) ↔
      ∃ tree : Parse.Tree,
        tree.yield = ts.filter (fun t => !t.isBlank) ∧
          Parse.Derives ⟨source, anchor⟩ (.chain 0 e) tree 0
            refs := by
  have hChars :
      Expr.ofTokens? source ts anchor =
        Expr.ofChars? source anchor := by
    rw [Expr.ofChars?, hLex]
    rfl
  rcases Token.lex_eq source with ⟨before, hSource, hBody⟩
  rw [hChars, Expr.ofChars?_eq_ok]
  constructor
  · rintro ⟨us, tail, hSplits, hReads⟩
    have hPlaced :
        Segment.PlacedAt source (Text.byteLength before) us :=
      ⟨before, tail, by rw [← hSplits.covers]; exact hSource, rfl⟩
    have hPhrase :
        Parse.Reads (ParseContext.mk source anchor).anchor
          (.chain 0 e) us 0 refs := hReads
    rcases hPhrase.derives hPlaced with ⟨tree, hYield, hDerives⟩
    refine ⟨tree, ?_, hDerives⟩
    rcases Segment.ofChars_of_splits hSplits
        (Text.byteLength before) with
      ⟨ts', hTokens, hFilter⟩
    rw [hBody, hTokens] at hLex
    cases hLex
    rw [hYield, hFilter]
  · rintro ⟨tree, hYield, hDerives⟩
    rcases Token.of_lex hLex with
      ⟨offset, us, tail, hPlaced, hSplits, hFilter⟩
    exact ⟨us, tail, hSplits,
      hDerives.reads hPlaced (by rw [hYield, hFilter])⟩

end Spreadsheet
