import Mathlib
import Spreadsheet.Proofs.Expr.Respelling
import Spreadsheet.Proofs.Token.CallSpans

/-
  What is kept as text of a formula that can be read.

  A call of an unknown function, or with a number of arguments
  that its function does not take, is kept with its text from
  its name up to the parenthesis that closes it, whatever it
  holds. So the tokens of a formula tell which of its parts are
  kept: they are passed from the left, and a part that is kept
  is passed at once.

  Main declarations:
    * `CallFault`
    * `Unread`
    * `Unread.unique`
    * `Parse.Derives.unread`
    * `Expr.unread_calls_cut_whole`
-/

namespace Spreadsheet

------------------------------------------------------------
-- Faults Of Calls
------------------------------------------------------------

namespace Operation

/- The number of arguments is outside the arity. -/
def Refuses (op : Operation) (count : Nat) : Prop :=
  count < op.fewest ∨ ∃ most, op.most = some most ∧ most < count

theorem accepts_iff {op : Operation} {count : Nat} :
    op.accepts count = true ↔ ¬ op.Refuses count := by
  unfold accepts Refuses
  cases op.most with
  | none => simp
  | some most => simp

/- The name of a function is spelled in capitals. -/
theorem map_toUpper_symbol
    {op : Operation}
    (hFunction : op.isFunction = true) :
    op.symbol.toList.map Char.toUpper = op.symbol.toList := by
  cases op with
  | infixOp | negate | percent => cases hFunction
  | aggregate f => cases f <;> decide
  | elementwise f => cases f <;> decide
  | choice f => cases f <;> decide

/- A function is found by its name in any case. -/
theorem ofName?_eq_some
    {name : String}
    {op : Operation} :
    ofName? name = some op ↔
      op.isFunction = true ∧
        Text.equalIgnoringCase op.symbol name = true := by
  have hUpper (hFunction : op.isFunction = true) :
      Text.equalIgnoringCase op.symbol name = true ↔
        op.symbol = Text.upperAscii name := by
    rw [Text.equalIgnoringCase, map_toUpper_symbol hFunction,
      beq_iff_eq, Text.upperAscii, ← String.toList_inj,
      String.toList_ofList]
  constructor
  · intro hName
    have hFunction := isFunction_of_ofName? hName
    have hFound := List.find?_some hName
    simp only [Bool.and_eq_true, beq_iff_eq] at hFound
    exact ⟨hFunction, (hUpper hFunction).mpr hFound.2⟩
  · rintro ⟨hFunction, hName⟩
    have hSelf := (hUpper hFunction).mp hName
    have hFind := ofName?_symbol hFunction
    have hFixed : Text.upperAscii op.symbol = op.symbol := by
      rw [Text.upperAscii, map_toUpper_symbol hFunction,
        String.ofList_toList]
    rw [ofName?, hFixed, hSelf] at hFind
    exact hFind

end Operation

/-
  Why a call is kept as text: no function has its name in any
  case, or one does that takes no such number of arguments.
-/
inductive CallFault (name : String) (count : Nat) :
    ErrorValue → Prop where
  | unknown
      (hUnknown :
        ∀ op : Operation, op.isFunction = true →
          Text.equalIgnoringCase op.symbol name = false) :
      CallFault name count .unknownName
  | arity
      {op : Operation}
      (hFunction : op.isFunction = true)
      (hName : Text.equalIgnoringCase op.symbol name = true)
      (hCount : op.Refuses count) :
      CallFault name count .badFormula

theorem CallFault.unique
    {name : String}
    {count : Nat}
    {err err' : ErrorValue}
    (hFault : CallFault name count err)
    (hFault' : CallFault name count err') :
    err = err' := by
  cases hFault with
  | unknown hUnknown =>
      cases hFault' with
      | unknown => rfl
      | arity hFunction hName =>
          rw [hUnknown _ hFunction] at hName
          cases hName
  | arity hFunction hName =>
      cases hFault' with
      | unknown hUnknown =>
          rw [hUnknown _ hFunction] at hName
          cases hName
      | arity => rfl

/- A call is made, or it has a fault and its text is kept. -/
theorem called_cases
    (name : String)
    (args : List Expr)
    (cs : List Char) :
    (∃ err,
      CallFault name args.length err ∧
        Parse.called name args cs = .unreadable err cs) ∨
      ∃ op,
        (∀ err, ¬ CallFault name args.length err) ∧
          Parse.called name args cs = .call op args := by
  unfold Parse.called
  cases hName : Operation.ofName? name with
  | none =>
      refine .inl ⟨_, .unknown fun op hFunction => ?_, rfl⟩
      rw [Bool.eq_false_iff]
      intro hSame
      rw [Operation.ofName?_eq_some.mpr ⟨hFunction, hSame⟩] at hName
      cases hName
  | some op =>
      have hKnown := Operation.ofName?_eq_some.mp hName
      by_cases hAccepts : op.accepts args.length = true
      · refine .inr ⟨op, fun err hFault => ?_, if_pos hAccepts⟩
        cases hFault with
        | unknown hUnknown =>
            rw [hUnknown op hKnown.1] at hKnown
            cases hKnown.2
        | arity hFunction hSame hCount =>
            have hOther :=
              Operation.ofName?_eq_some.mpr ⟨hFunction, hSame⟩
            cases hName.symm.trans hOther
            exact Operation.accepts_iff.mp hAccepts hCount
      · refine .inl ⟨_, .arity hKnown.1 hKnown.2 ?_, if_neg hAccepts⟩
        rw [Operation.accepts_iff, not_not] at hAccepts
        exact hAccepts

------------------------------------------------------------
-- Parts That Are Kept
------------------------------------------------------------

open Token (Call argumentCount solid separators)

/-
  The parts of a formula that are kept as text, by its tokens
  from the left: names that are no reference, and calls with a
  fault. What stands inside of such a call is passed with it.
-/
inductive Unread (source : List Char) (anchor : Point) :
    List Token → List (ErrorValue × List Char) → Prop where
  | nil : Unread source anchor [] []
  | name
      {t : Token}
      {ts : List Token}
      {out : List (ErrorValue × List Char)}
      (hKind : t.kind = .operand .range)
      (hRead : Reference.read? t.chars anchor = none)
      (hRest : Unread source anchor ts out) :
      Unread source anchor (t :: ts) ((.unknownName, t.chars) :: out)
  | call
      {t w : Token}
      {inner ts : List Token}
      {err : ErrorValue}
      {out : List (ErrorValue × List Char)}
      (hCall : Call t inner w)
      (hFault :
        CallFault t.functionName (argumentCount (solid inner)) err)
      (hRest : Unread source anchor ts out) :
      Unread source anchor (t :: (inner ++ w :: ts))
        ((err, Text.slice source t.start w.stop) :: out)
  | other
      {t : Token}
      {ts : List Token}
      {out : List (ErrorValue × List Char)}
      (hName :
        t.kind = .operand .range →
          Reference.read? t.chars anchor ≠ none)
      (hCall :
        t.kind = .opening .call →
          ∃ inner w ts',
            ts = inner ++ w :: ts' ∧ Call t inner w ∧
              ∀ err,
                ¬ CallFault t.functionName
                    (argumentCount (solid inner)) err)
      (hRest : Unread source anchor ts out) :
      Unread source anchor (t :: ts) out

section

variable
  {source : List Char}
  {anchor : Point}
  {t : Token}
  {ts us : List Token}
  {out out' : List (ErrorValue × List Char)}

theorem Unread.append
    (hFirst : Unread source anchor ts out)
    (hSecond : Unread source anchor us out') :
    Unread source anchor (ts ++ us) (out ++ out') := by
  induction hFirst with
  | nil => exact hSecond
  | name hKind hRead hRest ih => exact .name hKind hRead ih
  | call hCall hFault hRest ih =>
      rw [List.cons_append, List.append_assoc, List.cons_append]
      exact .call hCall hFault ih
  | other hName hCall hRest ih =>
      refine .other hName (fun hOpen => ?_) ih
      rcases hCall hOpen with ⟨inner, w, ts', rfl, hInner, hFine⟩
      exact ⟨inner, w, ts' ++ us, by simp, hInner, hFine⟩

/- A token that is neither a name nor opens a call. -/
def IsPlain (t : Token) : Prop :=
  t.kind ≠ .operand .range ∧ t.kind ≠ .opening .call

theorem Unread.plain
    (hPlain : IsPlain t)
    (hRest : Unread source anchor ts out) :
    Unread source anchor (t :: ts) out :=
  .other (fun hKind => absurd hKind hPlain.1)
    (fun hKind => absurd hKind hPlain.2) hRest

theorem Unread.of_plain
    (hPlain : ∀ t ∈ ts, IsPlain t) :
    Unread source anchor ts [] := by
  induction ts with
  | nil => exact .nil
  | cons t ts ih =>
      rw [List.forall_mem_cons] at hPlain
      exact .plain hPlain.1 (ih hPlain.2)

/- The parts that are kept are the same whatever the blanks. -/
theorem Unread.of_solid
    (hUnread : Unread source anchor us out)
    (hSolid : solid ts = us) :
    Unread source anchor ts out := by
  have hBlanks {blanks : List Token}
      (hBlank : ∀ u ∈ blanks, u.isBlank = true) :
      Unread source anchor blanks [] := by
    refine .of_plain fun u hu => ?_
    have hKind : u.kind = .blank := beq_iff_eq.mp (hBlank u hu)
    rw [IsPlain, hKind]
    exact ⟨nofun, nofun⟩
  induction hUnread generalizing ts with
  | nil => exact hBlanks (by simpa [solid] using hSolid)
  | name hKind hRead hRest ih =>
      rcases Token.exists_of_solid_cons hSolid with
        ⟨blanks, ts', rfl, hRest', hBlank⟩
      exact (hBlanks hBlank).append (.name hKind hRead (ih hRest'))
  | call hCall hFault hRest ih =>
      rcases Token.exists_of_solid_cons hSolid with
        ⟨blanks, ts', rfl, hRest', hBlank⟩
      rcases Token.exists_of_solid_call hRest' with
        ⟨inner, after, rfl, rfl, hAfter⟩
      rw [Token.solid_solid] at hFault
      exact (hBlanks hBlank).append
        (.call hCall.of_solid hFault (ih hAfter))
  | other hName hCall hRest ih =>
      rcases Token.exists_of_solid_cons hSolid with
        ⟨blanks, ts', rfl, hRest', hBlank⟩
      refine (hBlanks hBlank).append
        (.other hName (fun hOpen => ?_) (ih hRest'))
      rcases hCall hOpen with ⟨inner, w, after, rfl, hInner, hFine⟩
      rcases Token.exists_of_solid_call hRest' with
        ⟨inner, after, rfl, rfl, -⟩
      rw [Token.solid_solid] at hFine
      exact ⟨inner, w, after, rfl, hInner.of_solid, hFine⟩

/- How the first token of a formula is passed. -/
theorem Unread.cons_cases
    (hUnread : Unread source anchor (t :: ts) out) :
    (t.kind = .operand .range ∧
        Reference.read? t.chars anchor = none ∧
          ∃ out', out = (.unknownName, t.chars) :: out' ∧
            Unread source anchor ts out') ∨
      (∃ inner w after err out',
        ts = inner ++ w :: after ∧ Call t inner w ∧
          CallFault t.functionName (argumentCount (solid inner)) err ∧
            out = (err, Text.slice source t.start w.stop) :: out' ∧
              Unread source anchor after out') ∨
      ((t.kind = .operand .range →
          Reference.read? t.chars anchor ≠ none) ∧
        (t.kind = .opening .call →
          ∃ inner w after,
            ts = inner ++ w :: after ∧ Call t inner w ∧
              ∀ err,
                ¬ CallFault t.functionName
                    (argumentCount (solid inner)) err) ∧
          Unread source anchor ts out) := by
  generalize hWhole : t :: ts = whole at hUnread
  cases hUnread with
  | nil => cases hWhole
  | name hKind hRead hRest =>
      cases hWhole
      exact .inl ⟨hKind, hRead, _, rfl, hRest⟩
  | call hCall hFault hRest =>
      cases hWhole
      exact .inr (.inl ⟨_, _, _, _, _, rfl, hCall, hFault, rfl, hRest⟩)
  | other hName hCall hRest =>
      cases hWhole
      exact .inr (.inr ⟨hName, hCall, hRest⟩)

/- A call has one closing parenthesis. -/
theorem Token.Call.unique
    {inner inner' after after' : List Token}
    {w w' : Token}
    (hCall : Call t inner w)
    (hCall' : Call t inner' w')
    (hSame : inner ++ w :: after = inner' ++ w' :: after') :
    inner = inner' ∧ w = w' ∧ after = after' :=
  hCall.inner.closer_unique (Token.side_of_closing hCall.closing)
    hCall'.inner (Token.side_of_closing hCall'.closing) hSame

/- The tokens alone tell which parts are kept. -/
theorem Unread.unique
    (hUnread : Unread source anchor ts out)
    (hUnread' : Unread source anchor ts out') :
    out = out' := by
  induction hUnread generalizing out' with
  | nil =>
      cases hUnread'
      rfl
  | name hKind hRead hRest ih =>
      rcases hUnread'.cons_cases with h | h | h
      · rcases h with ⟨-, -, out', rfl, hRest'⟩
        rw [ih hRest']
      · rcases h with ⟨inner, w, after, err, out', -, hCall, -⟩
        rw [hCall.opening] at hKind
        cases hKind
      · exact absurd hRead (h.1 hKind)
  | call hCall hFault hRest ih =>
      rcases hUnread'.cons_cases with h | h | h
      · rw [hCall.opening] at h
        cases h.1
      · rcases h with
          ⟨inner, w, after, err, out', hSame, hCall', hFault', rfl,
            hRest'⟩
        rcases hCall.unique hCall' hSame with ⟨rfl, rfl, rfl⟩
        rw [hFault.unique hFault', ih hRest']
      · rcases h.2.1 hCall.opening with
          ⟨inner, w, after, hSame, hCall', hFine⟩
        rcases hCall.unique hCall' hSame with ⟨rfl, rfl, rfl⟩
        exact absurd hFault (hFine _)
  | other hName hCall hRest ih =>
      rcases hUnread'.cons_cases with h | h | h
      · exact absurd h.2.1 (hName h.1)
      · rcases h with
          ⟨inner, w, after, err, out', hSplit, hCall', hFault, -⟩
        rcases hCall hCall'.opening with
          ⟨inner', w', after', hSplit', hFine', hFine⟩
        rcases hCall'.unique hFine' (hSplit.symm.trans hSplit') with
          ⟨rfl, rfl, rfl⟩
        exact absurd hFault (hFine err)
      · exact ih h.2.2

end

------------------------------------------------------------
-- Tokens Of Phrases
------------------------------------------------------------

namespace Parse

/- The tokens between braces are signs, constants and separators. -/
def IsElement (t : Token) : Prop :=
  t.side = .neutral ∧ t.isBlank = false ∧ IsPlain t

theorem isElement_of_kind
    {t : Token}
    {kind : TokenKind}
    (hKind : t.kind = kind)
    (hElement :
      kind = .prefixOp ∨ kind = .argumentSeparator ∨
        kind = .rowSeparator) :
    IsElement t := by
  rcases hElement with rfl | rfl | rfl <;>
    simp [IsElement, IsPlain, Token.side, Token.isBlank, hKind]

/- Operands that spell constants are no names. -/
theorem ne_range_of_scalarOf?
    {kind : OperandKind}
    {cs : List Char}
    {v : Scalar}
    (hValue : scalarOf? kind cs = some v) :
    kind ≠ .range := by
  rintro rfl
  cases hValue

theorem DerivesElement.isElement
    {negative : Bool}
    {signs : List Token}
    {t : Token}
    {v : Scalar}
    (hDerives : DerivesElement negative signs t v) :
    ∀ u ∈ signs ++ [t], IsElement u := by
  induction hDerives with
  | @constant _ t kind _ _ hKind hValue hSigned =>
      have hNe := ne_range_of_scalarOf? hValue
      simp [IsElement, IsPlain, Token.side, Token.isBlank, hKind, hNe]
  | sign hKind hRest ih =>
      rw [List.cons_append, List.forall_mem_cons]
      exact ⟨isElement_of_kind hKind (.inl rfl), ih⟩

theorem DerivesRows.isElement
    {elements : Elements}
    {rows : List (List Scalar)}
    (hDerives : DerivesRows elements rows) :
    ∀ u ∈ elements.yield, IsElement u := by
  induction hDerives with
  | single hElement => exact hElement.isElement
  | across hElement hKind hRest ih =>
      rw [Elements.yield, List.append_cons, List.forall_mem_append,
        List.forall_mem_cons]
      exact ⟨hElement.isElement,
        isElement_of_kind hKind (.inr (.inl rfl)), ih⟩
  | down hElement hKind hRest ih =>
      rw [Elements.yield, List.append_cons, List.forall_mem_append,
        List.forall_mem_cons]
      exact ⟨hElement.isElement,
        isElement_of_kind hKind (.inr (.inr rfl)), ih⟩

/- An array has no names and no calls. -/
theorem DerivesRows.isPlain_array
    {elements : Elements}
    {rows : List (List Scalar)}
    (hRows : DerivesRows elements rows)
    {t w : Token}
    (hOpen : t.kind = .opening .array)
    (hClose : w.kind = .closing .array) :
    ∀ u ∈ (Tree.array t elements w).yield, IsPlain u := by
  intro u hu
  simp only [Tree.yield, List.cons_append, List.mem_cons,
    List.mem_append, List.not_mem_nil, or_false] at hu
  rcases hu with rfl | hu | rfl
  · simp [IsPlain, hOpen]
  · exact (hRows.isElement u hu).2.2
  · simp [IsPlain, hClose]

section

variable
  {ctx : ParseContext}
  {phrase : Phrase}
  {tree : Tree}
  {i : Nat}
  {rs : References}

/- The tokens of a phrase are no blanks. -/
theorem Derives.not_blank
    (hDerives : Derives ctx phrase tree i rs) :
    ∀ t ∈ tree.yield, t.isBlank = false := by
  induction hDerives with
  | array hOpen hRows hArray hClose =>
      have hElements := fun u hu => (hRows.isElement u hu).2.1
      simp_all [Tree.yield, Token.isBlank, or_imp]
  | _ => simp_all [Tree.yield, Token.isBlank, or_imp]

theorem Derives.solid_yield
    (hDerives : Derives ctx phrase tree i rs) :
    solid tree.yield = tree.yield := by
  rw [solid, List.filter_eq_self]
  intro t ht
  rw [hDerives.not_blank t ht]
  rfl

theorem nested_enclosed
    {b : Bracket}
    {t w : Token}
    {ts : List Token}
    (hOpen : t.kind = .opening b)
    (hInner : Nested Token.side ts)
    (hClose : w.kind = .closing b) :
    Nested Token.side (t :: ts ++ [w]) :=
  .pair (Token.side_of_opening hOpen) hInner
    (Token.side_of_closing hClose) .nil

/- The brackets of a phrase are well nested. -/
theorem Derives.nested
    (hDerives : Derives ctx phrase tree i rs) :
    Nested Token.side tree.yield := by
  have hSingle {t : Token} (hSide : t.side = .neutral) :
      Nested Token.side [t] :=
    .entry hSide .nil
  induction hDerives with
  | constant hKind | reference hKind | name hKind =>
      exact hSingle (by simp [Token.side, hKind])
  | group hOpen hInner hClose ih =>
      exact nested_enclosed hOpen ih hClose
  | array hOpen hRows hArray hClose =>
      refine nested_enclosed hOpen (.of_neutral fun u hu => ?_) hClose
      exact (hRows.isElement u hu).1
  | call hOpen hArgs hClose ih =>
      exact nested_enclosed hOpen ih hClose
  | percent hInner hKind ih =>
      exact ih.append (hSingle (by simp [Token.side, hKind]))
  | sign hKind hInner ih =>
      exact .entry (by simp [Token.side, hKind]) ih
  | operator hLeft hKind hSymbol hRight hBinding ihLeft ihRight =>
      exact ihLeft.append
        (.entry (by simp [Token.side, hKind]) ihRight)
  | more hFirst hKind hRest ihFirst ihRest =>
      exact ihFirst.append
        (.entry (by simp [Token.side, hKind]) ihRest)
  | omitted | none => exact .nil
  | plain hInner ih | unsigned hInner ih | operand binding hInner ih
  | given hInner ih | last hInner ih => exact ih
  | some hInner hSome ih => exact ih

/-
  How many separators a phrase has outside of its brackets: one
  less than arguments in a list of them, and none otherwise.
-/
def Phrase.Counts : Phrase → List Token → Prop
  | .list es, ts => es.length = separators 0 ts + 1
  | .arguments es, ts => es.length = argumentCount ts
  | _, ts => separators 0 ts = 0

theorem separators_single
    {t : Token}
    (hSide : t.side = .neutral)
    (hKind : t.kind ≠ .argumentSeparator) :
    separators 0 [t] = 0 := by
  simp [separators, hSide, hKind]

theorem Derives.counts
    (hDerives : Derives ctx phrase tree i rs) :
    phrase.Counts tree.yield := by
  induction hDerives with
  | constant hKind | reference hKind | name hKind =>
      exact separators_single (by simp [Token.side, hKind])
        (by simp [hKind])
  | group hOpen hInner hClose ih =>
      exact Token.separators_enclosed (Token.side_of_opening hOpen)
        hInner.nested (Token.side_of_closing hClose)
  | array hOpen hRows hArray hClose =>
      refine Token.separators_enclosed (Token.side_of_opening hOpen)
        (.of_neutral fun u hu => ?_) (Token.side_of_closing hClose)
      exact (hRows.isElement u hu).1
  | call hOpen hArgs hClose ih =>
      exact Token.separators_enclosed (Token.side_of_opening hOpen)
        hArgs.nested (Token.side_of_closing hClose)
  | percent hInner hKind ih =>
      have hCount : separators 0 _ = 0 := ih
      change separators 0 (Tree.yield _ ++ [_]) = 0
      rw [Token.separators_append hInner.nested, hCount]
      simp [separators, Token.side, hKind]
  | sign hKind hInner ih =>
      have hCount : separators 0 _ = 0 := ih
      simp [Phrase.Counts, Tree.yield, separators, Token.side, hKind,
        hCount]
  | operator hLeft hKind hSymbol hRight hBinding ihLeft ihRight =>
      have hCount : separators 0 _ = 0 := ihLeft
      have hCount' : separators 0 _ = 0 := ihRight
      change separators 0 (Tree.yield _ ++ _ :: Tree.yield _) = 0
      rw [Token.separators_append hLeft.nested, hCount]
      simp [separators, Token.side, hKind, hCount']
  | last hInner ih =>
      have hCount : separators 0 _ = 0 := ih
      simp [Phrase.Counts, Tree.yield, hCount]
  | more hFirst hKind hRest ihFirst ihRest =>
      have hCount : separators 0 _ = 0 := ihFirst
      have hCount' : _ = separators 0 _ + 1 := ihRest
      rw [Phrase.Counts, Tree.yield,
        Token.separators_append hFirst.nested, hCount]
      simp [separators, Token.side, hKind, hCount']
      omega
  | omitted => rfl
  | none => rfl
  | some hInner hSome ih =>
      have hCount : _ = separators 0 _ + 1 := ih
      rw [Phrase.Counts, argumentCount, if_neg hSome]
      exact hCount
  | plain hInner ih | unsigned hInner ih | operand binding hInner ih
  | given hInner ih => exact ih

end

end Parse

------------------------------------------------------------
-- Parts Of Phrases
------------------------------------------------------------

/- The error and the text of a leaf that is kept as text. -/
def Leaf.unread? : Leaf → Option (ErrorValue × List Char)
  | .unreadable err cs => some (err, cs)
  | _ => none

namespace Expr

/- The parts of an expression that are kept as text. -/
def unread (e : Expr) : List (ErrorValue × List Char) :=
  e.leaves.filterMap Leaf.unread?

theorem unread_leaf (bracketed : Bool) (l : Leaf) :
    (leaf bracketed l).unread = l.unread?.toList := by
  rw [unread, leaves]
  cases l <;> rfl

theorem unread_bracket (e : Expr) : e.bracket.unread = e.unread := by
  cases e <;> simp [bracket, unread, leaves]

theorem unread_call (op : Operation) (args : List Expr) :
    (call op args).unread = args.flatMap unread := by
  rw [unread, call, leaves, List.filterMap_flatMap]
  rfl

end Expr

namespace Parse

/- The parts of a phrase that are kept as text. -/
def Phrase.unread : Phrase → List (ErrorValue × List Char)
  | .chain _ e | .signed e | .scaled e | .primary e | .argument e =>
      e.unread
  | .list es | .arguments es => es.flatMap Expr.unread

/- A call is kept as text if it has a fault, or else parts of it. -/
theorem unread_called
    {source : List Char}
    {anchor : Point}
    {t w : Token}
    {inner : List Token}
    {args : List Expr}
    (hCall : Call t inner w)
    (hCount : args.length = argumentCount (solid inner))
    (hArgs : Unread source anchor inner (args.flatMap Expr.unread)) :
    Unread source anchor (t :: (inner ++ [w]))
      (called t.functionName args
        (Text.slice source t.start w.stop)).unread := by
  rcases called_cases t.functionName args
      (Text.slice source t.start w.stop) with
    ⟨err, hFault, hCalled⟩ | ⟨op, hFine, hCalled⟩
  · rw [hCalled, Expr.unreadable, Expr.unread_leaf]
    rw [hCount] at hFault
    exact .call hCall hFault .nil
  · rw [hCalled, Expr.unread_call, ← List.append_nil (List.flatMap _ _)]
    rw [hCount] at hFine
    have hClose := hCall.closing
    refine .other (fun hName => ?_)
      (fun _ => ⟨inner, w, [], rfl, hCall, hFine⟩)
      (hArgs.append (.plain (by simp [IsPlain, hClose]) .nil))
    rw [hCall.opening] at hName
    cases hName

theorem Derives.unread
    {ctx : ParseContext}
    {phrase : Phrase}
    {tree : Tree}
    {i : Nat}
    {rs : References}
    (hDerives : Derives ctx phrase tree i rs) :
    Unread ctx.source ctx.anchor tree.yield phrase.unread := by
  induction hDerives with
  | @constant t kind v i hKind hValue =>
      have hNe := ne_range_of_scalarOf? hValue
      rw [Phrase.unread, Expr.constant, Expr.unread_leaf]
      exact .plain (by simp [IsPlain, hKind, hNe]) .nil
  | reference hKind hRead =>
      rw [Phrase.unread, Expr.unread_leaf]
      refine .other (fun _ => by simp [hRead]) (fun hOpen => ?_) .nil
      rw [hKind] at hOpen
      cases hOpen
  | name hKind hRead =>
      rw [Phrase.unread, Expr.unreadable, Expr.unread_leaf]
      exact .name hKind hRead .nil
  | group hOpen hInner hClose ih =>
      rw [Phrase.unread, Expr.unread_bracket,
        ← List.append_nil (Expr.unread _)]
      exact .plain (by simp [IsPlain, hOpen])
        (ih.append (.plain (by simp [IsPlain, hClose]) .nil))
  | array hOpen hRows hArray hClose =>
      rw [Phrase.unread, Expr.unread_leaf]
      exact .of_plain (hRows.isPlain_array hOpen hClose)
  | @call t w args es i rs hOpen hArgs hClose ih =>
      have hCall : Call t args.yield w :=
        ⟨hOpen, hArgs.nested, hClose⟩
      have hCount : es.length = argumentCount (solid args.yield) := by
        rw [hArgs.solid_yield]
        exact hArgs.counts
      exact unread_called hCall hCount ih
  | percent hInner hKind ih =>
      rw [Phrase.unread, Expr.unread_call]
      exact ih.append (.plain (by simp [IsPlain, hKind]) .nil)
  | @sign t inner e i rs hKind hInner ih =>
      have hSame : (withSign t.chars e).unread = e.unread := by
        unfold withSign
        split
        · rw [Expr.unread_call, List.flatMap_singleton]
        · rfl
      rw [Phrase.unread, hSame]
      exact .plain (by simp [IsPlain, hKind]) ih
  | operator hLeft hKind hSymbol hRight hBinding ihLeft ihRight =>
      rw [Phrase.unread, Expr.unread_call, List.flatMap_cons,
        List.flatMap_singleton]
      exact ihLeft.append (.plain (by simp [IsPlain, hKind]) ihRight)
  | omitted =>
      rw [Phrase.unread, Expr.constant, Expr.unread_leaf]
      exact .nil
  | none => exact .nil
  | last hInner ih =>
      rw [Phrase.unread, List.flatMap_singleton]
      exact ih
  | more hFirst hKind hRest ihFirst ihRest =>
      rw [Phrase.unread, List.flatMap_cons]
      exact ihFirst.append (.plain (by simp [IsPlain, hKind]) ihRest)
  | some hInner hSome ih => exact ih
  | plain hInner ih | unsigned hInner ih | operand binding hInner ih
  | given hInner ih => exact ih

end Parse

------------------------------------------------------------
-- Whole Formulas
------------------------------------------------------------

/- Tokens that are no blanks split where all tokens do. -/
theorem Token.exists_call_of_solid
    {ts done inner after : List Token}
    {t w : Token}
    (hSolid : solid ts = done ++ t :: (inner ++ w :: after)) :
    ∃ before inner' after',
      ts = before ++ t :: (inner' ++ w :: after') ∧
        solid inner' = inner := by
  rcases exists_of_solid_call hSolid with
    ⟨before, rest, rfl, -, hRest⟩
  rcases exists_of_solid_call hRest with
    ⟨inner', after', rfl, hInner, -⟩
  exact ⟨before, inner', after', rfl, hInner⟩

/-
  Wherever the arguments of a call are read, the last token
  that is read is the parenthesis that closes the call.
-/
theorem Parse.arguments_stop
    {source : List Char}
    {anchor : Point}
    {ts done : List Token}
    {t : Token}
    {s s' : ParseState}
    {fuel : Nat}
    {args : List Expr}
    (hLex : Token.lex source = .ok ts)
    (hAhead : solid ts = done ++ t :: s.rest)
    (hOpen : t.kind = .opening .call)
    (hOk :
      Parse.arguments ⟨source, anchor⟩ s fuel = .ok (args, s')) :
    ∃ before inner w after,
      ts = before ++ t :: (inner ++ w :: after) ∧
        Call t inner w ∧
          s.rest = solid inner ++ w :: s'.rest ∧
            s'.lastStop = w.stop ∧
              args.length = argumentCount (solid inner) := by
  rcases Token.of_lex hLex with
    ⟨offset, us, tail, hPlaced, -, hTokens⟩
  rcases Segment.tokens_eq_append (hTokens.symm.trans hAhead) with
    ⟨vs, ws, rfl, -, hLater⟩
  rcases Segment.tokens_eq_cons hLater with ⟨u, xs, rfl, -, hRest⟩
  have hPlaced' :=
    Segment.placedAt_cons (Segment.placedAt_append hPlaced).2
  generalize Segment.after offset vs + Text.byteLength u.text = start
    at hRest hPlaced'
  have hState : Ahead ⟨source, anchor⟩ s start xs :=
    ⟨hRest.symm, hPlaced'⟩
  rcases (soundBelow ⟨source, anchor⟩ fuel).arguments hState hOk with
    ⟨left, used, w, rs, rfl, hClose, hReads, hTook⟩
  rcases hReads.derives (Segment.placedAt_append hPlaced').1 with
    ⟨tree, hYield, hDerives⟩
  have hSplit :
      s.rest =
        tree.yield ++
          w.tokenAt (Segment.after start used) :: s'.rest := by
    rw [hYield, hTook.ahead.rest, ← hRest, Segment.tokens_append_cons]
    simp [Segment.after, Nat.add_assoc]
  have hStop :
      s'.lastStop = (w.tokenAt (Segment.after start used)).stop := by
    rw [hTook.stop, if_neg (by simp)]
    simp [Token.stop, Segment.tokenAt, Segment.token, Segment.after,
      Segment.text, Nat.add_assoc]
  rw [hSplit] at hAhead
  rcases Token.exists_call_of_solid hAhead with
    ⟨before, inner, after, hTs, hInner⟩
  refine ⟨before, inner, _, after, hTs,
    Call.of_solid ⟨hOpen, ?_, hClose⟩, ?_, hStop, ?_⟩
  · rw [hInner]
    exact hDerives.nested
  · rw [hInner]
    exact hSplit
  · rw [hInner]
    exact hDerives.counts

/-
  The parts of a formula that are kept as text are those that
  its tokens tell: a call is kept for its unknown name or the
  number of its arguments. The text of any call that is read is
  cut out from the first byte of its name to the parenthesis
  that closes it.
-/
theorem Expr.unread_calls_cut_whole
    {source : List Char}
    {anchor : Point}
    {ts : List Token}
    {e : Expr}
    {refs : References}
    (hLex : Token.lex source = .ok ts)
    (hRead : Expr.ofTokens? source ts anchor = .ok (e, refs)) :
    Unread source anchor ts e.unread ∧
      (∀ out, Unread source anchor ts out → out = e.unread) ∧
      (∀ before t inner w after,
        ts = before ++ t :: (inner ++ w :: after) →
          Call t inner w → Token.Cut source t inner w) ∧
      ∀ done t s fuel args s',
        solid ts = done ++ t :: s.rest →
          t.kind = .opening .call →
            Parse.arguments ⟨source, anchor⟩ s fuel =
                .ok (args, s') →
              ∃ before inner w after,
                ts = before ++ t :: (inner ++ w :: after) ∧
                  Call t inner w ∧
                    s.rest = solid inner ++ w :: s'.rest ∧
                      s'.lastStop = w.stop ∧
                        args.length = argumentCount (solid inner) := by
  rcases (Expr.ofTokens?_eq_ok hLex).mp hRead with
    ⟨tree, hYield, hDerives⟩
  have hUnread : Unread source anchor ts e.unread :=
    hDerives.unread.of_solid hYield.symm
  refine ⟨hUnread, fun out hOut => hOut.unique hUnread, ?_, ?_⟩
  · intro before t inner w after hSplit hCall
    exact Token.cut_of_lex hLex hSplit hCall
  · intro done t s fuel args s' hAhead hOpen hOk
    exact Parse.arguments_stop hLex hAhead hOpen hOk

/- An unknown function with a blank inside, and a wrong number. -/
theorem Expr.unread_calls_cut_whole_nested :
    ∃ ts,
      Unread
        ['I', 'F', '(', 'N', 'O', '(', '(', 'y', ')', ' ', ',', ')',
          ',', 'P', 'I', '(', 'z', ')', ')']
        ⟨0, 0⟩ ts
        [(.unknownName, ['N', 'O', '(', '(', 'y', ')', ' ', ',', ')']),
          (.badFormula, ['P', 'I', '(', 'z', ')'])] := by
  have hLex :
      Token.lex
          ['I', 'F', '(', 'N', 'O', '(', '(', 'y', ')', ' ', ',', ')',
            ',', 'P', 'I', '(', 'z', ')', ')'] =
        .ok
          [⟨.opening .call, ['I', 'F', '('], 0⟩,
            ⟨.opening .call, ['N', 'O', '('], 3⟩,
            ⟨.opening .group, ['('], 6⟩, ⟨.operand .range, ['y'], 7⟩,
            ⟨.closing .group, [')'], 8⟩, ⟨.blank, [' '], 9⟩,
            ⟨.argumentSeparator, [','], 10⟩,
            ⟨.closing .call, [')'], 11⟩,
            ⟨.argumentSeparator, [','], 12⟩,
            ⟨.opening .call, ['P', 'I', '('], 13⟩,
            ⟨.operand .range, ['z'], 16⟩, ⟨.closing .call, [')'], 17⟩,
            ⟨.closing .call, [')'], 18⟩] := by
    cbv
  have hKept :=
    (@unread_calls_cut_whole _ ⟨0, 0⟩ _
      (.call (.choice .ifElse)
        [.unreadable .unknownName
            ['N', 'O', '(', '(', 'y', ')', ' ', ',', ')'],
          .unreadable .badFormula ['P', 'I', '(', 'z', ')']])
      [] hLex (by cbv)).1
  rw [unread_call] at hKept
  simp only [List.flatMap_cons, List.flatMap_nil, unreadable,
    unread_leaf] at hKept
  exact ⟨_, hKept⟩

end Spreadsheet
