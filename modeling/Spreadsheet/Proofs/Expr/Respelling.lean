import Spreadsheet.Proofs.Expr.Literals

/-
  Every phrase is spelled by its canonical text.

  By induction on the derivation of a phrase, the canonical
  text of its expression is spelled by segments that stand
  freely and are read as an equal phrase with the same
  references. Signs `+` and second parentheses are dropped on
  the way. What could not be read keeps its segments, which are
  read alike only from the cell where they were read before.

  Main declarations:
    * `Expr.Same`
    * `Expr.Portable`
    * `Parse.Respelled`
    * `Parse.RespelledBetween`
    * `Parse.Reads.respells`
-/

namespace Spreadsheet

------------------------------------------------------------
-- Equal Contents
------------------------------------------------------------

/- Leaves with equal contents; numbers are compared as numbers. -/
def Leaf.Same : Leaf → Leaf → Prop
  | .constant v, .constant w => v.same w = true
  | .array a, .array b => a.Same b
  | l, l' => l = l'

/- Trees that are equal but for leaves with equal contents. -/
inductive Expr.Same : Expr → Expr → Prop where
  | leaf
      (bracketed : Bool)
      {l l' : Leaf}
      (hLeaf : l.Same l') :
      Same (.leaf bracketed l) (.leaf bracketed l')
  | apply
      (bracketed : Bool)
      (op : Operation)
      {args args' : List Expr}
      (hArgs : List.Forall₂ Same args args') :
      Same (.apply bracketed op args) (.apply bracketed op args')

theorem Expr.Same.bracket
    {e e' : Expr}
    (hSame : e.Same e') :
    e.bracket.Same e'.bracket := by
  cases hSame with
  | leaf bracketed hLeaf => exact .leaf true hLeaf
  | apply bracketed op hArgs => exact .apply true op hArgs

theorem Expr.Same.isBracketed
    {e e' : Expr}
    (hSame : e.Same e') :
    e.isBracketed = e'.isBracketed := by
  cases hSame <;> rfl

------------------------------------------------------------
-- Leaves
------------------------------------------------------------

namespace Expr

/- The leaves of an expression, from the left. -/
def leaves : Expr → List Leaf
  | .leaf _ l => [l]
  | .apply _ _ args => args.flatMap leaves

end Expr

/-
  A leaf whose text is read as an equal leaf at another place:
  its numbers print back, and what could not be read stays.
-/
def Leaf.Portable (here there : Point) : Leaf → Prop
  | .constant v => v.PrintsBack
  | .array a => ∀ v ∈ a.data.toList, v.PrintsBack
  | .reference _ => True
  | .unreadable .. => there = here

/- An expression all of whose leaves are portable. -/
def Expr.Portable (here there : Point) (e : Expr) : Prop :=
  ∀ l ∈ e.leaves, l.Portable here there

section

variable {here there : Point} {e : Expr} {es : List Expr}

theorem Expr.portable_leaf
    {bracketed : Bool}
    {l : Leaf} :
    (Expr.leaf bracketed l).Portable here there ↔
      l.Portable here there := by
  simp [Portable, leaves]

theorem Expr.portable_apply
    {bracketed : Bool}
    {op : Operation} :
    (Expr.apply bracketed op es).Portable here there ↔
      ∀ e ∈ es, e.Portable here there := by
  simp only [Portable, leaves, List.mem_flatMap]
  exact ⟨fun h e he l hl => h l ⟨e, he, hl⟩,
    fun h l ⟨e, he, hl⟩ => h e he l hl⟩

theorem Expr.portable_bracket :
    e.bracket.Portable here there ↔ e.Portable here there := by
  cases e <;> simp [bracket, portable_leaf, portable_apply]

theorem Parse.portable_withSign
    {cs : List Char} :
    (withSign cs e).Portable here there ↔ e.Portable here there := by
  unfold withSign
  split
  · simp [Expr.call, Expr.portable_apply]
  · rfl

end

------------------------------------------------------------
-- Texts
------------------------------------------------------------

namespace Expr

variable {refs : References} {anchor : Point} {e : Expr}

theorem source_leaf (l : Leaf) :
    (leaf false l).source refs anchor = l.source refs anchor := by
  simp [source, enclose]

theorem source_bracket (hPlain : e.isBracketed = false) :
    e.bracket.source refs anchor =
      '(' :: e.source refs anchor ++ [')'] := by
  cases e <;> cases hPlain <;>
    simp only [bracket, source, enclose, if_true, Bool.false_eq_true,
      if_false]

theorem bracket_of_isBracketed (hBracketed : e.isBracketed = true) :
    e.bracket = e := by
  cases e <;> cases hBracketed <;> rfl

theorem source_call
    (op : Operation)
    (args : List Expr) :
    (call op args).source refs anchor =
      applySource op (args.map (source refs anchor)) := by
  simp [call, source, enclose]

end Expr

namespace Operation

/- Functions are spelled with their arguments in parentheses. -/
theorem applySource_function
    {op : Operation}
    (hFunction : op.isFunction = true)
    (args : List (List Char)) :
    Expr.applySource op args =
      op.symbol.toList ++ ['('] ++
        Text.joinWith [',', ' '] args ++ [')'] := by
  cases op <;> cases hFunction <;> simp [Expr.applySource]

theorem ofName?_symbol
    {op : Operation}
    (hFunction : op.isFunction = true) :
    ofName? op.symbol = some op := by
  cases op with
  | infixOp | negate | percent => cases hFunction
  | aggregate f => cases f <;> decide
  | elementwise f => cases f <;> decide
  | choice f => cases f <;> decide

theorem isSpecial_of_mem_symbol
    {op : Operation}
    (hFunction : op.isFunction = true) :
    ∀ c ∈ op.symbol.toList, Lexeme.isSpecial c = false := by
  have hNone : op.symbol.toList.any Lexeme.isSpecial = false := by
    cases op with
    | infixOp | negate | percent => cases hFunction
    | aggregate f => cases f <;> decide
    | elementwise f => cases f <;> decide
    | choice f => cases f <;> decide
  simpa using hNone

theorem symbol_ne_nil (op : Operation) :
    op.symbol.toList ≠ [] := by
  cases op with
  | infixOp f => cases f <;> decide
  | negate | percent => decide
  | aggregate f => cases f <;> decide
  | elementwise f => cases f <;> decide
  | choice f => cases f <;> decide

theorem isFunction_of_ofName?
    {name : String}
    {op : Operation}
    (hName : ofName? name = some op) :
    op.isFunction = true := by
  have hFound := List.find?_some hName
  simp only [Bool.and_eq_true] at hFound
  exact hFound.1

end Operation

------------------------------------------------------------
-- Phrases
------------------------------------------------------------

namespace Parse

open Segment (Spaced Spells SpellsBefore)

/-
  After every blank, the canonical text of an expression is
  spelled by segments that are a phrase of an equal expression.
  If it stands in parentheses, it is also an operand.
-/
def Respelled
    (refs : References)
    (anchor : Point)
    (phrase : Expr → Phrase)
    (e : Expr)
    (i : Nat)
    (rs : References) : Prop :=
  ∀ gap, Spaced gap →
    ∃ us e',
      Spells gap (e.source refs anchor) us ∧ e.Same e' ∧
        Reads anchor (phrase e') us i rs ∧
          (e.isBracketed = true →
            Reads anchor (.primary e') us i rs)

/-
  After every blank, the canonical texts of some expressions
  between commas are spelled by segments that are a phrase of
  equal expressions. These are no segments only if there were
  none before.
-/
def RespelledBetween
    (refs : References)
    (anchor : Point)
    (phrase : List Expr → Phrase)
    (es : List Expr)
    (former : List Segment)
    (i : Nat)
    (rs : References) : Prop :=
  ∀ gap, Spaced gap →
    ∃ us tail es',
      SpellsBefore gap
          (Text.joinWith [',', ' '] (es.map (Expr.source refs anchor)))
          tail us ∧
        List.Forall₂ Expr.Same es es' ∧
          Reads anchor (phrase es') us i rs ∧
            (former ≠ [] → us ≠ [])

section

variable
  {refs rs ss : References}
  {here there : Point}
  {us vs : List Segment}
  {u w : Segment}
  {e : Expr}
  {es : List Expr}
  {i : Nat}
  {former : List Char}
  {phrase : Expr → Phrase}

/- A phrase of one kind is one of another kind. -/
theorem Respelled.map
    {phrase' : Expr → Phrase}
    (hRespelled : Respelled refs there phrase e i rs)
    (hReads :
      ∀ e' us, Reads there (phrase e') us i rs →
        Reads there (phrase' e') us i rs) :
    Respelled refs there phrase' e i rs := by
  intro gap hGap
  rcases hRespelled gap hGap with
    ⟨us, e', hSpells, hSame, hPhrase, hPrimary⟩
  exact ⟨us, e', hSpells, hSame, hReads e' us hPhrase, hPrimary⟩

/- An operand without parentheses of its own. -/
theorem respelled_primary
    (hSpelled :
      ∀ gap, Spaced gap →
        ∃ us e',
          Spells gap (e.source refs there) us ∧ e.Same e' ∧
            Reads there (.primary e') us i rs) :
    Respelled refs there .primary e i rs := by
  intro gap hGap
  rcases hSpelled gap hGap with ⟨us, e', hSpells, hSame, hReads⟩
  exact ⟨us, e', hSpells, hSame, hReads, fun _ => hReads⟩

theorem respelled_constant
    {kind : OperandKind}
    {v : Scalar}
    (hGenuine : u.Genuine)
    (hKind : u.kind = .operand kind)
    (hValue : scalarOf? kind u.chars = some v)
    (hPrints : v.PrintsBack) :
    Respelled refs there .primary (.constant v) i [] := by
  refine respelled_primary fun gap hGap => ?_
  rcases plain_of_scalarOf? hGenuine hKind hValue with ⟨hPlain, hSign⟩
  rcases Scalar.exists_segment hPlain hPrints hSign hGap with
    ⟨u', kind', w, hSpells, hKind', hValue', hSame⟩
  refine ⟨[u'], .constant w, ?_, .leaf false hSame,
    .constant hKind' hValue'⟩
  rw [Expr.constant, Expr.source_leaf]
  exact hSpells

theorem respelled_reference
    {r : Reference}
    (hRefs : [r] <+: refs.drop i)
    (hSheet : ∀ r ∈ refs, r.onSheet there = true) :
    Respelled refs there .primary (.leaf false (.reference i)) i
      [r] := by
  refine respelled_primary fun gap hGap => ?_
  have hPlace : refs[i]? = some r := by
    rcases hRefs with ⟨rest, hDrop⟩
    have hFirst := congrArg (·[0]?) hDrop
    simpa using hFirst.symm
  have hSource :
      (Expr.leaf false (.reference i)).source refs there =
        r.source there := by
    simp [Expr.source_leaf, Leaf.source, References.source, hPlace]
  rcases
      Reference.exists_segment
        (hSheet r (List.mem_of_getElem? hPlace)) hGap with
    ⟨u', hSpells, hKind, hRead⟩
  rw [← hSource] at hSpells
  exact ⟨[u'], _, hSpells, .leaf false rfl, .reference hKind hRead⟩

/- A name stays where it could not be read. -/
theorem respelled_name
    (hLays : Segment.Lays former [u])
    (hGenuine : u.Genuine)
    (hKind : u.kind = .operand .range)
    (hRead : Reference.read? u.chars there = none) :
    Respelled refs there .primary (.unreadable .unknownName u.chars) i
      [] := by
  refine respelled_primary fun gap hGap => ?_
  have hFree :=
    Segment.free_of_lays hLays (by simpa using hGenuine) hGap
  have hName : Reads there _ [{ u with gap := gap }] i [] :=
    .name hKind hRead
  refine ⟨_, _, ⟨hFree, ?_⟩, .leaf false rfl, hName⟩
  rw [Expr.unreadable, Expr.source_leaf]
  simp [Segment.text, Leaf.source]

/- Second parentheses are dropped. -/
theorem respelled_group
    (hInner : Respelled refs there (.chain 0) e i rs) :
    Respelled refs there .primary e.bracket i rs := by
  refine respelled_primary fun gap hGap => ?_
  cases hBracketed : e.isBracketed with
  | true =>
      rcases hInner gap hGap with
        ⟨us', e', hSpells, hSame, -, hPrimary⟩
      rw [Expr.bracket_of_isBracketed hBracketed]
      exact ⟨us', e', hSpells, hSame, hPrimary hBracketed⟩
  | false =>
      rcases hInner [] (.inl rfl) with
        ⟨us', e', hSpells, hSame, hReads, -⟩
      have hOpen :
          Segment.Loose ⟨gap, .open .group, ['('], .opening .group⟩ :=
        Segment.loose_alone hGap (.opening .group) (by decide)
      rw [Expr.source_bracket hBracketed]
      exact ⟨_, _, Segment.spells_enclosed .group hOpen hSpells.before,
        hSame.bracket, .group rfl hReads rfl⟩

theorem respelled_array
    {rows : List (List Scalar)}
    {a : ScalarArray}
    (hRows : Rows us rows)
    (hArray : ScalarArray.ofRows? rows = some a)
    (hGenuine : ∀ u ∈ us, u.Genuine)
    (hPrints : ∀ v ∈ a.data.toList, v.PrintsBack) :
    Respelled refs there .primary (.leaf false (.array a)) i [] := by
  refine respelled_primary fun gap hGap => ?_
  have hSource :
      (Expr.leaf false (.array a)).source refs there = a.source :=
    Expr.source_leaf _
  rcases ScalarArray.respell hRows hArray hGenuine hPrints hGap with
    ⟨u', us', w', rows', b, hSpells, hOpen, hRows', hArray', hClose,
      hSame⟩
  rw [← hSource] at hSpells
  exact ⟨_, .leaf false (.array b), hSpells, .leaf false hSame,
    .array hOpen hRows' hArray' hClose⟩

/- A function is called by its own name. -/
theorem respelled_call
    {op : Operation}
    (hFunction : op.isFunction = true)
    (hAccepts : op.accepts es.length = true)
    (hArgs : RespelledBetween refs there .arguments es us i rs) :
    Respelled refs there .primary (.call op es) i rs := by
  refine respelled_primary fun gap hGap => ?_
  rcases hArgs [] (.inl rfl) with
    ⟨us', tail, es', hSpells, hSame, hReads, -⟩
  have hOpen : (Segment.calling gap op.symbol.toList).Loose :=
    Segment.loose_calling hGap op.symbol_ne_nil
      (Operation.isSpecial_of_mem_symbol hFunction)
  have hWhole := Segment.spells_enclosed .call hOpen hSpells
  have hName :
      ((Segment.calling gap op.symbol.toList).token 0).functionName =
        op.symbol := by
    simp [Token.functionName, Segment.calling]
  have hCalled : ∀ cs, called op.symbol es' cs = .call op es' := by
    intro cs
    rw [called, Operation.ofName?_symbol hFunction]
    simp only [← hSame.length_eq, hAccepts, if_true]
  have hCall :=
    Reads.call (u := Segment.calling gap op.symbol.toList)
      (w := Segment.closing tail .call) rfl hReads rfl
  rw [hName, hCalled] at hCall
  refine ⟨_, .call op es', ?_, .apply false op hSame, hCall⟩
  rw [Expr.source_call, Operation.applySource_function hFunction]
  exact hWhole

/- A call that could not be made stays where it was read. -/
theorem respelled_verbatim
    {error : ErrorValue}
    (hLays : Segment.Lays former (u :: us ++ [w]))
    (hGenuine : ∀ v ∈ u :: us ++ [w], v.Genuine)
    (hOpen : u.kind = .opening .call)
    (hArgs : Reads there (.arguments es) us i rs)
    (hClose : w.kind = .closing .call)
    (hCalled :
      called (u.token 0).functionName es
          (u.chars ++ Segment.render (us ++ [w])) =
        .unreadable error (u.chars ++ Segment.render (us ++ [w]))) :
    Respelled refs there .primary
      (.unreadable error (u.chars ++ Segment.render (us ++ [w]))) i
      rs := by
  refine respelled_primary fun gap hGap => ?_
  have hFree := Segment.free_of_lays hLays hGenuine hGap
  have hCall :=
    Reads.call (u := { u with gap := gap }) hOpen hArgs hClose
  refine ⟨_, _, ⟨hFree, ?_⟩, .leaf false rfl, ?_⟩
  · rw [Expr.unreadable, Expr.source_leaf]
    simp [Segment.text, Leaf.source]
  · rw [← Expr.unreadable, ← hCalled]
    exact hCall

theorem respelled_percent
    (hInner : Respelled refs there .scaled e i rs) :
    Respelled refs there .scaled (.call .percent [e]) i rs := by
  intro gap hGap
  rcases hInner gap hGap with ⟨us', e', hSpells, hSame, hReads, -⟩
  refine
    ⟨us' ++ [⟨[], .percent, ['%'], .postfixOp⟩], .call .percent [e'],
      ⟨?_, ?_⟩, .apply false _ (.cons hSame .nil),
      .percent hReads rfl, nofun⟩
  · refine
      hSpells.free.append_loose Segment.loose_percent ?_
        Segment.free_nil
    rintro following c hHead
    cases hHead
    rfl
  · rw [Segment.render_append, hSpells.text, Expr.source_call]
    simp [Expr.applySource, Operation.symbol, Segment.text]

/- A sign `+` is dropped. -/
theorem respelled_sign
    (cs : List Char)
    (hInner : Respelled refs there .signed e i rs) :
    Respelled refs there .signed (withSign cs e) i rs := by
  unfold withSign
  split
  · intro gap hGap
    rcases hInner [] (.inl rfl) with
      ⟨us', e', hSpells, hSame, hReads, -⟩
    have hMinus := Segment.loose_minus hGap
    have hSigned :=
      Reads.sign (u := ⟨gap, .sign, ['-'], .prefixOp⟩) rfl hReads
    refine
      ⟨_, .call .negate [e'], ⟨hMinus.cons hSpells.free, ?_⟩,
        .apply false _ (.cons hSame .nil), hSigned, nofun⟩
    rw [Segment.render_cons, hSpells.text, Expr.source_call]
    simp [Expr.applySource, Operation.symbol, Segment.text]
  · exact hInner

theorem respelled_operator
    {op : InfixOp}
    {first second : Expr}
    {binding : Nat}
    (hLeft : Respelled refs there (.chain op.binding) first i rs)
    (hRight :
      Respelled refs there (.chain (op.binding + 1)) second
        (i + rs.length) ss)
    (hBinding : binding ≤ op.binding) :
    Respelled refs there (.chain binding)
      (.call (.infixOp op) [first, second]) i (rs ++ ss) := by
  intro gap hGap
  rcases hLeft gap hGap with ⟨us', a, hSpells, hSame, hReads, -⟩
  rcases hRight [' '] (.inr rfl) with
    ⟨vs', b, hSpells', hSame', hReads', -⟩
  refine
    ⟨us' ++ ⟨[' '], op.lexeme, op.symbol.toList, .infixOp⟩ :: vs',
      .call (.infixOp op) [a, b], ⟨?_, ?_⟩,
      .apply false _ (.cons hSame (.cons hSame' .nil)), ?_, nofun⟩
  · have hSpace :
        ∀ cs following,
          Lexeme.Delimited (([' '] ++ cs) ++ following) := by
      rintro cs following c hHead
      cases hHead
      rfl
    refine hSpells.free.append ?_ fun following _ => hSpace _ following
    refine (Segment.free_infix op).append hSpells'.free ?_
    intro following _
    rw [hSpells'.text]
    exact hSpace _ following
  · rw [Segment.render_append, Segment.render_cons, hSpells.text,
      hSpells'.text, Expr.source_call]
    simp [Expr.applySource, Operation.symbol, Segment.text,
      Text.joinWith]
  · refine .operator hReads rfl ?_ hReads' hBinding
    rw [String.ofList_toList]
    exact op.ofSymbol?_symbol

------------------------------------------------------------
-- Arguments
------------------------------------------------------------

/- The argument at the front of a list of arguments. -/
def Phrase.first (es : List Expr) : Phrase :=
  .argument (es.headD (.constant .blank))

theorem respelled_given
    (hInner : Respelled refs there (.chain 0) e i rs) :
    RespelledBetween refs there Phrase.first [e] us i rs := by
  intro gap hGap
  rcases hInner gap hGap with ⟨us', e', hSpells, hSame, hReads, -⟩
  exact ⟨us', [], [e'], hSpells.before, .cons hSame .nil,
    .given hReads, fun _ => hReads.ne_nil⟩

/- The blanks before an omitted argument are left over. -/
theorem respelled_omitted :
    RespelledBetween refs there Phrase.first [.constant .blank] [] i
      [] := by
  intro gap hGap
  refine
    ⟨[], gap, [.constant .blank], ⟨Segment.free_nil, ?_, hGap⟩,
      .cons (.leaf false rfl) .nil, .omitted, id⟩
  simp [Text.joinWith, Expr.constant, Expr.source_leaf, Leaf.source,
    Scalar.source, Scalar.display]

theorem respelled_last
    (hFirst : RespelledBetween refs there Phrase.first [e] us i rs) :
    RespelledBetween refs there .list [e] us i rs := by
  intro gap hGap
  rcases hFirst gap hGap with
    ⟨us', tail, es', hSpells, hSames, hReads, hSome⟩
  cases hSames with
  | cons hSame hNone =>
      cases hNone
      exact ⟨us', tail, _, hSpells, .cons hSame .nil, .last hReads,
        hSome⟩

/- A comma stands after an argument and before a blank. -/
theorem respelled_more
    (hFirst : RespelledBetween refs there Phrase.first [e] us i rs)
    (hRest :
      RespelledBetween refs there .list es vs (i + rs.length) ss)
    (hSome : es ≠ []) :
    RespelledBetween refs there .list (e :: es) (us ++ u :: vs) i
      (rs ++ ss) := by
  intro gap hGap
  rcases hFirst gap hGap with
    ⟨us', tail, es', hSpells, hSames, hReads, -⟩
  rcases hRest [' '] (.inr rfl) with
    ⟨vs', tail', fs, hSpells', hSames', hReads', -⟩
  cases hSames with
  | cons hSame hNone =>
      cases hNone
      have hComma :
          Segment.Loose ⟨tail, .comma, [','], .argumentSeparator⟩ :=
        Segment.loose_alone hSpells.spaced .separator (by decide)
      refine
        ⟨us' ++ ⟨tail, .comma, [','], .argumentSeparator⟩ :: vs', tail',
          _, ⟨?_, ?_, hSpells'.spaced⟩, .cons hSame hSames',
          .more hReads rfl hReads', by simp⟩
      · refine hSpells.free.append_loose hComma ?_ hSpells'.free
        intro following
        have hDelimited : Lexeme.Delimited (',' :: following) := by
          rintro c hHead
          cases hHead
          rfl
        simpa [Segment.text] using hSpells.spaced.delimited hDelimited
      · have hText := hSpells.text
        have hText' := hSpells'.text
        have hSources : es.map (Expr.source refs there) ≠ [] := by
          simpa using hSome
        simp only [List.map_cons, List.map_nil, Text.joinWith] at hText
        rw [List.map_cons, Text.joinWith_cons hSources,
          Segment.render_append, Segment.render_cons, Segment.text]
        rw [List.append_assoc, List.append_assoc, List.append_assoc,
          hText', ← List.append_assoc, hText]
        simp

theorem respelled_none :
    RespelledBetween refs there .arguments [] [] i [] := by
  intro gap hGap
  exact ⟨[], gap, [], ⟨Segment.free_nil, by simp [Text.joinWith], hGap⟩,
    .nil, .none, id⟩

theorem respelled_some
    (hInner : RespelledBetween refs there .list es us i rs)
    (hSome : us ≠ []) :
    RespelledBetween refs there .arguments es us i rs := by
  intro gap hGap
  rcases hInner gap hGap with
    ⟨us', tail, es', hSpells, hSames, hReads, hSome'⟩
  exact ⟨us', tail, es', hSpells, hSames, .some hReads (hSome' hSome),
    hSome'⟩

------------------------------------------------------------
-- All Phrases
------------------------------------------------------------

/- A phrase of portable expressions is spelled at another place. -/
def Phrase.Respells
    (here there : Point)
    (refs : References)
    (us : List Segment)
    (i : Nat)
    (rs : References) : Phrase → Prop
  | .chain binding e =>
      e.Portable here there →
        Respelled refs there (.chain binding) e i rs
  | .signed e =>
      e.Portable here there → Respelled refs there .signed e i rs
  | .scaled e =>
      e.Portable here there → Respelled refs there .scaled e i rs
  | .primary e =>
      e.Portable here there → Respelled refs there .primary e i rs
  | .argument e =>
      e.Portable here there →
        RespelledBetween refs there Phrase.first [e] us i rs
  | .list es =>
      (∀ e ∈ es, e.Portable here there) →
        RespelledBetween refs there .list es us i rs
  | .arguments es =>
      (∀ e ∈ es, e.Portable here there) →
        RespelledBetween refs there .arguments es us i rs

/- References of two parts stand one after another. -/
theorem prefix_drop_append
    (hRefs : (rs ++ ss) <+: refs.drop i) :
    rs <+: refs.drop i ∧ ss <+: refs.drop (i + rs.length) := by
  rcases hRefs with ⟨rest, hDrop⟩
  refine ⟨⟨ss ++ rest, by rw [← hDrop, List.append_assoc]⟩, rest, ?_⟩
  rw [← List.drop_drop, ← hDrop, List.append_assoc, List.drop_left]

/- A list of arguments has one. -/
theorem Reads.list_ne_nil
    (hReads : Reads here (.list es) us i rs) :
    es ≠ [] := by
  cases hReads <;> exact List.cons_ne_nil _ _

/- A call is spelled by its name, or stays as it is. -/
theorem respells_called
    (hLays : Segment.Lays former (u :: us ++ [w]))
    (hGenuine : ∀ v ∈ u :: us ++ [w], v.Genuine)
    (hOpen : u.kind = .opening .call)
    (hArgs : Reads here (.arguments es) us i rs)
    (hClose : w.kind = .closing .call)
    (hInner :
      (∀ e ∈ es, e.Portable here there) →
        RespelledBetween refs there .arguments es us i rs)
    (hPortable :
      (called (u.token 0).functionName es
          (u.chars ++ Segment.render (us ++ [w]))).Portable here
        there) :
    Respelled refs there .primary
      (called (u.token 0).functionName es
        (u.chars ++ Segment.render (us ++ [w]))) i rs := by
  have hVerbatim :
      ∀ error,
        called (u.token 0).functionName es
            (u.chars ++ Segment.render (us ++ [w])) =
          .unreadable error (u.chars ++ Segment.render (us ++ [w])) →
        Respelled refs there .primary
          (.unreadable error
            (u.chars ++ Segment.render (us ++ [w]))) i rs := by
    intro error hCalled
    rw [hCalled, Expr.unreadable, Expr.portable_leaf] at hPortable
    obtain rfl : there = here := hPortable
    exact
      respelled_verbatim hLays hGenuine hOpen hArgs hClose hCalled
  cases hName : Operation.ofName? (u.token 0).functionName with
  | none =>
      have hCalled :
          ∀ cs,
            called (u.token 0).functionName es cs =
              .unreadable .unknownName cs := by
        intro cs
        rw [called, hName]
      rw [hCalled]
      exact hVerbatim _ (hCalled _)
  | some op =>
      cases hAccepts : op.accepts es.length with
      | false =>
          have hCalled :
              ∀ cs,
                called (u.token 0).functionName es cs =
                  .unreadable .badFormula cs := by
            intro cs
            simp [called, hName, hAccepts]
          rw [hCalled]
          exact hVerbatim _ (hCalled _)
      | true =>
          have hCalled :
              ∀ cs,
                called (u.token 0).functionName es cs =
                  .call op es := by
            intro cs
            simp [called, hName, hAccepts]
          rw [hCalled] at hPortable ⊢
          exact
            respelled_call (Operation.isFunction_of_ofName? hName)
              hAccepts (hInner (Expr.portable_apply.mp hPortable))

/-
  What is read at one place is spelled at another one, by
  induction on its derivation.
-/
theorem Reads.respells
    {phrase : Phrase}
    (hReads : Reads here phrase us i rs)
    (hLays : Segment.Lays former us)
    (hGenuine : ∀ u ∈ us, u.Genuine)
    (hRefs : rs <+: refs.drop i)
    (hSheet : ∀ r ∈ refs, r.onSheet there = true) :
    phrase.Respells here there refs us i rs := by
  induction hReads generalizing former with
  | constant hKind hValue =>
      intro hPortable
      exact
        respelled_constant (hGenuine _ List.mem_cons_self) hKind hValue
          (Expr.portable_leaf.mp hPortable)
  | reference hKind hRead =>
      intro _
      exact respelled_reference hRefs hSheet
  | name hKind hRead =>
      intro hPortable
      obtain rfl : there = here := Expr.portable_leaf.mp hPortable
      exact
        respelled_name hLays (hGenuine _ List.mem_cons_self) hKind hRead
  | group hOpen hInner hClose ih =>
      intro hPortable
      simp only [List.cons_append, Segment.Lays, Segment.lays_append]
        at hLays
      simp only [List.cons_append, List.mem_cons, List.mem_append,
        List.not_mem_nil, or_false] at hGenuine
      exact
        respelled_group
          (ih hLays.2.1 (fun v hv => hGenuine v (.inr (.inl hv))) hRefs
            (Expr.portable_bracket.mp hPortable))
  | array hOpen hRows hArray hClose =>
      intro hPortable
      simp only [List.cons_append, List.mem_cons, List.mem_append,
        List.not_mem_nil, or_false] at hGenuine
      exact
        respelled_array hRows hArray
          (fun v hv => hGenuine v (.inr (.inl hv)))
          (Expr.portable_leaf.mp hPortable)
  | call hOpen hArgs hClose ih =>
      intro hPortable
      have hParts := hLays
      simp only [List.cons_append, Segment.Lays, Segment.lays_append]
        at hParts
      refine
        respells_called hLays hGenuine hOpen hArgs hClose ?_ hPortable
      refine ih hParts.2.1 (fun v hv => hGenuine v ?_) hRefs
      simp [hv]
  | plain hInner ih =>
      exact fun hPortable =>
        (ih hLays hGenuine hRefs hPortable).map fun _ _ => .plain
  | percent hInner hKind ih =>
      intro hPortable
      rw [Segment.lays_append] at hLays
      simp only [Expr.call, Expr.portable_apply, List.mem_singleton,
        forall_eq] at hPortable
      exact
        respelled_percent
          (ih hLays.1
            (fun v hv => hGenuine v (List.mem_append_left _ hv)) hRefs
            hPortable)
  | unsigned hInner ih =>
      exact fun hPortable =>
        (ih hLays hGenuine hRefs hPortable).map fun _ _ => .unsigned
  | sign hKind hInner ih =>
      intro hPortable
      exact
        respelled_sign _
          (ih hLays.2
            (fun v hv => hGenuine v (List.mem_cons_of_mem _ hv)) hRefs
            (portable_withSign.mp hPortable))
  | operand binding hInner ih =>
      exact fun hPortable =>
        (ih hLays hGenuine hRefs hPortable).map fun _ _ =>
          .operand binding
  | operator hLeft hKind hSymbol hRight hBinding ihLeft ihRight =>
      intro hPortable
      rw [Segment.lays_append] at hLays
      simp only [List.mem_append, List.mem_cons] at hGenuine
      simp only [Expr.call, Expr.portable_apply, List.mem_cons,
        List.not_mem_nil, or_false, forall_eq_or_imp, forall_eq]
        at hPortable
      rcases prefix_drop_append hRefs with ⟨hFirst, hSecond⟩
      exact
        respelled_operator
          (ihLeft hLays.1 (fun v hv => hGenuine v (.inl hv)) hFirst
            hPortable.1)
          (ihRight hLays.2.2 (fun v hv => hGenuine v (.inr (.inr hv)))
            hSecond hPortable.2)
          hBinding
  | given hInner ih =>
      exact fun hPortable =>
        respelled_given (ih hLays hGenuine hRefs hPortable)
  | omitted => exact fun _ => respelled_omitted
  | last hInner ih =>
      intro hPortable
      exact
        respelled_last
          (ih hLays hGenuine hRefs (hPortable _ List.mem_cons_self))
  | more hFirst hKind hRest ihFirst ihRest =>
      intro hPortable
      rw [Segment.lays_append] at hLays
      simp only [List.mem_append, List.mem_cons] at hGenuine
      rcases prefix_drop_append hRefs with ⟨hRefs₁, hRefs₂⟩
      exact
        respelled_more
          (ihFirst hLays.1 (fun v hv => hGenuine v (.inl hv)) hRefs₁
            (hPortable _ List.mem_cons_self))
          (ihRest hLays.2.2 (fun v hv => hGenuine v (.inr (.inr hv)))
            hRefs₂ fun e he => hPortable e (List.mem_cons_of_mem _ he))
          hRest.list_ne_nil
  | none => exact fun _ => respelled_none
  | some hInner hSome ih =>
      exact fun hPortable =>
        respelled_some (ih hLays hGenuine hRefs hPortable) hSome

end

end Parse

end Spreadsheet
