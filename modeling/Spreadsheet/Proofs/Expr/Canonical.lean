import Spreadsheet.Proofs.Expr.Completeness
import Spreadsheet.Proofs.Expr.Respelling

/-
  Canonical texts are read as what they spell.

  A text that is read as an expression has a derivation in the
  grammar, so the canonical text of the expression has one,
  and what has a derivation is read. No canonical text starts
  with `=`, which would be dropped.

  Main declarations:
    * `Expr.numbers`
    * `Expr.HoldsUnreadable`
    * `Formula.body_render`
    * `Formula.read_source`
-/

namespace Spreadsheet

------------------------------------------------------------
-- Numbers And Unreadable Text
------------------------------------------------------------

/- The numbers of a leaf. -/
def Leaf.numbers : Leaf → List Float
  | .constant v => v.number?.toList
  | .array a => a.data.toList.filterMap Scalar.number?
  | _ => []

/- The leaf is text that could not be read. -/
def Leaf.IsUnreadable : Leaf → Prop
  | .unreadable .. => True
  | _ => False

namespace Expr

/- The numbers of an expression, from the left. -/
def numbers (e : Expr) : List Float :=
  e.leaves.flatMap Leaf.numbers

/- The expression holds text that could not be read. -/
def HoldsUnreadable (e : Expr) : Prop :=
  ∃ l ∈ e.leaves, l.IsUnreadable

/- An expression is portable if its numbers print back. -/
theorem portable_of_numbers
    {here there : Point}
    {e : Expr}
    (hPlace : e.HoldsUnreadable → there = here)
    (hNumbers :
      ∀ x ∈ e.numbers, x.isFinite = true → Decimal.PrintsBack x) :
    e.Portable here there := by
  intro l hl
  have hLeaf :
      ∀ x ∈ l.numbers, x.isFinite = true → Decimal.PrintsBack x :=
    fun x hx => hNumbers x (List.mem_flatMap.mpr ⟨l, hl, hx⟩)
  cases l with
  | constant v =>
      rintro x rfl
      exact hLeaf x (by simp [Leaf.numbers, Scalar.number?])
  | array a =>
      rintro v hv x rfl
      refine hLeaf x ?_
      rw [Leaf.numbers, List.mem_filterMap]
      exact ⟨_, hv, rfl⟩
  | reference => trivial
  | unreadable => exact hPlace ⟨_, hl, trivial⟩

end Expr

------------------------------------------------------------
-- Whole Formulas
------------------------------------------------------------

/- Only an operator starts with `=`. -/
theorem Segment.Stands.head?_ne
    {following : List Char}
    {u : Segment}
    (hStands : u.Stands following)
    (hGenuine : u.Genuine)
    (hOperand : u.kind ≠ .infixOp) :
    (u.text ++ following).head? ≠ some '=' := by
  intro hHead
  rcases hStands with ⟨hGap, -, c, cs, hChars, hNext⟩
  cases hSpaces : u.gap with
  | cons d gap =>
      rw [text, hSpaces] at hHead
      cases hHead
      have hSpace := hGap '=' (by simp [hSpaces])
      cases hSpace
  | nil =>
      rw [text, hSpaces, hChars] at hHead
      cases hHead
      have hLexeme : u.lexeme = .operator := by
        have hSign :
            Lexeme.operator? '=' (cs ++ following) =
              (u.lexeme, cs.length) :=
          Except.ok.inj hNext
        unfold Lexeme.operator? at hSign
        (repeat' split at hSign) <;> simp_all
      have hSuits := hGenuine.suits
      rw [hLexeme] at hSuits
      generalize u.kind = kind at hSuits hOperand
      cases hSuits
      exact hOperand rfl

/- No expression's text starts with `=`. -/
theorem Formula.body_render
    {anchor : Point}
    {us : List Segment}
    {e : Expr}
    {i : Nat}
    {rs : References}
    (hReads : Parse.Reads anchor (.chain 0 e) us i rs)
    (hFree : Segment.Free us) :
    body (Segment.render us) = Segment.render us := by
  rcases hReads.hasHead with ⟨u, us', rfl, hHead⟩
  have hOperand : u.kind ≠ .infixOp := by
    intro hKind
    rw [hKind] at hHead
    rcases hHead with h | h <;> cases h
  have hGenuine := hFree.genuine u List.mem_cons_self
  have hStands := (hFree.lays [] nofun).1
  have hNoSign := hStands.head?_ne hGenuine hOperand
  rw [List.append_nil] at hNoSign
  rw [Segment.render_cons]
  unfold body
  split
  · rename_i hEq
    rw [hEq] at hNoSign
    exact absurd rfl hNoSign
  · rfl

/-
  The text of an expression is read as an equal expression
  with the same references, from any cell from which these lie
  on the sheet.
-/
theorem Formula.read_source
    {cs : List Char}
    {here there : Point}
    {e : Expr}
    {refs : References}
    (hRead : Expr.ofChars? cs here = .ok (e, refs))
    (hSheet : ∀ r ∈ refs, r.onSheet there = true)
    (hPlace : e.HoldsUnreadable → there = here)
    (hNumbers :
      ∀ x ∈ e.numbers, x.isFinite = true → Decimal.PrintsBack x) :
    ∃ e',
      Formula.read (e.source refs there) there = (e', refs) ∧
        e.Same e' := by
  rcases Expr.ofChars?_eq_ok.mp hRead with
    ⟨us, tail, hSplits, hReads⟩
  rcases hSplits.fits with ⟨ctx', hFits, -⟩
  have hGenuine := Segment.genuine_of_fits hSplits.lays hFits
  have hPortable := Expr.portable_of_numbers hPlace hNumbers
  rcases
      hReads.respells hSplits.lays hGenuine List.prefix_rfl hSheet
        hPortable [] (.inl rfl) with
    ⟨us', e', hSpells, hSame, hReads', -⟩
  have hText : Segment.render us' = e.source refs there := hSpells.text
  have hBody := Formula.body_render hReads' hSpells.free
  rw [hText] at hBody
  have hSplits' :
      Segment.Splits .start (e.source refs there) us' [] :=
    ⟨by rw [hText, List.append_nil], nofun, hSpells.free.lays [] nofun,
      _, hReads'.fits hSpells.free.genuine [], rfl⟩
  refine ⟨e', ?_, hSame⟩
  have hFound :
      Expr.ofChars? (e.source refs there) there = .ok (e', refs) := by
    rw [Expr.ofChars?_eq_ok, hBody]
    exact ⟨us', [], hSplits', hReads'⟩
  rw [Formula.read, hBody, hFound]

theorem Decimal.printsBack_one : PrintsBack 1 :=
  ⟨⟨['1'], by decide +kernel, by simp⟩, 1, by decide +kernel,
    by decide +kernel⟩

theorem Decimal.printsBack_negative : PrintsBack (-2.5) :=
  ⟨⟨['2', '.', '5'], by decide +kernel, by simp⟩, -2.5,
    by decide +kernel, by decide +kernel⟩

/- The percent sign after a sum with an omitted argument. -/
def Expr.percentOfSum : Expr :=
  .call .percent
    [.call (.aggregate .sum)
      [.leaf false (.reference 0), .constant .blank,
        .leaf false
          (.array ⟨⟨1, 2⟩, #[.number 1, .number (-2.5)], rfl⟩)]]

/- A relative column is spelled as seen from the other cell. -/
theorem Formula.read_source_percentOfSum :
    ∃ e refs,
      Expr.ofChars? "sum( +a$1,,\x7b1;-2.5\x7d )%".toList ⟨0, 0⟩ =
          .ok (Expr.percentOfSum, refs) ∧
        Expr.percentOfSum.source refs ⟨2, 4⟩ =
            "SUM(C$1, , \x7b1;-2.5\x7d)%".toList ∧
          Formula.read "SUM(C$1, , \x7b1;-2.5\x7d)%".toList ⟨2, 4⟩ =
              (e, refs) ∧
            Expr.percentOfSum.Same e := by
  have hLex :
      Token.lex "sum( +a$1,,\x7b1;-2.5\x7d )%".toList =
        .ok
          [⟨.opening .call, "sum(".toList, 0⟩, ⟨.blank, [' '], 4⟩,
            ⟨.prefixOp, ['+'], 5⟩, ⟨.operand .range, "a$1".toList, 6⟩,
            ⟨.argumentSeparator, [','], 9⟩,
            ⟨.argumentSeparator, [','], 10⟩,
            ⟨.opening .array, ['\x7b'], 11⟩,
            ⟨.operand .number, ['1'], 12⟩, ⟨.rowSeparator, [';'], 13⟩,
            ⟨.prefixOp, ['-'], 14⟩,
            ⟨.operand .number, "2.5".toList, 15⟩,
            ⟨.closing .array, ['\x7d'], 18⟩, ⟨.blank, [' '], 19⟩,
            ⟨.closing .call, [')'], 20⟩, ⟨.postfixOp, ['%'], 21⟩] := by
    decide +kernel
  have hRead :
      Expr.ofChars? "sum( +a$1,,\x7b1;-2.5\x7d )%".toList ⟨0, 0⟩ =
        .ok (Expr.percentOfSum,
          [.cell (.relative 0) (.absolute 0)]) := by
    rw [Expr.ofChars?, hLex]
    rfl
  have hLeaves :
      Expr.percentOfSum.leaves =
        [.reference 0, .constant .blank,
          .array ⟨⟨1, 2⟩, #[.number 1, .number (-2.5)], rfl⟩] := by
    simp [Expr.percentOfSum, Expr.call, Expr.constant, Expr.leaves]
  have hPlace :
      Expr.percentOfSum.HoldsUnreadable →
        (⟨2, 4⟩ : Point) = ⟨0, 0⟩ := by
    rintro ⟨l, hl, hUnreadable⟩
    simp only [hLeaves, List.mem_cons, List.not_mem_nil, or_false]
      at hl
    rcases hl with rfl | rfl | rfl <;> cases hUnreadable
  have hNumbers :
      ∀ x ∈ Expr.percentOfSum.numbers,
        x.isFinite = true → Decimal.PrintsBack x := by
    rintro x hx -
    simp only [Expr.numbers, hLeaves, Leaf.numbers, Scalar.number?,
      List.flatMap_cons, List.flatMap_nil, List.filterMap_cons,
      List.filterMap_nil, Option.toList_none, List.nil_append,
      List.append_nil, List.mem_cons, List.not_mem_nil, or_false] at hx
    rcases hx with rfl | rfl
    · exact Decimal.printsBack_one
    · exact Decimal.printsBack_negative
  have hArray :
      ScalarArray.source
          ⟨⟨1, 2⟩, #[.number 1, .number (-2.5)], rfl⟩ =
        "\x7b1;-2.5\x7d".toList := by
    decide +kernel
  have hReference :
      Reference.source (.cell (.relative 0) (.absolute 0)) ⟨2, 4⟩ =
        "C$1".toList := by
    decide +kernel
  have hSource :
      Expr.percentOfSum.source [.cell (.relative 0) (.absolute 0)]
          ⟨2, 4⟩ =
        "SUM(C$1, , \x7b1;-2.5\x7d)%".toList := by
    simp [Expr.percentOfSum, Expr.source_call, Expr.applySource,
      Operation.symbol, Aggregate.name, Expr.constant,
      Expr.source_leaf, Leaf.source, References.source, hArray,
      hReference, Scalar.source, Scalar.display, Text.joinWith]
  rcases
      Formula.read_source hRead (by decide +kernel) hPlace hNumbers
    with ⟨e, hBack, hSame⟩
  rw [hSource] at hBack
  exact ⟨e, _, hRead, hSource, hBack, hSame⟩

end Spreadsheet
