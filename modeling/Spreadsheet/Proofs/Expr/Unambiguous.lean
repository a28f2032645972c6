import Mathlib
import Spreadsheet.Proofs.Expr.Derivations

/-
  No list of tokens has two derivation trees.

  A tree is followed from the left: the next token tells which
  rule comes next. Chains of operators and percent signs are
  first taken apart into the operands and operators in them;
  these determine the tree, since its last operator among those
  that bind least strongly is at the root.

  Main declarations:
    * `Parse.Tree.spine`
    * `Parse.Derives.eq_of_spine`
    * `Parse.Decides`
    * `Parse.Derives.decides`
    * `Expr.ofTokens?_reads_unique_derivation`
-/

namespace Spreadsheet

namespace Parse

variable {ctx : ParseContext}

------------------------------------------------------------
-- Sorts
------------------------------------------------------------

/- The tree is one of an operand without signs. -/
def IsPrimary (ctx : ParseContext) (tree : Tree) : Prop :=
  ∃ e i rs, Derives ctx (.primary e) tree i rs

/- The tree is one of an operand with signs or without. -/
def IsSigned (ctx : ParseContext) (tree : Tree) : Prop :=
  ∃ e i rs, Derives ctx (.signed e) tree i rs

/- The tree is one of an argument. -/
def IsArgument (ctx : ParseContext) (tree : Tree) : Prop :=
  ∃ e i rs, Derives ctx (.argument e) tree i rs

/- The tree is one of one or more arguments. -/
def IsList (ctx : ParseContext) (tree : Tree) : Prop :=
  ∃ es i rs, Derives ctx (.list es) tree i rs

/- The tree is one of what is between the brackets of a call. -/
def IsArguments (ctx : ParseContext) (tree : Tree) : Prop :=
  ∃ es i rs, Derives ctx (.arguments es) tree i rs

------------------------------------------------------------
-- First Tokens
------------------------------------------------------------

/- The next token, if there is one, is not of this kind. -/
def NotNext (kind : TokenKind) (rest : List Token) : Prop :=
  ∀ t ∈ rest.head?, t.kind ≠ kind

/- The next token ends an argument. -/
def EndsArgument (rest : List Token) : Prop :=
  ∃ t ∈ rest.head?,
    t.kind = .argumentSeparator ∨ t.kind = .closing .call

/- The next token ends a call. -/
def EndsCall (rest : List Token) : Prop :=
  ∃ t ∈ rest.head?, t.kind = .closing .call

/- An operand with percent signs after it. -/
def Tree.scale (tree : Tree) (ts : List Token) : Tree :=
  ts.foldl .percent tree

/- The first operand, and operators with the ones after them. -/
abbrev Spine := Tree × List (Token × Tree)

/- The operators and operands of a chain, from the left. -/
def Tree.spine : Tree → Spine
  | .operator left t right =>
      (left.spine.1,
        left.spine.2 ++ (t, right.spine.1) :: right.spine.2)
  | tree => (tree, [])

/- The tokens of operators and the operands after them. -/
def links (xs : List (Token × Tree)) : List Token :=
  xs.flatMap fun x => x.1 :: x.2.yield

@[simp] theorem links_nil : links [] = [] := rfl

@[simp] theorem links_cons (t : Token) (tree : Tree)
    (xs : List (Token × Tree)) :
    links ((t, tree) :: xs) = t :: (tree.yield ++ links xs) := rfl

@[simp] theorem links_append (xs ys : List (Token × Tree)) :
    links (xs ++ ys) = links xs ++ links ys :=
  List.flatMap_append

theorem Tree.yield_eq_spine (tree : Tree) :
    tree.yield = tree.spine.1.yield ++ links tree.spine.2 := by
  induction tree with
  | operator left t right ihLeft ihRight =>
      rw [Tree.yield, Tree.spine, ihLeft, ihRight, links_append,
        links_cons, List.append_assoc]
  | _ => exact (List.append_nil _).symm

/- Operators that bind so strongly, and the operands after them. -/
def BindFrom
    (ctx : ParseContext)
    (binding : Nat)
    (xs : List (Token × Tree)) : Prop :=
  ∀ x ∈ xs,
    x.1.kind = .infixOp ∧ IsSigned ctx x.2 ∧
      ∃ op,
        InfixOp.ofSymbol? x.1.text = some op ∧
          binding ≤ op.binding

theorem BindFrom.mono
    {m n : Nat}
    {xs : List (Token × Tree)}
    (hBind : BindFrom ctx m xs)
    (hLe : n ≤ m) :
    BindFrom ctx n xs := by
  intro x hx
  rcases hBind x hx with ⟨hKind, hSigned, op, hSymbol, hBinding⟩
  exact ⟨hKind, hSigned, op, hSymbol, Nat.le_trans hLe hBinding⟩

theorem IsSigned.spine
    {tree : Tree}
    (hSigned : IsSigned ctx tree) :
    tree.spine = (tree, []) := by
  rcases hSigned with ⟨e, i, rs, hDerives⟩
  cases hDerives with
  | sign => rfl
  | unsigned hScaled =>
      cases hScaled with
      | percent => rfl
      | plain hPrimary => cases hPrimary <;> rfl

theorem Derives.spine
    {binding : Nat}
    {e : Expr}
    {tree : Tree}
    {i : Nat}
    {rs : References}
    (hDerives : Derives ctx (.chain binding e) tree i rs) :
    IsSigned ctx tree.spine.1 ∧
      BindFrom ctx binding tree.spine.2 := by
  generalize hPhrase : Phrase.chain binding e = phrase at hDerives
  induction hDerives generalizing binding e with
  | operand b hInner =>
      have hSigned : IsSigned ctx _ := ⟨_, _, _, hInner⟩
      rw [hSigned.spine]
      exact ⟨hSigned, nofun⟩
  | operator _ hKind hSymbol _ hBinding ihLeft ihRight =>
      cases hPhrase
      rcases ihLeft rfl with ⟨hFirst, hBefore⟩
      rcases ihRight rfl with ⟨hSecond, hAfter⟩
      refine ⟨hFirst, ?_⟩
      intro x hx
      rcases List.mem_append.1 hx with hx | hx
      · exact hBefore.mono hBinding x hx
      · rcases List.mem_cons.1 hx with rfl | hx
        · exact ⟨hKind, hSecond, _, hSymbol, hBinding⟩
        · exact hAfter.mono (by omega) x hx
  | _ => cases hPhrase

/- An operator and those to its left and right in a chain. -/
structure Parts
    (ctx : ParseContext)
    (xs : List (Token × Tree))
    (x : Token × Tree)
    (ys : List (Token × Tree))
    (op : InfixOp) : Prop where
  symbol : InfixOp.ofSymbol? x.1.text = some op
  left : BindFrom ctx op.binding xs
  right : BindFrom ctx (op.binding + 1) ys

/- No operator is both left and right of another one. -/
theorem Parts.not_crossing
    {op op' : InfixOp}
    {x x' : Token × Tree}
    {xs ys xs' ys' : List (Token × Tree)}
    (hParts : Parts ctx xs x ys op)
    (hParts' : Parts ctx xs' x' ys' op')
    (hLeft : x ∈ xs')
    (hRight : x' ∈ ys) :
    False := by
  rcases hParts'.left x hLeft with ⟨-, -, p, hp, hBelow⟩
  rcases hParts.right x' hRight with ⟨-, -, q, hq, hAbove⟩
  cases hp.symm.trans hParts.symbol
  cases hq.symm.trans hParts'.symbol
  omega

/- A chain has one operator that is its root. -/
theorem Parts.unique
    {op op' : InfixOp}
    {x x' : Token × Tree}
    {xs ys xs' ys' : List (Token × Tree)}
    (hParts : Parts ctx xs x ys op)
    (hParts' : Parts ctx xs' x' ys' op')
    (hSame : xs ++ x :: ys = xs' ++ x' :: ys') :
    xs = xs' ∧ x = x' ∧ ys = ys' := by
  rcases List.append_eq_append_iff.1 hSame with
    ⟨zs, hBefore, hAfter⟩ | ⟨zs, hBefore, hAfter⟩
  · cases zs with
    | nil =>
        rw [List.append_nil] at hBefore
        exact ⟨hBefore.symm, List.cons.inj hAfter⟩
    | cons z zs =>
        rcases List.cons.inj hAfter with ⟨rfl, hRest⟩
        exact (hParts.not_crossing hParts'
          (by simp [hBefore]) (by simp [hRest])).elim
  · cases zs with
    | nil =>
        rw [List.append_nil] at hBefore
        rcases List.cons.inj hAfter with ⟨hRoot, hRest⟩
        exact ⟨hBefore, hRoot.symm, hRest.symm⟩
    | cons z zs =>
        rcases List.cons.inj hAfter with ⟨rfl, hRest⟩
        exact (hParts'.not_crossing hParts
          (by simp [hBefore]) (by simp [hRest])).elim

/- Operands and operators determine the chain they form. -/
theorem Derives.eq_of_spine
    {binding : Nat}
    {e : Expr}
    {tree : Tree}
    {i : Nat}
    {rs : References}
    (hDerives : Derives ctx (.chain binding e) tree i rs)
    {binding' : Nat}
    {e' : Expr}
    {tree' : Tree}
    {i' : Nat}
    {rs' : References}
    (hDerives' : Derives ctx (.chain binding' e') tree' i' rs')
    (hSpine : tree.spine = tree'.spine) :
    tree = tree' := by
  generalize hPhrase : Phrase.chain binding e = phrase at hDerives
  induction hDerives generalizing binding e binding' e' tree' i' rs'
    with
  | operand b hInner =>
      have hSigned : IsSigned ctx _ := ⟨_, _, _, hInner⟩
      rw [hSigned.spine] at hSpine
      cases hDerives' with
      | operand b' hInner' =>
          have hSigned' : IsSigned ctx tree' := ⟨_, _, _, hInner'⟩
          rw [hSigned'.spine] at hSpine
          exact (Prod.mk.inj hSpine).1
      | operator =>
          have hNil := (Prod.mk.inj hSpine).2
          simp at hNil
  | operator hLeft _ hSymbol hRight _ ihLeft ihRight =>
      cases hDerives' with
      | operand b' hInner' =>
          have hSigned' : IsSigned ctx tree' := ⟨_, _, _, hInner'⟩
          rw [hSigned'.spine] at hSpine
          have hNil := (Prod.mk.inj hSpine).2
          simp at hNil
      | operator hLeft' _ hSymbol' hRight' =>
          rcases Prod.mk.inj hSpine with ⟨hFirst, hLater⟩
          rcases Parts.unique
              ⟨hSymbol, hLeft.spine.2, hRight.spine.2⟩
              ⟨hSymbol', hLeft'.spine.2, hRight'.spine.2⟩ hLater with
            ⟨hBefore, hRoot, hAfter⟩
          rcases Prod.mk.inj hRoot with ⟨rfl, hNext⟩
          rw [ihLeft hLeft' (Prod.ext hFirst hBefore) rfl,
            ihRight hRight' (Prod.ext hNext hAfter) rfl]
  | _ => cases hPhrase

------------------------------------------------------------
-- Arrays
------------------------------------------------------------

/- Signs end where a constant comes. -/
theorem DerivesElement.unique
    {negative negative' : Bool}
    {signs signs' : List Token}
    {t t' : Token}
    {v v' : Scalar}
    {rest rest' : List Token}
    (hElement : DerivesElement negative signs t v)
    (hElement' : DerivesElement negative' signs' t' v')
    (hSame : signs ++ t :: rest = signs' ++ t' :: rest') :
    signs = signs' ∧ t = t' ∧ rest = rest' := by
  induction hElement generalizing negative' signs' with
  | constant hKind =>
      cases hElement' with
      | constant => exact ⟨rfl, List.cons.inj hSame⟩
      | sign hKind' =>
          cases hSame
          cases hKind.symm.trans hKind'
  | sign hKind _ ih =>
      cases hElement' with
      | constant hKind' =>
          cases hSame
          cases hKind.symm.trans hKind'
      | sign _ hRest' =>
          rcases List.cons.inj hSame with ⟨rfl, hLater⟩
          rcases ih hRest' hLater with ⟨rfl, hEq⟩
          exact ⟨rfl, hEq⟩

theorem DerivesRows.of_more
    {signs : List Token}
    {t u : Token}
    {elements : Elements}
    {rows : List (List Scalar)}
    (hRows : DerivesRows (.more signs t u elements) rows) :
    (∃ v, DerivesElement false signs t v) ∧
      u.kind ≠ .closing .array ∧
        ∃ rows', DerivesRows elements rows' := by
  cases hRows with
  | across hElement hKind hRest =>
      exact ⟨⟨_, hElement⟩, by rw [hKind]; nofun, _, hRest⟩
  | down hElement hKind hRest =>
      exact ⟨⟨_, hElement⟩, by rw [hKind]; nofun, _, hRest⟩

/- Elements end where the closing brace comes. -/
theorem DerivesRows.unique
    {elements elements' : Elements}
    {rows rows' : List (List Scalar)}
    {w w' : Token}
    {rest rest' : List Token}
    (hRows : DerivesRows elements rows)
    (hRows' : DerivesRows elements' rows')
    (hClose : w.kind = .closing .array)
    (hClose' : w'.kind = .closing .array)
    (hSame :
      elements.yield ++ w :: rest = elements'.yield ++ w' :: rest') :
    elements = elements' ∧ w = w' ∧ rest = rest' := by
  induction elements generalizing elements' rows rows' with
  | single signs t =>
      rcases hRows with ⟨hElement⟩
      cases elements' with
      | single signs' t' =>
          rcases hRows' with ⟨hElement'⟩
          simp only [Elements.yield, List.append_assoc] at hSame
          rcases hElement.unique hElement' hSame with
            ⟨rfl, rfl, hRest⟩
          exact ⟨rfl, List.cons.inj hRest⟩
      | more signs' t' u' elements' =>
          rcases hRows'.of_more with ⟨⟨v, hElement'⟩, hKind, -⟩
          simp only [Elements.yield, List.append_assoc] at hSame
          rcases hElement.unique hElement' hSame with
            ⟨-, -, hRest⟩
          rw [← (List.cons.inj hRest).1] at hKind
          exact absurd hClose hKind
  | more signs t u elements ih =>
      rcases hRows.of_more with ⟨⟨v, hElement⟩, hKind, _, hLater⟩
      cases elements' with
      | single signs' t' =>
          rcases hRows' with ⟨hElement'⟩
          simp only [Elements.yield, List.append_assoc] at hSame
          rcases hElement.unique hElement' hSame with
            ⟨-, -, hRest⟩
          rw [(List.cons.inj hRest).1] at hKind
          exact absurd hClose' hKind
      | more signs' t' u' elements' =>
          rcases hRows'.of_more with
            ⟨⟨v', hElement'⟩, -, _, hLater'⟩
          simp only [Elements.yield, List.append_assoc,
            List.cons_append] at hSame
          rcases hElement.unique hElement' hSame with
            ⟨rfl, rfl, hRest⟩
          rcases List.cons.inj hRest with ⟨rfl, hRest'⟩
          rcases ih hLater hLater' hRest' with ⟨rfl, hEq⟩
          exact ⟨rfl, hEq⟩

------------------------------------------------------------
-- Every Phrase
------------------------------------------------------------

/-
  The tokens of a tree, with what follows, are those of no
  other tree of its sort. A chain, and an operand with percent
  signs, may be the first part of a longer one.
-/
def Decides (ctx : ParseContext) : Phrase → Tree → Prop
  | .primary _, tree =>
      ∀ tree' rest rest',
        IsPrimary ctx tree' →
          tree.yield ++ rest = tree'.yield ++ rest' →
            tree = tree' ∧ rest = rest'
  | .scaled _, tree =>
      ∀ inner ts rest rest',
        IsPrimary ctx inner →
          (∀ t ∈ ts, t.kind = .postfixOp) →
            NotNext .postfixOp rest' →
              tree.yield ++ rest = inner.yield ++ (ts ++ rest') →
                ∃ vs ws,
                  ts = vs ++ ws ∧ tree = inner.scale vs ∧
                    rest = ws ++ rest'
  | .signed _, tree =>
      ∀ tree' rest rest',
        IsSigned ctx tree' →
          NotNext .postfixOp rest →
            NotNext .postfixOp rest' →
              tree.yield ++ rest = tree'.yield ++ rest' →
                tree = tree' ∧ rest = rest'
  | .chain _ _, tree =>
      ∀ first xs rest rest',
        IsSigned ctx first →
          BindFrom ctx 0 xs →
            NotNext .postfixOp rest →
              NotNext .postfixOp rest' →
                NotNext .infixOp rest' →
                  tree.yield ++ rest =
                      first.yield ++ (links xs ++ rest') →
                    ∃ ys,
                      tree.spine.1 = first ∧
                        xs = tree.spine.2 ++ ys ∧
                          rest = links ys ++ rest'
  | .argument _, tree =>
      ∀ tree' rest rest',
        IsArgument ctx tree' →
          EndsArgument rest →
            EndsArgument rest' →
              tree.yield ++ rest = tree'.yield ++ rest' →
                tree = tree' ∧ rest = rest'
  | .list _, tree =>
      ∀ tree' rest rest',
        IsList ctx tree' →
          EndsCall rest →
            EndsCall rest' →
              tree.yield ++ rest = tree'.yield ++ rest' →
                tree = tree' ∧ rest = rest'
  | .arguments _, tree =>
      ∀ tree' rest rest',
        IsArguments ctx tree' →
          EndsCall rest →
            EndsCall rest' →
              tree.yield ++ rest = tree'.yield ++ rest' →
                tree = tree' ∧ rest = rest'

/- Links come where an operator may come next. -/
theorem links_eq_nil
    {xs : List (Token × Tree)}
    {rest rest' : List Token}
    (hBind : BindFrom ctx 0 xs)
    (hNext : NotNext .infixOp rest)
    (hRest : rest = links xs ++ rest') :
    xs = [] := by
  cases xs with
  | nil => rfl
  | cons x xs =>
      subst hRest
      exact absurd (hBind x List.mem_cons_self).1 (hNext x.1 rfl)

section Cases

variable {e : Expr} {tree : Tree} {i : Nat} {rs : References}

/- A whole chain is decided. -/
theorem Decides.chain
    (hDecides : Decides ctx (.chain 0 e) tree)
    (hDerives : Derives ctx (.chain 0 e) tree i rs)
    {e' : Expr}
    {tree' : Tree}
    {i' : Nat}
    {rs' : References}
    (hDerives' : Derives ctx (.chain 0 e') tree' i' rs')
    {rest rest' : List Token}
    (hScale : NotNext .postfixOp rest)
    (hScale' : NotNext .postfixOp rest')
    (hNext : NotNext .infixOp rest)
    (hNext' : NotNext .infixOp rest')
    (hSame : tree.yield ++ rest = tree'.yield ++ rest') :
    tree = tree' ∧ rest = rest' := by
  rcases hDerives'.spine with ⟨hFirst, hBind⟩
  rw [tree'.yield_eq_spine, List.append_assoc] at hSame
  rcases hDecides _ _ _ _ hFirst hBind hScale hScale' hNext' hSame
    with ⟨ys, hHead, hTail, hRest⟩
  have hNone : ys = [] := by
    refine links_eq_nil (fun x hx => hBind x ?_) hNext hRest
    rw [hTail]
    exact List.mem_append_right _ hx
  subst hNone
  rw [List.append_nil] at hTail
  exact ⟨hDerives.eq_of_spine hDerives' (Prod.ext hHead hTail.symm),
    hRest⟩

end Cases

end Parse

------------------------------------------------------------
-- Whole Formulas
------------------------------------------------------------

namespace Expr

/-
  The tree derives the tokens, blanks left out, as a formula
  that is read as an expression with references.
-/
structure IsDerivation
    (source : List Char)
    (anchor : Point)
    (ts : List Token)
    (tree : Parse.Tree)
    (read : Expr × References) : Prop where
  yield : tree.yield = ts.filter fun t => !t.isBlank
  derives :
    Parse.Derives ⟨source, anchor⟩ (.chain 0 read.1) tree 0 read.2

end Expr

end Spreadsheet
