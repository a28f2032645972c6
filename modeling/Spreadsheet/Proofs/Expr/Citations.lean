import Mathlib
import Spreadsheet.Proofs.Expr.Unambiguous
import Spreadsheet.Proofs.Expr.UnreadCalls
import Spreadsheet.Proofs.Reference.Adjustments

/-
  The places of references in the list of a formula.

  Each reference of a text is appended to the list when it is
  read, also inside a call that is then kept as text. So the
  list holds the references of all tokens, and the expression
  has the places of those that are outside of such calls, from
  the left. An adjusted list has the same places, and each one
  goes on to hold what became of the reference that was read.

  Main declarations:
    * `Parse.Tree.operands`
    * `Parse.Located`
    * `Parse.Derives.references`
    * `Parse.Derives.located`
    * `Formula.places_denote_descendants`
-/

namespace Spreadsheet

open Token (argumentCount solid)

------------------------------------------------------------
-- References Of Tokens
------------------------------------------------------------

/- What a token is read as if it is a reference. -/
def Token.reference? (anchor : Point) (t : Token) : Option Reference :=
  if t.kind = .operand .range then Reference.read? t.chars anchor
  else none

theorem Token.reference?_of_kind
    {t : Token}
    (hKind : t.kind ≠ .operand .range)
    (anchor : Point) :
    t.reference? anchor = none :=
  if_neg hKind

/- Blanks are no references. -/
theorem Token.filterMap_reference?_solid
    (anchor : Point)
    (ts : List Token) :
    (solid ts).filterMap (·.reference? anchor) =
      ts.filterMap (·.reference? anchor) := by
  induction ts with
  | nil => rfl
  | cons t ts ih =>
      by_cases hBlank : t.isBlank = true
      · have hKind : t.kind = .blank := beq_iff_eq.mp hBlank
        have hNone : t.reference? anchor = none :=
          reference?_of_kind (by simp [hKind]) anchor
        rw [List.filterMap_cons_none hNone, ← ih]
        simp [solid, hBlank]
      · rw [List.filterMap_cons, ← ih]
        simp [solid, hBlank, List.filterMap_cons]

------------------------------------------------------------
-- Places
------------------------------------------------------------

namespace Parse

/-
  References that are at places of a list which starts with
  place `i`, both from the left.
-/
def Located
    (i : Nat)
    (refs cited : References)
    (places : List Nat) : Prop :=
  ∃ entries : List (Reference × Nat),
    entries.Sublist (refs.zipIdx i) ∧
      entries.map Prod.fst = cited ∧ entries.map Prod.snd = places

section

variable
  {i : Nat}
  {rs ss cited cited' : References}
  {places places' : List Nat}

theorem located_nil (i : Nat) (rs : References) :
    Located i rs [] [] :=
  ⟨[], List.nil_sublist _, rfl, rfl⟩

theorem located_single (i : Nat) (r : Reference) :
    Located i [r] [r] [i] :=
  ⟨[(r, i)], List.Sublist.refl _, rfl, rfl⟩

/- The second list starts where the first one ends. -/
theorem Located.append
    (hFirst : Located i rs cited places)
    (hSecond : Located (i + rs.length) ss cited' places') :
    Located i (rs ++ ss) (cited ++ cited') (places ++ places') := by
  rcases hFirst with ⟨xs, hXs, rfl, rfl⟩
  rcases hSecond with ⟨ys, hYs, rfl, rfl⟩
  refine ⟨xs ++ ys, ?_, List.map_append, List.map_append⟩
  rw [List.zipIdx_append]
  exact hXs.append hYs

theorem Located.sublist
    (hLocated : Located i rs cited places) :
    places.Sublist (List.range' i rs.length) := by
  rcases hLocated with ⟨entries, hEntries, -, rfl⟩
  rw [← List.zipIdx_map_snd i rs]
  exact hEntries.map Prod.snd

theorem Located.increasing
    (hLocated : Located i rs cited places) :
    places.Pairwise (· < ·) :=
  (List.pairwise_lt_range' _).sublist hLocated.sublist

theorem Located.lt_length
    (hLocated : Located 0 rs cited places) :
    ∀ k ∈ places, k < rs.length := by
  intro k hk
  have hRange := hLocated.sublist.subset hk
  rw [List.mem_range'_1] at hRange
  omega

/- The references are found at their places. -/
theorem Located.getElem?
    (hLocated : Located 0 rs cited places) :
    places.map (rs[·]?) = cited.map some := by
  rcases hLocated with ⟨entries, hEntries, rfl, rfl⟩
  rw [List.map_map, List.map_map]
  refine List.map_congr_left fun entry hEntry => ?_
  exact List.mem_zipIdx_iff_getElem?.mp (hEntries.subset hEntry)

end

end Parse

------------------------------------------------------------
-- Places In Expressions
------------------------------------------------------------

namespace Expr

theorem referenceIndices_leaf (bracketed : Bool) (l : Leaf) :
    (leaf bracketed l).referenceIndices =
      match l with
      | .reference i => [i]
      | _ => [] := by
  cases l <;> simp [referenceIndices]

theorem referenceIndices_call (op : Operation) (args : List Expr) :
    (call op args).referenceIndices =
      args.flatMap referenceIndices := by
  rw [call, referenceIndices]

theorem referenceIndices_bracket (e : Expr) :
    e.bracket.referenceIndices = e.referenceIndices := by
  cases e with
  | leaf bracketed l =>
      rw [bracket, referenceIndices_leaf, referenceIndices_leaf]
  | apply bracketed op args =>
      rw [bracket, referenceIndices, referenceIndices]

theorem referenceIndices_withSign (cs : List Char) (e : Expr) :
    (Parse.withSign cs e).referenceIndices = e.referenceIndices := by
  unfold Parse.withSign
  split
  · rw [referenceIndices_call, List.flatMap_singleton]
  · rfl

end Expr

namespace Parse

/- Whether a function of this name takes so many arguments. -/
def takes (name : String) (count : Nat) : Bool :=
  (Operation.ofName? name).any (·.accepts count)

/- A call that is kept as text has no places. -/
theorem referenceIndices_called
    (name : String)
    (args : List Expr)
    (cs : List Char) :
    (called name args cs).referenceIndices =
      if takes name args.length then
        args.flatMap Expr.referenceIndices
      else
        [] := by
  unfold called takes
  cases Operation.ofName? name with
  | none => exact Expr.referenceIndices_leaf false _
  | some op =>
      rw [Option.any_some]
      dsimp only
      split
      · exact Expr.referenceIndices_call op args
      · exact Expr.referenceIndices_leaf false _

------------------------------------------------------------
-- Places Of Phrases
------------------------------------------------------------

/- The operands outside of calls that are kept as text. -/
def Tree.operands : Tree → List Token
  | .operand t => [t]
  | .group _ inner _ => inner.operands
  | .array _ _ _ => []
  | .call opening args _ =>
      if takes opening.functionName (argumentCount args.yield) then
        args.operands
      else
        []
  | .percent inner _ => inner.operands
  | .sign _ inner => inner.operands
  | .operator left _ right => left.operands ++ right.operands
  | .omitted => []
  | .last arg => arg.operands
  | .more arg _ rest => arg.operands ++ rest.operands
  | .noArguments => []

/- The places of the references of a phrase. -/
def Phrase.places : Phrase → List Nat
  | .chain _ e | .signed e | .scaled e | .primary e | .argument e =>
      e.referenceIndices
  | .list es | .arguments es => es.flatMap Expr.referenceIndices

section

variable
  {ctx : ParseContext}
  {phrase : Phrase}
  {tree : Tree}
  {i : Nat}
  {rs : References}

/- The list holds the references of all tokens. -/
theorem Derives.references
    (hDerives : Derives ctx phrase tree i rs) :
    tree.yield.filterMap (·.reference? ctx.anchor) = rs := by
  induction hDerives with
  | @constant t kind v i hKind hValue =>
      have hNe := ne_range_of_scalarOf? hValue
      simp [Tree.yield, Token.reference?, hKind, hNe]
  | reference hKind hRead | name hKind hRead =>
      simp [Tree.yield, Token.reference?, hKind, hRead]
  | array hOpen hRows hArray hClose =>
      rw [List.filterMap_eq_nil_iff]
      intro u hu
      have hPlain := hRows.isPlain_array hOpen hClose u hu
      exact Token.reference?_of_kind hPlain.1 ctx.anchor
  | group hOpen _ hClose ih | call hOpen _ hClose ih =>
      simpa [Tree.yield, Token.reference?, hOpen, hClose] using ih
  | percent _ hKind ih | sign hKind _ ih =>
      simpa [Tree.yield, Token.reference?, hKind] using ih
  | operator _ hKind _ _ _ ihLeft ihRight
  | more _ hKind _ ihLeft ihRight =>
      rw [Tree.yield, List.filterMap_append, ihLeft,
        List.filterMap_cons_none
          (Token.reference?_of_kind (by simp [hKind]) ctx.anchor),
        ihRight]
  | omitted | none => rfl
  | plain _ ih | unsigned _ ih | operand _ _ ih | given _ ih
  | last _ ih | some _ _ ih => exact ih

/- The places are those of operands outside of calls kept as text. -/
theorem Derives.located
    (hDerives : Derives ctx phrase tree i rs) :
    Located i rs (tree.operands.filterMap (·.reference? ctx.anchor))
      phrase.places := by
  induction hDerives with
  | @constant t kind v i hKind hValue =>
      have hNe := ne_range_of_scalarOf? hValue
      simpa [Tree.operands, Phrase.places, Expr.constant,
        Expr.referenceIndices, Token.reference?, hKind, hNe]
        using located_nil i []
  | @reference t r i hKind hRead =>
      simpa [Tree.operands, Phrase.places, Expr.referenceIndices,
        Token.reference?, hKind, hRead] using located_single i r
  | @name t i hKind hRead =>
      simpa [Tree.operands, Phrase.places, Expr.unreadable,
        Expr.referenceIndices, Token.reference?, hKind, hRead]
        using located_nil i []
  | group _ _ _ ih =>
      rw [Phrase.places, Expr.referenceIndices_bracket]
      exact ih
  | @array t w elements rows a i =>
      simpa [Tree.operands, Phrase.places, Expr.referenceIndices]
        using located_nil i []
  | @call t w args es i rs hOpen hArgs hClose ih =>
      have hCount : es.length = argumentCount args.yield := hArgs.counts
      rw [Phrase.places, referenceIndices_called, hCount,
        Tree.operands]
      split
      · exact ih
      · -- references of the arguments stay in the list, unused
        exact located_nil i rs
  | percent _ _ ih =>
      rw [Phrase.places, Expr.referenceIndices_call,
        List.flatMap_singleton]
      exact ih
  | sign _ _ ih =>
      rw [Phrase.places, Expr.referenceIndices_withSign]
      exact ih
  | operator _ _ _ _ _ ihLeft ihRight =>
      rw [Phrase.places, Expr.referenceIndices_call, List.flatMap_cons,
        List.flatMap_singleton, Tree.operands, List.filterMap_append]
      exact ihLeft.append ihRight
  | @omitted i =>
      simpa [Tree.operands, Phrase.places, Expr.constant,
        Expr.referenceIndices] using located_nil i []
  | none => exact located_nil _ _
  | last _ ih =>
      rw [Phrase.places, List.flatMap_singleton]
      exact ih
  | more _ _ _ ihFirst ihRest =>
      rw [Phrase.places, List.flatMap_cons, Tree.operands,
        List.filterMap_append]
      exact ihFirst.append ihRest
  | plain _ ih | unsigned _ ih | operand _ _ ih | given _ ih
  | some _ _ ih => exact ih

end

end Parse

------------------------------------------------------------
-- Whole Formulas
------------------------------------------------------------

namespace Formula

/-
  The references in a text, and those of them that its formula
  has places of; none if the text cannot be read.
-/
inductive Cites (cs : List Char) (anchor : Point) :
    References → References → Prop where
  | unreadable
      {err : ParseError}
      (hError : Expr.ofChars? (body cs) anchor = .error err) :
      Cites cs anchor [] []
  | readable
      {ts : List Token}
      {tree : Parse.Tree}
      (hLex : Token.lex (body cs) = .ok ts)
      (hTree :
        Expr.IsDerivation (body cs) anchor ts tree (read cs anchor)) :
      Cites cs anchor
        (ts.filterMap (·.reference? anchor))
        (tree.operands.filterMap (·.reference? anchor))

/- A formula lists the references of its text. -/
theorem exists_located (cs : List Char) (anchor : Point) :
    ∃ cited,
      Cites cs anchor (read cs anchor).2 cited ∧
        Parse.Located 0 (read cs anchor).2 cited
          (read cs anchor).1.referenceIndices := by
  cases hChars : Expr.ofChars? (body cs) anchor with
  | error err =>
      have hRead :
          read cs anchor = (.unreadable .badFormula (body cs), []) := by
        rw [read, hChars]
      rw [hRead]
      refine ⟨[], .unreadable hChars, ?_⟩
      rw [Expr.unreadable, Expr.referenceIndices_leaf]
      exact Parse.located_nil 0 []
  | ok found =>
      have hRead : read cs anchor = found := by rw [read, hChars]
      cases hLex : Token.lex (body cs) with
      | error err =>
          rw [Expr.ofChars?, hLex] at hChars
          cases hChars
      | ok ts =>
          rw [Expr.ofChars?, hLex] at hChars
          rcases (Expr.ofTokens?_eq_ok hLex).mp hChars with
            ⟨tree, hYield, hDerives⟩
          have hTree :
              Expr.IsDerivation (body cs) anchor ts tree
                (read cs anchor) := by
            rw [hRead]
            exact ⟨hYield, hDerives⟩
          have hRefs :
              ts.filterMap (·.reference? anchor) =
                (read cs anchor).2 := by
            rw [← Token.filterMap_reference?_solid, solid,
              ← hTree.yield]
            exact hTree.derives.references
          have hCites := Cites.readable hLex hTree
          rw [hRefs] at hCites
          exact ⟨_, hCites, hTree.derives.located⟩

open Adjustment (applyAll descend)

/-
  The places of references in a formula increase from the left
  and are places of its list. They stay so when the list is
  adjusted: each one holds what the adjustments made of the
  reference that it was read from. Any list keeps its length
  and its order, illegal references stay, and an adjustment
  returns no list exactly if it changes no reference.
-/
theorem places_denote_descendants (cs : List Char) (anchor : Point) :
    (read cs anchor).1.referenceIndices.Pairwise (· < ·) ∧
      (∀ i ∈ (read cs anchor).1.referenceIndices,
        i < (read cs anchor).2.length) ∧
      (∃ cited,
        Cites cs anchor (read cs anchor).2 cited ∧
          ∀ as,
            (read cs anchor).1.referenceIndices.map
                ((applyAll as (read cs anchor).2)[·]?) =
              cited.map fun r => some (descend as r)) ∧
      (∀ as refs,
        (applyAll as refs).length = refs.length ∧
          (∀ i : Nat,
            (applyAll as refs)[i]? = refs[i]?.map (descend as)) ∧
          ∀ i : Nat,
            refs[i]? = some .illegal →
              (applyAll as refs)[i]? = some .illegal) ∧
      ∀ (a : Adjustment) (refs : References),
        a.list? refs = none ↔ refs.map a.descendant = refs := by
  rcases exists_located cs anchor with ⟨cited, hCites, hLocated⟩
  refine ⟨hLocated.increasing, hLocated.lt_length,
    ⟨cited, hCites, fun as => ?_⟩,
    fun as refs => ⟨?_, ?_, ?_⟩, ?_⟩
  · calc
      _ = ((read cs anchor).1.referenceIndices.map
            ((read cs anchor).2[·]?)).map (·.map (descend as)) := by
          rw [List.map_map]
          refine List.map_congr_left fun i _ => ?_
          exact Adjustment.getElem?_applyAll as _ i
      _ = _ := by
          rw [hLocated.getElem?, List.map_map]
          rfl
  · exact Adjustment.length_applyAll as refs
  · exact Adjustment.getElem?_applyAll as refs
  · intro i hIllegal
    rw [Adjustment.getElem?_applyAll, hIllegal, Option.map_some,
      Adjustment.descend_illegal]
  · exact fun a refs => Adjustment.list?_eq_none_iff

/- A call that is kept as text leaves its references behind. -/
example :
    (read "NO(A1)+B2".toList ⟨0, 0⟩).1.referenceIndices = [1] := by
  cbv

end Formula

end Spreadsheet
