import Mathlib
import Spreadsheet.Proofs.Decimal.PrintsBack
import Spreadsheet.Proofs.Expr.Canonical
import Spreadsheet.Proofs.Reference.Areas

/-
  Entering a canonical text again.

  The canonical text of a formula that can be read is read as
  an equal expression, so it is the text of what it is read as.
  A text that cannot be read is kept as it is, less one leading
  `=`. If another one is left, then it is dropped when the text
  is entered again, and the text is no longer the same.

  Main declarations:
    * `Expr.Same.source_eq`
    * `Parse.Reads.onSheet`
    * `Formula.canonical`
    * `Formula.canonical_fixed_iff`
-/

namespace Spreadsheet

------------------------------------------------------------
-- Texts Of Equal Contents
------------------------------------------------------------

/- Equal numbers are spelled alike, zeros of both signs too. -/
theorem numberText_eq_of_beq
    {x y : Float}
    (hSame : (x == y) = true) :
    numberText x = numberText y := by
  rcases Float.beq_iff_ne_nan_and_eq.mp hSame with
    ⟨-, -, rfl | ⟨rfl, rfl⟩ | ⟨rfl, rfl⟩⟩
  · rfl
  · rfl
  · rfl

theorem Scalar.source_eq_of_same
    {v w : Scalar}
    (hSame : v.same w = true) :
    v.source = w.source := by
  unfold same at hSame
  split at hSame
  · rfl
  · rw [beq_iff_eq.mp hSame]
  · exact congrArg String.toList (numberText_eq_of_beq hSame)
  · rw [beq_iff_eq.mp hSame]
  · rw [beq_iff_eq.mp hSame]
  · cases hSame

namespace ScalarArray

variable {a b : ScalarArray}

theorem Same.source_get?
    (hSame : a.Same b)
    (p : Point) :
    (a.get? p).map Scalar.source = (b.get? p).map Scalar.source := by
  rcases hSame with ⟨hSize, hData⟩
  unfold get?
  rw [hSize]
  split
  · have hTexts :
        a.data.toList.map Scalar.source =
          b.data.toList.map Scalar.source := by
      rw [← List.forall₂_eq_eq_eq, List.forall₂_map_left_iff,
        List.forall₂_map_right_iff]
      exact hData.imp fun v w => Scalar.source_eq_of_same
    rw [← Array.getElem?_toList, ← Array.getElem?_toList,
      ← List.getElem?_map, ← List.getElem?_map, hTexts]
  · rfl

/- Arrays of equal contents are spelled alike. -/
theorem Same.source_eq
    (hSame : a.Same b) :
    a.source = b.source := by
  have hRow (y : Nat) :
      (a.row y).map Scalar.source = (b.row y).map Scalar.source := by
    rw [row, row, List.map_filterMap, List.map_filterMap, hSame.1]
    congr 1
    funext x
    exact hSame.source_get? ⟨x, y⟩
  simp only [source, rows, List.map_map, Function.comp_def, hRow,
    hSame.1]

end ScalarArray

theorem Leaf.source_eq_of_same
    {l l' : Leaf}
    (hSame : l.Same l')
    (refs : References)
    (anchor : Point) :
    l.source refs anchor = l'.source refs anchor := by
  unfold Same at hSame
  split at hSame
  · exact Scalar.source_eq_of_same hSame
  · exact ScalarArray.Same.source_eq hSame
  · rw [hSame]

/- Expressions that are equal but for equal contents. -/
theorem Expr.Same.source_eq
    {e e' : Expr}
    (hSame : e.Same e')
    (refs : References)
    (anchor : Point) :
    e.source refs anchor = e'.source refs anchor := by
  induction e using Expr.source.induct generalizing e' with
  | case1 bracketed l =>
      cases hSame with
      | leaf _ hLeaf =>
          rw [source, source, Leaf.source_eq_of_same hLeaf]
  | case2 bracketed op args ih =>
      cases hSame with
      | apply _ _ hArgs =>
          rename_i args'
          have hTexts :
              args.map (source refs anchor) =
                args'.map (source refs anchor) := by
            induction hArgs with
            | nil => rfl
            | cons hArg hArgs ihArgs =>
                rw [List.map_cons, List.map_cons,
                  ih _ List.mem_cons_self hArg,
                  ihArgs fun e he => ih e (List.mem_cons_of_mem _ he)]
          rw [source, source, hTexts]

------------------------------------------------------------
-- References That Are Read
------------------------------------------------------------

/- A reference is on the sheet as seen from where it is read. -/
theorem Reference.onSheet_of_read?
    {cs : List Char}
    {anchor : Point}
    {r : Reference}
    (hRead : read? cs anchor = some r) :
    r.onSheet anchor = true := by
  have hRel := rel_read? cs anchor maxSize
  rw [hRead] at hRel
  generalize Address.readArea? cs maxSize = a at hRel
  cases hRel with
  | some hMeans => exact hMeans.1

theorem Parse.Reads.onSheet
    {anchor : Point}
    {phrase : Phrase}
    {us : List Segment}
    {i : Nat}
    {rs : References}
    (hReads : Reads anchor phrase us i rs) :
    ∀ r ∈ rs, r.onSheet anchor = true := by
  induction hReads with
  | reference hKind hRead =>
      simpa using Reference.onSheet_of_read? hRead
  | operator hLeft hKind hSymbol hRight hBinding ihLeft ihRight =>
      rw [List.forall_mem_append]
      exact ⟨ihLeft, ihRight⟩
  | more hFirst hKind hRest ihFirst ihRest =>
      rw [List.forall_mem_append]
      exact ⟨ihFirst, ihRest⟩
  | constant | name | array | omitted | none => exact nofun
  | _ => assumption

------------------------------------------------------------
-- Texts Entered Again
------------------------------------------------------------

namespace Formula

/- The canonical text of a formula, as seen from its cell. -/
def canonical (cs : List Char) (anchor : Point) : List Char :=
  let (e, refs) := read cs anchor
  e.source refs anchor

variable {cs : List Char} {anchor : Point}

theorem canonical_of_ok
    {e : Expr}
    {refs : References}
    (hRead : Expr.ofChars? (body cs) anchor = .ok (e, refs)) :
    canonical cs anchor = e.source refs anchor := by
  rw [canonical, read, hRead]

theorem canonical_of_error
    {fault : ParseError}
    (hRead : Expr.ofChars? (body cs) anchor = .error fault) :
    canonical cs anchor = body cs := by
  rw [canonical, read, hRead]
  simp [Expr.unreadable, Expr.source, Expr.enclose, Leaf.source]

theorem body_of_head?_ne
    (hHead : cs.head? ≠ some '=') :
    body cs = cs := by
  unfold body
  split
  · exact absurd rfl hHead
  · rfl

theorem head?_ne_of_body
    (hBody : body cs = cs) :
    cs.head? ≠ some '=' := by
  intro hHead
  cases cs with
  | nil => cases hHead
  | cons c cs =>
      cases hHead
      have hLength := congrArg List.length hBody
      simp [body] at hLength

/- The canonical text of what is read is read as its equal. -/
theorem canonical_source
    {source : List Char}
    {e : Expr}
    {refs : References}
    (hRead : Expr.ofChars? source anchor = .ok (e, refs)) :
    (e.source refs anchor).head? ≠ some '=' ∧
      canonical (e.source refs anchor) anchor =
        e.source refs anchor := by
  rcases Expr.ofChars?_eq_ok.mp hRead with
    ⟨us, tail, hSplits, hReads⟩
  rcases hSplits.fits with ⟨ctx', hFits, -⟩
  have hGenuine := Segment.genuine_of_fits hSplits.lays hFits
  have hPortable : e.Portable anchor anchor :=
    Expr.portable_of_numbers (fun _ => rfl) fun _ _ =>
      Decimal.printsBack
  rcases
      hReads.respells hSplits.lays hGenuine List.prefix_rfl
        hReads.onSheet hPortable [] (.inl rfl) with
    ⟨us', e', hSpells, hSame, hReads', -⟩
  have hText : Segment.render us' = e.source refs anchor :=
    hSpells.text
  have hBody := body_render hReads' hSpells.free
  rw [hText] at hBody
  have hSplits' :
      Segment.Splits .start (e.source refs anchor) us' [] :=
    ⟨by rw [hText, List.append_nil], nofun, hSpells.free.lays [] nofun,
      _, hReads'.fits hSpells.free.genuine [], rfl⟩
  have hFound :
      Expr.ofChars? (body (e.source refs anchor)) anchor =
        .ok (e', refs) := by
    rw [hBody, Expr.ofChars?_eq_ok, hBody]
    exact ⟨us', [], hSplits', hReads'⟩
  refine ⟨head?_ne_of_body hBody, ?_⟩
  rw [canonical_of_ok hFound, hSame.source_eq]

/- A leading `=` that is left of a text is dropped with the next. -/
theorem canonical_ne_of_head?
    (hHead : cs.head? = some '=') :
    canonical cs anchor ≠ cs := by
  intro hSame
  cases cs with
  | nil => cases hHead
  | cons c cs =>
      cases hHead
      have hBody : body ('=' :: cs) = cs := rfl
      cases hRead : Expr.ofChars? cs anchor with
      | ok found =>
          rcases found with ⟨e, refs⟩
          have hText : e.source refs anchor = '=' :: cs := by
            rw [← hSame, canonical_of_ok (hBody.symm ▸ hRead)]
          have hOther := (canonical_source hRead).1
          rw [hText] at hOther
          exact hOther rfl
      | error fault =>
          have hText : cs = '=' :: cs :=
            (canonical_of_error (hBody.symm ▸ hRead)).symm.trans hSame
          have hLength := congrArg List.length hText
          simp at hLength

/-
  The text can be read, or no other `=` is left of it once the
  first is dropped.
-/
def Settles (cs : List Char) (anchor : Point) : Prop :=
  (∃ found, Expr.ofChars? (body cs) anchor = .ok found) ∨
    (body cs).head? ≠ some '='

theorem canonical_again
    (hSettles : Settles cs anchor) :
    canonical (canonical cs anchor) anchor = canonical cs anchor := by
  cases hRead : Expr.ofChars? (body cs) anchor with
  | ok found =>
      rcases found with ⟨e, refs⟩
      rw [canonical_of_ok hRead]
      exact (canonical_source hRead).2
  | error fault =>
      unfold Settles at hSettles
      rw [hRead] at hSettles
      have hHead : (body cs).head? ≠ some '=' :=
        hSettles.resolve_left nofun
      have hBody := body_of_head?_ne hHead
      rw [canonical_of_error hRead]
      rw [← hBody] at hRead
      rw [canonical_of_error hRead, hBody]

theorem settles_of_canonical_again
    (hSame :
      canonical (canonical cs anchor) anchor = canonical cs anchor) :
    Settles cs anchor := by
  cases hRead : Expr.ofChars? (body cs) anchor with
  | ok found => exact .inl ⟨found, hRead⟩
  | error fault =>
      rw [canonical_of_error hRead] at hSame
      exact .inr fun hHead => canonical_ne_of_head? hHead hSame

/-
  The canonical text of any text stays the same however often
  it is entered, unless the text cannot be read and is left
  with another leading `=`. A text that cannot be read is kept,
  less one `=`.
-/
theorem canonical_fixed_iff (cs : List Char) (anchor : Point) :
    ((canonical (canonical cs anchor) anchor = canonical cs anchor) ↔
        Settles cs anchor) ∧
      ((∀ n, (canonical · anchor)^[n + 1] cs = canonical cs anchor) ↔
        Settles cs anchor) ∧
        ∀ fault, Expr.ofChars? (body cs) anchor = .error fault →
          canonical cs anchor = body cs := by
  refine ⟨⟨settles_of_canonical_again, canonical_again⟩,
    ⟨fun hAll => settles_of_canonical_again (hAll 1), ?_⟩,
    fun fault => canonical_of_error⟩
  intro hSettles n
  induction n with
  | zero => rfl
  | succ n ih =>
      rw [Function.iterate_succ_apply', ih]
      exact canonical_again hSettles

/- A bracket that cannot be read is kept. -/
theorem canonical_fixed_iff_bracket :
    (canonical ['=', ')'] ⟨0, 0⟩ = [')'] ∧
      ∀ n, (canonical · ⟨0, 0⟩)^[n + 1] ['=', ')'] =
        canonical ['=', ')'] ⟨0, 0⟩) := by
  have hFault :
      (Expr.ofChars? (body ['=', ')']) ⟨0, 0⟩).isOk = false := by
    cbv
  rcases canonical_fixed_iff ['=', ')'] ⟨0, 0⟩ with ⟨-, hAll, hKept⟩
  refine ⟨?_, hAll.mpr (.inr (by decide))⟩
  cases hRead : Expr.ofChars? (body ['=', ')']) ⟨0, 0⟩ with
  | error fault => exact hKept fault hRead
  | ok found =>
      rw [hRead] at hFault
      cases hFault

/- A text of three signs loses one each time it is entered. -/
theorem canonical_again_changes :
    canonical (canonical ['=', '=', '=', '1'] ⟨0, 0⟩) ⟨0, 0⟩ ≠
      canonical ['=', '=', '=', '1'] ⟨0, 0⟩ := by
  have hFirst :
      canonical ['=', '=', '=', '1'] ⟨0, 0⟩ = ['=', '=', '1'] := by
    cbv
  rw [hFirst]
  exact canonical_ne_of_head? rfl

end Formula

end Spreadsheet
