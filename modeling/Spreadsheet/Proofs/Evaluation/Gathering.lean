import Spreadsheet.Proofs.Evaluation.Elements

/-
  What aggregates gather from their arguments.

  Offset by offset, an aggregate has gathered what comes
  before: all earlier arguments, and the current one up to
  its current offset. A rectangle or an array is gathered at
  once, and nothing is gathered twice.

  Main declarations:
    * `Site.Gathers`
    * `Site.computes_aggregate`
    * `Site.Multiplies`
    * `Site.computes_product`
    * `Site.computes_of_regular`
-/

namespace Spreadsheet

open Registers

namespace Site

variable {s : Site} {cells : Point → Scalar} {bracketed : Bool}
variable {op : Operation} {args : List Expr} {r₀ : Registers}

------------------------------------------------------------
-- Aggregates
------------------------------------------------------------

/- What the first operands of a list are gathered from. -/
def itemsBefore
    (s : Site)
    (cells : Point → Scalar)
    (args : List Expr)
    (i : Nat) : List Item :=
  (args.take i).flatMap fun a => (s.spread cells a).items cells

theorem itemsBefore_succ
    {i : Nat}
    {a : Expr}
    (hArg : args[i]? = some a) :
    s.itemsBefore cells args (i + 1) =
      s.itemsBefore cells args i ++ (s.spread cells a).items cells := by
  rw [itemsBefore, List.take_add_one, hArg, List.flatMap_append]
  simp [itemsBefore]

theorem itemsBefore_length
    (s : Site)
    (cells : Point → Scalar)
    (args : List Expr) :
    s.itemsBefore cells args args.length =
      (args.map (s.spread cells)).flatMap (Spread.items cells) := by
  rw [itemsBefore, List.take_length, List.flatMap_map]

/- The items of the first operands come first. -/
theorem exists_itemsBefore
    (s : Site)
    (cells : Point → Scalar)
    (args : List Expr)
    (i : Nat) :
    ∃ after,
      s.itemsBefore cells args args.length =
        s.itemsBefore cells args i ++ after := by
  refine
    ⟨(args.drop i).flatMap fun a => (s.spread cells a).items cells,
      ?_⟩
  rw [itemsBefore, itemsBefore, ← List.flatMap_append,
    List.take_append_drop, List.take_length]

/-
  The offsets of an operand before the current one, at which
  it had single operands, and those after it.
-/
structure Passed
    (a : Spread)
    (p : Point)
    (before after : List Point) : Prop where
  points : (Rect.whole a.extent).points = before ++ p :: after
  single : ∀ q ∈ before, (a.get q).isSingle = true

theorem passed_zero
    {a : Spread}
    (hOne : Size.one.Fits a.extent) :
    ∃ after, Passed a Point.zero [] after := by
  rcases Size.points_eq_cons hOne with ⟨after, hPoints⟩
  exact ⟨after, hPoints, by simp⟩

theorem Passed.contains
    {a : Spread}
    {p : Point}
    {before after : List Point}
    (hPassed : Passed a p before after) :
    ∀ q, q ∈ before ++ p :: after → a.extent.contains q = true := by
  intro q hq
  rw [← hPassed.points, Rect.mem_points, Rect.contains_whole] at hq
  exact hq

/-
  A steady spread that stands for a rectangle at an offset is
  the same one everywhere, and the offset is the first.
-/
theorem Passed.whole
    {a : Spread}
    {p : Point}
    {before after : List Point}
    (hPassed : Passed a p before after)
    (hSteady : a.Steady)
    (hSeveral : (a.get p).isSingle = false) :
    before = [] ∧ p = Point.zero ∧
      ∀ q, a.extent.contains q = true → a.get q = a.get p := by
  have hHere := hPassed.contains p (by simp)
  rcases hSteady with hSingle | ⟨o, hSame⟩
  · rw [hSingle p hHere] at hSeveral
    cases hSeveral
  · have hAll :
        ∀ q, a.extent.contains q = true → a.get q = a.get p := by
      intro q hq
      rw [hSame q hq, hSame p hHere]
    have hNone : before = [] := by
      rw [List.eq_nil_iff_forall_not_mem]
      intro q hq
      have hOther := hPassed.single q hq
      rw [hAll q (hPassed.contains q (by simp [hq])), hSeveral]
        at hOther
      cases hOther
    refine ⟨hNone, ?_, hAll⟩
    have hPoints := hPassed.points
    have hOne : Size.one.Fits a.extent := by
      rw [Size.contains_iff] at hHere
      simp only [Size.Fits, Size.one]
      omega
    rcases Size.points_eq_cons hOne with ⟨rest, hZero⟩
    rw [hNone, List.nil_append, hZero] at hPoints
    exact (List.cons.inj hPoints).1.symm

/- What an aggregate has gathered before an offset. -/
def gathered
    (s : Site)
    (cells : Point → Scalar)
    (f : Aggregate)
    (args : List Expr)
    (i : Nat)
    (here : List Item) : Except ErrorValue Fold :=
  (s.itemsBefore cells args i ++ here).foldlM (Fold.addItem f)
    (.start f)

/-
  What is known at an aggregate: it has failed, or it has
  gathered everything before the current offset.
-/
inductive Gathers
    (s : Site)
    (cells : Point → Scalar)
    (f : Aggregate)
    (args : List Expr)
    (i : Nat)
    (fold : Except ErrorValue Fold)
    (p : Point) : Prop where
  | finished
      (hLast : i = args.length)
      (hFold : fold = s.gathered cells f args i [])
  | within
      {a : Expr}
      {before after : List Point}
      (hArg : args[i]? = some a)
      (hPassed : Passed (s.spread cells a) p before after)
      {t : Fold}
      (hFold : fold = .ok t)
      (hSame :
        s.gathered cells f args i
            (before.map fun q =>
              ((s.spread cells a).get q).itemAt cells q) = .ok t)

/- A failure among the first items is the result. -/
theorem gathered_error
    {f : Aggregate}
    {i : Nat}
    {a : Expr}
    (hArg : args[i]? = some a)
    {here after : List Item}
    (hItems : (s.spread cells a).items cells = here ++ after)
    {e : ErrorValue}
    (hError : s.gathered cells f args i here = .error e) :
    s.gathered cells f args args.length [] = .error e := by
  rcases s.exists_itemsBefore cells args (i + 1) with ⟨rest, hAll⟩
  rw [itemsBefore_succ hArg, hItems] at hAll
  have hSplit :
      s.itemsBefore cells args args.length ++ [] =
        (s.itemsBefore cells args i ++ here) ++ (after ++ rest) := by
    rw [hAll]
    simp
  rw [gathered] at hError ⊢
  rw [hSplit, List.foldlM_append, hError]
  rfl

/- All operands before the next one have been gathered. -/
theorem gathers_next
    (hOne : ∀ a ∈ args, Size.one.Fits (s.spread cells a).extent)
    {f : Aggregate}
    {i : Nat}
    {a : Expr}
    (hArg : args[i]? = some a)
    {t : Fold}
    (hFold :
      s.gathered cells f args i ((s.spread cells a).items cells) =
        .ok t) :
    Gathers s cells f args (i + 1) (.ok t) Point.zero := by
  have hNext : s.gathered cells f args (i + 1) [] = .ok t := by
    rw [gathered, itemsBefore_succ hArg, List.append_nil]
    exact hFold
  have hIn := (List.getElem?_eq_some_iff.mp hArg).1
  cases hMore : args[i + 1]? with
  | none =>
      rw [List.getElem?_eq_none_iff] at hMore
      exact .finished (by omega) hNext.symm
  | some b =>
      rcases passed_zero (hOne b (List.mem_of_getElem? hMore)) with
        ⟨after, hPassed⟩
      exact .within hMore hPassed rfl hNext

/- An operand is gathered at one offset. -/
theorem gathers_element
    (hOne : ∀ a ∈ args, Size.one.Fits (s.spread cells a).extent)
    {f : Aggregate}
    {i : Nat}
    {a : Expr}
    (hArg : args[i]? = some a)
    {r : Registers}
    (hExtent : r.extent = (s.spread cells a).extent)
    {before after : List Point}
    (hPassed : Passed (s.spread cells a) r.offset before after)
    (hSingle : ((s.spread cells a).get r.offset).isSingle = true)
    {t : Fold}
    (hSame :
      s.gathered cells f args i
          (before.map fun q =>
            ((s.spread cells a).get q).itemAt cells q) = .ok t)
    {m : AggregateNotes}
    {result : Except ErrorValue Fold}
    (hResult :
      result =
        t.addItem f
          (((s.spread cells a).get r.offset).itemAt cells r.offset)) :
    Continues args.length
      (fun i n r => ∃ m, n = .aggregate f m ∧
        Gathers s cells f args i m.fold r.offset)
      i (Notes.lift (.aggregate f) (m.afterElement result r)) := by
  have hHere :
      s.gathered cells f args i
          ((before ++ [r.offset]).map fun q =>
            ((s.spread cells a).get q).itemAt cells q) =
        result := by
    rw [gathered] at hSame ⊢
    rw [List.map_append, ← List.append_assoc, List.foldlM_append,
      hSame, hResult]
    exact bind_pure (Fold.addItem f t _)
  have hItems :
      (s.spread cells a).items cells =
        ((before ++ [r.offset]).map fun q =>
          ((s.spread cells a).get q).itemAt cells q) ++
            after.map fun q =>
              ((s.spread cells a).get q).itemAt cells q := by
    rw [Spread.items, hPassed.points, ← List.map_append]
    simp
  cases result with
  | error e =>
      exact
        .skipAll
          ⟨_, rfl, .finished rfl (gathered_error hArg hItems hHere).symm⟩
  | ok t' =>
      have hNext := Size.next?_of_points hPassed.points
      unfold AggregateNotes.afterElement nextElement
      dsimp only
      rw [hExtent, hNext]
      cases after with
      | nil =>
          rw [List.map_nil, List.append_nil] at hItems
          rw [← hItems] at hHere
          exact .proceed ⟨_, rfl, gathers_next hOne hArg hHere⟩
      | cons q after =>
          have hLater :
              Passed (s.spread cells a) q (before ++ [r.offset])
                after := by
            refine ⟨?_, fun o ho => ?_⟩
            · rw [hPassed.points]
              simp
            · rcases List.mem_append.mp ho with hOld | hNew
              · exact hPassed.single o hOld
              · rw [List.mem_singleton.mp hNew]
                exact hSingle
          exact .repeats ⟨_, rfl, .within hArg hLater rfl hHere⟩

/- An operand is gathered as a whole. -/
theorem gathers_all
    (hOne : ∀ a ∈ args, Size.one.Fits (s.spread cells a).extent)
    {f : Aggregate}
    {i : Nat}
    {a : Expr}
    (hArg : args[i]? = some a)
    {r : Registers}
    (hOffset : r.offset = Point.zero)
    {t : Fold}
    (hSame : s.gathered cells f args i [] = .ok t)
    {m : AggregateNotes}
    {result : Except ErrorValue Fold}
    (hResult :
      result =
        ((s.spread cells a).items cells).foldlM (Fold.addItem f) t) :
    Continues args.length
      (fun i n r => ∃ m, n = .aggregate f m ∧
        Gathers s cells f args i m.fold r.offset)
      i (Notes.lift (.aggregate f) (m.afterAll result r)) := by
  have hHere :
      s.gathered cells f args i ((s.spread cells a).items cells) =
        result := by
    rw [gathered, List.append_nil] at hSame
    rw [gathered, List.foldlM_append, hSame, hResult]
    rfl
  cases result with
  | error e =>
      have hError :=
        gathered_error hArg (List.append_nil _).symm hHere
      exact .skipAll ⟨_, rfl, .finished rfl hError.symm⟩
  | ok t' =>
      refine .proceed ⟨_, rfl, ?_⟩
      change Gathers s cells f args (i + 1) (.ok t') r.offset
      rw [hOffset]
      exact gathers_next hOne hArg hHere

theorem computes_aggregate
    {f : Aggregate}
    (hFold :
      Notes.ofOperation args.length (.aggregate f) =
        .aggregate f (.start f))
    (hSpread :
      Operation.spread cells (.aggregate f) = .aggregate cells f)
    (r₀ : Registers)
    (hFits : s.grid.size.Fits maxSize)
    (hSome : 0 < args.length)
    (hProper : ∀ a ∈ args, a.Proper)
    (hSuits : ∀ a ∈ args, (s.spread cells a).Suits f)
    (hReveals : ∀ a ∈ args, s.Reveals cells a) :
    ∃ Inv, s.Handles (Computes s cells) bracketed (.aggregate f) args
      r₀ Inv := by
  have hOne : ∀ a ∈ args, Size.one.Fits (s.spread cells a).extent := by
    intro a ha
    rw [extent_spread s cells (hProper a ha)]
    exact s.one_fits_extent (hProper a ha)
  refine
    ⟨_, (handles_aggregate hFold r₀ hSome).strengthen
      (fun i n r =>
        ∃ m, n = .aggregate f m ∧
          Gathers s cells f args i m.fold r.offset)
      (fun _ => ?_) (fun {i a n r r'} hNeeded hArg hInv => ?_)
      fun {n n' r r'} hNeeded hInv => ?_⟩
  · rw [if_neg (by rintro rfl; simp at hSome), hFold]
    refine ⟨_, rfl, ?_⟩
    have hArg := List.getElem?_eq_getElem hSome
    rcases passed_zero (hOne _ (List.getElem_mem hSome)) with
      ⟨after, hPassed⟩
    exact .within hArg hPassed rfl rfl
  · rintro ⟨m, rfl, hGathers⟩ hComputes
    rcases hInv with ⟨_, hEq, hOutside⟩
    cases hEq
    have hMem := List.mem_of_getElem? hArg
    have hInside := hOutside.suppressed.trans hNeeded
    have hSuppressed := hComputes.left.suppressed.trans hInside
    have hValue := hComputes.known hInside
    have hWithin := hComputes.left.value hInside
    have hOffset := hComputes.left.offset
    have hExtent : r'.extent = (s.spread cells a).extent := by
      rw [extent_spread s cells (hProper a hMem),
        hComputes.left.extent]
    cases hGathers with
    | finished hLast hAll =>
        rw [hLast, List.getElem?_eq_none (le_refl _)] at hArg
        cases hArg
    | within hArg' hPassed hState hSame =>
        rename_i b before after t
        rw [hArg, Option.some.injEq] at hArg'
        subst hArg'
        have hSpans := spans_spread hFits cells (hProper a hMem) r.offset
        rw [← extent_spread s cells (hProper a hMem), ← hValue]
          at hSpans
        rw [← hOffset] at hPassed
        change Continues _ _ _
          (Notes.lift (.aggregate f) (m.afterOperand f s r'))
        unfold AggregateNotes.afterOperand
        rw [if_neg (by simp [hSuppressed]), hState]
        dsimp only
        unfold AggregateNotes.foldOperand
        rw [hOffset] at hPassed
        cases hCase : r'.value with
        | scalar v =>
            rw [hCase] at hValue
            refine
              gathers_element hOne hArg hExtent (hOffset ▸ hPassed)
                ?_ hSame ?_
            · rw [hOffset, ← hValue]
              rfl
            · rw [hOffset, ← hValue]
              rfl
        | cell q =>
            rw [hCase] at hValue hWithin
            dsimp only
            rw [read_eq (hReveals a hMem q hWithin)]
            refine
              gathers_element hOne hArg hExtent (hOffset ▸ hPassed)
                ?_ hSame ?_
            · rw [hOffset, ← hValue]
              rfl
            · rw [hOffset, ← hValue]
              rfl
        | array c =>
            rw [hCase] at hValue hSpans
            rcases
              hPassed.whole (hSuits a hMem).steady
                (by rw [← hValue]; rfl) with
              ⟨rfl, hZero, hAll⟩
            rw [← hValue] at hAll
            refine
              gathers_all hOne hArg (hOffset.trans hZero) hSame ?_
            rw [Spread.items_of_array hAll hSpans, List.foldlM_map]
            rfl
        | area c =>
            rw [hCase] at hValue hSpans hWithin
            rcases
              hPassed.whole (hSuits a hMem).steady
                (by rw [← hValue]; rfl) with
              ⟨rfl, hZero, hAll⟩
            rw [← hValue] at hAll
            dsimp only
            rw [foldArea_eq hSpans.2
              (fun q hq => hReveals a hMem q (hWithin hq))]
            have hItems :
                c.points.foldlM
                    (fun t q => t.addIndirect f (cells q)) t =
                  ((s.spread cells a).items cells).foldlM
                    (Fold.addItem f) t := by
              rw [Spread.items_of_area hAll hSpans, List.foldlM_map]
              rfl
            have hGathered :=
              gathers_all hOne hArg (hOffset.trans hZero) hSame
                (m := m) hItems
            obtain ⟨result, hResult⟩ :
                ∃ result,
                  c.points.foldlM
                    (fun t q => t.addIndirect f (cells q)) t =
                      result :=
              ⟨_, rfl⟩
            rw [hResult] at hGathered ⊢
            cases result <;> exact hGathered
  · rintro ⟨m, rfl, hGathers⟩ hLeave
    rcases hInv with ⟨_, hEq, hOutside⟩
    cases hEq
    have hResult : m.fold = s.gathered cells f args args.length [] := by
      cases hGathers with
      | finished _ hAll => exact hAll
      | within hArg _ _ _ =>
          rw [List.getElem?_eq_none (le_refl _)] at hArg
          cases hArg
    have hInside :
        ({ r with offset := m.outside } : Registers).suppressed =
          false :=
      hOutside.suppressed.trans hNeeded
    cases hLeave
    unfold AggregateNotes.leave
    rw [value_publishScalar hInside, hResult, gathered,
      List.append_nil, itemsBefore_length, spread, hSpread]
    rfl

------------------------------------------------------------
-- Sums Of Products
------------------------------------------------------------

end Site

/- A factor stands for a list of scalars. -/
def Factor.Lists
    (cells : Point → Scalar)
    (vs : List Scalar) : Factor → Prop
  | .area r => r.clip = r ∧ r.points.map cells = vs
  | .scalars _ ws => ws.reverse = vs

/- A factor holds the scalars of a spread. -/
structure Factor.Holds
    (cells : Point → Scalar)
    (a : Spread)
    (factor : Factor) : Prop where
  extent : factor.extent = a.extent
  scalars : factor.Lists cells (a.scalars cells)

namespace Site

variable {s : Site} {cells : Point → Scalar} {bracketed : Bool}
variable {op : Operation} {args : List Expr} {r₀ : Registers}

theorem holds_array
    {a : Spread}
    {b : ScalarArray}
    (hGet :
      ∀ p, a.extent.contains p = true → a.get p = .array b)
    (hSize : b.size = a.extent) :
    Factor.Holds cells a (.scalars b.size b.data.toList.reverse) := by
  refine ⟨hSize, ?_⟩
  rw [Factor.Lists, List.reverse_reverse, Spread.scalars_eq_map,
    Spread.items_of_array hGet hSize, List.map_map]
  exact (List.map_id _).symm

theorem holds_area
    {a : Spread}
    {r : Rect}
    (hGet : ∀ p, a.extent.contains p = true → a.get p = .area r)
    (hSpans : (Operand.area r).Spans a.extent) :
    Factor.Holds cells a (.area r) := by
  refine ⟨hSpans.1, hSpans.2, ?_⟩
  rw [Spread.scalars_eq_map, Spread.items_of_area hGet hSpans,
    List.map_map]
  rfl

/- The sum of the products of two factors. -/
theorem sumFactors_eq
    {a b : Spread}
    {first second : Factor}
    (hFirst : first.Holds cells a)
    (hSecond : second.Holds cells b)
    (hExtent : a.extent = b.extent)
    (hShownFirst :
      ∀ r, first = .area r →
        ∀ p, r.contains p = true → s.read p = .value (cells p))
    (hShownSecond :
      ∀ r, second = .area r →
        ∀ p, r.contains p = true → s.read p = .value (cells p))
    (r : Registers) :
    ProductNotes.sumFactors s first second r =
      (some (ProductNotes.sumScalars (a.scalars cells)
        (b.scalars cells)), r) := by
  have hCollect :
      ∀ {c : Spread} {factor : Factor}, factor.Holds cells c →
        (∀ r, factor = .area r →
          ∀ p, r.contains p = true → s.read p = .value (cells p)) →
        factor.collect s r = (some (c.scalars cells), r) := by
    intro c factor hHolds hShown
    cases factor with
    | scalars extent vs =>
        have hLists : vs.reverse = c.scalars cells := hHolds.scalars
        rw [← hLists]
        rfl
    | area d =>
        have hPush :
            ∀ (l : List Point) (vs : List Scalar),
              l.foldlM
                  (fun vs p =>
                    (.ok (cells p :: vs) :
                      Except ErrorValue (List Scalar))) vs =
                .ok ((l.map cells).reverse ++ vs) := by
          intro l
          induction l with
          | nil => exact fun vs => rfl
          | cons p l ih =>
              intro vs
              rw [List.foldlM_cons]
              refine (ih (cells p :: vs)).trans ?_
              simp
        unfold Factor.collect
        dsimp only
        rw [foldArea_eq hHolds.scalars.1 (hShown d rfl), hPush]
        dsimp only [Gathering.settled]
        rw [List.append_nil, List.reverse_reverse, hHolds.scalars.2]
  unfold ProductNotes.sumFactors
  split
  · rename_i c d
    have hSize : c.size = d.size :=
      hFirst.extent.trans (hExtent.trans hSecond.extent.symm)
    unfold ProductNotes.sumAreas
    rw [foldAreas_eq hFirst.scalars.1 hSecond.scalars.1 hSize
      (fun p hp =>
        hp.elim (hShownFirst c rfl p) (hShownSecond d rfl p)),
      hFirst.scalars.2, hSecond.scalars.2]
    have hTotal :
        ((a.scalars cells).zip (b.scalars cells)).foldlM
            (fun total v => ProductNotes.addProduct v.1 v.2 total) 0 =
          ProductNotes.sumScalars (a.scalars cells)
            (b.scalars cells) := rfl
    rw [hTotal]
    cases
      ProductNotes.sumScalars (a.scalars cells)
        (b.scalars cells) <;> rfl
  · rw [hCollect hFirst hShownFirst]
    dsimp only
    rw [hCollect hSecond hShownSecond]

theorem factor_note (m : ProductNotes) (i : Nat) (b : Factor) :
    (m.note i b).factor i = some b := by
  unfold ProductNotes.note ProductNotes.factor
  split <;> rfl

theorem factor_note_of_pos
    (m : ProductNotes)
    {i : Nat}
    (hPos : 0 < i)
    (b : Factor) :
    (m.note i b).factor 0 = m.factor 0 := by
  unfold ProductNotes.note
  rw [if_neg (by omega)]
  rfl

/- A factor is noted for an operand that was gathered. -/
structure Noted
    (s : Site)
    (cells : Point → Scalar)
    (a : Expr)
    (noted : Option Factor)
    (factor : Factor) : Prop where
  noted : noted = some factor
  holds : factor.Holds cells (s.spread cells a)
  within : factor.Within (s.Reads a)

/-
  What is known at a sum of products: the factors before the
  current operand, and its scalars before the current offset.
-/
structure Multiplies
    (s : Site)
    (cells : Point → Scalar)
    (args : List Expr)
    (i : Nat)
    (m : ProductNotes)
    (p : Point) : Prop where
  done :
    ∀ j a, j < i → args[j]? = some a →
      ∃ factor, Noted s cells a (m.factor j) factor
  here :
    ∀ a, args[i]? = some a →
      ∃ before after, Passed (s.spread cells a) p before after ∧
        (before ≠ [] →
          m.factor i =
            some
              (.scalars (s.spread cells a).extent
                (before.map
                  ((s.spread cells a).scalarAt cells)).reverse))

/- The current operand was gathered. -/
theorem Multiplies.next
    (hOne : ∀ a ∈ args, Size.one.Fits (s.spread cells a).extent)
    (hTwo : args.length = 2)
    {i : Nat}
    {m : ProductNotes}
    {p : Point}
    (hKnown : Multiplies s cells args i m p)
    {a : Expr}
    (hArg : args[i]? = some a)
    {factor : Factor}
    (hHolds : factor.Holds cells (s.spread cells a))
    (hWithin : factor.Within (s.Reads a)) :
    Multiplies s cells args (i + 1) (m.note i factor) Point.zero := by
  have hIn := (List.getElem?_eq_some_iff.mp hArg).1
  refine ⟨fun j b hj hOther => ?_, fun b hMore => ?_⟩
  · by_cases hSame : j = i
    · rw [hSame, hArg, Option.some.injEq] at hOther
      rw [hSame, ← hOther]
      exact ⟨factor, factor_note m i factor, hHolds, hWithin⟩
    · obtain rfl : j = 0 := by omega
      rw [factor_note_of_pos m (by omega)]
      exact hKnown.done 0 b (by omega) hOther
  · rcases passed_zero (hOne b (List.mem_of_getElem? hMore)) with
      ⟨after, hPassed⟩
    exact ⟨[], after, hPassed, fun h => absurd rfl h⟩

theorem computes_product
    (r₀ : Registers)
    (hFits : s.grid.size.Fits maxSize)
    (hTwo : args.length = 2)
    (hProper : ∀ a ∈ args, a.Proper)
    (hSuits : ∀ a ∈ args, (s.spread cells a).Suits .sumProduct)
    (hReveals : ∀ a ∈ args, s.Reveals cells a) :
    ∃ Inv, s.Handles (Computes s cells) bracketed
      (.aggregate .sumProduct) args r₀ Inv := by
  have hOne : ∀ a ∈ args, Size.one.Fits (s.spread cells a).extent := by
    intro a ha
    rw [extent_spread s cells (hProper a ha)]
    exact s.one_fits_extent (hProper a ha)
  refine
    ⟨_, (handles_product r₀ (by omega)).strengthen
      (fun i n r =>
        ∃ m, n = .product m ∧ Multiplies s cells args i m r.offset)
      (fun _ => ?_) (fun {i a n r r'} hNeeded hArg hInv => ?_)
      fun {n n' r r'} hNeeded hInv => ?_⟩
  · rw [if_neg (by rintro rfl; simp at hTwo)]
    refine ⟨_, rfl, fun j a hj => absurd hj (Nat.not_lt_zero j),
      fun a ha => ?_⟩
    rcases passed_zero (hOne a (List.mem_of_getElem? ha)) with
      ⟨after, hPassed⟩
    exact ⟨[], after, hPassed, fun h => absurd rfl h⟩
  · rintro ⟨m, rfl, hKnown⟩ hComputes
    rcases hInv with ⟨_, hEq, hOutside, -⟩
    cases hEq
    have hMem := List.mem_of_getElem? hArg
    have hInside := hOutside.suppressed.trans hNeeded
    have hSuppressed := hComputes.left.suppressed.trans hInside
    have hValue := hComputes.known hInside
    have hWithin := hComputes.left.value hInside
    have hOffset := hComputes.left.offset
    have hExtent : r'.extent = (s.spread cells a).extent := by
      rw [extent_spread s cells (hProper a hMem),
        hComputes.left.extent]
    have hSpans := spans_spread hFits cells (hProper a hMem) r.offset
    rw [← extent_spread s cells (hProper a hMem), ← hValue] at hSpans
    rcases hKnown.here a hArg with
      ⟨before, after, hPassed, hBefore⟩
    have hHere := hPassed.contains r.offset (by simp)
    -- an operand that is one rectangle or array
    have hWhole :
        (r'.value).isSingle = false →
          r'.offset = Point.zero ∧
            ∀ q, (s.spread cells a).extent.contains q = true →
              (s.spread cells a).get q = r'.value := by
      intro hSeveral
      rw [hValue] at hSeveral ⊢
      rcases hPassed.whole (hSuits a hMem).steady hSeveral with
        ⟨-, hZero, hAll⟩
      exact ⟨hOffset.trans hZero, hAll⟩
    change Continues _ _ _
      (Notes.lift .product (m.afterOperand s i r'))
    unfold ProductNotes.afterOperand
    rw [if_neg (by simp [hSuppressed])]
    cases hCase : r'.value with
    | area c =>
        rw [hCase] at hSpans hWithin hWhole
        rcases hWhole rfl with ⟨hZero, hAll⟩
        refine .proceed ⟨_, rfl, ?_⟩
        rw [hZero]
        exact
          hKnown.next hOne hTwo hArg (holds_area hAll hSpans)
            fun h => hWithin h
    | array c =>
        rw [hCase] at hSpans hWhole
        rcases hWhole rfl with ⟨hZero, hAll⟩
        refine .proceed ⟨_, rfl, ?_⟩
        rw [hZero]
        exact
          hKnown.next hOne hTwo hArg (holds_array hAll hSpans) trivial
    | cell q =>
        rw [hCase] at hValue hWithin
        dsimp only
        rw [read_eq (hReveals a hMem q hWithin)]
        have hSize :=
          (hSuits a hMem).flat rfl r.offset q hHere hValue.symm
        have hPoints :
            (Rect.whole (s.spread cells a).extent).points =
              [Point.zero] := by
          rw [hSize]
          rfl
        have hZero : r.offset = Point.zero := by
          rw [hSize, Size.contains_iff] at hHere
          simp only [Size.one] at hHere
          ext <;> simp only [Point.zero] <;> omega
        refine .proceed ⟨_, rfl, ?_⟩
        rw [hOffset, hZero]
        refine hKnown.next hOne hTwo hArg ⟨hSize.symm, ?_⟩ trivial
        rw [Factor.Lists, Spread.scalars, hPoints, List.map_singleton,
          Spread.scalarAt, ← hZero, ← hValue]
        rfl
    | scalar v =>
        rw [hCase] at hValue
        dsimp only
        have hScalar :
            (s.spread cells a).scalarAt cells r.offset = v := by
          rw [Spread.scalarAt, ← hValue]
          rfl
        -- the scalars up to this one
        have hFactor :
            Factor.extend v r' (m.factor i) =
              .scalars (s.spread cells a).extent
                ((before ++ [r.offset]).map
                  ((s.spread cells a).scalarAt cells)).reverse := by
          rw [List.map_append, List.map_singleton,
            List.reverse_append, hScalar]
          cases hNone : before with
          | nil =>
              have hZero : r'.offset = Point.zero := by
                rcases Size.points_eq_cons (hOne a hMem) with
                  ⟨rest, hFirst⟩
                have hPoints := hPassed.points
                rw [hNone, List.nil_append, hFirst] at hPoints
                rw [hOffset]
                exact (List.cons.inj hPoints).1.symm
              unfold Factor.extend
              split
              · rw [if_pos hZero, hExtent]
                rfl
              · rw [hExtent]
                rfl
          | cons q rest =>
              have hLater : r.offset ≠ Point.zero := by
                have hPoints := hPassed.points
                rw [hNone] at hPoints
                have hFirst :
                    (Rect.whole (s.spread cells a).extent).points =
                      [] ++ q :: (rest ++ r.offset :: after) :=
                  hPoints
                exact Size.ne_zero_of_points hFirst (by simp)
              rw [hBefore (by simp [hNone]), Factor.extend,
                if_neg (by rwa [hOffset]), hNone]
              rfl
        rw [hFactor]
        have hNext := Size.next?_of_points hPassed.points
        unfold nextElement
        rw [hExtent, hOffset, hNext]
        cases after with
        | nil =>
            refine .proceed ⟨_, rfl, ?_⟩
            refine hKnown.next hOne hTwo hArg ⟨rfl, ?_⟩ trivial
            rw [Factor.Lists, List.reverse_reverse, Spread.scalars,
              hPassed.points]
        | cons q rest =>
            refine .repeats ⟨_, rfl, ?_⟩
            refine ⟨fun j b hj hOther => ?_, fun b hSame => ?_⟩
            · have hIn := (List.getElem?_eq_some_iff.mp hArg).1
              obtain rfl : j = 0 := by omega
              rw [factor_note_of_pos m hj]
              exact hKnown.done 0 b hj hOther
            · rw [hArg, Option.some.injEq] at hSame
              subst hSame
              refine
                ⟨before ++ [r.offset], rest, ⟨?_, fun o ho => ?_⟩,
                  fun _ => factor_note m i _⟩
              · rw [hPassed.points]
                simp
              · rcases List.mem_append.mp ho with hOld | hNew
                · exact hPassed.single o hOld
                · rw [List.mem_singleton.mp hNew, ← hValue]
                  rfl
  · rintro ⟨m, rfl, hKnown⟩ hLeave
    rcases hInv with ⟨_, hEq, hOutside, -⟩
    cases hEq
    obtain ⟨a, b, rfl⟩ := List.length_eq_two.mp hTwo
    rcases hKnown.done 0 a (by simp) rfl with
      ⟨first, hFirst, hHoldsFirst, hWithinFirst⟩
    rcases hKnown.done 1 b (by simp) rfl with
      ⟨second, hSecond, hHoldsSecond, hWithinSecond⟩
    have hInside :
        ({ r with offset := m.outside } : Registers).suppressed =
          false :=
      hOutside.suppressed.trans hNeeded
    have hShown :
        ∀ {c factor}, c ∈ [a, b] → Factor.Within (s.Reads c) factor →
          ∀ d, factor = .area d →
            ∀ p, d.contains p = true → s.read p = .value (cells p) := by
      rintro c factor hMem hThere d rfl p hp
      exact hReveals c hMem p (hThere hp)
    have hCompute :
        m.compute s r =
          (some
            (if (s.spread cells a).extent = (s.spread cells b).extent
              then
              ProductNotes.sumScalars
                ((s.spread cells a).scalars cells)
                ((s.spread cells b).scalars cells)
            else .error .wrongValue), r) := by
      have hFirst' : m.first = some first := hFirst
      have hSecond' : m.second = some second := hSecond
      unfold ProductNotes.compute
      rw [hFirst', hSecond']
      dsimp only
      rw [hHoldsFirst.extent, hHoldsSecond.extent]
      split
      · rename_i hSame
        exact
          sumFactors_eq hHoldsFirst hHoldsSecond hSame
            (hShown (by simp) hWithinFirst)
            (hShown (by simp) hWithinSecond) r
      · rfl
    change Notes.lift .product (m.leave s r) = _ at hLeave
    unfold ProductNotes.leave at hLeave
    rw [if_neg (by simp [hOutside.suppressed.trans hNeeded]),
      hCompute] at hLeave
    cases hLeave
    unfold ProductNotes.publish
    rw [value_publishScalar hInside, spread]
    rfl

------------------------------------------------------------
-- Expressions
------------------------------------------------------------

theorem exists_computes
    (hCount : op.accepts args.length = true)
    (hFits : s.grid.size.Fits maxSize)
    (hProper : ∀ a ∈ args, a.Proper)
    (hSuits :
      ∀ f, op = .aggregate f →
        ∀ a ∈ args, (s.spread cells a).Suits f)
    (hReveals : ∀ a ∈ args, s.Reveals cells a)
    (r₀ : Registers) :
    ∃ Inv, s.Handles (Computes s cells) bracketed op args r₀ Inv := by
  have hOne : ∀ a ∈ args, Size.one.Fits (s.extent a) :=
    fun a ha => s.one_fits_extent (hProper a ha)
  have hWhole := Expr.Proper.apply bracketed hCount hProper
  simp only [Operation.accepts, Bool.and_eq_true, decide_eq_true_eq]
    at hCount
  cases op with
  | infixOp op =>
      have hFew : 2 ≤ args.length := hCount.1
      have hMost : args.length ≤ 2 := of_decide_eq_true hCount.2
      exact computes_infixOp op r₀ hOne (by omega) hReveals
  | negate =>
      have hFew : 1 ≤ args.length := hCount.1
      have hMost : args.length ≤ 1 := of_decide_eq_true hCount.2
      exact
        computes_unary rfl (by simp) rfl r₀ hOne (by omega) hReveals
  | percent =>
      have hFew : 1 ≤ args.length := hCount.1
      have hMost : args.length ≤ 1 := of_decide_eq_true hCount.2
      exact
        computes_unary rfl (by simp) rfl r₀ hOne (by omega) hReveals
  | aggregate f =>
      have hHere := hSuits f rfl
      cases f with
      | sumProduct =>
          have hFew : 2 ≤ args.length := hCount.1
          have hMost : args.length ≤ 2 := of_decide_eq_true hCount.2
          exact
            computes_product r₀ hFits (by omega) hProper hHere hReveals
      | _ =>
          have hSome : 0 < args.length := by
            have hFew := hCount.1
            simp only [Operation.fewest] at hFew
            omega
          exact
            computes_aggregate rfl rfl r₀ hFits hSome hProper hHere
              hReveals
  | elementwise f => exact computes_elementwise f r₀ hReveals
  | choice f =>
      have hSome : 2 ≤ args.length := hCount.1
      exact
        computes_choice f r₀ hOne (by omega) hWhole hReveals

/- Every expression leaves what it means. -/
theorem computes_of_regular
    (hFits : s.grid.size.Fits maxSize)
    {e : Expr}
    (hProper : e.Proper)
    (hRegular : s.Regular cells e)
    (hReveals : s.Reveals cells e)
    {V : Nat}
    (hReach : (s.reach e).area ≤ V) :
    s.Visits (Computes s cells) (e.stepBound V) e := by
  induction hProper with
  | leaf b _ =>
      refine s.visits_leaf b _ (fun r => ⟨left_leaf b _ r, ?_⟩) V
      intro _
      rw [spread]
      rfl
  | @apply b op args hCount hArgs ih =>
      cases hRegular with
      | apply _ hParts hSuits =>
        have hShown : ∀ a ∈ args, s.Reveals cells a :=
          fun a ha p hReads => hReveals p (hReads.apply ha)
        exact
          visits_node hArgs hReach
            (exists_computes hCount hFits hArgs hSuits hShown)
            fun a ha => ih a ha (hParts a ha) (hShown a ha)

end Site

end Spreadsheet
