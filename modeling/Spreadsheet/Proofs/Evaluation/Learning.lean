import Spreadsheet.Proofs.Evaluation.Demands

/-
  What a node knows, it still knows after an operand was
  visited, and the value that it leaves stands only for cells
  that it refers to.

  Main declarations:
    * `Site.Knows.first`
    * `Site.Knows.after`
    * `Site.Knows.leave`
-/

namespace Spreadsheet

open Registers

namespace Site

variable {s u : Site} {Held : Site → Prop} {bracketed : Bool}
variable {op : Operation} {args : List Expr} {r₀ r r' : Registers}
variable {i : Nat} {n : Notes} {a : Expr}

------------------------------------------------------------
-- Aggregates
------------------------------------------------------------

section

variable {f : Aggregate} {e : Expr} {offset : Point}

/- The turn after an operand was visited. -/
theorem Turn.after
    (hTurn : s.Turn Held f args i r.offset)
    (hArg : args[i]? = some a)
    (hNeeded : r.suppressed = false)
    (hLeft : r.Left s a r')
    (hCame : Came Held a r r') :
    s.Turn Held f args
      (f.turnAfter r'.extent i r'.offset r'.value).1
      (f.turnAfter r'.extent i r'.offset r'.value).2 := by
  rw [hLeft.extent, hLeft.offset]
  exact .next hTurn hArg (hCame.yields hNeeded)

/- An operand that was not taken all at once. -/
theorem Turn.nextElement
    (hTurn :
      s.Turn Held f args
        (f.turnAfter r'.extent i r'.offset r'.value).1
        (f.turnAfter r'.extent i r'.offset r'.value).2)
    (hPart : f.takesWhole r'.value = false) :
    (∃ p, r'.nextElement = (.repeatChild, { r' with offset := p }) ∧
        s.Turn Held f args i p) ∨
      r'.nextElement =
          (.proceed, { r' with offset := Point.zero }) ∧
        s.Turn Held f args (i + 1) Point.zero := by
  rw [Aggregate.turnAfter, if_neg (by simp [hPart])] at hTurn
  unfold Registers.nextElement
  cases hNext : r'.extent.next? r'.offset with
  | some p =>
      rw [hNext] at hTurn
      exact Or.inl ⟨p, rfl, hTurn⟩
  | none =>
      rw [hNext] at hTurn
      exact Or.inr ⟨rfl, hTurn⟩

/- An operand that was. -/
theorem Turn.proceed
    (hTurn :
      s.Turn Held f args
        (f.turnAfter r'.extent i r'.offset r'.value).1
        (f.turnAfter r'.extent i r'.offset r'.value).2)
    (hWhole : f.takesWhole r'.value = true) :
    s.Turn Held f args (i + 1) r'.offset := by
  rwa [Aggregate.turnAfter, if_pos hWhole] at hTurn

theorem continues_aggregate
    (hOther : f ≠ .sumProduct)
    (m : AggregateNotes)
    (hTurn :
      s.Turn Held f args
        (f.turnAfter r'.extent i r'.offset r'.value).1
        (f.turnAfter r'.extent i r'.offset r'.value).2) :
    Continues args.length (s.Learned Held e args offset) i
      (Notes.lift (.aggregate f) (m.afterOperand f u r')) := by
  have hEnd :
      ∀ n r, s.Learned Held e args offset args.length
        (.aggregate f n) r := fun n r hLess =>
    absurd hLess (Nat.lt_irrefl _)
  -- after one element, and after all of them
  have hElement :
      f.takesWhole r'.value = false → ∀ fold,
        Continues args.length (s.Learned Held e args offset) i
          (Notes.lift (.aggregate f) (m.afterElement fold r')) := by
    intro hPart fold
    unfold AggregateNotes.afterElement
    cases fold with
    | error e => exact .skipAll (hEnd _ _)
    | ok fold =>
        dsimp only
        rcases hTurn.nextElement hPart with
          ⟨p, hEq, hNext⟩ | ⟨hEq, hNext⟩
        · rw [hEq]
          exact .repeats fun _ => hNext
        · rw [hEq]
          exact .proceed fun _ => hNext
  have hAll :
      f.takesWhole r'.value = true → ∀ fold,
        Continues args.length (s.Learned Held e args offset) i
          (Notes.lift (.aggregate f) (m.afterAll fold r')) := by
    intro hWhole fold
    unfold AggregateNotes.afterAll
    cases fold with
    | error e => exact .skipAll (hEnd _ _)
    | ok fold => exact .proceed fun _ => hTurn.proceed hWhole
  unfold AggregateNotes.afterOperand
  split
  · exact .skipAll (hEnd _ _)
  · cases m.fold with
    | error e => exact .skipAll (hEnd _ _)
    | ok fold =>
        dsimp only
        unfold AggregateNotes.foldOperand
        cases hValue : r'.value with
        | scalar v => exact hElement (by rw [hValue]; rfl) _
        | array v => exact hAll (by rw [hValue]; rfl) _
        | cell p =>
            have hPart : f.takesWhole r'.value = false := by
              rw [hValue]
              exact beq_false_of_ne hOther
            dsimp only
            rcases
              (read_spec trivial :
                Gives u (fun _ => True) r' (r'.read u p))
              with
              ⟨v, hEq⟩ | ⟨r'', hEq, -⟩
            · rw [hEq]
              exact hElement hPart _
            · rw [hEq]
              exact .pause
        | area v =>
            have hWhole : f.takesWhole r'.value = true := by
              rw [hValue]
              rfl
            dsimp only
            have hSettles :
                Gathering.Settles u (fun _ => True) _ r'
                  (r'.foldArea u v (Fold.addIndirect f) fold) :=
              foldArea_spec r' (fun _ => trivial)
                (Fold.addIndirect f) fold
            generalize r'.foldArea u v (Fold.addIndirect f) fold =
              sweep at hSettles
            rcases sweep with ⟨t | e | t, r''⟩
            · cases hSettles
              exact hAll hWhole _
            · cases hSettles.1
              exact hAll hWhole _
            · exact .pause

theorem continues_product
    (m : ProductNotes)
    (hTurn :
      s.Turn Held .sumProduct args
        (Aggregate.sumProduct.turnAfter r'.extent i r'.offset
          r'.value).1
        (Aggregate.sumProduct.turnAfter r'.extent i r'.offset
          r'.value).2)
    (hNotes : m.Within (s.Demands Held e offset))
    (hWithin :
      r'.suppressed = false →
        r'.value.Within (s.Demands Held e offset)) :
    Continues args.length (s.Learned Held e args offset) i
      (Notes.lift .product (m.afterOperand u i r')) := by
  unfold ProductNotes.afterOperand
  split
  · exact
      .skipAll ⟨fun hLess => absurd hLess (Nat.lt_irrefl _), hNotes⟩
  · rename_i hNeeded
    replace hWithin := hWithin (by simpa using hNeeded)
    cases hValue : r'.value with
    | array v =>
        refine .proceed
          ⟨fun _ => hTurn.proceed ?_,
            ProductNotes.within_note hNotes trivial⟩
        rw [hValue]
        rfl
    | area v =>
        rw [hValue] at hWithin
        refine .proceed
          ⟨fun _ => hTurn.proceed ?_,
            ProductNotes.within_note hNotes fun h => hWithin h⟩
        rw [hValue]
        rfl
    | cell p =>
        dsimp only
        rcases
          (read_spec trivial :
            Gives u (fun _ => True) r' (r'.read u p))
          with
          ⟨v, hEq⟩ | ⟨r'', hEq, -⟩
        · rw [hEq]
          refine .proceed
            ⟨fun _ => hTurn.proceed ?_,
              ProductNotes.within_note hNotes trivial⟩
          rw [hValue]
          rfl
        · rw [hEq]
          exact .pause
    | scalar v =>
        dsimp only
        have hNoted :=
          ProductNotes.within_note (i := i) hNotes
            (Factor.within_extend _ v r' (m.factor i))
        rcases hTurn.nextElement (by rw [hValue]; rfl) with
          ⟨p, hEq, hNext⟩ | ⟨hEq, hNext⟩
        · rw [hEq]
          exact .repeats ⟨fun _ => hNext, hNoted⟩
        · rw [hEq]
          exact .proceed ⟨fun _ => hNext, hNoted⟩

end

------------------------------------------------------------
-- Choices
------------------------------------------------------------

theorem continues_choice
    {f : Choice}
    {m : ChoiceNotes}
    (hChooses : s.Chooses bracketed f args r₀ i m r)
    (hNeeded : r₀.suppressed = false)
    (hLearned :
      s.Learned Held (.apply bracketed (.choice f) args) args
        r₀.offset i (.choice f args.length m) r)
    (hArg : args[i]? = some a)
    (hBrings : s.Brings Held a r r')
    (hCame : Came Held a r r')
    (hWithin :
      r.suppressed = false →
        r'.value.Within
          (s.Demands Held (.apply bracketed (.choice f) args)
            r₀.offset))
    (hHeld : Held u) :
    Continues args.length
      (s.Learned Held (.apply bracketed (.choice f) args) args
        r₀.offset)
      i
      (Notes.lift (.choice f args.length)
        (m.afterOperand f args.length u i r')) := by
  rcases hLearned with ⟨hValue, hSelects⟩
  unfold ChoiceNotes.afterOperand
  split
  · -- the first operand selects
    rename_i hZero
    subst hZero
    have hInside : r.suppressed = false := by
      simpa [hNeeded] using hChooses.suppressed
    have hShows :
        ∀ v, (r'.result u).1 = some v → Shows Held a r₀.offset v := by
      intro v hResult
      rw [← hChooses.offset]
      exact hCame.shows hInside hHeld hResult
    unfold ChoiceNotes.afterSelector Registers.reduce
    rw [if_neg (by simp [hBrings.left.suppressed, hInside])]
    generalize r'.result u = res at hShows
    rcases res with ⟨- | v, r''⟩
    · exact .pause
    · refine .proceed ⟨?_, fun j hj => ⟨a, v, hArg, hShows v rfl, ?_⟩⟩
      · change (m.noteSelection _).value.Within _
        unfold ChoiceNotes.noteSelection
        split
        · exact hValue
        · trivial
      · rw [← hj]
        change _ = (m.noteSelection _).selection
        unfold ChoiceNotes.noteSelection
        split <;> rfl
  · rename_i hNotFirst
    have hPos : 0 < i := by omega
    unfold ChoiceNotes.afterAlternative
    dsimp only
    rw [hChooses.outside, hNeeded, if_neg (by simp)]
    refine .proceed ⟨?_, hSelects⟩
    change (if _ then r'.value else m.value).Within _
    split
    · rename_i hSelected
      refine hWithin ?_
      rw [hChooses.suppressed, hNeeded, hSelected]
      simp
    · exact hValue

------------------------------------------------------------
-- All Nodes
------------------------------------------------------------

/- All sheets that are seen treat the operands alike. -/
theorem handles_of_held
    (hAlike : ∀ {u}, Held u → s.Alike u)
    (hProper : (Expr.apply bracketed op args).Proper)
    (hHeld : Held u)
    (r₀ : Registers) :
    u.Handles (Left s) bracketed op args r₀
      (s.Tracks bracketed op args r₀) := by
  have hSame := hAlike hHeld
  cases hProper with
  | apply _ hCount hArgs =>
      rw [← hSame.left, ← hSame.tracks_eq]
      exact
        handles_tracks hCount
          (fun a ha => u.one_fits_extent (hArgs a ha)) r₀

/- Nothing is known of operands that were not visited. -/
theorem Knows.bare
    (hAlike : ∀ {u}, Held u → s.Alike u)
    (hProper : (Expr.apply bracketed op args).Proper)
    (hHeld : Held u)
    (hNone : args = []) :
    s.Knows Held bracketed op args r₀ 0 (.ofOperation args.length op)
      r₀ := by
  refine
    ⟨(handles_of_held hAlike hProper hHeld r₀).bare hNone,
      fun _ => ?_⟩
  have hVacuous : ∀ {P : Prop}, 0 < args.length → P := by
    intro P hSome
    simp [hNone] at hSome
  cases op with
  | infixOp _ | negate | percent | elementwise _ => trivial
  | choice f => exact ⟨trivial, fun j hj => nomatch hj⟩
  | aggregate f =>
      cases f with
      | sumProduct =>
          refine ⟨hVacuous, fun i a ha => ?_⟩
          simp [ProductNotes.factor, ProductNotes.start] at ha
      | _ => exact hVacuous

theorem Knows.first
    (hAlike : ∀ {u}, Held u → s.Alike u)
    (hProper : (Expr.apply bracketed op args).Proper)
    (hHeld : Held u)
    (hSome : args ≠ []) :
    s.Knows Held bracketed op args r₀ 0
      ((Notes.ofOperation args.length op).beforeOperands r₀).1
      ((Notes.ofOperation args.length op).beforeOperands r₀).2 := by
  refine
    ⟨(handles_of_held hAlike hProper hHeld r₀).before hSome,
      fun _ => ?_⟩
  cases op with
  | infixOp _ | negate | percent | elementwise _ => trivial
  | choice f => exact ⟨trivial, fun j hj => nomatch hj⟩
  | aggregate f =>
      cases f with
      | sumProduct =>
          refine ⟨fun _ => .first, fun i a ha => ?_⟩
          simp [ProductNotes.factor, ProductNotes.start] at ha
      | _ => exact fun _ => .first

/- What is known whatever a node does next. -/
theorem Answers.continues
    {covers : Point → Prop}
    {Inv : Nat → Notes → Registers → Prop}
    {Keeps : Nat → Notes → Registers → Prop}
    {res : Response Notes}
    (hAnswers : Answers s covers args Inv r₀ r i a res)
    (hKeeps : ∀ j, Keeps j res.2.1 res.2.2) :
    Continues args.length Keeps i res := by
  cases hAnswers with
  | pause _ => exact .pause
  | proceed _ => exact .proceed (hKeeps _)
  | skipAll _ => exact .skipAll (hKeeps _)
  | repeats _ _ => exact .repeats (hKeeps _)

/- A node knows as much after an operand as it did before. -/
theorem Knows.after
    (hAlike : ∀ {u}, Held u → s.Alike u)
    (hProper : (Expr.apply bracketed op args).Proper)
    (hHeld : Held u)
    (hArg : args[i]? = some a)
    (hKnows : s.Knows Held bracketed op args r₀ i n r)
    (hBrings : s.Brings Held a r r')
    (hCame : Came Held a r r') :
    Answers u (u.Reads (.apply bracketed op args)) args
      (s.Knows Held bracketed op args r₀) r₀ r i a
      (n.afterOperand u i r') := by
  have hAnswers :=
    (handles_of_held hAlike hProper hHeld r₀).after hArg hKnows.1
      hBrings.left
  refine hAnswers.learn fun hNeeded => ?_
  have hIn := (List.getElem?_eq_some_iff.mp hArg).1
  have hWithin :
      r.suppressed = false →
        r'.value.Within
          (s.Demands Held (.apply bracketed op args) r₀.offset) :=
    fun hInside =>
      (hBrings.known hInside).imp (hKnows.demands hArg hInside).2
  rcases hKnows with ⟨hTracks, hLearned⟩
  replace hLearned := hLearned hNeeded
  cases op with
  | infixOp _ | negate | percent | elementwise _ =>
      rcases hTracks with ⟨m, rfl, -, -⟩
      exact hAnswers.continues fun _ => trivial
  | choice f =>
      rcases hTracks with ⟨m, rfl, hChooses⟩
      exact
        continues_choice hChooses hNeeded hLearned hArg hBrings hCame
          hWithin hHeld
  | aggregate f =>
      cases f with
      | sumProduct =>
          rcases hTracks with ⟨m, rfl, hOutside, -⟩
          have hInside := hOutside.suppressed.trans hNeeded
          exact
            continues_product m
              ((hLearned.1 hIn).after hArg hInside hBrings.left hCame)
              hLearned.2 fun _ => hWithin hInside
      | _ =>
          rcases hTracks with ⟨m, rfl, hOutside⟩
          have hInside := hOutside.suppressed.trans hNeeded
          exact
            continues_aggregate (by simp) m
              ((hLearned hIn).after hArg hInside hBrings.left hCame)

/- The value that a node leaves stands for no other cells. -/
theorem Knows.leave
    (hAlike : ∀ {u}, Held u → s.Alike u)
    (hProper : (Expr.apply bracketed op args).Proper)
    (hHeld : Held u)
    (hKnows : s.Knows Held bracketed op args r₀ args.length n r) :
    Leaves u (s.Brings Held) (.apply bracketed op args) r₀
      (n.leave u r) := by
  have hLeaves :=
    (handles_of_held hAlike hProper hHeld r₀).leave hKnows.1
  refine hLeaves.learn fun hNeeded n' r' hEq => ?_
  have hScalar :
      ∀ {r : Registers} {v size}, r.suppressed = false →
        (r.publishScalar v size).value.Within
          (s.Demands Held (.apply bracketed op args) r₀.offset) := by
    intro r v size hInside
    rw [value_publishScalar hInside]
    trivial
  rcases hKnows with ⟨hTracks, hLearned⟩
  replace hLearned := hLearned hNeeded
  cases op with
  | infixOp _ | negate | percent | elementwise _ =>
      rcases hTracks with ⟨m, rfl, hKeeps, -⟩
      cases hEq
      exact hScalar (hKeeps.suppressed.trans hNeeded)
  | choice f =>
      rcases hTracks with ⟨m, rfl, hChooses⟩
      cases hEq
      unfold ChoiceNotes.leave
      dsimp only
      rw [hChooses.outside, hNeeded, if_neg (by simp)]
      exact hLearned.1.narrow _ _
  | aggregate f =>
      cases f with
      | sumProduct =>
          rcases hTracks with ⟨m, rfl, hOutside, -⟩
          have hInside := hOutside.suppressed.trans hNeeded
          change Notes.lift .product (m.leave u r) = _ at hEq
          unfold ProductNotes.leave at hEq
          rw [if_neg (by simp [hInside])] at hEq
          rcases ProductNotes.compute_spec (s := u) hLearned.2 r with
            ⟨total, hTotal⟩ | ⟨r'', hNone, -⟩
          · rw [hTotal] at hEq
            cases hEq
            exact hScalar hInside
          · rw [hNone] at hEq
            cases hEq
      | _ =>
          rcases hTracks with ⟨m, rfl, hOutside⟩
          cases hEq
          exact hScalar (hOutside.suppressed.trans hNeeded)

end Site

end Spreadsheet
