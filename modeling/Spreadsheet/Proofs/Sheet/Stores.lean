import Spreadsheet.Proofs.Evaluation.Offsets
import Spreadsheet.Proofs.Sheet.Calls

/-
  Which scalars of a result an evaluation stores.

  The extent of a result is cut to the sheet, and checked for
  cells in use, when its first cell is calculated. At later
  offsets the expression is evaluated anew, and the loop goes
  on in the extent that it has then.

  Main declarations:
    * `Sheet.rounds`
    * `Sheet.reserved`
    * `Sheet.StoresReserved`
    * `Sheet.storesReserved_iff`
-/

namespace Spreadsheet

namespace Sheet

------------------------------------------------------------
-- Rounds
------------------------------------------------------------

/-
  The rounds of an evaluation: how it stands at each offset
  at which a scalar is stored, with that scalar.
-/
def rounds
    (id : Handle)
    (f : FormulaCell) :
    Nat → Evaluation → Sheet → List (Evaluation × Scalar)
  | 0, _, _ => []
  | fuel + 1, ev, s =>
      match ev.advance (s.site f) id f.expr with
      | (.ready v, ev) =>
          (ev, v) ::
            match ev.next? with
            | none => []
            | some ev' => rounds id f fuel ev' (s.store id ev v)
      | _ => []

variable {s : Sheet} {id : Handle} {f g : FormulaCell}
variable {ev ev' : Evaluation}

/- What a round comes to in an evaluation that is finished. -/
theorem evaluateFrom_succ
    (hProper : f.expr.Proper)
    (hReady : ev.Ready fun _ => True)
    {n : Nat}
    (hFinished : (s.evaluateFrom id f (n + 1) ev).1 = .finished) :
    ∃ v ev', ev.advance (s.site f) id f.expr = (.ready v, ev') ∧
      ev.Yields (s.site f) id f.expr (fun _ => True) ev' ∧
      (ev'.next? = none ∧
          (∀ m, s.evaluateFrom id f (m + 1) ev =
            (.finished, s.store id ev' v)) ∧
          (∀ m, rounds id f (m + 1) ev s = [(ev', v)]) ∨
        ∃ ev'', ev'.next? = some ev'' ∧
          (∀ m, s.evaluateFrom id f (m + 1) ev =
            (s.store id ev' v).evaluateFrom id f m ev'') ∧
          ∀ m, rounds id f (m + 1) ev s =
            (ev', v) :: rounds id f m ev'' (s.store id ev' v)) := by
  have hAdvances :=
    Evaluation.advance_spec (s := s.site f) id hProper
      (fun _ => True) (fun _ => trivial) hReady
  rw [evaluateFrom] at hFinished
  generalize hRound : ev.advance (s.site f) id f.expr = res
    at hAdvances hFinished
  cases hAdvances with
  | ready v hYields =>
      rename_i ev'
      refine ⟨v, ev', rfl, hYields, ?_⟩
      cases hNext : ev'.next? with
      | none =>
          refine Or.inl ⟨rfl, fun m => ?_, fun m => ?_⟩
          · rw [evaluateFrom, hRound]
            dsimp only
            rw [hNext]
          · rw [rounds, hRound]
            dsimp only
            rw [hNext]
      | some ev'' =>
          refine Or.inr ⟨ev'', rfl, fun m => ?_, fun m => ?_⟩
          · rw [evaluateFrom, hRound]
            dsimp only
            rw [hNext]
          · rw [rounds, hRound]
            dsimp only
            rw [hNext]
  | circular _ _ _ => cases hFinished
  | waiting _ _ => cases hFinished

/- The first round is at the offset where the loop stands. -/
theorem rounds_succ
    (hProper : f.expr.Proper)
    (hReady : ev.Ready fun _ => True)
    {n : Nat}
    (hFinished : (s.evaluateFrom id f (n + 1) ev).1 = .finished) :
    ∃ rest,
      (rounds id f (n + 1) ev s).map (·.1.registers.offset) =
        ev.registers.offset :: rest := by
  rcases evaluateFrom_succ hProper hReady hFinished with
    ⟨v, ev', -, hYields, ⟨-, -, hRounds⟩ | ⟨ev'', -, -, hRounds⟩⟩
  · rw [hRounds, List.map_cons, hYields.offset]
    exact ⟨_, rfl⟩
  · rw [hRounds, List.map_cons, hYields.offset]
    exact ⟨_, rfl⟩

/- The rounds of an evaluation are all that it does. -/
theorem evaluateFrom_eq_foldl
    (hProper : f.expr.Proper)
    {n : Nat}
    (hReady : ev.Ready fun _ => True)
    (hFinished : (s.evaluateFrom id f n ev).1 = .finished) :
    (s.evaluateFrom id f n ev).2 =
      (rounds id f n ev s).foldl
        (fun t round => t.store id round.1 round.2) s := by
  induction n generalizing ev s with
  | zero => rfl
  | succ n ih =>
      rcases evaluateFrom_succ hProper hReady hFinished with
        ⟨v, ev', -, hYields, ⟨-, hRun, hRounds⟩ |
          ⟨ev'', hNext, hRun, hRounds⟩⟩
      · rw [hRun, hRounds]
        rfl
      · rw [hRun] at hFinished ⊢
        rw [hRounds, List.foldl_cons]
        exact ih (Evaluation.ready_next? hYields hNext).1 hFinished

------------------------------------------------------------
-- Single Rounds
------------------------------------------------------------

theorem get?_resize
    (s : Sheet)
    (id : Handle)
    (extent : Size)
    (k : Handle) :
    (s.resize id extent).formulas.get? k =
      if k = id then
        (s.formulas.get? k).map ({ · with extent := extent })
      else s.formulas.get? k := by
  unfold resize
  split
  · rename_i hNone
    split
    · rename_i hSame
      rw [hSame, hNone]
      rfl
    · rfl
  · rename_i f hLive
    split
    · rename_i hExtent
      split
      · rename_i hSame
        rw [hSame, hLive, ← hExtent]
        rfl
      · rfl
    · exact LinkedArena.get?_modify s.formulas id k _

/- A part of the result is stored in a cell of its own. -/
theorem store_part
    (hCoherent : s.Coherent)
    (hLive : s.formulas.get? id = some g)
    (hLater : ev.registers.offset ≠ Point.zero)
    (hIn : g.extent.contains ev.registers.offset = true)
    (v : Scalar) :
    (s.store id ev v).Coherent ∧
      (s.store id ev v).formulas = s.formulas ∧
      (s.store id ev v).size = s.size ∧
      (s.store id ev v).grid.get? =
        Function.update s.grid.get?
          (g.location.add ev.registers.offset.toSize)
          (some (.extension id v)) := by
  have hPoint :
      g.area.contains
          (g.location.add ev.registers.offset.toSize) = true := by
    rw [Size.contains_iff] at hIn
    rw [Rect.contains_iff]
    simp only [FormulaCell.area, Point.add, Point.toSize]
    omega
  have hBeyond :
      g.area.Beyond
        (g.location.add ev.registers.offset.toSize) := by
    refine ⟨hPoint, fun hEq => hLater ?_⟩
    change _ = g.location at hEq
    rw [Point.ext_iff] at hEq ⊢
    simp only [Point.add, Point.toSize, Point.zero] at hEq ⊢
    omega
  have hOn := hCoherent.onSheet_area hLive hPoint
  rcases Slot.parent?_eq_some_iff.mp
      (hCoherent.agrees.covered hLive hBeyond) with
    ⟨w, hCell⟩
  have hUsed := hCoherent.within _ (by rw [hCell]; simp)
  have hStore :
      s.store id ev v =
        { s with
          grid :=
            s.grid.change (Spill.write v)
              (g.location.add ev.registers.offset.toSize) } := by
    rw [store, if_neg hLater, hLive]
  rw [hStore]
  refine ⟨(hCoherent.write id v _).coherent, rfl, ?_, ?_⟩
  · exact Grid.size_change _ hUsed
  · have hRun :=
      congrArg Prod.fst
        (Grid.modifyCell_spec (Spill.lazy_write v) hCoherent.sound
          hOn ()).2
    refine hRun.trans ?_
    simp only [Script.visit, hCell]
    rfl

------------------------------------------------------------
-- Later Rounds
------------------------------------------------------------

/- The extent at the next offset is the one that was reserved. -/
def Keeps
    (s : Sheet)
    (f : FormulaCell)
    (extent : Size)
    (ev : Evaluation) : Prop :=
  if ev.indexed then ev.registers.extent = extent
  else (s.site f).extent f.expr = extent

theorem Keeps.extentAt
    {extent : Size}
    (hKeeps : s.Keeps f extent ev)
    (hLater : ev.registers.offset ≠ Point.zero) :
    ev.extentAt (s.site f) id f.expr = extent := by
  unfold Keeps at hKeeps
  unfold Evaluation.extentAt
  split at hKeeps
  · rename_i hIndexed
    rw [if_pos hIndexed, hKeeps]
  · rename_i hNot
    rw [if_neg hNot, if_neg hLater, hKeeps]

/- It stays so while no more of the sheet is used. -/
theorem Keeps.next
    {t : Sheet}
    {extent : Size}
    {ev'' : Evaluation}
    (hKeeps : s.Keeps f extent ev)
    (hProper : f.expr.Proper)
    (hYields : ev.Yields (s.site f) id f.expr (fun _ => True) ev')
    (hLater : ev.registers.offset ≠ Point.zero)
    (hNext : ev'.next? = some ev'')
    (hSize : t.size = s.size) :
    t.Keeps f extent ev'' := by
  have hExtent := hYields.extent.trans (hKeeps.extentAt hLater)
  rcases Evaluation.ready_next? hYields hNext with
    ⟨-, -, hSame, hIndexed⟩
  unfold Keeps
  split
  · rw [hSame, hExtent]
  · rename_i hNot
    have hFresh : ¬ ev.indexed = true := fun hWas =>
      hNot (hIndexed.trans (hYields.kept hWas))
    rw [Keeps, if_neg hFresh] at hKeeps
    rw [← hKeeps]
    exact
      Site.extent_eq (s := s.site f) (t := t.site f) rfl rfl hSize
        hProper

/-
  Parts of a result are written at some offsets, one in each
  of so many rounds, and nothing else is changed.
-/
structure WritesParts
    (id : Handle)
    (location : Point)
    (points : List Point)
    (s t : Sheet)
    (rounds : List (Evaluation × Scalar)) : Prop where
  offsets : rounds.map (·.1.registers.offset) = points
  formulas : t.formulas = s.formulas
  size : t.size = s.size
  part :
    ∀ round ∈ rounds,
      t.grid.get?
          (location.add round.1.registers.offset.toSize) =
        some (.extension id round.2)
  other :
    ∀ p, (∀ o ∈ points, p ≠ location.add o.toSize) →
      t.grid.get? p = s.grid.get? p

/- Nothing is written. -/
theorem writesParts_nil
    (id : Handle)
    (location : Point)
    (s : Sheet) :
    WritesParts id location [] s s [] :=
  ⟨rfl, rfl, rfl, by simp, fun _ _ => rfl⟩

/- One part is written before all others. -/
theorem WritesParts.cons
    {t : Sheet}
    {points : List Point}
    {rest : List (Evaluation × Scalar)}
    {v : Scalar}
    (hWrites :
      WritesParts id g.location points (s.store id ev v) t rest)
    (hCoherent : s.Coherent)
    (hLive : s.formulas.get? id = some g)
    (hLater : ev.registers.offset ≠ Point.zero)
    (hIn : g.extent.contains ev.registers.offset = true)
    (hNew : ev.registers.offset ∉ points) :
    WritesParts id g.location (ev.registers.offset :: points) s t
      ((ev, v) :: rest) := by
  rcases store_part hCoherent hLive hLater hIn v with
    ⟨-, hFormulas, hSize, hCells⟩
  have hApart :
      ∀ o ∈ points,
        g.location.add ev.registers.offset.toSize ≠
          g.location.add o.toSize := by
    intro o ho hEq
    refine hNew ?_
    rw [Point.ext_iff] at hEq
    simp only [Point.add, Point.toSize] at hEq
    have hSame : ev.registers.offset = o := by
      ext <;> omega
    rwa [hSame]
  refine ⟨?_, hWrites.formulas.trans hFormulas,
    hWrites.size.trans hSize, ?_, ?_⟩
  · rw [List.map_cons, hWrites.offsets]
  · intro round hRound
    rcases List.mem_cons.mp hRound with rfl | hRest
    · rw [hWrites.other _ hApart, hCells, Function.update_self]
    · exact hWrites.part round hRest
  · intro p hOther
    rw [List.forall_mem_cons] at hOther
    rw [hWrites.other p hOther.2, hCells,
      Function.update_of_ne hOther.1]

/-
  The evaluation goes on from one offset of the reserved
  extent to the last one. By induction on the offsets that
  are left.
-/
theorem evaluateFrom_parts
    (hProper : f.expr.Proper)
    {before after : List Point}
    {p : Point}
    (hPoints : (Rect.whole g.extent).points = before ++ p :: after)
    (hLater : p ≠ Point.zero)
    (hOffset : ev.registers.offset = p)
    (hCoherent : s.Coherent)
    (hLive : s.formulas.get? id = some g)
    (hReady : ev.Ready fun _ => True)
    (hKeeps : s.Keeps f g.extent ev)
    {n : Nat}
    (hEnough : after.length < n)
    (hFinished : (s.evaluateFrom id f n ev).1 = .finished) :
    WritesParts id g.location (p :: after) s
        (s.evaluateFrom id f n ev).2 (rounds id f n ev s) ∧
      ∀ k, s.evaluateFrom id f (after.length + 1 + k) ev =
        s.evaluateFrom id f n ev := by
  induction n generalizing before after p s ev with
  | zero => cases hEnough
  | succ n ih =>
      subst hOffset
      rcases evaluateFrom_succ hProper hReady hFinished with
        ⟨v, ev', -, hYields, hCases⟩
      have hExtent := hYields.extent.trans (hKeeps.extentAt hLater)
      have hNext := Size.next?_of_points hPoints
      have hIn :
          g.extent.contains ev'.registers.offset = true := by
        rw [hYields.offset, ← Rect.contains_whole,
          ← Rect.mem_points, hPoints]
        simp
      have hLater' : ev'.registers.offset ≠ Point.zero := by
        rwa [hYields.offset]
      have hNodup := Rect.nodup_points (.whole g.extent)
      rw [hPoints] at hNodup
      have hNew : ev'.registers.offset ∉ after := by
        rw [hYields.offset]
        exact (List.nodup_cons.mp hNodup.of_append_right).1
      rcases store_part hCoherent hLive hLater' hIn v with
        ⟨hCoherent', hFormulas, hSize, -⟩
      rw [← hYields.offset]
      rcases hCases with
        ⟨hLast, hRun, hRounds⟩ | ⟨ev'', hMore, hRun, hRounds⟩
      · -- the last offset of the reserved extent
        rw [Evaluation.next?, Option.map_eq_none_iff, hExtent,
          hYields.offset, hNext, List.head?_eq_none_iff] at hLast
        subst hLast
        rw [hRun, hRounds]
        refine ⟨(writesParts_nil id g.location _).cons hCoherent
          hLive hLater' hIn hNew, fun k => ?_⟩
        rw [List.length_nil, Nat.zero_add, Nat.add_comm, hRun]
      · rcases Evaluation.ready_next? hYields hMore with
          ⟨hReady', hOffset, -⟩
        rw [hExtent, hNext] at hOffset
        cases after with
        | nil => cases hOffset
        | cons q after =>
            rw [List.head?_cons, Option.some.injEq] at hOffset
            have hLive' :
                (s.store id ev' v).formulas.get? id = some g := by
              rw [hFormulas, hLive]
            have hPast : q ≠ Point.zero :=
              Size.ne_zero_of_points hPoints List.mem_cons_self
            rw [hRun] at hFinished
            have hPoints' :
                (Rect.whole g.extent).points =
                  (before ++ [ev.registers.offset]) ++ q :: after := by
              simpa using hPoints
            rcases
              ih hPoints' hPast hOffset.symm hCoherent' hLive' hReady'
                (hKeeps.next hProper hYields hLater hMore hSize)
                (Nat.lt_of_succ_lt_succ hEnough) hFinished with
              ⟨hWrites, hEnds⟩
            rw [hRun, hRounds]
            refine ⟨hWrites.cons hCoherent hLive hLater' hIn hNew,
              fun k => ?_⟩
            rw [List.length_cons, Nat.add_right_comm, hRun, hEnds]

/- No cell that was used is given up. -/
theorem fits_size_store
    (s : Sheet)
    (id : Handle)
    (hLater : ev.registers.offset ≠ Point.zero)
    (v : Scalar) :
    s.size.Fits (s.store id ev v).size := by
  rw [store, if_neg hLater]
  split
  · exact Size.Fits.refl _
  · exact Grid.fits_size_modifyCell _ _ s.grid ()

/- The extent never shrinks from one offset to the next. -/
theorem fits_extentAt_next
    {ev'' : Evaluation}
    (hProper : f.expr.Proper)
    (hYields : ev.Yields (s.site f) id f.expr (fun _ => True) ev')
    (hLater : ev.registers.offset ≠ Point.zero)
    (hNext : ev'.next? = some ev'')
    (v : Scalar) :
    (ev.extentAt (s.site f) id f.expr).Fits
      (ev''.extentAt ((s.store id ev' v).site f) id f.expr) := by
  rcases Evaluation.ready_next? hYields hNext with
    ⟨hReady, -, hSame, hIndexed⟩
  by_cases hKept : ev''.indexed = true
  · rw [← hYields.extent, ← hSame, Evaluation.extentAt,
      if_pos hKept]
    exact Size.Fits.refl _
  · have hFresh : ¬ ev.indexed = true := fun hWas =>
      hKept (hIndexed.trans (hYields.kept hWas))
    have hPast : ev''.registers.offset ≠ Point.zero := by
      rw [Evaluation.next?, Option.map_eq_some_iff] at hNext
      rcases hNext with ⟨p, hOffset, rfl⟩
      exact Size.next?_ne_zero hOffset
    rw [Evaluation.extentAt, if_neg hFresh, if_neg hLater,
      Evaluation.extentAt, if_neg hKept, if_neg hPast]
    have hSize : s.size.Fits (s.store id ev' v).size :=
      fits_size_store s id (by rwa [hYields.offset]) v
    have hGrown :
        (s.site f).Outgrows ((s.store id ev' v).site f) :=
      ⟨rfl, rfl,
        Size.sup_fits (hSize.trans (Size.fits_sup_left _ _))
          (Size.fits_sup_right _ _)⟩
    exact hGrown.extent_fits hProper

/-
  The extent that the loop ends with is at least the one that
  the expression has after the first round. If all scalars
  are stored in the reserved extent, it is no larger.
-/
theorem fits_of_offsets
    (hProper : f.expr.Proper)
    {before after : List Point}
    {p : Point}
    {least extent : Size}
    (hPoints : (Rect.whole extent).points = before ++ p :: after)
    (hLater : p ≠ Point.zero)
    (hReady : ev.Ready fun _ => True)
    (hLeast : least.Fits (ev.extentAt (s.site f) id f.expr))
    {n : Nat}
    (hShort : after.length + 1 < n)
    (hFinished : (s.evaluateFrom id f n ev).1 = .finished)
    (hOffsets :
      (rounds id f n ev s).map (·.1.registers.offset) =
        p :: after) :
    least.Fits extent := by
  induction n generalizing before after p s ev with
  | zero => cases hShort
  | succ n ih =>
      rcases evaluateFrom_succ hProper hReady hFinished with
        ⟨v, ev', -, hYields, hCases⟩
      have hNext := Size.next?_of_points hPoints
      have hLeast' : least.Fits ev'.registers.extent := by
        rwa [hYields.extent]
      rcases hCases with
        ⟨hLast, hRun, hRounds⟩ | ⟨ev'', hMore, hRun, hRounds⟩
      · rw [hRounds, List.map_singleton, List.cons.injEq] at hOffsets
        rcases hOffsets with ⟨rfl, rfl⟩
        rw [Evaluation.next?, Option.map_eq_none_iff] at hLast
        -- both sizes end at the same offset
        have hSides :
            ∀ {t : Size}, t.next? ev'.registers.offset = none →
              t.width ≤ ev'.registers.offset.x + 1 ∧
                t.height ≤ ev'.registers.offset.y + 1 := by
          intro t hNone
          unfold Size.next? at hNone
          split at hNone
          · cases hNone
          · split at hNone
            · cases hNone
            · omega
        have hIn :
            extent.contains ev'.registers.offset = true := by
          rw [← Rect.contains_whole, ← Rect.mem_points, hPoints]
          simp
        rw [Size.contains_iff] at hIn
        have hEnd := hSides hLast
        exact
          hLeast'.trans ⟨by omega, by omega⟩
      · rcases Evaluation.ready_next? hYields hMore with
          ⟨hReady', -, hSame, -⟩
        rw [hRounds, List.map_cons, List.cons.injEq] at hOffsets
        rcases hOffsets with ⟨rfl, hRest⟩
        rw [hRun] at hFinished
        -- the loop is not cut short
        cases n with
        | zero => omega
        | succ n =>
            rcases rounds_succ hProper hReady' hFinished with
              ⟨rest, hFirst⟩
            rw [hFirst] at hRest
            subst hRest
            have hPoints' :
                (Rect.whole extent).points =
                  (before ++ [ev'.registers.offset]) ++
                    ev''.registers.offset :: rest := by
              simpa using hPoints
            rw [List.length_cons] at hShort
            refine
              ih hPoints' ?_ hReady' ?_ (by omega) hFinished hFirst
            · exact Size.ne_zero_of_points hPoints List.mem_cons_self
            · refine
                hLeast.trans
                  (fits_extentAt_next hProper hYields ?_ hMore v)
              rw [← hYields.offset]
              exact hLater

------------------------------------------------------------
-- Reserved Extents
------------------------------------------------------------

/- The first round of an evaluation. -/
def firstRound
    (s : Sheet)
    (id : Handle)
    (f : FormulaCell) : Evaluation :=
  (Evaluation.start.advance (s.site f) id f.expr).2

/- The extent that a formula reserves for its result. -/
def reserved (s : Sheet) (id : Handle) (f : FormulaCell) : Size :=
  (s.firstRound id f).registers.extent

/-
  An evaluation stores one scalar at each point of the extent
  that it has reserved, row by row, and at no other point. It
  ends by itself then. Every cell of the result has the
  scalar that was found for it, and no more of the sheet is
  in use than the result covers.
-/
structure StoresReserved
    (s : Sheet)
    (id : Handle)
    (f : FormulaCell) : Prop where
  stores :
    (s.evaluate id f).2 =
      (rounds id f (s.offsetBound f) .start s).foldl
        (fun t round => t.store id round.1 round.2) s
  offsets :
    (rounds id f (s.offsetBound f) .start s).map
        (·.1.registers.offset) =
      (Rect.whole (s.reserved id f)).points
  ends :
    ∀ k, s.evaluateFrom id f ((s.reserved id f).area + k) .start =
      s.evaluate id f
  onSheet :
    ∀ p, (Rect.mk f.location (s.reserved id f)).contains p = true →
      maxSize.contains p = true
  size :
    (s.evaluate id f).2.size.Fits
      (s.size.sup (f.location.toSize.add (s.reserved id f)))
  extent :
    ∃ h, (s.evaluate id f).2.formulas.get? id = some h ∧
      h.extent = s.reserved id f ∧
      ∀ round ∈ rounds id f (s.offsetBound f) .start s,
        round.1.registers.offset = Point.zero → h.value = round.2
  parts :
    ∀ round ∈ rounds id f (s.offsetBound f) .start s,
      round.1.registers.offset ≠ Point.zero →
        (s.evaluate id f).2.grid.get?
            (f.location.add round.1.registers.offset.toSize) =
          some (.extension id round.2)

/- The first round of an evaluation has found a scalar. -/
structure Opens
    (s : Sheet)
    (id : Handle)
    (f g : FormulaCell)
    (ev : Evaluation)
    (v : Scalar) : Prop where
  coherent : s.Coherent
  live : s.formulas.get? id = some g
  location : f.location = g.location
  proper : f.expr.Proper
  advance :
    Evaluation.start.advance (s.site f) id f.expr = (.ready v, ev)
  yields :
    Evaluation.start.Yields (s.site f) id f.expr (fun _ => True) ev

namespace Opens

variable {v : Scalar}

theorem firstRound_eq (hOpens : s.Opens id f g ev v) :
    s.firstRound id f = ev := by
  rw [firstRound, hOpens.advance]

theorem reserved_eq (hOpens : s.Opens id f g ev v) :
    s.reserved id f = ev.registers.extent := by
  rw [reserved, hOpens.firstRound_eq]

theorem offset_eq (hOpens : s.Opens id f g ev v) :
    ev.registers.offset = Point.zero :=
  hOpens.yields.offset

/- The cells of the result are reserved on the sheet. -/
theorem extent_spec (hOpens : s.Opens id f g ev v) :
    Size.one.Fits ev.registers.extent ∧
      ev.registers.extent.Fits ((s.site f).extent f.expr) ∧
      ∀ p, (Rect.mk f.location ev.registers.extent).contains p =
          true → maxSize.contains p = true := by
  have hOne := (s.site f).one_fits_extent hOpens.proper
  have hExtent :
      ev.registers.extent =
        (s.site f).reserve id ((s.site f).extent f.expr) :=
    hOpens.yields.extent
  rw [hExtent, hOpens.location]
  rcases
    hOpens.coherent.reserve_spec hOpens.live hOpens.location hOne with
    ⟨hFirst, hOn, -⟩
  exact ⟨hFirst, (s.site f).reserve_fits id hOne, hOn⟩

/- The first scalar is stored, and cells are reserved. -/
theorem store_spec (hOpens : s.Opens id f g ev v) :
    (s.store id ev v).Coherent ∧
      (s.store id ev v).formulas.get? id =
        some { g with extent := ev.registers.extent, value := v } ∧
      (s.store id ev v).grid =
        (s.resize id ev.registers.extent).grid ∧
      s.size.Fits (s.store id ev v).size ∧
      (s.store id ev v).size.Fits
        (s.size.sup
          (f.location.toSize.add ev.registers.extent)) := by
  have hLive := hOpens.live
  have hStore :
      s.store id ev v =
        (s.resize id ev.registers.extent).setValueOf id v := by
    rw [store, if_pos hOpens.offset_eq]
  have hCoherent :=
    (hOpens.coherent.store hLive hOpens.location hOpens.proper
      (Evaluation.ready_start _) hOpens.yields v).coherent
  have hUsed :
      ∀ p, g.area.contains p = true → s.size.contains p = true := by
    intro p hIn
    by_cases hOrigin : p = g.location
    · rw [hOrigin]
      exact hOpens.coherent.location_used hLive
    · refine hOpens.coherent.within p fun hNone => ?_
      have hPart :=
        hOpens.coherent.agrees.covered hLive ⟨hIn, hOrigin⟩
      rw [hNone] at hPart
      cases hPart
  have hSizes :
      s.size.Fits (s.resize id ev.registers.extent).size ∧
        (s.resize id ev.registers.extent).size.Fits
          (s.size.sup
            (f.location.toSize.add ev.registers.extent)) := by
    unfold resize
    rw [hLive]
    dsimp only
    split
    · exact ⟨Size.Fits.refl _, Size.fits_sup_left _ _⟩
    · rw [hOpens.location]
      exact
        Grid.fits_size_resizeSpill id ev.registers.extent hUsed
  refine ⟨hCoherent, ?_, by rw [hStore]; rfl, ?_, ?_⟩
  · rw [hStore]
    change
      ((s.resize id ev.registers.extent).formulas.modify id
        _).get? id = _
    rw [LinkedArena.get?_modify, if_pos rfl, get?_resize, if_pos rfl,
      hLive]
    rfl
  · rw [hStore]
    exact hSizes.1
  · rw [hStore]
    exact hSizes.2

/- An extent at any time has no more points than are visited. -/
theorem area_le_offsetBound
    {t : Sheet}
    (hOpens : s.Opens id f g ev v)
    (hSize :
      t.size.Fits
        (s.size.sup
          (f.location.toSize.add ev.registers.extent))) :
    ((t.site f).extent f.expr).area ≤ s.offsetBound f := by
  rcases hOpens.extent_spec with ⟨hOne, -, hOn⟩
  -- the last cell of the result lies on the sheet
  have hLast :=
    hOn
      ⟨f.location.x + ev.registers.extent.width - 1,
        f.location.y + ev.registers.extent.height - 1⟩
  simp only [Rect.contains_iff, Size.contains_iff] at hLast
  simp only [Size.Fits, Size.one] at hOne
  have hSheet :
      (f.location.toSize.add ev.registers.extent).Fits maxSize := by
    simp only [Size.Fits, Size.add, Point.toSize]
    omega
  have hAll :
      (s.size.sup
        (f.location.toSize.add ev.registers.extent)).Fits
          (s.size.sup maxSize) :=
    Size.sup_fits (Size.fits_sup_left _ _)
      (hSheet.trans (Size.fits_sup_right _ _))
  have hGrown :
      (t.site f).Outgrows
        { s.site f with grid := s.grid.expand maxSize } :=
    ⟨rfl, rfl,
      Size.sup_fits
        ((hSize.trans hAll).trans (Size.fits_sup_left _ _))
        (Size.fits_sup_right _ _)⟩
  have hFits :=
    (hGrown.extent_fits hOpens.proper).trans
      (Site.extent_fits_reach _ hOpens.proper)
  exact (Size.area_le hFits).trans (le_max_right _ _)

/- All parts were written after the first scalar was stored. -/
theorem storesReserved_of_parts
    (hOpens : s.Opens id f g ev v)
    (hFinished : (s.evaluate id f).1 = .finished)
    {after : List Point}
    (hPoints :
      (Rect.whole ev.registers.extent).points = Point.zero :: after)
    {rest : List (Evaluation × Scalar)}
    (hRounds :
      rounds id f (s.offsetBound f) .start s = (ev, v) :: rest)
    (hWrites :
      WritesParts id f.location after (s.store id ev v)
        (s.evaluate id f).2 rest)
    (hEnds :
      ∀ k, s.evaluateFrom id f (after.length + 1 + k) .start =
        s.evaluate id f) :
    s.StoresReserved id f := by
  have hReserved := hOpens.reserved_eq
  have hArea : ev.registers.extent.area = after.length + 1 := by
    rw [← Size.length_points, hPoints, List.length_cons]
  rcases hOpens.store_spec with ⟨-, hFirst, -, -, hSize⟩
  refine ⟨evaluateFrom_eq_foldl hOpens.proper
    (Evaluation.ready_start _) hFinished, ?_, ?_, ?_, ?_, ?_, ?_⟩
  · rw [hRounds, List.map_cons, hWrites.offsets, hReserved, hPoints,
      hOpens.offset_eq]
  · rw [hReserved, hArea]
    exact hEnds
  · rw [hReserved]
    exact hOpens.extent_spec.2.2
  · rw [hWrites.size, hReserved]
    exact hSize
  · refine ⟨_, by rw [hWrites.formulas, hFirst], hReserved.symm, ?_⟩
    intro round hRound hOffset
    rw [hRounds] at hRound
    rcases List.mem_cons.mp hRound with rfl | hRest
    · rfl
    · have hIn : round.1.registers.offset ∈ after := by
        rw [← hWrites.offsets]
        exact List.mem_map_of_mem hRest
      rw [← List.nil_append (Point.zero :: after)] at hPoints
      exact absurd hOffset (Size.ne_zero_of_points hPoints hIn)
  · intro round hRound hOffset
    rw [hRounds] at hRound
    rcases List.mem_cons.mp hRound with rfl | hRest
    · exact absurd hOpens.offset_eq hOffset
    · exact hWrites.part round hRest

/- The loop goes on in the reserved extent, or leaves it. -/
theorem keeps_iff
    {ev' : Evaluation}
    (hOpens : s.Opens id f g ev v)
    (hNext : ev.next? = some ev') :
    (s.store id ev v).Keeps f ev.registers.extent ev' ↔
      ev.indexed = true ∨
        ((s.resize id ev.registers.extent).site f).extent f.expr =
          ev.registers.extent := by
  rcases Evaluation.ready_next? hOpens.yields hNext with
    ⟨-, -, hSame, hIndexed⟩
  rcases hOpens.store_spec with ⟨-, -, hGrid, -⟩
  have hExtent :
      ((s.store id ev v).site f).extent f.expr =
        ((s.resize id ev.registers.extent).site f).extent f.expr :=
    Site.extent_eq
      (s := (s.resize id ev.registers.extent).site f)
      (t := (s.store id ev v).site f) rfl rfl
      (congrArg Grid.size hGrid) hOpens.proper
  rw [Keeps, hIndexed, hSame, hExtent]
  cases ev.indexed <;> simp

/-
  All scalars were stored in the reserved extent, so that the
  loop has gone on in it.
-/
theorem keeps_of_offsets
    {ev' : Evaluation}
    {rest : List Point}
    (hOpens : s.Opens id f g ev v)
    (hNext : ev.next? = some ev')
    (hPoints :
      (Rect.whole ev.registers.extent).points =
        Point.zero :: ev'.registers.offset :: rest)
    {n : Nat}
    (hBound : s.offsetBound f = n + 1)
    (hFinished :
      ((s.store id ev v).evaluateFrom id f n ev').1 = .finished)
    (hOffsets :
      (rounds id f n ev' (s.store id ev v)).map
          (·.1.registers.offset) =
        ev'.registers.offset :: rest) :
    (s.store id ev v).Keeps f ev.registers.extent ev' := by
  rcases Evaluation.ready_next? hOpens.yields hNext with
    ⟨hReady, hOffset, hSame, -⟩
  have hLater := Size.next?_ne_zero hOffset
  rcases hOpens.extent_spec with ⟨hOne, hFits, -⟩
  rcases hOpens.store_spec with ⟨-, -, -, hGrows, hSize⟩
  by_cases hFull : ev'.indexed = true
  · rw [Keeps, if_pos hFull, hSame]
  · rw [Keeps, if_neg hFull]
    have hGrown : (s.site f).Outgrows ((s.store id ev v).site f) :=
      ⟨rfl, rfl,
        Size.sup_fits (hGrows.trans (Size.fits_sup_left _ _))
          (Size.fits_sup_right _ _)⟩
    have hLess := hFits.trans (hGrown.extent_fits hOpens.proper)
    by_cases hShort : rest.length + 1 < n
    · refine Size.Fits.antisymm ?_ hLess
      have hPoints' :
          (Rect.whole ev.registers.extent).points =
            [Point.zero] ++ ev'.registers.offset :: rest := hPoints
      refine
        fits_of_offsets hOpens.proper hPoints' hLater hReady ?_
          hShort hFinished hOffsets
      rw [Evaluation.extentAt, if_neg hFull, if_neg hLater]
      exact Size.Fits.refl _
    · -- as many scalars were stored as there can be
      have hArea : ev.registers.extent.area = rest.length + 2 := by
        rw [← Size.length_points, hPoints, List.length_cons,
          List.length_cons]
      have hMost := hOpens.area_le_offsetBound hSize
      refine (hLess.eq_of_area hOne ?_).symm
      omega

end Opens

/-
  Exactly the reserved extent is filled if the result has one
  cell, or is an array or a rectangle that is only indexed,
  or if the expression has the reserved extent also when it
  is evaluated after the cells were reserved.
-/
theorem storesReserved_iff
    (hCoherent : s.Coherent)
    (hLive : s.formulas.get? id = some g)
    (hLocation : f.location = g.location)
    (hProper : f.expr.Proper)
    (hFinished : (s.evaluate id f).1 = .finished) :
    s.reserved id f =
        (s.site f).reserve id ((s.site f).extent f.expr) ∧
      (s.StoresReserved id f ↔
        s.reserved id f = Size.one ∨
          (s.firstRound id f).indexed = true ∨
          ((s.resize id (s.reserved id f)).site f).extent f.expr =
            s.reserved id f) := by
  have hReady := Evaluation.ready_start fun _ => True
  have hSome : 0 < s.offsetBound f :=
    Nat.lt_of_lt_of_le Nat.one_pos (le_max_left _ _)
  rcases Nat.exists_eq_add_of_lt hSome with ⟨n, hBound⟩
  rw [Nat.zero_add] at hBound
  have hEvaluate :
      s.evaluate id f = s.evaluateFrom id f (n + 1) .start := by
    rw [evaluate, hBound]
  have hFinished' := hFinished
  rw [hEvaluate] at hFinished'
  rcases evaluateFrom_succ hProper hReady hFinished' with
    ⟨v, ev, hAdvance, hYields, hCases⟩
  have hOpens : s.Opens id f g ev v :=
    ⟨hCoherent, hLive, hLocation, hProper, hAdvance, hYields⟩
  rcases hOpens.extent_spec with ⟨hOne, hFits, -⟩
  rcases hOpens.store_spec with ⟨hCoherent', hLive', -, -, hSize⟩
  rcases Size.points_eq_cons hOne with ⟨after, hPoints⟩
  have hNext :=
    Size.next?_of_points
      (show _ = [] ++ Point.zero :: after from hPoints)
  have hArea : ev.registers.extent.area = after.length + 1 := by
    rw [← Size.length_points, hPoints, List.length_cons]
  rw [hOpens.firstRound_eq, hOpens.reserved_eq]
  refine ⟨hYields.extent, ?_⟩
  rcases hCases with
    ⟨hLast, hRun, hRounds⟩ | ⟨ev', hMore, hRun, hRounds⟩
  · -- the result has a single cell
    rw [Evaluation.next?, Option.map_eq_none_iff, hYields.offset]
      at hLast
    have hNil : after = [] :=
      List.head?_eq_none_iff.mp (hNext.symm.trans hLast)
    subst hNil
    have hSingle : ev.registers.extent = Size.one := by
      refine (Size.Fits.eq_of_area hOne (Size.Fits.refl _) ?_).symm
      rw [hArea]
      exact Nat.le_refl 1
    refine ⟨fun _ => Or.inl hSingle, fun _ => ?_⟩
    refine
      hOpens.storesReserved_of_parts hFinished hPoints
        (by rw [hBound, hRounds]) ?_ fun k => ?_
    · rw [hEvaluate, hRun]
      exact writesParts_nil id f.location _
    · rw [List.length_nil, Nat.zero_add, Nat.add_comm, hEvaluate,
        hRun, hRun]
  · rcases Evaluation.ready_next? hYields hMore with
      ⟨hReady', hOffset, -⟩
    have hNext' : after.head? = some ev'.registers.offset :=
      hNext.symm.trans hOffset
    rcases List.head?_eq_some_iff.mp hNext' with ⟨rest, rfl⟩
    have hSeveral : ev.registers.extent ≠ Size.one := by
      intro hSingle
      rw [hSingle, List.length_cons] at hArea
      simp [Size.area, Size.one] at hArea
    rw [or_iff_right hSeveral, ← hOpens.keeps_iff hMore]
    rw [hRun] at hFinished'
    constructor
    · intro hStored
      have hOffsets := hStored.offsets
      rw [hBound, hRounds, hOpens.reserved_eq, hPoints,
        List.map_cons, List.cons.injEq] at hOffsets
      exact
        hOpens.keeps_of_offsets hMore hPoints hBound hFinished'
          hOffsets.2
    · intro hStays
      have hPoints' :
          (Rect.whole ev.registers.extent).points =
            [Point.zero] ++ ev'.registers.offset :: rest := hPoints
      have hEnough : rest.length < n := by
        have hMost :=
          hOpens.area_le_offsetBound
            (Size.fits_sup_left s.size _)
        have hLess := Size.area_le hFits
        rw [List.length_cons] at hArea
        omega
      rcases
        evaluateFrom_parts hProper hPoints'
          (Size.next?_ne_zero hOffset) rfl hCoherent' hLive' hReady'
          hStays hEnough hFinished' with
        ⟨hWrites, hEnds⟩
      refine
        hOpens.storesReserved_of_parts hFinished hPoints
          (by rw [hBound, hRounds]) ?_ fun k => ?_
      · rw [hEvaluate, hRun, hLocation]
        exact hWrites
      · rw [List.length_cons, Nat.add_right_comm, hRun, hEnds,
          hEvaluate, hRun]

/- A result of two cells, computed at one after the other. -/
theorem storesReserved_row :
    ∃ s f, (new ⟨false, 15, 64⟩).setFormula ⟨0, 1⟩
          ['A', '1', ':', 'B', '1', '&', '"', '"'] = .ok s ∧
      s.formulas.get? ⟨0, 0⟩ = some f ∧
      (s.evaluate ⟨0, 0⟩ f).1 = .finished ∧
      s.StoresReserved ⟨0, 0⟩ f := by
  have hRun :
      ∃ s, (new ⟨false, 15, 64⟩).setFormula ⟨0, 1⟩
            ['A', '1', ':', 'B', '1', '&', '"', '"'] = .ok s ∧
        (s.size, (s.formulas.get? ⟨0, 0⟩).map fun f =>
            ((s.evaluate ⟨0, 0⟩ f).1,
              ((s.resize ⟨0, 0⟩ (s.reserved ⟨0, 0⟩ f)).site
                f).extent f.expr,
              s.reserved ⟨0, 0⟩ f)) =
          (⟨1, 2⟩, some (.finished, ⟨2, 1⟩, ⟨2, 1⟩)) :=
    ⟨_, rfl, by cbv⟩
  rcases hRun with ⟨s, hRun, hShows⟩
  rw [Prod.mk.injEq, Option.map_eq_some_iff] at hShows
  rcases hShows with ⟨hSize, f, hLive, hShows⟩
  simp only [Prod.mk.injEq] at hShows
  rcases hShows with ⟨hFinished, hExtent, hReserved⟩
  have hOrderly : s.Orderly :=
    orderly_of_calls
      (.call (.refl _) (.setFormula ⟨0, 1⟩ _) hRun
        (by rw [hSize]; decide))
  have hStored :=
    (storesReserved_iff hOrderly.toCoherent hLive rfl
      (hOrderly.settled hLive).proper hFinished).2.mpr
        (Or.inr (Or.inr (hExtent.trans hReserved.symm)))
  exact ⟨s, f, hRun, hLive, hFinished, hStored⟩

/-
  A whole column becomes longer when cells are reserved for
  the result. One more scalar is stored than there are cells.
-/
theorem not_storesReserved_column :
    ∃ s t f, (new ⟨false, 15, 64⟩).setValue ⟨0, 0⟩ (.bool true) =
          .ok s ∧
      s.setFormula ⟨1, 1⟩ ['A', ':', 'A', '&', 'A', '1'] = .ok t ∧
      t.formulas.get? ⟨0, 0⟩ = some f ∧
      (t.evaluate ⟨0, 0⟩ f).1 = .finished ∧
      ¬ t.StoresReserved ⟨0, 0⟩ f := by
  have hRun :
      ∃ s t, (new ⟨false, 15, 64⟩).setValue ⟨0, 0⟩ (.bool true) =
            .ok s ∧
        s.setFormula ⟨1, 1⟩ ['A', ':', 'A', '&', 'A', '1'] = .ok t ∧
        ((t.formulas.get? ⟨0, 0⟩).map fun f =>
            ((t.evaluate ⟨0, 0⟩ f).1,
              (rounds ⟨0, 0⟩ f (t.offsetBound f) .start t).map
                (·.1.registers.offset),
              (Rect.whole (t.reserved ⟨0, 0⟩ f)).points)) =
          some
            (.finished, [⟨0, 0⟩, ⟨0, 1⟩, ⟨0, 2⟩],
              [⟨0, 0⟩, ⟨0, 1⟩]) :=
    ⟨_, _, rfl, rfl, by cbv⟩
  rcases hRun with ⟨s, t, hValue, hFormula, hShows⟩
  rw [Option.map_eq_some_iff] at hShows
  rcases hShows with ⟨f, hLive, hShows⟩
  simp only [Prod.mk.injEq] at hShows
  rcases hShows with ⟨hFinished, hOffsets, hPoints⟩
  refine ⟨s, t, f, hValue, hFormula, hLive, hFinished, ?_⟩
  intro hStored
  have hSame := hStored.offsets
  rw [hOffsets, hPoints] at hSame
  simp at hSame

end Sheet

end Spreadsheet
