import Spreadsheet.Proofs.Evaluation.Advance
import Spreadsheet.Proofs.Sheet.Bands
import Spreadsheet.Sheet.Recalculation

/-
  Evaluating one formula keeps cells and formulas in
  agreement, and changes nothing but its result.

  Main declarations:
    * `Sheet.ChangesResult`
    * `Sheet.Coherent.reserve_spec`
    * `Sheet.evaluate_spec`
-/

namespace Spreadsheet

namespace Sheet

------------------------------------------------------------
-- Changes Of One Result
------------------------------------------------------------

/- At most the result of one formula has changed. -/
structure ChangesResult (id : Handle) (s t : Sheet) : Prop where
  coherent : t.Coherent
  frame : SameFrame s t
  listed : ∀ {l}, s.formulas.Listed l → t.formulas.Listed l
  other :
    ∀ {k}, k ≠ id → t.formulas.get? k = s.formulas.get? k
  own :
    ∀ {f}, s.formulas.get? id = some f →
      ∃ g, t.formulas.get? id = some g ∧
        g = { f with extent := g.extent, value := g.value }

theorem Coherent.changesResult_refl
    {s : Sheet}
    (hCoherent : s.Coherent)
    (id : Handle) :
    ChangesResult id s s where
  coherent := hCoherent
  frame := sameFrame_refl s
  listed h := h
  other _ := rfl
  own h := ⟨_, h, rfl⟩

theorem ChangesResult.trans
    {id : Handle}
    {s t u : Sheet}
    (hFirst : ChangesResult id s t)
    (hSecond : ChangesResult id t u) :
    ChangesResult id s u where
  coherent := hSecond.coherent
  frame := hFirst.frame.trans hSecond.frame
  listed h := hSecond.listed (hFirst.listed h)
  other h := (hSecond.other h).trans (hFirst.other h)
  own h := by
    rcases hFirst.own h with ⟨g, hg, hSame⟩
    rcases hSecond.own hg with ⟨g', hg', hSame'⟩
    refine ⟨g', hg', ?_⟩
    rw [hSame] at hSame'
    exact hSame'

variable {s : Sheet} {id : Handle}

/- A formula changes, but not its place and extent. -/
theorem Coherent.modifyFormula
    (hCoherent : s.Coherent)
    (id : Handle)
    {change : FormulaCell → FormulaCell}
    (hLocation : ∀ f, (change f).location = f.location)
    (hExtent : ∀ f, (change f).extent = f.extent) :
    (s.modifyFormula id change).Coherent := by
  rcases hCoherent.listed with ⟨l, hListed⟩
  refine ⟨hCoherent.sound, hCoherent.within, ?_,
    ⟨l, hListed.modify id change⟩⟩
  change Agrees s.grid.get? (s.formulas.modify id change).get? [] none
  cases hLive : s.formulas.get? id with
  | none =>
      rw [LinkedArena.get?_modify_of_none hLive]
      exact hCoherent.agrees
  | some f =>
      rw [LinkedArena.get?_modify_eq_update hLive]
      exact
        hCoherent.agrees.modify hLive (hLocation f) (hExtent f)

theorem Coherent.setValueOf
    (hCoherent : s.Coherent)
    (id : Handle)
    (v : Scalar) :
    ChangesResult id s (s.setValueOf id v) where
  coherent :=
    hCoherent.modifyFormula id (fun _ => rfl) fun _ => rfl
  frame := ⟨rfl, rfl, rfl⟩
  listed h := h.modify id ({ · with value := v })
  other h := by
    change (s.formulas.modify id _).get? _ = _
    rw [LinkedArena.get?_modify, if_neg h]
  own {f} h := by
    refine ⟨{ f with value := v }, ?_, rfl⟩
    change (s.formulas.modify id _).get? id = _
    rw [LinkedArena.get?_modify, if_pos rfl, h]
    rfl

theorem Coherent.changesResult_collapse
    (hCoherent : s.Coherent)
    (id : Handle) :
    ChangesResult id s (s.collapse id) where
  coherent := (hCoherent.collapse_spec id).1
  frame := sameFrame_collapse s id
  listed h := listed_collapse h id
  other h := by rw [get?_collapse, if_neg h]
  own {f} h := by
    refine ⟨shrunk f, ?_, rfl⟩
    rw [get?_collapse, if_pos rfl, h]
    rfl

/- A part of a result is written, wherever it may be. -/
theorem Coherent.write
    (hCoherent : s.Coherent)
    (id : Handle)
    (v : Scalar)
    (p : Point) :
    ChangesResult id s
      { s with grid := s.grid.change (Spill.write v) p } := by
  have hSound :=
    (Grid.look_modifyCell (Spill.lazy_write v) hCoherent.sound p
      ()).1
  have hCells :
      ∀ q, (s.grid.change (Spill.write v) p).get? q = s.grid.get? q ∨
        maxSize.contains q = true ∧
          (s.grid.change (Spill.write v) p).get? q =
            ((Spill.write v).visit (s.grid.get? q) ()).1 :=
    Grid.get?_modifyCell_cases (Spill.lazy_write v) hCoherent.sound p
      ()
  have hWithin : (s.grid.change (Spill.write v) p).Within := by
    refine
      hCoherent.within.grow
        (Grid.fits_size_modifyCell (Spill.write v) p s.grid ())
        fun q hSome => Or.inl ?_
    intro hNone
    rcases hCells q with hSame | ⟨-, hWritten⟩
    · exact hSome (hSame.trans hNone)
    · rw [hNone] at hWritten
      exact hSome hWritten
  refine ⟨⟨hSound, hWithin, ?_, hCoherent.listed⟩, ⟨rfl, rfl, rfl⟩,
    fun h => h, fun _ => rfl, fun h => ⟨_, h, rfl⟩⟩
  refine hCoherent.agrees.congr (fun q => ?_) (fun q => ?_)
  · dsimp only
    rcases hCells q with hSame | ⟨-, hWritten⟩
    · rw [hSame]
    · rw [hWritten, Spill.formula?_visit_write]
  · dsimp only
    rcases hCells q with hSame | ⟨-, hWritten⟩
    · rw [hSame]
    · rw [hWritten, Spill.parent?_visit_write]

------------------------------------------------------------
-- Reserved Cells
------------------------------------------------------------

/- The cell of a formula is in use. -/
theorem Coherent.location_used
    (hCoherent : s.Coherent)
    {f : FormulaCell}
    (hLive : s.formulas.get? id = some f) :
    s.size.contains f.location = true := by
  refine hCoherent.within f.location fun hNone => ?_
  have hHeld := hCoherent.agrees.held hLive (by simp)
  rw [hNone] at hHeld
  cases hHeld

/- The cells of a result lie on the sheet. -/
theorem Coherent.onSheet_area
    (hCoherent : s.Coherent)
    {f : FormulaCell}
    (hLive : s.formulas.get? id = some f)
    {p : Point}
    (hIn : f.area.contains p = true) :
    maxSize.contains p = true := by
  by_cases hOrigin : p = f.location
  · rw [hOrigin]
    exact (hCoherent.agrees.located hLive).1
  · have hPart := hCoherent.agrees.covered hLive ⟨hIn, hOrigin⟩
    by_contra hOut
    rw [Grid.get?_of_outside s.grid hOut] at hPart
    cases hPart

/-
  A result reserves at least its first cell, on the sheet, and
  no cells of other formulas.
-/
theorem Coherent.reserve_spec
    (hCoherent : s.Coherent)
    {f g : FormulaCell}
    (hLive : s.formulas.get? id = some g)
    (hLocation : f.location = g.location)
    {extent : Size}
    (hOne : Size.one.Fits extent) :
    Size.one.Fits ((s.site f).reserve id extent) ∧
      (∀ p, (Rect.mk g.location
            ((s.site f).reserve id extent)).contains p = true →
          maxSize.contains p = true) ∧
      ∀ p, (Rect.mk g.location
            ((s.site f).reserve id extent)).Beyond p →
          ¬ g.area.Beyond p → (s.grid.get? p).Plain := by
  have hRooted := hCoherent.agrees.located hLive
  have hUsed := hCoherent.location_used hLive
  have hSingle :
      ∀ p, (Rect.mk g.location Size.one).contains p = true →
        p = g.location := by
    intro p hIn
    exact Rect.contains_single.mp hIn
  have hAlone :
      (∀ p, (Rect.mk g.location Size.one).contains p = true →
          maxSize.contains p = true) ∧
        ∀ p, (Rect.mk g.location Size.one).Beyond p →
          ¬ g.area.Beyond p → (s.grid.get? p).Plain := by
    refine ⟨fun p hIn => ?_, fun p hBeyond => ?_⟩
    · rw [hSingle p hIn]
      exact hRooted.1
    · exact absurd (hSingle p hBeyond.1) hBeyond.2
  unfold Site.reserve
  split
  · rename_i hEq
    rw [hEq]
    exact ⟨Size.Fits.refl _, hAlone⟩
  · dsimp only
    have hClip :
        (Rect.mk (s.site f).location extent).clip.origin =
          g.location := hLocation
    have hOrigin :
        (Rect.mk (s.site f).location extent).clip.contains
          g.location = true := by
      rw [Rect.contains_clip, Rect.contains_iff]
      refine ⟨?_, hRooted.1⟩
      simp only [Size.Fits, Size.one] at hOne
      change
        (f.location.x ≤ _ ∧ _ < f.location.x + _) ∧
          f.location.y ≤ _ ∧ _ < f.location.y + _
      rw [hLocation]
      dsimp only
      omega
    split
    · -- the cell of the formula is shared
      rename_i hApart
      exact
        absurd (Rect.contains_whole.mpr hUsed)
          (Rect.intersection_eq_none hApart hOrigin)
    · rename_i shared hShared
      split
      · exact ⟨Size.Fits.refl _, hAlone⟩
      · rename_i hFree
        have hCovered :
            Rect.mk g.location
                (Rect.mk (s.site f).location extent).clip.size =
              (Rect.mk (s.site f).location extent).clip := by
          rw [← hClip]
        rw [hCovered]
        refine ⟨?_, fun p hIn => ?_, fun p hBeyond hOther => ?_⟩
        · rw [Rect.contains_iff] at hOrigin
          rw [hClip] at hOrigin
          simp only [Size.Fits, Size.one]
          omega
        · exact (Rect.contains_clip.mp hIn).2
        · by_cases hNone : s.grid.get? p = none
          · rw [hNone]
            exact Slot.plain_none
          · have hIn :=
              (Rect.contains_intersection hShared p).mpr
                ⟨hBeyond.1,
                  Rect.contains_whole.mpr
                    (hCoherent.within p hNone)⟩
            have hBlocks :
                ((s.grid.get? p).any
                  (Registers.blocks id)) = false := by
              rw [Registers.isObstructed, Rect.any_eq_true_iff]
                at hFree
              rw [Bool.eq_false_iff]
              exact fun hAny => hFree ⟨p, hIn, hAny⟩
            cases hCell : s.grid.get? p with
            | none => exact Slot.plain_none
            | some c =>
                rw [hCell] at hBlocks
                cases c with
                | value v => exact Slot.plain_value v
                | formula k =>
                    -- it would be the formula's own cell
                    have hSame : k = id := by
                      simpa [Registers.blocks] using hBlocks
                    have hHere : (s.grid.get? p).formula? = some id := by
                      rw [hCell, hSame]
                      rfl
                    rcases hCoherent.agrees.formula_live hHere with
                      ⟨-, h, hh, hAt⟩
                    rw [hLive, Option.some.injEq] at hh
                    rw [← hh] at hAt
                    exact absurd (hAt.symm.trans hClip.symm) hBeyond.2
                | extension k v =>
                    have hSame : k = id := by
                      simpa [Registers.blocks] using hBlocks
                    have hHere : (s.grid.get? p).parent? = some id := by
                      rw [hCell, hSame]
                      rfl
                    rcases hCoherent.live_of_part hHere with
                      ⟨h, hh, hPart⟩
                    rw [hLive, Option.some.injEq] at hh
                    rw [← hh] at hPart
                    exact absurd hPart hOther

/- A formula reserves the cells of its result. -/
theorem Coherent.resize
    (hCoherent : s.Coherent)
    {g : FormulaCell}
    (hLive : s.formulas.get? id = some g)
    {extent : Size}
    (hOne : Size.one.Fits extent)
    (hOn :
      ∀ p, (Rect.mk g.location extent).contains p = true →
        maxSize.contains p = true)
    (hFree :
      ∀ p, (Rect.mk g.location extent).Beyond p →
        ¬ g.area.Beyond p → (s.grid.get? p).Plain) :
    ChangesResult id s (s.resize id extent) := by
  by_cases hSame : g.extent = extent
  · have hEq : s.resize id extent = s := by
      rw [Sheet.resize, hLive]
      simp only [if_pos hSame]
    rw [hEq]
    exact hCoherent.changesResult_refl id
  · have hEq :
        s.resize id extent =
          { s.modifyFormula id ({ · with extent := extent }) with
            grid :=
              s.grid.resizeSpill id g.location g.extent extent } := by
      rw [Sheet.resize, hLive]
      simp only [if_neg hSame]
    rcases
      Grid.resizeSpill_spec hCoherent.sound hCoherent.within id
        (fun p hIn => hCoherent.onSheet_area hLive hIn) hOn with
      ⟨hSound, hWithin, -, hCells⟩
    rcases hCoherent.listed with ⟨l, hListed⟩
    have hTable :=
      LinkedArena.get?_modify_eq_update hLive
        ({ · with extent := extent })
    rw [hEq]
    refine ⟨⟨hSound, hWithin, ?_,
      ⟨l, hListed.modify id ({ · with extent := extent })⟩⟩,
      ⟨rfl, rfl, rfl⟩,
      fun h => h.modify id ({ · with extent := extent }), ?_, ?_⟩
    · change
        Agrees (s.grid.resizeSpill id g.location g.extent
            extent).get?
          (s.formulas.modify id ({ · with extent := extent })).get?
          [] none
      rw [hTable]
      refine hCoherent.agrees.resize hLive rfl ?_ hFree hCells
      rw [Rect.contains_iff]
      simp only [Size.Fits, Size.one] at hOne
      simp only [FormulaCell.area]
      omega
    · intro k hOther
      change
        (s.formulas.modify id ({ · with extent := extent })).get? k =
          _
      rw [hTable, Function.update_of_ne hOther]
    · intro f hf
      refine ⟨{ f with extent := extent }, ?_, rfl⟩
      change
        (s.formulas.modify id ({ · with extent := extent })).get? id =
          _
      rw [LinkedArena.get?_modify, if_pos rfl, hf]
      rfl

------------------------------------------------------------
-- Evaluations
------------------------------------------------------------

/- A formula that is awaited can be calculated. -/
structure Awaited (s : Sheet) (f : FormulaCell) : Prop where
  stale : f.generation ≠ s.generation
  idle : f.inProgress = false
  free : f.blocked = false

/- A cell that cannot be read belongs to a formula. -/
theorem pending_of_read
    {f : FormulaCell}
    {p : Point}
    (hRead : ∀ v, (s.site f).read p ≠ .value v) :
    ∃ k g, s.formulas.get? k = some g ∧
      g.isPending s.generation = true ∧
      (s.site f).read p =
        (if g.isCircular then .circular else .pending k) ∧
      ∃ c, s.grid.get? p = some c ∧ c.owner? = some k := by
  unfold Site.read at hRead ⊢
  split
  · rename_i hNone
    rw [hNone] at hRead
    exact absurd rfl (hRead .blank)
  · rename_i c hCell
    rw [hCell] at hRead
    dsimp only at hRead
    split
    · rename_i k g hPending
      simp only [Site.pending?, Option.bind_eq_bind,
        Option.bind_eq_some_iff] at hPending
      rcases hPending with ⟨i, hOwner, h, hLive, hTest⟩
      split at hTest
      · rename_i hWaits
        cases hTest
        exact ⟨k, g, hLive, hWaits, rfl, c, hCell, hOwner⟩
      · cases hTest
    · rename_i hNone
      rw [hNone] at hRead
      exact absurd rfl (hRead _)

theorem awaited_of_read
    {f : FormulaCell}
    {p : Point}
    {k : Handle}
    (hRead : (s.site f).read p = .pending k) :
    ∃ g, s.formulas.get? k = some g ∧ s.Awaited g ∧
      ∃ c, s.grid.get? p = some c ∧ c.owner? = some k := by
  rcases pending_of_read (fun v => by rw [hRead]; simp) with
    ⟨j, g, hLive, hPending, hWhy, hCell⟩
  rw [hRead] at hWhy
  split at hWhy
  · cases hWhy
  · rename_i hOpen
    cases hWhy
    simp only [FormulaCell.isCircular, Bool.or_eq_true, not_or,
      Bool.not_eq_true] at hOpen
    refine ⟨g, hLive, ⟨?_, hOpen.1, hOpen.2⟩, hCell⟩
    simpa [FormulaCell.isPending, FormulaCell.isStale, hOpen.2]
      using hPending

/- How the calculation of a formula can end. -/
def Verdict.Fair (s : Sheet) : Verdict → Prop
  | .interrupted missing =>
      missing ≠ [] ∧
        ∀ k ∈ missing, ∃ g, s.formulas.get? k = some g ∧ s.Awaited g
  | _ => True

/- The scalar of a result is stored. -/
theorem Coherent.store
    (hCoherent : s.Coherent)
    {f g : FormulaCell}
    (hLive : s.formulas.get? id = some g)
    (hLocation : f.location = g.location)
    (hProper : f.expr.Proper)
    {covers : Point → Prop}
    {ev ev' : Evaluation}
    (hReady : ev.Ready covers)
    (hYields : ev.Yields (s.site f) id f.expr covers ev')
    (v : Scalar) :
    ChangesResult id s (s.store id ev' v) := by
  unfold Sheet.store
  dsimp only
  split
  · rename_i hZero
    rw [hYields.offset] at hZero
    have hFresh : ev.indexed = false := by
      rw [← Bool.not_eq_true]
      exact fun hIndexed => hReady.offset hIndexed hZero
    have hExtent := hYields.extent
    rw [Evaluation.extentAt, hFresh, if_neg (by simp), if_pos hZero]
      at hExtent
    rcases
      hCoherent.reserve_spec hLive hLocation
        ((s.site f).one_fits_extent hProper) with
      ⟨hOne, hOn, hFree⟩
    rw [← hExtent] at hOne hOn hFree
    have hResized := hCoherent.resize hLive hOne hOn hFree
    exact hResized.trans (hResized.coherent.setValueOf id v)
  · rw [hLive]
    exact hCoherent.write id v _

/- A formula is evaluated, from one offset on. -/
theorem evaluateFrom_spec
    {f : FormulaCell}
    (hProper : f.expr.Proper)
    (n : Nat)
    {ev : Evaluation}
    (hReady : ev.Ready fun _ => True)
    {s : Sheet}
    (hCoherent : s.Coherent)
    {g : FormulaCell}
    (hLive : s.formulas.get? id = some g)
    (hLocation : f.location = g.location) :
    ChangesResult id s (s.evaluateFrom id f n ev).2 ∧
      (s.evaluateFrom id f n ev).1.Fair
        (s.evaluateFrom id f n ev).2 := by
  induction n generalizing ev s g with
  | zero => exact ⟨hCoherent.changesResult_refl id, trivial⟩
  | succ n ih =>
      rw [evaluateFrom]
      have hAdvances :=
        Evaluation.advance_spec (s := s.site f) id hProper
          (fun _ => True) (fun _ => trivial) hReady
      generalize ev.advance (s.site f) id f.expr = res at hAdvances
      cases hAdvances with
      | ready v hYields =>
          rename_i ev'
          dsimp only
          have hStored :=
            hCoherent.store hLive hLocation hProper hReady hYields v
          split
          · exact ⟨hStored, trivial⟩
          · rename_i ev'' hNext
            rcases Evaluation.ready_next? hYields hNext with
              ⟨hReady', -⟩
            rcases hStored.own hLive with ⟨g', hg', hSame⟩
            have hLocation' : f.location = g'.location := by
              rw [hSame]
              exact hLocation
            rcases ih hReady' hStored.coherent hg' hLocation' with
              ⟨hRest, hFair⟩
            exact ⟨hStored.trans hRest, hFair⟩
      | circular _ _ _ =>
          have hCollapsed := hCoherent.changesResult_collapse id
          exact
            ⟨hCollapsed.trans
              (hCollapsed.coherent.setValueOf id _), trivial⟩
      | waiting hSome hIds =>
          refine ⟨hCoherent.changesResult_refl id, hSome, ?_⟩
          intro k hk
          rcases hIds k hk with ⟨p, -, hRead⟩
          rcases awaited_of_read hRead with ⟨h, hh, hAwaited, -⟩
          exact ⟨h, hh, hAwaited⟩

end Sheet

end Spreadsheet
