import Spreadsheet.Proofs.Expr.Proper
import Spreadsheet.Proofs.LinkedArena.Listed
import Spreadsheet.Proofs.Sheet.Agreement

/-
  Changes of single cells keep cells and formulas in
  agreement.

  Main declarations:
    * `FormulaCell.Settled`
    * `Edit.Tracks`
    * `Edit.Tracks.evict`
    * `Edit.tracks_visit_eraser`
    * `Edit.tracks_carry_copier`
    * `Edit.tracks_carry_mover`
-/

namespace Spreadsheet

------------------------------------------------------------
-- Lists Of Formulas As Tables
------------------------------------------------------------

namespace LinkedArena

variable {α : Type} {a : LinkedArena α}

/- The table of items after one of them was changed. -/
theorem get?_modify_eq_update
    {h : Handle}
    {x : α}
    (hLive : a.get? h = some x)
    (f : α → α) :
    (a.modify h f).get? = Function.update a.get? h (some (f x)) := by
  funext k
  by_cases hSame : k = h
  · subst hSame
    simp [hLive]
  · simp [hSame]

/- Nothing changes for a handle without an item. -/
theorem get?_modify_of_none
    {h : Handle}
    (hGone : a.get? h = none)
    (f : α → α) :
    (a.modify h f).get? = a.get? := by
  funext k
  by_cases hSame : k = h
  · subst hSame
    simp [hGone]
  · simp [hSame]

/- The table of items after one of them was removed. -/
theorem get?_remove_eq_update
    (a : LinkedArena α)
    (h : Handle) :
    (a.remove h).2.get? = Function.update a.get? h none := by
  funext k
  rw [Listed.get?_remove, Function.update_apply]

/- The table of items after one was appended. -/
theorem Listed.get?_pushBack_eq_update
    {l : List Handle}
    (hListed : a.Listed l)
    (x : α) :
    (a.pushBack x).2.get? =
      Function.update a.get? (a.pushBack x).1 (some x) := by
  funext k
  rw [hListed.get?_pushBack, Function.update_apply]

end LinkedArena

------------------------------------------------------------
-- Formulas At Rest
------------------------------------------------------------

/-
  A formula between two calculations. It was calculated in
  the last one as far as there was one, and can be read.
-/
structure FormulaCell.Settled
    (generation : Bool)
    (f : FormulaCell) : Prop where
  generation_eq : f.generation = generation
  idle : f.inProgress = false
  proper : f.expr.Proper

namespace FormulaCell

variable {generation : Bool} {f : FormulaCell}

theorem settled_ofChars
    (cs : List Char)
    (p : Point)
    (generation : Bool) :
    (ofChars cs p generation).Settled generation :=
  ⟨rfl, rfl, Formula.proper_read cs p⟩

theorem Settled.setExtent
    (hSettled : f.Settled generation)
    (extent : Size) :
    { f with extent := extent }.Settled generation :=
  ⟨hSettled.generation_eq, hSettled.idle, hSettled.proper⟩

theorem Settled.replace
    (hSettled : f.Settled generation)
    {expr : Expr}
    (hProper : expr.Proper)
    (refs : References) :
    (f.replace expr refs).Settled generation :=
  ⟨hSettled.generation_eq, hSettled.idle, hProper⟩

theorem Settled.copyTo
    (hSettled : f.Settled generation)
    (dest : Point) :
    (f.copyTo dest).Settled generation :=
  ⟨hSettled.generation_eq, rfl, hSettled.proper⟩

@[simp] theorem setRefs?_location
    (f : FormulaCell)
    (refs : Option References) :
    (f.setRefs? refs).location = f.location := by
  cases refs <;> rfl

@[simp] theorem setRefs?_extent
    (f : FormulaCell)
    (refs : Option References) :
    (f.setRefs? refs).extent = f.extent := by
  cases refs <;> rfl

theorem Settled.setRefs?
    (hSettled : f.Settled generation)
    (refs : Option References) :
    (f.setRefs? refs).Settled generation := by
  cases refs with
  | none => exact hSettled
  | some refs =>
      exact ⟨hSettled.generation_eq, hSettled.idle, hSettled.proper⟩

theorem Settled.moveTo
    (hSettled : f.Settled generation)
    (dest : Point) :
    (f.moveTo dest).Settled generation := by
  have hRefs :=
    hSettled.setRefs? (f.refs.adjustToMove? f.location dest)
  exact ⟨hRefs.generation_eq, hRefs.idle, hRefs.proper⟩

@[simp] theorem moveTo_extent (f : FormulaCell) (dest : Point) :
    (f.moveTo dest).extent = f.extent := by
  simp [moveTo]

end FormulaCell

------------------------------------------------------------
-- The State Of A Change
------------------------------------------------------------

namespace Edit

/-
  The state of a change agrees with the cells. A formula that
  is carried has been moved to the announced cell already.
-/
structure Tracks
    (generation : Bool)
    (cells : Contents Point Cell)
    (e : Edit) : Prop where
  agrees :
    Agrees cells e.formulas.get? e.orphans (Slot.formula? e.carried)
  whole : Slot.parent? e.carried = none
  at_dest :
    ∀ {id f}, Slot.formula? e.carried = some id →
      e.formulas.get? id = some f → f.location = e.dest
  listed : ∃ l, e.formulas.Listed l
  settled :
    ∀ {id f}, e.formulas.get? id = some f → f.Settled generation

variable {generation : Bool} {cells : Contents Point Cell}
variable {e : Edit}

@[simp] theorem carried_orphan
    (e : Edit)
    (id : Handle)
    (f : FormulaCell) :
    (e.orphan id f).carried = e.carried := by
  unfold orphan
  split <;> rfl

@[simp] theorem dest_orphan
    (e : Edit)
    (id : Handle)
    (f : FormulaCell) :
    (e.orphan id f).dest = e.dest := by
  unfold orphan
  split <;> rfl

@[simp] theorem carried_collapse (e : Edit) (id : Handle) :
    (e.collapse id).carried = e.carried := by
  unfold collapse
  split <;> simp

@[simp] theorem dest_collapse (e : Edit) (id : Handle) :
    (e.collapse id).dest = e.dest := by
  unfold collapse
  split <;> simp

@[simp] theorem carried_release (e : Edit) (id : Handle) :
    (e.release id).carried = e.carried := by
  unfold release
  split <;> simp

@[simp] theorem dest_release (e : Edit) (id : Handle) :
    (e.release id).dest = e.dest := by
  unfold release
  split <;> simp

@[simp] theorem carried_evict (slot : Slot Cell) (e : Edit) :
    (e.evict slot).carried = e.carried := by
  unfold evict
  split <;> simp

@[simp] theorem dest_evict (slot : Slot Cell) (e : Edit) :
    (e.evict slot).dest = e.dest := by
  unfold evict
  split <;> simp

/- An area without other cells is not kept. -/
theorem agrees_orphan
    {cells : Contents Point Cell}
    {formulas : FormulaTable}
    {carried : Option Handle}
    {id : Handle}
    {f : FormulaCell}
    (hAgrees :
      Agrees cells formulas (e.orphans ++ [⟨id, f.area⟩]) carried) :
    Agrees cells formulas (e.orphan id f).orphans carried := by
  unfold orphan
  split
  · rename_i hOne
    exact hAgrees.forget (FormulaCell.not_beyond_of_extent hOne)
  · exact hAgrees

theorem collapse_of_live
    {id : Handle}
    {f : FormulaCell}
    (hLive : e.formulas.get? id = some f) :
    e.collapse id =
      { e.orphan id f with
        formulas :=
          e.formulas.modify id ({ · with extent := Size.one }) } := by
  unfold collapse
  rw [hLive]

theorem release_of_live
    {id : Handle}
    {f : FormulaCell}
    (hLive : e.formulas.get? id = some f) :
    e.release id =
      { e.orphan id f with formulas := (e.formulas.remove id).2 } := by
  have hRemove :
      e.formulas.remove id = (some f, (e.formulas.remove id).2) :=
    Prod.ext (by rw [LinkedArena.Listed.fst_remove, hLive]) rfl
  unfold release
  rw [hRemove]

namespace Tracks

/- The result of a formula is cut down to its first cell. -/
theorem collapse
    (hTracks : Tracks generation cells e)
    (id : Handle) :
    Tracks generation cells (e.collapse id) := by
  cases hLive : e.formulas.get? id with
  | none =>
      have hSame : e.collapse id = e := by
        unfold Edit.collapse
        rw [hLive]
      rwa [hSame]
  | some f =>
      have hTable :=
        LinkedArena.get?_modify_eq_update hLive
          (fun f => { f with extent := Size.one })
      rcases hTracks.listed with ⟨l, hListed⟩
      rw [collapse_of_live hLive]
      refine ⟨?_, ?_, ?_, ⟨l, ?_⟩, ?_⟩
      · dsimp only
        rw [hTable, carried_orphan]
        exact agrees_orphan (hTracks.agrees.shrink _ hLive rfl rfl)
      · dsimp only
        rw [carried_orphan]
        exact hTracks.whole
      · intro j g hCarried hg
        dsimp only at hCarried hg ⊢
        rw [carried_orphan] at hCarried
        rw [dest_orphan]
        rw [hTable] at hg
        have hDest := @hTracks.at_dest j
        grind [Function.update_apply]
      · exact hListed.modify id fun f => { f with extent := Size.one }
      · intro j g hg
        dsimp only at hg
        rw [hTable, Function.update_apply] at hg
        split at hg
        · cases hg
          exact (hTracks.settled hLive).setExtent _
        · exact hTracks.settled hg

/- A collapsed formula covers its own cell only. -/
theorem extent_collapse
    {id : Handle}
    {f : FormulaCell}
    (hLive : (e.collapse id).formulas.get? id = some f) :
    f.extent = Size.one := by
  cases hOld : e.formulas.get? id with
  | none =>
      have hSame : e.collapse id = e := by
        unfold Edit.collapse
        rw [hOld]
      rw [hSame, hOld] at hLive
      cases hLive
  | some f' =>
      rw [collapse_of_live hOld] at hLive
      simp only [LinkedArena.get?_modify, if_true, hOld,
        Option.map_some, Option.some.injEq] at hLive
      rw [← hLive]

/- A formula is taken out of its cell and out of the list. -/
theorem release
    (hTracks : Tracks generation cells e)
    {p : Point}
    {id : Handle}
    (hCell : (cells p).formula? = some id) :
    Tracks generation (Function.update cells p none)
      (e.release id) := by
  rcases hTracks.agrees.formula_live hCell with
    ⟨hNot, f, hLive, -⟩
  rcases hTracks.listed with ⟨l, hListed⟩
  have hTable := LinkedArena.get?_remove_eq_update e.formulas id
  have hMem : id ∈ l := by
    rw [← hListed.isSome_get?_iff, hLive]
    rfl
  rw [release_of_live hLive]
  refine ⟨?_, ?_, ?_, ⟨_, hListed.remove hMem⟩, ?_⟩
  · dsimp only
    rw [hTable, carried_orphan]
    exact agrees_orphan (hTracks.agrees.release hCell hLive)
  · dsimp only
    rw [carried_orphan]
    exact hTracks.whole
  · intro j g hCarried hg
    dsimp only at hCarried hg ⊢
    rw [carried_orphan] at hCarried
    rw [dest_orphan]
    rw [hTable] at hg
    have hDest := @hTracks.at_dest j
    grind [Function.update_apply]
  · intro j g hg
    dsimp only at hg
    rw [hTable, Function.update_apply] at hg
    split at hg
    · cases hg
    · exact hTracks.settled hg

/- A cell is emptied for something else. -/
theorem evict
    (hTracks : Tracks generation cells e)
    (p : Point) :
    Tracks generation (Function.update cells p none)
      (e.evict (cells p)) := by
  rcases hSlot : cells p with - | (v | id | ⟨id, v⟩)
  · exact
      { hTracks with
        agrees :=
          hTracks.agrees.replace (by rw [hSlot]; simp) (by simp) }
  · exact
      { hTracks with
        agrees :=
          hTracks.agrees.replace (by rw [hSlot]; simp) (by simp) }
  · exact hTracks.release (by rw [hSlot]; rfl)
  · have hCollapsed := hTracks.collapse id
    exact
      { hCollapsed with
        agrees :=
          hCollapsed.agrees.drop (by rw [hSlot]; rfl)
            fun f hLive => extent_collapse hLive }

/- A value is put into an empty cell. -/
theorem enterValue
    (hTracks : Tracks generation cells e)
    {p : Point}
    (hPlain : (cells p).Plain)
    (v : Scalar) :
    Tracks generation (Function.update cells p (some (.value v)))
      e :=
  { hTracks with agrees := hTracks.agrees.replace hPlain (by simp) }

/- A new formula is carried to the announced cell. -/
theorem append
    (hTracks : Tracks generation cells e)
    (hNothing : e.carried = none)
    {f : FormulaCell}
    (hOne : f.extent = Size.one)
    (hSettled : f.Settled generation)
    (hDest : f.location = e.dest)
    (hOn : maxSize.contains e.dest = true) :
    Tracks generation cells
      { (e.append f).2 with carried := some (e.append f).1 } := by
  rcases hTracks.listed with ⟨l, hListed⟩
  have hTable := hListed.get?_pushBack_eq_update f
  have hNew := hListed.get?_fst_pushBack f
  have hAgrees := hTracks.agrees
  rw [hNothing] at hAgrees
  refine ⟨?_, rfl, ?_, ⟨_, hListed.pushBack f⟩, ?_⟩
  · have hAppended := hAgrees.append hNew hOne (by rwa [hDest])
    rw [← hTable] at hAppended
    exact hAppended
  · intro j g hCarried hg
    change (e.formulas.pushBack f).2.get? j = some g at hg
    have hId : (e.formulas.pushBack f).1 = j :=
      Option.some.inj hCarried
    rw [hTable, hId, Function.update_self, Option.some.injEq] at hg
    rw [← hg]
    exact hDest
  · intro j g hg
    change (e.formulas.pushBack f).2.get? j = some g at hg
    rw [hTable, Function.update_apply] at hg
    split at hg
    · cases hg
      exact hSettled
    · exact hTracks.settled hg

/- What is carried is put into the announced cell. -/
theorem putDown
    (hTracks : Tracks generation cells e)
    (hPlain : (cells e.dest).Plain) :
    Tracks generation (Function.update cells e.dest e.carried)
      { e with carried := none } := by
  rcases hCarried : e.carried with - | (v | id | ⟨id, v⟩)
  · have hAgrees := hTracks.agrees
    rw [hCarried] at hAgrees
    exact
      ⟨hAgrees.replace hPlain (by simp), rfl, by simp,
        hTracks.listed, hTracks.settled⟩
  · have hAgrees := hTracks.agrees
    rw [hCarried] at hAgrees
    exact
      ⟨hAgrees.replace hPlain (by simp), rfl, by simp,
        hTracks.listed, hTracks.settled⟩
  · have hAgrees := hTracks.agrees
    rw [hCarried] at hAgrees
    rcases hAgrees.carried_live rfl with ⟨f, hLive, -⟩
    exact
      ⟨hAgrees.place hPlain hLive
          (hTracks.at_dest (by rw [hCarried]; rfl) hLive),
        rfl, by simp, hTracks.listed, hTracks.settled⟩
  · have hWhole := hTracks.whole
    rw [hCarried] at hWhole
    cases hWhole

end Tracks

end Edit

end Spreadsheet
