import Spreadsheet.Proofs.Sheet.Agreement
import Spreadsheet.Sheet.Spill

/-
  Cells that results of formulas cover, and how they change.

  A result is resized row by row. Each cell that only one of the
  two extents covers is visited, and what becomes of it depends
  on the new extent alone.

  Main declarations:
    * `Grid.clearSpill_spec`
    * `Grid.Resizes`
    * `Grid.resizes_resizeSpill`
    * `Grid.resizeSpill_spec`
    * `Agrees.resize`
-/

namespace Spreadsheet

------------------------------------------------------------
-- Visitors
------------------------------------------------------------

namespace Spill

theorem lazy_reserve (owner : Handle) :
    (reserve owner).Lazy id (reserve owner).visit :=
  ⟨mirrors_id _, by simp [reserve]⟩

theorem lazy_giveUp (owner : Handle) :
    (giveUp owner).Lazy id (giveUp owner).visit :=
  ⟨mirrors_id _, fun _ _ => rfl⟩

theorem lazy_write (v : Scalar) :
    (write v).Lazy id (write v).visit :=
  ⟨mirrors_id _, fun _ _ => rfl⟩

/- A slot that is given up is empty if it was the owner's. -/
theorem visit_giveUp (owner : Handle) (slot : Slot Cell) :
    ((giveUp owner).visit slot ()).1 =
      if slot.parent? = some owner then none else slot := by
  rcases slot with - | (v | id | ⟨id, v⟩) <;> simp [giveUp]

/- Writing keeps to which formula a slot belongs. -/
theorem formula?_visit_write (v : Scalar) (slot : Slot Cell) :
    (((write v).visit slot ()).1).formula? = slot.formula? := by
  rcases slot with - | (w | id | ⟨id, w⟩) <;> simp [write]

theorem parent?_visit_write (v : Scalar) (slot : Slot Cell) :
    (((write v).visit slot ()).1).parent? = slot.parent? := by
  rcases slot with - | (w | id | ⟨id, w⟩) <;> simp [write]

end Spill

namespace Grid

variable {g : Grid Cell}

------------------------------------------------------------
-- Giving Up
------------------------------------------------------------

/- The owner gives up all its cells in a rectangle. -/
theorem giveUpArea_spec
    (hSound : g.Sound)
    (hWithin : g.Within)
    (owner : Handle)
    {area : Rect}
    (hOn : area.OnSheet) :
    (g.giveUpArea owner area).Sound ∧
      (g.giveUpArea owner area).size = g.size ∧
      ∀ p,
        (g.giveUpArea owner area).get? p =
          if (g.get? p).parent? = some owner ∧
              area.contains p = true then
            none
          else
            g.get? p := by
  unfold giveUpArea
  split
  · rename_i hApart
    refine ⟨hSound, rfl, ?_⟩
    intro p
    by_cases hGiven :
        (g.get? p).parent? = some owner ∧ area.contains p = true
    · -- a cell of the owner would be in use
      have hUsed := hWithin p (by
        intro hNone
        rw [hNone] at hGiven
        simp at hGiven)
      exact
        absurd (Rect.contains_whole.mpr hUsed)
          (Rect.intersection_eq_none hApart hGiven.2)
    · rw [if_neg hGiven]
  · rename_i shared hShared
    have hIn := Rect.contains_intersection hShared
    rcases
      modifyCells_spec (Spill.lazy_giveUp owner) hSound
        (fun p h => hOn p ((hIn p).mp h).1) () with
      ⟨hKept, l, hList, hRun⟩
    refine ⟨hKept, ?_, ?_⟩
    · rw [size_modifyCells]
      have hFits : shared.endPoint.toSize.Fits g.size := by
        unfold Rect.intersection at hShared
        dsimp only at hShared
        split at hShared
        · cases hShared
          simp only [Size.Fits, Rect.of, Rect.endPoint, Point.add,
            Point.toSize, Rect.whole, Point.zero] at *
          omega
        · cases hShared
      refine Size.ext ?_ ?_
      · exact max_eq_left hFits.1
      · exact max_eq_left hFits.2
    · intro p
      have hCells := congrArg Prod.fst hRun
      dsimp only [id] at hCells
      rw [hCells, Script.run_each_unit _ hList.nodup,
        Spill.visit_giveUp]
      simp only [hList.mem_iff]
      by_cases hUsed : g.get? p = none
      · simp [hUsed]
      · have hWhole := Rect.contains_whole.mpr (hWithin p hUsed)
        simp only [hIn p]
        by_cases hArea : area.contains p = true
        · simp [hArea, hWhole]
        · simp [hArea]

/- The cells beyond the first one, in two rectangles. -/
theorem beyond_iff_spill
    {area : Rect}
    (hRooted : area.Rooted)
    {p : Point}
    (hOn : maxSize.contains p = true) :
    area.Beyond p ↔
      (spillRight area.clip).contains p = true ∨
        (spillBelow area.clip).contains p = true := by
  have hFilled := hRooted.2
  rw [maxSize_eq, Size.contains_iff] at hOn
  simp only [Rect.Beyond, ne_eq, Point.ext_iff, Rect.contains_iff,
    spillRight, spillBelow, Rect.of, Rect.clip, Size.inf,
    Size.toPoint, Point.diff, maxSize_eq] at hOn hFilled ⊢
  omega

theorem onSheet_spillRight
    {area : Rect}
    (hRooted : area.Rooted) :
    (spillRight area.clip).OnSheet := by
  intro p hIn
  have hOrigin := hRooted.1
  rw [maxSize_eq, Size.contains_iff] at hOrigin ⊢
  simp only [Rect.contains_iff, spillRight, Rect.of, Rect.clip,
    Size.inf, Size.toPoint, Point.diff, maxSize_eq] at hOrigin hIn ⊢
  omega

theorem onSheet_spillBelow
    {area : Rect}
    (hRooted : area.Rooted) :
    (spillBelow area.clip).OnSheet := by
  intro p hIn
  have hOrigin := hRooted.1
  rw [maxSize_eq, Size.contains_iff] at hOrigin ⊢
  simp only [Rect.contains_iff, spillBelow, Rect.of, Rect.clip,
    Size.inf, Size.toPoint, Point.diff, maxSize_eq] at hOrigin hIn ⊢
  omega

/- The owner gives up all cells but the first one. -/
theorem clearSpill_spec
    (hSound : g.Sound)
    (hWithin : g.Within)
    (owner : Handle)
    {area : Rect}
    (hRooted : area.Rooted) :
    (g.clearSpill owner area).Sound ∧
      (g.clearSpill owner area).size = g.size ∧
      (g.clearSpill owner area).Within ∧
      ∀ p,
        (g.clearSpill owner area).get? p =
          if (g.get? p).parent? = some owner ∧ area.Beyond p then
            none
          else
            g.get? p := by
  rcases giveUpArea_spec hSound hWithin owner
      (onSheet_spillRight hRooted) with
    ⟨hRight, hSizeRight, hCellsRight⟩
  have hWithinRight :
      (g.giveUpArea owner (spillRight area.clip)).Within := by
    refine hWithin.grow (by rw [hSizeRight]; exact Size.Fits.refl _)
      fun p hSome => Or.inl ?_
    rw [hCellsRight] at hSome
    split at hSome
    · exact absurd rfl hSome
    · exact hSome
  rcases giveUpArea_spec hRight hWithinRight owner
      (onSheet_spillBelow hRooted) with
    ⟨hBelow, hSizeBelow, hCellsBelow⟩
  have hCells :
      ∀ p,
        (g.clearSpill owner area).get? p =
          if (g.get? p).parent? = some owner ∧ area.Beyond p then
            none
          else
            g.get? p := by
    intro p
    rw [clearSpill, hCellsBelow, hCellsRight]
    by_cases hOn : maxSize.contains p = true
    · have hBeyond := beyond_iff_spill hRooted hOn
      grind
    · rw [get?_of_outside g hOn]
      simp
  refine ⟨hBelow, by rw [clearSpill, hSizeBelow, hSizeRight], ?_,
    hCells⟩
  refine hWithin.grow
    (by rw [clearSpill, hSizeBelow, hSizeRight]
        exact Size.Fits.refl _)
    fun p hSome => Or.inl ?_
  rw [hCells] at hSome
  split at hSome
  · exact absurd rfl hSome
  · exact hSome

------------------------------------------------------------
-- Changing Cells Row By Row
------------------------------------------------------------

/- Not more comes into use if a cell is changed that is. -/
theorem size_change
    (v : CellVisitor Cell Unit)
    {p : Point}
    {g : Grid Cell}
    (hUsed : g.size.contains p = true) :
    (g.change v p).size = g.size := by
  rw [change, size_modifyCell]
  rw [Size.contains_iff] at hUsed
  ext <;> simp only [Size.sup, Size.add, Size.one, Point.toSize] <;>
    omega

/- What becomes of a slot when a result comes to cover an area. -/
def resizedSlot
    (owner : Handle)
    (area : Rect)
    (p : Point)
    (slot : Slot Cell) : Slot Cell :=
  if area.contains p then some (.extension owner .blank)
  else if slot.parent? = some owner then none
  else slot

/- A slot may be visited again. -/
theorem resizedSlot_resizedSlot
    (owner : Handle)
    (area : Rect)
    (p : Point)
    (slot : Slot Cell) :
    resizedSlot owner area p (resizedSlot owner area p slot) =
      resizedSlot owner area p slot := by
  unfold resizedSlot
  split
  · rfl
  · split
    · simp
    · rfl

/-
  Some cells of a sheet were visited as it is due when a result
  comes to cover an area, and no others.
-/
structure Resizes
    (owner : Handle)
    (area : Rect)
    (visited : Point → Prop)
    (g g' : Grid Cell) : Prop where
  fits : g.size.Fits g'.size
  bounded :
    ∀ bounds : Size, (∀ p, visited p → bounds.contains p = true) →
      g.size.Fits bounds → g'.size.Fits bounds
  cells :
    (∀ p, visited p → maxSize.contains p = true) → g.Sound →
      g.Within →
        g'.Sound ∧ g'.Within ∧
          ∀ p,
            (visited p →
              g'.get? p = resizedSlot owner area p (g.get? p)) ∧
              (¬ visited p → g'.get? p = g.get? p)

namespace Resizes

variable
  {owner : Handle}
  {area : Rect}
  {visited here later : Point → Prop}
  {g g' g'' : Grid Cell}

theorem congr
    (hResizes : Resizes owner area visited g g')
    (hSame : ∀ p, here p ↔ visited p) :
    Resizes owner area here g g' := by
  rw [show here = visited from funext fun p => propext (hSame p)]
  exact hResizes

/- No cell was visited. -/
theorem none
    (owner : Handle)
    (area : Rect)
    (g : Grid Cell) :
    Resizes owner area (fun _ => False) g g where
  fits := Size.Fits.refl _
  bounded _ _ hFits := hFits
  cells _ hSound hWithin :=
    ⟨hSound, hWithin, fun _ => ⟨False.elim, fun _ => rfl⟩⟩

/- Cells were visited, and then others or the same again. -/
theorem trans
    (hHere : Resizes owner area here g g')
    (hLater : Resizes owner area later g' g'') :
    Resizes owner area (fun p => here p ∨ later p) g g'' where
  fits := hHere.fits.trans hLater.fits
  bounded bounds hIn hFits :=
    hLater.bounded bounds (fun p h => hIn p (.inr h))
      (hHere.bounded bounds (fun p h => hIn p (.inl h)) hFits)
  cells := by
    intro hOn hSound hWithin
    rcases hHere.cells (fun p h => hOn p (.inl h)) hSound hWithin with
      ⟨hSound', hWithin', hCells⟩
    rcases hLater.cells (fun p h => hOn p (.inr h)) hSound'
        hWithin' with
      ⟨hSound'', hWithin'', hCells'⟩
    refine ⟨hSound'', hWithin'', fun p => ?_⟩
    have hOnce := hCells p
    have hTwice := hCells' p
    have hAgain := resizedSlot_resizedSlot owner area p (g.get? p)
    by_cases hHere : here p <;> by_cases hLater : later p <;>
      simp_all

/- One cell was visited. -/
theorem change
    {v : CellVisitor Cell Unit}
    (hLazy : v.Lazy id v.visit)
    {p : Point}
    (hVisit :
      ∀ slot, (v.visit slot ()).1 = resizedSlot owner area p slot)
    (g : Grid Cell) :
    Resizes owner area (· = p) g (g.change v p) where
  fits := fits_size_modifyCell v p g ()
  bounded bounds hIn hFits := by
    have hPoint := Size.contains_iff.mp (hIn p rfl)
    rw [Grid.change, size_modifyCell]
    exact Size.sup_fits hFits ⟨hPoint.1, hPoint.2⟩
  cells := by
    intro hOn hSound hWithin
    have hPoint := hOn p rfl
    rcases modifyCell_spec hLazy hSound hPoint () with ⟨hKept, hRun⟩
    have hCells : (g.change v p).get? =
        Function.update g.get? p (v.visit (g.get? p) ()).1 :=
      congrArg Prod.fst hRun
    refine ⟨hKept, hWithin.modifyCell hLazy hSound hPoint (),
      fun q => ⟨?_, ?_⟩⟩
    · rintro rfl
      rw [hCells, Function.update_self, hVisit]
    · intro hOther
      rw [hCells, Function.update_of_ne hOther]

/- A cell that comes to the result was reserved. -/
theorem reserve
    {p : Point}
    (hIn : area.contains p = true)
    (g : Grid Cell) :
    Resizes owner area (· = p) g (g.change (Spill.reserve owner) p) :=
  change (Spill.lazy_reserve owner)
    (fun slot => by rw [resizedSlot, if_pos hIn]; rfl) g

/- A cell that leaves the result was given up. -/
theorem giveUp
    {p : Point}
    (hOut : ¬ area.contains p = true)
    (g : Grid Cell) :
    Resizes owner area (· = p) g (g.change (Spill.giveUp owner) p) :=
  change (Spill.lazy_giveUp owner)
    (fun slot => by
      rw [resizedSlot, if_neg hOut, Spill.visit_giveUp]) g

/- A loop visits what its turns visit. -/
theorem loop
    {f : Nat → Grid Cell → Grid Cell}
    {visits : Nat → Point → Prop}
    {count start : Nat}
    (hTurn :
      ∀ i g, start ≤ i → i < start + count →
        Resizes owner area (visits i) g (f i g))
    (g : Grid Cell) :
    Resizes owner area
      (fun p => ∃ i, start ≤ i ∧ i < start + count ∧ visits i p) g
      (Rect.foldIndices f count start g) := by
  induction count generalizing start g with
  | zero =>
      refine (none owner area g).congr fun p => ?_
      simp only [iff_false, not_exists]
      omega
  | succ count ih =>
      have hHere := hTurn start g (Nat.le_refl _) (by omega)
      have hLater :=
        @ih (start + 1)
          (fun i g hFrom hTo => hTurn i g (by omega) (by omega))
          (f start g)
      refine (hHere.trans hLater).congr fun p => ?_
      constructor
      · rintro ⟨i, hFrom, hTo, hVisits⟩
        by_cases hStart : i = start
        · exact .inl (hStart ▸ hVisits)
        · exact .inr ⟨i, by omega, by omega, hVisits⟩
      · rintro (hVisits | ⟨i, hFrom, hTo, hVisits⟩)
        · exact ⟨start, Nat.le_refl _, by omega, hVisits⟩
        · exact ⟨i, by omega, by omega, hVisits⟩

/- The cells of a row of a result between two columns. -/
def InRow
    (location : Point)
    (row first stop : Nat)
    (p : Point) : Prop :=
  p.y = location.y + row ∧ location.x + first ≤ p.x ∧
    p.x < location.x + stop

/- The cells of a row were visited. -/
theorem changeRow
    {v : CellVisitor Cell Unit}
    {location : Point}
    {row first stop : Nat}
    (hTurn :
      ∀ column g, first ≤ column → column < stop →
        Resizes owner area (· = location.add ⟨column, row⟩) g
          (g.change v (location.add ⟨column, row⟩)))
    (g : Grid Cell) :
    Resizes owner area (InRow location row first stop) g
      (g.changeRow v location row first stop) := by
  unfold Grid.changeRow
  refine
    (loop
      (fun column g hFrom hTo => hTurn column g hFrom (by omega))
      g).congr fun p => ?_
  simp only [InRow, Point.ext_iff, Point.add]
  constructor
  · intro hIn
    exact ⟨p.x - location.x, by omega⟩
  · rintro ⟨column, hIn⟩
    omega

/- A row of the new extent was reserved from a column on. -/
theorem reserveRow
    {location : Point}
    {new : Size}
    {row : Nat}
    (hRow : row < new.height)
    (first : Nat)
    (g : Grid Cell) :
    Resizes owner ⟨location, new⟩
      (InRow location row first new.width) g
      (g.changeRow (Spill.reserve owner) location row first
        new.width) := by
  refine changeRow (fun column g _ hTo => reserve ?_ g) g
  simp only [Rect.contains_iff, Point.add]
  omega

/- A row was given up where the new extent does not reach. -/
theorem giveUpRow
    {location : Point}
    {new : Size}
    {row first : Nat}
    (hOut : new.height ≤ row ∨ new.width ≤ first)
    (stop : Nat)
    (g : Grid Cell) :
    Resizes owner ⟨location, new⟩ (InRow location row first stop) g
      (g.changeRow (Spill.giveUp owner) location row first stop) := by
  refine changeRow (fun column g hFrom _ => giveUp ?_ g) g
  simp only [Rect.contains_iff, Point.add]
  omega

/- Rows were visited, each of them in the same columns. -/
theorem rows
    (location : Point)
    (columns : Nat → Prop)
    {f : Nat → Grid Cell → Grid Cell}
    {count start : Nat}
    (hTurn :
      ∀ row g, start ≤ row → row < start + count →
        Resizes owner area
          (fun p => p.y = location.y + row ∧ columns p.x) g (f row g))
    (g : Grid Cell) :
    Resizes owner area
      (fun p =>
        location.y + start ≤ p.y ∧ p.y < location.y + start + count ∧
          columns p.x)
      g (Rect.foldIndices f count start g) := by
  refine (loop hTurn g).congr fun p => ?_
  constructor
  · rintro ⟨hFrom, hTo, hIn⟩
    exact ⟨p.y - location.y, by omega, by omega, by omega, hIn⟩
  · rintro ⟨row, hFrom, hTo, hRow, hIn⟩
    exact ⟨by omega, by omega, hIn⟩

end Resizes

/-
  The cells that only one of two extents covers are visited:
  the part of their common rows that only one of them has, then
  the rows of the new extent alone, then those of the old one.
-/
theorem resizes_resizeSpill
    (owner : Handle)
    (location : Point)
    (old new : Size)
    (g : Grid Cell) :
    Resizes owner ⟨location, new⟩
      (fun p =>
        ¬ (Rect.contains ⟨location, new⟩ p = true ↔
          Rect.contains ⟨location, old⟩ p = true))
      g (g.resizeSpill owner location old new) := by
  let between (first stop x : Nat) : Prop :=
    location.x + first ≤ x ∧ x < location.x + stop
  unfold resizeSpill
  refine
    (((Resizes.rows location
          (between (min new.width old.width)
            (max new.width old.width))
          (fun row g _ hTo => ?_) g).trans
        (Resizes.rows location (between 0 new.width)
          (fun row g _ hTo => ?_) _)).trans
      (Resizes.rows location (between 0 old.width)
        (fun row g hFrom _ => ?_) _)).congr fun p => ?_
  · have hRow : row < new.height := by
      simp only [Size.inf] at hTo
      omega
    refine
      ((Resizes.reserveRow hRow _ g).trans
        (Resizes.giveUpRow (.inr (Nat.le_refl _)) _ _)).congr
        fun p => ?_
    simp only [Resizes.InRow, between, Size.inf]
    omega
  · exact Resizes.reserveRow (by omega) 0 g
  · exact Resizes.giveUpRow (.inl hFrom) old.width g
  · simp only [Rect.contains_iff, between, Size.inf]
    omega

/- No more comes into use than what the result covers. -/
theorem fits_size_resizeSpill
    {g : Grid Cell}
    (owner : Handle)
    {location : Point}
    {old : Size}
    (new : Size)
    (hUsed :
      ∀ p, Rect.contains ⟨location, old⟩ p = true →
        g.size.contains p = true) :
    g.size.Fits (g.resizeSpill owner location old new).size ∧
      (g.resizeSpill owner location old new).size.Fits
        (g.size.sup (location.toSize.add new)) := by
  have hResizes := g.resizes_resizeSpill owner location old new
  refine
    ⟨hResizes.fits,
      hResizes.bounded _ (fun p hOne => ?_) (Size.fits_sup_left _ _)⟩
  by_cases hIn : Rect.contains ⟨location, new⟩ p = true
  · have hPoint := Rect.contains_iff.mp hIn
    refine (Size.fits_sup_right _ _).contains ?_
    rw [Size.contains_iff]
    exact ⟨hPoint.1.2, hPoint.2.2⟩
  · exact (Size.fits_sup_left _ _).contains (hUsed p (by tauto))

/-
  The result of a formula is resized. Cells that come to it
  are reserved, and its own cells that leave it are emptied.
-/
theorem resizeSpill_spec
    (hSound : g.Sound)
    (hWithin : g.Within)
    (owner : Handle)
    {location : Point}
    {old new : Size}
    (hOld :
      ∀ p, Rect.contains ⟨location, old⟩ p = true →
        maxSize.contains p = true)
    (hNew :
      ∀ p, Rect.contains ⟨location, new⟩ p = true →
        maxSize.contains p = true) :
    (g.resizeSpill owner location old new).Sound ∧
      (g.resizeSpill owner location old new).Within ∧
      g.size.Fits (g.resizeSpill owner location old new).size ∧
      ∀ p,
        (g.resizeSpill owner location old new).get? p =
          if Rect.contains ⟨location, new⟩ p = true then
            if Rect.contains ⟨location, old⟩ p = true then g.get? p
            else some (.extension owner .blank)
          else if Rect.contains ⟨location, old⟩ p = true ∧
              (g.get? p).parent? = some owner then
            none
          else
            g.get? p := by
  have hResizes := g.resizes_resizeSpill owner location old new
  rcases
    hResizes.cells
      (fun p hOne => by
        by_cases hIn : Rect.contains ⟨location, new⟩ p = true
        · exact hNew p hIn
        · exact hOld p (by tauto))
      hSound hWithin with
    ⟨hSound', hWithin', hCells⟩
  refine ⟨hSound', hWithin', hResizes.fits, fun p => ?_⟩
  have hHere := hCells p
  unfold resizedSlot at hHere
  by_cases hIn : Rect.contains ⟨location, new⟩ p = true <;>
    by_cases hWas : Rect.contains ⟨location, old⟩ p = true <;>
      simp_all

end Grid

------------------------------------------------------------
-- Agreement
------------------------------------------------------------

/-
  A result gets another extent. The cells that come to it
  belonged to no formula.
-/
theorem Agrees.resize
    {cells cells' : Contents Point Cell}
    {formulas : FormulaTable}
    (hAgrees : Agrees cells formulas [] none)
    {id : Handle}
    {f f' : FormulaCell}
    (hLive : formulas id = some f)
    (hLocation : f'.location = f.location)
    (hFilled : f'.area.contains f.location = true)
    (hFree :
      ∀ p, f'.area.Beyond p → ¬ f.area.Beyond p → (cells p).Plain)
    (hCells :
      ∀ p,
        cells' p =
          if f'.area.contains p = true then
            if f.area.contains p = true then cells p
            else some (.extension id .blank)
          else if f.area.contains p = true ∧
              (cells p).parent? = some id then
            none
          else
            cells p) :
    Agrees cells' (Function.update formulas id (some f')) []
      none := by
  have hHead := hAgrees.held hLive (by simp)
  have hRoot : f.area.Rooted := hAgrees.located hLive
  -- cells outside both areas, and the formula's own, stay
  have hOther :
      ∀ p, ¬ f.area.Beyond p → ¬ f'.area.Beyond p →
        cells' p = cells p := by
    intro p hNot hNot'
    rw [hCells]
    have hSame : p = f.location → f.area.contains p = true := by
      rintro rfl
      exact hRoot.2
    simp only [Rect.Beyond, FormulaCell.area, hLocation] at *
    grind
  have hNew :
      ∀ p, f'.area.Beyond p → (cells' p).parent? = some id := by
    intro p hBeyond
    rw [hCells, if_pos hBeyond.1]
    split
    · rename_i hIn
      refine hAgrees.covered hLive ⟨hIn, ?_⟩
      have hNe := hBeyond.2
      simpa [FormulaCell.area, hLocation] using hNe
    · rfl
  have hGone :
      ∀ p, f.area.Beyond p → ¬ f'.area.Beyond p →
        cells' p = none := by
    intro p hBeyond hNot
    have hPart := hAgrees.covered hLive hBeyond
    have hNe := hBeyond.2
    have hOut : ¬ f'.area.contains p = true := fun hIn =>
      hNot ⟨hIn, by
        simpa [FormulaCell.area, hLocation] using hNe⟩
    rw [hCells, if_neg hOut, if_pos ⟨hBeyond.1, hPart⟩]
  have hPlain :
      ∀ p, f'.area.Beyond p → (cells p).formula? = none := by
    intro p hBeyond
    by_cases hWas : f.area.Beyond p
    · have hPart := hAgrees.covered hLive hWas
      rcases Slot.parent?_eq_some_iff.mp hPart with ⟨v, hEq⟩
      rw [hEq]
      rfl
    · exact (hFree p hBeyond hWas).1
  have hNoFormula :
      ∀ p, f'.area.Beyond p → (cells' p).formula? = none := by
    intro p hBeyond
    rcases Slot.parent?_eq_some_iff.mp (hNew p hBeyond) with ⟨v, hEq⟩
    rw [hEq]
    rfl
  have hOrigin : f'.area.origin = f.location := hLocation
  constructor
  case formula_live =>
    intro p j hFormula
    have hKept := @hAgrees.formula_live p j
    grind [Function.update_apply, Slot.formula?_none]
  case held =>
    intro j g hg _
    have hKept := @hAgrees.held j g
    have hOwn := @hAgrees.held id f
    have hBeyond := fun h : f.area.Beyond g.location =>
      hAgrees.covered hLive h
    have hNotOwn : ¬ f'.area.Beyond f.location := fun h =>
      h.2 hOrigin.symm
    have hNotOwn' : ¬ f.area.Beyond f.location := fun h => h.2 rfl
    have hSlot := @Slot.formula?_eq_some_iff (cells g.location) j
    grind [Function.update_apply, Slot.parent?_formula]
  case carried_live => simp
  case part_live =>
    intro p j hParent
    left
    by_cases hHere : f'.area.Beyond p
    · -- the new result owns its cells
      rw [hNew p hHere, Option.some.injEq] at hParent
      subst hParent
      exact ⟨f', by simp, hHere⟩
    · have hNot : ¬ f.area.Beyond p := fun hWas => by
        rw [hGone p hWas hHere] at hParent
        simp at hParent
      rw [hOther p hNot hHere] at hParent
      have hKept := hAgrees.part_live hParent
      grind [Function.update_apply]
  case covered =>
    intro j g p hg hBeyond
    rw [Function.update_apply] at hg
    split at hg
    · rename_i hSame
      cases hg
      rw [hSame]
      exact hNew p hBeyond
    · rename_i hNe
      have hPart := hAgrees.covered hg hBeyond
      -- a part of another result lies in neither area
      have hNot : ¬ f.area.Beyond p := fun hWas => by
        rw [hAgrees.covered hLive hWas, Option.some.injEq] at hPart
        exact hNe hPart.symm
      have hNot' : ¬ f'.area.Beyond p := fun hHere => by
        rw [(hFree p hHere hNot).2] at hPart
        cases hPart
      rw [hOther p hNot hNot']
      exact hPart
  case located =>
    intro j g hg
    have hKept := @hAgrees.located j g
    have hRooted : f'.area.Rooted := by
      refine ⟨?_, ?_⟩
      · rw [hOrigin]
        exact hRoot.1
      · rw [hOrigin]
        exact hFilled
    grind [Function.update_apply]
  case orphan_single => simp
  case orphan_located => simp

end Spreadsheet
