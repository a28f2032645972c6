import Spreadsheet.Proofs.Grid.Contents
import Spreadsheet.Sheet.Edit

/-
  The agreement of cells and formulas.

  A formula and its cell lead to each other, and the cells of
  its area are parts of its result. While cells are edited
  one formula may be carried, and parts of a result may be
  left over in an orphaned area until they are given up.

  Main declarations:
    * `Agrees`
    * `Agrees.collapse`
    * `Agrees.release`
    * `Agrees.place`
    * `Agrees.giveUp`
-/

namespace Spreadsheet

------------------------------------------------------------
-- Slots Of Cells
------------------------------------------------------------

/- The formula that stands in a slot. -/
def Slot.formula? (slot : Slot Cell) : Option Handle :=
  slot.bind Cell.formula?

/- The formula whose result reaches a slot from elsewhere. -/
def Slot.parent? : Slot Cell → Option Handle
  | some (.extension parent _) => some parent
  | _ => none

namespace Slot

@[simp] theorem formula?_none :
    Slot.formula? none = none := rfl

@[simp] theorem formula?_value (v : Scalar) :
    Slot.formula? (some (.value v)) = none := rfl

@[simp] theorem formula?_formula (id : Handle) :
    Slot.formula? (some (.formula id)) = some id := rfl

@[simp] theorem formula?_extension (id : Handle) (v : Scalar) :
    Slot.formula? (some (.extension id v)) = none := rfl

@[simp] theorem parent?_none :
    Slot.parent? none = none := rfl

@[simp] theorem parent?_value (v : Scalar) :
    Slot.parent? (some (.value v)) = none := rfl

@[simp] theorem parent?_formula (id : Handle) :
    Slot.parent? (some (.formula id)) = none := rfl

@[simp] theorem parent?_extension (id : Handle) (v : Scalar) :
    Slot.parent? (some (.extension id v)) = some id := rfl

theorem formula?_eq_some_iff {slot : Slot Cell} {id : Handle} :
    slot.formula? = some id ↔ slot = some (.formula id) := by
  rcases slot with - | (v | j | ⟨j, v⟩) <;> simp

theorem parent?_eq_some_iff {slot : Slot Cell} {id : Handle} :
    slot.parent? = some id ↔ ∃ v, slot = some (.extension id v) := by
  rcases slot with - | (v | j | ⟨j, v⟩) <;> simp

/- Nothing in the slot belongs to a formula. -/
def Plain (slot : Slot Cell) : Prop :=
  slot.formula? = none ∧ slot.parent? = none

@[simp] theorem plain_none : Plain none := ⟨rfl, rfl⟩

@[simp] theorem plain_value (v : Scalar) :
    Plain (some (.value v)) := ⟨rfl, rfl⟩

end Slot

------------------------------------------------------------
-- Areas
------------------------------------------------------------

/- The cells of a rectangle beyond its first one. -/
def Rect.Beyond (r : Rect) (p : Point) : Prop :=
  r.contains p = true ∧ p ≠ r.origin

instance (r : Rect) (p : Point) : Decidable (r.Beyond p) :=
  inferInstanceAs (Decidable (_ ∧ _))

/- The first cell is there, and lies on the sheet. -/
def Rect.Rooted (r : Rect) : Prop :=
  maxSize.contains r.origin = true ∧ r.contains r.origin = true

theorem Rect.rooted_single
    {p : Point}
    (hOn : maxSize.contains p = true) :
    (Rect.single p).Rooted :=
  ⟨hOn, contains_single.mpr rfl⟩

/- The area of a result of one cell. -/
theorem FormulaCell.area_of_extent
    {f : FormulaCell}
    (hOne : f.extent = Size.one) :
    f.area = .single f.location := by
  rw [area, hOne]
  rfl

/- A single cell has none beyond it. -/
theorem FormulaCell.not_beyond_of_extent
    {f : FormulaCell}
    (hOne : f.extent = Size.one)
    (p : Point) :
    ¬ f.area.Beyond p := by
  rintro ⟨hIn, hOther⟩
  rw [area_of_extent hOne, Rect.contains_single] at hIn
  exact hOther hIn

------------------------------------------------------------
-- Agreement
------------------------------------------------------------

/- The formulas by handle. -/
abbrev FormulaTable := Handle → Option FormulaCell

/-
  Cells and formulas agree, apart from the parts of results
  in orphaned areas and from a formula that is carried.
-/
structure Agrees
    (cells : Contents Point Cell)
    (formulas : FormulaTable)
    (orphans : List Orphan)
    (carried : Option Handle) : Prop where
  formula_live :
    ∀ {p id}, (cells p).formula? = some id →
      carried ≠ some id ∧
        ∃ f, formulas id = some f ∧ f.location = p
  held :
    ∀ {id f}, formulas id = some f → carried ≠ some id →
      (cells f.location).formula? = some id
  carried_live :
    ∀ {id}, carried = some id →
      ∃ f, formulas id = some f ∧ f.extent = Size.one
  part_live :
    ∀ {p id}, (cells p).parent? = some id →
      (∃ f, formulas id = some f ∧ f.area.Beyond p) ∨
        ∃ o ∈ orphans, o.owner = id ∧ o.area.Beyond p
  covered :
    ∀ {id f p}, formulas id = some f → f.area.Beyond p →
      (cells p).parent? = some id
  located :
    ∀ {id f}, formulas id = some f → f.area.Rooted
  orphan_single :
    ∀ {o f}, o ∈ orphans → formulas o.owner = some f →
      f.extent = Size.one
  orphan_located :
    ∀ {o}, o ∈ orphans → o.area.Rooted

/- Nothing agrees with nothing. -/
theorem agrees_blank : Agrees .blank (fun _ => none) [] none := by
  constructor <;> simp [Contents.blank]

namespace Agrees

variable {cells : Contents Point Cell} {formulas : FormulaTable}
variable {orphans : List Orphan} {carried : Option Handle}

/- Only the formulas and the parts of results count. -/
theorem congr
    {cells' : Contents Point Cell}
    (hAgrees : Agrees cells formulas orphans carried)
    (hFormula : ∀ p, (cells' p).formula? = (cells p).formula?)
    (hParent : ∀ p, (cells' p).parent? = (cells p).parent?) :
    Agrees cells' formulas orphans carried where
  formula_live h := hAgrees.formula_live (by rwa [← hFormula])
  held h hOther := by
    rw [hFormula]
    exact hAgrees.held h hOther
  carried_live h := hAgrees.carried_live h
  part_live h := hAgrees.part_live (by rwa [← hParent])
  covered h hBeyond := by
    rw [hParent]
    exact hAgrees.covered h hBeyond
  located h := hAgrees.located h
  orphan_single h hLive := hAgrees.orphan_single h hLive
  orphan_located h := hAgrees.orphan_located h

/- Two slots without formulas are exchanged. -/
theorem replace
    (hAgrees : Agrees cells formulas orphans carried)
    {p : Point}
    {new : Slot Cell}
    (hOld : (cells p).Plain)
    (hNew : new.Plain) :
    Agrees (Function.update cells p new) formulas orphans
      carried := by
  refine hAgrees.congr (fun q => ?_) (fun q => ?_)
  · by_cases hSame : q = p
    · subst hSame
      rw [Function.update_self, hOld.1, hNew.1]
    · rw [Function.update_of_ne hSame]
  · by_cases hSame : q = p
    · subst hSame
      rw [Function.update_self, hOld.2, hNew.2]
    · rw [Function.update_of_ne hSame]

/- A formula changes, but not its place and extent. -/
theorem modify
    (hAgrees : Agrees cells formulas orphans carried)
    {id : Handle}
    {f f' : FormulaCell}
    (hLive : formulas id = some f)
    (hLocation : f'.location = f.location)
    (hExtent : f'.extent = f.extent) :
    Agrees cells (Function.update formulas id (some f')) orphans
      carried := by
  have hArea : f'.area = f.area := by
    rw [FormulaCell.area, FormulaCell.area, hLocation, hExtent]
  constructor
  case formula_live =>
    intro p j hFormula
    have hKept := hAgrees.formula_live hFormula
    grind [Function.update_apply]
  case held =>
    intro j g hg hOther
    have hKept := @hAgrees.held
    grind [Function.update_apply]
  case carried_live =>
    intro j hCarried
    have hKept := hAgrees.carried_live hCarried
    grind [Function.update_apply]
  case part_live =>
    intro p j hParent
    have hKept := hAgrees.part_live hParent
    grind [Function.update_apply]
  case covered =>
    intro j g p hg hBeyond
    have hKept := @hAgrees.covered
    grind [Function.update_apply]
  case located =>
    intro j g hg
    have hKept := @hAgrees.located
    grind [Function.update_apply]
  case orphan_single =>
    intro o g hOrphan hg
    have hKept := @hAgrees.orphan_single
    grind [Function.update_apply]
  case orphan_located => exact hAgrees.orphan_located

/- The result of a formula is cut down, its parts orphaned. -/
theorem shrink
    (hAgrees : Agrees cells formulas orphans carried)
    {id : Handle}
    {f : FormulaCell}
    (f' : FormulaCell)
    (hLive : formulas id = some f)
    (hLocation : f'.location = f.location)
    (hOne : f'.extent = Size.one) :
    Agrees cells (Function.update formulas id (some f'))
      (orphans ++ [⟨id, f.area⟩]) carried := by
  have hSingle := FormulaCell.not_beyond_of_extent hOne
  have hRooted : f'.area.Rooted := by
    rw [FormulaCell.area_of_extent hOne]
    refine Rect.rooted_single ?_
    rw [hLocation]
    exact (hAgrees.located hLive).1
  constructor
  case formula_live =>
    intro p j hFormula
    have hKept := hAgrees.formula_live hFormula
    grind [Function.update_apply]
  case held =>
    intro j g hg hOther
    have hKept := @hAgrees.held
    grind [Function.update_apply]
  case carried_live =>
    intro j hCarried
    have hKept := hAgrees.carried_live hCarried
    grind [Function.update_apply]
  case part_live =>
    intro p j hParent
    -- parts of the formula itself are orphaned
    by_cases hSame : j = id
    · right
      rcases hAgrees.part_live hParent with
        ⟨g, hg, hBeyond⟩ | ⟨o, hOrphan, hOwner, hBeyond⟩
      · refine ⟨⟨id, f.area⟩, by simp, hSame.symm, ?_⟩
        grind
      · exact ⟨o, by simp [hOrphan], hOwner, hBeyond⟩
    · have hKept := hAgrees.part_live hParent
      grind [Function.update_apply]
  case covered =>
    intro j g p hg hBeyond
    have hKept := @hAgrees.covered
    grind [Function.update_apply]
  case located =>
    intro j g hg
    have hKept := @hAgrees.located
    grind [Function.update_apply]
  case orphan_single =>
    intro o g hOrphan hg
    have hKept := @hAgrees.orphan_single
    grind [Function.update_apply]
  case orphan_located =>
    intro o hOrphan
    have hKept := @hAgrees.orphan_located o
    have hHere := hAgrees.located hLive
    grind

/- A formula and its cell are taken away. -/
theorem release
    (hAgrees : Agrees cells formulas orphans carried)
    {p : Point}
    {id : Handle}
    {f : FormulaCell}
    (hCell : (cells p).formula? = some id)
    (hLive : formulas id = some f) :
    Agrees (Function.update cells p none)
      (Function.update formulas id none)
      (orphans ++ [⟨id, f.area⟩]) carried := by
  rcases hAgrees.formula_live hCell with ⟨hOther, g, hg, hLocation⟩
  obtain rfl : g = f := by
    rw [hLive, Option.some.injEq] at hg
    exact hg.symm
  have hPlain : (cells p).parent? = none := by
    rw [Slot.formula?_eq_some_iff] at hCell
    rw [hCell]
    rfl
  constructor
  case formula_live =>
    intro q j hFormula
    have hKept := @hAgrees.formula_live
    grind [Function.update_apply, Slot.formula?_none]
  case held =>
    intro j h hh hNot
    have hKept := @hAgrees.held
    grind [Function.update_apply]
  case carried_live =>
    intro j hCarried
    have hKept := hAgrees.carried_live hCarried
    grind [Function.update_apply]
  case part_live =>
    intro q j hParent
    have hOld : (cells q).parent? = some j := by
      grind [Function.update_apply, Slot.parent?_none]
    by_cases hSame : j = id
    · right
      rcases hAgrees.part_live hOld with
        ⟨h, hh, hBeyond⟩ | ⟨o, hOrphan, hOwner, hBeyond⟩
      · refine ⟨⟨id, g.area⟩, by simp, hSame.symm, ?_⟩
        grind
      · exact ⟨o, by simp [hOrphan], hOwner, hBeyond⟩
    · have hKept := hAgrees.part_live hOld
      grind [Function.update_apply]
  case covered =>
    intro j h q hh hBeyond
    have hKept := @hAgrees.covered
    grind [Function.update_apply]
  case located =>
    intro j h hh
    have hKept := @hAgrees.located j h
    grind [Function.update_apply]
  case orphan_single =>
    intro o h hOrphan hh
    have hKept := @hAgrees.orphan_single
    grind [Function.update_apply]
  case orphan_located =>
    intro o hOrphan
    have hKept := @hAgrees.orphan_located o
    have hHere := hAgrees.located hLive
    grind

/- An orphaned area without parts need not be kept. -/
theorem forget
    {o : Orphan}
    (hAgrees : Agrees cells formulas (orphans ++ [o]) carried)
    (hNone : ∀ p, ¬ o.area.Beyond p) :
    Agrees cells formulas orphans carried where
  formula_live h := hAgrees.formula_live h
  held h hOther := hAgrees.held h hOther
  carried_live h := hAgrees.carried_live h
  part_live h := by
    have hKept := hAgrees.part_live h
    grind
  covered h hBeyond := hAgrees.covered h hBeyond
  located h := hAgrees.located h
  orphan_single h hLive :=
    hAgrees.orphan_single (List.mem_append_left _ h) hLive
  orphan_located h :=
    hAgrees.orphan_located (List.mem_append_left _ h)

/- A part of a result that was cut down is taken away. -/
theorem drop
    (hAgrees : Agrees cells formulas orphans carried)
    {p : Point}
    {id : Handle}
    (hCell : (cells p).parent? = some id)
    (hSingle : ∀ f, formulas id = some f → f.extent = Size.one) :
    Agrees (Function.update cells p none) formulas orphans
      carried := by
  have hPlain : (cells p).formula? = none := by
    rcases Slot.parent?_eq_some_iff.mp hCell with ⟨v, hEq⟩
    rw [hEq]
    rfl
  constructor
  case formula_live =>
    intro q j hFormula
    have hKept := @hAgrees.formula_live q j
    grind [Function.update_apply, Slot.formula?_none]
  case held =>
    intro j h hh hNot
    have hKept := hAgrees.held hh hNot
    grind [Function.update_apply]
  case carried_live => exact hAgrees.carried_live
  case part_live =>
    intro q j hParent
    have hKept := @hAgrees.part_live q j
    grind [Function.update_apply, Slot.parent?_none]
  case covered =>
    intro j h q hh hBeyond
    have hKept := hAgrees.covered hh hBeyond
    have hNone := FormulaCell.not_beyond_of_extent (f := h)
    grind [Function.update_apply]
  case located => exact hAgrees.located
  case orphan_single => exact hAgrees.orphan_single
  case orphan_located => exact hAgrees.orphan_located

/- The formula that is carried is put into its cell. -/
theorem place
    {id : Handle}
    (hAgrees : Agrees cells formulas orphans (some id))
    {p : Point}
    {f : FormulaCell}
    (hPlain : (cells p).Plain)
    (hLive : formulas id = some f)
    (hLocation : f.location = p) :
    Agrees (Function.update cells p (some (.formula id))) formulas
      orphans none := by
  rcases hPlain with ⟨hNoFormula, hNoPart⟩
  constructor
  case formula_live =>
    intro q j hFormula
    have hKept := @hAgrees.formula_live q j
    grind [Function.update_apply, Slot.formula?_formula]
  case held =>
    intro j h hh _
    have hKept := @hAgrees.held j h
    grind [Function.update_apply, Slot.formula?_formula]
  case carried_live => simp
  case part_live =>
    intro q j hParent
    have hKept := @hAgrees.part_live q j
    grind [Function.update_apply, Slot.parent?_formula]
  case covered =>
    intro j h q hh hBeyond
    have hKept := hAgrees.covered hh hBeyond
    grind [Function.update_apply]
  case located => exact hAgrees.located
  case orphan_single => exact hAgrees.orphan_single
  case orphan_located => exact hAgrees.orphan_located

/- A new formula is carried. -/
theorem append
    (hAgrees : Agrees cells formulas orphans none)
    {id : Handle}
    {f : FormulaCell}
    (hNew : formulas id = none)
    (hOne : f.extent = Size.one)
    (hOn : maxSize.contains f.location = true) :
    Agrees cells (Function.update formulas id (some f)) orphans
      (some id) := by
  have hNone := FormulaCell.not_beyond_of_extent hOne
  have hRooted : f.area.Rooted := by
    rw [FormulaCell.area_of_extent hOne]
    exact Rect.rooted_single hOn
  constructor
  case formula_live =>
    intro q j hFormula
    have hKept := hAgrees.formula_live hFormula
    grind [Function.update_apply]
  case held =>
    intro j h hh hNot
    have hKept := @hAgrees.held j h
    grind [Function.update_apply]
  case carried_live => grind [Function.update_apply]
  case part_live =>
    intro q j hParent
    have hKept := hAgrees.part_live hParent
    grind [Function.update_apply]
  case covered =>
    intro j h q hh hBeyond
    have hKept := @hAgrees.covered j h q
    grind [Function.update_apply]
  case located =>
    intro j h hh
    have hKept := @hAgrees.located j h
    grind [Function.update_apply]
  case orphan_single =>
    intro o h hOrphan hh
    have hKept := @hAgrees.orphan_single o h
    grind [Function.update_apply]
  case orphan_located => exact hAgrees.orphan_located

/- A formula is taken out of its cell and carried elsewhere. -/
theorem lift
    (hAgrees : Agrees cells formulas orphans none)
    {p : Point}
    {id : Handle}
    {f : FormulaCell}
    (f' : FormulaCell)
    (hCell : (cells p).formula? = some id)
    (hLive : formulas id = some f)
    (hOne : f.extent = Size.one)
    (hOne' : f'.extent = Size.one)
    (hOn : maxSize.contains f'.location = true) :
    Agrees (Function.update cells p none)
      (Function.update formulas id (some f')) orphans (some id) := by
  rcases hAgrees.formula_live hCell with ⟨-, g, hg, hLocation⟩
  obtain rfl : g = f := by
    rw [hLive, Option.some.injEq] at hg
    exact hg.symm
  have hPlain : (cells p).parent? = none := by
    rw [Slot.formula?_eq_some_iff] at hCell
    rw [hCell]
    rfl
  have hNone := FormulaCell.not_beyond_of_extent hOne
  have hNone' := FormulaCell.not_beyond_of_extent hOne'
  have hRooted : f'.area.Rooted := by
    rw [FormulaCell.area_of_extent hOne']
    exact Rect.rooted_single hOn
  constructor
  case formula_live =>
    intro q j hFormula
    have hKept := @hAgrees.formula_live q j
    grind [Function.update_apply, Slot.formula?_none]
  case held =>
    intro j h hh hNot
    have hKept := @hAgrees.held j h
    grind [Function.update_apply]
  case carried_live => grind [Function.update_apply]
  case part_live =>
    intro q j hParent
    have hKept := @hAgrees.part_live q j
    grind [Function.update_apply, Slot.parent?_none]
  case covered =>
    intro j h q hh hBeyond
    have hKept := @hAgrees.covered j h q
    grind [Function.update_apply]
  case located =>
    intro j h hh
    have hKept := @hAgrees.located j h
    grind [Function.update_apply]
  case orphan_single =>
    intro o h hOrphan hh
    have hKept := @hAgrees.orphan_single o h
    grind [Function.update_apply]
  case orphan_located => exact hAgrees.orphan_located

/- An orphaned area has been given up. -/
theorem giveUp
    {cells' : Contents Point Cell}
    {o : Orphan}
    (hAgrees : Agrees cells formulas (o :: orphans) carried)
    (hGivenUp :
      ∀ p, cells' p =
        if (cells p).parent? = some o.owner ∧ o.area.Beyond p then
          none
        else
          cells p) :
    Agrees cells' formulas orphans carried := by
  have hSlot : ∀ p j, (cells p).formula? = some j →
      (cells p).parent? = none := by
    intro p j hCell
    rw [Slot.formula?_eq_some_iff] at hCell
    rw [hCell]
    rfl
  constructor
  case formula_live =>
    intro q j hFormula
    have hKept := @hAgrees.formula_live q j
    grind [Slot.formula?_none]
  case held =>
    intro j h hh hNot
    have hKept := hAgrees.held hh hNot
    have hNoPart := hSlot _ _ hKept
    grind
  case carried_live => exact hAgrees.carried_live
  case part_live =>
    intro q j hParent
    have hKept := @hAgrees.part_live q j
    grind [Slot.parent?_none]
  case covered =>
    intro j h q hh hBeyond
    have hKept := hAgrees.covered hh hBeyond
    have hAlone := @hAgrees.orphan_single o h
    have hNone := FormulaCell.not_beyond_of_extent (f := h)
    grind
  case located => exact hAgrees.located
  case orphan_single =>
    intro o' h hOrphan hh
    exact
      hAgrees.orphan_single (List.mem_cons_of_mem _ hOrphan) hh
  case orphan_located =>
    intro o' hOrphan
    exact hAgrees.orphan_located (List.mem_cons_of_mem _ hOrphan)

end Agrees

end Spreadsheet
