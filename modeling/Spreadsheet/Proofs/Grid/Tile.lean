import Mathlib.Algebra.Order.BigOperators.Group.Finset
import Spreadsheet.Grid.Tile

/-
  Tiles whose counts are exact.

  The count of a tile is the sum of the weights of its slots,
  and no slot holds a content without weight. Such a tile is
  empty if and only if its count is zero.

  Main declarations:
    * `Tile.weightSum`
    * `Tile.Sound`
    * `Tile.Sound.put`
    * `Tile.Sound.count_eq_zero_iff`
-/

namespace Spreadsheet

namespace Tile

open scoped BigOperators

variable {β : Type}

------------------------------------------------------------
-- Contents
------------------------------------------------------------

@[simp] theorem get?_empty (i : Nat) :
    (empty : Tile β).get? i = none := by
  simp [get?, empty]

theorem get?_put
    (weigh : β → Nat)
    (i j : Nat)
    (new : Slot β)
    (t : Tile β) :
    (t.put weigh i (t.get? i) new).get? j =
      if j = i then new else t.get? j := by
  cases hOld : t.get? i with
  | none =>
      cases new with
      | none =>
          by_cases hEq : j = i
          · simp [put, hEq, hOld]
          · simp [put, hEq]
      | some b =>
          by_cases hEq : i = j
          · simp [put, get?, hEq]
          · have hOther : ¬ j = i := fun h => hEq h.symm
            simp [put, get?, Std.ExtTreeMap.getElem?_insert, hEq,
              hOther]
  | some a =>
      cases new with
      | none =>
          by_cases hEq : i = j
          · simp [put, get?, hEq]
          · have hOther : ¬ j = i := fun h => hEq h.symm
            simp [put, get?, Std.ExtTreeMap.getElem?_erase, hEq,
              hOther]
      | some b =>
          by_cases hEq : i = j
          · simp [put, get?, hEq]
          · have hOther : ¬ j = i := fun h => hEq h.symm
            simp [put, get?, Std.ExtTreeMap.getElem?_insert, hEq,
              hOther]

------------------------------------------------------------
-- Weights
------------------------------------------------------------

/- The indices of the filled slots. -/
def support (t : Tile β) : Finset Nat :=
  t.slots.keys.toFinset

theorem mem_support (t : Tile β) (i : Nat) :
    i ∈ t.support ↔ (t.get? i).isSome := by
  rw [support, List.mem_toFinset, Std.ExtTreeMap.mem_keys,
    Std.ExtTreeMap.mem_iff_isSome_getElem?]
  rfl

/- The weight of all slots together. -/
def weightSum (weigh : β → Nat) (t : Tile β) : Nat :=
  ∑ i ∈ t.support, (t.get? i).weight weigh

/- Indices of empty slots may be added to the sum. -/
theorem weightSum_eq_sum
    (weigh : β → Nat)
    (t : Tile β)
    {indices : Finset Nat}
    (hCover : t.support ⊆ indices) :
    t.weightSum weigh = ∑ i ∈ indices, (t.get? i).weight weigh := by
  apply Finset.sum_subset hCover
  intro i _ hOutside
  rw [mem_support, Option.not_isSome_iff_eq_none] at hOutside
  rw [hOutside]
  rfl

theorem weightSum_put
    (weigh : β → Nat)
    (i : Nat)
    (new : Slot β)
    (t : Tile β) :
    (t.put weigh i (t.get? i) new).weightSum weigh +
        (t.get? i).weight weigh =
      t.weightSum weigh + new.weight weigh := by
  have hOld : t.support ⊆ insert i t.support :=
    Finset.subset_insert i t.support
  have hNew :
      (t.put weigh i (t.get? i) new).support ⊆
        insert i t.support := by
    intro j hj
    rw [mem_support, get?_put] at hj
    rw [Finset.mem_insert, mem_support]
    by_cases hEq : j = i
    · exact Or.inl hEq
    · exact Or.inr (by simpa [hEq] using hj)
  have hOthers :
      ∀ j ∈ (insert i t.support).erase i,
        ((t.put weigh i (t.get? i) new).get? j).weight weigh =
          (t.get? j).weight weigh := by
    intro j hj
    rw [get?_put, if_neg (Finset.ne_of_mem_erase hj)]
  have hMem : i ∈ insert i t.support := Finset.mem_insert_self i _
  rw [weightSum_eq_sum weigh _ hNew, weightSum_eq_sum weigh _ hOld,
    ← Finset.add_sum_erase _ _ hMem,
    ← Finset.add_sum_erase _ _ hMem, Finset.sum_congr rfl hOthers,
    get?_put, if_pos rfl]
  omega

/- A slot weighs no more than all slots together. -/
theorem weight_le_weightSum
    (weigh : β → Nat)
    (t : Tile β)
    (i : Nat) :
    (t.get? i).weight weigh ≤ t.weightSum weigh := by
  cases hSlot : t.get? i with
  | none => exact Nat.zero_le _
  | some b =>
      have hMem : i ∈ t.support := by
        rw [mem_support, hSlot]
        rfl
      have hSingle := Finset.single_le_sum
        (f := fun j => (t.get? j).weight weigh)
        (fun _ _ => Nat.zero_le _) hMem
      simpa [weightSum, hSlot] using hSingle

theorem count_put
    (weigh : β → Nat)
    (i : Nat)
    (old new : Slot β)
    (t : Tile β) :
    (t.put weigh i old new).count =
      t.count + new.weight weigh - old.weight weigh := by
  cases old <;> cases new <;> simp [put, Slot.weight]

------------------------------------------------------------
-- Sound Tiles
------------------------------------------------------------

/-
  The count of a tile is exact, and its contents are good and
  not without weight.
-/
structure Sound
    (weigh : β → Nat)
    (good : β → Prop)
    (t : Tile β) : Prop where
  count_eq : t.count = t.weightSum weigh
  content :
    ∀ i b, t.get? i = some b → good b ∧ weigh b ≠ 0

variable {weigh : β → Nat} {good : β → Prop}

theorem sound_empty : (empty : Tile β).Sound weigh good := by
  refine ⟨?_, by simp⟩
  have hNone : (empty : Tile β).support = ∅ := by
    ext i
    simp [mem_support]
  rw [weightSum, hNone, Finset.sum_empty]
  rfl

/- A slot's content may be replaced by a good one. -/
theorem Sound.put
    {t : Tile β}
    (hSound : t.Sound weigh good)
    (i : Nat)
    {new : Slot β}
    (hNew : ∀ b, new = some b → good b ∧ weigh b ≠ 0) :
    (t.put weigh i (t.get? i) new).Sound weigh good := by
  constructor
  · have hSum := weightSum_put weigh i new t
    rw [count_put, hSound.count_eq]
    omega
  · intro j b hSlot
    rw [get?_put] at hSlot
    by_cases hEq : j = i
    · exact hNew b (by simpa [hEq] using hSlot)
    · exact hSound.content j b (by simpa [hEq] using hSlot)

theorem Sound.count_eq_zero_iff
    {t : Tile β}
    (hSound : t.Sound weigh good) :
    t.count = 0 ↔ ∀ i, t.get? i = none := by
  rw [hSound.count_eq]
  constructor
  · intro hZero i
    cases hSlot : t.get? i with
    | none => rfl
    | some b =>
        have hWeight := weight_le_weightSum weigh t i
        rw [hSlot, hZero] at hWeight
        exact absurd (Nat.le_zero.mp hWeight)
          (hSound.content i b hSlot).2
  · intro hNone
    exact Finset.sum_eq_zero fun i _ => by rw [hNone i]; rfl

end Tile

end Spreadsheet
