import Spreadsheet.Proofs.LinkedArena.Listed

/-
  Handles that were given out.

  A handle that was given out leads to its item or, once that
  was removed, to nothing for ever. So a handle that is given
  out later is a new one.

  Main declarations:
    * `LinkedArena.Spent`
    * `LinkedArena.Issued`
    * `LinkedArena.Issued.remove`
    * `LinkedArena.not_issued_fst_pushBack`
-/

namespace Spreadsheet

namespace LinkedArena

variable {α : Type} {a : LinkedArena α} {h : Handle}

------------------------------------------------------------
-- Stamps
------------------------------------------------------------

/- How many items were removed from a slot. -/
def stamp? (a : LinkedArena α) (i : Nat) : Option Nat :=
  a.slots[i]?.map (·.stamp)

@[simp] theorem stamp?_modifyLinked
    (a : LinkedArena α)
    (h : Handle)
    (f : LinkedItem α → LinkedItem α)
    (i : Nat) :
    (a.modifyLinked h f).stamp? i = a.stamp? i := by
  unfold stamp? modifyLinked
  rw [Array.getElem?_modify]
  split
  · rw [Option.map_map]
    congr 1
    funext slot
    rw [Function.comp_apply]
    split <;> rfl
  · rfl

@[simp] theorem stamp?_setNext
    (a : LinkedArena α)
    (x y : Option Handle)
    (i : Nat) :
    (a.setNext x y).stamp? i = a.stamp? i := by
  cases x with
  | none => rfl
  | some h => exact stamp?_modifyLinked a h _ i

@[simp] theorem stamp?_setPrev
    (a : LinkedArena α)
    (x y : Option Handle)
    (i : Nat) :
    (a.setPrev x y).stamp? i = a.stamp? i := by
  cases x with
  | none => rfl
  | some h => exact stamp?_modifyLinked a h _ i

@[simp] theorem stamp?_unlink
    (a : LinkedArena α)
    (h : Handle)
    (i : Nat) :
    (a.unlink h).stamp? i = a.stamp? i := by
  unfold unlink
  cases a.linked? h <;> simp

@[simp] theorem stamp?_linkBefore
    (a : LinkedArena α)
    (h : Handle)
    (before : Option Handle)
    (i : Nat) :
    (a.linkBefore h before).stamp? i = a.stamp? i := by
  simp [linkBefore]

@[simp] theorem stamp?_moveBefore
    (a : LinkedArena α)
    (h before : Handle)
    (i : Nat) :
    (a.moveBefore h before).stamp? i = a.stamp? i := by
  unfold moveBefore
  by_cases hSame : h = before <;> simp [hSame]

/- Stamps stay when an item is added; a new slot has none. -/
theorem stamp?_pushBack
    (a : LinkedArena α)
    (x : α)
    (i : Nat) :
    (a.pushBack x).2.stamp? i =
      (a.stamp? i).or
        (if a.free = [] ∧ i = a.slots.size then some 0
        else none) := by
  have hAllocate :
      (a.pushBack x).2.stamp? i = (a.allocate x).2.stamp? i :=
    stamp?_linkBefore _ _ _ i
  rw [hAllocate]
  unfold stamp? allocate
  cases a.free with
  | nil =>
      dsimp only
      rw [Array.getElem?_push]
      by_cases hIndex : i = a.slots.size <;> simp [hIndex]
  | cons j free =>
      dsimp only
      rw [Array.getElem?_modify]
      by_cases hIndex : j = i
      · cases a.slots[i]? <;> simp [hIndex]
      · simp [hIndex]

/- A removal counts in the slot of the item and in no other. -/
theorem stamp?_remove
    (a : LinkedArena α)
    (h : Handle)
    (i : Nat) :
    (a.remove h).2.stamp? i =
      (a.stamp? i).map fun n =>
        if i = h.index ∧ (a.get? h).isSome then n + 1 else n := by
  unfold LinkedArena.remove
  cases hItem : a.get? h with
  | none => simp
  | some x =>
      rw [← stamp?_unlink a h i]
      unfold stamp? LinkedArena.release
      dsimp only
      rw [Array.getElem?_modify]
      by_cases hIndex : h.index = i
      · simp [hIndex, Function.comp_def]
      · have hOther : ¬ i = h.index := fun hEq => hIndex hEq.symm
        simp [hIndex, hOther, Function.comp_def]

------------------------------------------------------------
-- Spent And Issued Handles
------------------------------------------------------------

/- The item of a handle was removed. -/
def Spent (a : LinkedArena α) (h : Handle) : Prop :=
  ∃ n, a.stamp? h.index = some n ∧ h.stamp < n

/- A handle was given out; its item may have been removed. -/
def Issued (a : LinkedArena α) (h : Handle) : Prop :=
  a.Spent h ∨ (a.get? h).isSome

theorem Spent.get?_eq_none (hSpent : a.Spent h) : a.get? h = none := by
  rcases hSpent with ⟨n, hStamp, hLess⟩
  unfold stamp? at hStamp
  rcases Option.map_eq_some_iff.1 hStamp with ⟨slot, hSlot, rfl⟩
  have hOther : ¬ slot.stamp = h.stamp := by omega
  simp [get?, linked?, hSlot, hOther]

theorem Issued.spent
    (hIssued : a.Issued h)
    (hGone : a.get? h = none) :
    a.Spent h := by
  rcases hIssued with hSpent | hLive
  · exact hSpent
  · rw [hGone] at hLive
    cases hLive

theorem stamp?_of_live
    {x : α}
    (hLive : a.get? h = some x) :
    a.stamp? h.index = some h.stamp := by
  rw [get?_eq_some_iff] at hLive
  rcases hLive with ⟨l, hLinked, -⟩
  rw [linked?_eq_some_iff] at hLinked
  simp [stamp?, hLinked]

theorem Spent.pushBack (hSpent : a.Spent h) (x : α) :
    (a.pushBack x).2.Spent h := by
  rcases hSpent with ⟨n, hStamp, hLess⟩
  exact ⟨n, by rw [stamp?_pushBack, hStamp, Option.some_or], hLess⟩

theorem Spent.remove (hSpent : a.Spent h) (k : Handle) :
    (a.remove k).2.Spent h := by
  rcases hSpent with ⟨n, hStamp, hLess⟩
  have hAfter := stamp?_remove a k h.index
  rw [hStamp, Option.map_some] at hAfter
  split at hAfter
  · exact ⟨n + 1, hAfter, by omega⟩
  · exact ⟨n, hAfter, hLess⟩

theorem Spent.moveBefore
    (hSpent : a.Spent h)
    (k before : Handle) :
    (a.moveBefore k before).Spent h := by
  rcases hSpent with ⟨n, hStamp, hLess⟩
  exact ⟨n, (stamp?_moveBefore a k before _).trans hStamp, hLess⟩

/- A handle is spent once its item is removed. -/
theorem spent_remove
    (hLive : (a.get? h).isSome) :
    (a.remove h).2.Spent h := by
  rcases Option.isSome_iff_exists.1 hLive with ⟨x, hItem⟩
  have hAfter := stamp?_remove a h h.index
  rw [stamp?_of_live hItem, Option.map_some,
    if_pos ⟨rfl, hLive⟩] at hAfter
  exact ⟨_, hAfter, Nat.lt_succ_self _⟩

theorem Spent.modify
    (hSpent : a.Spent h)
    (k : Handle)
    (f : α → α) :
    (a.modify k f).Spent h := by
  rcases hSpent with ⟨n, hStamp, hLess⟩
  exact ⟨n, (stamp?_modifyLinked a k _ _).trans hStamp, hLess⟩

theorem Issued.remove (hIssued : a.Issued h) (k : Handle) :
    (a.remove k).2.Issued h := by
  rcases hIssued with hSpent | hLive
  · exact .inl (hSpent.remove k)
  · by_cases hSame : h = k
    · subst hSame
      exact .inl (spent_remove hLive)
    · refine .inr ?_
      rwa [Listed.get?_remove, if_neg hSame]

theorem Issued.modify
    (hIssued : a.Issued h)
    (k : Handle)
    (f : α → α) :
    (a.modify k f).Issued h := by
  rcases hIssued with hSpent | hLive
  · exact .inl (hSpent.modify k f)
  · refine .inr ?_
    rw [get?_modify]
    split
    · rw [Option.isSome_map]
      exact hLive
    · exact hLive

section Listed

variable {l : List Handle}

theorem Issued.pushBack
    (hIssued : a.Issued h)
    (hListed : a.Listed l)
    (x : α) :
    (a.pushBack x).2.Issued h := by
  rcases hIssued with hSpent | hLive
  · exact .inl (hSpent.pushBack x)
  · refine .inr ?_
    rw [hListed.get?_pushBack]
    split
    · rfl
    · exact hLive

/- A new item gets a handle that was never given out. -/
theorem not_issued_fst_pushBack
    (hListed : a.Listed l)
    (x : α) :
    ¬ a.Issued (a.pushBack x).1 := by
  rintro (hSpent | hLive)
  · have hGone := (hSpent.pushBack x).get?_eq_none
    rw [hListed.get?_pushBack, if_pos rfl] at hGone
    cases hGone
  · rw [hListed.get?_fst_pushBack] at hLive
    cases hLive

end Listed

end LinkedArena

end Spreadsheet
