import Spreadsheet.Proofs.LinkedArena.Threads

/-
  Arenas as lists of handles with items.

  Every operation is described by what it does to the list
  of handles and by what it does to `get?`.

  Main declarations:
    * `LinkedArena.Listed`
    * `LinkedArena.Listed.pushBack`
    * `LinkedArena.Listed.remove`
    * `LinkedArena.Listed.moveBefore`
    * `LinkedArena.Listed.handles_eq`
-/

namespace Spreadsheet

namespace LinkedArena

variable {α : Type}

------------------------------------------------------------
-- Slots
------------------------------------------------------------

/- A slot exists and holds no item. -/
def IsFree (a : LinkedArena α) (i : Nat) : Prop :=
  ∃ stamp, a.slots[i]? = some ⟨stamp, none⟩

theorem isFree_modifyLinked
    (a : LinkedArena α)
    (h : Handle)
    (f : LinkedItem α → LinkedItem α)
    (i : Nat) :
    (a.modifyLinked h f).IsFree i ↔ a.IsFree i := by
  unfold IsFree modifyLinked
  rw [Array.getElem?_modify]
  by_cases hIndex : h.index = i
  · rcases hSlot : a.slots[i]? with _ | ⟨stamp, content⟩
    · simp [hIndex]
    · by_cases hStamp : stamp = h.stamp <;>
        simp [hIndex, hStamp]
  · simp [hIndex]

theorem isFree_setNext
    (a : LinkedArena α)
    (x y : Option Handle)
    (i : Nat) :
    (a.setNext x y).IsFree i ↔ a.IsFree i := by
  cases x with
  | none => rfl
  | some h => exact isFree_modifyLinked a h _ i

theorem isFree_setPrev
    (a : LinkedArena α)
    (x y : Option Handle)
    (i : Nat) :
    (a.setPrev x y).IsFree i ↔ a.IsFree i := by
  cases x with
  | none => rfl
  | some h => exact isFree_modifyLinked a h _ i

theorem isFree_unlink
    (a : LinkedArena α)
    (h : Handle)
    (i : Nat) :
    (a.unlink h).IsFree i ↔ a.IsFree i := by
  unfold unlink
  cases a.linked? h with
  | none => rfl
  | some l =>
      simp only [isFree_setPrev, isFree_setNext,
        isFree_modifyLinked]

theorem isFree_linkBefore
    (a : LinkedArena α)
    (h : Handle)
    (before : Option Handle)
    (i : Nat) :
    (a.linkBefore h before).IsFree i ↔ a.IsFree i := by
  simp only [linkBefore, isFree_setPrev, isFree_setNext,
    isFree_modifyLinked]

@[simp] theorem free_setNext
    (a : LinkedArena α)
    (x y : Option Handle) :
    (a.setNext x y).free = a.free := by
  cases x <;> rfl

@[simp] theorem free_setPrev
    (a : LinkedArena α)
    (x y : Option Handle) :
    (a.setPrev x y).free = a.free := by
  cases x <;> rfl

@[simp] theorem size_setNext
    (a : LinkedArena α)
    (x y : Option Handle) :
    (a.setNext x y).size = a.size := by
  cases x <;> rfl

@[simp] theorem size_setPrev
    (a : LinkedArena α)
    (x y : Option Handle) :
    (a.setPrev x y).size = a.size := by
  cases x <;> rfl

@[simp] theorem free_unlink
    (a : LinkedArena α)
    (h : Handle) :
    (a.unlink h).free = a.free := by
  unfold unlink
  cases a.linked? h <;> simp

@[simp] theorem size_unlink
    (a : LinkedArena α)
    (h : Handle) :
    (a.unlink h).size = a.size := by
  unfold unlink
  cases a.linked? h <;> simp

@[simp] theorem free_linkBefore
    (a : LinkedArena α)
    (h : Handle)
    (before : Option Handle) :
    (a.linkBefore h before).free = a.free := by
  simp [linkBefore]

@[simp] theorem size_linkBefore
    (a : LinkedArena α)
    (h : Handle)
    (before : Option Handle) :
    (a.linkBefore h before).size = a.size := by
  simp [linkBefore]

theorem get?_setNext
    (a : LinkedArena α)
    (x y : Option Handle)
    (k : Handle) :
    (a.setNext x y).get? k = a.get? k := by
  cases x with
  | none => rfl
  | some h => exact get?_modifyLinked_of_item a h k fun _ => rfl

theorem get?_setPrev
    (a : LinkedArena α)
    (x y : Option Handle)
    (k : Handle) :
    (a.setPrev x y).get? k = a.get? k := by
  cases x with
  | none => rfl
  | some h => exact get?_modifyLinked_of_item a h k fun _ => rfl

@[simp] theorem get?_unlink
    (a : LinkedArena α)
    (h k : Handle) :
    (a.unlink h).get? k = a.get? k := by
  unfold unlink
  cases a.linked? h with
  | none => rfl
  | some l =>
      simp only [get?_setPrev, get?_setNext]
      exact get?_modifyLinked_of_item a h k fun _ => rfl

@[simp] theorem get?_linkBefore
    (a : LinkedArena α)
    (h : Handle)
    (before : Option Handle)
    (k : Handle) :
    (a.linkBefore h before).get? k = a.get? k := by
  simp only [linkBefore, get?_setPrev, get?_setNext]
  exact get?_modifyLinked_of_item a h k fun _ => rfl

@[simp] theorem get?_moveBefore
    (a : LinkedArena α)
    (h before k : Handle) :
    (a.moveBefore h before).get? k = a.get? k := by
  unfold moveBefore
  by_cases hEq : h = before <;> simp [hEq]

------------------------------------------------------------
-- Listed Arenas
------------------------------------------------------------

/-
  The threaded list holds all items, and the slots without an
  item are exactly the ones to be used again.
-/
structure Listed (a : LinkedArena α) (l : List Handle) : Prop where
  threads : a.Threads l
  complete : ∀ h, (a.get? h).isSome → h ∈ l
  size_eq : a.size = l.length
  free_nodup : a.free.Nodup
  mem_free : ∀ i, i ∈ a.free ↔ a.IsFree i

theorem listed_empty : (empty : LinkedArena α).Listed [] := by
  refine ⟨⟨List.nodup_nil, by simp, ?_⟩, ?_, rfl,
    List.nodup_nil, ?_⟩
  · intro u w hSplit
    obtain ⟨rfl, rfl⟩ : u = [] ∧ w = [] := by
      simpa using hSplit.symm
    exact ⟨rfl, rfl⟩
  · intro h hLive
    simp [get?, linked?, empty] at hLive
  · intro i
    simp [empty, IsFree]

namespace Listed

variable {a : LinkedArena α} {l : List Handle}

theorem isSome_get?_iff
    (hListed : a.Listed l)
    (h : Handle) :
    (a.get? h).isSome ↔ h ∈ l := by
  refine ⟨hListed.complete h, fun hMem => ?_⟩
  rw [isSome_get?]
  exact hListed.threads.hasLink h hMem

theorem modify
    (hListed : a.Listed l)
    (h : Handle)
    (f : α → α) :
    (a.modify h f).Listed l := by
  have hLinks :
      ∀ z, (a.modify h f).nextOf z = a.nextOf z ∧
        (a.modify h f).prevOf z = a.prevOf z := by
    intro z
    rw [LinkedArena.modify, nextOf_modifyLinked,
      prevOf_modifyLinked]
    by_cases hEq : z = some h <;>
      simp [hEq, nextOf, next?, prevOf]
  refine ⟨⟨hListed.threads.nodup, ?_, ?_⟩, ?_, hListed.size_eq,
    hListed.free_nodup, ?_⟩
  · intro k hk
    exact (hasLink_modifyLinked a h _ _).mpr
      (hListed.threads.hasLink k hk)
  · intro u w hSplit
    rw [(hLinks _).1, (hLinks _).2]
    exact hListed.threads.linked u w hSplit
  · intro k hLive
    apply hListed.complete
    rw [get?_modify] at hLive
    by_cases hEq : k = h <;> simpa [hEq] using hLive
  · intro i
    exact (hListed.mem_free i).trans
      (isFree_modifyLinked a h _ i).symm

------------------------------------------------------------
-- Moving
------------------------------------------------------------

theorem moveBefore
    {p q : List Handle}
    {h before : Handle}
    (hListed : a.Listed l)
    (hMem : h ∈ l)
    (hNe : h ≠ before)
    (hErase : l.erase h = p ++ before :: q) :
    (a.moveBefore h before).Listed (p ++ h :: before :: q) := by
  rcases List.append_of_mem hMem with ⟨u, w, rfl⟩
  have hNodup := hListed.threads.nodup
  have hNew : h ∉ u ++ w := by
    rw [List.nodup_middle, List.nodup_cons] at hNodup
    exact hNodup.1
  have hSides : h ∉ u := fun hk => hNew (by simp [hk])
  have hRest : u ++ w = p ++ before :: q := by
    rw [← hErase, List.erase_append_right _ hSides,
      List.erase_cons_head]
  have hOut := hListed.threads.unlink
  rw [hRest] at hOut hNew
  have hLive : (a.unlink h).HasLink (some h) := by
    rw [hasLink_unlink]
    exact hListed.threads.hasLink h hMem
  have hThreads := hOut.linkBefore hLive hNew
  unfold LinkedArena.moveBefore
  rw [if_neg hNe]
  refine ⟨hThreads, ?_, ?_, ?_, ?_⟩
  · intro k hk
    rw [get?_linkBefore, get?_unlink] at hk
    have hOld := hListed.complete k hk
    have hPerm : (u ++ h :: w).Perm (p ++ h :: before :: q) :=
      (List.perm_middle.trans
        (List.Perm.cons h (List.Perm.of_eq hRest))).trans
          List.perm_middle.symm
    exact hPerm.mem_iff.mp hOld
  · have hLength := congrArg List.length hRest
    simp only [size_linkBefore, size_unlink, hListed.size_eq]
    simp only [List.length_append, List.length_cons] at hLength ⊢
    omega
  · simpa using hListed.free_nodup
  · intro i
    rw [isFree_linkBefore, isFree_unlink, free_linkBefore,
      free_unlink]
    exact hListed.mem_free i

------------------------------------------------------------
-- Appending
------------------------------------------------------------

/-
  Where an item is put: the slot of the handle holds no item,
  and only that slot changes.
-/
theorem linked?_allocate
    (hListed : a.Listed l)
    (x : α)
    (k : Handle) :
    (a.allocate x).2.linked? k =
      if k = (a.allocate x).1 then some ⟨x, none, none⟩
      else a.linked? k := by
  rcases k with ⟨index, stamp⟩
  unfold allocate
  cases hFree : a.free with
  | nil =>
      by_cases hIndex : index = a.slots.size
      · by_cases hStamp : stamp = 0
        · simp [linked?, hIndex, hStamp]
        · have hOther : ¬ 0 = stamp := fun hEq => hStamp hEq.symm
          simp [linked?, hIndex, hStamp, hOther]
      · simp [linked?, hIndex, Array.getElem?_push]
  | cons i free =>
      rcases (hListed.mem_free i).mp (by simp [hFree]) with
        ⟨stamp', hSlot⟩
      by_cases hIndex : index = i
      · by_cases hStamp : stamp = stamp'
        · simp [linked?, hIndex, hStamp, hSlot,
            Array.getElem?_modify]
        · have hOther : ¬ stamp' = stamp := fun hEq =>
            hStamp hEq.symm
          simp [linked?, hIndex, hStamp, hOther, hSlot,
            Array.getElem?_modify]
      · have hOther : ¬ i = index := fun hEq => hIndex hEq.symm
        simp [linked?, hIndex, hOther, Array.getElem?_modify]

theorem linked?_fst_allocate
    (hListed : a.Listed l)
    (x : α) :
    a.linked? (a.allocate x).1 = none := by
  unfold allocate
  cases hFree : a.free with
  | nil => simp [linked?]
  | cons i free =>
      rcases (hListed.mem_free i).mp (by simp [hFree]) with
        ⟨stamp, hSlot⟩
      simp [linked?, hSlot]

theorem fst_allocate_not_mem
    (hListed : a.Listed l)
    (x : α) :
    (a.allocate x).1 ∉ l := by
  intro hMem
  have hLive := hListed.threads.hasLink _ hMem
  rw [HasLink, hListed.linked?_fst_allocate] at hLive
  simp at hLive

/- A new item takes a free slot, and no link changes. -/
theorem threads_allocate
    (hListed : a.Listed l)
    (x : α) :
    (a.allocate x).2.Threads l := by
  have hHead : (a.allocate x).2.head = a.head := by
    unfold allocate
    cases a.free <;> rfl
  have hTail : (a.allocate x).2.tail = a.tail := by
    unfold allocate
    cases a.free <;> rfl
  have hOther :
      ∀ k ∈ l, (a.allocate x).2.linked? k = a.linked? k := by
    intro k hk
    rw [hListed.linked?_allocate]
    have hNe : k ≠ (a.allocate x).1 := by
      rintro rfl
      exact hListed.fst_allocate_not_mem x hk
    rw [if_neg hNe]
  refine ⟨hListed.threads.nodup, ?_, ?_⟩
  · intro k hk
    rw [HasLink, hOther k hk]
    exact hListed.threads.hasLink k hk
  · intro u w hSplit
    rcases hListed.threads.linked u w hSplit with ⟨hNext, hPrev⟩
    constructor
    · rw [← hNext]
      cases hLast : u.getLast? with
      | none => exact hHead
      | some k =>
          have hk : k ∈ l := by
            simp [hSplit, List.mem_of_getLast? hLast]
          simp [nextOf, next?, hOther k hk]
    · rw [← hPrev]
      cases hFirst : w.head? with
      | none => exact hTail
      | some k =>
          have hk : k ∈ l := by
            simp [hSplit, List.mem_of_head? hFirst]
          simp [prevOf, hOther k hk]

theorem isFree_allocate
    (hListed : a.Listed l)
    (x : α)
    (i : Nat) :
    (a.allocate x).2.IsFree i ↔ i ∈ a.free.tail := by
  unfold allocate
  cases hFree : a.free with
  | nil =>
      have hNone : ¬ a.IsFree i := by
        rw [← hListed.mem_free, hFree]
        exact List.not_mem_nil
      simp only [IsFree] at hNone
      by_cases hIndex : i = a.slots.size <;>
        simp_all [IsFree, Array.getElem?_push]
  | cons j free =>
      have hNodup := hListed.free_nodup
      rw [hFree, List.nodup_cons] at hNodup
      have hMem := hListed.mem_free i
      rw [hFree] at hMem
      rcases (hListed.mem_free j).mp (by simp [hFree]) with
        ⟨stamp, hSlot⟩
      by_cases hIndex : i = j
      · subst hIndex
        simp [IsFree, hSlot, hNodup.1, Array.getElem?_modify]
      · have hOther : ¬ j = i := fun hEq => hIndex hEq.symm
        simp only [List.mem_cons, hIndex, false_or] at hMem
        rw [List.tail_cons, hMem]
        simp [IsFree, Array.getElem?_modify, hOther]

/- An item is appended under a handle that was not in use. -/
theorem pushBack
    (hListed : a.Listed l)
    (x : α) :
    (a.pushBack x).2.Listed (l ++ [(a.pushBack x).1]) := by
  have hThreads := hListed.threads_allocate x
  have hLive : (a.allocate x).2.HasLink (some (a.allocate x).1) := by
    rw [HasLink, hListed.linked?_allocate]
    simp
  have hNew := hListed.fst_allocate_not_mem x
  unfold LinkedArena.pushBack
  refine ⟨?_, ?_, ?_, ?_, ?_⟩
  · exact Threads.linkBefore (p := l) (q := [])
      (by simpa using hThreads) hLive (by simpa using hNew)
  · intro k hk
    rw [get?_linkBefore, isSome_get?,
      hListed.linked?_allocate] at hk
    by_cases hEq : k = (a.allocate x).1
    · simp [hEq]
    · rw [if_neg hEq, ← isSome_get?] at hk
      exact List.mem_append_left _ (hListed.complete k hk)
  · have hSize : (a.allocate x).2.size = a.size + 1 := by
      unfold allocate
      cases a.free <;> rfl
    simp [hSize, hListed.size_eq]
  · have hFree : (a.allocate x).2.free = a.free.tail := by
      unfold allocate
      cases hFree : a.free <;> simp
    simpa [hFree] using hListed.free_nodup.tail
  · intro i
    have hFree : (a.allocate x).2.free = a.free.tail := by
      unfold allocate
      cases hFree : a.free <;> simp
    rw [isFree_linkBefore, free_linkBefore, hFree,
      hListed.isFree_allocate]

theorem fst_pushBack_not_mem
    (hListed : a.Listed l)
    (x : α) :
    (a.pushBack x).1 ∉ l :=
  hListed.fst_allocate_not_mem x

theorem get?_fst_pushBack
    (hListed : a.Listed l)
    (x : α) :
    a.get? (a.pushBack x).1 = none := by
  simp [LinkedArena.pushBack, get?, hListed.linked?_fst_allocate]

theorem get?_pushBack
    (hListed : a.Listed l)
    (x : α)
    (k : Handle) :
    (a.pushBack x).2.get? k =
      if k = (a.pushBack x).1 then some x else a.get? k := by
  unfold LinkedArena.pushBack
  rw [get?_linkBefore]
  unfold get?
  rw [hListed.linked?_allocate]
  by_cases hEq : k = (a.allocate x).1 <;> simp [hEq]

------------------------------------------------------------
-- Removing
------------------------------------------------------------

theorem linked?_release
    {h : Handle}
    (hLive : a.HasLink (some h))
    (k : Handle) :
    (a.release h).linked? k =
      if k = h then none else a.linked? k := by
  rcases Option.isSome_iff_exists.mp hLive with ⟨x, hLinked⟩
  rw [linked?_eq_some_iff] at hLinked
  rcases k with ⟨index, stamp⟩
  unfold linked? LinkedArena.release
  rw [Array.getElem?_modify]
  by_cases hIndex : h.index = index
  · subst hIndex
    by_cases hStamp : stamp = h.stamp
    · subst hStamp
      simp [hLinked]
    · have hEq : ¬ (⟨h.index, stamp⟩ : Handle) = h := by
        intro hEq
        exact hStamp (by rw [← hEq])
      have hOther : ¬ h.stamp = stamp := fun hEq => hStamp hEq.symm
      simp [hLinked, hEq, hOther]
  · have hEq : ¬ (⟨index, stamp⟩ : Handle) = h := by
      intro hEq
      exact hIndex (by rw [← hEq])
    simp [hIndex, hEq]

theorem isFree_release
    {h : Handle}
    (hLive : a.HasLink (some h))
    (i : Nat) :
    (a.release h).IsFree i ↔ i = h.index ∨ a.IsFree i := by
  rcases Option.isSome_iff_exists.mp hLive with ⟨x, hLinked⟩
  rw [linked?_eq_some_iff] at hLinked
  unfold IsFree LinkedArena.release
  rw [Array.getElem?_modify]
  by_cases hIndex : h.index = i
  · subst hIndex
    simp [hLinked]
  · have hOther : ¬ i = h.index := fun hEq => hIndex hEq.symm
    simp [hIndex, hOther]

/- The items of all other handles stay when one is removed. -/
theorem get?_remove
    (h k : Handle) :
    (a.remove h).2.get? k = if k = h then none else a.get? k := by
  unfold LinkedArena.remove
  cases hItem : a.get? h with
  | none => by_cases hEq : k = h <;> simp [hEq, hItem]
  | some x =>
      have hLive : (a.unlink h).HasLink (some h) := by
        rw [hasLink_unlink, HasLink, ← isSome_get?, hItem]
        rfl
      simp only [get?, linked?_release hLive]
      by_cases hEq : k = h
      · simp [hEq]
      · simpa [hEq, get?] using get?_unlink a h k

@[simp] theorem fst_remove
    (h : Handle) :
    (a.remove h).1 = a.get? h := by
  unfold LinkedArena.remove
  cases a.get? h <;> rfl

/- A live handle is taken out of the list. -/
theorem remove
    {h : Handle}
    (hListed : a.Listed l)
    (hMem : h ∈ l) :
    (a.remove h).2.Listed (l.erase h) := by
  rcases List.append_of_mem hMem with ⟨u, w, rfl⟩
  have hNodup := hListed.threads.nodup
  rw [List.nodup_middle, List.nodup_cons] at hNodup
  have hSides : h ∉ u := fun hk => hNodup.1 (by simp [hk])
  have hErase : (u ++ h :: w).erase h = u ++ w := by
    rw [List.erase_append_right _ hSides, List.erase_cons_head]
  rcases Option.isSome_iff_exists.mp
    ((hListed.isSome_get?_iff h).mpr hMem) with ⟨x, hItem⟩
  have hLive : (a.unlink h).HasLink (some h) := by
    rw [hasLink_unlink]
    exact hListed.threads.hasLink h hMem
  have hOut := hListed.threads.unlink
  have hRemove : (a.remove h).2 = (a.unlink h).release h := by
    unfold LinkedArena.remove
    rw [hItem]
  have hOther :
      ∀ k ∈ u ++ w,
        ((a.unlink h).release h).linked? k =
          (a.unlink h).linked? k := by
    intro k hk
    have hNe : k ≠ h := by
      rintro rfl
      exact hNodup.1 hk
    rw [linked?_release hLive, if_neg hNe]
  rw [hErase]
  refine ⟨⟨hNodup.2, ?_, ?_⟩, ?_, ?_, ?_, ?_⟩
  · intro k hk
    rw [hRemove, HasLink, hOther k hk]
    exact hOut.hasLink k hk
  · intro p q hSplit
    rcases hOut.linked p q hSplit with ⟨hNext, hPrev⟩
    rw [hRemove]
    constructor
    · rw [← hNext]
      cases hLast : p.getLast? with
      | none => rfl
      | some k =>
          have hk : k ∈ u ++ w := by
            simp [hSplit, List.mem_of_getLast? hLast]
          simp [nextOf, next?, hOther k hk]
    · rw [← hPrev]
      cases hFirst : q.head? with
      | none => rfl
      | some k =>
          have hk : k ∈ u ++ w := by
            simp [hSplit, List.mem_of_head? hFirst]
          simp [prevOf, hOther k hk]
  · intro k hk
    rw [get?_remove] at hk
    by_cases hEq : k = h
    · simp [hEq] at hk
    · rw [if_neg hEq] at hk
      have hOld := hListed.complete k hk
      simpa [hEq] using hOld
  · rw [hRemove]
    have hSize := hListed.size_eq
    simp only [LinkedArena.release, size_unlink, hSize]
    simp only [List.length_append, List.length_cons]
    omega
  · rw [hRemove]
    simp only [LinkedArena.release, free_unlink, List.nodup_cons]
    refine ⟨?_, hListed.free_nodup⟩
    rw [hListed.mem_free]
    rintro ⟨stamp, hSlot⟩
    rcases Option.isSome_iff_exists.mp
      (hListed.threads.hasLink h hMem) with ⟨y, hLinked⟩
    rw [linked?_eq_some_iff, hSlot] at hLinked
    simp at hLinked
  · intro i
    rw [hRemove, isFree_release hLive, isFree_unlink]
    simp [LinkedArena.release, hListed.mem_free]

theorem remove_of_not_mem
    {h : Handle}
    (hListed : a.Listed l)
    (hMem : h ∉ l) :
    a.remove h = (none, a) := by
  have hItem : a.get? h = none := by
    cases hItem : a.get? h with
    | none => rfl
    | some x =>
        exact absurd (hListed.complete h (by simp [hItem])) hMem
  unfold LinkedArena.remove
  rw [hItem]

------------------------------------------------------------
-- Running Through The List
------------------------------------------------------------

theorem first?_eq (hListed : a.Listed l) :
    a.first? = l.head? :=
  (hListed.threads.linked [] l rfl).1

theorem next?_eq
    {p q : List Handle}
    {h : Handle}
    (hListed : a.Listed (p ++ h :: q)) :
    a.next? h = q.head? := by
  have hCut := (hListed.threads.linked (p ++ [h]) q (by simp)).1
  simpa [nextOf] using hCut

theorem handlesFrom_eq
    {p q : List Handle}
    (hListed : a.Listed (p ++ q))
    (fuel : Nat)
    (hFuel : q.length < fuel) :
    a.handlesFrom fuel q.head? = q := by
  induction q generalizing p fuel with
  | nil => cases fuel <;> rfl
  | cons h q ih =>
      cases fuel with
      | zero => simp at hFuel
      | succ fuel =>
          rw [List.head?_cons, LinkedArena.handlesFrom,
            hListed.next?_eq,
            ih (p := p ++ [h]) (by simpa using hListed) fuel
              (by simpa using hFuel)]

/- The handles of an arena are the ones that it lists. -/
theorem handles_eq (hListed : a.Listed l) : a.handles = l := by
  unfold LinkedArena.handles
  have hFirst : a.head = l.head? := hListed.first?_eq
  rw [hFirst]
  exact handlesFrom_eq (p := []) hListed _ (by
    rw [hListed.size_eq]
    exact Nat.lt_succ_self _)

end Listed

end LinkedArena

end Spreadsheet
