import Mathlib.Data.List.Nodup
import Spreadsheet.LinkedArena

/-
  The list of handles that the links of an arena thread.

  The two ends of the list are joined by a sentinel, which is
  `none`: what follows the sentinel is the first handle, and
  what precedes it is the last one.

  Main declarations:
    * `LinkedArena.Threads`
    * `LinkedArena.Threads.unlink`
    * `LinkedArena.Threads.linkBefore`
-/

namespace Spreadsheet

namespace LinkedArena

variable {α : Type}

------------------------------------------------------------
-- Items
------------------------------------------------------------

theorem linked?_eq_some_iff
    {a : LinkedArena α}
    {h : Handle}
    {x : LinkedItem α} :
    a.linked? h = some x ↔
      a.slots[h.index]? = some ⟨h.stamp, some x⟩ := by
  unfold linked?
  constructor
  · intro hLinked
    rcases Option.bind_eq_some_iff.mp hLinked with
      ⟨⟨stamp, content⟩, hSlot, hItem⟩
    by_cases hStamp : stamp = h.stamp
    · simp only [hStamp, if_true] at hItem
      rw [hSlot, hStamp, hItem]
    · simp [hStamp] at hItem
  · intro hSlot
    simp [hSlot]

/- Changing an item affects no other handle. -/
theorem linked?_modifyLinked
    (a : LinkedArena α)
    (h k : Handle)
    (f : LinkedItem α → LinkedItem α) :
    (a.modifyLinked h f).linked? k =
      if k = h then (a.linked? k).map f else a.linked? k := by
  unfold linked? modifyLinked
  rw [Array.getElem?_modify]
  by_cases hIndex : h.index = k.index
  · cases hSlot : a.slots[k.index]? with
    | none => simp [hIndex]
    | some slot =>
        by_cases hEq : k = h
        · subst hEq
          by_cases hStamp : slot.stamp = k.stamp <;> simp [hStamp]
        · have hStamps : k.stamp ≠ h.stamp := by
            intro hStamp
            exact hEq (by cases k; cases h; simp_all)
          by_cases hStamp : slot.stamp = h.stamp
          · simp [hIndex, hEq, hStamp, hStamps.symm]
          · simp [hIndex, hEq, hStamp]
  · have hEq : k ≠ h := by
      intro hEq
      exact hIndex (by rw [hEq])
    simp [hIndex, hEq]

@[simp] theorem size_modifyLinked
    (a : LinkedArena α)
    (h : Handle)
    (f : LinkedItem α → LinkedItem α) :
    (a.modifyLinked h f).size = a.size := rfl

@[simp] theorem free_modifyLinked
    (a : LinkedArena α)
    (h : Handle)
    (f : LinkedItem α → LinkedItem α) :
    (a.modifyLinked h f).free = a.free := rfl

theorem get?_eq_some_iff
    {a : LinkedArena α}
    {h : Handle}
    {x : α} :
    a.get? h = some x ↔
      ∃ l, a.linked? h = some l ∧ l.item = x := by
  simp [get?]

theorem isSome_get?
    (a : LinkedArena α)
    (h : Handle) :
    (a.get? h).isSome = (a.linked? h).isSome := by
  simp [get?]

/- A change of neighbours changes no item. -/
theorem get?_modifyLinked_of_item
    (a : LinkedArena α)
    (h k : Handle)
    {f : LinkedItem α → LinkedItem α}
    (hItem : ∀ l, (f l).item = l.item) :
    (a.modifyLinked h f).get? k = a.get? k := by
  unfold get?
  rw [linked?_modifyLinked]
  by_cases hEq : k = h
  · cases hLinked : a.linked? k <;> simp [hEq, hItem]
  · simp [hEq]

@[simp] theorem get?_modify
    (a : LinkedArena α)
    (h k : Handle)
    (f : α → α) :
    (a.modify h f).get? k =
      if k = h then (a.get? k).map f else a.get? k := by
  unfold modify get?
  rw [linked?_modifyLinked]
  by_cases hEq : k = h
  · subst hEq
    cases hLinked : a.linked? k <;> simp
  · simp [hEq]

/- Only what becomes of the item itself matters. -/
theorem modify_congr
    {a : LinkedArena α}
    {h : Handle}
    {f f' : α → α}
    (hSame : ∀ x, a.get? h = some x → f x = f' x) :
    a.modify h f = a.modify h f' := by
  unfold modify modifyLinked
  congr 1
  refine Array.ext_getElem? fun i => ?_
  rw [Array.getElem?_modify, Array.getElem?_modify]
  split
  · rename_i hIndex
    subst hIndex
    refine Option.map_congr fun slot hSlot => ?_
    split
    · rename_i hStamp
      cases hContent : slot.content with
      | none => rfl
      | some l =>
          have hLive : a.get? h = some l.item := by
            unfold get? linked?
            rw [hSlot, Option.bind_some, if_pos hStamp, hContent]
            rfl
          simp only [Option.map_some, hSame l.item hLive]
    · rfl
  · rfl

/- Nothing becomes of an item that was removed. -/
theorem modify_of_gone
    {a : LinkedArena α}
    {h : Handle}
    (hGone : a.get? h = none)
    (f : α → α) :
    a.modify h f = a := by
  have hSame : a.modify h f = a.modify h fun x => x :=
    modify_congr fun x hLive => by
      rw [hGone] at hLive
      cases hLive
  have hSlots : (a.modify h fun x => x).slots = a.slots := by
    unfold modify modifyLinked
    refine Array.ext_getElem? fun i => ?_
    rw [Array.getElem?_modify]
    split <;> simp
  rw [hSame]
  change { a with slots := (a.modify h fun x => x).slots } = a
  rw [hSlots]

------------------------------------------------------------
-- Links
------------------------------------------------------------

/- What follows a handle, or what the list starts with. -/
def nextOf (a : LinkedArena α) : Option Handle → Option Handle
  | some h => a.next? h
  | none => a.head

/- The sentinel is always there to be linked. -/
def HasLink (a : LinkedArena α) : Option Handle → Prop
  | some h => (a.linked? h).isSome
  | none => True

theorem hasLink_modifyLinked
    (a : LinkedArena α)
    (h : Handle)
    (f : LinkedItem α → LinkedItem α)
    (z : Option Handle) :
    (a.modifyLinked h f).HasLink z ↔ a.HasLink z := by
  cases z with
  | none => rfl
  | some k =>
      simp only [HasLink, linked?_modifyLinked]
      by_cases hEq : k = h <;> simp [hEq]

theorem hasLink_setNext
    (a : LinkedArena α)
    (x y z : Option Handle) :
    (a.setNext x y).HasLink z ↔ a.HasLink z := by
  cases x with
  | none => cases z <;> rfl
  | some h => exact hasLink_modifyLinked a h _ z

theorem hasLink_setPrev
    (a : LinkedArena α)
    (x y z : Option Handle) :
    (a.setPrev x y).HasLink z ↔ a.HasLink z := by
  cases x with
  | none => cases z <;> rfl
  | some h => exact hasLink_modifyLinked a h _ z

theorem nextOf_modifyLinked
    (a : LinkedArena α)
    (h : Handle)
    (f : LinkedItem α → LinkedItem α)
    (z : Option Handle) :
    (a.modifyLinked h f).nextOf z =
      if z = some h then
        (a.linked? h).bind fun l => (f l).next
      else
        a.nextOf z := by
  cases z with
  | none => rfl
  | some k =>
      by_cases hEq : k = h
      · subst hEq
        cases hLinked : a.linked? k <;>
          simp [nextOf, next?, linked?_modifyLinked, hLinked]
      · simp [nextOf, next?, linked?_modifyLinked, hEq]

theorem prevOf_modifyLinked
    (a : LinkedArena α)
    (h : Handle)
    (f : LinkedItem α → LinkedItem α)
    (z : Option Handle) :
    (a.modifyLinked h f).prevOf z =
      if z = some h then
        (a.linked? h).bind fun l => (f l).prev
      else
        a.prevOf z := by
  cases z with
  | none => rfl
  | some k =>
      by_cases hEq : k = h
      · subst hEq
        cases hLinked : a.linked? k <;>
          simp [prevOf, linked?_modifyLinked, hLinked]
      · simp [prevOf, linked?_modifyLinked, hEq]

theorem nextOf_setNext
    (a : LinkedArena α)
    {x : Option Handle}
    (hLink : a.HasLink x)
    (y z : Option Handle) :
    (a.setNext x y).nextOf z = if z = x then y else a.nextOf z := by
  cases x with
  | none => cases z <;> rfl
  | some h =>
      rcases Option.isSome_iff_exists.mp hLink with ⟨l, hLinked⟩
      simp [setNext, nextOf_modifyLinked, hLinked]

theorem prevOf_setNext
    (a : LinkedArena α)
    (x y z : Option Handle) :
    (a.setNext x y).prevOf z = a.prevOf z := by
  cases x with
  | none => cases z <;> rfl
  | some h =>
      rw [setNext, prevOf_modifyLinked]
      by_cases hEq : z = some h
      · simp [hEq, prevOf]
      · simp [hEq]

theorem prevOf_setPrev
    (a : LinkedArena α)
    {x : Option Handle}
    (hLink : a.HasLink x)
    (y z : Option Handle) :
    (a.setPrev x y).prevOf z = if z = x then y else a.prevOf z := by
  cases x with
  | none => cases z <;> rfl
  | some h =>
      rcases Option.isSome_iff_exists.mp hLink with ⟨l, hLinked⟩
      simp [setPrev, prevOf_modifyLinked, hLinked]

theorem nextOf_setPrev
    (a : LinkedArena α)
    (x y z : Option Handle) :
    (a.setPrev x y).nextOf z = a.nextOf z := by
  cases x with
  | none => cases z <;> rfl
  | some h =>
      rw [setPrev, nextOf_modifyLinked]
      by_cases hEq : z = some h
      · simp [hEq, nextOf, next?]
      · simp [hEq]

------------------------------------------------------------
-- Threaded Lists
------------------------------------------------------------

/-
  The links lead through a list of handles: wherever it is
  cut, the two handles at the cut are linked to each other.
-/
structure Threads (a : LinkedArena α) (l : List Handle) : Prop where
  nodup : l.Nodup
  hasLink : ∀ h ∈ l, a.HasLink (some h)
  linked :
    ∀ u w, l = u ++ w →
      a.nextOf u.getLast? = w.head? ∧
        a.prevOf w.head? = u.getLast?

namespace Threads

variable {a : LinkedArena α} {l : List Handle}

theorem hasLink_getLast?
    {u w : List Handle}
    (hThreads : a.Threads (u ++ w)) :
    a.HasLink u.getLast? := by
  cases hLast : u.getLast? with
  | none => trivial
  | some h =>
      exact hThreads.hasLink h
        (List.mem_append_left _ (List.mem_of_getLast? hLast))

theorem hasLink_head?
    {u w : List Handle}
    (hThreads : a.Threads (u ++ w)) :
    a.HasLink w.head? := by
  cases hHead : w.head? with
  | none => trivial
  | some h =>
      exact hThreads.hasLink h
        (List.mem_append_right _ (List.mem_of_head? hHead))

end Threads

------------------------------------------------------------
-- Cuts
------------------------------------------------------------

section Cuts

variable {p q r u w : List Handle}
variable {h : Handle}

/- Lists without a common handle end with different ones. -/
theorem getLast?_ne_of_disjoint
    (hRest : r ≠ [])
    (hDisjoint : r.Disjoint u) :
    r.getLast? ≠ u.getLast? := by
  intro hEq
  have hLast := List.getLast?_eq_some_getLast hRest
  exact hDisjoint (List.getLast_mem hRest)
    (List.mem_of_getLast? (hEq ▸ hLast))

/- Lists without a common handle start with different ones. -/
theorem head?_ne_of_disjoint
    (hRest : r ≠ [])
    (hDisjoint : r.Disjoint w) :
    r.head? ≠ w.head? := by
  intro hEq
  have hHead := List.head?_eq_some_head hRest
  exact hDisjoint (List.head_mem hRest)
    (List.mem_of_head? (hEq ▸ hHead))

theorem getLast?_ne_of_not_mem (hNew : h ∉ u) :
    u.getLast? ≠ some h :=
  fun hEq => hNew (List.mem_of_getLast? hEq)

theorem head?_ne_of_not_mem (hNew : h ∉ w) :
    w.head? ≠ some h :=
  fun hEq => hNew (List.mem_of_head? hEq)

/-
  A cut behind the first handle after the place between `p`
  and `q` touches neither that place nor a new handle.
-/
theorem cut_behind
    (hNodup : (p ++ (r ++ w)).Nodup)
    (hNew : h ∉ p ++ (r ++ w))
    (hRest : r ≠ []) :
    r.getLast? ≠ p.getLast? ∧ r.getLast? ≠ some h ∧
      w.head? ≠ (r ++ w).head? ∧ w.head? ≠ some h := by
  simp only [List.mem_append, not_or] at hNew
  rcases List.nodup_append'.mp hNodup with ⟨-, hRight, hDisjoint⟩
  rcases List.nodup_append'.mp hRight with ⟨-, -, hInner⟩
  refine ⟨?_, getLast?_ne_of_not_mem hNew.2.1, ?_,
    head?_ne_of_not_mem hNew.2.2⟩
  · apply getLast?_ne_of_disjoint hRest
    exact fun k hk hk' => hDisjoint hk' (List.mem_append_left _ hk)
  · rw [List.head?_append_of_ne_nil _ hRest]
    exact (head?_ne_of_disjoint hRest hInner).symm

/-
  A cut before the last handle in front of the place between
  `p` and `q` touches neither that place nor a new handle.
-/
theorem cut_ahead
    (hNodup : (u ++ r ++ q).Nodup)
    (hNew : h ∉ u ++ r ++ q)
    (hRest : r ≠ []) :
    u.getLast? ≠ (u ++ r).getLast? ∧ u.getLast? ≠ some h ∧
      r.head? ≠ q.head? ∧ r.head? ≠ some h := by
  simp only [List.mem_append, not_or] at hNew
  rcases List.nodup_append'.mp hNodup with ⟨hLeft, -, hDisjoint⟩
  rcases List.nodup_append'.mp hLeft with ⟨-, -, hInner⟩
  refine ⟨?_, getLast?_ne_of_not_mem hNew.1.1, ?_,
    head?_ne_of_not_mem hNew.1.2⟩
  · rw [List.getLast?_append_of_ne_nil _ hRest]
    exact (getLast?_ne_of_disjoint hRest
      (List.disjoint_comm.mp hInner)).symm
  · apply head?_ne_of_disjoint hRest
    exact fun k hk hk' => hDisjoint (List.mem_append_right _ hk) hk'

end Cuts

------------------------------------------------------------
-- Taking Out And Putting In
------------------------------------------------------------

section Relink

variable {a : LinkedArena α}
variable {p q : List Handle}
variable {h : Handle}

theorem Threads.linked?_middle
    (hThreads : a.Threads (p ++ h :: q)) :
    ∃ x, a.linked? h = some ⟨x, p.getLast?, q.head?⟩ := by
  have hLink := hThreads.hasLink h (by simp)
  rcases Option.isSome_iff_exists.mp hLink with
    ⟨⟨x, prev, next⟩, hLinked⟩
  have hPrev : prev = p.getLast? := by
    have hCut := (hThreads.linked p (h :: q) rfl).2
    simpa [prevOf, hLinked] using hCut
  have hNext : next = q.head? := by
    have hCut := (hThreads.linked (p ++ [h]) q (by simp)).1
    simpa [nextOf, next?, hLinked] using hCut
  exact ⟨x, by rw [hLinked, hPrev, hNext]⟩

theorem hasLink_unlink (z : Option Handle) :
    (a.unlink h).HasLink z ↔ a.HasLink z := by
  unfold unlink
  cases a.linked? h with
  | none => rfl
  | some l =>
      simp only [hasLink_setPrev, hasLink_setNext,
        hasLink_modifyLinked]

theorem Threads.nextOf_unlink
    (hThreads : a.Threads (p ++ h :: q))
    (z : Option Handle) :
    (a.unlink h).nextOf z =
      if z = p.getLast? then q.head?
      else if z = some h then none
      else a.nextOf z := by
  rcases hThreads.linked?_middle with ⟨x, hLinked⟩
  have hLink := hThreads.hasLink_getLast?
  rw [← hasLink_modifyLinked a h
    ({ · with prev := none, next := none })] at hLink
  simp only [unlink, hLinked, nextOf_setPrev,
    nextOf_setNext _ hLink, nextOf_modifyLinked,
    Option.bind_some]

theorem Threads.prevOf_unlink
    (hThreads : a.Threads (p ++ h :: q))
    (z : Option Handle) :
    (a.unlink h).prevOf z =
      if z = q.head? then p.getLast?
      else if z = some h then none
      else a.prevOf z := by
  rcases hThreads.linked?_middle with ⟨x, hLinked⟩
  have hLink : a.HasLink q.head? :=
    Threads.hasLink_head? (u := p ++ [h]) (by simpa using hThreads)
  have hLink' :
      ((a.modifyLinked h
        ({ · with prev := none, next := none })).setNext
          p.getLast? q.head?).HasLink q.head? := by
    rwa [hasLink_setNext, hasLink_modifyLinked]
  simp only [unlink, hLinked, prevOf_setPrev _ hLink',
    prevOf_setNext, prevOf_modifyLinked, Option.bind_some]

/- The neighbours of a handle that is taken out are joined. -/
theorem Threads.unlink
    (hThreads : a.Threads (p ++ h :: q)) :
    (a.unlink h).Threads (p ++ q) := by
  have hNodup := hThreads.nodup
  rw [List.nodup_middle, List.nodup_cons] at hNodup
  rcases hNodup with ⟨hNew, hNodup⟩
  refine ⟨hNodup, ?_, ?_⟩
  · intro k hk
    rw [hasLink_unlink]
    exact hThreads.hasLink k (by
      rcases List.mem_append.mp hk with hk | hk <;> simp [hk])
  intro u w hSplit
  rw [hThreads.nextOf_unlink, hThreads.prevOf_unlink]
  rcases List.append_eq_append_iff.mp hSplit with
    ⟨r, rfl, rfl⟩ | ⟨r, rfl, rfl⟩
  · by_cases hEmpty : r = []
    · simp [hEmpty]
    · have hCut := hThreads.linked (p ++ h :: r) w (by simp)
      rcases cut_behind hNodup hNew hEmpty with
        ⟨hLast, hSelf, hHead, hSelf'⟩
      rw [List.getLast?_append_cons, List.getLast?_cons_of_ne_nil
        hEmpty] at hCut
      rw [List.getLast?_append_of_ne_nil _ hEmpty]
      simp only [hLast, hSelf, hHead, hSelf', if_false]
      exact hCut
  · by_cases hEmpty : r = []
    · simp [hEmpty]
    · have hCut := hThreads.linked u (r ++ h :: q) (by simp)
      rcases cut_ahead hNodup hNew hEmpty with
        ⟨hLast, hSelf, hHead, hSelf'⟩
      rw [List.head?_append_of_ne_nil _ hEmpty] at hCut ⊢
      simp only [hLast, hSelf, hHead, hSelf', if_false]
      exact hCut

theorem hasLink_linkBefore
    (before z : Option Handle) :
    (a.linkBefore h before).HasLink z ↔ a.HasLink z := by
  simp only [linkBefore, hasLink_setPrev, hasLink_setNext,
    hasLink_modifyLinked]

theorem Threads.nextOf_linkBefore
    (hThreads : a.Threads (p ++ q))
    (hLive : a.HasLink (some h))
    (z : Option Handle) :
    (a.linkBefore h q.head?).nextOf z =
      if z = p.getLast? then some h
      else if z = some h then q.head?
      else a.nextOf z := by
  have hPrev := (hThreads.linked p q rfl).2
  have hLink := hThreads.hasLink_getLast?
  rcases Option.isSome_iff_exists.mp hLive with ⟨l, hLinked⟩
  rw [← hasLink_modifyLinked a h
    ({ · with prev := p.getLast?, next := q.head? })] at hLink
  simp only [linkBefore, hPrev, nextOf_setPrev,
    nextOf_setNext _ hLink, nextOf_modifyLinked, hLinked,
    Option.bind_some]

theorem Threads.prevOf_linkBefore
    (hThreads : a.Threads (p ++ q))
    (hLive : a.HasLink (some h))
    (z : Option Handle) :
    (a.linkBefore h q.head?).prevOf z =
      if z = q.head? then some h
      else if z = some h then p.getLast?
      else a.prevOf z := by
  have hPrev := (hThreads.linked p q rfl).2
  rcases Option.isSome_iff_exists.mp hLive with ⟨l, hLinked⟩
  have hLink :
      ((a.modifyLinked h
        ({ · with prev := p.getLast?, next := q.head? })).setNext
          p.getLast? (some h)).HasLink q.head? := by
    rw [hasLink_setNext, hasLink_modifyLinked]
    exact hThreads.hasLink_head?
  simp only [linkBefore, hPrev, prevOf_setPrev _ hLink,
    prevOf_setNext, prevOf_modifyLinked, hLinked,
    Option.bind_some]

/- A new handle comes to stand between its neighbours. -/
theorem Threads.linkBefore
    (hThreads : a.Threads (p ++ q))
    (hLive : a.HasLink (some h))
    (hNew : h ∉ p ++ q) :
    (a.linkBefore h q.head?).Threads (p ++ h :: q) := by
  have hNodup := hThreads.nodup
  have hSides : h ∉ p ∧ h ∉ q := by simpa using hNew
  refine ⟨?_, ?_, ?_⟩
  · rw [List.nodup_middle, List.nodup_cons]
    exact ⟨hNew, hNodup⟩
  · intro k hk
    rw [hasLink_linkBefore]
    by_cases hEq : k = h
    · rwa [hEq]
    · exact hThreads.hasLink k (by simpa [hEq] using hk)
  intro u w hSplit
  rw [hThreads.nextOf_linkBefore hLive,
    hThreads.prevOf_linkBefore hLive]
  rcases List.append_eq_append_iff.mp hSplit with
    ⟨r, rfl, hQ⟩ | ⟨r, rfl, rfl⟩
  · cases r with
    | nil =>
        obtain rfl : w = h :: q := by simpa using hQ.symm
        simp [(head?_ne_of_not_mem hSides.2).symm]
    | cons k r =>
        obtain ⟨rfl, rfl⟩ : k = h ∧ q = r ++ w := by
          simpa [eq_comm] using hQ
        by_cases hEmpty : r = []
        · simp [hEmpty, (getLast?_ne_of_not_mem hSides.1).symm]
        · have hCut := hThreads.linked (p ++ r) w (by simp)
          rcases cut_behind hNodup hNew hEmpty with
            ⟨hLast, hSelf, hHead, hSelf'⟩
          rw [List.getLast?_append_of_ne_nil _ hEmpty] at hCut
          rw [List.getLast?_append_cons,
            List.getLast?_cons_of_ne_nil hEmpty]
          simp only [hLast, hSelf, hHead, hSelf', if_false]
          exact hCut
  · by_cases hEmpty : r = []
    · simp [hEmpty, (head?_ne_of_not_mem hSides.2).symm]
    · have hCut := hThreads.linked u (r ++ q) (by simp)
      rcases cut_ahead hNodup hNew hEmpty with
        ⟨hLast, hSelf, hHead, hSelf'⟩
      rw [List.head?_append_of_ne_nil _ hEmpty] at hCut ⊢
      simp only [hLast, hSelf, hHead, hSelf', if_false]
      exact hCut

end Relink

end LinkedArena

end Spreadsheet
