import Mathlib
import Spreadsheet.Proofs.LinkedArena.Issued

/-
  An arena and the list that it stands for.

  A ledger keeps the list of handles, the item of each, and
  the handles that were removed. Every call does to the arena
  what it does to the ledger, so that after any calls the
  arena can be read off the ledger.

  Main declarations:
    * `LinkedArena.Ledger`
    * `LinkedArena.Call.note`
    * `LinkedArena.Keeps.step`
    * `LinkedArena.Describes`
    * `LinkedArena.describes_of_calls`
-/

namespace Spreadsheet

namespace LinkedArena

variable {α : Type}

------------------------------------------------------------
-- Ledgers
------------------------------------------------------------

/-
  The handles of an arena in order, their items, and the
  handles that were removed from it.
-/
structure Ledger (α : Type) where
  ids : List Handle
  items : Handle → Option α
  removed : List Handle

namespace Ledger

/- The ledger of an arena without items. -/
def empty : Ledger α := ⟨[], fun _ => none, []⟩

/- How many handles of a slot were removed. -/
def removals (l : Ledger α) (i : Nat) : Nat :=
  l.removed.countP (·.index = i)

end Ledger

/- Put a handle right before another one of a list. -/
def placeBefore (h before : Handle) : List Handle → List Handle
  | [] => []
  | k :: rest =>
      if k = before then h :: k :: rest
      else k :: placeBefore h before rest

theorem placeBefore_append
    {p : List Handle}
    {before : Handle}
    (hFirst : before ∉ p)
    (h : Handle)
    (q : List Handle) :
    placeBefore h before (p ++ before :: q) =
      p ++ h :: before :: q := by
  induction p with
  | nil => exact if_pos rfl
  | cons k p ih =>
      rw [List.mem_cons, not_or] at hFirst
      rw [List.cons_append, placeBefore, if_neg (Ne.symm hFirst.1),
        ih hFirst.2, List.cons_append]

------------------------------------------------------------
-- Calls
------------------------------------------------------------

/- A call that changes an arena. -/
inductive Call (α : Type) where
  | pushBack (x : α)
  | remove (h : Handle)
  | moveBefore (h before : Handle)
  | modify (h : Handle) (f : α → α)
  | clear

namespace Call

/- What a call makes of an arena. -/
def apply (a : LinkedArena α) : Call α → LinkedArena α
  | pushBack x => (a.pushBack x).2
  | remove h => (a.remove h).2
  | moveBefore h before => a.moveBefore h before
  | modify h f => a.modify h f
  | clear => .empty

/-
  What a call makes of the ledger. The arena says only which
  handle it gives out.
-/
def note (a : LinkedArena α) (l : Ledger α) : Call α → Ledger α
  | pushBack x =>
      { l with
        ids := l.ids ++ [(a.pushBack x).1]
        items := Function.update l.items (a.pushBack x).1 (some x) }
  | remove h =>
      { ids := l.ids.erase h
        items := Function.update l.items h none
        removed := if h ∈ l.ids then h :: l.removed else l.removed }
  | moveBefore h before =>
      if h = before then l
      else { l with ids := placeBefore h before (l.ids.erase h) }
  | modify h f =>
      { l with
        items := Function.update l.items h ((l.items h).map f) }
  | clear => .empty

/- A call moves handles of the list only. -/
def Live (l : Ledger α) : Call α → Prop
  | moveBefore h before => h ∈ l.ids ∧ before ∈ l.ids
  | _ => True

end Call

------------------------------------------------------------
-- What Every Call Keeps
------------------------------------------------------------

/- An arena lists what its ledger says, and counts removals. -/
structure Keeps (l : Ledger α) (a : LinkedArena α) : Prop where
  listed : a.Listed l.ids
  items_eq : a.get? = l.items
  spent : ∀ h ∈ l.removed, a.Spent h
  stamp_eq : ∀ i n, a.stamp? i = some n → n = l.removals i

namespace Keeps

variable {a : LinkedArena α} {l : Ledger α}

theorem empty : Keeps (α := α) .empty .empty where
  listed := listed_empty
  items_eq := rfl
  spent := nofun
  stamp_eq := nofun

/- No handle was removed from a slot that does not exist. -/
theorem removals_eq_zero
    (hKeeps : Keeps l a)
    {i : Nat}
    (hNone : a.stamp? i = none) :
    l.removals i = 0 := by
  refine List.countP_eq_zero.2 fun h hRemoved hIndex => ?_
  rcases hKeeps.spent h hRemoved with ⟨n, hStamp, -⟩
  rw [of_decide_eq_true hIndex, hNone] at hStamp
  cases hStamp

theorem pushBack
    (hKeeps : Keeps l a)
    (x : α) :
    Keeps ((Call.pushBack x).note a l) (a.pushBack x).2 where
  listed := hKeeps.listed.pushBack x
  items_eq := by
    funext h
    rw [hKeeps.listed.get?_pushBack, hKeeps.items_eq]
    exact (Function.update_apply ..).symm
  spent := fun h hRemoved => (hKeeps.spent h hRemoved).pushBack x
  stamp_eq := by
    intro i n hStamp
    -- only a new slot has a stamp that was not there before
    rw [stamp?_pushBack] at hStamp
    cases hOld : a.stamp? i with
    | some k =>
        rw [hOld, Option.some_or] at hStamp
        exact hKeeps.stamp_eq i n (hOld.trans hStamp)
    | none =>
        rw [hOld, Option.none_or] at hStamp
        split at hStamp
        · cases hStamp
          exact (hKeeps.removals_eq_zero hOld).symm
        · cases hStamp

/- The count of its slot goes up with the handle's removal. -/
theorem stamp_eq_remove
    (hKeeps : Keeps l a)
    {h : Handle}
    (hItem : (a.get? h).isSome)
    {i n : Nat}
    (hStamp : (a.remove h).2.stamp? i = some n) :
    n = (h :: l.removed).countP (·.index = i) := by
  rw [stamp?_remove] at hStamp
  rcases Option.map_eq_some_iff.1 hStamp with ⟨k, hOld, hCount⟩
  have hBefore : k = l.removed.countP (·.index = i) :=
    hKeeps.stamp_eq i k hOld
  rw [List.countP_cons, ← hBefore]
  by_cases hIndex : i = h.index
  · simpa [hItem, hIndex] using hCount.symm
  · simpa [hItem, hIndex, Ne.symm hIndex] using hCount.symm

theorem remove_live
    (hKeeps : Keeps l a)
    {h : Handle}
    (hLive : h ∈ l.ids) :
    Keeps
      ⟨l.ids.erase h, Function.update l.items h none,
        h :: l.removed⟩
      (a.remove h).2 := by
  have hItem := (hKeeps.listed.isSome_get?_iff h).2 hLive
  exact
    { listed := hKeeps.listed.remove hLive
      items_eq := by
        funext k
        rw [Listed.get?_remove, hKeeps.items_eq]
        exact (Function.update_apply ..).symm
      spent :=
        List.forall_mem_cons.2 ⟨spent_remove hItem,
          fun k hRemoved => (hKeeps.spent k hRemoved).remove h⟩
      stamp_eq := fun _ _ => hKeeps.stamp_eq_remove hItem }

theorem remove
    (hKeeps : Keeps l a)
    (h : Handle) :
    Keeps ((Call.remove h).note a l) (a.remove h).2 := by
  rw [Call.note]
  by_cases hLive : h ∈ l.ids
  · rw [if_pos hLive]
    exact hKeeps.remove_live hLive
  · -- nothing becomes of a handle that is not in the list
    have hNone : l.items h = none := by
      rw [← hKeeps.items_eq, ← Option.not_isSome_iff_eq_none,
        hKeeps.listed.isSome_get?_iff]
      exact hLive
    have hSame : Function.update l.items h none = l.items := by
      rw [← hNone, Function.update_eq_self]
    rw [if_neg hLive, List.erase_of_not_mem hLive, hSame,
      hKeeps.listed.remove_of_not_mem hLive]
    exact hKeeps

/- Stamps and items stay where they are. -/
theorem moveBefore
    (hKeeps : Keeps l a)
    {h before : Handle}
    (hLive : h ∈ l.ids)
    (hBefore : before ∈ l.ids) :
    Keeps ((Call.moveBefore h before).note a l)
      (a.moveBefore h before) := by
  by_cases hSame : h = before
  · rw [Call.note, if_pos hSame, LinkedArena.moveBefore,
      if_pos hSame]
    exact hKeeps
  · have hErase : before ∈ l.ids.erase h :=
      (List.mem_erase_of_ne (Ne.symm hSame)).2 hBefore
    rcases List.eq_append_cons_of_mem hErase with
      ⟨p, q, hSplit, hFirst⟩
    rw [Call.note, if_neg hSame, hSplit,
      placeBefore_append hFirst]
    exact
      { listed := hKeeps.listed.moveBefore hLive hSame hSplit
        items_eq := by
          rw [← hKeeps.items_eq]
          exact funext (get?_moveBefore a h before)
        spent := fun k hRemoved =>
          (hKeeps.spent k hRemoved).moveBefore h before
        stamp_eq := fun i n hStamp =>
          hKeeps.stamp_eq i n
            ((stamp?_moveBefore a h before i).symm.trans hStamp) }

theorem modify
    (hKeeps : Keeps l a)
    (h : Handle)
    (f : α → α) :
    Keeps ((Call.modify h f).note a l) (a.modify h f) where
  listed := hKeeps.listed.modify h f
  items_eq := by
    funext k
    rw [get?_modify, hKeeps.items_eq]
    by_cases hSame : k = h
    · rw [if_pos hSame, hSame]
      exact (Function.update_self h _ l.items).symm
    · rw [if_neg hSame]
      exact (Function.update_of_ne hSame _ l.items).symm
  spent := fun k hRemoved => (hKeeps.spent k hRemoved).modify h f
  stamp_eq := by
    intro i n hStamp
    exact hKeeps.stamp_eq i n
      ((stamp?_modifyLinked a h _ i).symm.trans hStamp)

/- The step, for each call that moves handles of the list. -/
theorem step
    (hKeeps : Keeps l a)
    {call : Call α}
    (hLive : call.Live l) :
    Keeps (call.note a l) (call.apply a) := by
  cases call with
  | pushBack x => exact hKeeps.pushBack x
  | remove h => exact hKeeps.remove h
  | moveBefore h before =>
      exact hKeeps.moveBefore hLive.1 hLive.2
  | modify h f => exact hKeeps.modify h f
  | clear => exact .empty

end Keeps

------------------------------------------------------------
-- Slots
------------------------------------------------------------

section Slots

variable {a : LinkedArena α} {l : List Handle}

theorem Listed.stamp?_of_mem
    (hListed : a.Listed l)
    {h : Handle}
    (hLive : h ∈ l) :
    a.stamp? h.index = some h.stamp := by
  have hItem := (hListed.isSome_get?_iff h).2 hLive
  rcases Option.isSome_iff_exists.1 hItem with ⟨x, hItem⟩
  exact stamp?_of_live hItem

theorem lt_size_of_stamp?
    {i n : Nat}
    (hStamp : a.stamp? i = some n) :
    i < a.slots.size := by
  rcases Option.map_eq_some_iff.1 hStamp with ⟨slot, hSlot, -⟩
  exact (Array.getElem?_eq_some_iff.1 hSlot).1

/- A slot is to be used again, or holds the item of a handle. -/
theorem Listed.lt_size_iff
    (hListed : a.Listed l)
    (i : Nat) :
    i < a.slots.size ↔
      i ∈ a.free ∨ ∃ h ∈ l, h.index = i := by
  constructor
  · intro hIndex
    rcases hSlot : a.slots[i] with ⟨stamp, _ | item⟩
    · exact .inl ((hListed.mem_free i).2
        ⟨stamp, by rw [Array.getElem?_eq_getElem hIndex, hSlot]⟩)
    · refine .inr ⟨⟨i, stamp⟩, ?_, rfl⟩
      have hLinked : a.linked? ⟨i, stamp⟩ = some item := by
        rw [linked?_eq_some_iff, Array.getElem?_eq_getElem hIndex,
          hSlot]
      apply hListed.complete
      rw [isSome_get?, hLinked]
      rfl
  · rintro (hFree | ⟨h, hLive, rfl⟩)
    · rcases (hListed.mem_free i).1 hFree with ⟨stamp, hSlot⟩
      exact (Array.getElem?_eq_some_iff.1 hSlot).1
    · exact lt_size_of_stamp? (hListed.stamp?_of_mem hLive)

/- The slot of a handle in the list is not to be used again. -/
theorem Listed.index_not_mem_free
    (hListed : a.Listed l)
    {h : Handle}
    (hLive : h ∈ l) :
    h.index ∉ a.free := by
  intro hFree
  rcases (hListed.mem_free h.index).1 hFree with ⟨stamp, hSlot⟩
  rcases Option.isSome_iff_exists.1
    (hListed.threads.hasLink h hLive) with ⟨item, hLinked⟩
  rw [linked?_eq_some_iff, hSlot] at hLinked
  cases hLinked

/- Two handles of the list have two slots. -/
theorem Listed.eq_of_index
    (hListed : a.Listed l)
    {h k : Handle}
    (hh : h ∈ l)
    (hk : k ∈ l)
    (hIndex : h.index = k.index) :
    h = k := by
  have hStamp := hListed.stamp?_of_mem hh
  rw [hIndex, hListed.stamp?_of_mem hk] at hStamp
  cases h
  cases k
  cases hIndex
  cases hStamp
  rfl

/- Next and previous links are inverse to each other. -/
theorem Listed.next?_eq_some_iff
    (hListed : a.Listed l)
    {h k : Handle}
    (hh : h ∈ l)
    (hk : k ∈ l) :
    a.next? h = some k ↔ a.prevOf (some k) = some h := by
  constructor
  · intro hNext
    rcases List.append_of_mem hh with ⟨p, q, rfl⟩
    have hPrev :=
      (hListed.threads.linked (p ++ [h]) q (by simp)).2
    rw [hListed.next?_eq] at hNext
    rw [hNext] at hPrev
    simpa using hPrev
  · intro hPrev
    rcases List.append_of_mem hk with ⟨p, q, rfl⟩
    rcases hListed.threads.linked p (k :: q) rfl with
      ⟨hNext, hLast⟩
    rw [List.head?_cons] at hNext hLast
    rw [← hLast, hPrev] at hNext
    exact hNext

end Slots

------------------------------------------------------------
-- Stamps In Words
------------------------------------------------------------

/- The item of a handle if stamps are kept in 32 bits. -/
def getWord? (a : LinkedArena α) (h : Handle) : Option α :=
  let found := a.slots[h.index]?.bind fun slot =>
    if slot.stamp % 2 ^ 32 = h.stamp % 2 ^ 32 then slot.content
    else none
  found.map (·.item)

/- Words are enough before the first stamp is used again. -/
theorem getWord?_eq
    {a : LinkedArena α}
    {h : Handle}
    {n : Nat}
    (hStamp : a.stamp? h.index = some n)
    (hGiven : h.stamp ≤ n)
    (hSmall : n < 2 ^ 32) :
    a.getWord? h = a.get? h := by
  rcases Option.map_eq_some_iff.1 hStamp with ⟨slot, hSlot, rfl⟩
  have hSame :
      slot.stamp % 2 ^ 32 = h.stamp % 2 ^ 32 ↔
        slot.stamp = h.stamp := by omega
  simp only [getWord?, get?, linked?, hSlot, Option.bind_some,
    hSame]

------------------------------------------------------------
-- Runs
------------------------------------------------------------

/-
  An arena is the list that its ledger says. The links lead
  through it both ways, every slot is either to be used again
  or holds one item of it, and what was removed is gone.
-/
structure Describes (l : Ledger α) (a : LinkedArena α) : Prop where
  ids_nodup : l.ids.Nodup
  mem_ids : ∀ h, h ∈ l.ids ↔ (l.items h).isSome
  get?_eq : a.get? = l.items
  size_eq : a.size = l.ids.length
  handles_eq : a.handles = l.ids
  handlesFrom_eq :
    ∀ fuel, l.ids.length < fuel →
      a.handlesFrom fuel a.first? = l.ids
  head_eq : a.head = l.ids.head? ∧ a.tail = l.ids.getLast?
  linked :
    ∀ u w, l.ids = u ++ w →
      a.nextOf u.getLast? = w.head? ∧
        a.prevOf w.head? = u.getLast?
  inverse :
    ∀ h ∈ l.ids, ∀ k ∈ l.ids,
      a.next? h = some k ↔ a.prevOf (some k) = some h
  slots :
    ∀ i, i < a.slots.size ↔ i ∈ a.free ∨ ∃ h ∈ l.ids, h.index = i
  free_nodup : a.free.Nodup
  not_free : ∀ h ∈ l.ids, h.index ∉ a.free
  index_inj :
    ∀ h ∈ l.ids, ∀ k ∈ l.ids, h.index = k.index → h = k
  removed : ∀ h ∈ l.removed, a.get? h = none
  stamp_eq : ∀ i n, a.stamp? i = some n → n = l.removals i
  getWord?_eq :
    ∀ h ∈ l.ids ++ l.removed, l.removals h.index < 2 ^ 32 →
      a.getWord? h = a.get? h

theorem Keeps.describes
    {l : Ledger α}
    {a : LinkedArena α}
    (hKeeps : Keeps l a) :
    Describes l a where
  ids_nodup := hKeeps.listed.threads.nodup
  mem_ids := fun h => by
    rw [← hKeeps.items_eq, hKeeps.listed.isSome_get?_iff]
  get?_eq := hKeeps.items_eq
  size_eq := hKeeps.listed.size_eq
  handles_eq := hKeeps.listed.handles_eq
  handlesFrom_eq := fun fuel hFuel => by
    rw [hKeeps.listed.first?_eq]
    exact Listed.handlesFrom_eq (p := []) hKeeps.listed fuel hFuel
  head_eq :=
    ⟨(hKeeps.listed.threads.linked [] l.ids rfl).1,
      (hKeeps.listed.threads.linked l.ids [] (by simp)).2⟩
  linked := hKeeps.listed.threads.linked
  inverse := fun _ hh _ hk => hKeeps.listed.next?_eq_some_iff hh hk
  slots := hKeeps.listed.lt_size_iff
  free_nodup := hKeeps.listed.free_nodup
  not_free := fun _ => hKeeps.listed.index_not_mem_free
  index_inj := fun _ hh _ hk => hKeeps.listed.eq_of_index hh hk
  removed := fun h hRemoved => (hKeeps.spent h hRemoved).get?_eq_none
  stamp_eq := hKeeps.stamp_eq
  getWord?_eq := by
    intro h hGiven hFew
    rcases List.mem_append.1 hGiven with hLive | hRemoved
    · -- the slot's stamp is the one of the handle, or a later one
      have hStamp := hKeeps.listed.stamp?_of_mem hLive
      refine getWord?_eq hStamp (Nat.le_refl _) ?_
      rwa [hKeeps.stamp_eq _ _ hStamp]
    · rcases hKeeps.spent h hRemoved with ⟨n, hStamp, hLess⟩
      refine getWord?_eq hStamp (Nat.le_of_lt hLess) ?_
      rwa [hKeeps.stamp_eq _ _ hStamp]

/- A call, on a ledger and its arena. -/
def Call.step
    (s : Ledger α × LinkedArena α)
    (call : Call α) : Ledger α × LinkedArena α :=
  (call.note s.2 s.1, call.apply s.2)

/- The ledger and the arena after calls, from empty ones on. -/
def run (calls : List (Call α)) : Ledger α × LinkedArena α :=
  calls.foldl Call.step (.empty, .empty)

/- Each call moves handles that are in the list then. -/
def Legal (s : Ledger α × LinkedArena α) : List (Call α) → Prop
  | [] => True
  | call :: rest => call.Live s.1 ∧ Legal (call.step s) rest

theorem Keeps.foldl
    {s : Ledger α × LinkedArena α}
    (hKeeps : Keeps s.1 s.2)
    {calls : List (Call α)}
    (hLegal : Legal s calls) :
    Keeps (calls.foldl Call.step s).1
      (calls.foldl Call.step s).2 := by
  induction calls generalizing s with
  | nil => exact hKeeps
  | cons call rest ih =>
      exact ih (hKeeps.step hLegal.1) hLegal.2

/- After any calls, an arena is the list that they made. -/
theorem describes_of_calls
    (calls : List (Call α))
    (hLegal : Legal (.empty, .empty) calls) :
    Describes (run calls).1 (run calls).2 :=
  (Keeps.foldl .empty hLegal).describes

/- The last item moves to the front, and a slot is used again. -/
theorem describes_of_calls_reusing :
    (run
        [Call.pushBack 10, .pushBack 20, .pushBack 30,
          .moveBefore ⟨2, 0⟩ ⟨0, 0⟩, .remove ⟨0, 0⟩,
          .pushBack 40]).2.handles =
        [⟨2, 0⟩, ⟨1, 0⟩, ⟨0, 1⟩] ∧
      (run
        [Call.pushBack 10, .pushBack 20, .pushBack 30,
          .moveBefore ⟨2, 0⟩ ⟨0, 0⟩, .remove ⟨0, 0⟩,
          .pushBack 40]).2.get? ⟨0, 0⟩ = none := by
  have hDescribes := describes_of_calls
    [Call.pushBack 10, .pushBack 20, .pushBack 30,
      .moveBefore ⟨2, 0⟩ ⟨0, 0⟩, .remove ⟨0, 0⟩, .pushBack 40]
    ⟨trivial, trivial, trivial, ⟨by decide, by decide⟩, trivial,
      trivial, trivial⟩
  refine ⟨?_, hDescribes.removed ⟨0, 0⟩ (by decide)⟩
  rw [hDescribes.handles_eq]
  decide

/-
  A cleared arena gives out its handles from the first one on,
  so one that was removed before leads to an item again.
-/
theorem removed_handle_after_clear :
    (run [Call.pushBack 10, .remove ⟨0, 0⟩]).1.removed =
        [⟨0, 0⟩] ∧
      (run [Call.pushBack 10, .remove ⟨0, 0⟩]).2.get? ⟨0, 0⟩ =
        none ∧
      (run
        [Call.pushBack 10, .remove ⟨0, 0⟩, .clear,
          .pushBack 20]).2.get? ⟨0, 0⟩ = some 20 := by
  decide

end LinkedArena

end Spreadsheet
