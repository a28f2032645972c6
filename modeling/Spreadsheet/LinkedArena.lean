/-
  A list of items with lasting handles.

  Items live in slots that are used again after an item was
  removed. A slot counts its removals, and a handle carries
  the count that it was given out at, so that a handle never
  leads to a later item. The items are linked to each other
  in the order of the list.

  Key definitions include:
    * `Handle`
    * `LinkedArena`
    * `LinkedArena.get?`
    * `LinkedArena.pushBack`
    * `LinkedArena.remove`
    * `LinkedArena.moveBefore`
    * `LinkedArena.handles`
-/

namespace Spreadsheet

------------------------------------------------------------
-- Slots
------------------------------------------------------------

/- The place of an item, and the slot's removals before it. -/
structure Handle where
  index : Nat
  stamp : Nat
deriving DecidableEq, Repr, Inhabited

/- An item with its neighbours in the list. -/
structure LinkedItem (α : Type) where
  item : α
  prev : Option Handle
  next : Option Handle

/- A place for an item, and how many were removed from it. -/
structure ArenaSlot (α : Type) where
  stamp : Nat
  content : Option (LinkedItem α)

/-
  Slots, the indices of empty ones with the next to use
  first, and the ends of the list.
-/
structure LinkedArena (α : Type) where
  slots : Array (ArenaSlot α)
  free : List Nat
  head : Option Handle
  tail : Option Handle
  size : Nat

namespace LinkedArena

variable {α : Type}

/- The list without items. -/
def empty : LinkedArena α := ⟨#[], [], none, none, 0⟩

instance : Inhabited (LinkedArena α) := ⟨empty⟩

/- The list has no items. -/
def isEmpty (a : LinkedArena α) : Bool :=
  a.size == 0

------------------------------------------------------------
-- Items
------------------------------------------------------------

/- The item of a handle with its neighbours. -/
def linked?
    (a : LinkedArena α)
    (h : Handle) : Option (LinkedItem α) :=
  a.slots[h.index]?.bind fun slot =>
    if slot.stamp = h.stamp then slot.content else none

/- The item of a handle, unless it was removed. -/
def get? (a : LinkedArena α) (h : Handle) : Option α :=
  (a.linked? h).map (·.item)

/- Change the item of a handle or its neighbours. -/
def modifyLinked
    (a : LinkedArena α)
    (h : Handle)
    (f : LinkedItem α → LinkedItem α) : LinkedArena α :=
  { a with
    slots := a.slots.modify h.index fun slot =>
      if slot.stamp = h.stamp then
        { slot with content := slot.content.map f }
      else
        slot }

/- Change the item of a handle, unless it was removed. -/
def modify
    (a : LinkedArena α)
    (h : Handle)
    (f : α → α) : LinkedArena α :=
  a.modifyLinked h fun l => { l with item := f l.item }

------------------------------------------------------------
-- Links
------------------------------------------------------------

/- Say what follows a handle, or what the list starts with. -/
def setNext
    (a : LinkedArena α)
    (h next : Option Handle) : LinkedArena α :=
  match h with
  | some h => a.modifyLinked h ({ · with next := next })
  | none => { a with head := next }

/- Say what precedes a handle, or what the list ends with. -/
def setPrev
    (a : LinkedArena α)
    (h prev : Option Handle) : LinkedArena α :=
  match h with
  | some h => a.modifyLinked h ({ · with prev := prev })
  | none => { a with tail := prev }

/- Take a handle out of the list and keep its item. -/
def unlink (a : LinkedArena α) (h : Handle) : LinkedArena α :=
  match a.linked? h with
  | none => a
  | some l =>
      let a := a.modifyLinked h
        ({ · with prev := none, next := none })
      (a.setNext l.prev l.next).setPrev l.next l.prev

/- The handle before another one, or the last one. -/
def prevOf (a : LinkedArena α) : Option Handle → Option Handle
  | some h => (a.linked? h).bind (·.prev)
  | none => a.tail

/-
  Put a handle that is not in the list before another one, or
  at the end.
-/
def linkBefore
    (a : LinkedArena α)
    (h : Handle)
    (before : Option Handle) : LinkedArena α :=
  let prev := a.prevOf before
  let a := a.modifyLinked h
    ({ · with prev := prev, next := before })
  (a.setNext prev (some h)).setPrev before (some h)

------------------------------------------------------------
-- The List
------------------------------------------------------------

/- Put an item into an empty slot or a new one. -/
def allocate
    (a : LinkedArena α)
    (item : α) : Handle × LinkedArena α :=
  let content := some ⟨item, none, none⟩
  match a.free with
  | index :: free =>
      let stamp := (a.slots[index]?.map (·.stamp)).getD 0
      (⟨index, stamp⟩,
        { a with
          slots := a.slots.modify index ({ · with content := content })
          free := free
          size := a.size + 1 })
  | [] =>
      (⟨a.slots.size, 0⟩,
        { a with
          slots := a.slots.push ⟨0, content⟩
          size := a.size + 1 })

/- Append an item to the list. -/
def pushBack
    (a : LinkedArena α)
    (item : α) : Handle × LinkedArena α :=
  let (h, a) := a.allocate item
  (h, a.linkBefore h none)

/- Empty the slot of a handle. -/
def release (a : LinkedArena α) (h : Handle) : LinkedArena α :=
  { a with
    slots := a.slots.modify h.index fun slot =>
      ⟨slot.stamp + 1, none⟩
    free := h.index :: a.free
    size := a.size - 1 }

/- Remove the item of a handle, if it is still there. -/
def remove
    (a : LinkedArena α)
    (h : Handle) : Option α × LinkedArena α :=
  match a.get? h with
  | none => (none, a)
  | some item => (some item, (a.unlink h).release h)

/- The first handle of the list. -/
def first? (a : LinkedArena α) : Option Handle :=
  a.head

/- The handle that follows in the list. -/
def next? (a : LinkedArena α) (h : Handle) : Option Handle :=
  (a.linked? h).bind (·.next)

/- Move a handle to the place right before another one. -/
def moveBefore
    (a : LinkedArena α)
    (h before : Handle) : LinkedArena α :=
  if h = before then a
  else (a.unlink h).linkBefore h (some before)

/- The handles from a given one on, at most so many. -/
def handlesFrom
    (a : LinkedArena α) : Nat → Option Handle → List Handle
  | 0, _ => []
  | _, none => []
  | fuel + 1, some h => h :: a.handlesFrom fuel (a.next? h)

/-
  All handles, in the order of the list. A handle that was put
  into the list although its item is gone ends the list.
-/
def handles (a : LinkedArena α) : List Handle :=
  a.handlesFrom (a.size + 1) a.head

end LinkedArena

end Spreadsheet
