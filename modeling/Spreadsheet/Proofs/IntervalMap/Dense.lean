import Spreadsheet.Proofs.IntervalMap.Lists

/-
  Maps made of intervals, against functions on indices.

  However a map was made by its operations, its intervals are
  canonical, and it gives each index the value that the same
  operations give to it in a function from indices to values.
  Where values are compared up to some equality, the values
  agree up to that equality.

  Main declarations:
    * `IntervalMap.get?_replace`
    * `IntervalMap.Command.dense`
    * `IntervalMap.Command.canonical_apply`
    * `IntervalMap.Command.like_apply`
    * `IntervalMap.Command.get?_apply`
    * `IntervalMap.Command.stopsBy_apply`
    * `IntervalMap.run_represents_dense`
-/

namespace Spreadsheet

namespace IntervalMap

open Intervals

variable {V : Type}

/- The map keeps canonical intervals. -/
def Canonical [BEq V] (m : IntervalMap V) : Prop :=
  Intervals.Canonical m.intervals

/- The values of the map have a property. -/
def Values (p : V → Prop) (m : IntervalMap V) : Prop :=
  Intervals.Values p m.intervals

/- The values of the map are equal to themselves. -/
abbrev Proper [BEq V] (m : IntervalMap V) : Prop :=
  m.Values fun v => (v == v) = true

theorem get?_eq_valueAt (m : IntervalMap V) (i : Nat) :
    m.get? i = valueAt m.intervals i := rfl

------------------------------------------------------------
-- Replacing
------------------------------------------------------------

theorem after_above
    {start stop : Nat}
    {rs ss : List (Interval V)}
    (hBounded : Bounded start stop rs) :
    ∀ r ∈ rs, ∀ s ∈ above stop ss, r.stop ≤ s.start :=
  fun r hr _ hs =>
    Nat.le_trans (hBounded r hr).2 (start_of_mem_above hs)

theorem after_below
    [BEq V]
    {start stop : Nat}
    {rs ss ts : List (Interval V)}
    (hBounded : Bounded start stop rs)
    (hOrder : start ≤ stop) :
    ∀ r ∈ below start ts,
      ∀ s ∈ append rs (above stop ss), r.stop ≤ s.start := by
  intro r hr s hs
  refine Nat.le_trans (stop_of_mem_below hr) ?_
  rcases start_of_mem_append hs with ⟨t, ht, hStart⟩
  rw [hStart]
  rcases List.mem_append.1 ht with hInside | hAbove
  · exact (hBounded t hInside).1
  · exact Nat.le_trans hOrder (start_of_mem_above hAbove)

section Replace

variable [BEq V]
variable {m : IntervalMap V} {start stop : Nat}
variable {rs : List (Interval V)}

theorem canonical_replace
    [PartialEquivBEq V]
    (hCanonical : m.Canonical)
    (hOrder : start ≤ stop)
    (hSorted : Sorted rs)
    (hBounded : Bounded start stop rs) :
    (m.replace start stop rs).Canonical :=
  canonical_append (canonical_below hCanonical start).sorted
    (canonical_append hSorted (canonical_above hCanonical stop)
      (after_above hBounded))
    (after_below hBounded hOrder)

theorem values_replace
    {p : V → Prop}
    (hValues : m.Values p)
    (hInside : Intervals.Values p rs) :
    (m.replace start stop rs).Values p :=
  values_append (values_below hValues start)
    (values_append hInside (values_above hValues stop))

/- No value matters that was put away. -/
theorem get?_replace
    [PartialEquivBEq V]
    (hCanonical : m.Canonical)
    (hOrder : start ≤ stop)
    (hSorted : Sorted rs)
    (hBounded : Bounded start stop rs)
    (i : Nat) :
    Like ((m.replace start stop rs).get? i)
      (if start ≤ i ∧ i < stop then valueAt rs i
      else m.get? i) := by
  have hAbove := canonical_above hCanonical stop
  have hUpper := canonical_append hSorted hAbove
    (after_above hBounded)
  have hWhole := valueAt_append
    (canonical_below hCanonical start).sorted hUpper
    (after_below hBounded hOrder) i
  have hRest := valueAt_append hSorted hAbove
    (after_above hBounded) i
  have hBoth := hWhole.trans (hRest.or _)
  rw [valueAt_below, valueAt_above] at hBoth
  by_cases hLow : i < start
  · rw [hBounded.valueAt_eq_none (.inl hLow), if_pos hLow,
      if_neg (by omega), Option.or_none, Option.or_none] at hBoth
    rwa [if_neg (by omega)]
  · rw [if_neg hLow, Option.none_or] at hBoth
    by_cases hHigh : stop ≤ i
    · rw [hBounded.valueAt_eq_none (.inr hHigh), if_pos hHigh,
        Option.none_or] at hBoth
      rwa [if_neg (by omega)]
    · rw [if_neg hHigh, Option.or_none] at hBoth
      rwa [if_pos (by omega)]

end Replace

------------------------------------------------------------
-- Pieces
------------------------------------------------------------

/- Pieces follow each other from one index to another. -/
def Tiles (start stop : Nat) : List (Piece V) → Prop
  | [] => start = stop
  | p :: rest =>
      p.start = start ∧ p.start < p.stop ∧ Tiles p.stop stop rest

theorem Tiles.le
    {start stop : Nat}
    {ps : List (Piece V)}
    (hTiles : Tiles start stop ps) :
    start ≤ stop := by
  induction ps generalizing start with
  | nil => exact Nat.le_of_eq hTiles
  | cons p rest ih =>
      rcases hTiles with ⟨hStart, hFilled, hRest⟩
      have := ih hRest
      omega

theorem tiles_cons_if
    {start middle stop : Nat}
    {value : Option V}
    {ps : List (Piece V)}
    (hOrder : start ≤ middle)
    (hTiles : Tiles middle stop ps) :
    Tiles start stop
      ((if start < middle then [⟨start, middle, value⟩] else []) ++
        ps) := by
  split
  · rename_i hFilled
    exact ⟨rfl, hFilled, hTiles⟩
  · obtain rfl : start = middle := by omega
    exact hTiles

theorem tiles_piecesOf
    {start stop : Nat}
    (hOrder : start ≤ stop)
    (rs : List (Interval V)) :
    Tiles start stop (piecesOf start stop rs) := by
  induction rs generalizing start with
  | nil =>
      rw [piecesOf, ← List.append_nil (ite ..)]
      exact tiles_cons_if hOrder rfl
  | cons r rest ih =>
      rw [piecesOf]
      split
      · exact ih hOrder
      · dsimp only
        rw [List.append_assoc]
        exact tiles_cons_if (by omega)
          (tiles_cons_if (by omega) (ih (by omega)))

theorem tiles_pieces
    (m : IntervalMap V)
    {start stop : Nat}
    (hOrder : start ≤ stop) :
    Tiles start stop (m.pieces start stop) :=
  tiles_piecesOf hOrder m.intervals

theorem Tiles.mem_bounds
    {start stop : Nat}
    {ps : List (Piece V)}
    (hTiles : Tiles start stop ps)
    {p : Piece V}
    (hp : p ∈ ps) :
    start ≤ p.start ∧ p.start < p.stop ∧ p.stop ≤ stop := by
  induction ps generalizing start with
  | nil => exact absurd hp List.not_mem_nil
  | cons q rest ih =>
      rcases hTiles with ⟨hStart, hFilled, hRest⟩
      rcases List.mem_cons.1 hp with rfl | hp
      · exact ⟨by omega, hFilled, hRest.le⟩
      · have := ih hRest hp
        omega

/- Every index lies in one of the pieces. -/
theorem Tiles.exists_mem
    {start stop : Nat}
    {ps : List (Piece V)}
    (hTiles : Tiles start stop ps)
    {i : Nat}
    (hStart : start ≤ i)
    (hStop : i < stop) :
    ∃ p ∈ ps, p.start ≤ i ∧ i < p.stop := by
  induction ps generalizing start with
  | nil =>
      obtain rfl : start = stop := hTiles
      omega
  | cons p rest ih =>
      rcases hTiles with ⟨hFirst, hFilled, hRest⟩
      by_cases hHere : i < p.stop
      · exact ⟨p, List.mem_cons_self, by omega, hHere⟩
      · rcases ih hRest (by omega) with ⟨q, hq, hIn⟩
        exact ⟨q, List.mem_cons_of_mem p hq, hIn⟩

/- A piece holds the value of each of its indices. -/
theorem value_of_mem_piecesOf
    {start stop : Nat}
    (hOrder : start ≤ stop)
    {rs : List (Interval V)}
    (hSorted : Sorted rs)
    {p : Piece V}
    (hp : p ∈ piecesOf start stop rs)
    {i : Nat}
    (hStart : p.start ≤ i)
    (hStop : i < p.stop) :
    p.value = valueAt rs i := by
  induction rs generalizing start with
  | nil =>
      rw [piecesOf, List.mem_ite_nil_right, List.mem_singleton]
        at hp
      rw [hp.2]
      rfl
  | cons r rest ih =>
      rw [sorted_cons] at hSorted
      rcases hSorted with ⟨hFilled, hAfter, hSorted⟩
      rw [valueAt_cons]
      rw [piecesOf] at hp
      split at hp
      · have := (tiles_piecesOf hOrder rest).mem_bounds hp
        rw [if_neg (by omega)]
        exact ih hOrder hSorted hp
      · simp only [List.mem_append, List.mem_ite_nil_right,
          List.mem_singleton] at hp
        rcases hp with (⟨-, rfl⟩ | ⟨-, rfl⟩) | hp
        · -- A gap lies before all the intervals.
          dsimp only at hStart hStop
          rw [if_neg (by omega), valueAt_eq_none]
          intro s hs
          have := hAfter s hs
          omega
        · dsimp only at hStart hStop
          rw [if_pos (by omega)]
        · have hLast : max (max start (min r.start stop))
              (min r.stop stop) ≤ stop := by omega
          have := (tiles_piecesOf hLast rest).mem_bounds hp
          rw [if_neg (by omega)]
          exact ih hLast hSorted hp

------------------------------------------------------------
-- Intervals Of Pieces
------------------------------------------------------------

theorem ofPieces_cons (p : Piece V) (ps : List (Piece V)) :
    ofPieces (p :: ps) =
      match p.value with
      | none => ofPieces ps
      | some value => ⟨p.start, p.stop, value⟩ :: ofPieces ps := by
  cases hValue : p.value with
  | none => simp [ofPieces, hValue]
  | some value => simp [ofPieces, hValue]

theorem bounded_ofPieces
    {start stop : Nat}
    {ps : List (Piece V)}
    (hTiles : Tiles start stop ps) :
    Bounded start stop (ofPieces ps) := by
  intro r hr
  simp only [ofPieces, List.mem_filterMap,
    Option.map_eq_some_iff] at hr
  rcases hr with ⟨p, hp, value, -, rfl⟩
  have := hTiles.mem_bounds hp
  dsimp only
  omega

theorem sorted_ofPieces
    {start stop : Nat}
    {ps : List (Piece V)}
    (hTiles : Tiles start stop ps) :
    Sorted (ofPieces ps) := by
  induction ps generalizing start with
  | nil => exact sorted_nil
  | cons p rest ih =>
      rcases hTiles with ⟨-, hFilled, hRest⟩
      rw [ofPieces_cons]
      split
      · exact ih hRest
      · exact sorted_cons.2
          ⟨hFilled, fun s hs => (bounded_ofPieces hRest s hs).1,
            ih hRest⟩

theorem valueAt_ofPieces_of_mem
    {start stop : Nat}
    {ps : List (Piece V)}
    (hTiles : Tiles start stop ps)
    {p : Piece V}
    (hp : p ∈ ps)
    {i : Nat}
    (hStart : p.start ≤ i)
    (hStop : i < p.stop) :
    valueAt (ofPieces ps) i = p.value := by
  induction ps generalizing start with
  | nil => exact absurd hp List.not_mem_nil
  | cons q rest ih =>
      rcases hTiles with ⟨-, -, hRest⟩
      rw [ofPieces_cons]
      rcases List.mem_cons.1 hp with rfl | hp
      · split
        · rename_i hNone
          rw [hNone,
            (bounded_ofPieces hRest).valueAt_eq_none (.inl hStop)]
        · rename_i hSome
          rw [valueAt_cons, if_pos ⟨hStart, hStop⟩, hSome]
      · have hLater := ih hRest hp
        have := hRest.mem_bounds hp
        split
        · exact hLater
        · rw [valueAt_cons, if_neg (by dsimp only; omega)]
          exact hLater

theorem valueAt_ofPieces
    {start stop : Nat}
    {ps : List (Piece V)}
    (hTiles : Tiles start stop ps)
    {dense : Nat → Option V}
    (hValue : ∀ p ∈ ps, ∀ i, p.start ≤ i → i < p.stop →
      p.value = dense i)
    {i : Nat}
    (hStart : start ≤ i)
    (hStop : i < stop) :
    valueAt (ofPieces ps) i = dense i := by
  rcases hTiles.exists_mem hStart hStop with ⟨p, hp, hFirst, hLast⟩
  rw [valueAt_ofPieces_of_mem hTiles hp hFirst hLast,
    hValue p hp i hFirst hLast]

/- Pieces that tile a range may replace what it holds. -/
theorem canonical_replace_ofPieces
    [BEq V]
    [PartialEquivBEq V]
    {m : IntervalMap V}
    (hCanonical : m.Canonical)
    {start stop : Nat}
    {ps : List (Piece V)}
    (hTiles : Tiles start stop ps) :
    (m.replace start stop (ofPieces ps)).Canonical :=
  canonical_replace hCanonical hTiles.le (sorted_ofPieces hTiles)
    (bounded_ofPieces hTiles)

theorem get?_replace_ofPieces
    [BEq V]
    [PartialEquivBEq V]
    {m : IntervalMap V}
    (hCanonical : m.Canonical)
    {start stop : Nat}
    {ps : List (Piece V)}
    (hTiles : Tiles start stop ps)
    (i : Nat) :
    Like ((m.replace start stop (ofPieces ps)).get? i)
      (if start ≤ i ∧ i < stop then valueAt (ofPieces ps) i
      else m.get? i) :=
  get?_replace hCanonical hTiles.le (sorted_ofPieces hTiles)
    (bounded_ofPieces hTiles) i

------------------------------------------------------------
-- Changing
------------------------------------------------------------

/- The pieces with the values that an operation computes. -/
def changed
    (op : Option V → Option V)
    (ps : List (Piece V)) : List (Piece V) :=
  ps.map fun p => ⟨p.start, p.stop, op p.value⟩

theorem modify_eq
    [BEq V]
    (m : IntervalMap V)
    (start stop : Nat)
    (op : Option V → Option V) :
    m.modify start stop op =
      if start < stop then
        m.replace start stop
          (ofPieces (changed op (m.pieces start stop)))
      else m := by
  simp [modify, modifyM, changed]

theorem tiles_changed
    {start stop : Nat}
    {ps : List (Piece V)}
    (hTiles : Tiles start stop ps)
    (op : Option V → Option V) :
    Tiles start stop (changed op ps) := by
  induction ps generalizing start with
  | nil => exact hTiles
  | cons p rest ih =>
      rcases hTiles with ⟨hStart, hFilled, hRest⟩
      exact ⟨hStart, hFilled, ih hRest⟩

theorem value_of_mem_changed
    {op : Option V → Option V}
    {ps : List (Piece V)}
    {dense : Nat → Option V}
    (hValue : ∀ p ∈ ps, ∀ i, p.start ≤ i → i < p.stop →
      p.value = dense i) :
    ∀ p ∈ changed op ps, ∀ i, p.start ≤ i → i < p.stop →
      p.value = op (dense i) := by
  intro p hp i hStart hStop
  rcases List.mem_map.1 hp with ⟨q, hq, rfl⟩
  exact congrArg op (hValue q hq i hStart hStop)

------------------------------------------------------------
-- Commands
------------------------------------------------------------

/- One call that changes a map. -/
inductive Command (V : Type) where
  | set (start stop : Nat) (value : V)
  | clear (start stop : Nat)
  | modify (start stop : Nat) (op : Option V → Option V)
  | insert (before count : Nat)
  | erase (start stop : Nat)
  | reset

namespace Command

/- What a call does to a map. -/
def apply [BEq V] (m : IntervalMap V) :
    Command V → IntervalMap V
  | set start stop value => m.set start stop value
  | clear start stop => m.clear start stop
  | modify start stop op => m.modify start stop op
  | insert before count => m.insertIndices before count
  | erase start stop => m.eraseIndices start stop
  | reset => empty

/- What a call does to the values of indices one by one. -/
def dense (old : Nat → Option V) :
    Command V → Nat → Option V
  | set start stop value, i =>
      if start ≤ i ∧ i < stop then some value else old i
  | clear start stop, i =>
      if start ≤ i ∧ i < stop then none else old i
  | modify start stop op, i =>
      if start ≤ i ∧ i < stop then op (old i) else old i
  | insert before count, i =>
      if i < before then old i
      else if i < before + count then old before
      else old (i - count)
  | erase start stop, i =>
      if i < start then old i else old (i + (stop - start))
  | reset, _ => none

/- The values that a call gives have a property. -/
def Keeps (p : V → Prop) : Command V → Prop
  | set _ _ value => p value
  | modify _ _ op =>
      ∀ old, (∀ a, old = some a → p a) → ∀ b, op old = some b → p b
  | _ => True

/- A call changes equal values to values that are alike. -/
def Respects [BEq V] : Command V → Prop
  | modify _ _ op => ∀ a b, Alike a b → Like (op a) (op b)
  | _ => True

end Command

------------------------------------------------------------
-- One Step
------------------------------------------------------------

theorem canonical_empty [BEq V] :
    (empty : IntervalMap V).Canonical :=
  Intervals.canonical_nil

theorem sorted_singleton
    {start stop : Nat}
    (hFilled : start < stop)
    (value : V) :
    Sorted [(⟨start, stop, value⟩ : Interval V)] :=
  sorted_cons.2 ⟨hFilled, nofun, sorted_nil⟩

theorem bounded_singleton
    (start stop : Nat)
    (value : V) :
    Bounded start stop [(⟨start, stop, value⟩ : Interval V)] := by
  intro r hr
  rw [List.mem_singleton.1 hr]
  exact ⟨Nat.le_refl start, Nat.le_refl stop⟩

theorem bounded_nil (start stop : Nat) :
    Bounded start stop ([] : List (Interval V)) :=
  nofun

theorem get?_insertIndices
    (m : IntervalMap V)
    (before count i : Nat) :
    (m.insertIndices before count).get? i =
      if i < before then m.get? i
      else if i < before + count then m.get? before
      else m.get? (i - count) :=
  valueAt_insertIndices before count m.intervals i

theorem after_shifted_above
    {start stop : Nat}
    (hOrder : start ≤ stop)
    {rs ss : List (Interval V)} :
    ∀ r ∈ below start rs,
      ∀ s ∈ (above stop ss).map (·.shiftDown (stop - start)),
        r.stop ≤ s.start := by
  intro r hr s hs
  rcases List.mem_map.1 hs with ⟨t, ht, rfl⟩
  have := stop_of_mem_below hr
  have := start_of_mem_above ht
  dsimp only [Interval.shiftDown]
  omega

section Step

variable [BEq V]
variable {m : IntervalMap V}

theorem canonical_shifted_above
    {rs : List (Interval V)}
    (hCanonical : Intervals.Canonical rs)
    (start stop : Nat) :
    Intervals.Canonical
      ((above stop rs).map (·.shiftDown (stop - start))) :=
  canonical_shiftDown (canonical_above hCanonical stop)
    fun _ hr => Nat.le_trans (Nat.sub_le stop start)
      (start_of_mem_above hr)

theorem canonical_eraseIndices
    [PartialEquivBEq V]
    (hCanonical : m.Canonical)
    (start stop : Nat) :
    (m.eraseIndices start stop).Canonical := by
  rw [eraseIndices]
  split
  · rename_i hOrder
    exact canonical_append
      (canonical_below hCanonical start).sorted
      (canonical_shifted_above hCanonical start stop)
      (after_shifted_above (Nat.le_of_lt hOrder))
  · exact hCanonical

theorem values_eraseIndices
    {p : V → Prop}
    (hValues : m.Values p)
    (start stop : Nat) :
    (m.eraseIndices start stop).Values p := by
  rw [eraseIndices]
  split
  · refine values_append (values_below hValues start) ?_
    intro t ht
    rcases List.mem_map.1 ht with ⟨r, hr, rfl⟩
    exact values_above hValues stop r hr
  · exact hValues

theorem get?_eraseIndices
    [PartialEquivBEq V]
    (hCanonical : m.Canonical)
    (start stop i : Nat) :
    Like ((m.eraseIndices start stop).get? i)
      (if i < start then m.get? i
      else m.get? (i + (stop - start))) := by
  rw [eraseIndices]
  split
  · rename_i hOrder
    have hWhole := valueAt_append
      (canonical_below hCanonical start).sorted
      (canonical_shifted_above hCanonical start stop)
      (after_shifted_above (Nat.le_of_lt hOrder)) i
    rw [valueAt_below,
      valueAt_shiftDown fun _ hr =>
        Nat.le_trans (Nat.sub_le stop start)
          (start_of_mem_above hr),
      valueAt_above] at hWhole
    by_cases hLow : i < start
    · rw [if_pos hLow, if_neg (by omega), Option.or_none] at hWhole
      rwa [if_pos hLow]
    · rw [if_neg hLow, if_pos (by omega), Option.none_or] at hWhole
      rwa [if_neg hLow]
  · rw [show stop - start = 0 by omega, Nat.add_zero, ite_self]
    exact .refl _

/- Every call keeps the intervals canonical. -/
theorem Command.canonical_apply
    [PartialEquivBEq V]
    (hCanonical : m.Canonical)
    (call : Command V) :
    (call.apply m).Canonical := by
  cases call with
  | set start stop value =>
      rw [apply, IntervalMap.set]
      split
      · rename_i hOrder
        exact canonical_replace hCanonical (Nat.le_of_lt hOrder)
          (sorted_singleton hOrder value)
          (bounded_singleton start stop value)
      · exact hCanonical
  | clear start stop =>
      rw [apply, IntervalMap.clear]
      split
      · rename_i hOrder
        exact canonical_replace hCanonical (Nat.le_of_lt hOrder)
          sorted_nil (bounded_nil start stop)
      · exact hCanonical
  | modify start stop op =>
      rw [apply, modify_eq]
      split
      · rename_i hOrder
        exact canonical_replace_ofPieces hCanonical
          (tiles_changed (m.tiles_pieces (Nat.le_of_lt hOrder)) op)
      · exact hCanonical
  | insert before count =>
      exact canonical_insertIndices hCanonical before count
  | erase start stop =>
      exact canonical_eraseIndices hCanonical start stop
  | reset => exact canonical_empty

/- The changed pieces have values that the operation computes. -/
theorem values_changed
    {p : V → Prop}
    (hCanonical : m.Canonical)
    (hValues : m.Values p)
    {start stop : Nat}
    (hOrder : start ≤ stop)
    {op : Option V → Option V}
    (hOp : Command.Keeps p (.modify start stop op)) :
    Intervals.Values p
      (ofPieces (changed op (m.pieces start stop))) := by
  intro r hr
  simp only [ofPieces, changed, List.mem_filterMap, List.mem_map,
    Option.map_eq_some_iff] at hr
  rcases hr with ⟨_, ⟨piece, hPiece, rfl⟩, value, hValue, rfl⟩
  have hFilled := (m.tiles_pieces hOrder).mem_bounds hPiece
  refine hOp piece.value (fun v hv => ?_) value hValue
  rw [value_of_mem_piecesOf hOrder hCanonical.sorted hPiece
    (Nat.le_refl _) hFilled.2.1] at hv
  exact values_of_valueAt hValues hv

/- A call keeps a property of values if its own values have it. -/
theorem Command.values_apply
    {p : V → Prop}
    (hCanonical : m.Canonical)
    (hValues : m.Values p)
    {call : Command V}
    (hCall : call.Keeps p) :
    (call.apply m).Values p := by
  cases call with
  | set start stop value =>
      rw [apply, IntervalMap.set]
      split
      · exact values_replace hValues
          (List.forall_mem_singleton.2 hCall)
      · exact hValues
  | clear start stop =>
      rw [apply, IntervalMap.clear]
      split
      · exact values_replace hValues nofun
      · exact hValues
  | modify start stop op =>
      rw [apply, modify_eq]
      split
      · rename_i hOrder
        exact values_replace hValues
          (values_changed hCanonical hValues (Nat.le_of_lt hOrder)
            hCall)
      · exact hValues
  | insert before count =>
      intro t ht
      rcases List.mem_map.1 ht with ⟨r, hr, rfl⟩
      have hSame :
          (r.insertIndices before count).value = r.value := by
        unfold Interval.insertIndices Interval.shiftUp
        split
        · rfl
        · split <;> rfl
      rw [hSame]
      exact hValues r hr
  | erase start stop => exact values_eraseIndices hValues start stop
  | reset => exact nofun

/- Every call changes the values as its dense meaning says. -/
theorem Command.like_apply
    [PartialEquivBEq V]
    (hCanonical : m.Canonical)
    (call : Command V)
    (i : Nat) :
    Like ((call.apply m).get? i) (call.dense m.get? i) := by
  cases call with
  | set start stop value =>
      rw [apply, IntervalMap.set, dense]
      split
      · rename_i hOrder
        have hReplaced := get?_replace hCanonical
          (Nat.le_of_lt hOrder) (sorted_singleton hOrder value)
          (bounded_singleton start stop value) i
        rw [valueAt_cons] at hReplaced
        split at hReplaced
        · rwa [if_pos ‹_›]
        · rwa [if_neg ‹_›]
      · rw [if_neg (by omega)]
        exact .refl _
  | clear start stop =>
      rw [apply, IntervalMap.clear, dense]
      split
      · rename_i hOrder
        exact get?_replace hCanonical (Nat.le_of_lt hOrder)
          sorted_nil (bounded_nil start stop) i
      · rw [if_neg (by omega)]
        exact .refl _
  | modify start stop op =>
      rw [apply, modify_eq, dense]
      split
      · rename_i hOrder
        have hTiles := tiles_changed
          (m.tiles_pieces (Nat.le_of_lt hOrder)) op
        have hReplaced := get?_replace_ofPieces hCanonical hTiles i
        split
        · rename_i hInside
          rw [if_pos hInside] at hReplaced
          rwa [valueAt_ofPieces hTiles
            (value_of_mem_changed fun p hp j hStart hStop =>
              value_of_mem_piecesOf (Nat.le_of_lt hOrder)
                hCanonical.sorted hp hStart hStop)
            hInside.1 hInside.2] at hReplaced
        · rename_i hOutside
          rwa [if_neg hOutside] at hReplaced
      · rw [if_neg (by omega)]
        exact .refl _
  | insert before count =>
      rw [apply, dense, get?_insertIndices]
      exact .refl _
  | erase start stop =>
      exact get?_eraseIndices hCanonical start stop i
  | reset => exact .refl none

/- A call gives values that are equal to themselves. -/
theorem Command.alike_dense
    {old : Nat → Option V}
    (hOld : ∀ i, Alike (old i) (old i))
    {call : Command V}
    (hCall : call.Keeps fun v => (v == v) = true)
    (i : Nat) :
    Alike (call.dense old i) (call.dense old i) := by
  cases call with
  | set start stop value =>
      rw [dense]
      split
      · exact hCall
      · exact hOld i
  | clear start stop =>
      rw [dense]
      split
      · exact alike_none
      · exact hOld i
  | modify start stop op =>
      rw [dense]
      split
      · cases hNew : op (old i) with
        | none => exact alike_none
        | some value =>
            refine hCall (old i) (fun a hValue => ?_) value hNew
            have hSelf := hOld i
            rwa [hValue] at hSelf
      · exact hOld i
  | insert before count =>
      rw [dense]
      split
      · exact hOld i
      · split
        · exact hOld before
        · exact hOld _
  | erase start stop =>
      rw [dense]
      split
      · exact hOld i
      · exact hOld _
  | reset => exact alike_none

/- The values are equal if all of them are to themselves. -/
theorem Command.get?_apply
    [PartialEquivBEq V]
    (hCanonical : m.Canonical)
    (hProper : m.Proper)
    {call : Command V}
    (hCall : call.Keeps fun v => (v == v) = true)
    (i : Nat) :
    Alike ((call.apply m).get? i) (call.dense m.get? i) :=
  (call.like_apply hCanonical i).trans_alike
    (Command.alike_dense (Proper.alike hProper) hCall i)

/- The dense meaning does not tell like values apart. -/
theorem Command.like_dense
    {old new : Nat → Option V}
    (hLike : ∀ i, Like (old i) (new i))
    {call : Command V}
    (hCall : call.Respects)
    (i : Nat) :
    Like (call.dense old i) (call.dense new i) := by
  cases call with
  | set start stop value =>
      rw [dense, dense]
      split
      · exact .refl _
      · exact hLike i
  | clear start stop =>
      rw [dense, dense]
      split
      · exact .refl _
      · exact hLike i
  | modify start stop op =>
      rw [dense, dense]
      split
      · rcases hLike i with hSame | hEqual
        · rw [hSame]
          exact .refl _
        · exact hCall _ _ hEqual
      · exact hLike i
  | insert before count =>
      rw [dense, dense]
      split
      · exact hLike i
      · split
        · exact hLike before
        · exact hLike _
  | erase start stop =>
      rw [dense, dense]
      split
      · exact hLike i
      · exact hLike _
  | reset => exact .refl none

end Step

------------------------------------------------------------
-- Where Intervals Stop
------------------------------------------------------------

/- All intervals stop at an index or before it. -/
def StopsBy (n : Nat) (m : IntervalMap V) : Prop :=
  ∀ r ∈ m.intervals, r.stop ≤ n

theorem StopsBy.wider
    {m : IntervalMap V}
    {n k : Nat}
    (hStops : m.StopsBy n)
    (hWide : n ≤ k) :
    m.StopsBy k :=
  fun r hr => Nat.le_trans (hStops r hr) hWide

/- How far intervals reach after a call. -/
def Command.reach (n : Nat) : Command V → Nat
  | set _ stop _ => max n stop
  | clear _ _ => n
  | modify _ stop _ => max n stop
  | insert before count => max n before + count
  | erase start stop => max (min n start) (n - (stop - start))
  | reset => 0

section Stops

variable [BEq V]
variable {m : IntervalMap V} {n : Nat}

theorem stopsBy_replace
    (hStops : m.StopsBy n)
    {start stop : Nat}
    {rs : List (Interval V)}
    (hInside : ∀ r ∈ rs, r.stop ≤ n) :
    (m.replace start stop rs).StopsBy n := by
  have hUpper :
      ∀ r ∈ append rs (above stop m.intervals), r.stop ≤ n := by
    intro r hr
    rcases ends_of_mem_append hr with ⟨_, _, last, hLast, rfl⟩
    rcases List.mem_append.1 hLast with hIn | hIn
    · exact hInside last hIn
    · rcases List.mem_map.1 hIn with ⟨u, hu, rfl⟩
      exact hStops u (List.mem_filter.1 hu).1
  intro r hr
  rcases ends_of_mem_append hr with ⟨_, _, last, hLast, rfl⟩
  rcases List.mem_append.1 hLast with hIn | hIn
  · rcases List.mem_map.1 hIn with ⟨u, hu, rfl⟩
    exact Nat.le_trans (Nat.min_le_left u.stop start)
      (hStops u (List.mem_filter.1 hu).1)
  · exact hUpper last hIn

theorem stopsBy_eraseIndices
    (hStops : m.StopsBy n)
    (start stop : Nat) :
    (m.eraseIndices start stop).StopsBy
      (max (min n start) (n - (stop - start))) := by
  intro r hr
  rw [eraseIndices] at hr
  split at hr
  · rcases ends_of_mem_append hr with ⟨_, _, last, hLast, rfl⟩
    rcases List.mem_append.1 hLast with hIn | hIn
    · rcases List.mem_map.1 hIn with ⟨u, hu, rfl⟩
      have := hStops u (List.mem_filter.1 hu).1
      dsimp only
      omega
    · rcases List.mem_map.1 hIn with ⟨v, hv, rfl⟩
      rcases List.mem_map.1 hv with ⟨u, hu, rfl⟩
      have := hStops u (List.mem_filter.1 hu).1
      dsimp only [Interval.shiftDown]
      omega
  · have := hStops r hr
    omega

/- A call makes intervals reach as far as it says. -/
theorem Command.stopsBy_apply
    (hStops : m.StopsBy n)
    (call : Command V) :
    (call.apply m).StopsBy (call.reach n) := by
  cases call with
  | set start stop value =>
      rw [apply, IntervalMap.set]
      have hWider := hStops.wider (Nat.le_max_left n stop)
      split
      · exact stopsBy_replace hWider
          (List.forall_mem_singleton.2 (Nat.le_max_right n stop))
      · exact hWider
  | clear start stop =>
      rw [apply, IntervalMap.clear]
      split
      · exact stopsBy_replace hStops (List.forall_mem_nil _)
      · exact hStops
  | modify start stop op =>
      rw [apply, modify_eq]
      have hWider := hStops.wider (Nat.le_max_left n stop)
      split
      · rename_i hOrder
        have hTiles := tiles_changed
          (m.tiles_pieces (Nat.le_of_lt hOrder)) op
        exact stopsBy_replace hWider fun r hr =>
          Nat.le_trans (bounded_ofPieces hTiles r hr).2
            (Nat.le_max_right n stop)
      · exact hWider
  | insert before count =>
      intro t ht
      rcases List.mem_map.1 ht with ⟨r, hr, rfl⟩
      have := hStops r hr
      rw [Interval.insertIndices, reach]
      split
      · omega
      · split <;> dsimp only [Interval.shiftUp] <;> omega
  | erase start stop => exact stopsBy_eraseIndices hStops start stop
  | reset => exact List.forall_mem_nil _

end Stops

------------------------------------------------------------
-- Runs
------------------------------------------------------------

/- The map after calls, from the empty map on. -/
def run [BEq V] (calls : List (Command V)) : IntervalMap V :=
  calls.foldl Command.apply empty

/- The values after calls, when no index has one before. -/
def denseRun (calls : List (Command V)) : Nat → Option V :=
  calls.foldl Command.dense fun _ => none

section Run

variable [BEq V]

theorem canonical_foldl
    [PartialEquivBEq V]
    (calls : List (Command V))
    {m : IntervalMap V}
    (hCanonical : m.Canonical) :
    (calls.foldl Command.apply m).Canonical := by
  induction calls generalizing m with
  | nil => exact hCanonical
  | cons call rest ih =>
      exact ih (Command.canonical_apply hCanonical call)

/- The step, for all calls from a map that dense values fit. -/
theorem like_foldl
    [PartialEquivBEq V]
    {calls : List (Command V)}
    (hCalls : ∀ call ∈ calls, call.Respects)
    {m : IntervalMap V}
    (hCanonical : m.Canonical)
    {old : Nat → Option V}
    (hLike : ∀ i, Like (m.get? i) (old i))
    (i : Nat) :
    Like ((calls.foldl Command.apply m).get? i)
      (calls.foldl Command.dense old i) := by
  induction calls generalizing m old with
  | nil => exact hLike i
  | cons call rest ih =>
      rw [List.forall_mem_cons] at hCalls
      have hStep : ∀ j,
          Like ((call.apply m).get? j) (call.dense old j) :=
        fun j => (call.like_apply hCanonical j).trans
          (Command.like_dense hLike hCalls.1 j)
      exact ih hCalls.2
        (Command.canonical_apply hCanonical call) hStep

/- With an equality that is lawful, every call does. -/
theorem Command.respects_of_lawful
    [LawfulBEq V]
    (call : Command V) :
    call.Respects := by
  cases call with
  | modify start stop op =>
      intro a b hEqual
      exact .inl (congrArg op (alike_iff_eq.1 hEqual))
  | _ => trivial

theorem foldl_apply
    [LawfulBEq V]
    (calls : List (Command V))
    {m : IntervalMap V}
    (hCanonical : m.Canonical) :
    (calls.foldl Command.apply m).Canonical ∧
      (calls.foldl Command.apply m).get? =
        calls.foldl Command.dense m.get? :=
  ⟨canonical_foldl calls hCanonical,
    funext fun i => like_iff_eq.1
      (like_foldl (fun call _ => call.respects_of_lawful)
        hCanonical (fun _ => .refl _) i)⟩

/-
  The map that calls make is a canonical form of the dense
  values that they make.
-/
theorem run_represents_dense
    [LawfulBEq V]
    (calls : List (Command V)) :
    (∀ r ∈ (run calls).intervals, r.start < r.stop) ∧
      (run calls).intervals.Pairwise (fun r s =>
        r.stop ≤ s.start ∧
          (r.stop = s.start → r.value ≠ s.value)) ∧
      (run calls).get? = denseRun calls := by
  rcases foldl_apply calls (canonical_empty (V := V)) with
    ⟨⟨hFilled, hSeparate⟩, hValues⟩
  refine ⟨hFilled, hSeparate.imp ?_, hValues⟩
  intro r s hApart
  exact ⟨hApart.1, fun hTouch =>
    ne_of_beq_false (hApart.2 hTouch)⟩

end Run

/- Two intervals become one when what parts them is erased. -/
theorem run_joins_neighbours :
    (run [Command.set 0 4 7, .set 6 9 7, .erase 4 6]).intervals =
        [⟨0, 7, 7⟩] ∧
      (run [Command.set 0 4 7, .set 6 9 7, .erase 4 6]).get? =
        denseRun [Command.set 0 4 7, .set 6 9 7, .erase 4 6] :=
  ⟨by decide, (run_represents_dense _).2.2⟩

end IntervalMap

end Spreadsheet
