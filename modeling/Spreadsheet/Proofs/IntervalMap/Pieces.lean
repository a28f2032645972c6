import Mathlib.Data.List.Chain
import Spreadsheet.Proofs.IntervalMap.Canonical

/-
  The pieces of a range of indices.

  The pieces of a map tile the range, hold the values of their
  indices, and cannot be longer. A cursor finds them one after
  the other. A visit of the pieces is broken off by the first
  answer, and a change runs its operation once for each piece.

  Main declarations:
    * `IntervalMap.Covers`
    * `PieceCursor.next?`
    * `IntervalMap.yields_pieces`
    * `IntervalMap.visited_visitUntil`
    * `IntervalMap.pieces_of_reached`
-/

namespace Spreadsheet

variable {V : Type}

------------------------------------------------------------
-- Cursors
------------------------------------------------------------

/-
  A walk that finds one piece after the other. It knows the
  intervals ahead, one that it saw but did not reach yet, and
  where the next piece starts.
-/
structure PieceCursor (V : Type) where
  ahead : List (Interval V)
  pending : Option (Interval V)
  position : Nat
  stop : Nat

namespace PieceCursor

/- See the interval ahead, unless one is pending. -/
def see (c : PieceCursor V) : PieceCursor V :=
  match c.pending, c.ahead with
  | none, r :: rest => { c with ahead := rest, pending := some r }
  | _, _ => c

/- The piece at the position, when an interval was seen. -/
def piece (c : PieceCursor V) : Piece V × PieceCursor V :=
  match c.pending with
  | none => (⟨c.position, c.stop, none⟩, { c with position := c.stop })
  | some r =>
      if c.position < r.start then
        let next := min r.start c.stop
        (⟨c.position, next, none⟩, { c with position := next })
      else
        let next := min r.stop c.stop
        (⟨c.position, next, some r.value⟩,
          { c with pending := none, position := next })

/- The next piece, and the cursor behind it. -/
def next? (c : PieceCursor V) : Option (Piece V × PieceCursor V) :=
  if c.stop ≤ c.position then none else some c.see.piece

/- A cursor finds some pieces and comes to its end. -/
inductive Yields : PieceCursor V → List (Piece V) → Prop where
  | done
      {c : PieceCursor V}
      (hEnd : c.next? = none) :
      Yields c []
  | step
      {c d : PieceCursor V}
      {p : Piece V}
      {ps : List (Piece V)}
      (hNext : c.next? = some (p, d))
      (hRest : Yields d ps) :
      Yields c (p :: ps)

end PieceCursor

namespace IntervalMap

open Intervals

/-
  A cursor over a range. Its first interval is the one that
  holds the first index, or the first one behind it.
-/
def cursor
    (m : IntervalMap V)
    (start stop : Nat) : PieceCursor V :=
  let holding := m.intervals.find? (·.contains start)
  let first := (holding.map (·.start)).getD start
  ⟨m.intervals.filter (first ≤ ·.start), none, start, stop⟩

------------------------------------------------------------
-- Pieces One By One
------------------------------------------------------------

section PiecesOf

variable {start stop : Nat}
variable {r : Interval V} {rs : List (Interval V)}

theorem piecesOf_of_le
    (hEmpty : stop ≤ start)
    (rs : List (Interval V)) :
    piecesOf start stop rs = [] := by
  induction rs with
  | nil => rw [piecesOf, if_neg (by omega)]
  | cons r rest ih =>
      have hFirst : max start (min r.start stop) = start := by omega
      have hLast : max start (min r.stop stop) = start := by omega
      simp [piecesOf, hFirst, hLast, ih]

/- The range starts in an interval. -/
theorem piecesOf_inside
    (hInside : r.start ≤ start ∧ start < r.stop)
    (hOrder : start < stop) :
    piecesOf start stop (r :: rs) =
      ⟨start, min r.stop stop, some r.value⟩ ::
        piecesOf (min r.stop stop) stop rs := by
  have hFirst : max start (min r.start stop) = start := by omega
  have hLast :
      max start (min r.stop stop) = min r.stop stop := by omega
  have hFilled : start < min r.stop stop := by omega
  rw [piecesOf, if_neg (by omega)]
  simp only [hFirst, hLast, hFilled, Nat.lt_irrefl, if_true,
    if_false, List.nil_append, List.singleton_append]

/- The range starts in a gap that an interval ends. -/
theorem piecesOf_gap
    (hGap : start < r.start)
    (hInterval : r.start < stop)
    (hFilled : r.start < r.stop) :
    piecesOf start stop (r :: rs) =
      ⟨start, r.start, none⟩ ::
        ⟨r.start, min r.stop stop, some r.value⟩ ::
          piecesOf (min r.stop stop) stop rs := by
  have hFirst : max start (min r.start stop) = r.start := by omega
  have hLast :
      max r.start (min r.stop stop) = min r.stop stop := by omega
  have hBehind : r.start < min r.stop stop := by omega
  rw [piecesOf, if_neg (by omega)]
  simp only [hFirst, hLast, hGap, hBehind, if_true,
    List.cons_append, List.nil_append]

/- The range lies in a gap. -/
theorem piecesOf_before
    (hOrder : start < stop)
    (hBefore : stop ≤ r.start)
    (hFilled : r.start < r.stop) :
    piecesOf start stop (r :: rs) = [⟨start, stop, none⟩] := by
  have hFirst : max start (min r.start stop) = stop := by omega
  have hLast : max stop (min r.stop stop) = stop := by omega
  rw [piecesOf, if_neg (by omega)]
  simp only [hFirst, hLast, hOrder, Nat.lt_irrefl, if_true, if_false,
    piecesOf_of_le (Nat.le_refl stop), List.append_nil]

/-
  Induction along the pieces, for intervals that end behind
  the start of the range.
-/
theorem piecesOf_induction
    {motive : Nat → List (Interval V) → List (Piece V) → Prop}
    (finished : ∀ rs, motive stop rs [])
    (last :
      ∀ position, position < stop →
        motive position [] [⟨position, stop, none⟩])
    (before :
      ∀ position r rs, position < stop → stop ≤ r.start →
        motive position (r :: rs) [⟨position, stop, none⟩])
    (gap :
      ∀ position r rs, position < r.start → r.start < stop →
        motive r.start (r :: rs)
          (⟨r.start, min r.stop stop, some r.value⟩ ::
            piecesOf (min r.stop stop) stop rs) →
          motive position (r :: rs)
            (⟨position, r.start, none⟩ ::
              ⟨r.start, min r.stop stop, some r.value⟩ ::
                piecesOf (min r.stop stop) stop rs))
    (inside :
      ∀ position r rs,
        r.start ≤ position ∧ position < r.stop →
        position < stop →
        motive (min r.stop stop) rs
          (piecesOf (min r.stop stop) stop rs) →
          motive position (r :: rs)
            (⟨position, min r.stop stop, some r.value⟩ ::
              piecesOf (min r.stop stop) stop rs))
    (hSorted : Sorted rs)
    (hBehind : ∀ r ∈ rs, start < r.stop)
    (hOrder : start ≤ stop) :
    motive start rs (piecesOf start stop rs) := by
  rcases Nat.eq_or_lt_of_le hOrder with rfl | hOrder
  · rw [piecesOf_of_le (Nat.le_refl start)]
    exact finished rs
  induction rs generalizing start with
  | nil =>
      rw [piecesOf, if_pos hOrder]
      exact last start hOrder
  | cons r rs ih =>
      rw [List.forall_mem_cons] at hBehind
      rw [sorted_cons] at hSorted
      rcases hSorted with ⟨hFilled, hAfter, hSorted⟩
      -- the induction hypothesis covers a rest that is not empty
      have hRest :
          motive (min r.stop stop) rs
            (piecesOf (min r.stop stop) stop rs) := by
        by_cases hLast : stop ≤ r.stop
        · rw [Nat.min_eq_right hLast,
            piecesOf_of_le (Nat.le_refl stop)]
          exact finished rs
        · refine ih hSorted (fun s hs => ?_) (by omega) (by omega)
          have := hAfter s hs
          have := hSorted.filled s hs
          omega
      by_cases hReached : r.start ≤ start
      · rw [piecesOf_inside ⟨hReached, hBehind.1⟩ hOrder]
        exact inside start r rs ⟨hReached, hBehind.1⟩ hOrder hRest
      · have hGap : start < r.start := by omega
        by_cases hBefore : stop ≤ r.start
        · rw [piecesOf_before hOrder hBefore hFilled]
          exact before start r rs hOrder hBefore
        · have hInterval : r.start < stop := by omega
          have hHere := inside r.start r rs
            ⟨Nat.le_refl _, hFilled⟩ hInterval hRest
          rw [piecesOf_gap hGap hInterval hFilled]
          exact gap start r rs hGap hInterval hHere

end PiecesOf

------------------------------------------------------------
-- Cursors Find The Pieces
------------------------------------------------------------

section Cursor

variable {position stop : Nat}
variable {r : Interval V} {rs : List (Interval V)}

theorem yields_of_le
    {c : PieceCursor V}
    (hEnd : c.stop ≤ c.position) :
    c.Yields [] :=
  .done (if_pos hEnd)

theorem yields_of_eq
    {c d : PieceCursor V}
    {ps : List (Piece V)}
    (hNext : c.next? = d.next?)
    (hYields : d.Yields ps) :
    c.Yields ps := by
  cases hYields with
  | done hEnd => exact .done (hNext.trans hEnd)
  | step hFound hRest => exact .step (hNext.trans hFound) hRest

/- An interval that is reached is passed. -/
theorem next?_inside
    (hReached : r.start ≤ position)
    (hOrder : position < stop) :
    PieceCursor.next? ⟨r :: rs, none, position, stop⟩ =
      some (⟨position, min r.stop stop, some r.value⟩,
        ⟨rs, none, min r.stop stop, stop⟩) := by
  have hNotAhead : ¬ position < r.start := by omega
  have hGoesOn : ¬ stop ≤ position := by omega
  simp [PieceCursor.next?, PieceCursor.see, PieceCursor.piece,
    hNotAhead, hGoesOn]

/- The interval behind a gap stays pending. -/
theorem next?_gap
    (hGap : position < r.start)
    (hOrder : position < stop)
    (rs : List (Interval V)) :
    PieceCursor.next? ⟨r :: rs, none, position, stop⟩ =
      some (⟨position, min r.start stop, none⟩,
        ⟨rs, some r, min r.start stop, stop⟩) := by
  have hGoesOn : ¬ stop ≤ position := by omega
  simp [PieceCursor.next?, PieceCursor.see, PieceCursor.piece,
    hGap, hGoesOn]

theorem next?_last
    (hOrder : position < stop) :
    PieceCursor.next? (⟨[], none, position, stop⟩ : PieceCursor V) =
      some (⟨position, stop, none⟩, ⟨[], none, stop, stop⟩) := by
  have hGoesOn : ¬ stop ≤ position := by omega
  simp [PieceCursor.next?, PieceCursor.see, PieceCursor.piece,
    hGoesOn]

/-
  While a piece is found, what is ahead is what the pieces
  are made of; whether the first interval ahead was seen
  before does not matter.
-/
theorem yields_piecesOf
    (hSorted : Sorted rs)
    (hBehind : ∀ r ∈ rs, position < r.stop)
    (hOrder : position ≤ stop) :
    PieceCursor.Yields ⟨rs, none, position, stop⟩
      (piecesOf position stop rs) := by
  refine piecesOf_induction
    (motive := fun position rs ps =>
      PieceCursor.Yields ⟨rs, none, position, stop⟩ ps)
    ?finished ?last ?before ?gap ?inside hSorted hBehind hOrder
  case finished =>
    intro rs
    exact yields_of_le (Nat.le_refl stop)
  case last =>
    intro position hFilled
    exact .step (next?_last hFilled) (yields_of_le (Nat.le_refl stop))
  case before =>
    intro position r rs hFilled hBefore
    have hNext := next?_gap
      (Nat.lt_of_lt_of_le hFilled hBefore) hFilled rs
    rw [Nat.min_eq_right hBefore] at hNext
    exact .step hNext (yields_of_le (Nat.le_refl stop))
  case gap =>
    intro position r rs hGap hInterval hRest
    have hNext := next?_gap hGap (Nat.lt_trans hGap hInterval) rs
    -- from the gap's end on, the pending interval is the one ahead
    have hSeen :
        PieceCursor.next? ⟨rs, some r, r.start, stop⟩ =
          PieceCursor.next? ⟨r :: rs, none, r.start, stop⟩ := rfl
    rw [Nat.min_eq_left (Nat.le_of_lt hInterval)] at hNext
    exact .step hNext (yields_of_eq hSeen hRest)
  case inside =>
    intro position r rs hInside hFilled hRest
    exact .step (next?_inside hInside.1 hFilled) hRest

/- Intervals that end before a range have no part in it. -/
theorem piecesOf_filter
    {keep : Interval V → Bool}
    {start : Nat}
    (hDropped :
      ∀ r ∈ rs, keep r = false → r.stop ≤ start) :
    piecesOf start stop (rs.filter keep) =
      piecesOf start stop rs := by
  induction rs generalizing start with
  | nil => rfl
  | cons r rs ih =>
      rw [List.forall_mem_cons] at hDropped
      have hLater :
          ∀ next, start ≤ next →
            piecesOf next stop (rs.filter keep) =
              piecesOf next stop rs :=
        fun next hNext => ih fun s hs hOut =>
          (hDropped.2 s hs hOut).trans hNext
      cases hKeep : keep r with
      | true =>
          rw [List.filter_cons_of_pos hKeep, piecesOf, piecesOf,
            hLater start (Nat.le_refl start)]
          dsimp only
          rw [hLater _ (by omega)]
      | false =>
          rw [List.filter_cons_of_neg (by simp [hKeep]), piecesOf,
            if_pos (hDropped.1 hKeep), ih hDropped.2]

/- Of two intervals, one is behind the other. -/
theorem apart_of_mem
    {s : Interval V}
    (hSorted : Sorted rs)
    (hr : r ∈ rs)
    (hs : s ∈ rs) :
    r = s ∨ r.stop ≤ s.start ∨ s.stop ≤ r.start := by
  induction rs with
  | nil => exact absurd hr List.not_mem_nil
  | cons t rs ih =>
      rcases sorted_cons.1 hSorted with ⟨-, hAfter, hSorted⟩
      rcases List.mem_cons.1 hr with hFirst | hLater
      · rcases List.mem_cons.1 hs with hFirst' | hLater'
        · exact .inl (hFirst.trans hFirst'.symm)
        · exact .inr (.inl (hFirst ▸ hAfter s hLater'))
      · rcases List.mem_cons.1 hs with hFirst' | hLater'
        · exact .inr (.inr (hFirst' ▸ hAfter r hLater))
        · exact ih hSorted hLater hLater'

/-
  The intervals from the one that holds an index on are those
  that end behind it.
-/
theorem first_le_start_iff
    {start : Nat}
    (hSorted : Sorted rs)
    (hr : r ∈ rs) :
    ((rs.find? (·.contains start)).map (·.start)).getD start ≤
        r.start ↔
      start < r.stop := by
  have hFilled := hSorted.filled r hr
  cases hFound : rs.find? (·.contains start) with
  | none =>
      have hOutside := List.find?_eq_none.1 hFound r hr
      simp only [Interval.contains, Bool.and_eq_true,
        decide_eq_true_eq] at hOutside
      simp only [Option.map_none, Option.getD_none]
      omega
  | some c =>
      have hc := List.mem_of_find?_eq_some hFound
      have hContains := List.find?_some hFound
      simp only [Interval.contains, Bool.and_eq_true,
        decide_eq_true_eq] at hContains
      simp only [Option.map_some, Option.getD_some]
      rcases apart_of_mem hSorted hr hc with rfl | hBefore | hBehind
      · omega
      · omega
      · omega

theorem pieces_eq
    (m : IntervalMap V)
    (start stop : Nat) :
    m.pieces start stop =
      piecesOf start stop (m.intervals.filter (start < ·.stop)) := by
  refine (piecesOf_filter fun r _ hOut => ?_).symm
  exact Nat.le_of_not_lt (of_decide_eq_false hOut)

theorem cursor_eq
    {m : IntervalMap V}
    (hSorted : Sorted m.intervals)
    (start stop : Nat) :
    m.cursor start stop =
      ⟨m.intervals.filter (start < ·.stop), none, start, stop⟩ := by
  let first :=
    ((m.intervals.find? (·.contains start)).map (·.start)).getD start
  have hSame :
      m.intervals.filter (fun r => decide (first ≤ r.start)) =
        m.intervals.filter (fun r => decide (start < r.stop)) :=
    List.filter_congr fun r hr =>
      decide_eq_decide.2 (first_le_start_iff hSorted hr)
  exact congrArg (PieceCursor.mk · none start stop) hSame

end Cursor

------------------------------------------------------------
-- What Pieces Hold
------------------------------------------------------------

/- Two pieces differ in value or in being a gap. -/
def Differ [BEq V] (p q : Piece V) : Prop :=
  ¬ Alike p.value q.value

/-
  Pieces tile a range, hold the values of their indices, and
  no two neighbours could be one piece.
-/
structure Covers
    [BEq V]
    (values : Nat → Option V)
    (start stop : Nat)
    (ps : List (Piece V)) : Prop where
  tiles : Tiles start stop ps
  value_eq :
    ∀ p ∈ ps, ∀ i, p.start ≤ i → i < p.stop → p.value = values i
  differ : ps.IsChain Differ

section Covers

variable {start stop : Nat} {rs : List (Interval V)}

theorem start_lt_of_mem_filter
    {r : Interval V}
    (hr : r ∈ rs.filter (start < ·.stop)) :
    start < r.stop :=
  of_decide_eq_true (List.mem_filter.1 hr).2

/- The first piece holds the value of the first index. -/
theorem value_of_head
    (hSorted : Sorted rs)
    (hOrder : start ≤ stop)
    {p : Piece V}
    (hHead : p ∈ (piecesOf start stop rs).head?) :
    p.value = valueAt rs start := by
  have hTiles := tiles_piecesOf hOrder rs
  have hp := List.mem_of_mem_head? hHead
  have hFilled := (hTiles.mem_bounds hp).2.1
  have hStart : p.start = start := by
    cases hPieces : piecesOf start stop rs with
    | nil =>
        rw [hPieces] at hHead
        cases hHead
    | cons q rest =>
        rw [hPieces] at hHead hTiles
        cases hHead
        exact hTiles.1
  exact value_of_mem_piecesOf hOrder hSorted hp
    (Nat.le_of_eq hStart) (by omega)

variable [BEq V]

/- The piece of an interval does not go on behind it. -/
theorem differ_behind
    {r : Interval V}
    (hCanonical : Intervals.Canonical (r :: rs))
    {p q : Piece V}
    (hValue : p.value = some r.value)
    (hHead : q ∈ (piecesOf (min r.stop stop) stop rs).head?) :
    Differ p q := by
  by_cases hLast : stop ≤ r.stop
  · rw [piecesOf_of_le (by omega)] at hHead
    cases hHead
  · have hStop : min r.stop stop = r.stop := by omega
    rw [hStop] at hHead
    have hBehind := value_of_head hCanonical.tail.sorted
      (by omega) hHead
    rw [Differ, hValue, hBehind]
    intro hAlike
    rcases exists_of_alike hAlike with ⟨w, hNext, hEqual⟩
    rw [value_of_stop hCanonical hNext] at hEqual
    cases hEqual

theorem differ_piecesOf
    (hCanonical : Intervals.Canonical rs)
    (hBehind : ∀ r ∈ rs, start < r.stop)
    (hOrder : start ≤ stop) :
    (piecesOf start stop rs).IsChain Differ := by
  refine piecesOf_induction
    (motive := fun _ rs ps =>
      Intervals.Canonical rs → ps.IsChain Differ)
    ?finished ?last ?before ?gap ?inside hCanonical.sorted hBehind
    hOrder hCanonical
  case finished => exact fun _ _ => .nil
  case last => exact fun _ _ _ => .singleton _
  case before => exact fun _ _ _ _ _ _ => .singleton _
  case gap =>
    intro position r rs _ _ hRest hCanonical
    have hGap :
        Differ (⟨position, r.start, none⟩ : Piece V)
          ⟨r.start, min r.stop stop, some r.value⟩ := nofun
    exact List.isChain_cons_cons.2 ⟨hGap, hRest hCanonical⟩
  case inside =>
    intro position r rs _ _ hRest hCanonical
    exact List.isChain_cons.2
      ⟨fun q hHead => differ_behind hCanonical rfl hHead,
        hRest hCanonical.tail⟩

variable {m : IntervalMap V}

/- The cursor over a range finds its pieces. -/
theorem yields_pieces
    (hCanonical : m.Canonical)
    (hOrder : start ≤ stop) :
    (m.cursor start stop).Yields (m.pieces start stop) := by
  rw [cursor_eq hCanonical.sorted, pieces_eq]
  exact yields_piecesOf (hCanonical.filter _).sorted
    (fun r hr => start_lt_of_mem_filter hr) hOrder

theorem covers_pieces
    (hCanonical : m.Canonical)
    (hOrder : start ≤ stop) :
    Covers m.get? start stop (m.pieces start stop) := by
  refine ⟨m.tiles_pieces hOrder, ?_, ?_⟩
  · intro p hp i hStart hStop
    exact value_of_mem_piecesOf hOrder hCanonical.sorted hp hStart
      hStop
  · rw [pieces_eq]
    exact differ_piecesOf (hCanonical.filter _)
      (fun r hr => start_lt_of_mem_filter hr) hOrder

end Covers

------------------------------------------------------------
-- Visits
------------------------------------------------------------

section Visits

variable {α β σ : Type}
variable {f : σ → α → σ × Option β} {s : σ} {l : List α}

/- The state after all elements were visited. -/
def stateAfter
    (f : σ → α → σ × Option β)
    (s : σ)
    (l : List α) : σ :=
  l.foldl (fun s a => (f s a).1) s

/- No visit gives an answer. -/
def Silent
    (f : σ → α → σ × Option β)
    (s : σ)
    (l : List α) : Prop :=
  ∀ seen a rest, l = seen ++ a :: rest →
    (f (stateAfter f s seen) a).2 = none

/-
  All elements were visited in order, or those up to the first
  one whose visit gives an answer.
-/
def Visited
    (f : σ → α → σ × Option β)
    (s : σ)
    (l : List α) : σ × Option β → Prop
  | (t, none) => t = stateAfter f s l ∧ Silent f s l
  | (t, some b) =>
      ∃ seen a rest, l = seen ++ a :: rest ∧ Silent f s seen ∧
        f (stateAfter f s seen) a = (t, some b)

theorem silent_nil : Silent f s [] := by
  intro seen a rest hSplit
  simp at hSplit

theorem Silent.cons
    {a : α}
    (hFirst : (f s a).2 = none)
    (hRest : Silent f (f s a).1 l) :
    Silent f s (a :: l) := by
  intro seen b rest hSplit
  cases seen with
  | nil =>
      cases hSplit
      exact hFirst
  | cons c seen =>
      cases hSplit
      exact hRest seen b rest rfl

theorem visited_visitUntil
    (f : σ → α → σ × Option β)
    (s : σ)
    (l : List α) :
    Visited f s l (visitUntil f s l) := by
  induction l generalizing s with
  | nil => exact ⟨rfl, silent_nil⟩
  | cons a rest ih =>
      rcases hVisit : f s a with ⟨t, _ | b⟩
      · have hState : (f s a).1 = t := by rw [hVisit]
        have hSilent : (f s a).2 = none := by rw [hVisit]
        have hLater := ih t
        rw [visitUntil, hVisit]
        dsimp only
        rcases hEnd : visitUntil f t rest with ⟨u, _ | b⟩
        · rw [hEnd] at hLater
          rcases hLater with ⟨hAfter, hRest⟩
          refine ⟨?_, Silent.cons hSilent (by rwa [hState])⟩
          rw [hAfter, stateAfter, stateAfter, List.foldl_cons, hState]
        · rw [hEnd] at hLater
          rcases hLater with ⟨seen, c, others, hSplit, hSeen, hStop⟩
          refine ⟨a :: seen, c, others, by rw [hSplit]; rfl,
            Silent.cons hSilent (by rwa [hState]), ?_⟩
          rw [stateAfter, List.foldl_cons, hState]
          exact hStop
      · rw [visitUntil, hVisit]
        exact ⟨[], a, rest, rfl, silent_nil, hVisit⟩

end Visits

------------------------------------------------------------
-- Pieces Of Maps That Are Reached
------------------------------------------------------------

/- An interval is a piece whose gap was filled. -/
def Fills
    (m : IntervalMap V)
    (default : V)
    (p : Piece V)
    (r : Interval V) : Prop :=
  r.start = p.start ∧ r.stop = p.stop ∧
    ∀ i, r.start ≤ i → i < r.stop → r.value = m.getD i default

/-
  An operation was asked once for each piece, in order, and
  the indices of a piece have the answer for it.
-/
structure Asked
    [BEq V]
    {σ : Type}
    (m : IntervalMap V)
    (start stop : Nat)
    (op : Option V → StateM σ (Option V))
    (s : σ)
    (changed : IntervalMap V × σ) : Prop where
  state_eq : changed.2 = told op s (m.pieces start stop)
  inside :
    ∀ seen p rest, m.pieces start stop = seen ++ p :: rest →
      ∀ i, p.start ≤ i → i < p.stop →
        Like (changed.1.get? i) (answer op (told op s seen) p)
  outside :
    ∀ i, i < start ∨ stop ≤ i →
      Like (changed.1.get? i) (m.get? i)

section Reached

variable [BEq V]
variable {m : IntervalMap V} {start stop : Nat}

theorem fills_filled
    (hCovers : Covers m.get? start stop (m.pieces start stop))
    (default : V) :
    List.Forall₂ (Fills m default) (m.pieces start stop)
      (m.filled start stop default) := by
  refine List.forall₂_map_right_iff.2 (List.forall₂_same.2 ?_)
  intro p hp
  refine ⟨rfl, rfl, fun i hStart hStop => ?_⟩
  exact congrArg (·.getD default)
    (hCovers.value_eq p hp i hStart hStop)

variable [PartialEquivBEq V]

theorem asked_modifyM
    {σ : Type}
    (hCanonical : m.Canonical)
    (hOrder : start ≤ stop)
    (op : Option V → StateM σ (Option V))
    (s : σ) :
    Asked m start stop op s ((m.modifyM start stop op).run s) where
  state_eq := congrArg Prod.snd (run_modifyM m start stop op s)
  inside := fun _ _ _ hSplit _ hFirst hLast =>
    like_answer hCanonical hOrder hSplit hFirst hLast
  outside := fun _ hOutside => like_unasked hCanonical hOutside

/-
  The pieces of a map that is reached cover the range, and a
  cursor finds them. Visits come to them in order until one
  gives an answer, and a change asks for each of them once.
-/
theorem pieces_of_reached
    (hReached : m.Reached)
    (hOrder : start ≤ stop)
    (default : V)
    {σ β : Type}
    (s : σ) :
    Covers m.get? start stop (m.pieces start stop) ∧
      (m.cursor start stop).Yields (m.pieces start stop) ∧
      List.Forall₂ (Fills m default) (m.pieces start stop)
        (m.filled start stop default) ∧
      (∀ f : σ → Piece V → σ × Option β,
        Visited f s (m.pieces start stop)
          (visitUntil f s (m.pieces start stop))) ∧
      (∀ f : σ → Interval V → σ × Option β,
        Visited f s (m.filled start stop default)
          (visitUntil f s (m.filled start stop default))) ∧
      ∀ op : Option V → StateM σ (Option V),
        Asked m start stop op s
          ((m.modifyM start stop op).run s) := by
  have hCanonical := hReached.canonical
  have hCovers := covers_pieces hCanonical hOrder
  exact ⟨hCovers, yields_pieces hCanonical hOrder,
    fills_filled hCovers default,
    fun f => visited_visitUntil f s _,
    fun f => visited_visitUntil f s _,
    asked_modifyM hCanonical hOrder (s := s)⟩

end Reached

/- A range from inside an interval to behind another one. -/
theorem pieces_of_reached_across :
    Covers (run [Command.set 3 5 7, .set 8 9 7]).get? 4 10
        [⟨4, 5, some 7⟩, ⟨5, 8, none⟩, ⟨8, 9, some 7⟩,
          ⟨9, 10, none⟩] ∧
      (StateT.run
        ((run [Command.set 3 5 7, .set 8 9 7]).modifyM 4 10 fun v =>
          (modifyGet fun n => (v, n + 1) : StateM Nat (Option Nat)))
        0).2 = 4 := by
  have hPieces :=
    pieces_of_reached (reached_run [Command.set 3 5 7, .set 8 9 7])
      (by decide : 4 ≤ 10) 0 (β := Unit) 0
  have hFound :
      (run [Command.set 3 5 7, .set 8 9 7]).pieces 4 10 =
        [⟨4, 5, some 7⟩, ⟨5, 8, none⟩, ⟨8, 9, some 7⟩,
          ⟨9, 10, none⟩] := by decide
  rw [hFound] at hPieces
  refine ⟨hPieces.1, ?_⟩
  rw [(hPieces.2.2.2.2.2 _).state_eq, hFound]
  rfl

end IntervalMap

end Spreadsheet
