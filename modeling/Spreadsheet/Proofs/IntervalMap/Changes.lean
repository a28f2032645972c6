import Spreadsheet.Proofs.IntervalMap.Dense

/-
  Changes whose operation keeps a state.

  An operation is asked once for each piece of a range, and
  the state goes from one piece to the next. What comes of the
  range are the pieces with the answers.

  Main declarations:
    * `IntervalMap.answered`
    * `IntervalMap.run_modifyM`
    * `IntervalMap.like_answer`
    * `IntervalMap.Reached`
    * `IntervalMap.Reached.canonical`
-/

namespace Spreadsheet

namespace IntervalMap

open Intervals

variable {V σ : Type}
variable {m : IntervalMap V}

------------------------------------------------------------
-- Answers
------------------------------------------------------------

section Answers

variable (op : Option V → StateM σ (Option V))

/- Ask for the value of a piece. -/
def ask (p : Piece V) : StateM σ (Piece V) := do
  let value ← op p.value
  pure ⟨p.start, p.stop, value⟩

/- What the operation answers for a piece in a state. -/
def answer (s : σ) (p : Piece V) : Option V :=
  ((op p.value).run s).1

/- The state after the operation was asked for each piece. -/
def told (s : σ) (ps : List (Piece V)) : σ :=
  ps.foldl (fun s p => ((op p.value).run s).2) s

/- The pieces with the answers, the state handed on. -/
def answered (s : σ) : List (Piece V) → List (Piece V)
  | [] => []
  | p :: rest =>
      ⟨p.start, p.stop, answer op s p⟩ ::
        answered (told op s [p]) rest

theorem run_ask
    (s : σ)
    (p : Piece V) :
    (ask op p).run s =
      pure (⟨p.start, p.stop, answer op s p⟩, told op s [p]) := rfl

theorem run_mapM
    (s : σ)
    (ps : List (Piece V)) :
    (ps.mapM (ask op)).run s =
      pure (answered op s ps, told op s ps) := by
  induction ps generalizing s with
  | nil => rfl
  | cons p rest ih =>
      have hRest := ih (told op s [p])
      simp only [List.mapM_cons, StateT.run_bind, run_ask, hRest,
        StateT.run_pure, pure_bind]
      rfl

theorem answered_append
    (s : σ)
    (seen : List (Piece V))
    (p : Piece V)
    (rest : List (Piece V)) :
    answered op s (seen ++ p :: rest) =
      answered op s seen ++
        ⟨p.start, p.stop, answer op (told op s seen) p⟩ ::
          answered op (told op s (seen ++ [p])) rest := by
  induction seen generalizing s with
  | nil => rfl
  | cons q seen ih =>
      exact congrArg _ (ih (told op s [q]))

theorem tiles_answered
    {start stop : Nat}
    {ps : List (Piece V)}
    (hTiles : Tiles start stop ps)
    (s : σ) :
    Tiles start stop (answered op s ps) := by
  induction ps generalizing start s with
  | nil => exact hTiles
  | cons p rest ih =>
      rcases hTiles with ⟨hStart, hFilled, hRest⟩
      exact ⟨hStart, hFilled, ih hRest (told op s [p])⟩

end Answers

------------------------------------------------------------
-- Changing With A State
------------------------------------------------------------

section ModifyM

variable [BEq V]
variable {start stop : Nat}
variable {op : Option V → StateM σ (Option V)} {s : σ}

/- The operation is asked for each piece once, in order. -/
theorem run_modifyM
    (m : IntervalMap V)
    (start stop : Nat)
    (op : Option V → StateM σ (Option V))
    (s : σ) :
    (m.modifyM start stop op).run s =
      (if start < stop then
        m.replace start stop
          (ofPieces (answered op s (m.pieces start stop)))
      else m,
        told op s (m.pieces start stop)) := by
  have hAsked := run_mapM op s (m.pieces start stop)
  unfold ask at hAsked
  rw [modifyM, StateT.run_bind, hAsked]
  rfl

variable [PartialEquivBEq V]

theorem canonical_modifyM
    (hCanonical : m.Canonical) :
    ((m.modifyM start stop op).run s).1.Canonical := by
  rw [run_modifyM]
  split
  · rename_i hOrder
    exact canonical_replace_ofPieces hCanonical
      (tiles_answered op (m.tiles_pieces (Nat.le_of_lt hOrder)) s)
  · exact hCanonical

/- Each index of a piece gets the answer for that piece. -/
theorem like_answer
    (hCanonical : m.Canonical)
    {seen rest : List (Piece V)}
    {p : Piece V}
    (hOrder : start ≤ stop)
    (hSplit : m.pieces start stop = seen ++ p :: rest)
    {i : Nat}
    (hFirst : p.start ≤ i)
    (hLast : i < p.stop) :
    Like (((m.modifyM start stop op).run s).1.get? i)
      (answer op (told op s seen) p) := by
  have hPieces := m.tiles_pieces hOrder
  have hTiles := tiles_answered op hPieces s
  have hMember : p ∈ m.pieces start stop := by simp [hSplit]
  have hBounds := hPieces.mem_bounds hMember
  have hAnswered :
      ⟨p.start, p.stop, answer op (told op s seen) p⟩ ∈
        answered op s (m.pieces start stop) := by
    rw [hSplit, answered_append]
    exact List.mem_append_right _ List.mem_cons_self
  have hValue :=
    valueAt_ofPieces_of_mem hTiles hAnswered hFirst hLast
  have hReplaced := get?_replace_ofPieces hCanonical hTiles i
  rw [if_pos (by omega), hValue] at hReplaced
  rwa [run_modifyM, if_pos (by omega)]

/- The other indices keep their values. -/
theorem like_unasked
    (hCanonical : m.Canonical)
    {i : Nat}
    (hOutside : i < start ∨ stop ≤ i) :
    Like (((m.modifyM start stop op).run s).1.get? i)
      (m.get? i) := by
  rw [run_modifyM]
  split
  · rename_i hOrder
    have hTiles := tiles_answered op
      (m.tiles_pieces (Nat.le_of_lt hOrder)) s
    have hReplaced := get?_replace_ofPieces hCanonical hTiles i
    rwa [if_neg (by omega)] at hReplaced
  · exact .refl _

end ModifyM

------------------------------------------------------------
-- Maps That Are Reached
------------------------------------------------------------

/-
  What calls make of the empty map, whatever an operation
  keeps in mind from one piece to the next.
-/
inductive Reached [BEq V] : IntervalMap V → Prop where
  | empty : Reached empty
  | call
      {m : IntervalMap V}
      (hReached : Reached m)
      (call : Command V) :
      Reached (call.apply m)
  | modifyM
      {σ : Type}
      {m : IntervalMap V}
      (hReached : Reached m)
      (start stop : Nat)
      (op : Option V → StateM σ (Option V))
      (s : σ) :
      Reached ((m.modifyM start stop op).run s).1

theorem Reached.canonical
    [BEq V]
    [PartialEquivBEq V]
    (hReached : m.Reached) :
    m.Canonical := by
  induction hReached with
  | empty => exact canonical_empty
  | call _ call ih => exact call.canonical_apply ih
  | modifyM _ _ _ _ _ ih => exact canonical_modifyM ih

theorem Reached.foldl
    [BEq V]
    (hReached : m.Reached)
    (calls : List (Command V)) :
    (calls.foldl Command.apply m).Reached := by
  induction calls generalizing m with
  | nil => exact hReached
  | cons call rest ih => exact ih (hReached.call call)

theorem reached_run
    [BEq V]
    (calls : List (Command V)) :
    (run calls).Reached :=
  Reached.empty.foldl calls

end IntervalMap

end Spreadsheet
