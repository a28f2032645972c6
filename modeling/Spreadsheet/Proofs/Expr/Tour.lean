import Spreadsheet.Proofs.Expr.Progress

/-
  The recursive walk through an expression.

  A script of outcomes says how each event of a walk is
  answered. The tour of an expression follows it by recursion
  on the expression.

  Main declarations:
    * `Walk.tour`
    * `Walk.stretch`
    * `Walk.toured`
    * `Walk.delivered`
    * `Walk.calls_scripted`
-/

namespace Spreadsheet

namespace Walk

------------------------------------------------------------
-- The Recursive Walk
------------------------------------------------------------

/-
  The outcome of a script for the event with a number. Events
  beyond the script are gone on from.
-/
def outcomeAt (script : List Outcome) (i : Nat) : Outcome :=
  script[i]?.getD .proceed

/- The operand at which a node starts that is entered so. -/
def firstOperand (e : Expr) : Outcome → Nat
  | .skip n => n
  | .skipAll => e.children.length
  | _ => 0

theorem lt_length_of_outcomeAt
    {script : List Outcome}
    {i : Nat}
    (hOutcome : outcomeAt script i ≠ .proceed) :
    i < script.length := by
  by_contra hNot
  rw [outcomeAt, List.getElem?_eq_none (Nat.le_of_not_lt hNot)]
    at hOutcome
  exact hOutcome rfl

section Decreases

variable {script : List Outcome} {i j a b : Nat}

/- An answer from the script leaves less of it. -/
theorem decreases_of_outcomeAt
    (hLe : i ≤ j)
    (hOutcome : outcomeAt script j ≠ .proceed) :
    Prod.Lex (· < ·) (· < ·) (script.length - (j + 1), a)
      (script.length - i, b) := by
  have hLt := lt_length_of_outcomeAt hOutcome
  exact Prod.Lex.left a b (by omega)

/- Other answers leave less work. -/
theorem decreases_of_lt (hLe : i ≤ j) (hLt : a < b) :
    Prod.Lex (· < ·) (· < ·) (script.length - j, a)
      (script.length - i, b) :=
  Prod.Lex.right' _ (Nat.sub_le_sub_left hLe script.length) hLt

end Decreases

theorem workFrom_firstOperand_lt (e : Expr) (o : Outcome) :
    e.workFrom (firstOperand e o) + 2 < e.stepCount := by
  have hWork := e.workFrom_add_le 0 (firstOperand e o)
  have hCount := e.stepCount_eq
  rw [Nat.zero_add] at hWork
  omega

theorem stepCount_add_lt
    {e c : Expr}
    {k : Nat}
    (hChild : e.children[k]? = some c) :
    c.stepCount + e.workFrom (k + 1) + 1 < e.workFrom k + 2 := by
  have hWork := Expr.workFrom_of_getElem? hChild
  omega

theorem workFrom_add_lt (c e : Expr) (k n : Nat) :
    e.workFrom (k + n) + 2 < c.stepCount + e.workFrom k + 1 := by
  have hWork := e.workFrom_add_le k n
  have hCount := c.stepCount_eq
  omega

mutual

/-
  The events of the walk through an expression, of which the
  first one is the `i`-th event that the script answers. Each
  node has a scratch of its own, which bears the number of
  events that came before it.
-/
def tour
    (script : List Outcome)
    (base : Nat)
    (e : Expr)
    (i : Nat) : List (Frame Nat) :=
  ⟨e, .entering, 0, base + i⟩ ::
    tourFrom script base e (base + i)
      (firstOperand e (outcomeAt script i)) (i + 1) ++
    [⟨e, .leaving, e.children.length, base + i⟩]
termination_by (script.length - i, e.stepCount)
decreasing_by
  exact decreases_of_lt (Nat.le_succ i) (workFrom_firstOperand_lt e _)

/- The events of the operands from the `k`-th on. -/
def tourFrom
    (script : List Outcome)
    (base : Nat)
    (e : Expr)
    (scratch k i : Nat) : List (Frame Nat) :=
  match _hChild : e.children[k]? with
  | none => []
  | some c =>
      ⟨e, .beforeChild, k, scratch⟩ ::
        match hOutcome : outcomeAt script i with
        | .skipAll => []
        | .skip n => tourFrom script base e scratch (k + n) (i + 1)
        | _ => tourOperand script base c e scratch k (i + 1)
termination_by (script.length - i, e.workFrom k + 2)
decreasing_by
  · exact decreases_of_outcomeAt (Nat.le_refl i) (by simp [hOutcome])
  · exact decreases_of_lt (Nat.le_succ i) (stepCount_add_lt _hChild)

/-
  The events of an operand, which is visited until it is not
  to be visited once more, and of those that follow it.
-/
def tourOperand
    (script : List Outcome)
    (base : Nat)
    (c e : Expr)
    (scratch k i : Nat) : List (Frame Nat) :=
  let inner := tour script base c i
  let next := i + inner.length
  inner ++
    ⟨e, .afterChild, k, scratch⟩ ::
      match hOutcome : outcomeAt script next with
      | .repeatChild =>
          tourOperand script base c e scratch k (next + 1)
      | .skipAll => []
      | .skip n =>
          tourFrom script base e scratch (k + 1 + n) (next + 1)
      | _ => tourFrom script base e scratch (k + 1) (next + 1)
termination_by
  (script.length - i, c.stepCount + e.workFrom (k + 1) + 1)
decreasing_by
  · exact decreases_of_lt (Nat.le_refl i)
      (Nat.lt_succ_of_le (Nat.le_add_right _ _))
  · exact decreases_of_outcomeAt (Nat.le_add_right i _)
      (by simp [next, inner, hOutcome])
  · exact decreases_of_lt (Nat.le_add_right_of_le (Nat.le_add_right i _))
      (workFrom_add_lt c e (k + 1) n)
  · exact decreases_of_lt (Nat.le_add_right_of_le (Nat.le_add_right i _))
      (workFrom_add_lt c e (k + 1) 0)

end

/- Events with the answers to them. -/
abbrev Told := List (Frame Nat × Outcome)

/- How many of the events were answered other than by a pause. -/
def answered (told : Told) : Nat :=
  told.countP (!Pauses ·)

/-
  The visitor that answers each event with the outcome of a
  script and keeps what it was told. The scratch of a node is
  how many events had been answered when it was made.
-/
def scripted (script : List Outcome) : Visitor Nat Told where
  fresh _ told := answered told
  respond f told :=
    let o := outcomeAt script told.length
    (o, f.scratch, told ++ [(f, o)])

/- The script without its pauses. -/
def unpaused (script : List Outcome) : List Outcome :=
  script.filter (· ≠ .pause)

/-
  The events of a tour as a script with pauses has them: an
  event comes once more after each pause.
-/
def stretch : List Outcome → List (Frame Nat) → Told
  | _, [] => []
  | [], f :: events => (f, .proceed) :: stretch [] events
  | .pause :: script, f :: events =>
      (f, .pause) :: stretch script (f :: events)
  | o :: script, f :: events => (f, o) :: stretch script events
termination_by script events => script.length + events.length

theorem stretch_pause
    (script : List Outcome)
    (f : Frame Nat)
    (events : List (Frame Nat)) :
    stretch (.pause :: script) (f :: events) =
      (f, .pause) :: stretch script (f :: events) := by
  rw [stretch]

theorem stretch_cons
    {o : Outcome}
    (hNot : o ≠ .pause)
    (script : List Outcome)
    (f : Frame Nat)
    (events : List (Frame Nat)) :
    stretch (o :: script) (f :: events) =
      (f, o) :: stretch script events := by
  rw [stretch]
  exact hNot

/- What a walk is told in the course of the given events. -/
def tell
    (script : List Outcome)
    (told : Told)
    (events : List (Frame Nat)) : Told :=
  told ++ stretch (script.drop told.length) events

variable {script plain : List Outcome} {base i : Nat} {told : Told}

/-
  So many events of a tour were answered: the outcomes that
  are left, without the pauses, are those from there on.
-/
structure Stands
    (script plain : List Outcome)
    (base : Nat)
    (told : Told)
    (i : Nat) : Prop where
  left : unpaused (script.drop told.length) = plain.drop i
  answered : answered told = base + i

theorem unpaused_pause (script : List Outcome) :
    unpaused (.pause :: script) = unpaused script := by
  rw [unpaused, unpaused, List.filter_cons_of_neg (by simp)]

theorem unpaused_cons
    {o : Outcome}
    (hNot : o ≠ .pause)
    (script : List Outcome) :
    unpaused (o :: script) = o :: unpaused script := by
  rw [unpaused, unpaused, List.filter_cons_of_pos (by simpa using hNot)]

theorem answered_append (first last : Told) :
    answered (first ++ last) = answered first + answered last :=
  List.countP_append

/- Of the times that an event comes, one is answered. -/
theorem answered_stretch
    (script : List Outcome)
    (events : List (Frame Nat)) :
    answered (stretch script events) = events.length := by
  induction script, events using stretch.induct with
  | case1 => simp [stretch, answered]
  | case2 f events ih =>
      rw [stretch, answered, List.countP_cons_of_pos (by rfl)]
      exact congrArg (· + 1) ih
  | case3 script f events ih =>
      rw [stretch_pause, answered,
        List.countP_cons_of_neg (by simp [Pauses])]
      exact ih
  | case4 o script f events hNot ih =>
      have hNot : o ≠ .pause := hNot
      rw [stretch_cons hNot, answered,
        List.countP_cons_of_pos (by simpa [Pauses] using hNot)]
      exact congrArg (· + 1) ih

/- Each answer other than a pause uses up one outcome. -/
theorem unpaused_drop_stretch
    (script : List Outcome)
    (events : List (Frame Nat)) :
    unpaused (script.drop (stretch script events).length) =
      (unpaused script).drop events.length := by
  induction script, events using stretch.induct with
  | case1 => simp [stretch]
  | case2 f events ih => simp [unpaused]
  | case3 script f events ih =>
      rw [stretch_pause, unpaused_pause]
      exact ih
  | case4 o script f events hNot ih =>
      have hNot : o ≠ .pause := hNot
      rw [stretch_cons hNot, unpaused_cons hNot]
      exact ih

theorem Stands.after
    (hStands : Stands script plain base told i)
    (events : List (Frame Nat)) :
    Stands script plain base (tell script told events)
      (i + events.length) where
  left := by
    rw [tell, List.length_append, ← List.drop_drop,
      unpaused_drop_stretch, hStands.left, List.drop_drop]
  answered := by
    rw [tell, answered_append, answered_stretch, hStands.answered,
      Nat.add_assoc]

/- A walk comes to certain frames and a certain state. -/
def ComesTo
    {σ ω : Type}
    (v : Visitor σ ω)
    (stack : List (Frame σ))
    (w : ω)
    (stack' : List (Frame σ))
    (w' : ω) : Prop :=
  ∃ n, drive v n stack w = (stack', w')

namespace ComesTo

variable {σ ω : Type} {v : Visitor σ ω}
variable {s s' s'' : List (Frame σ)} {w w' w'' : ω}

theorem trans
    (hFirst : ComesTo v s w s' w')
    (hLast : ComesTo v s' w' s'' w'') :
    ComesTo v s w s'' w'' := by
  obtain ⟨m, hm⟩ := hFirst
  obtain ⟨n, hn⟩ := hLast
  exact ⟨m + n, by rw [drive_add, hm]; exact hn⟩

theorem step
    {f : Frame σ}
    (hLast :
      ComesTo v (Walk.step v f s w).2.1 (Walk.step v f s w).2.2
        s' w') :
    ComesTo v (f :: s) w s' w' := by
  obtain ⟨n, hn⟩ := hLast
  exact ⟨n + 1, hn⟩

end ComesTo

theorem Stands.enter
    (hStands : Stands script plain base told i)
    (e : Expr) :
    Frame.enter (scripted script) e told =
      ⟨e, .entering, 0, base + i⟩ := by
  rw [← hStands.answered]
  rfl

end Walk

end Spreadsheet
