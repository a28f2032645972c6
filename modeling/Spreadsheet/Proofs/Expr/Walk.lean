import Spreadsheet.Expr.Walk

/-
  How far a walk comes within so many steps.

  Main declarations:
    * `Frame.Spent`
    * `Walk.Reaches`
    * `Walk.Reaches.bind`
    * `Walk.steps_of_reaches`
    * `Walk.step_append`
    * `Walk.steps_add`
    * `Walk.steps_follow`
-/

namespace Spreadsheet

/-
  All operands of the node were visited or left out, so that
  nothing is asked before it is left.
-/
def Frame.Spent {σ : Type} (f : Frame σ) : Prop :=
  f.stage = .beforeChild ∧ f.expr.children.length ≤ f.child

instance {σ : Type} (f : Frame σ) : Decidable f.Spent :=
  inferInstanceAs (Decidable (_ ∧ _))

namespace Walk

variable {σ ω : Type} {v : Visitor σ ω}

/-
  Within `n` steps, a walk comes to frames and a state of one
  kind, or pauses in a state of another kind.
-/
def Reaches
    (v : Visitor σ ω)
    (n : Nat)
    (stack : List (Frame σ))
    (w : ω)
    (Goal : List (Frame σ) → ω → Prop)
    (Paused : ω → Prop) : Prop :=
  ∃ m ≤ n,
    (∃ stack' w', Goal stack' w' ∧
      ∀ k, steps v (m + k) stack w = steps v k stack' w') ∨
    (∃ stack' w', Paused w' ∧
      ∀ k, steps v (m + k) stack w = (.paused, stack', w'))

namespace Reaches

variable {n : Nat} {stack : List (Frame σ)} {w : ω}
variable {Goal Goal' : List (Frame σ) → ω → Prop}
variable {Paused Paused' : ω → Prop}

/- The walk is there. -/
theorem here (hGoal : Goal stack w) :
    Reaches v n stack w Goal Paused :=
  ⟨0, Nat.zero_le n, Or.inl ⟨stack, w, hGoal, fun k => by
    rw [Nat.zero_add]⟩⟩

theorem mono
    {n' : Nat}
    (hReaches : Reaches v n stack w Goal Paused)
    (hLe : n ≤ n')
    (hGoal : ∀ {stack w}, Goal stack w → Goal' stack w)
    (hPaused : ∀ {w}, Paused w → Paused' w) :
    Reaches v n' stack w Goal' Paused' := by
  rcases hReaches with
    ⟨m, hm, ⟨stack', w', hEnd, hRun⟩ | ⟨stack', w', hEnd, hRun⟩⟩
  · exact
      ⟨m, Nat.le_trans hm hLe, Or.inl ⟨stack', w', hGoal hEnd, hRun⟩⟩
  · exact
      ⟨m, Nat.le_trans hm hLe, Or.inr ⟨stack', w', hPaused hEnd, hRun⟩⟩

/- A walk goes on from where it has come to. -/
theorem bind
    (n' : Nat)
    (hFirst : Reaches v n stack w Goal Paused)
    (hNext :
      ∀ {stack w}, Goal stack w →
        Reaches v n' stack w Goal' Paused) :
    Reaches v (n + n') stack w Goal' Paused := by
  rcases hFirst with
    ⟨m, hm, ⟨stack', w', hEnd, hRun⟩ | ⟨stack', w', hEnd, hRun⟩⟩
  · rcases hNext hEnd with
      ⟨m', hm', ⟨stack'', w'', hEnd', hRun'⟩ |
        ⟨stack'', w'', hEnd', hRun'⟩⟩
    · refine ⟨m + m', by omega, Or.inl ⟨stack'', w'', hEnd', ?_⟩⟩
      intro k
      rw [Nat.add_assoc, hRun, hRun']
    · refine ⟨m + m', by omega, Or.inr ⟨stack'', w'', hEnd', ?_⟩⟩
      intro k
      rw [Nat.add_assoc, hRun, hRun']
  · exact ⟨m, by omega, Or.inr ⟨stack', w', hEnd, hRun⟩⟩

/- The first step of a walk. -/
theorem step
    {f : Frame σ}
    {rest stack' : List (Frame σ)}
    {w' : ω}
    (hStep : Walk.step v f rest w = (false, stack', w'))
    (hNext : Reaches v n stack' w' Goal Paused) :
    Reaches v (n + 1) (f :: rest) w Goal Paused := by
  have hRun :
      ∀ k, steps v (k + 1) (f :: rest) w = steps v k stack' w' := by
    intro k
    rw [steps, hStep]
  rcases hNext with
    ⟨m, hm, ⟨s, u, hEnd, hRest⟩ | ⟨s, u, hEnd, hRest⟩⟩
  · refine ⟨m + 1, by omega, Or.inl ⟨s, u, hEnd, fun k => ?_⟩⟩
    rw [Nat.add_right_comm, hRun, hRest]
  · refine ⟨m + 1, by omega, Or.inr ⟨s, u, hEnd, fun k => ?_⟩⟩
    rw [Nat.add_right_comm, hRun, hRest]

/- The walk pauses at once. -/
theorem pause
    {f : Frame σ}
    {rest stack' : List (Frame σ)}
    {w' : ω}
    (hStep : Walk.step v f rest w = (true, stack', w'))
    (hPaused : Paused w') :
    Reaches v (n + 1) (f :: rest) w Goal Paused := by
  refine ⟨1, by omega, Or.inr ⟨stack', w', hPaused, fun k => ?_⟩⟩
  rw [Nat.add_comm, steps, hStep]

end Reaches

theorem steps_nil (v : Visitor σ ω) (n : Nat) (w : ω) :
    steps v n [] w = (.done, [], w) := by
  cases n <;> rfl

/- A walk that comes to its end, or pauses, is not cut short. -/
theorem steps_of_reaches
    {n : Nat}
    {stack : List (Frame σ)}
    {w : ω}
    {Done Paused : ω → Prop}
    (hReaches :
      Reaches v n stack w (fun stack w => stack = [] ∧ Done w)
        Paused) :
    (∃ w', Done w' ∧ steps v n stack w = (.done, [], w')) ∨
      ∃ stack' w', Paused w' ∧
        steps v n stack w = (.paused, stack', w') := by
  rcases hReaches with
    ⟨m, hm, ⟨stack', w', ⟨hNil, hDone⟩, hRun⟩ |
      ⟨stack', w', hPaused, hRun⟩⟩
  · have hAll := hRun (n - m)
    rw [Nat.add_sub_cancel' hm, hNil, steps_nil] at hAll
    exact Or.inl ⟨w', hDone, hAll⟩
  · have hAll := hRun (n - m)
    rw [Nat.add_sub_cancel' hm] at hAll
    exact Or.inr ⟨stack', w', hPaused, hAll⟩

------------------------------------------------------------
-- Steps Of Visitors And Parts
------------------------------------------------------------

variable {v' : Visitor σ ω}

theorem step_of_spent
    {f : Frame σ}
    (hSpent : f.Spent)
    (rest : List (Frame σ))
    (w : ω) :
    step v f rest w =
      (false, { f with stage := .leaving } :: rest, w) :=
  if_pos hSpent

/- Visitors that respond alike take the same step. -/
theorem step_congr
    (hFresh : v'.fresh = v.fresh)
    {f : Frame σ}
    {w : ω}
    (hRespond : v'.respond f w = v.respond f w)
    (rest : List (Frame σ)) :
    step v' f rest w = step v f rest w := by
  have hEnter : ∀ e w, Frame.enter v' e w = Frame.enter v e w := by
    intro e w
    rw [Frame.enter, Frame.enter, hFresh]
  unfold step
  rw [hRespond]
  generalize v.respond f w = res
  rcases res with ⟨o, scratch, w'⟩
  cases f.stage with
  | entering => rfl
  | leaving => rfl
  | beforeChild => cases o <;> simp [beforeStep, push, hEnter]
  | afterChild => cases o <;> simp [afterStep, push, hEnter]

/- The frames below are left alone. -/
theorem step_append
    (f : Frame σ)
    (rest base : List (Frame σ))
    (w : ω) :
    step v f (rest ++ base) w =
      ((step v f rest w).1, (step v f rest w).2.1 ++ base,
        (step v f rest w).2.2) := by
  unfold step
  split
  · rfl
  · generalize v.respond f w = res
    rcases res with ⟨o, scratch, w'⟩
    cases f.stage <;> cases o <;> rfl

/- A walk that has ended or pauses does no more. -/
theorem steps_add
    {n : Nat}
    {stack : List (Frame σ)}
    {w : ω}
    (hFinished : (steps v n stack w).1 ≠ .unfinished)
    (k : Nat) :
    steps v (n + k) stack w = steps v n stack w := by
  induction n generalizing stack w with
  | zero =>
      cases stack with
      | nil => rw [steps_nil, steps_nil]
      | cons f rest => exact absurd rfl hFinished
  | succ n ih =>
      cases stack with
      | nil => rw [steps_nil, steps_nil]
      | cons f rest =>
          rw [Nat.add_right_comm, steps, steps]
          rw [steps] at hFinished
          generalize step v f rest w = res at hFinished
          rcases res with ⟨- | -, stack', w'⟩
          · exact ih hFinished
          · rfl

/- The part of a walk that comes to its end goes on below. -/
theorem exists_steps_append
    {n : Nat}
    {stack : List (Frame σ)}
    {w w' : ω}
    (hDone : steps v n stack w = (.done, [], w')) :
    ∃ m, ∀ base k, steps v (m + k) (stack ++ base) w =
      steps v k base w' := by
  induction n generalizing stack w with
  | zero =>
      cases stack with
      | nil =>
          cases hDone
          exact ⟨0, fun base k => by rw [Nat.zero_add, List.nil_append]⟩
      | cons f rest => cases hDone
  | succ n ih =>
      cases stack with
      | nil =>
          cases hDone
          exact ⟨0, fun base k => by rw [Nat.zero_add, List.nil_append]⟩
      | cons f rest =>
          rw [steps] at hDone
          cases hStep : step v f rest w with
          | mk paused res =>
              rcases res with ⟨stack', u⟩
              rw [hStep] at hDone
              cases paused with
              | true => cases hDone
              | false =>
                  rcases ih hDone with ⟨m, hm⟩
                  refine ⟨m + 1, fun base k => ?_⟩
                  rw [Nat.add_right_comm, List.cons_append, steps,
                    step_append, hStep]
                  exact hm base k

------------------------------------------------------------
-- Walks That Do Not Pause
------------------------------------------------------------

/- Whatever does not make a visitor pause, another one does. -/
structure Follows (v v' : Visitor σ ω) : Prop where
  fresh : v'.fresh = v.fresh
  respond :
    ∀ f w, (v.respond f w).1 ≠ .pause →
      v'.respond f w = v.respond f w

theorem Follows.enter
    (hFollows : Follows v v')
    (e : Expr)
    (w : ω) :
    Frame.enter v' e w = Frame.enter v e w := by
  rw [Frame.enter, Frame.enter, hFollows.fresh]

theorem Follows.step
    (hFollows : Follows v v')
    {f : Frame σ}
    {rest : List (Frame σ)}
    {w : ω}
    (hNot : (Walk.step v f rest w).1 = false) :
    Walk.step v' f rest w = Walk.step v f rest w := by
  by_cases hGuard :
      f.stage = .beforeChild ∧ f.expr.children.length ≤ f.child
  · rw [Walk.step, Walk.step, if_pos hGuard, if_pos hGuard]
  · refine step_congr hFollows.fresh (hFollows.respond f w ?_) rest
    intro hPause
    rw [Walk.step, if_neg hGuard] at hNot
    generalize v.respond f w = res at hNot hPause
    rcases res with ⟨o, scratch, w'⟩
    obtain rfl : o = .pause := hPause
    cases hStage : f.stage <;>
      simp [hStage, enterStep, beforeStep, afterStep, leaveStep]
        at hNot

/- Two walks are the same until one of them pauses. -/
theorem steps_follow
    (hFollows : Follows v v')
    {n : Nat}
    {stack : List (Frame σ)}
    {w : ω}
    (hNot : (steps v n stack w).1 ≠ .paused) :
    steps v' n stack w = steps v n stack w := by
  induction n generalizing stack w with
  | zero => cases stack <;> rfl
  | succ n ih =>
      cases stack with
      | nil => rfl
      | cons f rest =>
          rw [steps] at hNot ⊢
          rw [steps]
          cases hStep : Walk.step v f rest w with
          | mk paused res =>
              rw [hStep] at hNot
              cases paused with
              | true => exact absurd rfl hNot
              | false =>
                  rw [hFollows.step (by rw [hStep]), hStep]
                  exact ih hNot

end Walk

end Spreadsheet
