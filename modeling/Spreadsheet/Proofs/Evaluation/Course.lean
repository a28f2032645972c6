import Spreadsheet.Proofs.Evaluation.Pauses

/-
  Evaluations that pause and go on when the cells have
  changed.

  What an expression comes to is what an evaluation of it
  comes to on any of the sheets that are seen meanwhile.

  Main declarations:
    * `Site.course`
    * `Site.course_induction`
    * `Site.Comes`
    * `Site.Shows`
-/

namespace Spreadsheet

open Registers

namespace Site

------------------------------------------------------------
-- Walks On Several Sheets
------------------------------------------------------------

/- The frame of an expression that is about to be entered. -/
def opening (e : Expr) : Frame Notes :=
  ⟨e, .entering, 0, .ofExpr e⟩

/-
  The frames and registers that an evaluation comes to on one
  sheet after another, with so many steps on each at most.
-/
def course :
    List (Site × Nat) → List (Frame Notes) → Registers →
      List (Frame Notes) × Registers
  | [], stack, r => (stack, r)
  | (s, n) :: times, stack, r =>
      let (_, stack, r) := Walk.steps s.visitor n stack r
      course times stack r

theorem course_append
    (times later : List (Site × Nat))
    (stack : List (Frame Notes))
    (r : Registers) :
    course (times ++ later) stack r =
      course later (course times stack r).1
        (course times stack r).2 := by
  induction times generalizing stack r with
  | nil => rfl
  | cons u times ih => exact ih _ _

/- What one step comes to. -/
theorem course_step
    (s : Site)
    (f : Frame Notes)
    (rest : List (Frame Notes))
    (r : Registers) :
    course [(s, 1)] (f :: rest) r =
      (Walk.step s.visitor f rest r).2 := by
  rw [course, Walk.steps]
  rcases Walk.step s.visitor f rest r with ⟨- | -, stack, r'⟩
  · cases stack <;> rfl
  · rfl

variable {Held : Site → Prop}

/- What every step keeps, a walk keeps. -/
theorem steps_induction
    {P : List (Frame Notes) → Registers → Prop}
    {u : Site}
    (hStep :
      ∀ {f rest r}, P (f :: rest) r →
        P (Walk.step u.visitor f rest r).2.1
          (Walk.step u.visitor f rest r).2.2)
    (n : Nat)
    {stack : List (Frame Notes)}
    {r : Registers}
    (hStart : P stack r) :
    P (Walk.steps u.visitor n stack r).2.1
      (Walk.steps u.visitor n stack r).2.2 := by
  induction n generalizing stack r with
  | zero => cases stack <;> exact hStart
  | succ n ih =>
      cases stack with
      | nil => exact hStart
      | cons f rest =>
          have hNext := hStep hStart
          rw [Walk.steps]
          generalize Walk.step u.visitor f rest r = res at hNext
          rcases res with ⟨- | -, stack, r'⟩
          · exact ih hNext
          · exact hNext

/- An evaluation keeps it, too, by induction on its pauses. -/
theorem course_induction
    {P : List (Frame Notes) → Registers → Prop}
    (hStep :
      ∀ {u}, Held u → ∀ {f rest r}, P (f :: rest) r →
        P (Walk.step u.visitor f rest r).2.1
          (Walk.step u.visitor f rest r).2.2)
    {times : List (Site × Nat)}
    (hTimes : ∀ u ∈ times, Held u.1)
    {stack : List (Frame Notes)}
    {r : Registers}
    (hStart : P stack r) :
    P (course times stack r).1 (course times stack r).2 := by
  induction times generalizing stack r with
  | nil => exact hStart
  | cons u times ih =>
      exact
        ih (fun t ht => hTimes t (List.mem_cons_of_mem _ ht))
          (steps_induction
            (hStep (hTimes u List.mem_cons_self)) u.2 hStart)

------------------------------------------------------------
-- What An Expression Comes To
------------------------------------------------------------

section

variable (Held : Site → Prop)

/- Evaluating an expression comes to frames and registers. -/
def Comes
    (e : Expr)
    (r : Registers)
    (stack : List (Frame Notes))
    (r' : Registers) : Prop :=
  ∃ times, (∀ u ∈ times, Held u.1) ∧
    course times [opening e] r = (stack, r')

/- An expression was evaluated, whatever was missing then. -/
def Came (e : Expr) (r r' : Registers) : Prop :=
  ∃ c m c' m',
    Comes Held e (r.recount c m) [] (r'.recount c' m')

/- An expression comes to an operand at an offset. -/
def Yields (e : Expr) (offset : Point) (o : Operand) : Prop :=
  ∃ r r', r.suppressed = false ∧ r.offset = offset ∧
    Comes Held e r [] r' ∧ r'.value = o

/- An expression comes to a scalar at an offset. -/
def Shows (e : Expr) (offset : Point) (v : Scalar) : Prop :=
  ∃ r r' u, r.suppressed = false ∧ r.offset = offset ∧
    Comes Held e r [] r' ∧ Held u ∧ (r'.result u).1 = some v

end

/- An evaluation begins at the expression itself. -/
theorem Comes.refl (e : Expr) (r : Registers) :
    Comes Held e r [opening e] r :=
  ⟨[], by simp, rfl⟩

theorem Comes.step
    {e : Expr}
    {r r' : Registers}
    {f : Frame Notes}
    {rest : List (Frame Notes)}
    (hComes : Comes Held e r (f :: rest) r')
    {u : Site}
    (hHeld : Held u) :
    Comes Held e r (Walk.step u.visitor f rest r').2.1
      (Walk.step u.visitor f rest r').2.2 := by
  rcases hComes with ⟨times, hTimes, hCourse⟩
  refine ⟨times ++ [(u, 1)], ?_, ?_⟩
  · intro t ht
    rcases List.mem_append.mp ht with hOld | hNew
    · exact hTimes t hOld
    · rw [List.mem_singleton.mp hNew]
      exact hHeld
  · rw [course_append, hCourse, course_step]

theorem fst_result_recount
    (s : Site)
    (r : Registers)
    (c : Bool)
    (m : Array Handle) :
    ((r.recount c m).result s).1 = (r.result s).1 := by
  unfold result element
  rw [value_recount]
  have hRead :
      ∀ p, ((r.recount c m).read s p).1 = (r.read s p).1 := by
    intro p
    unfold Registers.read
    cases s.read p <;> rfl
  cases r.value with
  | scalar v => rfl
  | array a => rfl
  | cell p => exact hRead p
  | area a =>
      dsimp only
      rw [offset_recount]
      cases a.element r.offset with
      | ok p => exact hRead p
      | error e => rfl

theorem Came.yields
    {e : Expr}
    {r r' : Registers}
    (hCame : Came Held e r r')
    (hNeeded : r.suppressed = false) :
    Yields Held e r.offset r'.value := by
  rcases hCame with ⟨c, m, c', m', hComes⟩
  exact
    ⟨r.recount c m, r'.recount c' m', hNeeded, rfl, hComes, rfl⟩

theorem Came.shows
    {e : Expr}
    {r r' : Registers}
    (hCame : Came Held e r r')
    (hNeeded : r.suppressed = false)
    {u : Site}
    (hHeld : Held u)
    {v : Scalar}
    (hResult : (r'.result u).1 = some v) :
    Shows Held e r.offset v := by
  rcases hCame with ⟨c, m, c', m', hComes⟩
  exact
    ⟨r.recount c m, r'.recount c' m', u, hNeeded, rfl, hComes, hHeld,
      (fst_result_recount u r' c' m').trans hResult⟩

/- Only what is missing has changed since. -/
theorem Came.recount
    {e : Expr}
    {r r' : Registers}
    (hCame : Came Held e r r')
    (c c' : Bool)
    (m m' : Array Handle) :
    Came Held e (r.recount c m) (r'.recount c' m') :=
  hCame

/- A constant shows itself. -/
theorem eq_of_shows_constant
    {Held : Site → Prop}
    {bracketed : Bool}
    {v w : Scalar}
    {offset : Point}
    (hShows : Shows Held (.leaf bracketed (.constant v)) offset w) :
    w = v := by
  rcases hShows with
    ⟨r, r', u, -, -, ⟨times, hTimes, hCourse⟩, -, hResult⟩
  -- it has not been left yet, or it has left itself
  let P : List (Frame Notes) → Registers → Prop := fun stack r =>
    (∃ stage, stage ≠ .afterChild ∧
      stack =
        [⟨.leaf bracketed (.constant v), stage, 0,
          .leaf (.constant v)⟩]) ∨
      stack = [] ∧ r.value = .scalar v
  have hStep :
      ∀ {u : Site} {f rest r}, P (f :: rest) r →
        P (Walk.step u.visitor f rest r).2.1
          (Walk.step u.visitor f rest r).2.2 := by
    rintro u f rest r (⟨stage, hStage, hStack⟩ | ⟨hStack, -⟩)
    · cases hStack
      cases stage with
      | entering => exact Or.inl ⟨.beforeChild, by simp, rfl⟩
      | beforeChild => exact Or.inl ⟨.leaving, by simp, rfl⟩
      | afterChild => exact absurd rfl hStage
      | leaving => exact Or.inr ⟨rfl, rfl⟩
    · cases hStack
  have hRun :
      P (course times [opening (.leaf bracketed (.constant v))] r).1
        (course times [opening (.leaf bracketed (.constant v))]
          r).2 :=
    course_induction (fun _ => hStep) hTimes
      (Or.inl ⟨.entering, by simp, rfl⟩)
  rw [hCourse] at hRun
  rcases hRun with ⟨stage, -, hStack⟩ | ⟨-, hValue⟩
  · cases hStack
  · rw [result, hValue] at hResult
    exact (Option.some.inj hResult).symm

end Site

end Spreadsheet
