import Spreadsheet.Proofs.Evaluation.Learning

/-
  Where an evaluation stands within an expression.

  The frames of the nodes above an operand know what was
  visited before it. Every step keeps it that way, and so does
  every evaluation, with its pauses.

  Main declarations:
    * `Site.Stands`
    * `Site.Stands.step`
    * `Site.Stands.course`
-/

namespace Spreadsheet

open Registers

namespace Site

------------------------------------------------------------
-- Where An Evaluation Stands
------------------------------------------------------------

/-
  An expression was entered with some registers, and these are
  the frames and registers now.
-/
inductive Stands
    (s : Site)
    (Held : Site → Prop) :
    Expr → Registers → List (Frame Notes) → Registers → Prop where
  | left
      {e : Expr}
      {r r' : Registers}
      (hBrings : s.Brings Held e r r') :
      Stands s Held e r [] r'
  | leaf
      {bracketed : Bool}
      {l : Leaf}
      {stage : Stage}
      {r : Registers}
      (hStage : stage ≠ .afterChild) :
      Stands s Held (.leaf bracketed l) r
        [⟨.leaf bracketed l, stage, 0, .leaf l⟩] r
  | entering
      {bracketed : Bool}
      {op : Operation}
      {args : List Expr}
      {r : Registers} :
      Stands s Held (.apply bracketed op args) r
        [opening (.apply bracketed op args)] r
  | first
      {bracketed : Bool}
      {op : Operation}
      {args : List Expr}
      {r : Registers} :
      Stands s Held (.apply bracketed op args) r
        [⟨.apply bracketed op args, .beforeChild, 0,
          .ofOperation args.length op⟩] r
  | before
      {bracketed : Bool}
      {op : Operation}
      {args : List Expr}
      {i : Nat}
      {n : Notes}
      {r₀ r : Registers}
      (hPos : 0 < i)
      (hIn : i ≤ args.length)
      (hKnows : s.Knows Held bracketed op args r₀ i n r) :
      Stands s Held (.apply bracketed op args) r₀
        [⟨.apply bracketed op args, .beforeChild, i, n⟩] r
  | inside
      {bracketed : Bool}
      {op : Operation}
      {args : List Expr}
      {i : Nat}
      {a : Expr}
      {n : Notes}
      {r₀ r r' : Registers}
      {f : Frame Notes}
      {rest : List (Frame Notes)}
      (hArg : args[i]? = some a)
      (hKnows : s.Knows Held bracketed op args r₀ i n r)
      (hComes : ∃ c m, Comes Held a (r.recount c m) (f :: rest) r')
      (hInner : Stands s Held a r (f :: rest) r') :
      Stands s Held (.apply bracketed op args) r₀
        (f :: (rest ++
          [⟨.apply bracketed op args, .afterChild, i, n⟩])) r'
  | after
      {bracketed : Bool}
      {op : Operation}
      {args : List Expr}
      {i : Nat}
      {a : Expr}
      {n : Notes}
      {r₀ r r' : Registers}
      (hArg : args[i]? = some a)
      (hKnows : s.Knows Held bracketed op args r₀ i n r)
      (hBrings : s.Brings Held a r r')
      (hCame : Came Held a r r') :
      Stands s Held (.apply bracketed op args) r₀
        [⟨.apply bracketed op args, .afterChild, i, n⟩] r'
  | leaving
      {bracketed : Bool}
      {op : Operation}
      {args : List Expr}
      {n : Notes}
      {r₀ r : Registers}
      (hKnows : s.Knows Held bracketed op args r₀ args.length n r) :
      Stands s Held (.apply bracketed op args) r₀
        [⟨.apply bracketed op args, .leaving, args.length, n⟩] r

namespace Stands

variable {s u : Site} {Held : Site → Prop} {bracketed : Bool}
variable {op : Operation} {args : List Expr} {a e : Expr}
variable {i : Nat} {n : Notes} {r₀ r r' : Registers}

theorem enters (s : Site) (Held : Site → Prop) (e : Expr) :
    s.Stands Held e r [opening e] r := by
  cases e with
  | leaf b l => exact .leaf (by simp)
  | apply b op args => exact .entering

/- An operand is about to be visited. -/
theorem visits
    (hArg : args[i]? = some a)
    (hKnows : s.Knows Held bracketed op args r₀ i n r) :
    s.Stands Held (.apply bracketed op args) r₀
      [opening a, ⟨.apply bracketed op args, .afterChild, i, n⟩] r :=
  .inside hArg hKnows ⟨r.circular, r.missing, .refl a r⟩
    (enters s Held a)

/- The registers of an operand that was visited. -/
theorem brings
    (hStands : s.Stands Held e r [] r') :
    s.Brings Held e r r' := by
  cases hStands with
  | left hBrings => exact hBrings

end Stands

------------------------------------------------------------
-- One Step
------------------------------------------------------------

/- A step leads on within an expression, also if it pauses. -/
def Leads
    (s : Site)
    (Held : Site → Prop)
    (e : Expr)
    (r₀ : Registers)
    (res : Walk.Step Notes Registers) : Prop :=
  ∃ c m, s.Stands Held e (r₀.recount c m) res.2.1 res.2.2

theorem Stands.leads
    {s : Site}
    {Held : Site → Prop}
    {e : Expr}
    {r₀ : Registers}
    {res : Walk.Step Notes Registers}
    (hStands : s.Stands Held e r₀ res.2.1 res.2.2) :
    s.Leads Held e r₀ res :=
  ⟨r₀.circular, r₀.missing, hStands⟩

section

variable {s u : Site} {Held : Site → Prop} {bracketed : Bool}
variable {op : Operation} {args : List Expr} {a : Expr}
variable {i : Nat} {n : Notes} {r₀ r r' : Registers}

theorem leads_leaf
    (hAlike : ∀ {u}, Held u → s.Alike u)
    (hHeld : Held u)
    {l : Leaf}
    {stage : Stage}
    (hStage : stage ≠ .afterChild) :
    s.Leads Held (.leaf bracketed l) r
      (Walk.step u.visitor ⟨.leaf bracketed l, stage, 0, .leaf l⟩ []
        r) := by
  refine Stands.leads ?_
  cases stage with
  | entering => exact .leaf (by simp)
  | beforeChild => exact .leaf (by simp)
  | afterChild => exact absurd rfl hStage
  | leaving =>
      refine .left ?_
      change s.Brings Held _ _
        (r.publish (u.operand l).1 (u.operand l).2)
      rw [(hAlike hHeld).operand]
      exact s.brings_leaf Held bracketed l r

theorem leads_first
    (hAlike : ∀ {u}, Held u → s.Alike u)
    (hProper : (Expr.apply bracketed op args).Proper)
    (hHeld : Held u) :
    s.Leads Held (.apply bracketed op args) r
      (Walk.step u.visitor
        ⟨.apply bracketed op args, .beforeChild, 0,
          .ofOperation args.length op⟩ [] r) := by
  refine Stands.leads ?_
  cases hArgs : args with
  | nil =>
      subst hArgs
      exact .leaving (.bare hAlike hProper hHeld rfl)
  | cons a after =>
      have hFirst : args[0]? = some a := by rw [hArgs]; rfl
      rw [← hArgs]
      have hStep :
          Walk.step u.visitor
              ⟨.apply bracketed op args, .beforeChild, 0,
                .ofOperation args.length op⟩ [] r =
            Walk.push u.visitor
              ⟨.apply bracketed op args, .afterChild, 0,
                ((Notes.ofOperation args.length
                  op).beforeOperands r).1⟩
              a []
              ((Notes.ofOperation args.length
                op).beforeOperands r).2 := by
        subst hArgs
        rfl
      rw [hStep]
      exact
        .visits hFirst
          (.first hAlike hProper hHeld (by simp [hArgs]))

theorem leads_before
    (hPos : 0 < i)
    (hIn : i ≤ args.length)
    (hKnows : s.Knows Held bracketed op args r₀ i n r) :
    s.Leads Held (.apply bracketed op args) r₀
      (Walk.step u.visitor
        ⟨.apply bracketed op args, .beforeChild, i, n⟩ [] r) := by
  refine Stands.leads ?_
  rcases Nat.lt_or_ge i args.length with hMore | hNone
  · have hArg := List.getElem?_eq_getElem hMore
    generalize args[i] = a at hArg
    have hNe : i ≠ 0 := by omega
    have hStep :
        Walk.step u.visitor
            ⟨.apply bracketed op args, .beforeChild, i, n⟩ [] r =
          Walk.push u.visitor
            ⟨.apply bracketed op args, .afterChild, i, n⟩ a [] r := by
      rw [Walk.step, if_neg (by
        simp only [Expr.children]
        omega)]
      simp [visitor, hNe, Walk.beforeStep, Expr.children, hArg]
    rw [hStep]
    exact .visits hArg hKnows
  · obtain rfl : i = args.length := by omega
    have hStep :
        Walk.step u.visitor
            ⟨.apply bracketed op args, .beforeChild, args.length, n⟩
            [] r =
          Walk.stay
            ⟨.apply bracketed op args, .leaving, args.length, n⟩ []
            r := by
      simp [Walk.step, Expr.children]
    rw [hStep]
    exact .leaving hKnows

theorem leads_after
    (hAlike : ∀ {u}, Held u → s.Alike u)
    (hProper : (Expr.apply bracketed op args).Proper)
    (hHeld : Held u)
    (hArg : args[i]? = some a)
    (hKnows : s.Knows Held bracketed op args r₀ i n r)
    (hBrings : s.Brings Held a r r')
    (hCame : Came Held a r r') :
    s.Leads Held (.apply bracketed op args) r₀
      (Walk.step u.visitor
        ⟨.apply bracketed op args, .afterChild, i, n⟩ [] r') := by
  have hIn := (List.getElem?_eq_some_iff.mp hArg).1
  have hAnswers :=
    hKnows.after hAlike hProper hHeld hArg hBrings hCame
  have hRests : Response.Rests n r' (n.afterOperand u i r') :=
    n.rests_afterOperand i
  have hStep :
      Walk.step u.visitor
          ⟨.apply bracketed op args, .afterChild, i, n⟩ [] r' =
        Walk.afterStep u.visitor (n.afterOperand u i r').1
          ⟨.apply bracketed op args, .afterChild, i,
            (n.afterOperand u i r').2.1⟩
          [] (n.afterOperand u i r').2.2 := rfl
  rw [hStep]
  generalize n.afterOperand u i r' = res at hAnswers hRests
  cases hAnswers with
  | @pause n' r'' hStops =>
      -- the node stands where it was, but more is missing
      rcases hRests rfl with ⟨hSame, hRecounts⟩
      obtain rfl : n' = n := hSame
      obtain ⟨c, m, rfl⟩ : ∃ c m, r'' = r'.recount c m :=
        ⟨_, _, hRecounts⟩
      exact
        ⟨c, m, .after hArg (hKnows.recount c m) (hBrings.recount c m)
          (hCame.recount c c m m)⟩
  | proceed hNext =>
      exact Stands.leads (.before (Nat.succ_pos i) hIn hNext)
  | skipAll hNext =>
      exact
        Stands.leads
          (.before (Nat.zero_lt_of_lt hIn) (Nat.le_refl _) hNext)
  | repeats hOffset hNext =>
      refine Stands.leads ?_
      change s.Stands Held _ _
        [opening (args[i]?.getD default), _] _
      rw [hArg]
      exact .visits hArg hNext

theorem leads_leaving
    (hAlike : ∀ {u}, Held u → s.Alike u)
    (hProper : (Expr.apply bracketed op args).Proper)
    (hHeld : Held u)
    (hKnows : s.Knows Held bracketed op args r₀ args.length n r) :
    s.Leads Held (.apply bracketed op args) r₀
      (Walk.step u.visitor
        ⟨.apply bracketed op args, .leaving, args.length, n⟩ []
        r) := by
  have hLeaves := hKnows.leave hAlike hProper hHeld
  have hRests : Response.Rests n r (n.leave u r) := n.rests_leave
  have hStep :
      Walk.step u.visitor
          ⟨.apply bracketed op args, .leaving, args.length, n⟩ [] r =
        Walk.leaveStep (n.leave u r).1
          ⟨.apply bracketed op args, .leaving, args.length,
            (n.leave u r).2.1⟩
          [] (n.leave u r).2.2 := rfl
  rw [hStep]
  generalize n.leave u r = res at hLeaves hRests
  cases hLeaves with
  | @pause n' r'' hStops =>
      rcases hRests rfl with ⟨hSame, hRecounts⟩
      obtain rfl : n' = n := hSame
      obtain ⟨c, m, rfl⟩ : ∃ c m, r'' = r.recount c m :=
        ⟨_, _, hRecounts⟩
      exact ⟨c, m, .leaving (hKnows.recount c m)⟩
  | proceed hBrings => exact Stands.leads (.left hBrings)

end

namespace Stands

variable {s u v : Site} {Held : Site → Prop} {e : Expr}
variable {r₀ r : Registers} {f : Frame Notes}
variable {rest stack : List (Frame Notes)}

/- Each step leads on, by induction on the nodes above. -/
theorem step
    (hAlike : ∀ {u}, Held u → s.Alike u)
    (hProper : e.Proper)
    (hHeld : Held u)
    (hStands : s.Stands Held e r₀ (f :: rest) r) :
    s.Leads Held e r₀ (Walk.step u.visitor f rest r) := by
  generalize hStack : f :: rest = stack at hStands
  induction hStands generalizing f rest with
  | left hBrings => cases hStack
  | leaf hStage =>
      cases hStack
      exact leads_leaf hAlike hHeld hStage
  | entering =>
      cases hStack
      exact leads .first
  | first =>
      cases hStack
      exact leads_first hAlike hProper hHeld
  | before hPos hIn hKnows =>
      cases hStack
      exact leads_before hPos hIn hKnows
  | after hArg hKnows hBrings hCame =>
      cases hStack
      exact
        leads_after hAlike hProper hHeld hArg hKnows hBrings hCame
  | leaving hKnows =>
      cases hStack
      exact leads_leaving hAlike hProper hHeld hKnows
  | @inside b op args i a n r₀ r r' f' rest' hArg hKnows hComes
      hInner ih =>
      cases hStack
      rcases ih (hProper.operand hArg) rfl with ⟨c, m, hNext⟩
      rcases hComes with ⟨c', m', hComes⟩
      have hCame := hComes.step hHeld
      rw [Walk.step_append]
      generalize Walk.step u.visitor f' rest' r' = res
        at hNext hCame
      rcases res with ⟨paused, stack, r''⟩
      refine ⟨c, m, ?_⟩
      cases stack with
      | nil =>
          exact
            .after hArg (hKnows.recount c m) hNext.brings
              ⟨c', m', r''.circular, r''.missing, hCame⟩
      | cons f rest =>
          exact
            .inside hArg (hKnows.recount c m) ⟨c', m', hCame⟩ hNext

theorem next
    (hAlike : ∀ {u}, Held u → s.Alike u)
    (hProper : e.Proper)
    (hHeld : Held u)
    (hLeads : ∃ c m, s.Stands Held e (r₀.recount c m) (f :: rest) r) :
    s.Leads Held e r₀ (Walk.step u.visitor f rest r) := by
  rcases hLeads with ⟨c, m, hStands⟩
  rcases hStands.step hAlike hProper hHeld with ⟨c', m', hNext⟩
  exact ⟨c', m', hNext⟩

/- So does every walk, and every evaluation. -/
theorem steps
    (hAlike : ∀ {u}, Held u → s.Alike u)
    (hProper : e.Proper)
    (hHeld : Held u)
    (hStands : s.Stands Held e r₀ stack r)
    (n : Nat) :
    ∃ c m, s.Stands Held e (r₀.recount c m)
      (Walk.steps u.visitor n stack r).2.1
      (Walk.steps u.visitor n stack r).2.2 :=
  steps_induction
    (P := fun stack r =>
      ∃ c m, s.Stands Held e (r₀.recount c m) stack r)
    (next hAlike hProper hHeld) n ⟨r₀.circular, r₀.missing, hStands⟩

theorem course
    (hAlike : ∀ {u}, Held u → s.Alike u)
    (hProper : e.Proper)
    {times : List (Site × Nat)}
    (hTimes : ∀ u ∈ times, Held u.1)
    (hStands : s.Stands Held e r₀ stack r) :
    ∃ c m, s.Stands Held e (r₀.recount c m)
      (Site.course times stack r).1 (Site.course times stack r).2 :=
  course_induction
    (P := fun stack r =>
      ∃ c m, s.Stands Held e (r₀.recount c m) stack r)
    (fun hHeld => next hAlike hProper hHeld) hTimes
    ⟨r₀.circular, r₀.missing, hStands⟩

end Stands

end Site

end Spreadsheet
