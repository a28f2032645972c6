import Spreadsheet.Proofs.Evaluation.Extent
import Spreadsheet.Proofs.Evaluation.Readings
import Spreadsheet.Proofs.Expr.Walk

/-
  How a node of an expression is visited.

  A visit ends with the extent of the node and leaves the
  other registers as they were, or it stops at a cell that
  cannot be read. The operands of a node are visited in turn,
  and one of them at most once for each cell of its extent.

  Main declarations:
    * `Registers.Left`
    * `Site.Visits`
    * `Site.Handles`
    * `Site.Handles.visits`
-/

namespace Spreadsheet

------------------------------------------------------------
-- Rounds
------------------------------------------------------------

namespace Size

/- How often an operand is visited, from an offset on. -/
def rounds (s : Size) (p : Point) : Nat :=
  (s.height - 1 - p.y) * s.width + (s.width - 1 - p.x) + 1

/- No offset is followed by the first one. -/
theorem next?_ne_zero
    {s : Size}
    {p q : Point}
    (hNext : s.next? p = some q) :
    q ≠ Point.zero := by
  rintro rfl
  unfold next? at hNext
  split at hNext
  · cases hNext
  · split at hNext <;> cases hNext

theorem rounds_next?
    {s : Size}
    {p q : Point}
    (hOne : one.Fits s)
    (hNext : s.next? p = some q) :
    s.rounds q < s.rounds p := by
  simp only [Fits, one] at hOne
  unfold next? at hNext
  split at hNext
  · cases hNext
    simp only [rounds]
    omega
  · split at hNext
    · cases hNext
      have hRows :
          s.height - 1 - p.y = s.height - 1 - (p.y + 1) + 1 := by
        omega
      simp only [rounds]
      rw [hRows, Nat.add_one_mul]
      omega
    · cases hNext

theorem rounds_le_area
    {s : Size}
    (hOne : one.Fits s)
    (p : Point) :
    s.rounds p ≤ s.area := by
  simp only [Fits, one] at hOne
  have hRows : s.area = (s.height - 1) * s.width + s.width := by
    rw [area, Nat.mul_comm, ← Nat.add_one_mul]
    congr 1
    omega
  have hLess :
      (s.height - 1 - p.y) * s.width ≤ (s.height - 1) * s.width :=
    Nat.mul_le_mul_right _ (by omega)
  rw [rounds, hRows]
  omega

end Size

------------------------------------------------------------
-- Visits
------------------------------------------------------------

/- Nodes leave a scalar, except those that choose an operand. -/
def Expr.LeavesScalar : Expr → Prop
  | .leaf _ _ => False
  | .apply _ (.choice _) _ => False
  | .apply _ _ _ => True

/-
  An expression was evaluated. Its value stands only for cells
  that it reads.
-/
structure Registers.Left
    (s : Site)
    (e : Expr)
    (r r' : Registers) : Prop where
  suppressed : r'.suppressed = r.suppressed
  circular : r'.circular = r.circular
  offset : r'.offset = r.offset
  missing : r'.missing = r.missing
  extent : r'.extent = s.extent e
  value : r.suppressed = false → r'.value.Within (s.Reads e)
  scalar :
    r.suppressed = false → e.LeavesScalar → ∃ v, r'.value = .scalar v

namespace Site

open Registers

/-
  A visit is done or stops within so many steps. What it means
  to be done relates the registers before and afterwards.
-/
def Visits
    (s : Site)
    (Done : Expr → Registers → Registers → Prop)
    (n : Nat)
    (e : Expr) : Prop :=
  ∀ rest r,
    Walk.Reaches s.visitor n (Frame.enter s.visitor e r :: rest) r
      (fun stack r' => stack = rest ∧ Done e r r')
      (r.Stops s (s.Reads e))

/- How a node goes on after one of its operands was left. -/
inductive Answers
    (s : Site)
    (covers : Point → Prop)
    (args : List Expr)
    (Inv : Nat → Notes → Registers → Prop)
    (r₀ r : Registers)
    (i : Nat)
    (a : Expr) : Response Notes → Prop where
  | pause
      {n : Notes}
      {r' : Registers}
      (hStops : r₀.Stops s covers r') :
      Answers s covers args Inv r₀ r i a (.pause, n, r')
  | proceed
      {n : Notes}
      {r' : Registers}
      (hInv : Inv (i + 1) n r') :
      Answers s covers args Inv r₀ r i a (.proceed, n, r')
  | skipAll
      {n : Notes}
      {r' : Registers}
      (hInv : Inv args.length n r') :
      Answers s covers args Inv r₀ r i a (.skipAll, n, r')
  | repeats
      {n : Notes}
      {r' : Registers}
      (hNext : (s.extent a).next? r.offset = some r'.offset)
      (hInv : Inv i n r') :
      Answers s covers args Inv r₀ r i a (.repeatChild, n, r')

/- How a node is left. -/
inductive Leaves
    (s : Site)
    (Done : Expr → Registers → Registers → Prop)
    (e : Expr)
    (r₀ : Registers) : Response Notes → Prop where
  | pause
      {n : Notes}
      {r : Registers}
      (hStops : r₀.Stops s (s.Reads e) r) :
      Leaves s Done e r₀ (.pause, n, r)
  | proceed
      {n : Notes}
      {r : Registers}
      (hDone : Done e r₀ r) :
      Leaves s Done e r₀ (.proceed, n, r)

/-
  What the notes of a node and the registers have in common
  before an operand is visited, and that they keep it. After
  the last operand the result is known.
-/
structure Handles
    (s : Site)
    (Done : Expr → Registers → Registers → Prop)
    (bracketed : Bool)
    (op : Operation)
    (args : List Expr)
    (r₀ : Registers)
    (Inv : Nat → Notes → Registers → Prop) : Prop where
  bare : args = [] → Inv 0 (.ofOperation args.length op) r₀
  before :
    args ≠ [] →
      Inv 0 ((Notes.ofOperation args.length op).beforeOperands r₀).1
        ((Notes.ofOperation args.length op).beforeOperands r₀).2
  steady :
    ∀ {i n r}, Inv i n r →
      r.circular = r₀.circular ∧ r.missing = r₀.missing
  after :
    ∀ {i a n r r'}, args[i]? = some a → Inv i n r →
      Done a r r' →
      Answers s (s.Reads (.apply bracketed op args)) args Inv r₀ r i
        a (n.afterOperand s i r')
  leave :
    ∀ {n r}, Inv args.length n r →
      Leaves s Done (.apply bracketed op args) r₀ (n.leave s r)

------------------------------------------------------------
-- Operands
------------------------------------------------------------

section

variable {s : Site} {bracketed : Bool} {op : Operation}
variable {args : List Expr} {r₀ : Registers}
variable {Done : Expr → Registers → Registers → Prop}
variable {Inv : Nat → Notes → Registers → Prop}

/- A node that goes on with another operand, or is finished. -/
def Resumes
    (e : Expr)
    (Inv : Nat → Notes → Registers → Prop)
    (rest : List (Frame Notes))
    (i : Nat)
    (stack : List (Frame Notes))
    (r : Registers) : Prop :=
  ∃ j n, (j = i + 1 ∨ j = e.children.length) ∧
    stack = ⟨e, .beforeChild, j, n⟩ :: rest ∧ Inv j n r

/- An operand is visited for as long as it is repeated. -/
theorem Handles.visits_operand
    (hHandles : s.Handles Done bracketed op args r₀ Inv)
    {i : Nat}
    {a : Expr}
    {b : Nat}
    (hArg : args[i]? = some a)
    (hOne : Size.one.Fits (s.extent a))
    (hVisits : s.Visits Done b a)
    (rest : List (Frame Notes))
    {k : Nat}
    {n : Notes}
    {r : Registers}
    (hInv : Inv i n r)
    (hRounds : (s.extent a).rounds r.offset ≤ k) :
    Walk.Reaches s.visitor (k * (b + 1))
      (Frame.enter s.visitor a r ::
        ⟨.apply bracketed op args, .afterChild, i, n⟩ :: rest)
      r (Resumes (.apply bracketed op args) Inv rest i)
      (r₀.Stops s (s.Reads (.apply bracketed op args))) := by
  induction k generalizing n r with
  | zero => simp [Size.rounds] at hRounds
  | succ k ih =>
      rcases hHandles.steady hInv with ⟨hCircular, hMissing⟩
      have hMem := List.mem_of_getElem? hArg
      have hStops' :
          ∀ {w}, r.Stops s (s.Reads a) w →
            r₀.Stops s (s.Reads (.apply bracketed op args)) w :=
        fun hStops =>
          (hStops.imp fun h => h.apply hMem).of_eq hCircular hMissing
      have hChild :=
        (hVisits
            (⟨.apply bracketed op args, .afterChild, i, n⟩ :: rest)
            r).mono (Nat.le_refl b) id hStops'
      have hCount : (k + 1) * (b + 1) = b + (k * (b + 1) + 1) := by
        rw [Nat.add_one_mul]
        omega
      rw [hCount]
      refine hChild.bind _ ?_
      rintro _ r' ⟨rfl, hDone⟩
      have hAnswer := hHandles.after hArg hInv hDone
      have hStep :
          Walk.step s.visitor
              ⟨.apply bracketed op args, .afterChild, i, n⟩ rest r' =
            Walk.afterStep s.visitor (n.afterOperand s i r').1
              ⟨.apply bracketed op args, .afterChild, i,
                (n.afterOperand s i r').2.1⟩
              rest (n.afterOperand s i r').2.2 := rfl
      generalize n.afterOperand s i r' = res at hAnswer hStep
      cases hAnswer with
      | pause hStops => exact Walk.Reaches.pause hStep hStops
      | proceed hNext =>
          exact
            Walk.Reaches.step hStep
              (.here ⟨i + 1, _, Or.inl rfl, rfl, hNext⟩)
      | skipAll hNext =>
          exact
            Walk.Reaches.step hStep
              (.here ⟨args.length, _, Or.inr rfl, rfl, hNext⟩)
      | repeats hOffset hNext =>
          have hFewer := Size.rounds_next? hOne hOffset
          have hAgain := ih hNext (by omega)
          refine Walk.Reaches.step (hStep.trans ?_) hAgain
          rw [Walk.afterStep, Walk.push]
          change
            (false,
              Frame.enter s.visitor (args[i]?.getD default) _ :: _,
              _) = _
          rw [hArg]
          rfl

/- Once all operands were visited, the node is left. -/
theorem Handles.visits_leave
    (hHandles : s.Handles Done bracketed op args r₀ Inv)
    (rest : List (Frame Notes))
    {n : Notes}
    {r : Registers}
    (hInv : Inv args.length n r) :
    Walk.Reaches s.visitor 2
      (⟨.apply bracketed op args, .beforeChild, args.length, n⟩ ::
        rest)
      r
      (fun stack r' =>
        stack = rest ∧ Done (.apply bracketed op args) r₀ r')
      (r₀.Stops s (s.Reads (.apply bracketed op args))) := by
  have hStay :
      Walk.step s.visitor
          ⟨.apply bracketed op args, .beforeChild, args.length, n⟩
          rest r =
        (false,
          ⟨.apply bracketed op args, .leaving, args.length, n⟩ ::
            rest, r) := by
    simp [Walk.step, Walk.stay, Expr.children]
  have hStep :
      Walk.step s.visitor
          ⟨.apply bracketed op args, .leaving, args.length, n⟩ rest
          r =
        Walk.leaveStep (n.leave s r).1
          ⟨.apply bracketed op args, .leaving, args.length,
            (n.leave s r).2.1⟩
          rest (n.leave s r).2.2 := rfl
  refine Walk.Reaches.step hStay ?_
  have hLeave := hHandles.leave hInv
  generalize n.leave s r = res at hLeave hStep
  cases hLeave with
  | pause hStops => exact Walk.Reaches.pause (n := 0) hStep hStops
  | proceed hDone =>
      exact Walk.Reaches.step (n := 0) hStep (.here ⟨rfl, hDone⟩)

/- The steps for the operands from one on. -/
def operandSteps (V : Nat) (args : List Expr) : Nat :=
  (args.map fun a => 1 + V * (a.stepBound V + 1)).foldr (· + ·) 0

/- All operands from one on are visited, and the node is left. -/
theorem Handles.visits_from
    (hHandles : s.Handles Done bracketed op args r₀ Inv)
    {V : Nat}
    (hOne : ∀ a ∈ args, Size.one.Fits (s.extent a))
    (hArea : ∀ a ∈ args, (s.extent a).area ≤ V)
    (hVisits : ∀ a ∈ args, s.Visits Done (a.stepBound V) a)
    (rest : List (Frame Notes))
    (d : Nat)
    {i : Nat}
    {n : Notes}
    {r : Registers}
    (hLeft : args.length - i = d)
    (hIn : i ≤ args.length)
    (hInv :
      0 < i ∧ Inv i n r ∨
        i = 0 ∧ n = .ofOperation args.length op ∧ r = r₀) :
    Walk.Reaches s.visitor (2 + operandSteps V (args.drop i))
      (⟨.apply bracketed op args, .beforeChild, i, n⟩ :: rest) r
      (fun stack r' =>
        stack = rest ∧ Done (.apply bracketed op args) r₀ r')
      (r₀.Stops s (s.Reads (.apply bracketed op args))) := by
  induction d using Nat.strong_induction_on generalizing i n r with
  | h d ih =>
      rcases Nat.lt_or_ge i args.length with hMore | hNone
      · have hArg := List.getElem?_eq_getElem hMore
        generalize args[i] = a at hArg
        have hMem := List.mem_of_getElem? hArg
        -- what is noted before the operand is visited
        obtain ⟨n', r', hBefore, hInv'⟩ :
            ∃ n' r',
              s.visitor.respond
                  ⟨.apply bracketed op args, .beforeChild, i, n⟩ r =
                (.proceed, n', r') ∧ Inv i n' r' := by
          rcases hInv with ⟨hPos, hInv⟩ | ⟨rfl, rfl, rfl⟩
          · refine ⟨n, r, ?_, hInv⟩
            have hNe : i ≠ 0 := by omega
            simp [visitor, hNe]
          · refine ⟨_, _, rfl, hHandles.before ?_⟩
            intro hNil
            rw [hNil] at hMore
            simp at hMore
        have hStep :
            Walk.step s.visitor
                ⟨.apply bracketed op args, .beforeChild, i, n⟩ rest
                r =
              (false,
                Frame.enter s.visitor a r' ::
                  ⟨.apply bracketed op args, .afterChild, i, n'⟩ ::
                    rest, r') := by
          rw [Walk.step, if_neg (by
            simp only [Expr.children]
            omega), hBefore]
          simp [Walk.beforeStep, Walk.push, Expr.children, hArg]
        have hOperand :=
          hHandles.visits_operand hArg (hOne a hMem)
            (hVisits a hMem) rest hInv'
            ((Size.rounds_le_area (hOne a hMem) _).trans
              (hArea a hMem))
        have hSteps :
            operandSteps V (args.drop i) =
              1 + V * (a.stepBound V + 1) +
                operandSteps V (args.drop (i + 1)) := by
          rw [List.drop_eq_getElem_cons hMore, operandSteps,
            List.map_cons, List.foldr_cons]
          have hEq : args[i] = a := by
            rw [List.getElem?_eq_getElem hMore] at hArg
            exact Option.some.inj hArg
          rw [hEq]
          rfl
        refine
          (Walk.Reaches.step hStep
            (hOperand.bind
              (2 + operandSteps V (args.drop (i + 1)))
              ?_)).mono (by omega) id id
        rintro _ r'' ⟨j, n'', hj, rfl, hInv''⟩
        have hLater : i < j ∧ j ≤ args.length := by
          simp only [Expr.children] at hj
          omega
        refine
          (ih (args.length - j) (by omega) rfl hLater.2
            (Or.inl ⟨by omega, hInv''⟩)).mono ?_ id id
        rcases hj with rfl | rfl
        · exact Nat.le_refl _
        · simp [operandSteps, Expr.children]
      · obtain rfl : i = args.length := by omega
        rw [List.drop_length]
        refine hHandles.visits_leave rest ?_
        rcases hInv with ⟨-, hInv⟩ | ⟨hZero, rfl, rfl⟩
        · exact hInv
        · have hNil := List.length_eq_zero_iff.mp hZero
          have hBare := hHandles.bare hNil
          rw [← hZero] at hBare
          exact hBare

/- A node is visited by visiting its operands. -/
theorem visits_apply
    {V : Nat}
    (hHandles :
      ∀ r₀, ∃ Inv, s.Handles Done bracketed op args r₀ Inv)
    (hOne : ∀ a ∈ args, Size.one.Fits (s.extent a))
    (hArea : ∀ a ∈ args, (s.extent a).area ≤ V)
    (hVisits : ∀ a ∈ args, s.Visits Done (a.stepBound V) a) :
    s.Visits Done ((Expr.apply bracketed op args).stepBound V)
      (.apply bracketed op args) := by
  intro rest r
  rcases hHandles r with ⟨Inv, hHandles⟩
  have hEnter :
      Walk.step s.visitor
          (Frame.enter s.visitor (.apply bracketed op args) r) rest
          r =
        (false,
          ⟨.apply bracketed op args, .beforeChild, 0,
            .ofOperation args.length op⟩ :: rest, r) := rfl
  refine
    (Walk.Reaches.step hEnter
      (hHandles.visits_from hOne hArea hVisits rest _ rfl
        (Nat.zero_le _) (Or.inr ⟨rfl, rfl, rfl⟩))).mono ?_ id id
  rw [Expr.stepBound, List.drop_zero, operandSteps]
  omega

/- A leaf is left as soon as it is entered. -/
theorem visits_leaf
    (s : Site)
    (bracketed : Bool)
    (l : Leaf)
    (hDone :
      ∀ r : Registers,
        Done (.leaf bracketed l) r
          (r.publish (s.operand l).1 (s.operand l).2))
    (V : Nat) :
    s.Visits Done ((Expr.leaf bracketed l).stepBound V)
      (.leaf bracketed l) := by
  intro rest r
  have hEnter :
      Walk.step s.visitor
          (Frame.enter s.visitor (.leaf bracketed l) r) rest r =
        (false,
          ⟨.leaf bracketed l, .beforeChild, 0, .leaf l⟩ :: rest,
          r) := rfl
  have hStay :
      Walk.step s.visitor
          ⟨.leaf bracketed l, .beforeChild, 0, .leaf l⟩ rest r =
        (false, ⟨.leaf bracketed l, .leaving, 0, .leaf l⟩ :: rest,
          r) := rfl
  have hLeave :
      Walk.step s.visitor ⟨.leaf bracketed l, .leaving, 0, .leaf l⟩
          rest r =
        (false, rest, r.publish (s.operand l).1 (s.operand l).2) :=
    rfl
  rw [Expr.stepBound]
  refine
    Walk.Reaches.step hEnter
      (Walk.Reaches.step hStay
        (Walk.Reaches.step hLeave (.here ⟨rfl, hDone r⟩)))

end

end Site

end Spreadsheet
