import Spreadsheet.Expr.Basic

/-
  Walking through an expression step by step.

  A walk keeps one frame for each node on the path to where
  it stands. A visitor is asked at every event of a node what
  to do next, and may pause the walk; a paused walk keeps its
  frames and goes on with the same event.

  Key definitions include:
    * `Stage`
    * `Frame`
    * `Outcome`
    * `Visitor`
    * `Walk`
    * `Walk.step`
    * `Walk.run`
-/

namespace Spreadsheet

------------------------------------------------------------
-- Frames
------------------------------------------------------------

/- The event of a node that comes next. -/
inductive Stage where
  | entering
  | beforeChild
  | afterChild
  | leaving
deriving DecidableEq, Repr, Inhabited

/- What a visitor asks for. -/
inductive Outcome where
  /- Go on to the next event. -/
  | proceed
  /- Go on, but leave the next `n` operands out. -/
  | skip (n : Nat)
  /- Go on, but leave all further operands out. -/
  | skipAll
  /- Visit the operand that was just left once more. -/
  | repeatChild
  /- Stop, and ask again when the walk goes on. -/
  | pause
deriving DecidableEq, Repr, Inhabited

/-
  Where a walk stands at a node: the event, the operand that
  it concerns, and what the visitor noted for the node.
-/
structure Frame (σ : Type) where
  expr : Expr
  stage : Stage
  child : Nat
  scratch : σ

/-
  A visitor with notes of type `σ` for each node and a state
  of type `ω` throughout the walk.
-/
structure Visitor (σ ω : Type) where
  fresh : Expr → ω → σ
  respond : Frame σ → ω → Outcome × σ × ω

/- The frame of a node that is about to be entered. -/
def Frame.enter
    {σ ω : Type}
    (v : Visitor σ ω)
    (e : Expr)
    (w : ω) : Frame σ :=
  ⟨e, .entering, 0, v.fresh e w⟩

------------------------------------------------------------
-- Steps
------------------------------------------------------------

/- How far a walk has come. -/
inductive WalkStatus where
  | done
  | paused
  | unfinished
deriving DecidableEq, Repr, Inhabited

/- A walk that has not started, or its frames from the top. -/
abbrev Walk (σ : Type) := Option (List (Frame σ))

namespace Walk

variable {σ ω : Type}

/- A pause, or the frames to go on with. -/
abbrev Step (σ ω : Type) := Bool × List (Frame σ) × ω

/- Go on to an operand of a node. -/
def push
    (v : Visitor σ ω)
    (f : Frame σ)
    (child : Expr)
    (rest : List (Frame σ))
    (w : ω) : Step σ ω :=
  (false, Frame.enter v child w :: f :: rest, w)

/- Stay at a node, with another event or operand. -/
def stay
    (f : Frame σ)
    (rest : List (Frame σ))
    (w : ω) : Step σ ω :=
  (false, f :: rest, w)

/- The step at a node that is entered. -/
def enterStep
    (o : Outcome)
    (f : Frame σ)
    (rest : List (Frame σ))
    (w : ω) : Step σ ω :=
  let count := f.expr.children.length
  match o with
  | .pause => (true, f :: rest, w)
  | .skip n =>
      stay { f with child := min n count, stage := .beforeChild }
        rest w
  | .skipAll =>
      stay { f with child := count, stage := .beforeChild } rest w
  | .proceed | .repeatChild =>
      stay { f with stage := .beforeChild } rest w

/- The step before an operand is visited. -/
def beforeStep
    (v : Visitor σ ω)
    (child : Expr)
    (o : Outcome)
    (f : Frame σ)
    (rest : List (Frame σ))
    (w : ω) : Step σ ω :=
  let count := f.expr.children.length
  match o with
  | .pause => (true, f :: rest, w)
  | .skip n =>
      stay { f with child := min (f.child + n) count } rest w
  | .skipAll =>
      stay { f with child := count, stage := .leaving } rest w
  | .proceed | .repeatChild =>
      push v { f with stage := .afterChild } child rest w

/- The step after an operand was visited. -/
def afterStep
    (v : Visitor σ ω)
    (o : Outcome)
    (f : Frame σ)
    (rest : List (Frame σ))
    (w : ω) : Step σ ω :=
  let count := f.expr.children.length
  match o with
  | .pause => (true, f :: rest, w)
  | .repeatChild =>
      push v f (f.expr.children[f.child]?.getD default) rest w
  | .proceed =>
      stay { f with child := f.child + 1, stage := .beforeChild }
        rest w
  | .skip n =>
      stay
        { f with
          child := min (f.child + 1 + n) count
          stage := .beforeChild }
        rest w
  | .skipAll =>
      stay { f with child := count, stage := .beforeChild } rest w

/- The step of a node that is left. -/
def leaveStep
    (o : Outcome)
    (f : Frame σ)
    (rest : List (Frame σ))
    (w : ω) : Step σ ω :=
  match o with
  | .pause => (true, f :: rest, w)
  | _ => (false, rest, w)

/-
  One step at the topmost frame. There is no event once all
  operands of a node were visited or left out.
-/
def step
    (v : Visitor σ ω)
    (f : Frame σ)
    (rest : List (Frame σ))
    (w : ω) : Step σ ω :=
  if f.stage = .beforeChild ∧
      f.expr.children.length ≤ f.child then
    stay { f with stage := .leaving } rest w
  else
    let (o, scratch, w) := v.respond f w
    let f := { f with scratch := scratch }
    match f.stage with
    | .entering => enterStep o f rest w
    | .beforeChild =>
        beforeStep v (f.expr.children[f.child]?.getD default) o f
          rest w
    | .afterChild => afterStep v o f rest w
    | .leaving => leaveStep o f rest w

/- Take at most so many steps. -/
def steps
    (v : Visitor σ ω) :
    Nat → List (Frame σ) → ω →
      WalkStatus × List (Frame σ) × ω
  | _, [], w => (.done, [], w)
  | 0, stack, w => (.unfinished, stack, w)
  | fuel + 1, f :: rest, w =>
      match step v f rest w with
      | (true, stack, w) => (.paused, stack, w)
      | (false, stack, w) => steps v fuel stack w

/-
  Start a walk at the root of an expression, or go on with
  one, for at most so many steps.
-/
def run
    (v : Visitor σ ω)
    (root : Expr)
    (fuel : Nat)
    (walk : Walk σ)
    (w : ω) : WalkStatus × Walk σ × ω :=
  let stack := walk.getD [Frame.enter v root w]
  let (status, stack, w) := steps v fuel stack w
  (status, some stack, w)

end Walk

/-
  The number of steps that visit every node of an expression
  once.
-/
def Expr.stepCount (e : Expr) : Nat :=
  5 * e.size

end Spreadsheet
