import Spreadsheet.Expr.Walk

/-
  Walks that follow a script and record their events.

  The visitor answers the events of a walk with the outcomes
  of the script, one after another, and with `proceed` once
  the script has been used up.

  Key definitions include:
    * `WalkRecord`
    * `Recording`
    * `Recording.act`
    * `Recording.ofActions`
-/

namespace Spreadsheet

/- What is recorded of a walk. -/
inductive WalkRecord where
  | event (frame : Frame Nat)
  | run (status : WalkStatus)
  | finish (status : WalkStatus)

/- What can be done with a walk. -/
inductive WalkAction where
  | run
  | reset
  | finish
deriving DecidableEq, Repr

/- The outcomes to come, and the records so far. -/
structure Recording where
  script : List Outcome
  records : Array WalkRecord

namespace Recording

/- Nothing has happened yet. -/
def start (script : List Outcome) : Recording :=
  ⟨script, #[]⟩

/- Append a record. -/
def push (r : Recording) (record : WalkRecord) : Recording :=
  { r with records := r.records.push record }

/-
  Record each event and follow the script. A frame notes how
  many records there were when it was made.
-/
def visitor : Visitor Nat Recording where
  fresh _ r := r.records.size
  respond f r :=
    let r := r.push (.event f)
    match r.script with
    | [] => (.proceed, f.scratch, r)
    | o :: script => (o, f.scratch, { r with script := script })

/- Visit everything and record nothing. -/
def silent : Visitor Nat Recording where
  fresh _ _ := 0
  respond f r := (.proceed, f.scratch, r)

/-
  The steps that a walk needs at most: each outcome of the
  script can repeat the whole expression once.
-/
def fuel (e : Expr) (r : Recording) : Nat :=
  (r.script.length + 1) * (e.stepCount + 2)

/- Do one thing with a walk. -/
def act
    (e : Expr)
    (s : Walk Nat × Recording)
    (action : WalkAction) : Walk Nat × Recording :=
  let (walk, r) := s
  match action with
  | .reset => (none, r)
  | .run =>
      let (status, walk, r) := walk.run visitor e (fuel e r) r
      (walk, r.push (.run status))
  | .finish =>
      let (status, walk, r) := walk.run silent e (fuel e r) r
      (walk, r.push (.finish status))

/- The records of a walk with which several things are done. -/
def ofActions
    (e : Expr)
    (script : List Outcome)
    (actions : List WalkAction) : List WalkRecord :=
  (actions.foldl (act e) (none, start script)).2.records.toList

end Recording

end Spreadsheet
