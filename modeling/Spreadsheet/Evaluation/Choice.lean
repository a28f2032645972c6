import Spreadsheet.Evaluation.Broadcast

/-
  Functions that evaluate only some of their arguments.

  The first argument selects at most one of the others. All
  arguments are visited, since each adds to the extent of the
  result, but those that were not selected are suppressed.

  Key definitions include:
    * `Choice.select`
    * `ChoiceNotes`
-/

namespace Spreadsheet

------------------------------------------------------------
-- Selection
------------------------------------------------------------

/-
  The argument that was selected, or the result if there is
  none.
-/
inductive Selection where
  | argument (i : Nat)
  | result (v : Scalar)

namespace Choice

/- The result of `IF` without a third argument. -/
def ifSelection (count : Nat) (condition : Bool) : Selection :=
  let i := if condition then 1 else 2
  if i < count then .argument i else .result (.bool false)

/- The argument of `CHOOSE` with a given number. -/
def chooseSelection (count : Nat) (x : Float) : Selection :=
  if 1 ≤ x && x < .ofNat count then .argument x.toUInt64.toNat
  else .result (.error .wrongValue)

/- What the first of `count` arguments selects. -/
def select (f : Choice) (count : Nat) (v : Scalar) : Selection :=
  match f with
  | .ifElse =>
      match v.toBool with
      | .ok condition => ifSelection count condition
      | .error e => .result (.error e)
  | .choose =>
      match v.toNumber with
      | .ok x => chooseSelection count x
      | .error e => .result (.error e)
  | .ifError => if v.isError then .argument 1 else .result v

end Choice

/- An argument was selected. -/
def Selection.isArgument (i : Nat) : Selection → Bool
  | .argument j => i == j
  | .result _ => false

------------------------------------------------------------
-- Notes
------------------------------------------------------------

/-
  Whether evaluation was suppressed outside, what was
  selected, the result, and its extent.
-/
structure ChoiceNotes where
  outside : Bool
  selection : Selection
  value : Operand
  extent : Size

namespace ChoiceNotes

/- No argument was visited. -/
def start : ChoiceNotes :=
  ⟨false, .result .blank, .blank, Size.zero⟩

/- Note whether evaluation is suppressed outside. -/
def beforeOperands
    (n : ChoiceNotes)
    (r : Registers) : ChoiceNotes :=
  { n with outside := r.suppressed }

/- Suppress the argument at an index unless it was selected. -/
def suppressFor
    (n : ChoiceNotes)
    (i : Nat)
    (r : Registers) : Registers :=
  { r with suppressed := !n.selection.isArgument i }

/- Note what the first argument selects. -/
def noteSelection
    (selection : Selection)
    (n : ChoiceNotes) : ChoiceNotes :=
  match selection with
  | .argument _ => { n with selection := selection }
  | .result v =>
      { n with selection := selection, value := .scalar v }

/- The first argument was visited. -/
def afterSelector
    (f : Choice)
    (count : Nat)
    (s : Site)
    (n : ChoiceNotes)
    (r : Registers) : Response ChoiceNotes :=
  match r.reduce s with
  | (.waiting, r) => (.pause, n, r)
  | (.unneeded, r) => (.proceed, { n with extent := r.extent }, r)
  | (.scalar v, r) =>
      let n := n.noteSelection (f.select count v)
      (.proceed, { n with extent := r.extent }, n.suppressFor 1 r)

/- Another argument was visited. -/
def afterAlternative
    (i : Nat)
    (n : ChoiceNotes)
    (r : Registers) : Response ChoiceNotes :=
  let covered := { n with extent := n.extent.sup r.extent }
  if n.outside then
    (.proceed, covered, r)
  else
    let value :=
      if n.selection.isArgument i then r.value else n.value
    (.proceed, { covered with value := value },
      n.suppressFor (i + 1) r)

/- An argument was visited. -/
def afterOperand
    (f : Choice)
    (count : Nat)
    (s : Site)
    (i : Nat)
    (n : ChoiceNotes)
    (r : Registers) : Response ChoiceNotes :=
  if i = 0 then n.afterSelector f count s r
  else n.afterAlternative i r

/- Leave what was selected. -/
def leave (n : ChoiceNotes) (r : Registers) : Registers :=
  let r := { r with suppressed := n.outside, extent := n.extent }
  if n.outside then r
  else { r with value := n.value.narrow n.extent r.offset }

end ChoiceNotes

end Spreadsheet
