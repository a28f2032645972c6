import Spreadsheet.Operation
import Spreadsheet.Scalar

/-
  Folding scalars into the result of an aggregate.

  What stands in a formula itself is converted to the type
  that the aggregate works on. What comes from cells and
  arrays counts only if it has this type. The first error
  ends a fold.

  Key definitions include:
    * `Fold`
    * `Fold.addDirect`
    * `Fold.addIndirect`
    * `Fold.result`
-/

namespace Spreadsheet

/- What an aggregate has gathered so far. -/
structure Fold where
  total : Float
  count : Nat
  text : String
deriving Inhabited

namespace Aggregate

/- The aggregate works on numbers. -/
def isNumeric : Aggregate → Bool
  | .sum | .product | .average | .minimum | .maximum => true
  | _ => false

/- The aggregate works on logical values. -/
def isLogical : Aggregate → Bool
  | .conjunction | .disjunction | .parity => true
  | _ => false

/- The total before anything was gathered. -/
def neutral : Aggregate → Float
  | .product | .conjunction => 1
  | .minimum => 1 / 0
  | .maximum => -1 / 0
  | _ => 0

end Aggregate

namespace Fold

------------------------------------------------------------
-- Steps
------------------------------------------------------------

/- Nothing was gathered. -/
def start (f : Aggregate) : Fold :=
  ⟨f.neutral, 0, ""⟩

/-
  The total with one more number. Of two equal numbers the
  later one is kept, which matters for the sign of a zero.
-/
def totalWith (f : Aggregate) (total x : Float) : Float :=
  match f with
  | .sum | .average => total + x
  | .product => total * x
  | .minimum => if x ≤ total then x else total
  | .maximum => if total ≤ x then x else total
  | _ => total

/- The total with one more logical value; one stands for true. -/
def truthWith (f : Aggregate) (total : Float) (b : Bool) : Float :=
  match f, b with
  | .conjunction, false => 0
  | .disjunction, true => 1
  | .parity, true => 1 - total
  | _, _ => total

/- Gather a number. -/
def addNumber (f : Aggregate) (x : Float) (s : Fold) : Fold :=
  { s with total := totalWith f s.total x, count := s.count + 1 }

/- Gather a logical value. -/
def addBool (f : Aggregate) (b : Bool) (s : Fold) : Fold :=
  { s with total := truthWith f s.total b, count := s.count + 1 }

/- Count a scalar if it is of interest. -/
def tally (wanted : Bool) (s : Fold) : Fold :=
  { s with count := if wanted then s.count + 1 else s.count }

/- A scalar is blank or an empty text. -/
def looksBlank (v : Scalar) : Bool :=
  v.isBlank || v.text? == some ""

/- Gather a text. -/
def addText (v : Scalar) (s : Fold) : Except ErrorValue Fold := do
  let t ← v.toText
  return { s with text := s.text ++ t }

/- Gather a scalar of the type that counts, and skip others. -/
def addTyped
    (f : Aggregate)
    (v : Scalar)
    (s : Fold) : Except ErrorValue Fold :=
  match v with
  | .error e => .error e
  | .number x =>
      if f.isNumeric then .ok (s.addNumber f x)
      else if f.isLogical then .ok (s.addBool f (x != 0))
      else .ok s
  | .bool b =>
      if f.isLogical then .ok (s.addBool f b) else .ok s
  | _ => .ok s

/- Gather a scalar from a cell or an array. -/
def addIndirect
    (f : Aggregate)
    (v : Scalar)
    (s : Fold) : Except ErrorValue Fold :=
  match f with
  | .count => .ok (s.tally v.number?.isSome)
  | .countFilled => .ok (s.tally !v.isBlank)
  | .countBlank => .ok (s.tally (looksBlank v))
  | .concat => s.addText v
  | f => s.addTyped f v

/- Gather a scalar as a number. -/
def addAsNumber
    (f : Aggregate)
    (v : Scalar)
    (s : Fold) : Except ErrorValue Fold := do
  let x ← v.toNumber
  return s.addNumber f x

/- Gather a scalar as a logical value, and skip a blank. -/
def addAsBool
    (f : Aggregate)
    (v : Scalar)
    (s : Fold) : Except ErrorValue Fold :=
  if v.isBlank then
    .ok s
  else do
    let b ← v.toBool
    return s.addBool f b

/- A scalar can be converted to a number. -/
def looksNumeric (v : Scalar) : Bool :=
  match v.toNumber with
  | .ok _ => true
  | .error _ => false

/- Gather a scalar that stands in a formula itself. -/
def addDirect
    (f : Aggregate)
    (v : Scalar)
    (s : Fold) : Except ErrorValue Fold :=
  match f with
  | .count => .ok (s.tally (looksNumeric v))
  | .countFilled | .countBlank | .concat => s.addIndirect f v
  | .sumProduct => .ok s
  | f =>
      if f.isNumeric then s.addAsNumber f v else s.addAsBool f v

------------------------------------------------------------
-- Results
------------------------------------------------------------

/- The result of an aggregate on what was gathered. -/
def result (f : Aggregate) (s : Fold) : Scalar :=
  match f with
  | .count | .countFilled | .countBlank =>
      .number (.ofNat s.count)
  | .concat => .text s.text
  | .average =>
      if s.count = 0 then .error .divisionByZero
      else .ofFloat (s.total / .ofNat s.count)
  | f =>
      if f.isLogical then
        if s.count = 0 then .error .wrongValue
        else .bool (s.total != 0)
      else if s.count = 0 then
        .number 0
      else
        .ofFloat s.total

end Fold

end Spreadsheet
