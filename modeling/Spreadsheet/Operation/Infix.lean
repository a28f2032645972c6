import Spreadsheet.Operation
import Spreadsheet.Scalar
import Spreadsheet.Text.Case

/-
  The operators on single scalars, and the order of scalars.

  Numbers come before texts and texts before logical values.
  Texts are compared without regard to case, and a blank
  takes the type of what it is compared with. Of two
  operands that are errors, the left one is the result.

  Key definitions include:
    * `Scalar.ordering`
    * `Scalar.power`
    * `InfixOp.apply`
    * `Scalar.negate`
    * `Scalar.percent`
-/

namespace Spreadsheet

namespace Scalar

------------------------------------------------------------
-- Order
------------------------------------------------------------

/- The order of numbers. -/
def compareNumbers (a b : Float) : Ordering :=
  if a < b then .lt
  else if b < a then .gt
  else .eq

/-
  The order of texts in lower case, byte by byte. Texts of
  bytes below 128 are lowered a byte at a time.
-/
def compareTexts (s t : String) : Ordering :=
  if Text.isAscii s && Text.isAscii t then
    compare ((Text.bytes s).map Text.lowerByte)
      ((Text.bytes t).map Text.lowerByte)
  else
    compare (Text.bytes (Text.lower s)) (Text.bytes (Text.lower t))

/- The place of a type among the types. -/
def rank : Scalar → Nat
  | .blank => 0
  | .number _ => 0
  | .text _ => 1
  | .bool _ => 2
  | .error _ => 3

/- A blank becomes the least thing of another one's type. -/
def fillBlank (v other : Scalar) : Scalar :=
  match v, other with
  | .blank, .number _ => .number 0
  | .blank, .text _ => .text ""
  | .blank, .bool _ => .bool false
  | v, _ => v

/- The order of scalars where no blank meets another type. -/
def compareFilled : Scalar → Scalar → Ordering
  | .number a, .number b => compareNumbers a b
  | .text s, .text t => compareTexts s t
  | .bool a, .bool b => compare a b
  | v, w => compare v.rank w.rank

/- The order of two scalars, or the first error. -/
def ordering (v w : Scalar) : Except ErrorValue Ordering :=
  match v, w with
  | .error e, _ => .error e
  | _, .error e => .error e
  | v, w => .ok (compareFilled (v.fillBlank w) (w.fillBlank v))

/- Whether the order of two scalars passes a test. -/
def comparison (test : Ordering → Bool) (v w : Scalar) : Scalar :=
  .ofExcept (fun o => .bool (test o)) (v.ordering w)

------------------------------------------------------------
-- Arithmetic
------------------------------------------------------------

/- Compute with a scalar as a number. -/
def arithmetic
    (f : Float → Except ErrorValue Float)
    (v : Scalar) : Scalar :=
  .ofExcept .ofFloat do
    let a ← v.toNumber
    f a

/- Compute with two scalars as numbers. -/
def arithmetic₂
    (f : Float → Float → Except ErrorValue Float)
    (v w : Scalar) : Scalar :=
  .ofExcept .ofFloat do
    let a ← v.toNumber
    let b ← w.toNumber
    f a b

/- Division by zero fails. -/
def divide (a b : Float) : Except ErrorValue Float :=
  if b == 0 then .error .divisionByZero else .ok (a / b)

/- Zero has no power with an exponent that is not positive. -/
def power (a b : Float) : Except ErrorValue Float :=
  if a == 0 && b == 0 then .error .badNumber
  else if a == 0 && b < 0 then .error .divisionByZero
  else .ok (a ^ b)

/- The opposite of a number. -/
def negate (v : Scalar) : Scalar :=
  v.arithmetic fun a => .ok (-a)

/- A hundredth of a number. -/
def percent (v : Scalar) : Scalar :=
  v.arithmetic fun a => .ok (a / 100)

/- Two texts, one after the other. -/
def concat (v w : Scalar) : Scalar :=
  .ofExcept .text do
    let s ← v.toText
    let t ← w.toText
    return s ++ t

end Scalar

------------------------------------------------------------
-- Operators
------------------------------------------------------------

/- The result of an operator on two scalars. -/
def InfixOp.apply : InfixOp → Scalar → Scalar → Scalar
  | .add => Scalar.arithmetic₂ fun a b => .ok (a + b)
  | .subtract => Scalar.arithmetic₂ fun a b => .ok (a - b)
  | .multiply => Scalar.arithmetic₂ fun a b => .ok (a * b)
  | .divide => Scalar.arithmetic₂ Scalar.divide
  | .power => Scalar.arithmetic₂ Scalar.power
  | .concat => Scalar.concat
  | .equal => Scalar.comparison Ordering.isEq
  | .unequal => Scalar.comparison Ordering.isNe
  | .less => Scalar.comparison Ordering.isLT
  | .lessEqual => Scalar.comparison Ordering.isLE
  | .greater => Scalar.comparison Ordering.isGT
  | .greaterEqual => Scalar.comparison Ordering.isGE

end Spreadsheet
