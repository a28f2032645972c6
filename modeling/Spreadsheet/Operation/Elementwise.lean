import Spreadsheet.Decimal.Rounding
import Spreadsheet.Operation.Infix
import Spreadsheet.Text.Words

/-
  The functions of a fixed number of scalars.

  An argument that is left out counts as blank. Functions
  that ask for the type of their argument accept errors; all
  others result in the first error among their arguments.

  Key definitions include:
    * `Elementwise.apply`
-/

namespace Spreadsheet

namespace Scalar

------------------------------------------------------------
-- Numbers
------------------------------------------------------------

/- The sign of a number, as a number. -/
def signOf (a : Float) : Float :=
  if 0 < a then 1
  else if a < 0 then -1
  else 0

/- Negative numbers have no square root. -/
def squareRoot (a : Float) : Except ErrorValue Float :=
  if a < 0 then .error .badNumber else .ok a.sqrt

/- The remainder, which has the sign of the divisor. -/
def modulo (a b : Float) : Except ErrorValue Float :=
  if b == 0 then .error .divisionByZero
  else .ok (a - b * (a / b).floor)

/- The number that is nearest to pi. -/
def pi : Float := 3.141592653589793

------------------------------------------------------------
-- Texts And Types
------------------------------------------------------------

/- Compute with a scalar as a text. -/
def textual (f : String → Scalar) (v : Scalar) : Scalar :=
  .ofExcept f v.toText

/- A scalar is a number. -/
def isNumber (v : Scalar) : Bool :=
  v.number?.isSome

/- A scalar is a text. -/
def isText (v : Scalar) : Bool :=
  v.text?.isSome

/- A scalar is a logical value. -/
def isLogical : Scalar → Bool
  | .bool _ => true
  | _ => false

/- The number of the error that a scalar is. -/
def errorCode (v : Scalar) : Scalar :=
  match v.error? with
  | some e => .number (.ofNat e.code)
  | none => .error .notAvailable

end Scalar

------------------------------------------------------------
-- Functions
------------------------------------------------------------

/- The result of a function on scalars. -/
def Elementwise.apply (f : Elementwise) (args : List Scalar) : Scalar :=
  let first := args[0]?.getD .blank
  let second := args[1]?.getD .blank
  match f with
  | .absolute => first.arithmetic fun a => .ok a.abs
  | .floor => first.arithmetic fun a => .ok a.floor
  | .sign => first.arithmetic fun a => .ok (Scalar.signOf a)
  | .squareRoot => first.arithmetic Scalar.squareRoot
  | .modulo => first.arithmetic₂ Scalar.modulo second
  | .power => first.arithmetic₂ Scalar.power second
  | .round =>
      first.arithmetic₂ (fun a b => .ok (Decimal.round a b)) second
  | .negation => .ofExcept (fun b => .bool !b) first.toBool
  | .length => first.textual fun s => .number (.ofNat s.length)
  | .upper => first.textual fun s => .text (Text.upper s)
  | .lower => first.textual fun s => .text (Text.lower s)
  | .trim => first.textual fun s => .text (Text.squeeze s)
  | .isBlank => .bool first.isBlank
  | .isNumber => .bool first.isNumber
  | .isText => .bool first.isText
  | .isLogical => .bool first.isLogical
  | .isError => .bool first.isError
  | .isErrorNotMissing =>
      .bool (first.isError && first.error? != some .notAvailable)
  | .isMissing => .bool (first.error? == some .notAvailable)
  | .errorCode => first.errorCode
  | .missing => .error .notAvailable
  | .alwaysTrue => .bool true
  | .alwaysFalse => .bool false
  | .pi => .number Scalar.pi

end Spreadsheet
