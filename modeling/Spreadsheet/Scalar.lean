import Spreadsheet.Decimal.Reader
import Spreadsheet.Decimal.Shortest
import Spreadsheet.ErrorValue

/-
  Scalars: the values that cells hold and formulas exchange.

  Each scalar can be viewed as a number, as a logical value
  or as text. A view fails with the error that the formula
  then results in: the scalar's own error, or `#VALUE!` for
  text that cannot be read.

  Key definitions include:
    * `Scalar`
    * `Scalar.ofFloat`
    * `Scalar.toNumber`
    * `Scalar.toBool`
    * `Scalar.toText`
    * `Scalar.source`
    * `readNumber?`
    * `numberText`
-/

namespace Spreadsheet

------------------------------------------------------------
-- Numbers As Text
------------------------------------------------------------

/- The shortest spelling; zero has no sign. -/
def numberText (x : Float) : String :=
  if x == 0 then "0" else Decimal.ofFloat x

/-
  Read text between blanks as a number that is not too large
  for the sheet.
-/
def readNumber? (s : String) : Option Float :=
  (Decimal.readFloat? (Text.trimChars s.toList)).filter Float.isFinite

------------------------------------------------------------
-- Scalars
------------------------------------------------------------

/- A single value. -/
inductive Scalar where
  | blank
  | bool (b : Bool)
  | number (x : Float)
  | text (s : String)
  | error (e : ErrorValue)
deriving Inhabited, DecidableEq

namespace Scalar

/- A computed number; what is not finite becomes `#NUM!`. -/
def ofFloat (x : Float) : Scalar :=
  if x.isFinite then .number x else .error .badNumber

/- A value or the error that stands in its place. -/
def ofExcept (f : α → Scalar) : Except ErrorValue α → Scalar
  | .ok a => f a
  | .error e => .error e

/- The value of an empty cell. -/
def isBlank : Scalar → Bool
  | .blank => true
  | _ => false

/- The value is an error. -/
def isError : Scalar → Bool
  | .error _ => true
  | _ => false

/- The number that a scalar is. -/
def number? : Scalar → Option Float
  | .number x => some x
  | _ => none

/- The text that a scalar is. -/
def text? : Scalar → Option String
  | .text s => some s
  | _ => none

/- The error that a scalar is. -/
def error? : Scalar → Option ErrorValue
  | .error e => some e
  | _ => none

/-
  Equality of contents: numbers are compared as numbers, so
  both zeros agree.
-/
def same : Scalar → Scalar → Bool
  | .blank, .blank => true
  | .bool a, .bool b => a == b
  | .number a, .number b => a == b
  | .text a, .text b => a == b
  | .error a, .error b => a == b
  | _, _ => false

------------------------------------------------------------
-- Views
------------------------------------------------------------

/- The spelling of logical values. -/
def boolText (b : Bool) : String :=
  if b then "TRUE" else "FALSE"

/- The text that a cell shows. -/
def display : Scalar → String
  | .blank => ""
  | .bool b => boolText b
  | .number x => numberText x
  | .text s => s
  | .error e => e.text

/- The view of arithmetic: blank is zero and true is one. -/
def toNumber : Scalar → Except ErrorValue Float
  | .blank => .ok 0
  | .bool b => .ok (if b then 1 else 0)
  | .number x => .ok x
  | .text s =>
      match readNumber? s with
      | some x => .ok x
      | none => .error .wrongValue
  | .error e => .error e

/- The view of conditions: every number but zero is true. -/
def toBool : Scalar → Except ErrorValue Bool
  | .blank => .ok false
  | .bool b => .ok b
  | .number x => .ok (x != 0)
  | .text s =>
      if Text.equalIgnoringCase s "TRUE" then .ok true
      else if Text.equalIgnoringCase s "FALSE" then .ok false
      else .error .wrongValue
  | .error e => .error e

/- The view of text operators. -/
def toText : Scalar → Except ErrorValue String
  | .error e => .error e
  | v => .ok v.display

/- Text in a formula stands in quotes, with inner ones doubled. -/
def quoted (cs : List Char) : List Char :=
  '"' :: cs.flatMap (fun c => if c = '"' then ['"', '"'] else [c]) ++
    ['"']

/- The spelling of a constant in a formula. -/
def source : Scalar → List Char
  | .text s => quoted s.toList
  | v => v.display.toList

end Scalar

end Spreadsheet
