import Spreadsheet.Text.Blank

/-
  The error values of a sheet.

  An error is an ordinary value: it is stored in cells,
  flows through formulas and has a spelling of its own.
  Errors are numbered from one in the order of `all`.

  Key definitions include:
    * `ErrorValue`
    * `ErrorValue.text`
    * `ErrorValue.code`
    * `ErrorValue.ofText?`
-/

namespace Spreadsheet

/- The closed set of error values. -/
inductive ErrorValue where
  | emptyRange
  | divisionByZero
  | wrongValue
  | badReference
  | unknownName
  | badNumber
  | notAvailable
  | gettingData
  | spill
  | badFormula
deriving DecidableEq, Repr, Inhabited

namespace ErrorValue

/- All errors, in the order of their codes. -/
def all : List ErrorValue :=
  [.emptyRange, .divisionByZero, .wrongValue, .badReference,
    .unknownName, .badNumber, .notAvailable, .gettingData,
    .spill, .badFormula]

/- The spelling of an error in cells and formulas. -/
def text : ErrorValue → String
  | .emptyRange => "#NULL!"
  | .divisionByZero => "#DIV/0!"
  | .wrongValue => "#VALUE!"
  | .badReference => "#REF!"
  | .unknownName => "#NAME?"
  | .badNumber => "#NUM!"
  | .notAvailable => "#N/A"
  | .gettingData => "#GETTING_DATA"
  | .spill => "#SPILL!"
  | .badFormula => "#ERROR!"

/- The number of an error. -/
def code : ErrorValue → Nat
  | .emptyRange => 1
  | .divisionByZero => 2
  | .wrongValue => 3
  | .badReference => 4
  | .unknownName => 5
  | .badNumber => 6
  | .notAvailable => 7
  | .gettingData => 8
  | .spill => 9
  | .badFormula => 10

/- Errors are read in any case and between blanks. -/
def ofText? (s : String) : Option ErrorValue :=
  let s := Text.trim s
  all.find? fun e => Text.equalIgnoringCase e.text s

end ErrorValue

end Spreadsheet
