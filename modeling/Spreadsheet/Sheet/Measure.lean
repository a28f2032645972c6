import Spreadsheet.IntervalMap

/-
  How wide columns and how high rows are, and whether they
  are hidden.

  Most columns and rows are measured alike, so their measures
  are kept by interval. One that says nothing is not kept.

  Key definitions include:
    * `Measure`
    * `Measures`
    * `Measures.setLength`
    * `Measures.clearLength`
    * `Measures.hide`
    * `Measures.unhide`
-/

namespace Spreadsheet

/-
  The measure of a column or row; without a length it is as
  large as usual.
-/
structure Measure where
  length : Option Float32
  hidden : Bool
deriving BEq, Inhabited

/- The measure that says nothing. -/
def Measure.usual : Measure :=
  ⟨none, false⟩

/- The measures of all columns or of all rows. -/
abbrev Measures := IntervalMap Measure

namespace Measures

/- The measure of a column or row. -/
def measure (m : Measures) (i : Nat) : Measure :=
  m.getD i .usual

/- Give a length to columns or rows. -/
def setLength
    (m : Measures)
    (start stop : Nat)
    (length : Float32) : Measures :=
  m.modify start stop fun v =>
    some ⟨some length, v.any (·.hidden)⟩

/- Let columns or rows be as large as usual. -/
def clearLength (m : Measures) (start stop : Nat) : Measures :=
  m.modify start stop fun v =>
    if v.any (·.hidden) then some ⟨none, true⟩ else none

/- Hide columns or rows. -/
def hide (m : Measures) (start stop : Nat) : Measures :=
  m.modify start stop fun v => some ⟨v.bind (·.length), true⟩

/- Show columns or rows. -/
def unhide (m : Measures) (start stop : Nat) : Measures :=
  m.modify start stop fun v =>
    (v.bind (·.length)).map fun length => ⟨some length, false⟩

end Measures

end Spreadsheet
