import Spreadsheet.Geometry
import Spreadsheet.Scalar
import Spreadsheet.Text.Join

/-
  Rectangular arrays of scalars, kept row by row.

  Key definitions include:
    * `ScalarArray`
    * `ScalarArray.ofRows?`
    * `ScalarArray.get?`
    * `ScalarArray.source`
-/

namespace Spreadsheet

/- A rectangle of scalars, row by row. -/
structure ScalarArray where
  size : Size
  data : Array Scalar
  data_size : data.size = size.area
deriving DecidableEq

namespace ScalarArray

theorem length_flatten_of_forall
    {rows : List (List Scalar)}
    {width : Nat}
    (hWidth : ∀ row ∈ rows, row.length = width) :
    rows.flatten.length = width * rows.length := by
  induction rows with
  | nil => simp
  | cons row rows ih =>
      have hRow := hWidth row List.mem_cons_self
      have hRows :=
        ih fun r hr => hWidth r (List.mem_cons_of_mem _ hr)
      simp [hRow, hRows, Nat.mul_add, Nat.add_comm]

/- The array of rows of one positive length. -/
def ofRows? (rows : List (List Scalar)) : Option ScalarArray :=
  let width := (rows.head?.getD []).length
  if h : width ≠ 0 ∧ ∀ row ∈ rows, row.length = width then
    some
      { size := ⟨width, rows.length⟩
        data := rows.flatten.toArray
        data_size := by
          simpa [Size.area] using length_flatten_of_forall h.2 }
  else
    none

/- The scalar at a position, if the array reaches there. -/
def get? (a : ScalarArray) (p : Point) : Option Scalar :=
  if a.size.contains p then
    a.data[p.y * a.size.width + p.x]?
  else
    none

/- The scalars of one row, from the left. -/
def row (a : ScalarArray) (y : Nat) : List Scalar :=
  (List.range a.size.width).filterMap fun x => a.get? ⟨x, y⟩

/- The rows of an array, from the top. -/
def rows (a : ScalarArray) : List (List Scalar) :=
  (List.range a.size.height).map a.row

/-
  The spelling of an array in a formula: commas within rows
  and semicolons between them.
-/
def source (a : ScalarArray) : List Char :=
  let row (vs : List Scalar) :=
    Text.joinWith [','] (vs.map Scalar.source)
  '\x7b' :: Text.joinWith [';'] (a.rows.map row) ++ ['\x7d']

end ScalarArray

end Spreadsheet
