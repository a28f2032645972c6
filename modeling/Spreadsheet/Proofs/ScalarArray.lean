import Mathlib.Data.List.Forall2
import Spreadsheet.ScalarArray

/-
  The rows of arrays.

  An array made of rows of one length has these rows again,
  and rows with equal contents make arrays with equal
  contents, where numbers are compared as numbers.

  Main declarations:
    * `ScalarArray.Same`
    * `ScalarArray.ofRows?_eq_some`
    * `ScalarArray.rows_of_ofRows?`
    * `ScalarArray.exists_same`
-/

namespace Spreadsheet

/- Texts are joined with something between two of them. -/
theorem Text.joinWith_cons
    {between cs : List Char}
    {rest : List (List Char)}
    (hRest : rest ≠ []) :
    joinWith between (cs :: rest) =
      cs ++ between ++ joinWith between rest := by
  cases rest with
  | nil => exact absurd rfl hRest
  | cons ds rest => rfl

namespace ScalarArray

/- The rows have one positive length. -/
def Even (rows : List (List Scalar)) (width : Nat) : Prop :=
  width ≠ 0 ∧ (rows.head?.getD []).length = width ∧
    ∀ row ∈ rows, row.length = width

/- An array has the contents of its rows, one after another. -/
theorem ofRows?_eq_some
    {rows : List (List Scalar)}
    {a : ScalarArray}
    (hArray : ofRows? rows = some a) :
    ∃ width,
      Even rows width ∧ a.size = ⟨width, rows.length⟩ ∧
        a.data.toList = rows.flatten := by
  unfold ofRows? at hArray
  dsimp only at hArray
  split at hArray
  · rename_i hWidth
    cases hArray
    exact ⟨_, ⟨hWidth.1, rfl, hWidth.2⟩, rfl, rfl⟩
  · cases hArray

theorem exists_ofRows?
    {rows : List (List Scalar)}
    {width : Nat}
    (hEven : Even rows width) :
    ∃ a,
      ofRows? rows = some a ∧ a.size = ⟨width, rows.length⟩ ∧
        a.data.toList = rows.flatten := by
  rcases hEven with ⟨hPositive, rfl, hWidth⟩
  unfold ofRows?
  dsimp only
  rw [dif_pos ⟨hPositive, hWidth⟩]
  exact ⟨_, rfl, rfl, rfl⟩

------------------------------------------------------------
-- Rows
------------------------------------------------------------

/- Positions in rows of one length, one row after another. -/
theorem getElem?_flatten
    {rows : List (List Scalar)}
    {width x : Nat}
    (hWidth : ∀ row ∈ rows, row.length = width)
    (hx : x < width)
    (y : Nat) :
    rows.flatten[y * width + x]? = rows[y]?.bind (·[x]?) := by
  induction rows generalizing y with
  | nil => simp
  | cons row rows ih =>
      have hRow := hWidth row List.mem_cons_self
      cases y with
      | zero =>
          rw [List.flatten_cons, Nat.zero_mul, Nat.zero_add,
            List.getElem?_append_left (by omega)]
          rfl
      | succ y =>
          have hIndex :
              (y + 1) * width + x - row.length = y * width + x := by
            rw [hRow, Nat.add_mul]
            omega
          have hBeyond : row.length ≤ (y + 1) * width + x := by
            rw [hRow, Nat.add_mul]
            omega
          rw [List.flatten_cons, List.getElem?_append_right hBeyond,
            hIndex, ih fun r hr => hWidth r (List.mem_cons_of_mem _ hr)]
          rfl

theorem filterMap_range_getElem? (row : List Scalar) :
    (List.range row.length).filterMap (row[·]?) = row := by
  induction row with
  | nil => rfl
  | cons v row ih =>
      have hFirst : (v :: row)[0]? = some v := rfl
      rw [List.length_cons, List.range_succ_eq_map,
        List.filterMap_cons, hFirst, List.filterMap_map]
      exact congrArg (v :: ·) ih

/- An array made of rows has these rows. -/
theorem rows_of_ofRows?
    {rows : List (List Scalar)}
    {a : ScalarArray}
    (hArray : ofRows? rows = some a) :
    a.rows = rows := by
  rcases ofRows?_eq_some hArray with
    ⟨width, ⟨-, -, hWidth⟩, hSize, hData⟩
  have hRow :
      ∀ y (hy : y < rows.length), a.row y = rows[y] := by
    intro y hy
    have hLength := hWidth rows[y] (List.getElem_mem hy)
    have hGet :
        ∀ x ∈ List.range width, a.get? ⟨x, y⟩ = rows[y][x]? := by
      intro x hx
      rw [List.mem_range] at hx
      have hInside : a.size.contains ⟨x, y⟩ = true := by
        rw [hSize]
        simp [Size.contains, hx, hy]
      rw [get?, if_pos hInside, ← Array.getElem?_toList, hData, hSize,
        getElem?_flatten hWidth hx, List.getElem?_eq_getElem hy]
      rfl
    rw [row, hSize, List.filterMap_congr hGet, ← hLength,
      filterMap_range_getElem?]
  refine List.ext_getElem (by simp [ScalarArray.rows, hSize]) ?_
  intro y _ hy
  simp [ScalarArray.rows, hRow y hy]

/- The text of an array between its braces. -/
def rowsSource (rows : List (List Scalar)) : List Char :=
  Text.joinWith [';']
    (rows.map fun row => Text.joinWith [','] (row.map Scalar.source))

theorem rowsSource_across
    {v : Scalar}
    {row : List Scalar}
    {rows : List (List Scalar)}
    (hRow : row ≠ []) :
    rowsSource ((v :: row) :: rows) =
      v.source ++ ',' :: rowsSource (row :: rows) := by
  have hSources : row.map Scalar.source ≠ [] := by simpa using hRow
  cases rows with
  | nil => simp [rowsSource, Text.joinWith, Text.joinWith_cons hSources]
  | cons r rows =>
      simp [rowsSource, Text.joinWith, Text.joinWith_cons hSources]

theorem rowsSource_down
    {v : Scalar}
    {rows : List (List Scalar)}
    (hRows : rows ≠ []) :
    rowsSource ([v] :: rows) = v.source ++ ';' :: rowsSource rows := by
  have hSources :
      rows.map
          (fun row => Text.joinWith [','] (row.map Scalar.source)) ≠
        [] := by
    simpa using hRows
  rw [rowsSource, List.map_cons, Text.joinWith_cons hSources]
  simp [rowsSource, Text.joinWith]

------------------------------------------------------------
-- Equal Contents
------------------------------------------------------------

/- The arrays have the same size and equal contents. -/
def Same (a b : ScalarArray) : Prop :=
  a.size = b.size ∧
    List.Forall₂ (fun v w => v.same w = true) a.data.toList
      b.data.toList

/- Rows with equal contents make arrays with equal contents. -/
theorem exists_same
    {rows rows' : List (List Scalar)}
    {a : ScalarArray}
    (hArray : ofRows? rows = some a)
    (hSame :
      List.Forall₂ (List.Forall₂ fun v w => v.same w = true) rows
        rows') :
    ∃ b, ofRows? rows' = some b ∧ a.Same b := by
  rcases ofRows?_eq_some hArray with
    ⟨width, ⟨hPositive, hHead, hWidth⟩, hSize, hData⟩
  have hHead' : (rows'.head?.getD []).length = width := by
    rw [← hHead]
    cases hSame with
    | nil => rfl
    | cons hRow hRows => exact hRow.length_eq.symm
  have hWidth' : ∀ row ∈ rows', row.length = width := by
    intro row' hRow'
    rcases List.getElem_of_mem hRow' with ⟨i, hi, rfl⟩
    have hi' : i < rows.length := hSame.length_eq ▸ hi
    have hRow := hSame.get hi' hi
    rw [← hWidth _ (List.getElem_mem hi')]
    exact hRow.length_eq.symm
  rcases exists_ofRows? ⟨hPositive, hHead', hWidth'⟩ with
    ⟨b, hArray', hSize', hData'⟩
  refine ⟨b, hArray', ?_, ?_⟩
  · rw [hSize, hSize', hSame.length_eq]
  · rw [hData, hData']
    exact List.rel_flatten hSame

end ScalarArray

end Spreadsheet
