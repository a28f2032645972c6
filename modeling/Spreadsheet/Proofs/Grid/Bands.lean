import Spreadsheet.Proofs.Grid.Visit

/-
  Visits of the cells of a rectangle.

  The cells are visited in chunks, which lie in one leaf tile
  each. A chunk in a middle tile that does not exist may be
  larger, since nothing is done there. Each cell of the
  rectangle is visited once.

  Main declarations:
    * `TopTile.chunk_bounds`
    * `TopTile.visitChunk`
    * `TopTile.visitBand_spec`
    * `TopTile.visitBands_spec`
-/

namespace Spreadsheet

namespace TopTile

variable {α σ : Type}

------------------------------------------------------------
-- Chunks
------------------------------------------------------------

/- The keys of cells. -/
def keys (l : List Point) : List CellKey :=
  l.map Point.key

@[simp] theorem keys_append (l m : List Point) :
    keys (l ++ m) = keys l ++ keys m :=
  List.map_append

/-
  Visiting the cells of a rectangle ends in a given tile and
  state, when each cell has one turn.
-/
def Visits
    (v : CellVisitor α σ)
    (r : Rect)
    (before after : TopTile α × σ) : Prop :=
  Good after.1 ∧
    ∃ l, r.Enumerates l ∧
      (Plan.each v (keys l)).Follows (look before.1, before.2)
        (look after.1, after.2)

/- First one part of a rectangle is visited, then the other. -/
theorem Visits.append
    {v : CellVisitor α σ}
    {r s t : Rect}
    {before between after : TopTile α × σ}
    (hFirst : Visits v s before between)
    (hSecond : Visits v t between after)
    (hParts :
      ∀ p, r.contains p = true ↔
        s.contains p = true ∨ t.contains p = true)
    (hApart :
      ∀ p, s.contains p = true → ¬ t.contains p = true) :
    Visits v r before after := by
  rcases hFirst with ⟨-, l, hList, hFollows⟩
  rcases hSecond with ⟨hGood, m, hRest, hFollowsRest⟩
  refine ⟨hGood, l ++ m, hList.append hRest hParts hApart, ?_⟩
  rw [keys_append, Plan.each_append]
  exact hFollows.append hFollowsRest

/- Empty cells that are not wanted may be left out. -/
theorem visits_refl
    {v : CellVisitor α σ}
    {r : Rect}
    {t : TopTile α}
    {s : σ}
    (hGood : Good t)
    (hNone : ∀ p, r.contains p = true → look t p.key = none)
    (hIdle : v.wanted s = false) :
    Visits v r (t, s) (t, s) := by
  refine ⟨hGood, r.points, r.enumerates_points,
    Plan.follows_each_of_idle ?_ hIdle⟩
  intro k hKey
  rw [keys, List.mem_map] at hKey
  rcases hKey with ⟨p, hIn, rfl⟩
  exact hNone p (Rect.mem_points.mp hIn)

/- No cells are visited. -/
theorem visits_empty
    {v : CellVisitor α σ}
    {r : Rect}
    {t : TopTile α}
    {s : σ}
    (hGood : Good t)
    (hEmpty : r.size.width = 0 ∨ r.size.height = 0) :
    Visits v r (t, s) (t, s) := by
  refine ⟨hGood, [], ⟨List.nodup_nil, fun p => ?_⟩, .nil⟩
  rw [Rect.contains_iff]
  refine iff_of_false (List.not_mem_nil) ?_
  omega

/- The keys in a rectangle that ends with its leaf tile. -/
theorem keys_of_leaf
    (p : Point)
    (size : Size)
    (hWidth : p.x % 256 + size.width ≤ 256)
    (hHeight : p.y % 2048 + size.height ≤ 2048) :
    keys (Rect.points ⟨p, size⟩) =
      (((Rect.points ⟨p.within leafSize, size⟩).map fun q =>
        TileShape.leaf.index q.x q.y).map
          fun k => ((TilePath.of p).middle, k)).map
            fun k => ((TilePath.of p).top, k) := by
  simp only [keys, Rect.points, List.map_flatMap, List.map_map]
  refine List.flatMap_congr fun dy hRow => ?_
  refine List.map_congr_left fun dx hColumn => ?_
  rw [List.mem_range] at hRow hColumn
  have hPath : (TilePath.of p).key = p.key := rfl
  rw [Point.key_eq, TilePath.key, Prod.mk.injEq,
    Prod.mk.injEq] at hPath
  simp only [Function.comp_apply]
  rw [Point.key_eq, hPath.1, hPath.2.1, Prod.mk.injEq,
    Prod.mk.injEq]
  have hIndex :
      TileShape.leaf.index ((p.within leafSize).x + dx)
          ((p.within leafSize).y + dy) =
        (p.y % 2048 + dy) * 256 + (p.x % 256 + dx) := by
    rw [TileShape.index, Nat.shiftLeft_eq]
    rfl
  rw [hIndex]
  dsimp only
  refine ⟨?_, ?_, ?_⟩ <;> omega

/-
  A chunk is as large as the leaf tile allows at least, and
  ends with the limits or with leaf tiles.
-/
theorem chunk_bounds
    (wanted : Bool)
    (t : TopTile α)
    (p : Point)
    (limit : Size)
    {c : Size}
    (hChunk : chunk wanted t p limit = c) :
    min limit.width (256 - p.x % 256) ≤ c.width ∧
      (c.width = limit.width ∨
        c.width < limit.width ∧ (p.x + c.width) % 256 = 0) ∧
      min limit.height (2048 - p.y % 2048) ≤ c.height ∧
      (c.height = limit.height ∨
        c.height < limit.height ∧ (p.y + c.height) % 2048 = 0) := by
  rw [← hChunk, chunk]
  split <;>
    simp only [Size.inf, Point.toBlockEnd, leafSize_eq,
      middleSize_eq] <;>
    omega

/- A middle tile that does not exist has no cells. -/
theorem look_of_missing
    {t : TopTile α}
    {p q : Point}
    (hMissing : Tile.get? t (TilePath.of p).top = none)
    (hColumn : q.x / 4096 = p.x / 4096)
    (hRow : q.y / 2097152 = p.y / 2097152) :
    look t q.key = none := by
  have hTop : q.key.1 = (TilePath.of p).top := by
    have hPath : (TilePath.of p).top = p.key.1 := rfl
    rw [hPath, Point.key_eq, Point.key_eq, hColumn, hRow]
  rw [look, Tile.look, hTop, hMissing]
  rfl

variable {v : CellVisitor α σ}

/-
  The first chunk of a band is visited, as high as the band
  is in the end. A chunk that something may be done in is as
  high as its leaf tile allows.
-/
theorem visitChunk
    {t : TopTile α}
    {s : σ}
    (hGood : Good t)
    (p : Point)
    (limit : Size)
    {height : Nat}
    (hLow : min limit.height (2048 - p.y % 2048) ≤ height)
    (hHigh :
      height ≤ (chunk (v.wanted s) t p limit).height) :
    Visits v
      ⟨p, (chunk (v.wanted s) t p limit).width, height⟩
      (t, s)
      (inLeaf v.wanted (TilePath.of p)
        (LeafTile.visitCells v
          ⟨p.within leafSize, chunk (v.wanted s) t p limit⟩)
        t s) := by
  by_cases hReal :
      (v.wanted s ||
        (Tile.get? t (TilePath.of p).top).isSome) = true
  · -- the chunk ends with its leaf tile
    have hChunk :
        chunk (v.wanted s) t p limit =
          limit.inf (p.toBlockEnd leafSize) := by
      rw [chunk, if_pos hReal]
    rw [hChunk] at hHigh ⊢
    simp only [Size.inf, Point.toBlockEnd, leafSize_eq] at hHigh ⊢
    have hHeight : height = min limit.height (2048 - p.y % 2048) :=
      le_antisymm hHigh hLow
    rw [hHeight]
    have hPerforms :=
      performs_inLeaf v.wanted
        (LeafTile.performs_visitCells v
          ⟨p.within leafSize, min limit.width (256 - p.x % 256),
            min limit.height (2048 - p.y % 2048)⟩ s)
        (fun hIdle =>
          Plan.follows_each_of_idle (fun _ _ => rfl) hIdle)
        (TilePath.of p) t hGood
    refine ⟨hPerforms.1, _, Rect.enumerates_points _, ?_⟩
    rw [keys_of_leaf p _ (by dsimp only; omega)
      (by dsimp only; omega)]
    rw [Plan.inside_each, Plan.inside_each] at hPerforms
    exact hPerforms.2
  · -- there is nothing, and nothing is wanted
    rw [Bool.not_eq_true, Bool.or_eq_false_iff,
      Option.isSome_eq_false_iff, Option.isNone_iff_eq_none] at hReal
    have hChunk :
        chunk (v.wanted s) t p limit =
          limit.inf (p.toBlockEnd middleSize) := by
      rw [chunk, hReal.1, hReal.2]
      rfl
    rw [hChunk] at hHigh ⊢
    simp only [Size.inf, Point.toBlockEnd, middleSize_eq] at hHigh ⊢
    have hNothing :
        ∀ work : LeafTile α → σ → LeafTile α × σ,
          inLeaf v.wanted (TilePath.of p) work t s = (t, s) := by
      intro work
      simp [inLeaf, Tile.visit, Slot.inside, Tile.put, hReal]
    rw [hNothing]
    refine visits_refl hGood (fun q hIn => ?_) hReal.1
    rw [Rect.contains_iff] at hIn
    dsimp only at hIn
    exact look_of_missing hReal.2 (by omega) (by omega)

------------------------------------------------------------
-- Bands
------------------------------------------------------------

/-
  A band is visited as far down as all of its chunks reach,
  which is one row at least.
-/
theorem visitBand_spec
    (stop y : Nat) :
    ∀ (fuel x height : Nat) (t : TopTile α) (s : σ),
      Good t → stop - x ≤ fuel → 0 < height →
        ∃ height' t' s',
          visitBand v stop y fuel x height (t, s) =
              (height', t', s') ∧
            0 < height' ∧ height' ≤ height ∧
            min height (2048 - y % 2048) ≤ height' ∧
            Visits v ⟨⟨x, y⟩, stop - x, height'⟩ (t, s)
              (t', s') := by
  intro fuel
  induction fuel with
  | zero =>
      intro x height t s hGood hFuel hHeight
      have hWidth : stop - x = 0 := Nat.le_zero.mp hFuel
      exact
        ⟨height, t, s, rfl, hHeight, le_rfl, Nat.min_le_left _ _,
          visits_empty hGood (.inl hWidth)⟩
  | succ fuel ih =>
      intro x height t s hGood hFuel hHeight
      by_cases hStop : stop ≤ x
      · have hWidth : stop - x = 0 := Nat.sub_eq_zero_of_le hStop
        exact
          ⟨height, t, s, by rw [visitBand, if_pos hStop], hHeight,
            le_rfl, Nat.min_le_left _ _,
            visits_empty hGood (.inl hWidth)⟩
      · generalize hChunk :
          chunk (v.wanted s) t ⟨x, y⟩ ⟨stop - x, height⟩ = c
        have hBounds := chunk_bounds _ _ _ _ hChunk
        dsimp only at hBounds
        generalize hBetween :
          inLeaf v.wanted (TilePath.of ⟨x, y⟩)
            (LeafTile.visitCells v
              ⟨Point.within ⟨x, y⟩ leafSize, c⟩) t s = ts
        have hFirst :
            ∀ height', min height (2048 - y % 2048) ≤ height' →
              height' ≤ c.height →
              Visits v ⟨⟨x, y⟩, c.width, height'⟩ (t, s)
                (ts.1, ts.2) := by
          intro height' hLow hHigh
          have hVisits :=
            visitChunk hGood ⟨x, y⟩ ⟨stop - x, height⟩ hLow
              (by rw [hChunk]; exact hHigh)
          rw [hChunk, hBetween] at hVisits
          exact hVisits
        have hGood' := (hFirst c.height (by omega) le_rfl).1
        rcases ih (x + c.width) (min height c.height) ts.1 ts.2
            hGood' (by omega) (by omega) with
          ⟨height', t', s', hRest, hPositive, hLe, hLow, hVisits⟩
        refine ⟨height', t', s', ?_, hPositive, by omega, by omega,
          ?_⟩
        · rw [visitBand, if_neg hStop]
          dsimp only
          rw [hChunk, hBetween]
          exact hRest
        · refine
            (hFirst height' (by omega) (by omega)).append hVisits
              ?_ ?_ <;>
          · intro p
            simp only [Rect.contains_iff]
            omega

/- All cells of a rectangle are visited, band by band. -/
theorem visitBands_spec
    (left : Nat)
    (stop : Point) :
    ∀ (fuel y : Nat) (t : TopTile α) (s : σ),
      Good t → stop.y - y ≤ fuel →
        Visits v ⟨⟨left, y⟩, stop.x - left, stop.y - y⟩ (t, s)
          (visitBands v left stop fuel y (t, s)) := by
  intro fuel
  induction fuel with
  | zero =>
      intro y t s hGood hFuel
      exact visits_empty hGood (.inr (Nat.le_zero.mp hFuel))
  | succ fuel ih =>
      intro y t s hGood hFuel
      by_cases hStop : stop.y ≤ y
      · rw [visitBands, if_pos hStop]
        exact
          visits_empty hGood (.inr (Nat.sub_eq_zero_of_le hStop))
      · rcases visitBand_spec stop.x y (stop.x - left) left
            (stop.y - y) t s hGood le_rfl (by omega) with
          ⟨height, t', s', hBand, hPositive, hLe, -, hVisits⟩
        rw [visitBands, if_neg hStop, hBand]
        refine
          hVisits.append
            (ih (y + height) t' s' hVisits.1 (by omega)) ?_ ?_ <;>
        · intro p
          simp only [Rect.contains_iff]
          omega

end TopTile

end Spreadsheet
