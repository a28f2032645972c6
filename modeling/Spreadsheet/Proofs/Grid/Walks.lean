import Spreadsheet.Proofs.Grid.Relocation

/-
  Which cells are visited when a rectangle is walked through.

  A visitor that wants empty slots visits every cell. One that
  does not visits the cells of the leaf tiles that there are at
  first. The cells and their order are the same for all such
  visitors, even if tiles are given up on the way.

  Main declarations:
    * `TopTile.leafAt?`
    * `TopTile.leaves_inLeaf`
    * `TopTile.Walked`
    * `TopTile.walked_visitBands`
    * `TopTile.Walk`
    * `Grid.visits_modifyCells`
-/

namespace Spreadsheet

variable {α β σ : Type}

------------------------------------------------------------
-- Slots With Tiles
------------------------------------------------------------

namespace Slot

/- A slot of the tile in a slot. -/
def beneath? (slot : Slot (Tile β)) (i : Nat) : Slot β :=
  slot.bind (Tile.get? · i)

/- A tile that is given up has no slot that is filled. -/
theorem beneath?_of_done
    {weigh : β → Nat}
    {good : β → Prop}
    {t : Tile β}
    (hSound : t.Sound weigh good)
    (i : Nat) :
    beneath? (if t.count = 0 then none else some t) i =
      t.get? i := by
  split
  · rename_i hZero
    exact (hSound.count_eq_zero_iff.mp hZero i).symm
  · rfl

/-
  Work on one slot of the tile in a slot. Whether there was a
  tile, and whether it is given up, makes no difference.
-/
theorem beneath?_inside
    {weigh : β → Nat}
    {good : β → Prop}
    (wanted : σ → Bool)
    {f : SlotVisit β σ}
    {s : σ}
    (hIdle : wanted s = false → f none s = (none, s))
    {slot : Slot (Tile β)}
    (hGood : Slot.Good (Tile.Sound weigh good) slot)
    {i : Nat}
    (hKept :
      ∀ b, (f (beneath? slot i) s).1 = some b →
        good b ∧ weigh b ≠ 0) :
    (∀ j,
        beneath? (inside wanted (Tile.visit weigh i f) slot s).1 j =
          if j = i then (f (beneath? slot i) s).1
          else beneath? slot j) ∧
      (inside wanted (Tile.visit weigh i f) slot s).2 =
        (f (beneath? slot i) s).2 := by
  -- what becomes of a tile that there is
  have hDone :
      ∀ t : Tile β, t.Sound weigh good →
        (∀ b, (f (t.get? i) s).1 = some b →
          good b ∧ weigh b ≠ 0) →
        ∀ j,
          beneath?
              (if (Tile.visit weigh i f t s).1.count = 0 then none
                else some (Tile.visit weigh i f t s).1) j =
            if j = i then (f (t.get? i) s).1 else t.get? j := by
    intro t hSound hNew j
    have hVisited : (Tile.visit weigh i f t s).1.Sound weigh good :=
      hSound.put i hNew
    rw [beneath?_of_done hVisited]
    exact Tile.get?_put weigh i j _ t
  cases slot with
  | some t => exact ⟨hDone t (hGood t rfl).1 hKept, rfl⟩
  | none =>
      by_cases hWanted : wanted s = true
      · have hFresh := hDone .empty Tile.sound_empty
        simp only [Tile.get?_empty] at hFresh
        simp only [inside, hWanted, if_true]
        refine ⟨hFresh hKept, ?_⟩
        simp only [Tile.visit, Tile.get?_empty]
        rfl
      · rw [Bool.not_eq_true] at hWanted
        have hNothing : f (beneath? none i) s = (none, s) :=
          hIdle hWanted
        simp only [inside, hWanted, Bool.false_eq_true, if_false,
          hNothing]
        exact ⟨fun j => by split <;> rfl, trivial⟩

/- Work that keeps tiles good does so in a slot. -/
theorem good_inside
    {κ : Type}
    {good : Tile β → Prop}
    {look : Tile β → Contents κ α}
    (hShelf : Shelf good look)
    (wanted : σ → Bool)
    {work : Tile β → σ → Tile β × σ}
    {s : σ}
    (hWork : ∀ t, good t → good (work t s).1)
    {slot : Slot (Tile β)}
    (hGood : Slot.Good good slot) :
    Slot.Good good (inside wanted work slot s).1 := by
  have hAchieves : Achieves good look work (fun _ _ => True) s :=
    fun t ht => ⟨hWork t ht, trivial⟩
  exact
    (Achieves.inside hShelf wanted hAchieves (fun _ => trivial) slot
      hGood).1

end Slot

------------------------------------------------------------
-- Order
------------------------------------------------------------

namespace Point

/- The leaf tile of one point comes before that of another. -/
def LeafBefore (p q : Point) : Prop :=
  p.y / 2048 < q.y / 2048 ∨
    p.y / 2048 = q.y / 2048 ∧ p.x / 256 < q.x / 256

/- Two points have the same leaf tile. -/
def SameLeaf (p q : Point) : Prop :=
  p.y / 2048 = q.y / 2048 ∧ p.x / 256 = q.x / 256

/- One tile after the other, and each of them row by row. -/
def Before (p q : Point) : Prop :=
  p.LeafBefore q ∨
    p.SameLeaf q ∧ (p.y < q.y ∨ p.y = q.y ∧ p.x < q.x)

theorem Before.asymm
    {p q : Point}
    (hBefore : p.Before q) :
    ¬ q.Before p := by
  unfold Before LeafBefore SameLeaf at *
  omega

/- The cells of a tile have the same keys down to the tile. -/
theorem SameLeaf.key_eq
    {p q : Point}
    (hSame : p.SameLeaf q) :
    p.key.1 = q.key.1 ∧ p.key.2.1 = q.key.2.1 := by
  rw [Point.key_eq, Point.key_eq]
  unfold SameLeaf at hSame
  dsimp only
  constructor <;> omega

/- On the sheet, no two tiles have the same key. -/
theorem LeafBefore.key_ne
    {p q : Point}
    (hBefore : p.LeafBefore q)
    (hFirst : maxSize.contains p = true)
    (hSecond : maxSize.contains q = true) :
    ¬ (p.key.1 = q.key.1 ∧ p.key.2.1 = q.key.2.1) := by
  rw [maxSize_eq, Size.contains_iff] at hFirst hSecond
  rw [Point.key_eq, Point.key_eq]
  unfold LeafBefore at hBefore
  dsimp only at hFirst hSecond ⊢
  omega

end Point

theorem nodup_of_pairwise_before
    {l : List Point}
    (hOrder : l.Pairwise Point.Before) :
    l.Nodup :=
  hOrder.imp fun hBefore hEq => by
    subst hEq
    exact hBefore.asymm hBefore

/- Lists of the same points in this order are the same. -/
theorem eq_of_pairwise_before
    {l m : List Point}
    (hFirst : l.Pairwise Point.Before)
    (hSecond : m.Pairwise Point.Before)
    (hSame : ∀ p, p ∈ l ↔ p ∈ m) :
    l = m := by
  refine List.Perm.eq_of_pairwise ?_ hFirst hSecond ?_
  · exact fun _ _ _ _ h h' => absurd h' h.asymm
  · exact
      (List.perm_ext_iff_of_nodup (nodup_of_pairwise_before hFirst)
        (nodup_of_pairwise_before hSecond)).mpr hSame

------------------------------------------------------------
-- Leaf Tiles
------------------------------------------------------------

/- The leaf tiles, by the slots that lead to them. -/
abbrev Leaves (α : Type) := Nat → Nat → Slot (LeafTile α)

namespace Leaves

/- The cells of the leaf tiles. -/
def look (leaves : Leaves α) : Contents CellKey α :=
  fun k => (leaves k.1 k.2.1).bind (Tile.get? · k.2.2)

/- There is a leaf tile for the cell at a point. -/
def Has (leaves : Leaves α) (p : Point) : Prop :=
  leaves p.key.1 p.key.2.1 ≠ none

end Leaves

namespace TopTile

/- The leaf tiles beneath a top tile. -/
def leaves (t : TopTile α) : Leaves α :=
  fun i j => Slot.beneath? (Tile.get? t i) j

theorem look_leaves (t : TopTile α) :
    t.leaves.look = look t := by
  funext ⟨i, j, k⟩
  unfold Leaves.look leaves Slot.beneath?
  dsimp only
  rw [Option.bind_assoc]
  rfl

section Leaf

variable (wanted : σ → Bool) (path : TilePath)
variable {work : LeafTile α → σ → LeafTile α × σ}
variable {t : TopTile α} {s : σ}

/- Work on one leaf tile leaves the others as they are. -/
theorem leaves_inLeaf
    (hGood : Good t)
    (hWork : ∀ u, LeafTile.Good u → LeafTile.Good (work u s).1) :
    (∀ i j,
        (inLeaf wanted path work t s).1.leaves i j =
          if i = path.top ∧ j = path.middle then
            (Slot.inside wanted work
              (t.leaves path.top path.middle) s).1
          else
            t.leaves i j) ∧
      (inLeaf wanted path work t s).2 =
        (Slot.inside wanted work
          (t.leaves path.top path.middle) s).2 := by
  have hMiddle :
      Slot.Good (Tile.Sound Tile.count LeafTile.Good)
        (Tile.get? t path.top) :=
    hGood.content path.top
  have hLeaf :
      Slot.Good LeafTile.Good (t.leaves path.top path.middle) := by
    intro u hLeaf
    rcases Option.bind_eq_some_iff.mp hLeaf with ⟨m, hm, hu⟩
    exact (hMiddle m hm).1.content path.middle u hu
  rcases
    Slot.beneath?_inside wanted
      (fun hIdle => by simp [Slot.inside, hIdle]) hMiddle
      (Slot.good_inside LeafTile.shelf wanted hWork hLeaf) with
    ⟨hSlots, hState⟩
  refine ⟨fun i j => ?_, hState⟩
  have hTop :
      Tile.get? (inLeaf wanted path work t s).1 i =
        if i = path.top then
          (Slot.inside wanted (MiddleTile.inLeaf wanted path work)
            (Tile.get? t path.top) s).1
        else
          Tile.get? t i :=
    Tile.get?_put Tile.count path.top i _ t
  rw [leaves, hTop]
  by_cases hSlot : i = path.top
  · subst hSlot
    rw [if_pos rfl]
    simp only [true_and]
    exact hSlots j
  · rw [if_neg hSlot, if_neg fun h => hSlot h.1]
    rfl

/- Without a leaf tile, nothing is done. -/
theorem leaves_inLeaf_of_idle
    (hGood : Good t)
    (hWork : ∀ u, LeafTile.Good u → LeafTile.Good (work u s).1)
    (hNone : t.leaves path.top path.middle = none)
    (hIdle : wanted s = false) :
    (inLeaf wanted path work t s).1.leaves = t.leaves ∧
      (inLeaf wanted path work t s).2 = s := by
  have hNothing :
      Slot.inside wanted work (t.leaves path.top path.middle) s =
        (none, s) := by
    simp [Slot.inside, hNone, hIdle]
  rcases leaves_inLeaf wanted path hGood hWork with
    ⟨hSlots, hState⟩
  rw [hNothing] at hSlots hState
  refine ⟨?_, hState⟩
  funext i j
  rw [hSlots]
  split
  · rename_i hHere
    rw [hHere.1, hHere.2, hNone]
  · rfl

/- A leaf tile that there is need not be wanted. -/
theorem inLeaf_eq_of_leaf
    (hSome : t.leaves path.top path.middle ≠ none)
    (wanted' : σ → Bool) :
    inLeaf wanted path work t s = inLeaf wanted' path work t s := by
  rcases Option.ne_none_iff_exists'.mp hSome with ⟨u, hLeaf⟩
  rcases Option.bind_eq_some_iff.mp hLeaf with ⟨m, hMiddle, hSlot⟩
  simp only [inLeaf, MiddleTile.inLeaf, Tile.visit, Slot.inside,
    hMiddle, hSlot]

end Leaf

end TopTile

------------------------------------------------------------
-- Walks
------------------------------------------------------------

/-
  The cells of a list were visited in order, and no others.
  They are those of a rectangle that are wanted or have a tile.
  Other tiles are as they were, and if empty cells are not
  wanted there is no tile that was not there before.
-/
structure Walked
    (v : CellVisitor α σ)
    (wanted : Bool)
    (r : Rect)
    (l : List Point)
    (before after : Leaves α × σ) : Prop where
  order : l.Pairwise Point.Before
  mem_iff :
    ∀ p, p ∈ l ↔
      r.contains p = true ∧ (wanted = true ∨ before.1.Has p)
  run :
    (after.1.look, after.2) =
      (Script.each v.visit (TopTile.keys l)).run
        (before.1.look, before.2)
  frame :
    ∀ i j, (∀ p ∈ l, ¬ (p.key.1 = i ∧ p.key.2.1 = j)) →
      after.1 i j = before.1 i j
  fresh :
    wanted = false →
      ∀ i j, before.1 i j = none → after.1 i j = none

variable {v : CellVisitor α σ} {wanted : Bool}

theorem walked_nil
    {r : Rect}
    {leaves : Leaves α}
    (hNone :
      ∀ p, r.contains p = true →
        ¬ (wanted = true ∨ leaves.Has p))
    (s : σ) :
    Walked v wanted r [] (leaves, s) (leaves, s) where
  order := .nil
  mem_iff p := by
    refine iff_of_false (List.not_mem_nil) ?_
    exact fun h => hNone p h.1 h.2
  run := rfl
  frame _ _ _ := rfl
  fresh _ _ _ hNone := hNone

theorem walked_empty
    {r : Rect}
    (hEmpty : r.size.width = 0 ∨ r.size.height = 0)
    (leaves : Leaves α)
    (s : σ) :
    Walked v wanted r [] (leaves, s) (leaves, s) := by
  refine walked_nil (fun p hIn => ?_) s
  rw [Rect.contains_iff] at hIn
  omega

/- Two parts are walked through, one behind the other. -/
theorem Walked.append
    {r r' r'' : Rect}
    {l m : List Point}
    {before between after : Leaves α × σ}
    (hFirst : Walked v wanted r' l before between)
    (hSecond : Walked v wanted r'' m between after)
    (hParts :
      ∀ p, r.contains p = true ↔
        r'.contains p = true ∨ r''.contains p = true)
    (hOn : r.OnSheet)
    (hBefore :
      ∀ p ∈ l, ∀ q, r''.contains q = true → p.LeafBefore q) :
    Walked v wanted r (l ++ m) before after where
  order := by
    refine List.pairwise_append.mpr
      ⟨hFirst.order, hSecond.order, fun p hp q hq => ?_⟩
    exact .inl (hBefore p hp q ((hSecond.mem_iff q).mp hq).1)
  mem_iff p := by
    rw [List.mem_append, hFirst.mem_iff, hSecond.mem_iff, hParts,
      or_and_right]
    refine or_congr_right (and_congr_right fun hIn => ?_)
    -- the tiles ahead are those of before
    have hSame :
        between.1 p.key.1 p.key.2.1 = before.1 p.key.1 p.key.2.1 := by
      refine hFirst.frame _ _ fun q hq => ?_
      have hLeft := ((hFirst.mem_iff q).mp hq).1
      exact
        (hBefore q hq p hIn).key_ne
          (hOn q ((hParts q).mpr (.inl hLeft)))
          (hOn p ((hParts p).mpr (.inr hIn)))
    unfold Leaves.Has
    rw [hSame]
  run := by
    rw [hSecond.run, hFirst.run, TopTile.keys_append]
    unfold Script.each Script.run
    rw [List.map_append, List.foldl_append]
  frame i j hOther := by
    rw [List.forall_mem_append] at hOther
    rw [hSecond.frame i j hOther.2, hFirst.frame i j hOther.1]
  fresh hIdle i j hNone :=
    hSecond.fresh hIdle i j (hFirst.fresh hIdle i j hNone)

/- On the sheet, visits by key are visits by point. -/
theorem Script.run_onSheet
    (f : SlotVisit α σ)
    {l : List Point}
    (hOn : ∀ p ∈ l, maxSize.contains p = true)
    (cells : Contents CellKey α)
    (s : σ) :
    (Script.each f l).run (cells.onSheet, s) =
      (((Script.each f (TopTile.keys l)).run (cells, s)).1.onSheet,
        ((Script.each f (TopTile.keys l)).run (cells, s)).2) := by
  induction l generalizing cells s with
  | nil => rfl
  | cons p l ih =>
      rw [List.forall_mem_cons] at hOn
      have hCell : cells.onSheet p = cells p.key := if_pos hOn.1
      simp only [TopTile.keys, List.map_cons, Script.each_cons,
        Script.run_cons, Script.visit, hCell]
      rw [← Contents.onSheet_update cells hOn.1]
      exact ih hOn.2 _ _

namespace TopTile

------------------------------------------------------------
-- Chunks
------------------------------------------------------------

theorem leafGood_visitCells
    (v : CellVisitor α σ)
    (r : Rect)
    (s : σ)
    (u : LeafTile α)
    (hGood : LeafTile.Good u) :
    LeafTile.Good (LeafTile.visitCells v r u s).1 :=
  (LeafTile.performs_visitCells v r s u hGood).1

/- The cells of a chunk in a leaf tile are all visited. -/
theorem walked_leaf
    (hWanted : ∀ s, v.wanted s = wanted)
    {t : TopTile α}
    (hGood : Good t)
    (s : σ)
    {p : Point}
    {size : Size}
    (hWidth : p.x % 256 + size.width ≤ 256)
    (hHeight : p.y % 2048 + size.height ≤ 2048)
    (hSome : 0 < size.width ∧ 0 < size.height)
    (hHere : wanted = true ∨ t.leaves.Has p)
    {after : TopTile α × σ}
    (hAfter :
      inLeaf v.wanted (TilePath.of p)
        (LeafTile.visitCells v ⟨p.within leafSize, size⟩) t s =
        after) :
    Walked v wanted ⟨p, size⟩ (Rect.points ⟨p, size⟩) (t.leaves, s)
      (after.1.leaves, after.2) := by
  subst hAfter
  -- a visitor that wants all cells does the same here
  let eager : CellVisitor α σ := ⟨fun _ => true, v.visit⟩
  have hLazy : eager.Lazy id v.visit :=
    ⟨mirrors_id _, fun _ h => by cases h⟩
  have hEager :
      inLeaf v.wanted (TilePath.of p)
          (LeafTile.visitCells v ⟨p.within leafSize, size⟩) t s =
        inLeaf eager.wanted (TilePath.of p)
          (LeafTile.visitCells eager ⟨p.within leafSize, size⟩) t
          s := by
    rcases hHere with hAll | hLeaf
    · have hSame : v.wanted = eager.wanted :=
        funext fun s => (hWanted s).trans hAll
      rw [hSame]
      rfl
    · exact inLeaf_eq_of_leaf v.wanted _ hLeaf _
  have hKept := leafGood_visitCells v ⟨p.within leafSize, size⟩ s
  have hLeaves :=
    (leaves_inLeaf v.wanted (TilePath.of p) hGood hKept).1
  have hPerforms :=
    performs_inLeaf eager.wanted
      (LeafTile.performs_visitCells eager ⟨p.within leafSize, size⟩
        s)
      (fun hIdle => by cases hIdle) (TilePath.of p) t hGood
  rw [Plan.inside_each, Plan.inside_each,
    ← keys_of_leaf p size hWidth hHeight, ← hEager] at hPerforms
  have hSameLeaf :
      ∀ q, Rect.contains ⟨p, size⟩ q = true → q.SameLeaf p := by
    intro q hIn
    rw [Rect.contains_iff] at hIn
    unfold Point.SameLeaf
    dsimp only at hIn
    omega
  have hFirst : p ∈ Rect.points ⟨p, size⟩ := by
    rw [Rect.mem_points, Rect.contains_iff]
    dsimp only
    omega
  refine
    { order := ?_
      mem_iff := fun q => ?_
      run := by
        rw [look_leaves, look_leaves]
        exact hPerforms.2.eq_run hLazy
      frame := fun i j hOther => ?_
      fresh := fun hIdle i j hNone => ?_ }
  · refine (Rect.pairwise_points _).imp_of_mem ?_
    intro q q' hq hq' hOrder
    have hLeft := hSameLeaf q (Rect.mem_points.mp hq)
    have hRight := hSameLeaf q' (Rect.mem_points.mp hq')
    unfold Point.SameLeaf at hLeft hRight
    unfold Point.Before Point.SameLeaf
    omega
  · rw [Rect.mem_points, and_iff_left_of_imp]
    intro hIn
    have hKeys := (hSameLeaf q hIn).key_eq
    unfold Leaves.Has
    rw [hKeys.1, hKeys.2]
    exact hHere
  · dsimp only
    rw [hLeaves, if_neg]
    exact fun hPath => hOther p hFirst ⟨hPath.1.symm, hPath.2.symm⟩
  · dsimp only at hNone ⊢
    rw [hLeaves, if_neg]
    · exact hNone
    · rintro ⟨rfl, rfl⟩
      rcases hHere with hAll | hLeaf
      · rw [hIdle] at hAll
        cases hAll
      · exact hLeaf hNone

/-
  If nothing is wanted and the first cell of a chunk has no
  leaf tile, then no cell of the chunk has one.
-/
theorem not_has_of_chunk
    {t : TopTile α}
    {p : Point}
    {limit c : Size}
    (hChunk : chunk false t p limit = c)
    (hNone : t.leaves p.key.1 p.key.2.1 = none)
    {q : Point}
    (hIn : Rect.contains ⟨p, c⟩ q = true) :
    ¬ t.leaves.Has q := by
  rw [Rect.contains_iff] at hIn
  dsimp only at hIn
  unfold Leaves.Has
  rw [ne_eq, not_not]
  by_cases hReal : (Tile.get? t (TilePath.of p).top).isSome = true
  · -- the chunk lies in a leaf tile that is missing
    rw [chunk, if_pos (by rw [hReal, Bool.or_true])] at hChunk
    subst hChunk
    simp only [Size.inf, Point.toBlockEnd, leafSize_eq] at hIn
    have hSameLeaf : q.SameLeaf p := by
      unfold Point.SameLeaf
      omega
    rw [hSameLeaf.key_eq.1, hSameLeaf.key_eq.2]
    exact hNone
  · -- the chunk lies in a middle tile that is missing
    rw [chunk, if_neg (by simp [hReal])] at hChunk
    subst hChunk
    simp only [Size.inf, Point.toBlockEnd, middleSize_eq] at hIn
    have hTop : q.key.1 = (TilePath.of p).top := by
      change q.key.1 = p.key.1
      rw [Point.key_eq, Point.key_eq]
      dsimp only
      omega
    rw [Bool.not_eq_true, Option.isSome_eq_false_iff,
      Option.isNone_iff_eq_none] at hReal
    rw [leaves, hTop, hReal]
    rfl

/-
  The first chunk of a band is walked through, as high as the
  band is in the end. The cells that are visited lie in one
  leaf tile, which the chunk does not end before.
-/
theorem walked_chunk
    (hWanted : ∀ s, v.wanted s = wanted)
    {t : TopTile α}
    {s : σ}
    (hGood : Good t)
    {p : Point}
    {limit c : Size}
    (hChunk : chunk (v.wanted s) t p limit = c)
    {after : TopTile α × σ}
    (hAfter :
      inLeaf v.wanted (TilePath.of p)
        (LeafTile.visitCells v ⟨p.within leafSize, c⟩) t s = after)
    (hSome : 0 < limit.width ∧ 0 < limit.height)
    {height : Nat}
    (hLow : min limit.height (2048 - p.y % 2048) ≤ height)
    (hHigh : height ≤ c.height) :
    Good after.1 ∧
      ∃ l,
        Walked v wanted ⟨p, ⟨c.width, height⟩⟩ l (t.leaves, s)
            (after.1.leaves, after.2) ∧
          ∀ q ∈ l, q.SameLeaf p ∧ p.y % 2048 + height ≤ 2048 := by
  refine ⟨?_, ?_⟩
  · rw [← hAfter]
    exact
      (performs_inLeaf v.wanted
        (LeafTile.performs_visitCells v _ s)
        (fun hIdle =>
          Plan.follows_each_of_idle (fun _ _ => rfl) hIdle)
        (TilePath.of p) t hGood).1
  by_cases hHere : wanted = true ∨ t.leaves.Has p
  · -- the chunk ends with its leaf tile
    have hReal :
        (v.wanted s ||
          (Tile.get? t (TilePath.of p).top).isSome) = true := by
      rw [hWanted, Bool.or_eq_true]
      refine hHere.imp_right fun hLeaf => ?_
      rcases Option.ne_none_iff_exists'.mp hLeaf with ⟨u, hu⟩
      rcases Option.bind_eq_some_iff.mp hu with ⟨m, hm, -⟩
      exact Option.isSome_iff_exists.mpr ⟨m, hm⟩
    rw [chunk, if_pos hReal] at hChunk
    subst hChunk
    simp only [Size.inf, Point.toBlockEnd, leafSize_eq]
      at hHigh hAfter ⊢
    have hHeight : height = min limit.height (2048 - p.y % 2048) :=
      le_antisymm hHigh hLow
    rw [hHeight]
    refine
      ⟨_, walked_leaf hWanted hGood s (by dsimp only; omega)
        (by dsimp only; omega) (by dsimp only; omega) hHere hAfter,
        fun q hq => ?_⟩
    rw [Rect.mem_points, Rect.contains_iff] at hq
    unfold Point.SameLeaf
    dsimp only at hq
    omega
  · -- there is no leaf tile, and nothing is wanted
    have hIdle : v.wanted s = false := by
      rw [hWanted, ← Bool.not_eq_true]
      exact fun h => hHere (.inl h)
    have hNone : t.leaves p.key.1 p.key.2.1 = none := by
      by_contra hLeaf
      exact hHere (.inr hLeaf)
    rcases
      leaves_inLeaf_of_idle v.wanted (TilePath.of p) hGood
        (leafGood_visitCells v _ s) hNone hIdle with
      ⟨hSame, hState⟩
    rw [← hAfter, hSame, hState]
    refine ⟨[], walked_nil (fun q hIn => ?_) s, by simp⟩
    rintro (hAll | hOther)
    · exact hHere (.inl hAll)
    · rw [hIdle] at hChunk
      refine not_has_of_chunk hChunk hNone ?_ hOther
      rw [Rect.contains_iff] at hIn ⊢
      dsimp only at hIn ⊢
      omega

------------------------------------------------------------
-- Bands
------------------------------------------------------------

/-
  A band is walked through as far down as all of its chunks
  reach, which is the end of a row of leaf tiles unless it is
  the end of the rectangle.
-/
theorem walked_visitBand
    (hWanted : ∀ s, v.wanted s = wanted)
    {stop y : Nat} :
    ∀ (fuel x height : Nat) (t : TopTile α) (s : σ),
      Good t → stop - x ≤ fuel → 0 < height →
      Rect.OnSheet ⟨⟨x, y⟩, ⟨stop - x, height⟩⟩ →
        ∃ l height' after,
          visitBand v stop y fuel x height (t, s) =
              (height', after) ∧
            0 < height' ∧
            (height' = height ∨
              height' < height ∧ (y + height') % 2048 = 0) ∧
            min height (2048 - y % 2048) ≤ height' ∧
            Good after.1 ∧
            Walked v wanted ⟨⟨x, y⟩, ⟨stop - x, height'⟩⟩ l
              (t.leaves, s) (after.1.leaves, after.2) := by
  intro fuel
  induction fuel with
  | zero =>
      intro x height t s hGood hFuel hHeight _
      have hWidth : stop - x = 0 := Nat.le_zero.mp hFuel
      exact
        ⟨[], height, (t, s), rfl, hHeight, .inl rfl,
          Nat.min_le_left _ _, hGood, walked_empty (.inl hWidth) _ s⟩
  | succ fuel ih =>
      intro x height t s hGood hFuel hHeight hOn
      by_cases hStop : stop ≤ x
      · have hWidth : stop - x = 0 := Nat.sub_eq_zero_of_le hStop
        exact
          ⟨[], height, (t, s), by rw [visitBand, if_pos hStop],
            hHeight, .inl rfl, Nat.min_le_left _ _, hGood,
            walked_empty (.inl hWidth) _ s⟩
      · rw [visitBand, if_neg hStop]
        dsimp only
        generalize hChunk :
          chunk (v.wanted s) t ⟨x, y⟩ ⟨stop - x, height⟩ = c
        generalize hBetween :
          inLeaf v.wanted (TilePath.of ⟨x, y⟩)
            (LeafTile.visitCells v
              ⟨Point.within ⟨x, y⟩ leafSize, c⟩) t s = between
        have hBounds := chunk_bounds _ _ _ _ hChunk
        dsimp only at hBounds
        have hFirst :=
          fun height' (hLow : min height (2048 - y % 2048) ≤ height')
              (hHigh : height' ≤ c.height) =>
            walked_chunk hWanted hGood hChunk hBetween
              ⟨by dsimp only; omega, hHeight⟩ hLow hHigh
        rcases ih (x + c.width) (min height c.height) between.1
            between.2 (hFirst c.height (by omega) le_rfl).1
            (by omega) (by omega)
            (hOn.mono (by dsimp only; omega)) with
          ⟨m, height', after, hRest, hPositive, hEnd, hLow, hGood',
            hSecond⟩
        rcases (hFirst height' (by omega) (by omega)).2 with
          ⟨l, hLeft, hLeaf⟩
        refine
          ⟨l ++ m, height', after, hRest, hPositive, by omega,
            by omega, hGood',
            hLeft.append hSecond (fun p => ?_)
              (hOn.mono (by dsimp only; omega)) fun p hp q hq => ?_⟩
        · simp only [Rect.contains_iff]
          omega
        · have hSame := hLeaf p hp
          unfold Point.SameLeaf at hSame
          rw [Rect.contains_iff] at hq
          unfold Point.LeafBefore
          dsimp only at hSame hq
          omega

/- A rectangle is walked through, band by band. -/
theorem walked_visitBands
    (hWanted : ∀ s, v.wanted s = wanted)
    (left : Nat)
    (stop : Point) :
    ∀ (fuel y : Nat) (t : TopTile α) (s : σ),
      Good t → stop.y - y ≤ fuel →
      Rect.OnSheet ⟨⟨left, y⟩, ⟨stop.x - left, stop.y - y⟩⟩ →
        Good (visitBands v left stop fuel y (t, s)).1 ∧
          ∃ l,
            Walked v wanted
              ⟨⟨left, y⟩, ⟨stop.x - left, stop.y - y⟩⟩ l (t.leaves, s)
              ((visitBands v left stop fuel y (t, s)).1.leaves,
                (visitBands v left stop fuel y (t, s)).2) := by
  intro fuel
  induction fuel with
  | zero =>
      intro y t s hGood hFuel _
      have hHeight : stop.y - y = 0 := Nat.le_zero.mp hFuel
      exact ⟨hGood, [], walked_empty (.inr hHeight) _ s⟩
  | succ fuel ih =>
      intro y t s hGood hFuel hOn
      by_cases hStop : stop.y ≤ y
      · have hHeight : stop.y - y = 0 := Nat.sub_eq_zero_of_le hStop
        rw [visitBands, if_pos hStop]
        exact ⟨hGood, [], walked_empty (.inr hHeight) _ s⟩
      · rcases walked_visitBand hWanted (stop.x - left) left
            (stop.y - y) t s hGood le_rfl (by omega) hOn with
          ⟨l, height, between, hBand, hPositive, hEnd, -, hGood',
            hFirst⟩
        rw [visitBands, if_neg hStop, hBand]
        rcases ih (y + height) between.1 between.2 hGood' (by omega)
            (hOn.mono (by dsimp only; omega)) with
          ⟨hGood'', m, hSecond⟩
        refine
          ⟨hGood'', l ++ m, hFirst.append hSecond (fun p => ?_) hOn
            fun p hp q hq => ?_⟩
        · simp only [Rect.contains_iff]
          omega
        · have hIn := ((hFirst.mem_iff p).mp hp).1
          rw [Rect.contains_iff] at hIn hq
          unfold Point.LeafBefore
          dsimp only at hIn hq
          omega

------------------------------------------------------------
-- Loops
------------------------------------------------------------

/-
  The loop through a band, without a bound on its rounds. It
  has ended if there is such a run of it.
-/
inductive BandLoop
    (v : CellVisitor α σ)
    (stop y : Nat) :
    Nat → Nat → TopTile α × σ → Nat × TopTile α × σ → Prop
  | done
      {x height : Nat}
      {ts : TopTile α × σ}
      (hStop : stop ≤ x) :
      BandLoop v stop y x height ts (height, ts)
  | step
      {x height : Nat}
      {t : TopTile α}
      {s : σ}
      {c : Size}
      {after : Nat × TopTile α × σ}
      (hMore : x < stop)
      (hChunk :
        chunk (v.wanted s) t ⟨x, y⟩ ⟨stop - x, height⟩ = c)
      (hRest :
        BandLoop v stop y (x + c.width) (min height c.height)
          (inLeaf v.wanted (TilePath.of ⟨x, y⟩)
            (LeafTile.visitCells v
              ⟨Point.within ⟨x, y⟩ leafSize, c⟩) t s)
          after) :
      BandLoop v stop y x height (t, s) after

/- The loop through a rectangle, band by band. -/
inductive Loop
    (v : CellVisitor α σ)
    (left : Nat)
    (stop : Point) :
    Nat → TopTile α × σ → TopTile α × σ → Prop
  | done
      {y : Nat}
      {ts : TopTile α × σ}
      (hStop : stop.y ≤ y) :
      Loop v left stop y ts ts
  | step
      {y height : Nat}
      {ts between after : TopTile α × σ}
      (hMore : y < stop.y)
      (hBand :
        BandLoop v stop.x y left (stop.y - y) ts (height, between))
      (hRest : Loop v left stop (y + height) between after) :
      Loop v left stop y ts after

/- Each chunk is one column wide and one row high at least. -/
theorem bandLoop_visitBand
    (v : CellVisitor α σ)
    (stop y : Nat) :
    ∀ (fuel x height : Nat) (ts : TopTile α × σ),
      stop - x ≤ fuel → 0 < height →
        0 < (visitBand v stop y fuel x height ts).1 ∧
          BandLoop v stop y x height ts
            (visitBand v stop y fuel x height ts) := by
  intro fuel
  induction fuel with
  | zero =>
      intro x height ts hFuel hHeight
      exact ⟨hHeight, .done (by omega)⟩
  | succ fuel ih =>
      intro x height ts hFuel hHeight
      by_cases hStop : stop ≤ x
      · rw [visitBand, if_pos hStop]
        exact ⟨hHeight, .done hStop⟩
      · rw [visitBand, if_neg hStop]
        dsimp only
        generalize hChunk :
          chunk (v.wanted ts.2) ts.1 ⟨x, y⟩ ⟨stop - x, height⟩ = c
        have hBounds := chunk_bounds _ _ _ _ hChunk
        dsimp only at hBounds
        rcases ih (x + c.width) (min height c.height) _ (by omega)
            (by omega) with
          ⟨hPositive, hRest⟩
        exact ⟨hPositive, .step (by omega) hChunk hRest⟩

/- The loop ends, and with what `visitBands` gives. -/
theorem loop_visitBands
    (v : CellVisitor α σ)
    (left : Nat)
    (stop : Point) :
    ∀ (fuel y : Nat) (ts : TopTile α × σ),
      stop.y - y ≤ fuel →
        Loop v left stop y ts (visitBands v left stop fuel y ts) := by
  intro fuel
  induction fuel with
  | zero =>
      intro y ts hFuel
      exact .done (by omega)
  | succ fuel ih =>
      intro y ts hFuel
      by_cases hStop : stop.y ≤ y
      · rw [visitBands, if_pos hStop]
        exact .done hStop
      · rw [visitBands, if_neg hStop]
        dsimp only
        rcases bandLoop_visitBand v stop.x y (stop.x - left) left
            (stop.y - y) ts le_rfl (by omega) with
          ⟨hPositive, hBand⟩
        exact .step (by omega) hBand (ih _ _ (by omega))

end TopTile

------------------------------------------------------------
-- Grids
------------------------------------------------------------

namespace Grid

variable {g : Grid α}

/- The leaf tiles of a grid. -/
def leaves (g : Grid α) : Leaves α :=
  fun i j => Slot.beneath? (Slot.beneath? g.top i) j

theorem leaves_of_top {t : TopTile α} (hTop : g.top = some t) :
    g.leaves = t.leaves := by
  unfold leaves
  rw [hTop]
  rfl

theorem leaves_of_none (hTop : g.top = none) :
    g.leaves = fun _ _ => none := by
  unfold leaves
  rw [hTop]
  rfl

theorem look_leaves (g : Grid α) : g.leaves.look = g.look := by
  cases hTop : g.top with
  | none =>
      funext k
      rw [Leaves.look, leaves_of_none hTop, look, hTop]
      rfl
  | some t =>
      rw [leaves_of_top hTop, TopTile.look_leaves, look, hTop]
      rfl

/- No tile on any level is there that was not there before. -/
structure NoNewTile (before after : Grid α) : Prop where
  top : before.top = none → after.top = none
  middle :
    ∀ i, Slot.beneath? before.top i = none →
      Slot.beneath? after.top i = none
  leaf : ∀ i j, before.leaves i j = none → after.leaves i j = none

/- A tile that is there has a leaf tile beneath it. -/
theorem noNewTile_of_leaves
    {before after : Grid α}
    (hSound : after.Sound)
    (hLeaf :
      ∀ i j, before.leaves i j = none → after.leaves i j = none) :
    NoNewTile before after := by
  have hMiddle :
      ∀ i, Slot.beneath? before.top i = none →
        Slot.beneath? after.top i = none := by
    intro i hNone
    by_contra hSome
    rcases Option.ne_none_iff_exists'.mp hSome with ⟨m, hm⟩
    rcases Option.bind_eq_some_iff.mp hm with ⟨t, hTop, hSlot⟩
    rcases (hSound t hTop).1.content i m hSlot with ⟨hGood, hCount⟩
    refine hCount (hGood.count_eq_zero_iff.mpr fun j => ?_)
    have hBefore : before.leaves i j = none := by
      rw [leaves, hNone]
      rfl
    have hAfter := hLeaf i j hBefore
    rw [leaves, hm] at hAfter
    exact hAfter
  refine ⟨fun hNone => ?_, hMiddle, hLeaf⟩
  by_contra hSome
  rcases Option.ne_none_iff_exists'.mp hSome with ⟨t, hTop⟩
  rcases hSound t hTop with ⟨hGood, hCount⟩
  refine hCount (hGood.count_eq_zero_iff.mpr fun i => ?_)
  have hAfter := hMiddle i (by rw [hNone]; rfl)
  rw [hTop] at hAfter
  exact hAfter

/- A walk through the tile tree, if there is one or it is made. -/
theorem walked_inTop
    {v : CellVisitor α σ}
    {wanted : Bool}
    (hWanted : ∀ s, v.wanted s = wanted)
    (hSound : g.Sound)
    {r : Rect}
    {work : TopTile α → σ → TopTile α × σ}
    {s : σ}
    (hWork :
      ∀ t, TopTile.Good t →
        TopTile.Good (work t s).1 ∧
          ∃ l,
            Walked v wanted r l (t.leaves, s)
              ((work t s).1.leaves, (work t s).2)) :
    ∃ l,
      Walked v wanted r l (g.leaves, s)
        ((g.inTop v.wanted work s).1.leaves,
          (g.inTop v.wanted work s).2) := by
  have hDone :
      ∀ t : TopTile α, TopTile.Good t →
        Grid.leaves
            ⟨if t.count = 0 then none else some t, g.size⟩ =
          t.leaves := by
    intro t hGood
    funext i j
    rw [leaves, Slot.beneath?_of_done hGood]
    rfl
  cases hTop : g.top with
  | some t =>
      rcases hWork t (hSound t hTop).1 with ⟨hGood, l, hWalked⟩
      refine ⟨l, ?_⟩
      rw [← leaves_of_top hTop, ← hDone _ hGood] at hWalked
      rw [inTop, hTop]
      exact hWalked
  | none =>
      cases hAll : v.wanted s with
      | true =>
          rcases hWork .empty TopTile.shelf.good_empty with
            ⟨hGood, l, hWalked⟩
          have hEmpty :
              TopTile.leaves (.empty : TopTile α) = g.leaves := by
            rw [leaves_of_none hTop]
            funext i j
            unfold TopTile.leaves
            rw [Tile.get?_empty]
            rfl
          refine ⟨l, ?_⟩
          rw [hEmpty, ← hDone _ hGood] at hWalked
          rw [inTop, hTop]
          simp only [Slot.inside, hAll, if_true]
          exact hWalked
      | false =>
          have hNothing :
              Slot.inside v.wanted work g.top s = (none, s) := by
            simp [Slot.inside, hTop, hAll]
          have hGone : Grid.leaves ⟨none, g.size⟩ = g.leaves :=
            (leaves_of_none hTop).symm
          rw [inTop, hNothing]
          dsimp only
          rw [hGone]
          refine ⟨[], walked_nil (fun p _ => ?_) s⟩
          rw [← hWanted s, hAll, leaves_of_none hTop]
          simp [Leaves.Has]

/- A rectangle of a grid is walked through. -/
theorem walked_visitCells
    {v : CellVisitor α σ}
    {wanted : Bool}
    (hWanted : ∀ s, v.wanted s = wanted)
    (hSound : g.Sound)
    {r : Rect}
    (hOn : r.OnSheet)
    (s : σ) :
    ∃ l,
      Walked v wanted r l (g.leaves, s)
        ((g.visitCells v r s).1.leaves, (g.visitCells v r s).2) := by
  by_cases hEmpty : r.isEmpty = true
  · rw [visitCells, if_pos hEmpty]
    simp only [Rect.isEmpty, Size.isEmpty, Bool.or_eq_true,
      beq_iff_eq] at hEmpty
    exact ⟨[], walked_empty hEmpty _ s⟩
  · rw [visitCells, if_neg hEmpty]
    refine walked_inTop hWanted hSound fun t hGood => ?_
    have hEnd :
        r.endPoint =
          ⟨r.origin.x + r.size.width,
            r.origin.y + r.size.height⟩ := rfl
    have hWalked :=
      TopTile.walked_visitBands hWanted r.origin.x r.endPoint
        r.size.height r.origin.y t s hGood
        (by rw [hEnd]; dsimp only; omega)
        (by simpa [hEnd] using hOn)
    rw [hEnd] at hWalked ⊢
    simp only [Nat.add_sub_cancel_left] at hWalked
    exact hWalked

/-
  A list of cells was visited, one by one, and nothing else
  was touched: neither other cells nor leaf tiles without a
  cell of the list.
-/
structure Visits
    (v : CellVisitor α σ)
    (r : Rect)
    (l : List Point)
    (before after : Grid α × σ) : Prop where
  slots :
    (after.1.look, after.2) =
      (Script.each v.visit (TopTile.keys l)).run
        (before.1.look, before.2)
  cells :
    (after.1.get?, after.2) =
      (Script.each v.visit l).run (before.1.get?, before.2)
  outside : ∀ p, p ∉ l → after.1.get? p = before.1.get? p
  tiles :
    ∀ i j, (∀ p ∈ l, ¬ (p.key.1 = i ∧ p.key.2.1 = j)) →
      after.1.leaves i j = before.1.leaves i j
  sound : after.1.Sound
  size : after.1.size = before.1.size.sup r.endPoint.toSize

theorem visits_of_walked
    {v : CellVisitor α σ}
    {wanted : Bool}
    (hSound : g.Sound)
    {r : Rect}
    (hOn : r.OnSheet)
    {s : σ}
    {l : List Point}
    (hWalked :
      Walked v wanted r l (g.leaves, s)
        ((g.visitCells v r s).1.leaves, (g.visitCells v r s).2)) :
    Visits v r l (g, s) (g.modifyCells v r s) := by
  have hSlots := hWalked.run
  rw [look_leaves, look_leaves] at hSlots
  have hRun :
      ((g.modifyCells v r s).1.get?, (g.modifyCells v r s).2) =
        (Script.each v.visit l).run (g.get?, s) := by
    rw [get?_eq_onSheet g, Script.run_onSheet v.visit fun p hp =>
      hOn p ((hWalked.mem_iff p).mp hp).1]
    change
      ((g.visitCells v r s).1.look.onSheet, (g.visitCells v r s).2) = _
    rw [← hSlots]
  exact
    { slots := hSlots
      cells := hRun
      outside := fun p hOut =>
        (congrFun (congrArg Prod.fst hRun) p).trans
          (Script.run_each_of_not_mem _ hOut _ _)
      tiles := hWalked.frame
      sound := (follows_look_visitCells v hSound r s).1
      size := size_modifyCells v r g s }

/-
  A visitor that always wants empty cells visits each cell of
  a rectangle once. One that never does visits those that have
  a leaf tile when it starts, and makes no tile. In both cases
  the cells are the same whatever the visitor does to them, and
  the loop over them ends.
-/
theorem visits_modifyCells
    (hSound : g.Sound)
    {r : Rect}
    (hLimits : r.InLimits)
    (wanted : Bool) :
    ∃ l : List Point,
      l.Nodup ∧
        (∀ p, p ∈ l ↔
          r.contains p = true ∧ (wanted = true ∨ g.leaves.Has p)) ∧
        ∀ {σ : Type} (v : CellVisitor α σ),
          (∀ s, v.wanted s = wanted) →
            ∀ s,
              Visits v r l (g, s) (g.modifyCells v r s) ∧
                (wanted = false →
                  NoNewTile g (g.modifyCells v r s).1) ∧
                ∀ t,
                  TopTile.Loop v r.origin.x r.endPoint r.origin.y
                    (t, s)
                    (TopTile.visitBands v r.origin.x r.endPoint
                      r.size.height r.origin.y (t, s)) := by
  have hOn := onSheet_of_inLimits hLimits
  -- a visitor that does nothing shows which cells they are
  let idler : CellVisitor α Unit :=
    ⟨fun _ => wanted, fun slot s => (slot, s)⟩
  rcases walked_visitCells (v := idler) (fun _ => rfl) hSound hOn ()
    with ⟨l, hFirst⟩
  refine
    ⟨l, nodup_of_pairwise_before hFirst.order, hFirst.mem_iff,
      fun v hWanted s => ?_⟩
  rcases walked_visitCells hWanted hSound hOn s with ⟨m, hWalked⟩
  have hSame : m = l :=
    eq_of_pairwise_before hWalked.order hFirst.order fun p =>
      (hWalked.mem_iff p).trans (hFirst.mem_iff p).symm
  subst hSame
  have hVisits := visits_of_walked hSound hOn hWalked
  refine ⟨hVisits, fun hIdle => ?_, fun t => ?_⟩
  · exact noNewTile_of_leaves hVisits.sound (hWalked.fresh hIdle)
  · refine TopTile.loop_visitBands v _ _ _ _ _ ?_
    simp only [Rect.endPoint, Point.add]
    omega

/-
  One cell of a rectangle is there, and is erased. No other is
  visited, and the rectangle is walked through to its end.
-/
theorem visits_modifyCells_erase :
    ∃ g : Grid Nat, g.get? ⟨300, 5⟩ = some 7 ∧
      ∃ l : List Point, l.Nodup ∧
        (∀ p, p ∈ l ↔
          (Rect.of 0 0 600 10).contains p = true ∧
            (false = true ∨ g.leaves.Has p)) ∧
        Visits (⟨fun _ => false, fun _ n => (none, n + 1)⟩ :
            CellVisitor Nat Nat)
          (.of 0 0 600 10) l (g, 0)
          (g.modifyCells ⟨fun _ => false, fun _ n => (none, n + 1)⟩
            (.of 0 0 600 10) 0) := by
  let writer : CellVisitor Nat Unit :=
    ⟨fun _ => true, fun _ _ => (some 7, ())⟩
  have hReach :
      Reachable
        ((empty : Grid Nat).modifyCell writer ⟨300, 5⟩ ()).1 :=
    .step .empty (.modifyCell writer ⟨300, 5⟩ () (by decide))
  rcases
    visits_modifyCells (tidy_of_reachable hReach).sound
      (r := .of 0 0 600 10) ⟨by decide, by decide⟩ false with
    ⟨l, hNodup, hMem, hVisits⟩
  exact
    ⟨_, by decide +kernel, l, hNodup, hMem,
      (hVisits _ (fun _ => rfl) 0).1⟩

end Grid

end Spreadsheet
