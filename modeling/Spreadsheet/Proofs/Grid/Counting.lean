import Mathlib.Data.Finset.Preimage
import Spreadsheet.Proofs.Grid.Contents

/-
  The counts of tiles are numbers of cells.

  A tile whose counts are exact counts the cells beneath it,
  level by level, and so the count of a grid is the number of
  its cells.

  Main declarations:
    * `Contents.HasCount`
    * `Tile.Sound.hasCount`
    * `Grid.Sound.hasCount`
    * `Grid.Exact.hasCount`
-/

namespace Spreadsheet

open scoped BigOperators

variable {α β κ : Type}

------------------------------------------------------------
-- Numbers Of Cells
------------------------------------------------------------

/- So many keys, and no others, have a content. -/
def Contents.HasCount (cells : Contents κ α) (n : Nat) : Prop :=
  ∃ keys : Finset κ, (∀ k, k ∈ keys ↔ cells k ≠ none) ∧
    keys.card = n

theorem Contents.hasCount_blank :
    (Contents.blank : Contents κ α).HasCount 0 :=
  ⟨∅, by simp [blank], rfl⟩

namespace Contents

variable {κ' : Type} {cells : Contents κ α} {m n : Nat}

theorem HasCount.unique
    (hFirst : cells.HasCount m)
    (hSecond : cells.HasCount n) :
    m = n := by
  rcases hFirst with ⟨first, hFirst, rfl⟩
  rcases hSecond with ⟨second, hSecond, rfl⟩
  congr 1
  ext k
  rw [hFirst, hSecond]

/- The same contents at other keys, none of them lost. -/
theorem HasCount.comap
    (hCount : cells.HasCount n)
    {f : κ' → κ}
    (hInjective : Function.Injective f)
    (hRange : ∀ k, cells k ≠ none → ∃ j, f j = k) :
    Contents.HasCount (fun j => cells (f j)) n := by
  rcases hCount with ⟨keys, hKeys, hCard⟩
  refine
    ⟨keys.preimage f (hInjective.injOn), fun j => ?_, ?_⟩
  · rw [Finset.mem_preimage, hKeys]
  · rw [← hCard]
    refine
      Finset.card_nbij f (fun j hIn => Finset.mem_preimage.mp hIn)
        hInjective.injOn fun k hIn => ?_
    rcases hRange k ((hKeys k).mp hIn) with ⟨j, rfl⟩
    exact ⟨j, Finset.mem_preimage.mpr hIn, rfl⟩

/- The contents of some keys and of the others. -/
theorem HasCount.split
    (hCount : cells.HasCount n)
    (here : κ → Prop)
    [DecidablePred here] :
    ∃ i j,
      Contents.HasCount (fun k => if here k then cells k else none)
          i ∧
        Contents.HasCount
          (fun k => if here k then none else cells k) j ∧
        i + j = n := by
  rcases hCount with ⟨keys, hKeys, hCard⟩
  refine
    ⟨_, _, ⟨keys.filter here, fun k => ?_, rfl⟩,
      ⟨keys.filter fun k => ¬ here k, fun k => ?_, rfl⟩, ?_⟩
  · rw [Finset.mem_filter, hKeys]
    by_cases hHere : here k <;> simp [hHere]
  · rw [Finset.mem_filter, hKeys]
    by_cases hHere : here k <;> simp [hHere]
  · rw [Finset.card_filter_add_card_filter_not, hCard]

end Contents

namespace Tile

theorem mem_support_iff {t : Tile β} {i : Nat} :
    i ∈ t.support ↔ t.get? i ≠ none := by
  rw [mem_support, Option.isSome_iff_ne_none]

/- A leaf tile counts its cells. -/
theorem Sound.hasCount_cells
    {t : Tile α}
    {good : α → Prop}
    (hSound : t.Sound cellWeight good) :
    Contents.HasCount t.get? t.count := by
  refine ⟨t.support, fun _ => mem_support_iff, ?_⟩
  rw [hSound.count_eq, weightSum, Finset.card_eq_sum_ones]
  refine Finset.sum_congr rfl fun i hIn => ?_
  rw [mem_support] at hIn
  rcases Option.isSome_iff_exists.mp hIn with ⟨c, hCell⟩
  rw [hCell]
  rfl

/- A tile counts the cells beneath it if those in it do. -/
theorem Sound.hasCount
    [DecidableEq κ]
    {good : Tile β → Prop}
    {look : Tile β → Contents κ α}
    {t : Tile (Tile β)}
    (hSound : t.Sound Tile.count good)
    (hUnder : ∀ b, good b → (look b).HasCount b.count) :
    (Tile.look look t).HasCount t.count := by
  have hSlot :
      ∀ i, ∃ keys : Finset κ,
        (∀ k, k ∈ keys ↔ Tile.look look t (i, k) ≠ none) ∧
          keys.card = (t.get? i).weight Tile.count := by
    intro i
    cases hTile : t.get? i with
    | none => exact ⟨∅, by simp [Tile.look, hTile], rfl⟩
    | some b =>
        rcases hUnder b (hSound.content i b hTile).1 with
          ⟨keys, hKeys, hCard⟩
        exact ⟨keys, by simp [Tile.look, hTile, hKeys], hCard⟩
  choose keys hKeys hCard using hSlot
  refine
    ⟨t.support.biUnion fun i => (keys i).image fun k => (i, k), ?_,
      ?_⟩
  · rintro ⟨i, k⟩
    simp only [Finset.mem_biUnion, Finset.mem_image, Prod.mk.injEq]
    constructor
    · rintro ⟨_, -, _, hKey, rfl, rfl⟩
      exact (hKeys _ _).mp hKey
    · intro hSome
      refine ⟨i, ?_, k, (hKeys i k).mpr hSome, rfl, rfl⟩
      rw [mem_support_iff]
      intro hNone
      exact hSome (by simp [Tile.look, hNone])
  · rw [Finset.card_biUnion, hSound.count_eq, weightSum]
    · refine Finset.sum_congr rfl fun i _ => ?_
      rw [Finset.card_image_of_injective _ (Prod.mk_right_injective i),
        hCard]
    · -- different slots have different keys
      intro i _ j _ hOther
      rw [Function.onFun_apply, Finset.disjoint_left]
      rintro _ hFirst hSecond
      rw [Finset.mem_image] at hFirst hSecond
      rcases hFirst with ⟨_, -, rfl⟩
      rcases hSecond with ⟨_, -, hSame⟩
      exact hOther (Prod.mk.inj hSame).1.symm

end Tile

------------------------------------------------------------
-- Levels
------------------------------------------------------------

theorem LeafTile.Good.hasCount
    {t : LeafTile α}
    (hGood : LeafTile.Good t) :
    Contents.HasCount (Tile.get? t) (Tile.count t) :=
  Tile.Sound.hasCount_cells hGood

theorem MiddleTile.Good.hasCount
    {t : MiddleTile α}
    (hGood : MiddleTile.Good t) :
    (MiddleTile.look t).HasCount (Tile.count t) :=
  Tile.Sound.hasCount hGood fun _ h => LeafTile.Good.hasCount h

theorem TopTile.Good.hasCount
    {t : TopTile α}
    (hGood : TopTile.Good t) :
    (TopTile.look t).HasCount (Tile.count t) :=
  Tile.Sound.hasCount hGood fun _ h => MiddleTile.Good.hasCount h

namespace Grid

/- The count of a grid is the number of its cells, by key. -/
theorem Sound.hasCount
    {g : Grid α}
    (hSound : g.Sound) :
    g.look.HasCount g.count := by
  unfold Grid.look Grid.count
  cases hTop : g.top with
  | none => exact Contents.hasCount_blank
  | some t => exact TopTile.Good.hasCount (hSound t hTop).1

------------------------------------------------------------
-- Points
------------------------------------------------------------

/-
  Counts are exact, no tile is without a cell, and all slots
  that are filled belong to cells of the sheet.
-/
structure Exact (g : Grid α) : Prop where
  sound : g.Sound
  placed :
    ∀ k, g.look k ≠ none →
      ∃ p, maxSize.contains p = true ∧ p.key = k

/- On the sheet, cells by point are cells by key. -/
theorem get?_eq_look
    (g : Grid α)
    {p : Point}
    (hOn : maxSize.contains p = true) :
    g.get? p = g.look p.key := by
  rw [get?_eq_onSheet, Contents.onSheet, if_pos hOn]

theorem contains_of_get?_ne_none
    {g : Grid α}
    {p : Point}
    (hSome : g.get? p ≠ none) :
    maxSize.contains p = true := by
  by_contra hOutside
  exact hSome (g.get?_of_outside hOutside)

/- As many points as keys have a cell. -/
theorem Exact.hasCount
    {g : Grid α}
    (hExact : g.Exact) :
    Contents.HasCount g.get? g.count := by
  rcases hExact.sound.hasCount with ⟨keys, hKeys, hCard⟩
  have hPoints :
      ∀ p,
        p ∈ (Rect.whole maxSize).points.toFinset.filter
            (fun p => (g.get? p).isSome = true) ↔
          g.get? p ≠ none := by
    intro p
    rw [Finset.mem_filter, List.mem_toFinset, Rect.mem_points,
      Rect.contains_whole, Option.isSome_iff_ne_none]
    exact and_iff_right_of_imp contains_of_get?_ne_none
  refine ⟨_, hPoints, ?_⟩
  rw [← hCard]
  refine Finset.card_nbij Point.key (fun p hIn => ?_) ?_ fun k hIn => ?_
  · have hSome := (hPoints p).mp hIn
    rw [Finset.mem_coe, hKeys,
      ← g.get?_eq_look (contains_of_get?_ne_none hSome)]
    exact hSome
  · intro p hIn q hIn' hKey
    exact
      Point.eq_of_key_eq
        (contains_of_get?_ne_none ((hPoints p).mp hIn))
        (contains_of_get?_ne_none ((hPoints q).mp hIn')) hKey
  · have hSome := (hKeys k).mp hIn
    rcases hExact.placed k hSome with ⟨p, hOn, rfl⟩
    refine ⟨p, ?_, rfl⟩
    rw [Finset.mem_coe, hPoints, g.get?_eq_look hOn]
    exact hSome

end Grid

end Spreadsheet
