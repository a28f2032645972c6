import Spreadsheet.Proofs.Grid.Visit
import Spreadsheet.Proofs.Words.Basic

/-
  The tile tree in words.

  Work on a tile takes for granted that it counts at least the
  cells that are taken away, and a visitor may take for
  granted what it leaves in a slot. Where counts are exact, no
  work on the cells beneath a tile fails.

  Main declarations:
    * `CheckedVisitor`
    * `Safe`
    * `TopTile.safe_visitCell`
    * `TopTile.safe_transfer`
    * `TopTile.visitBands?_eq_some`
-/

namespace Spreadsheet

variable {α β σ : Type}

------------------------------------------------------------
-- Visitors And Work
------------------------------------------------------------

/- A visit of a slot that takes something for granted. -/
abbrev CheckedVisit (β σ : Type) :=
  Slot β → σ → Option (Slot β × σ)

/- A visitor that takes something for granted. -/
structure CheckedVisitor (α σ : Type) where
  wanted : σ → Bool
  visit? : CheckedVisit α σ

/- A visitor that takes nothing for granted. -/
def CellVisitor.checked (v : CellVisitor α σ) : CheckedVisitor α σ :=
  ⟨v.wanted, fun slot s => some (v.visit slot s)⟩

/- A mover erases a slot, and takes for granted that it did. -/
def CellMover.checkedEraser
    (m : CellMover α σ) : CheckedVisitor α σ where
  wanted _ := false
  visit? slot s := do
    let (slot, s) := m.take slot s
    Word.ensure (slot.isNone = true)
    return (slot, s)

/- What a visitor takes for granted is so. -/
structure CheckedVisitor.Matches
    (v? : CheckedVisitor α σ)
    (v : CellVisitor α σ) : Prop where
  wanted : v?.wanted = v.wanted
  visit : ∀ slot s, v?.visit? slot s = some (v.visit slot s)

theorem CellVisitor.matches_checked (v : CellVisitor α σ) :
    v.checked.Matches v :=
  ⟨rfl, fun _ _ => rfl⟩

theorem CellMover.matches_checkedEraser
    {m : CellMover α σ}
    (hEmpties : ∀ slot s, (m.take slot s).1 = none) :
    m.checkedEraser.Matches m.eraser := by
  refine ⟨rfl, fun slot s => ?_⟩
  change (do Word.ensure _; some (m.take slot s)) = _
  rw [Word.ensure_eq_some (by rw [hEmpties]; rfl)]
  rfl

/- On what is good, work comes out, and leaves it good. -/
def Safe
    (good : β → Prop)
    (work? : β → σ → Option (β × σ))
    (work : β → σ → β × σ) : Prop :=
  ∀ b s, good b → work? b s = some (work b s) ∧ good (work b s).1

------------------------------------------------------------
-- Single Tiles
------------------------------------------------------------

namespace Tile

/- Visit one slot; cells that are gone were counted. -/
def visit?
    (weigh : β → Nat)
    (i : Nat)
    (f : CheckedVisit β σ)
    (t : Tile β)
    (s : σ) : Option (Tile β × σ) := do
  let old := t.get? i
  let (new, s) ← f old s
  Word.ensure (old.weight weigh ≤ t.count + new.weight weigh)
  return (t.put weigh i old new, s)

/- Visit a source slot and then a destination slot. -/
def visitPair?
    (weigh : β → Nat)
    (i j : Nat)
    (source dest : CheckedVisit β σ)
    (t : Tile β)
    (s : σ) : Option (Tile β × σ) := do
  let (t, s) ← t.visit? weigh i source s
  t.visit? weigh j dest s

/- What a slot holds is good and not without weight. -/
def Holds
    (weigh : β → Nat)
    (good : β → Prop)
    (slot : Slot β) : Prop :=
  ∀ b, slot = some b → good b ∧ weigh b ≠ 0

variable {weigh : β → Nat} {good : β → Prop}

theorem safe_visit
    {f? : CheckedVisit β σ}
    {f : SlotVisit β σ}
    (hVisit : Safe (Holds weigh good) f? f)
    (i : Nat) :
    Safe (Sound weigh good) (visit? weigh i f?) (visit weigh i f) := by
  intro t s hSound
  rcases hVisit (t.get? i) s (hSound.content i) with ⟨hOut, hGood⟩
  have hCounted :
      (t.get? i).weight weigh ≤
        t.count + Slot.weight weigh (f (t.get? i) s).1 := by
    have hWeight := weight_le_weightSum weigh t i
    rw [hSound.count_eq]
    omega
  refine ⟨?_, hSound.put i hGood⟩
  unfold visit?
  dsimp only
  rw [hOut, Option.bind_eq_bind, Option.bind_some,
    Word.ensure_eq_some hCounted]
  rfl

theorem safe_visitPair
    {source? dest? : CheckedVisit β σ}
    {source dest : SlotVisit β σ}
    (hSource : Safe (Holds weigh good) source? source)
    (hDest : Safe (Holds weigh good) dest? dest)
    (i j : Nat) :
    Safe (Sound weigh good) (visitPair? weigh i j source? dest?)
      (visitPair weigh i j source dest) := by
  intro t s hSound
  rcases safe_visit hSource i t s hSound with ⟨hOut, hKept⟩
  unfold visitPair?
  rw [hOut]
  exact safe_visit hDest j _ _ hKept

/- A cell of a tile is visited. -/
theorem safe_visit_cell
    {v? : CheckedVisitor α σ}
    {v : CellVisitor α σ}
    (hMatches : v?.Matches v)
    (i : Nat) :
    Safe (Sound cellWeight fun _ => True)
      (visit? cellWeight i v?.visit?) (visit cellWeight i v.visit) :=
  safe_visit
    (fun slot s _ =>
      ⟨hMatches.visit slot s, fun _ _ => ⟨trivial, Nat.one_ne_zero⟩⟩)
    i

end Tile

/- Work on the tile in a slot. -/
def Slot.inside?
    (wanted : σ → Bool)
    (f : Tile β → σ → Option (Tile β × σ)) :
    CheckedVisit (Tile β) σ :=
  fun slot s =>
    let tile? :=
      match slot with
      | some t => some t
      | none => if wanted s then some Tile.empty else none
    match tile? with
    | none => some (none, s)
    | some t => do
        let (t, s) ← f t s
        return (if t.count = 0 then none else some t, s)

theorem Slot.safe_inside
    {good : Tile β → Prop}
    (hEmpty : good Tile.empty)
    (wanted : σ → Bool)
    {work? : Tile β → σ → Option (Tile β × σ)}
    {work : Tile β → σ → Tile β × σ}
    (hWork : Safe good work? work) :
    Safe (Tile.Holds Tile.count good) (Slot.inside? wanted work?)
      (Slot.inside wanted work) := by
  -- a tile is there, or is made
  have hDone (t : Tile β) (s : σ) (hGood : good t) :
      (do
          let (t, s) ← work? t s
          return (if t.count = 0 then none else some t, s)) =
        some
          (if (work t s).1.count = 0 then none else some (work t s).1,
            (work t s).2) ∧
      Tile.Holds Tile.count good
        (if (work t s).1.count = 0 then none
          else some (work t s).1) := by
    rcases hWork t s hGood with ⟨hOut, hKept⟩
    rw [hOut]
    refine ⟨rfl, ?_⟩
    rintro t' hSome
    split at hSome
    · cases hSome
    · cases hSome
      exact ⟨hKept, by assumption⟩
  intro slot s hHolds
  cases slot with
  | some t => exact hDone t s (hHolds t rfl).1
  | none =>
      unfold Slot.inside? Slot.inside
      cases wanted s with
      | true => exact hDone .empty s hEmpty
      | false => exact ⟨rfl, nofun⟩

------------------------------------------------------------
-- Leaf Tiles
------------------------------------------------------------

namespace LeafTile

/- Visit a cell of a leaf tile. -/
def visitCell?
    (v : CheckedVisitor α σ)
    (path : TilePath) : LeafTile α → σ → Option (LeafTile α × σ) :=
  Tile.visit? cellWeight path.leaf v.visit?

/- Visit the cells of a rectangle, whose ends are words. -/
def visitCells?
    (v : CheckedVisitor α σ)
    (r : Rect)
    (t : LeafTile α)
    (s : σ) : Option (LeafTile α × σ) := do
  let _ ← r.origin.add? r.size
  r.points.foldlM
    (fun (t, s) p =>
      Tile.visit? cellWeight (TileShape.leaf.index p.x p.y) v.visit?
        t s)
    (t, s)

/- Take one cell of a leaf tile and put it into another. -/
def transfer?
    (m : CellMover α σ)
    (source dest : TilePath) :
    LeafTile α → σ → Option (LeafTile α × σ) :=
  Tile.visitPair? cellWeight source.leaf dest.leaf
    m.source.checked.visit? m.dest.checked.visit?

variable {v? : CheckedVisitor α σ} {v : CellVisitor α σ}

theorem safe_visitCell
    (hMatches : v?.Matches v)
    (path : TilePath) :
    Safe Good (visitCell? v? path) (visitCell v path) :=
  Tile.safe_visit_cell hMatches path.leaf

theorem safe_visitCells
    (hMatches : v?.Matches v)
    {r : Rect}
    (hWidth : r.origin.x + r.size.width < 2 ^ 32)
    (hHeight : r.origin.y + r.size.height < 2 ^ 32) :
    Safe Good (visitCells? v? r) (visitCells v r) := by
  intro t s hGood
  unfold visitCells? visitCells
  rw [Point.add?_eq_some hWidth hHeight, Rect.fold_eq_foldl]
  exact
    Word.foldlM_eq_some (fun ts : LeafTile α × σ => Good ts.1)
      (fun p _ ts hGood => Tile.safe_visit_cell hMatches _ ts.1 ts.2 hGood)
      hGood

theorem safe_transfer
    (m : CellMover α σ)
    (source dest : TilePath) :
    Safe Good (transfer? m source dest) (transfer m source dest) := by
  refine Tile.safe_visitPair (fun slot s _ => ⟨rfl, ?_⟩)
    (fun slot s _ => ⟨rfl, ?_⟩) _ _
  · exact fun _ _ => ⟨trivial, Nat.one_ne_zero⟩
  · exact fun _ _ => ⟨trivial, Nat.one_ne_zero⟩

end LeafTile

------------------------------------------------------------
-- Middle Tiles
------------------------------------------------------------

namespace MiddleTile

/- Work on the leaf tile that a path leads to. -/
def inLeaf?
    (wanted : σ → Bool)
    (path : TilePath)
    (work : LeafTile α → σ → Option (LeafTile α × σ)) :
    MiddleTile α → σ → Option (MiddleTile α × σ) :=
  Tile.visit? Tile.count path.middle (Slot.inside? wanted work)

/- Visit a cell beneath a middle tile. -/
def visitCell?
    (v : CheckedVisitor α σ)
    (path : TilePath) :
    MiddleTile α → σ → Option (MiddleTile α × σ) :=
  inLeaf? v.wanted path (LeafTile.visitCell? v path)

/- Move a cell beneath a middle tile. -/
def transfer?
    (m : CellMover α σ)
    (source dest : TilePath) :
    MiddleTile α → σ → Option (MiddleTile α × σ) :=
  if source.middle = dest.middle then
    inLeaf? m.wantsEither source (LeafTile.transfer? m source dest)
  else
    Tile.visitPair? Tile.count source.middle dest.middle
      (Slot.inside? m.wantsSource
        (LeafTile.visitCell? m.source.checked source))
      (Slot.inside? m.wantsDest
        (LeafTile.visitCell? m.dest.checked dest))

variable {v? : CheckedVisitor α σ} {v : CellVisitor α σ}

theorem safe_inLeaf
    (wanted : σ → Bool)
    (path : TilePath)
    {work? : LeafTile α → σ → Option (LeafTile α × σ)}
    {work : LeafTile α → σ → LeafTile α × σ}
    (hWork : Safe LeafTile.Good work? work) :
    Safe Good (inLeaf? wanted path work?) (inLeaf wanted path work) :=
  Tile.safe_visit (Slot.safe_inside Tile.sound_empty wanted hWork) _

theorem safe_visitCell
    (hMatches : v?.Matches v)
    (path : TilePath) :
    Safe Good (visitCell? v? path) (visitCell v path) := by
  unfold visitCell? visitCell
  rw [hMatches.wanted]
  exact safe_inLeaf _ path (LeafTile.safe_visitCell hMatches path)

theorem safe_transfer
    (m : CellMover α σ)
    (source dest : TilePath) :
    Safe Good (transfer? m source dest) (transfer m source dest) := by
  intro t s hGood
  unfold transfer? transfer
  split
  · exact
      safe_inLeaf _ source (LeafTile.safe_transfer m source dest) t s
        hGood
  · exact
      Tile.safe_visitPair
        (Slot.safe_inside Tile.sound_empty _
          (LeafTile.safe_visitCell m.source.matches_checked source))
        (Slot.safe_inside Tile.sound_empty _
          (LeafTile.safe_visitCell m.dest.matches_checked dest))
        _ _ t s hGood

end MiddleTile

------------------------------------------------------------
-- The Top Tile
------------------------------------------------------------

namespace TopTile

/- Work on the leaf tile that a path leads to. -/
def inLeaf?
    (wanted : σ → Bool)
    (path : TilePath)
    (work : LeafTile α → σ → Option (LeafTile α × σ)) :
    TopTile α → σ → Option (TopTile α × σ) :=
  Tile.visit? Tile.count path.top
    (Slot.inside? wanted (MiddleTile.inLeaf? wanted path work))

/- Visit a cell. -/
def visitCell?
    (v : CheckedVisitor α σ)
    (path : TilePath) : TopTile α → σ → Option (TopTile α × σ) :=
  inLeaf? v.wanted path (LeafTile.visitCell? v path)

/- Move a cell. -/
def transfer?
    (m : CellMover α σ)
    (source dest : TilePath) :
    TopTile α → σ → Option (TopTile α × σ) :=
  if source.top = dest.top then
    Tile.visit? Tile.count source.top
      (Slot.inside? m.wantsEither
        (MiddleTile.transfer? m source dest))
  else
    Tile.visitPair? Tile.count source.top dest.top
      (Slot.inside? m.wantsSource
        (MiddleTile.visitCell? m.source.checked source))
      (Slot.inside? m.wantsDest
        (MiddleTile.visitCell? m.dest.checked dest))

/- The part of a rectangle that is worked on at once. -/
def chunk?
    (wanted : Bool)
    (t : TopTile α)
    (p : Point)
    (limit : Size) : Option Size := do
  let block :=
    if wanted || (Tile.get? t (TilePath.of p).top).isSome then
      leafSize
    else
      middleSize
  let width ← Word.sub? block.width (p.x % block.width)
  let height ← Word.sub? block.height (p.y % block.height)
  return limit.inf ⟨width, height⟩

/- Visit the cells between two columns from a row on. -/
def visitBand?
    (v : CheckedVisitor α σ)
    (stop y : Nat) :
    Nat → Nat → Nat → TopTile α × σ → Option (Nat × TopTile α × σ)
  | 0, _, height, ts => some (height, ts)
  | fuel + 1, x, height, (t, s) =>
      if stop ≤ x then
        some (height, t, s)
      else do
        let p : Point := ⟨x, y⟩
        let width ← Word.sub? stop x
        let c ← chunk? (v.wanted s) t p ⟨width, height⟩
        let ts ←
          inLeaf? v.wanted (TilePath.of p)
            (LeafTile.visitCells? v ⟨p.within leafSize, c⟩) t s
        let x ← Word.add? x c.width
        visitBand? v stop y fuel x (min height c.height) ts

/- Visit the cells of a rectangle, one band after another. -/
def visitBands?
    (v : CheckedVisitor α σ)
    (left : Nat)
    (stop : Point) :
    Nat → Nat → TopTile α × σ → Option (TopTile α × σ)
  | 0, _, ts => some ts
  | fuel + 1, y, ts =>
      if stop.y ≤ y then
        some ts
      else do
        let height ← Word.sub? stop.y y
        let (height, ts) ←
          visitBand? v stop.x y (stop.x - left) left height ts
        let y ← Word.add? y height
        visitBands? v left stop fuel y ts

variable {v? : CheckedVisitor α σ} {v : CellVisitor α σ}

theorem safe_inLeaf
    (wanted : σ → Bool)
    (path : TilePath)
    {work? : LeafTile α → σ → Option (LeafTile α × σ)}
    {work : LeafTile α → σ → LeafTile α × σ}
    (hWork : Safe LeafTile.Good work? work) :
    Safe Good (inLeaf? wanted path work?) (inLeaf wanted path work) :=
  Tile.safe_visit
    (Slot.safe_inside Tile.sound_empty wanted
      (MiddleTile.safe_inLeaf wanted path hWork)) _

theorem safe_visitCell
    (hMatches : v?.Matches v)
    (path : TilePath) :
    Safe Good (visitCell? v? path) (visitCell v path) := by
  unfold visitCell? visitCell
  rw [hMatches.wanted]
  exact safe_inLeaf _ path (LeafTile.safe_visitCell hMatches path)

theorem safe_transfer
    (m : CellMover α σ)
    (source dest : TilePath) :
    Safe Good (transfer? m source dest) (transfer m source dest) := by
  intro t s hGood
  unfold transfer? transfer
  split
  · exact
      Tile.safe_visit
        (Slot.safe_inside Tile.sound_empty _
          (MiddleTile.safe_transfer m source dest))
        _ t s hGood
  · exact
      Tile.safe_visitPair
        (Slot.safe_inside Tile.sound_empty _
          (MiddleTile.safe_visitCell m.source.matches_checked source))
        (Slot.safe_inside Tile.sound_empty _
          (MiddleTile.safe_visitCell m.dest.matches_checked dest))
        _ _ t s hGood

theorem chunk?_eq_some
    (wanted : Bool)
    (t : TopTile α)
    (p : Point)
    (limit : Size) :
    chunk? wanted t p limit = some (chunk wanted t p limit) := by
  unfold chunk? chunk
  dsimp only
  split
  · rw [Word.sub?_eq_some (Nat.mod_lt _ (by decide)).le,
      Word.sub?_eq_some (Nat.mod_lt _ (by decide)).le]
    rfl
  · rw [Word.sub?_eq_some (Nat.mod_lt _ (by decide)).le,
      Word.sub?_eq_some (Nat.mod_lt _ (by decide)).le]
    rfl

/- A chunk reaches no further than its limit. -/
theorem chunk_le
    (wanted : Bool)
    (t : TopTile α)
    (p : Point)
    (limit : Size) :
    (chunk wanted t p limit).width ≤ limit.width ∧
      (chunk wanted t p limit).height ≤ limit.height :=
  ⟨Nat.min_le_left _ _, Nat.min_le_left _ _⟩

/- A band whose ends are words is visited, and gets no higher. -/
theorem visitBand?_eq_some
    (hMatches : v?.Matches v)
    {stop y height : Nat}
    (fuel x : Nat)
    (hStop : stop < 2 ^ 32)
    (hHeight : y + height < 2 ^ 32)
    {ts : TopTile α × σ}
    (hGood : Good ts.1) :
    visitBand? v? stop y fuel x height ts =
        some (visitBand v stop y fuel x height ts) ∧
      Good (visitBand v stop y fuel x height ts).2.1 ∧
      (visitBand v stop y fuel x height ts).1 ≤ height := by
  induction fuel generalizing x height ts with
  | zero => exact ⟨rfl, hGood, le_rfl⟩
  | succ fuel ih =>
      rcases ts with ⟨t, s⟩
      rw [visitBand?, visitBand]
      split
      · exact ⟨rfl, hGood, le_rfl⟩
      · rename_i hBefore
        have hWidth : x ≤ stop := by omega
        simp only [Word.sub?_eq_some hWidth, chunk?_eq_some,
          hMatches.wanted, Option.bind_eq_bind, Option.bind_some]
        have hLimit :=
          chunk_le (v.wanted s) t ⟨x, y⟩ ⟨stop - x, height⟩
        generalize
          chunk (v.wanted s) t ⟨x, y⟩ ⟨stop - x, height⟩ = c
          at hLimit
        dsimp only at hLimit
        have hColumn := Nat.mod_le x leafSize.width
        have hRow := Nat.mod_le y leafSize.height
        have hWork :=
          safe_inLeaf v.wanted (TilePath.of ⟨x, y⟩)
            (LeafTile.safe_visitCells hMatches
              (r := ⟨Point.within ⟨x, y⟩ leafSize, c⟩)
              (by simp only [Point.within]; omega)
              (by simp only [Point.within]; omega)) t s hGood
        rcases hWork with ⟨hOut, hKept⟩
        have hNext : x + c.width < 2 ^ 32 := by omega
        simp only [hOut, Word.add?_eq_some hNext, Option.bind_some]
        have hLeft : y + min height c.height < 2 ^ 32 := by omega
        rcases ih (x + c.width) hLeft hKept with
          ⟨hRest, hGoodRest, hLower⟩
        exact ⟨hRest, hGoodRest, hLower.trans (Nat.min_le_left _ _)⟩

/- So is a rectangle, band by band. -/
theorem visitBands?_eq_some
    (hMatches : v?.Matches v)
    {left fuel y : Nat}
    {stop : Point}
    (hColumns : stop.x < 2 ^ 32)
    (hRows : stop.y < 2 ^ 32)
    {ts : TopTile α × σ}
    (hGood : Good ts.1) :
    visitBands? v? left stop fuel y ts =
        some (visitBands v left stop fuel y ts) ∧
      Good (visitBands v left stop fuel y ts).1 := by
  induction fuel generalizing y ts with
  | zero => exact ⟨rfl, hGood⟩
  | succ fuel ih =>
      rw [visitBands?, visitBands]
      split
      · exact ⟨rfl, hGood⟩
      · rename_i hBefore
        have hAbove : y ≤ stop.y := by omega
        have hHeight : y + (stop.y - y) < 2 ^ 32 := by omega
        rcases
          visitBand?_eq_some hMatches (stop.x - left) left hColumns
            hHeight hGood with
          ⟨hOut, hKept, hLower⟩
        have hNext :
            y + (visitBand v stop.x y (stop.x - left) left
              (stop.y - y) ts).1 < 2 ^ 32 := by
          omega
        simp only [Word.sub?_eq_some hAbove, hOut,
          Word.add?_eq_some hNext, Option.bind_eq_bind,
          Option.bind_some]
        exact ih hKept

end TopTile

end Spreadsheet
