import Spreadsheet.Evaluation.Evaluator
import Spreadsheet.Proofs.Geometry

/-
  What is read while a formula is evaluated.

  Only cells that references of the formula cover are read.
  If one of them cannot be read, the registers say why: the
  cell takes part in a cycle, or its formula is awaited.

  Main declarations:
    * `Site.Reads`
    * `Registers.Stops`
    * `Registers.result_spec`
    * `Registers.foldArea_spec`
    * `Registers.foldAreas_spec`
-/

namespace Spreadsheet

------------------------------------------------------------
-- Covered Cells
------------------------------------------------------------

namespace Site

/- A reference on the sheet covers a cell. -/
def Covers (s : Site) (r : Reference) (p : Point) : Prop :=
  r.onSheet s.location = true ∧
    ∃ a, r.toRect? s.location s.bounds = some a ∧
      a.contains p = true

/- Some reference in an expression covers a cell. -/
def Reads (s : Site) (e : Expr) (p : Point) : Prop :=
  ∃ i ∈ e.referenceIndices, ∃ r, s.refs[i]? = some r ∧
    s.Covers r p

/- What is read depends on the part in use only. -/
theorem Reads.congr
    {s t : Site}
    (hSize : t.grid.size = s.grid.size)
    (hRefs : t.refs = s.refs)
    (hLocation : t.location = s.location)
    {e : Expr}
    {p : Point}
    (hReads : s.Reads e p) :
    t.Reads e p := by
  have hBounds : t.bounds = s.bounds := by
    rw [bounds, bounds, hSize]
  rcases hReads with ⟨i, hIndex, r, hRef, hCovers⟩
  refine ⟨i, hIndex, r, by rw [hRefs]; exact hRef, ?_⟩
  unfold Covers at hCovers ⊢
  rw [hLocation, hBounds]
  exact hCovers

/- An expression reads whatever its operands read. -/
theorem Reads.apply
    {s : Site}
    {e : Expr}
    {p : Point}
    (hReads : s.Reads e p)
    {bracketed : Bool}
    {op : Operation}
    {args : List Expr}
    (hArg : e ∈ args) :
    s.Reads (.apply bracketed op args) p := by
  rcases hReads with ⟨i, hIndex, hRest⟩
  refine ⟨i, ?_, hRest⟩
  rw [Expr.referenceIndices]
  exact List.mem_flatMap.mpr ⟨e, hArg, hIndex⟩

end Site

/- All cells that an operand stands for are covered. -/
def Operand.Within (covers : Point → Prop) : Operand → Prop
  | .cell p => covers p
  | .area a => ∀ {p}, a.contains p = true → covers p
  | _ => True

theorem Operand.Within.imp
    {covers covers' : Point → Prop}
    {o : Operand}
    (hWithin : o.Within covers)
    (hImp : ∀ {p}, covers p → covers' p) :
    o.Within covers' := by
  cases o with
  | cell p => exact hImp hWithin
  | area a => exact fun hIn => hImp (hWithin hIn)
  | scalar v => trivial
  | array a => trivial

/- A leaf stands for cells that its reference covers. -/
theorem Site.within_operand
    (s : Site)
    (bracketed : Bool)
    (l : Leaf) :
    (s.operand l).1.Within (s.Reads (.leaf bracketed l)) := by
  cases l with
  | constant v => trivial
  | array a => trivial
  | unreadable e cs => trivial
  | reference i =>
      rw [Site.operand]
      split
      · rename_i r hRef
        have hReads :
            ∀ {a p}, r.onSheet s.location = true →
              r.toRect? s.location s.bounds = some a →
              a.contains p = true →
              s.Reads (.leaf bracketed (.reference i)) p := by
          intro a p hOn hRect hIn
          exact ⟨i, by simp [Expr.referenceIndices], r, hRef, hOn, a,
            hRect, hIn⟩
        unfold Site.referenceOperand
        split
        · rename_i hOn
          split
          · rename_i x y a hRect
            refine hReads hOn hRect ?_
            rw [Reference.toRect?, Option.some.injEq] at hRect
            rw [← hRect, Rect.contains_single]
            rfl
          · rename_i a _ hRect
            intro p hIn
            exact hReads hOn hRect hIn
          · trivial
        · trivial
      · trivial

/- The cell of a rectangle at an offset lies in it. -/
theorem Rect.contains_element
    {r : Rect}
    {offset p : Point}
    (hElement : r.element offset = .ok p) :
    r.contains p = true := by
  unfold Rect.element at hElement
  split at hElement
  · rename_i hOne
    cases hElement
    rw [Rect.contains_iff, hOne]
    simp [Size.one]
  · split at hElement
    · cases hElement
    · rename_i q hLocate
      dsimp only at hElement
      split at hElement
      · cases hElement
        have hAlong :
            ∀ {side i j}, Size.locateAlong side i = some j →
              j < side := by
          intro side i j hAlong
          unfold Size.locateAlong at hAlong
          split at hAlong
          · cases hAlong
            omega
          · split at hAlong <;> cases hAlong
            assumption
        simp only [Size.locate?, Option.bind_eq_bind,
          Option.bind_eq_some_iff, Option.pure_def,
          Option.some.injEq] at hLocate
        rcases hLocate with ⟨x, hx, y, hy, rfl⟩
        have hWidth := hAlong hx
        have hHeight := hAlong hy
        rw [Rect.contains_iff]
        simp only [Point.add, Point.toSize]
        omega
      · cases hElement

/- An offset in a rectangle leads to a cell of it. -/
theorem Rect.contains_clip_add
    {a : Rect}
    {p : Point}
    (hIn : a.clip.size.contains p = true) :
    a.contains (p.add a.origin.toSize) = true := by
  rw [Size.contains_iff] at hIn
  rw [Rect.contains_iff]
  simp only [Rect.clip, Size.inf, Point.add, Point.toSize] at hIn ⊢
  omega

/- A part of an operand stands for no other cells. -/
theorem Operand.Within.narrow
    {covers : Point → Prop}
    {o : Operand}
    (hWithin : o.Within covers)
    (size : Size)
    (offset : Point) :
    (o.narrow size offset).Within covers := by
  cases o with
  | scalar v => trivial
  | cell p => exact hWithin
  | array a =>
      unfold Operand.narrow
      dsimp only
      split <;> trivial
  | area a =>
      unfold Operand.narrow
      dsimp only
      split
      · exact hWithin
      · split
        · rename_i p hElement
          exact hWithin (Rect.contains_element hElement)
        · trivial

------------------------------------------------------------
-- Single Cells
------------------------------------------------------------

namespace Registers

variable {s : Site} {covers : Point → Prop} {r r' : Registers}

/- Formulas of covered cells are awaited. -/
def Awaits
    (s : Site)
    (covers : Point → Prop)
    (r r' : Registers) : Prop :=
  r'.circular = r.circular ∧
    ∃ ids, ids ≠ [] ∧
      r'.missing.toList = r.missing.toList ++ ids ∧
      ∀ id ∈ ids, ∃ p, covers p ∧ s.read p = .pending id

/- A covered cell takes part in a cycle. -/
def Closes
    (s : Site)
    (covers : Point → Prop)
    (r' : Registers) : Prop :=
  r'.circular = true ∧ ∃ p, covers p ∧ s.read p = .circular

/- Some covered cell could not be read. -/
def Stops
    (s : Site)
    (covers : Point → Prop)
    (r r' : Registers) : Prop :=
  Closes s covers r' ∨ Awaits s covers r r'

theorem awaits_await
    {p : Point}
    {id : Handle}
    (hCovers : covers p)
    (hPending : s.read p = .pending id) :
    Awaits s covers r (r.await id) :=
  ⟨rfl, [id], by simp, by simp [await], by
    intro j hj
    rw [List.mem_singleton] at hj
    exact ⟨p, hCovers, hj ▸ hPending⟩⟩

theorem Awaits.await
    {p : Point}
    {id : Handle}
    (hAwaits : Awaits s covers r r')
    (hCovers : covers p)
    (hPending : s.read p = .pending id) :
    Awaits s covers r (r'.await id) := by
  rcases hAwaits with ⟨hSame, ids, -, hMissing, hIds⟩
  refine ⟨hSame, ids ++ [id], by simp, ?_, ?_⟩
  · simp [Registers.await, hMissing]
  · intro j hj
    rcases List.mem_append.mp hj with hOld | hNew
    · exact hIds j hOld
    · rw [List.mem_singleton] at hNew
      exact ⟨p, hCovers, hNew ▸ hPending⟩

/- Only what was missing and circular before counts. -/
theorem Stops.of_eq
    {r₀ : Registers}
    (hStops : Stops s covers r r')
    (hCircular : r.circular = r₀.circular)
    (hMissing : r.missing = r₀.missing) :
    Stops s covers r₀ r' := by
  rw [Stops, Awaits] at hStops ⊢
  rwa [← hCircular, ← hMissing]

theorem Stops.imp
    {covers' : Point → Prop}
    (hStops : Stops s covers r r')
    (hImp : ∀ {p}, covers p → covers' p) :
    Stops s covers' r r' := by
  rcases hStops with
    ⟨hCircular, p, hCovers, hRead⟩ |
      ⟨hSame, ids, hSome, hMissing, hIds⟩
  · exact Or.inl ⟨hCircular, p, hImp hCovers, hRead⟩
  · refine Or.inr ⟨hSame, ids, hSome, hMissing, fun id hId => ?_⟩
    rcases hIds id hId with ⟨p, hCovers, hRead⟩
    exact ⟨p, hImp hCovers, hRead⟩

/- A scalar was read, or some cell could not be read. -/
def Gives
    (s : Site)
    (covers : Point → Prop)
    (r : Registers)
    (res : Option Scalar × Registers) : Prop :=
  (∃ v, res = (some v, r)) ∨
    ∃ r', res = (none, r') ∧ Stops s covers r r'

theorem read_spec
    {p : Point}
    (hCovers : covers p) :
    Gives s covers r (r.read s p) := by
  unfold read
  split
  · exact Or.inl ⟨_, rfl⟩
  · rename_i id hPending
    exact Or.inr ⟨_, rfl, Or.inr (awaits_await hCovers hPending)⟩
  · rename_i hCircular
    exact Or.inr ⟨_, rfl, Or.inl ⟨rfl, p, hCovers, hCircular⟩⟩

theorem element_spec
    {o : Operand}
    (hWithin : o.Within covers) :
    Gives s covers r (r.element s o) := by
  cases o with
  | scalar v => exact Or.inl ⟨v, rfl⟩
  | array a => exact Or.inl ⟨_, rfl⟩
  | cell p => exact read_spec hWithin
  | area a =>
      unfold element
      dsimp only
      split
      · rename_i p hElement
        exact read_spec (hWithin (Rect.contains_element hElement))
      · exact Or.inl ⟨_, rfl⟩

theorem result_spec (hWithin : r.value.Within covers) :
    Gives s covers r (r.result s) :=
  element_spec hWithin

/- An operand is reduced, unless there is a cell to wait for. -/
theorem reduce_spec
    (hWithin : r.suppressed = false → r.value.Within covers) :
    r.suppressed = true ∧ r.reduce s = (.unneeded, r) ∨
      r.suppressed = false ∧
        ((∃ v, r.reduce s = (.scalar v, r)) ∨
          ∃ r', r.reduce s = (.waiting, r') ∧
            Stops s covers r r') := by
  unfold reduce
  cases hSuppressed : r.suppressed with
  | true => exact Or.inl ⟨rfl, rfl⟩
  | false =>
      refine Or.inr ⟨rfl, ?_⟩
      rcases result_spec (s := s) (hWithin hSuppressed) with
        ⟨v, hEq⟩ | ⟨r', hEq, hStops⟩
      · exact Or.inl ⟨v, by simp [hEq]⟩
      · exact Or.inr ⟨r', by simp [hEq], hStops⟩

end Registers

------------------------------------------------------------
-- Rectangles
------------------------------------------------------------

namespace Gathering

open Registers

variable {ε τ : Type} {Fails : ε → Prop}
variable {s : Site} {covers : Point → Prop} {r : Registers}

/- Nothing is missing so far, or formulas are awaited. -/
def Fair
    (s : Site)
    (covers : Point → Prop)
    (r : Registers)
    (g : Gathering τ) : Prop :=
  g.waiting = false ∧ g.registers = r ∨
    g.waiting = true ∧ Awaits s covers r g.registers

/- A run has read all cells that it needed, or has to wait. -/
def Settles
    (s : Site)
    (covers : Point → Prop)
    (Fails : ε → Prop)
    (r : Registers) : Ended ε τ → Prop
  | (.complete _, r') => r' = r
  | (.aborted e, r') => r' = r ∧ Fails e
  | (.waiting _, r') => Stops s covers r r'

/- A run goes on, or has ended as it should. -/
def Goes
    {β : Type}
    (s : Site)
    (covers : Point → Prop)
    (Fails : ε → Prop)
    (r : Registers)
    (Fine : β → Prop) : Except (Ended ε τ) β → Prop
  | .ok b => Fine b
  | .error ended => Settles s covers Fails r ended

theorem Goes.bind
    {α β : Type}
    {x : Except (Ended ε τ) α}
    {f : α → Except (Ended ε τ) β}
    {Fine : α → Prop}
    {Fine' : β → Prop}
    (hFirst : Goes s covers Fails r Fine x)
    (hNext : ∀ {a}, Fine a → Goes s covers Fails r Fine' (f a)) :
    Goes s covers Fails r Fine' (x >>= f) := by
  cases x with
  | ok a => exact hNext hFirst
  | error ended => exact hFirst

theorem goes_read
    {p : Point}
    {g : Gathering τ}
    (hFair : g.Fair s covers r)
    (hCovers : covers p) :
    Goes s covers Fails r (fun x => x.2.Fair s covers r)
      (g.read s p) := by
  unfold Gathering.read
  split
  · exact hFair
  · rename_i id hPending
    refine Or.inr ⟨rfl, ?_⟩
    rcases hFair with ⟨-, hSame⟩ | ⟨-, hAwaits⟩
    · rw [hSame]
      exact awaits_await hCovers hPending
    · exact hAwaits.await hCovers hPending
  · rename_i hCircular
    exact Or.inl ⟨rfl, p, hCovers, hCircular⟩

theorem goes_readIf
    {p : Point}
    {g : Gathering τ}
    {inside : Bool}
    (hFair : g.Fair s covers r)
    (hCovers : inside = true → covers p) :
    Goes s covers Fails r (fun x => x.2.Fair s covers r)
      (g.readIf inside s p) := by
  unfold readIf
  split
  · rename_i hInside
    exact goes_read hFair (hCovers hInside)
  · exact hFair

theorem goes_add
    {op : τ → Except ε τ}
    {g : Gathering τ}
    (hFair : g.Fair s covers r)
    (hFails : ∀ {t e}, op t = .error e → Fails e) :
    Goes s covers Fails r (Fair s covers r) (g.add op) := by
  unfold add
  split
  · exact hFair
  · rename_i hNot
    have hSame : g.registers = r := by
      rcases hFair with ⟨-, hSame⟩ | ⟨hWaiting, -⟩
      · exact hSame
      · exact absurd hWaiting hNot
    split
    · exact Or.inl ⟨by simpa using hNot, hSame⟩
    · rename_i e hError
      exact ⟨hSame, hFails hError⟩

/- By induction on the cells that are left. -/
theorem settles_ending
    {l : List Point}
    {step : Gathering τ → Point → Except (Ended ε τ) (Gathering τ)}
    (hStep :
      ∀ p ∈ l, ∀ g, g.Fair s covers r →
        Goes s covers Fails r (Fair s covers r) (step g p))
    {g : Gathering τ}
    (hFair : g.Fair s covers r) :
    Settles s covers Fails r (ending (l.foldlM step g)) := by
  induction l generalizing g with
  | nil =>
      change Settles s covers Fails r (ending (.ok g))
      unfold ending
      rcases hFair with ⟨hNot, hSame⟩ | ⟨hWaiting, hAwaits⟩
      · simp only [hNot]
        exact hSame
      · simp only [hWaiting]
        exact Or.inr hAwaits
  | cons p l ih =>
      have hHere := hStep p List.mem_cons_self g hFair
      rw [List.foldlM_cons]
      cases hResult : step g p with
      | error ended =>
          rw [hResult] at hHere
          exact hHere
      | ok g' =>
          rw [hResult] at hHere
          exact
            ih (fun q hq => hStep q (List.mem_cons_of_mem _ hq)) hHere

end Gathering

namespace Registers

open Gathering

variable {ε τ : Type}
variable {s : Site} {covers : Point → Prop}

/- A rectangle of covered cells is folded, or there is one to
  wait for. -/
theorem foldArea_spec
    (r : Registers)
    {area : Rect}
    (hCovers : ∀ {p}, area.contains p = true → covers p)
    (op : Scalar → τ → Except ε τ)
    (t : τ) :
    Settles s covers (fun e => ∃ v t, op v t = .error e) r
      (r.foldArea s area op t) := by
  rw [foldArea, Rect.foldUntil_eq_foldlM]
  refine settles_ending ?_ (Or.inl ⟨rfl, rfl⟩)
  intro p hp g hFair
  rw [Rect.mem_points, Rect.contains_clip] at hp
  exact
    (goes_read hFair (hCovers hp.1)).bind fun h =>
      goes_add h fun hError => ⟨_, _, hError⟩

theorem foldAreas_spec
    (r : Registers)
    {first second : Rect}
    (hFirst : ∀ {p}, first.contains p = true → covers p)
    (hSecond : ∀ {p}, second.contains p = true → covers p)
    (op : Scalar → Scalar → τ → Except ε τ)
    (t : τ) :
    Settles s covers (fun e => ∃ v w t, op v w t = .error e) r
      (r.foldAreas s first second op t) := by
  rw [foldAreas, Rect.foldUntil_eq_foldlM]
  refine settles_ending ?_ (Or.inl ⟨rfl, rfl⟩)
  intro p hp g hFair
  rw [Rect.mem_points, Rect.contains_whole] at hp
  refine
    (goes_read hFair (hFirst (Rect.contains_clip_add hp))).bind
      fun {x} hRead => ?_
  exact
    (goes_readIf hRead fun hInside =>
      hSecond (Rect.contains_clip_add hInside)).bind
      fun h => goes_add h fun hError => ⟨_, _, _, hError⟩

end Registers

end Spreadsheet
