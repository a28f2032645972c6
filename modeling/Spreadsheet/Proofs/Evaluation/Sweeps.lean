import Spreadsheet.Evaluation.Aggregation
import Spreadsheet.Proofs.Evaluation.Readings

/-
  What a run over cells notes.

  A run that meets a cell of a formula that has still to be
  calculated notes all formulas of this kind among its cells.
  A run that ends earlier has come to a step that failed, and
  all cells up to there could be read.

  Main declarations:
    * `Site.awaited`
    * `Gathering.Swept`
    * `Registers.swept_foldArea`
    * `Registers.swept_foldAreas`
-/

namespace Spreadsheet

namespace Site

/- The formula that a cell waits for. -/
def awaited? (s : Site) (p : Point) : Option Handle :=
  match s.read p with
  | .pending id => some id
  | _ => none

/- The formulas that cells wait for, one cell after the other. -/
def awaited (s : Site) (ps : List Point) : List Handle :=
  ps.filterMap s.awaited?

/- The scalar of a cell, if it can be read. -/
def shown (s : Site) (p : Point) : Scalar :=
  match s.read p with
  | .value v => v
  | _ => .blank

/- All of these cells can be read. -/
def Readable (s : Site) (ps : List Point) : Prop :=
  ∀ p ∈ ps, s.read p = .value (s.shown p)

theorem awaited_append (s : Site) (ps qs : List Point) :
    s.awaited (ps ++ qs) = s.awaited ps ++ s.awaited qs :=
  List.filterMap_append

/- Nothing is awaited for cells that can be read. -/
theorem Readable.awaited_eq_nil
    {s : Site}
    {ps : List Point}
    (hReadable : s.Readable ps) : s.awaited ps = [] := by
  refine List.filterMap_eq_nil_iff.mpr fun p hp => ?_
  rw [awaited?, hReadable p hp]

theorem readable_append
    {s : Site}
    {ps qs : List Point} :
    s.Readable (ps ++ qs) ↔ s.Readable ps ∧ s.Readable qs :=
  List.forall_mem_append

end Site

------------------------------------------------------------
-- Runs
------------------------------------------------------------

namespace Gathering

variable {ε τ : Type} {s : Site}
variable {reads : Point → List Point}
variable {op : Point → τ → Except ε τ}

/-
  A step of a run meets a cycle, notes formulas, or reads all
  of its cells and goes on.
-/
inductive Meets
    (s : Site)
    (cells : List Point)
    (op : τ → Except ε τ)
    (g : Gathering τ) : Except (Ended ε τ) (Gathering τ) → Prop where
  | closed
      {t : τ}
      {r : Registers}
      (hClosed : r.circular = true) :
      Meets s cells op g (.error (.waiting t, r))
  | noted
      {g' : Gathering τ}
      (hWaiting : g'.waiting = true)
      (hSome : s.awaited cells ≠ [])
      (hCircular : g'.registers.circular = g.registers.circular)
      (hMissing :
        g'.registers.missing.toList =
          g.registers.missing.toList ++ s.awaited cells) :
      Meets s cells op g (.ok g')
  | added
      (hReadable : s.Readable cells) :
      Meets s cells op g (g.add op)

/-
  How a run over cells ends: at a cycle, with all formulas
  noted that it has to wait for, with all cells folded, or at
  a step that fails, up to which all cells could be read.
-/
inductive Swept
    (s : Site)
    (reads : Point → List Point)
    (op : Point → τ → Except ε τ)
    (l : List Point)
    (t : τ)
    (r : Registers) : Ended ε τ → Prop where
  | closed
      {t' : τ}
      {r' : Registers}
      (hClosed : r'.circular = true) :
      Swept s reads op l t r (.waiting t', r')
  | noted
      {t' : τ}
      {r' : Registers}
      (hSome : s.awaited (l.flatMap reads) ≠ [])
      (hCircular : r'.circular = r.circular)
      (hMissing :
        r'.missing.toList =
          r.missing.toList ++ s.awaited (l.flatMap reads)) :
      Swept s reads op l t r (.waiting t', r')
  | complete
      {t' : τ}
      (hReadable : s.Readable (l.flatMap reads))
      (hFold : l.foldlM (fun t p => op p t) t = .ok t') :
      Swept s reads op l t r (.complete t', r)
  | aborted
      {e : ε}
      (first rest : List Point)
      (hCells : l = first ++ rest)
      (hReadable : s.Readable (first.flatMap reads))
      (hFold : first.foldlM (fun t p => op p t) t = .error e) :
      Swept s reads op l t r (.aborted e, r)

/- A run that waits notes what else there is to wait for. -/
theorem ending_of_waiting
    {step : Gathering τ → Point → Except (Ended ε τ) (Gathering τ)}
    (hStep : ∀ p g, Meets s (reads p) (op p) g (step g p))
    (l : List Point)
    {g : Gathering τ}
    (hWaiting : g.waiting = true) :
    ∃ t' r', ending (l.foldlM step g) = (.waiting t', r') ∧
      (r'.circular = true ∨
        r'.circular = g.registers.circular ∧
          r'.missing.toList =
            g.registers.missing.toList ++
              s.awaited (l.flatMap reads)) := by
  induction l generalizing g with
  | nil =>
      refine ⟨g.result, g.registers, ?_, Or.inr ⟨rfl, ?_⟩⟩
      · change ending (.ok g) = _
        rw [ending, if_pos hWaiting]
      · rw [List.flatMap_nil]
        exact (List.append_nil _).symm
  | cons p l ih =>
      have hHere := hStep p g
      rw [List.foldlM_cons, List.flatMap_cons, Site.awaited_append]
      generalize step g p = x at hHere
      cases hHere with
      | closed hClosed => exact ⟨_, _, rfl, Or.inl hClosed⟩
      | @noted g' hWaiting' hSome hCircular hMissing =>
          obtain ⟨t', r', hEnding, hEnds⟩ := ih hWaiting'
          refine ⟨t', r', hEnding, hEnds.imp id fun hNoted => ?_⟩
          rw [hNoted.1, hNoted.2, hCircular, hMissing,
            List.append_assoc]
          exact ⟨rfl, rfl⟩
      | added hReadable =>
          obtain ⟨t', r', hEnding, hEnds⟩ := ih hWaiting
          rw [hReadable.awaited_eq_nil, List.nil_append, add,
            if_pos hWaiting]
          exact ⟨t', r', hEnding, hEnds⟩

/- A run over more cells, of which the first ones were read. -/
theorem Swept.cons
    {p : Point}
    {l : List Point}
    {t t' : τ}
    {r : Registers}
    {ended : Ended ε τ}
    (hReadable : s.Readable (reads p))
    (hOp : op p t = .ok t')
    (hSwept : Swept s reads op l t' r ended) :
    Swept s reads op (p :: l) t r ended := by
  cases hSwept with
  | closed hClosed => exact .closed hClosed
  | noted hSome hCircular hMissing =>
      have hAll : s.awaited ((p :: l).flatMap reads) =
          s.awaited (l.flatMap reads) := by
        rw [List.flatMap_cons, Site.awaited_append,
          hReadable.awaited_eq_nil, List.nil_append]
      exact .noted (hAll ▸ hSome) hCircular (hAll ▸ hMissing)
  | complete hRest hFold =>
      refine .complete ?_ ?_
      · rw [List.flatMap_cons]
        exact Site.readable_append.mpr ⟨hReadable, hRest⟩
      · rw [List.foldlM_cons, hOp]
        exact hFold
  | aborted first rest hCells hRest hFold =>
      refine .aborted (p :: first) rest (by rw [hCells]; rfl) ?_ ?_
      · rw [List.flatMap_cons]
        exact Site.readable_append.mpr ⟨hReadable, hRest⟩
      · rw [List.foldlM_cons, hOp]
        exact hFold

/- By induction on the cells that are left. -/
theorem swept_ending
    {step : Gathering τ → Point → Except (Ended ε τ) (Gathering τ)}
    (hStep : ∀ p g, Meets s (reads p) (op p) g (step g p))
    (l : List Point)
    (t : τ)
    (r : Registers) :
    Swept s reads op l t r (ending (l.foldlM step ⟨t, false, r⟩)) := by
  induction l generalizing t with
  | nil => exact .complete (fun _ h => absurd h List.not_mem_nil) rfl
  | cons p l ih =>
      have hHere := hStep p ⟨t, false, r⟩
      rw [List.foldlM_cons]
      generalize step ⟨t, false, r⟩ p = x at hHere
      cases hHere with
      | closed hClosed => exact .closed hClosed
      | @noted g' hWaiting hSome hCircular hMissing =>
          obtain ⟨t', r', hEnding, hClosed | ⟨hSame, hAll⟩⟩ :=
            ending_of_waiting hStep l hWaiting
          · change Swept s reads op (p :: l) t r
              (ending (l.foldlM step g'))
            rw [hEnding]
            exact .closed hClosed
          · change Swept s reads op (p :: l) t r
              (ending (l.foldlM step g'))
            rw [hEnding]
            refine .noted ?_ (hSame.trans hCircular) ?_
            · rw [List.flatMap_cons, Site.awaited_append]
              simp [hSome]
            · rw [hAll, hMissing, List.flatMap_cons,
                Site.awaited_append, List.append_assoc]
      | added hReadable =>
          rw [add, if_neg (by simp)]
          dsimp only
          cases hOp : op p t with
          | ok t' => exact (ih t').cons hReadable hOp
          | error e =>
              refine .aborted [p] l rfl ?_ ?_
              · simpa using hReadable
              · rw [List.foldlM_cons, hOp]
                rfl

/- Reading one cell. -/
theorem meets_read
    (s : Site)
    (p : Point)
    (op : Scalar → τ → Except ε τ)
    (g : Gathering τ) :
    Meets s [p] (op (s.shown p)) g
      (g.read s p >>= fun x => x.2.add (op x.1)) := by
  unfold Gathering.read
  cases hRead : s.read p with
  | value v =>
      have hReadable : s.Readable [p] := by
        simp [Site.Readable, Site.shown, hRead]
      have hShown : s.shown p = v := by rw [Site.shown, hRead]
      rw [hShown]
      exact .added hReadable
  | pending id =>
      have hAwaited : s.awaited [p] = [id] := by
        simp [Site.awaited, Site.awaited?, hRead]
      refine .noted rfl (by simp [hAwaited]) rfl ?_
      simp [Registers.await, hAwaited]
  | circular => exact .closed rfl

/- The cells that a step over two rectangles reads. -/
def both (inside : Bool) (p q : Point) : List Point :=
  if inside then [p, q] else [p]

/- Reading a cell and one that may lie outside. -/
theorem meets_readIf
    (s : Site)
    (inside : Bool)
    (p q : Point)
    (op : Scalar → Scalar → τ → Except ε τ)
    (g : Gathering τ) :
    Meets s (both inside p q)
      (op (s.shown p) (if inside then s.shown q else .blank)) g
      (g.read s p >>= fun x =>
        x.2.readIf inside s q >>= fun y =>
          y.2.add (op x.1 y.1)) := by
  cases inside with
  | false =>
      exact meets_read s p (fun v => op v .blank) g
  | true =>
      unfold readIf Gathering.read
      cases hFirst : s.read p with
      | circular => exact .closed rfl
      | value v =>
          have hShown : s.shown p = v := by rw [Site.shown, hFirst]
          cases hSecond : s.read q with
          | circular => exact .closed rfl
          | value w =>
              have hShown' : s.shown q = w := by
                rw [Site.shown, hSecond]
              rw [hShown, if_pos rfl, hShown']
              refine .added ?_
              simp [both, Site.Readable, hFirst, hSecond, hShown,
                hShown']
          | pending id =>
              have hAwaited :
                  s.awaited (both true p q) = [id] := by
                simp [both, Site.awaited, Site.awaited?, hFirst,
                  hSecond]
              refine .noted rfl (by simp [hAwaited]) rfl ?_
              simp [Registers.await, hAwaited]
      | pending id =>
          cases hSecond : s.read q with
          | circular => exact .closed rfl
          | value w =>
              have hAwaited :
                  s.awaited (both true p q) = [id] := by
                simp [both, Site.awaited, Site.awaited?, hFirst,
                  hSecond]
              refine .noted rfl (by simp [hAwaited]) rfl ?_
              simp [Registers.await, hAwaited]
          | pending id' =>
              have hAwaited :
                  s.awaited (both true p q) = [id, id'] := by
                simp [both, Site.awaited, Site.awaited?, hFirst,
                  hSecond]
              refine .noted rfl (by simp [hAwaited]) rfl ?_
              simp [Registers.await, hAwaited]

end Gathering

namespace Registers

open Gathering

variable {ε τ : Type}

/- A run over the cells of a rectangle. -/
theorem swept_foldArea
    (r : Registers)
    (s : Site)
    (area : Rect)
    (op : Scalar → τ → Except ε τ)
    (t : τ) :
    Swept s (fun p => [p]) (fun p => op (s.shown p)) area.clip.points t r
      (r.foldArea s area op t) := by
  rw [foldArea, Rect.foldUntil_eq_foldlM]
  exact swept_ending (fun p g => meets_read s p op g) _ t r

/- The cells of two rectangles at the same offset. -/
def cellsAt (a b : Rect) (q : Point) : List Point :=
  both (b.clip.size.contains q) (q.add a.origin.toSize)
    (q.add b.origin.toSize)

/- A run over the cells of two rectangles, offset by offset. -/
theorem swept_foldAreas
    (r : Registers)
    (s : Site)
    (a b : Rect)
    (op : Scalar → Scalar → τ → Except ε τ)
    (t : τ) :
    Swept s (cellsAt a b)
      (fun q =>
        op (s.shown (q.add a.origin.toSize))
          (if b.clip.size.contains q then
            s.shown (q.add b.origin.toSize)
          else .blank))
      (Rect.whole a.clip.size).points t r
      (r.foldAreas s a b op t) := by
  rw [foldAreas, Rect.foldUntil_eq_foldlM]
  exact swept_ending
    (fun q g => meets_readIf s (b.clip.size.contains q) _ _ op g) _ t r

end Registers

------------------------------------------------------------
-- Aggregates
------------------------------------------------------------

/-
  What comes of cells that a node folds: it pauses at a cycle,
  or with all formulas noted that the cells wait for, or it
  goes on, as all cells were read or as the fold had failed
  before there was one to wait for.
-/
inductive Site.FoldsCells
    (s : Site)
    (cells : List Point)
    (Fails : List Point → Prop)
    (r : Registers) : Outcome → Registers → Prop where
  | closed
      {r' : Registers}
      (hClosed : r'.circular = true) :
      FoldsCells s cells Fails r .pause r'
  | noted
      {r' : Registers}
      (hSome : s.awaited cells ≠ [])
      (hCircular : r'.circular = r.circular)
      (hMissing :
        r'.missing.toList = r.missing.toList ++ s.awaited cells) :
      FoldsCells s cells Fails r .pause r'
  | complete
      {o : Outcome}
      {r' : Registers}
      (hGoesOn : o ≠ .pause)
      (hReadable : s.Readable cells) :
      FoldsCells s cells Fails r o r'
  | failed
      {o : Outcome}
      {r' : Registers}
      (first rest : List Point)
      (hGoesOn : o ≠ .pause)
      (hCells : cells = first ++ rest)
      (hReadable : s.Readable first)
      (hFails : Fails first) :
      FoldsCells s cells Fails r o r'

/- An aggregate over a rectangle folds its cells. -/
theorem AggregateNotes.foldsCells_afterOperand
    (s : Site)
    (g : Aggregate)
    {n : AggregateNotes}
    {r : Registers}
    {a : Rect}
    {fold : Fold}
    (hNeeded : r.suppressed = false)
    (hFold : n.fold = .ok fold)
    (hValue : r.value = .area a) :
    s.FoldsCells a.clip.points
      (fun first => ∃ e,
        first.foldlM (fun t p => Fold.addIndirect g (s.shown p) t)
          fold = .error e)
      r (n.afterOperand g s r).1 (n.afterOperand g s r).2.2 := by
  have hSwept := r.swept_foldArea s a (Fold.addIndirect g) fold
  unfold afterOperand
  rw [if_neg (by simp [hNeeded]), hFold]
  dsimp only
  unfold foldOperand
  rw [hValue]
  dsimp only
  generalize r.foldArea s a (Fold.addIndirect g) fold = ended at hSwept
  cases hSwept with
  | closed hClosed => exact .closed hClosed
  | noted hSome hCircular hMissing =>
      simp only [List.flatMap_singleton'] at hSome hMissing
      exact .noted hSome hCircular hMissing
  | complete hReadable hRun =>
      simp only [List.flatMap_singleton'] at hReadable
      exact .complete (by simp [afterAll]) hReadable
  | aborted first rest hCells hReadable hRun =>
      simp only [List.flatMap_singleton'] at hReadable
      exact .failed first rest (by simp [afterAll]) hCells hReadable
        ⟨_, hRun⟩

namespace Factor

/- The cells that the sum of the products of two factors reads. -/
def cells : Factor → Factor → List Point
  | .area a, .area b =>
      (Rect.whole a.clip.size).points.flatMap (Registers.cellsAt a b)
  | .area a, .scalars _ _ => a.clip.points
  | .scalars _ _, .area b => b.clip.points
  | .scalars _ _, .scalars _ _ => []

/- The sum of the products of the cells at some offsets fails. -/
def SumFails
    (s : Site)
    (a b : Rect)
    (first : List Point) : Prop :=
  ∃ (l : List Point) (e : ErrorValue),
    first = l.flatMap (Registers.cellsAt a b) ∧
    l.foldlM
      (fun total q =>
        ProductNotes.addProduct (s.shown (q.add a.origin.toSize))
          (if b.clip.size.contains q then
            s.shown (q.add b.origin.toSize)
          else .blank)
          total)
      0 = .error e

/- Only a sum over two rectangles can fail before its end. -/
def Fails (s : Site) : Factor → Factor → List Point → Prop
  | .area a, .area b => SumFails s a b
  | _, _ => fun _ => False

/- The cells of a rectangle are collected, or it has to wait. -/
theorem foldsCells_collect
    (s : Site)
    (a : Rect)
    (r : Registers) :
    (∃ r', (Factor.area a).collect s r = (none, r') ∧
      s.FoldsCells a.clip.points (fun _ => False) r .pause r') ∨
    ∃ vs, (Factor.area a).collect s r = (some vs, r) ∧
      s.Readable a.clip.points := by
  have hSwept :=
    r.swept_foldArea s a
      (fun v vs => (.ok (v :: vs) : Except ErrorValue _)) []
  unfold collect
  dsimp only
  generalize r.foldArea s a
    (fun v vs => (.ok (v :: vs) : Except ErrorValue _)) [] = ended
    at hSwept
  cases hSwept with
  | closed hClosed => exact Or.inl ⟨_, rfl, .closed hClosed⟩
  | noted hSome hCircular hMissing =>
      simp only [List.flatMap_singleton'] at hSome hMissing
      exact Or.inl ⟨_, rfl, .noted hSome hCircular hMissing⟩
  | complete hReadable hFold =>
      simp only [List.flatMap_singleton'] at hReadable
      exact Or.inr ⟨_, rfl, hReadable⟩
  | aborted first rest hCells hReadable hFold =>
      have hPure : first.foldlM (fun t p => (.ok (s.shown p :: t) :
          Except ErrorValue (List Scalar))) [] = .ok _ :=
        List.foldlM_pure
      rw [hPure] at hFold
      cases hFold

end Factor

/- A sum of products folds the cells of its rectangles. -/
theorem ProductNotes.foldsCells_leave
    (s : Site)
    {n : ProductNotes}
    {r : Registers}
    {a b : Factor}
    (hNeeded : r.suppressed = false)
    (hFirst : n.first = some a)
    (hSecond : n.second = some b)
    (hExtent : a.extent = b.extent) :
    s.FoldsCells (a.cells b) (a.Fails s b) r (n.leave s r).1
      (n.leave s r).2.2 := by
  unfold leave compute
  rw [if_neg (by simp [hNeeded]), hFirst, hSecond]
  dsimp only
  rw [if_pos hExtent]
  cases a with
  | area a =>
      cases b with
      | area b =>
          have hSwept := r.swept_foldAreas s a b addProduct 0
          unfold sumFactors sumAreas
          dsimp only
          generalize r.foldAreas s a b addProduct 0 = ended at hSwept
          cases hSwept with
          | closed hClosed => exact .closed hClosed
          | noted hSome hCircular hMissing =>
              exact .noted hSome hCircular hMissing
          | complete hReadable hFold => exact .complete nofun hReadable
          | aborted first rest hCells hReadable hFold =>
              refine .failed (first.flatMap (Registers.cellsAt a b))
                (rest.flatMap (Registers.cellsAt a b)) nofun ?_ hReadable
                ⟨first, _, rfl, hFold⟩
              rw [Factor.cells, hCells, List.flatMap_append]
      | scalars extent ws =>
          unfold sumFactors
          dsimp only
          rcases Factor.foldsCells_collect s a r with
            ⟨r', hEq, hFolds⟩ | ⟨vs, hEq, hReadable⟩
          · rw [hEq]
            exact hFolds
          · rw [hEq]
            exact .complete nofun hReadable
  | scalars extent vs =>
      cases b with
      | area b =>
          unfold sumFactors
          dsimp only
          rcases Factor.foldsCells_collect s b r with
            ⟨r', hEq, hFolds⟩ | ⟨ws, hEq, hReadable⟩
          · rw [Factor.collect]
            dsimp only
            rw [hEq]
            exact hFolds
          · rw [Factor.collect]
            dsimp only
            rw [hEq]
            exact .complete nofun hReadable
      | scalars extent' ws =>
          exact .complete nofun fun _ h => absurd h List.not_mem_nil

end Spreadsheet
