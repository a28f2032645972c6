import Spreadsheet.Proofs.Evaluation.Answers
import Spreadsheet.Proofs.Evaluation.Pauses
import Spreadsheet.Proofs.Evaluation.Sweeps
import Spreadsheet.Proofs.Expr.Progress

/-
  Evaluations that are called again after they had to wait.

  A node that cannot read a cell keeps its notes, and leaves
  the registers as they were but for the formulas that are
  missing. So a walk that paused goes on as if it had come to
  that event for the first time.

  Main declarations:
    * `Response.Level`
    * `Site.level_respond`
    * `Site.rests_respond`
    * `Evaluation.drain`
    * `Evaluation.advance_drain`
-/

namespace Spreadsheet

------------------------------------------------------------
-- Nodes That Go On
------------------------------------------------------------

/- A node that goes on finds nothing more missing. -/
def Response.Level
    {σ : Type}
    (r : Registers)
    (res : Response σ) : Prop :=
  res.1 ≠ .pause →
    res.2.2.circular = r.circular ∧ res.2.2.missing = r.missing

section

variable {s : Site} {r : Registers}

theorem Operand.within_all (o : Operand) :
    o.Within fun _ => True := by
  cases o with
  | area a => exact fun _ => trivial
  | scalar v => trivial
  | array a => trivial
  | cell p => trivial

namespace Registers

theorem reduce_cases (s : Site) (r : Registers) :
    r.reduce s = (.unneeded, r) ∨ (∃ v, r.reduce s = (.scalar v, r)) ∨
      ∃ r', r.reduce s = (.waiting, r') := by
  rcases reduce_spec (s := s) fun _ => r.value.within_all with
    ⟨-, hEq⟩ | ⟨-, hScalar | ⟨r', hEq, -⟩⟩
  · exact Or.inl hEq
  · exact Or.inr (Or.inl hScalar)
  · exact Or.inr (Or.inr ⟨r', hEq⟩)

theorem read_cases (s : Site) (r : Registers) (p : Point) :
    (∃ v, r.read s p = (some v, r)) ∨
      ∃ r', r.read s p = (none, r') := by
  unfold read
  split
  · exact Or.inl ⟨_, rfl⟩
  · exact Or.inr ⟨_, rfl⟩
  · exact Or.inr ⟨_, rfl⟩

theorem level_nextElement (r : Registers) :
    r.nextElement.2.circular = r.circular ∧
      r.nextElement.2.missing = r.missing := by
  rcases Site.nextElement_cases r with ⟨p, -, hEq⟩ | hEq <;>
    rw [hEq] <;> exact ⟨rfl, rfl⟩

theorem level_publishScalar
    (r : Registers)
    (v : Scalar)
    (extent : Size) :
    (r.publishScalar v extent).circular = r.circular ∧
      (r.publishScalar v extent).missing = r.missing := by
  unfold publishScalar
  split <;> exact ⟨rfl, rfl⟩

end Registers

theorem InfixNotes.level
    (n : InfixNotes)
    (op : InfixOp)
    (i : Nat) :
    Response.Level r (n.afterOperand op s i r) := by
  unfold afterOperand
  rcases r.reduce_cases s with hEq | ⟨v, hEq⟩ | ⟨r', hEq⟩ <;> rw [hEq]
  · exact fun _ => ⟨rfl, rfl⟩
  · exact fun _ => ⟨rfl, rfl⟩
  · exact fun hGoesOn => absurd rfl hGoesOn

theorem UnaryNotes.level
    (n : UnaryNotes)
    (f : Scalar → Scalar) :
    Response.Level r (n.afterOperand f s r) := by
  unfold afterOperand
  rcases r.reduce_cases s with hEq | ⟨v, hEq⟩ | ⟨r', hEq⟩ <;> rw [hEq]
  · exact fun _ => ⟨rfl, rfl⟩
  · exact fun _ => ⟨rfl, rfl⟩
  · exact fun hGoesOn => absurd rfl hGoesOn

theorem ElementwiseNotes.level (n : ElementwiseNotes) :
    Response.Level r (n.afterOperand s r) := by
  unfold afterOperand
  rcases r.reduce_cases s with hEq | ⟨v, hEq⟩ | ⟨r', hEq⟩ <;> rw [hEq]
  · exact fun _ => ⟨rfl, rfl⟩
  · exact fun _ => ⟨rfl, rfl⟩
  · exact fun hGoesOn => absurd rfl hGoesOn

theorem ChoiceNotes.level
    (n : ChoiceNotes)
    (f : Choice)
    (count i : Nat) :
    Response.Level r (n.afterOperand f count s i r) := by
  unfold afterOperand
  split
  · unfold afterSelector
    rcases r.reduce_cases s with hEq | ⟨v, hEq⟩ | ⟨r', hEq⟩ <;> rw [hEq]
    · exact fun _ => ⟨rfl, rfl⟩
    · exact fun _ => ⟨rfl, rfl⟩
    · exact fun hGoesOn => absurd rfl hGoesOn
  · unfold afterAlternative
    dsimp only
    split <;> exact fun _ => ⟨rfl, rfl⟩

namespace AggregateNotes

theorem level_afterElement
    (n : AggregateNotes)
    (fold : Except ErrorValue Fold) :
    Response.Level r (n.afterElement fold r) := by
  unfold afterElement
  cases fold with
  | error e => exact fun _ => ⟨rfl, rfl⟩
  | ok fold => exact fun _ => r.level_nextElement

theorem level_afterAll
    (n : AggregateNotes)
    (fold : Except ErrorValue Fold) :
    Response.Level r (n.afterAll fold r) := by
  unfold afterAll
  cases fold <;> exact fun _ => ⟨rfl, rfl⟩

/- What an aggregate answers after an operand. -/
theorem afterOperand_cases
    (n : AggregateNotes)
    (f : Aggregate)
    (s : Site)
    (r : Registers) :
    (∃ r', n.afterOperand f s r = (.pause, n, r')) ∨
      n.afterOperand f s r = (.skipAll, n, r) ∨
      ∃ fold,
        r.value.isSingle = true ∧
            n.afterOperand f s r = n.afterElement fold r ∨
          r.value.isSingle = false ∧
            n.afterOperand f s r = n.afterAll fold r := by
  unfold afterOperand
  split
  · exact Or.inr (Or.inl rfl)
  · split
    · exact Or.inr (Or.inl rfl)
    · rename_i fold _
      unfold foldOperand
      cases r.value with
      | scalar v => exact Or.inr (Or.inr ⟨_, Or.inl ⟨rfl, rfl⟩⟩)
      | cell p =>
          dsimp only
          rcases r.read_cases s p with ⟨v, hEq⟩ | ⟨r', hEq⟩
          · rw [hEq]
            exact Or.inr (Or.inr ⟨_, Or.inl ⟨rfl, rfl⟩⟩)
          · rw [hEq]
            exact Or.inl ⟨r', rfl⟩
      | array a => exact Or.inr (Or.inr ⟨_, Or.inr ⟨rfl, rfl⟩⟩)
      | area a =>
          dsimp only
          have hSwept :=
            r.swept_foldArea s a (Fold.addIndirect f) fold
          generalize r.foldArea s a (Fold.addIndirect f) fold = ended
            at hSwept
          cases hSwept with
          | closed => exact Or.inl ⟨_, rfl⟩
          | noted => exact Or.inl ⟨_, rfl⟩
          | complete => exact Or.inr (Or.inr ⟨_, Or.inr ⟨rfl, rfl⟩⟩)
          | aborted => exact Or.inr (Or.inr ⟨_, Or.inr ⟨rfl, rfl⟩⟩)

theorem level
    (n : AggregateNotes)
    (f : Aggregate) :
    Response.Level r (n.afterOperand f s r) := by
  rcases n.afterOperand_cases f s r with
    ⟨r', hEq⟩ | hEq | ⟨fold, ⟨-, hEq⟩ | ⟨-, hEq⟩⟩ <;> rw [hEq]
  · exact fun hGoesOn => absurd rfl hGoesOn
  · exact fun _ => ⟨rfl, rfl⟩
  · exact n.level_afterElement fold
  · exact n.level_afterAll fold

end AggregateNotes

namespace ProductNotes

theorem level_afterOperand
    (n : ProductNotes)
    (i : Nat) :
    Response.Level r (n.afterOperand s i r) := by
  unfold afterOperand
  split
  · exact fun _ => ⟨rfl, rfl⟩
  · split
    · exact fun _ => ⟨rfl, rfl⟩
    · exact fun _ => ⟨rfl, rfl⟩
    · rename_i p _
      rcases r.read_cases s p with ⟨v, hEq⟩ | ⟨r', hEq⟩
      · rw [hEq]
        exact fun _ => ⟨rfl, rfl⟩
      · rw [hEq]
        exact fun hGoesOn => absurd rfl hGoesOn
    · exact fun _ => r.level_nextElement

theorem collect_cases (s : Site) (a : Factor) (r : Registers) :
    (∃ vs, a.collect s r = (some vs, r)) ∨
      ∃ r', a.collect s r = (none, r') := by
  cases a with
  | scalars extent vs => exact Or.inl ⟨_, rfl⟩
  | area a =>
      rcases Factor.foldsCells_collect s a r with
        ⟨r', hEq, -⟩ | ⟨vs, hEq, -⟩
      · exact Or.inr ⟨r', hEq⟩
      · exact Or.inl ⟨vs, hEq⟩

theorem sumFactors_cases
    (s : Site)
    (a b : Factor)
    (r : Registers) :
    (∃ total, sumFactors s a b r = (some total, r)) ∨
      ∃ r', sumFactors s a b r = (none, r') := by
  unfold sumFactors
  split
  · rename_i a b
    have hSwept := r.swept_foldAreas s a b addProduct 0
    unfold sumAreas
    generalize r.foldAreas s a b addProduct 0 = ended at hSwept
    cases hSwept with
    | closed => exact Or.inr ⟨_, rfl⟩
    | noted => exact Or.inr ⟨_, rfl⟩
    | complete => exact Or.inl ⟨_, rfl⟩
    | aborted => exact Or.inl ⟨_, rfl⟩
  · rcases collect_cases s a r with ⟨vs, hEq⟩ | ⟨r', hEq⟩
    · rw [hEq]
      dsimp only
      rcases collect_cases s b r with ⟨ws, hEq'⟩ | ⟨r', hEq'⟩
      · rw [hEq']
        exact Or.inl ⟨_, rfl⟩
      · rw [hEq']
        exact Or.inr ⟨_, rfl⟩
    · rw [hEq]
      exact Or.inr ⟨_, rfl⟩

theorem compute_cases (s : Site) (n : ProductNotes) (r : Registers) :
    (∃ total, n.compute s r = (some total, r)) ∨
      ∃ r', n.compute s r = (none, r') := by
  unfold compute
  split
  · split
    · exact sumFactors_cases s _ _ r
    · exact Or.inl ⟨_, rfl⟩
  · exact Or.inl ⟨_, rfl⟩

theorem level_leave (n : ProductNotes) :
    Response.Level r (n.leave s r) := by
  unfold leave
  split
  · exact fun _ => Registers.level_publishScalar _ _ _
  · rcases n.compute_cases s r with ⟨total, hEq⟩ | ⟨r', hEq⟩
    · rw [hEq]
      exact fun _ => Registers.level_publishScalar _ _ _
    · rw [hEq]
      exact fun hGoesOn => absurd rfl hGoesOn

end ProductNotes

namespace Notes

theorem level_afterOperand
    (n : Notes)
    (i : Nat) :
    Response.Level r (n.afterOperand s i r) := by
  cases n with
  | leaf l => exact fun _ => ⟨rfl, rfl⟩
  | infixOp op n => exact n.level op i
  | unary f n => exact n.level f
  | aggregate f n => exact n.level f
  | product n => exact n.level_afterOperand i
  | elementwise f n => exact n.level
  | choice f count n => exact n.level f count i

theorem level_leave (n : Notes) :
    Response.Level r (n.leave s r) := by
  cases n with
  | product n => exact n.level_leave
  | leaf l => exact fun _ => ⟨rfl, rfl⟩
  | infixOp op n => exact fun _ => Registers.level_publishScalar _ _ _
  | unary f n => exact fun _ => Registers.level_publishScalar _ _ _
  | aggregate f n =>
      exact fun _ => Registers.level_publishScalar _ _ _
  | elementwise f n =>
      exact fun _ => Registers.level_publishScalar _ _ _
  | choice f count n =>
      refine fun _ => ?_
      change (n.leave r).circular = r.circular ∧
        (n.leave r).missing = r.missing
      unfold ChoiceNotes.leave
      dsimp only
      split <;> exact ⟨rfl, rfl⟩

theorem level_beforeOperands (n : Notes) (r : Registers) :
    (n.beforeOperands r).2.circular = r.circular ∧
      (n.beforeOperands r).2.missing = r.missing := by
  cases n <;> exact ⟨rfl, rfl⟩

end Notes

/- The visitor of an evaluation goes on so at each event. -/
theorem Site.level_respond
    (s : Site)
    (f : Frame Notes)
    (r : Registers) :
    Response.Level r (s.visitor.respond f r) := by
  simp only [Site.visitor]
  cases f.stage with
  | entering => exact fun _ => ⟨rfl, rfl⟩
  | beforeChild =>
      dsimp only
      split
      · exact fun _ => f.scratch.level_beforeOperands r
      · exact fun _ => ⟨rfl, rfl⟩
  | afterChild => exact f.scratch.level_afterOperand f.child
  | leaving => exact f.scratch.level_leave

/- It keeps its notes where it pauses. -/
theorem Site.rests_respond
    (s : Site)
    (f : Frame Notes)
    (r : Registers) :
    Response.Rests f.scratch r (s.visitor.respond f r) := by
  simp only [Site.visitor]
  cases f.stage with
  | entering => intro hPause; cases hPause
  | beforeChild =>
      dsimp only
      split <;> intro hPause <;> cases hPause
  | afterChild => exact f.scratch.rests_afterOperand f.child
  | leaving => exact f.scratch.rests_leave

end

------------------------------------------------------------
-- Calls After A Pause
------------------------------------------------------------

namespace Registers

/- Nothing is missing, and no cycle was met. -/
def Clear (r : Registers) : Prop :=
  r.circular = false ∧ r.missing = #[]

/- Nothing else has changed where something is missing. -/
theorem Clear.drained
    {r r' : Registers}
    (hClear : r.Clear)
    (hRecounts : r.Recounts r')
    (hCircular : r'.circular = false) :
    { r' with missing := #[] } = r := by
  rw [hRecounts]
  obtain ⟨hOpen, hNone⟩ := hClear
  rw [hCircular, ← hOpen, ← hNone]
  rfl

theorem Clear.respond
    {s : Site}
    {f : Frame Notes}
    {r : Registers}
    (hGoesOn : (s.visitor.respond f r).1 ≠ .pause)
    (hClear : r.Clear) :
    (s.visitor.respond f r).2.2.Clear := by
  obtain ⟨hCircular, hMissing⟩ := s.level_respond f r hGoesOn
  exact ⟨hCircular.trans hClear.1, hMissing.trans hClear.2⟩

/- The check for room can be made again. -/
theorem spill_spill
    (r : Registers)
    (s : Site)
    (owner : Handle) :
    (r.spill s owner).spill s owner = r.spill s owner := by
  by_cases hOne : r.extent = Size.one
  · have hSame : r.spill s owner = r := by
      rw [spill, if_pos hOne]
    rw [hSame, hSame]
  · cases hArea : (Rect.mk s.location r.extent).clip.intersection
      (.whole s.grid.size) with
    | none =>
        have hSame : r.spill s owner = r := by
          rw [spill, if_neg hOne]
          simp only [hArea]
        rw [hSame, hSame]
    | some area =>
        have hSpill : r.spill s owner =
            if isObstructed s owner area then
              r.publish (.error .spill) Size.one
            else
              { r with
                extent := (Rect.mk s.location r.extent).clip.size } := by
          rw [spill, if_neg hOne]
          simp only [hArea]
        rw [hSpill]
        split
        · exact if_pos rfl
        · rename_i hFree
          have hClip :
              (Rect.mk s.location
                (Rect.mk s.location r.extent).clip.size).clip =
                (Rect.mk s.location r.extent).clip := by
            simp [Rect.clip, Size.inf]
          rw [spill]
          dsimp only
          split
          · rfl
          · rw [hClip, hArea]
            simp only [hFree]
            rfl

end Registers

namespace Evaluation

open Registers

variable {s t : Site} {owner : Handle} {e : Expr}
variable {ev ev' : Evaluation}

/- The formulas that were missing are handed over. -/
def drain (ev : Evaluation) : Evaluation :=
  { ev with registers := { ev.registers with missing := #[] } }

theorem circular_of_waiting
    {r : Registers}
    (hWaiting : missing r = .waiting) : r.circular = false := by
  unfold missing at hWaiting
  split at hWaiting
  · cases hWaiting
  · simp_all

/- A result that had to wait is as it was. -/
theorem yield_drain
    (hClear : ev.registers.Clear)
    (hWaiting : (ev.yield s).1 = .waiting) :
    (ev.yield s).2.drain = ev := by
  have hRecounts := recounts_result s ev.registers
  unfold yield at hWaiting ⊢
  generalize ev.registers.result s = res at hRecounts hWaiting
  rcases res with ⟨- | v, r⟩
  · rw [drain]
    dsimp only
    rw [hClear.drained hRecounts (circular_of_waiting hWaiting)]
  · cases hWaiting

/- The walk that goes on from an evaluation. -/
def steps
    (s : Site)
    (e : Expr)
    (ev : Evaluation) :
    WalkStatus × List (Frame Notes) × Registers :=
  Walk.steps s.visitor (s.fuel e)
    (ev.walk.getD [Frame.enter s.visitor e ev.registers]) ev.registers

theorem advance_of_steps
    (hFree : ev.indexed = false) :
    ev.advance s owner e =
      match ev.steps s e with
      | (.done, stack, r) => finish s owner ⟨some stack, r, false⟩
      | (_, stack, r) => (missing r, ⟨some stack, r, false⟩) := by
  rw [advance, if_neg (by simp [hFree]), Walk.run, steps]
  dsimp only
  generalize Walk.steps s.visitor (s.fuel e) _ ev.registers = res
  rcases res with ⟨status, stack, r⟩
  cases status <;> rfl

theorem advance_congr
    (hFree : ev.indexed = false)
    (hFree' : ev'.indexed = false)
    (hSteps : ev.steps s e = ev'.steps s e) :
    ev.advance s owner e = ev'.advance s owner e := by
  rw [advance_of_steps hFree, advance_of_steps hFree', hSteps]

/- A walk of a proper expression has steps enough. -/
theorem steps_cases
    (hProper : e.Proper)
    (hWalk : ev.walk = none) :
    (∃ r, ev.registers.Left s e r ∧ ev.steps s e = (.done, [], r)) ∨
      ∃ stack r, ev.steps s e = (.paused, stack, r) := by
  have hVisits :=
    s.visits_of_proper hProper (Nat.le_max_right 1 (s.reach e).area)
  unfold steps
  rw [hWalk]
  rcases Walk.steps_of_reaches (hVisits [] ev.registers) with
    ⟨r, hDone, hEq⟩ | ⟨stack, r, -, hEq⟩
  · exact Or.inl ⟨r, hDone, hEq⟩
  · exact Or.inr ⟨stack, r, hEq⟩

theorem fuel_later
    (hLater : s.Later t)
    (hProper : e.Proper) :
    t.fuel e = s.fuel e := by
  rw [Site.fuel, Site.fuel,
    Site.reach_eq hLater.size hLater.refs hLater.location hProper]

/-
  A walk that paused goes on like one that has come to the
  same event later.
-/
theorem steps_drain
    (hLater : s.Later t)
    (hProper : e.Proper)
    (hWalk : ev.walk = none)
    (hClear : ev.registers.Clear)
    {stack : List (Frame Notes)}
    {r : Registers}
    (hPaused : ev.steps s e = (.paused, stack, r))
    (hCircular : r.circular = false) :
    (drain ⟨some stack, r, false⟩).steps t e = ev.steps t e := by
  have hFuel := fuel_later hLater hProper
  have hEnter := hLater.follows.enter e ev.registers
  have hPaused' := hPaused
  rw [steps, hWalk, Option.getD_none] at hPaused'
  obtain ⟨m, f, rest, u, hm, hu, hSame, hPause, rfl, rfl⟩ :=
    Walk.steps_paused (fun _ _ => Clear.respond) hClear hPaused'
  obtain ⟨hNotes, hRecounts⟩ := s.rests_respond f u hPause
  have hDrain := hu.drained hRecounts hCircular
  have hFresh : (ev.steps t e).1 ≠ .unfinished := by
    rcases steps_cases (s := t) hProper hWalk with
      ⟨r, -, hEq⟩ | ⟨stack, r, hEq⟩ <;> rw [hEq] <;> nofun
  obtain ⟨k, hk⟩ := Nat.exists_eq_add_of_le hm
  have hThere : ev.steps t e = Walk.steps t.visitor k (f :: rest) u := by
    rw [steps, hWalk, Option.getD_none, hFuel, hEnter, hk]
    exact hSame t.visitor hLater.follows k
  rw [hThere] at hFresh ⊢
  rw [steps, drain]
  dsimp only [Option.getD_some]
  rw [hDrain, hNotes, hFuel, hk, Nat.add_comm m k]
  exact Walk.steps_add hFresh m

/- The registers of a result, after the check for room. -/
def settled (s : Site) (owner : Handle) (r : Registers) : Registers :=
  if r.offset = Point.zero then r.spill s owner else r

theorem finish_eq
    (s : Site)
    (owner : Handle)
    (walk : Walk Notes)
    (r : Registers) :
    finish s owner ⟨walk, r, false⟩ =
      yield s ⟨walk, settled s owner r, false⟩ := rfl

theorem clear_settled
    {r : Registers}
    (hClear : r.Clear) :
    (settled s owner r).Clear := by
  unfold settled
  split
  · obtain ⟨-, hCircular, -, hMissing, -⟩ :=
      r.spill_spec s owner r.value.within_all
    exact ⟨hCircular.trans hClear.1, hMissing.trans hClear.2⟩
  · exact hClear

/- The check for room changes nothing later, or once more. -/
theorem settled_settled
    (hLater : s.Later t)
    (r : Registers) :
    settled t owner (settled s owner r) = settled t owner r := by
  have hOffset : (r.spill s owner).offset = r.offset :=
    (r.spill_spec s owner r.value.within_all).2.2.1
  unfold settled
  split
  · rename_i hZero
    rw [hOffset, if_pos hZero, spill_later hLater, spill_later hLater,
      spill_spill]
  · rfl

/- A result that had to wait is found like a new one. -/
theorem finish_drain
    (hLater : s.Later t)
    {r : Registers}
    (hClear : r.Clear)
    (hWaiting : (finish s owner ⟨some [], r, false⟩).1 = .waiting) :
    ((finish s owner ⟨some [], r, false⟩).2.drain).advance t owner e =
      finish t owner ⟨some [], r, false⟩ := by
  rw [finish_eq] at hWaiting ⊢
  rw [yield_drain (clear_settled hClear) hWaiting, advance_of_steps rfl,
    steps, Option.getD_some, Walk.steps_nil]
  dsimp only
  rw [finish_eq, finish_eq, settled_settled hLater]

/-
  An evaluation that had to wait and is called again comes to
  the same as one that was not called before.
-/
theorem advance_drain
    (hLater : s.Later t)
    (hProper : e.Proper)
    {covers : Point → Prop}
    (hReady : ev.Ready covers)
    {ev₁ : Evaluation}
    (hStop : ev.advance s owner e = (.waiting, ev₁)) :
    ev₁.drain.advance t owner e = ev.advance t owner e := by
  have hClear : ev.registers.Clear := ⟨hReady.circular, hReady.missing⟩
  have hWaiting : (ev.advance s owner e).1 = .waiting := by rw [hStop]
  obtain rfl : (ev.advance s owner e).2 = ev₁ := by rw [hStop]
  clear hStop
  cases hIndexed : ev.indexed with
  | true =>
      have hYield : ev.advance s owner e = ev.yield s := by
        rw [advance, if_pos hIndexed]
      rw [hYield] at hWaiting ⊢
      rw [yield_drain hClear hWaiting]
  | false =>
      have hWalk := hReady.walk hIndexed
      rw [advance_of_steps hIndexed] at hWaiting ⊢
      rcases steps_cases (s := s) hProper hWalk with
        ⟨r, hLeft, hEq⟩ | ⟨stack, r, hEq⟩
      · rw [hEq] at hWaiting ⊢
        have hClear' : r.Clear :=
          ⟨hLeft.circular.trans hClear.1, hLeft.missing.trans hClear.2⟩
        have hSame : ev.steps t e = ev.steps s e := by
          rw [steps, steps, fuel_later hLater hProper, hWalk,
            Option.getD_none, hLater.follows.enter]
          refine Walk.steps_follow hLater.follows ?_
          rw [steps, hWalk, Option.getD_none] at hEq
          simp [hEq]
        rw [advance_of_steps hIndexed, hSame, hEq]
        exact finish_drain hLater hClear' hWaiting
      · rw [hEq] at hWaiting ⊢
        exact advance_congr rfl hIndexed
          (steps_drain hLater hProper hWalk hClear hEq
            (circular_of_waiting hWaiting))

end Evaluation

end Spreadsheet
