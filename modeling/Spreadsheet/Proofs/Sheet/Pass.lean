import Mathlib.Data.List.Perm.Basic
import Spreadsheet.Proofs.Sheet.Evaluation

/-
  A pass of recalculation, step by step.

  The formulas before the current one have been calculated,
  and the others have not. Formulas are only ever moved among
  the latter, so each step is progress: a formula is finished,
  or one more is begun.

  Main declarations:
    * `Sheet.Pass`
    * `Sheet.effort`
    * `Sheet.Pass.finish`
    * `Sheet.Pass.interrupt`
    * `Sheet.recalculateFrom_induction`
    * `Sheet.Orderly.recalculate`
-/

namespace Spreadsheet

namespace Sheet

------------------------------------------------------------
-- Moving Formulas Forward
------------------------------------------------------------

/- Handles are moved to the front, the last one foremost. -/
def bringForward
    (missing todo : List Handle) : List Handle :=
  missing.foldl (fun l h => h :: l.erase h) todo

theorem perm_bringForward
    {missing todo : List Handle}
    (hMissing : ∀ h ∈ missing, h ∈ todo) :
    (bringForward missing todo).Perm todo := by
  induction missing generalizing todo with
  | nil => exact List.Perm.refl _
  | cons h missing ih =>
      have hHere : (h :: todo.erase h).Perm todo :=
        (List.perm_cons_erase (hMissing h List.mem_cons_self)).symm
      refine (ih fun k hk => ?_).trans hHere
      exact
        hHere.mem_iff.mpr (hMissing k (List.mem_cons_of_mem _ hk))

/- The first one is the one that was moved last. -/
theorem head?_bringForward
    {missing : List Handle}
    (hSome : missing ≠ [])
    (todo : List Handle) :
    ∃ h ∈ missing, (bringForward missing todo).head? = some h := by
  induction missing generalizing todo with
  | nil => exact absurd rfl hSome
  | cons h missing ih =>
      by_cases hRest : missing = []
      · refine ⟨h, List.mem_cons_self, ?_⟩
        rw [hRest]
        rfl
      · rcases ih hRest (h :: todo.erase h) with ⟨k, hk, hHead⟩
        exact ⟨k, List.mem_cons_of_mem _ hk, hHead⟩

/- What holds between a handle and all later ones still does. -/
theorem pairwise_bringForward
    {R : Handle → Handle → Prop}
    {missing todo : List Handle}
    (hPairwise : todo.Pairwise R)
    (hMissing : ∀ h ∈ missing, h ∈ todo)
    (hAll : ∀ h ∈ missing, ∀ k ∈ todo, R h k) :
    (bringForward missing todo).Pairwise R := by
  induction missing generalizing todo with
  | nil => exact hPairwise
  | cons h missing ih =>
      have hHere : (h :: todo.erase h).Perm todo :=
        (List.perm_cons_erase (hMissing h List.mem_cons_self)).symm
      refine ih ?_ (fun k hk => ?_) fun k hk j hj => ?_
      · rw [List.pairwise_cons]
        refine ⟨fun k hk => ?_, hPairwise.sublist List.erase_sublist⟩
        exact
          hAll h List.mem_cons_self k (List.mem_of_mem_erase hk)
      · exact
          hHere.mem_iff.mpr (hMissing k (List.mem_cons_of_mem _ hk))
      · exact
          hAll k (List.mem_cons_of_mem _ hk) j (hHere.mem_iff.mp hj)

/- Scheduling moves formulas in front of the current one. -/
theorem schedule_spec
    {formulas : FormulaList}
    {done todo : List Handle}
    {id : Handle}
    (hListed : formulas.Listed (done ++ id :: todo))
    {missing : List Handle}
    (hMissing : ∀ h ∈ missing, h ∈ id :: todo) :
    (schedule id missing formulas).2.Listed
        (done ++ bringForward missing (id :: todo)) ∧
      (bringForward missing (id :: todo)).head? =
        some (schedule id missing formulas).1 ∧
      ∀ k, (schedule id missing formulas).2.get? k =
        formulas.get? k := by
  induction missing generalizing id todo formulas with
  | nil => exact ⟨hListed, rfl, fun k => rfl⟩
  | cons h missing ih =>
      have hIn := hMissing h List.mem_cons_self
      by_cases hSame : h = id
      · -- it stands in front already
        have hStep :
            schedule id (h :: missing) formulas =
              schedule id missing formulas := by
          rw [schedule, List.foldl_cons]
          dsimp only
          rw [if_pos hSame]
          rfl
        have hFront :
            bringForward (h :: missing) (id :: todo) =
              bringForward missing (id :: todo) := by
          rw [bringForward, List.foldl_cons, hSame,
            List.erase_cons_head]
          rfl
        rw [hStep, hFront]
        exact ih hListed fun k hk =>
          hMissing k (List.mem_cons_of_mem _ hk)
      · have hStep :
            schedule id (h :: missing) formulas =
              schedule h missing (formulas.moveBefore h id) := by
          rw [schedule, List.foldl_cons]
          dsimp only
          rw [if_neg hSame]
          rfl
        have hFront :
            (id :: todo).erase h = id :: todo.erase h :=
          List.erase_cons_tail (by simpa using fun hEq => hSame hEq.symm)
        have hNodup := hListed.threads.nodup
        have hNew : h ∉ done := fun hDone =>
          (List.disjoint_of_nodup_append hNodup) hDone hIn
        have hErase :
            (done ++ id :: todo).erase h =
              done ++ id :: todo.erase h := by
          rw [List.erase_append_right _ hNew, hFront]
        have hMoved :=
          hListed.moveBefore (List.mem_append_right _ hIn) hSame
            hErase
        have hPerm :
            (h :: id :: todo.erase h).Perm (id :: todo) := by
          rw [← hFront]
          exact (List.perm_cons_erase hIn).symm
        rcases ih hMoved fun k hk =>
            hPerm.mem_iff.mpr
              (hMissing k (List.mem_cons_of_mem _ hk)) with
          ⟨hListed', hHead, hTable⟩
        have hAll :
            bringForward (h :: missing) (id :: todo) =
              bringForward missing (h :: id :: todo.erase h) := by
          rw [bringForward, List.foldl_cons, hFront]
          rfl
        rw [hStep, hAll]
        refine ⟨hListed', hHead, fun k => ?_⟩
        rw [hTable, LinkedArena.get?_moveBefore]

------------------------------------------------------------
-- Passes
------------------------------------------------------------

/-
  In the middle of a pass: the formulas of one list have been
  calculated, those of the other one have not.
-/
structure Pass (done todo : List Handle) (s : Sheet) : Prop where
  coherent : s.Coherent
  listed : s.formulas.Listed (done ++ todo)
  current :
    ∀ {id f}, id ∈ done → s.formulas.get? id = some f →
      f.generation = s.generation ∧ f.inProgress = false
  stale :
    ∀ {id f}, id ∈ todo → s.formulas.get? id = some f →
      f.generation ≠ s.generation
  proper :
    ∀ {id f}, s.formulas.get? id = some f → f.expr.Proper

/- At the beginning nothing has been calculated. -/
theorem Orderly.pass
    {s : Sheet}
    (hOrderly : s.Orderly) :
    ∃ todo, s.formulas.Listed todo ∧
      Pass [] todo { s with generation := !s.generation } := by
  rcases hOrderly.listed with ⟨todo, hListed⟩
  refine ⟨todo, hListed, ⟨hOrderly.sound, hOrderly.within,
    hOrderly.agrees, hOrderly.listed⟩, hListed, by simp, ?_,
    fun hLive => (hOrderly.settled hLive).proper⟩
  intro id f _ hLive
  rw [(hOrderly.settled hLive).generation_eq]
  simp

/- At the end all formulas are at rest. -/
theorem Pass.orderly
    {done : List Handle}
    {s : Sheet}
    (hPass : Pass done [] s) :
    s.Orderly := by
  refine ⟨hPass.coherent, fun {id f} hLive => ?_⟩
  have hIn : id ∈ done := by
    have hListed := hPass.listed
    rw [List.append_nil] at hListed
    rw [← hListed.isSome_get?_iff, hLive]
    rfl
  rcases hPass.current hIn hLive with ⟨hGeneration, hIdle⟩
  exact ⟨hGeneration, hIdle, hPass.proper hLive⟩

/- The formula with a handle has not been begun. -/
def isIdle (s : Sheet) (id : Handle) : Bool :=
  (s.formulas.get? id).any fun f => !f.inProgress

/-
  A bound of the steps to come, if there are `n` formulas: for
  each one that is left it counts how often others can be
  begun before it is finished.
-/
def effort (n : Nat) (todo : List Handle) (s : Sheet) : Nat :=
  todo.length * (n + 1) + todo.countP s.isIdle +
    if todo.head?.any (!s.isIdle ·) then 1 else 0

------------------------------------------------------------
-- Steps
------------------------------------------------------------

variable {done todo : List Handle} {id : Handle}
variable {s t : Sheet} {f : FormulaCell}

/- The sheet on which a formula is evaluated. -/
def begun (s : Sheet) (id : Handle) : Sheet :=
  s.modifyFormula id (·.setInProgress true)

theorem get?_begun (s : Sheet) (id k : Handle) :
    (s.begun id).formulas.get? k =
      if k = id then (s.formulas.get? k).map (·.setInProgress true)
      else s.formulas.get? k :=
  LinkedArena.get?_modify s.formulas id k _

theorem Coherent.begun
    (hCoherent : s.Coherent)
    (id : Handle) :
    (s.begun id).Coherent :=
  hCoherent.modifyFormula id (fun _ => rfl) fun _ => rfl

/- What is known after the current formula was evaluated. -/
theorem Pass.changed
    (hPass : Pass done (id :: todo) s)
    (hLive : s.formulas.get? id = some f)
    (hChanged : ChangesResult id (s.begun id) t) :
    t.generation = s.generation ∧
      t.formulas.Listed (done ++ id :: todo) ∧
      (∃ g, t.formulas.get? id = some g ∧ g.inProgress = true ∧
        g.generation = f.generation ∧ g.expr = f.expr) ∧
      ∀ k, k ≠ id → t.formulas.get? k = s.formulas.get? k := by
  refine ⟨hChanged.frame.generation,
    hChanged.listed (hPass.listed.modify id (·.setInProgress true)),
    ?_, fun k hk => ?_⟩
  · have hBegun :
        (s.begun id).formulas.get? id =
          some (f.setInProgress true) := by
      rw [get?_begun, if_pos rfl, hLive]
      rfl
    rcases hChanged.own hBegun with ⟨g, hg, hSame⟩
    refine ⟨g, hg, ?_⟩
    rw [hSame]
    exact ⟨rfl, rfl, rfl⟩
  · rw [hChanged.other hk, get?_begun, if_neg hk]

/- The current formula is finished. -/
theorem Pass.finish
    (hPass : Pass done (id :: todo) s)
    (hLive : s.formulas.get? id = some f)
    (hChanged : ChangesResult id (s.begun id) t)
    (blocked : Bool)
    {n : Nat}
    (hCount : 0 < n) :
    Pass (done ++ [id]) todo (t.finish id blocked).2 ∧
      (t.finish id blocked).1 = todo.head? ∧
      effort n todo (t.finish id blocked).2 <
        effort n (id :: todo) s := by
  rcases hPass.changed hLive hChanged with
    ⟨hGeneration, hListed, ⟨g, hg, -, -, hExpr⟩, hOther⟩
  have hNodup := hListed.threads.nodup
  have hNotDone : id ∉ done := fun hDone =>
    (List.disjoint_of_nodup_append hNodup) hDone List.mem_cons_self
  have hNotTodo : id ∉ todo :=
    (List.nodup_cons.mp hNodup.of_append_right).1
  have hTable :
      ∀ k, (t.finish id blocked).2.formulas.get? k =
        if k = id then some (g.finish t.generation blocked)
        else s.formulas.get? k := by
    intro k
    change (t.formulas.modify id _).get? k = _
    rw [LinkedArena.get?_modify]
    split
    · rename_i hEq
      rw [hEq, hg]
      rfl
    · rename_i hNe
      exact hOther k hNe
  have hListed' :
      (t.finish id blocked).2.formulas.Listed
        (done ++ id :: todo) :=
    hListed.modify id (·.finish t.generation blocked)
  refine ⟨⟨?_, by simpa using hListed', ?_, ?_, ?_⟩, ?_, ?_⟩
  · exact
      hChanged.coherent.modifyFormula id (fun _ => rfl) fun _ => rfl
  · intro k h hk hh
    change h.generation = t.generation ∧ _
    rw [hTable] at hh
    split at hh
    · cases hh
      exact ⟨rfl, rfl⟩
    · rename_i hNe
      rw [hGeneration]
      refine hPass.current ?_ hh
      simpa [hNe] using hk
  · intro k h hk hh
    change h.generation ≠ t.generation
    have hNe : k ≠ id := fun hEq => hNotTodo (hEq ▸ hk)
    rw [hTable, if_neg hNe] at hh
    rw [hGeneration]
    exact hPass.stale (List.mem_cons_of_mem _ hk) hh
  · intro k h hh
    rw [hTable] at hh
    split at hh
    · cases hh
      change g.expr.Proper
      rw [hExpr]
      exact hPass.proper hLive
    · exact hPass.proper hh
  · exact hListed'.next?_eq
  · have hIdle :
        ∀ k ∈ todo, (t.finish id blocked).2.isIdle k =
          s.isIdle k := by
      intro k hk
      have hNe : k ≠ id := fun hEq => hNotTodo (hEq ▸ hk)
      rw [isIdle, isIdle, hTable, if_neg hNe]
    have hSame :
        todo.countP (t.finish id blocked).2.isIdle =
          todo.countP s.isIdle :=
      List.countP_congr fun k hk => by rw [hIdle k hk]
    rw [effort, effort, hSame, List.length_cons, Nat.add_one_mul,
      List.countP_cons]
    split <;> split <;> split <;> omega

/- The current formula is interrupted, others come first. -/
theorem Pass.interrupt
    (hPass : Pass done (id :: todo) s)
    (hLive : s.formulas.get? id = some f)
    (hChanged : ChangesResult id (s.begun id) t)
    {missing : List Handle}
    (hSome : missing ≠ [])
    (hAwaited :
      ∀ k ∈ missing, ∃ g, t.formulas.get? k = some g ∧ t.Awaited g)
    (n : Nat) :
    (∀ k ∈ missing, k ∈ todo) ∧
      Pass done (bringForward missing (id :: todo))
        { t with formulas := (schedule id missing t.formulas).2 } ∧
      (bringForward missing (id :: todo)).head? =
        some (schedule id missing t.formulas).1 ∧
      (∀ k, (schedule id missing t.formulas).2.get? k =
        t.formulas.get? k) ∧
      effort n (bringForward missing (id :: todo))
          { t with formulas := (schedule id missing t.formulas).2 } <
        effort n (id :: todo) s := by
  rcases hPass.changed hLive hChanged with
    ⟨hGeneration, hListed, ⟨g, hg, hBusy, hStill, hExpr⟩, hOther⟩
  have hNodup := hListed.threads.nodup
  have hNotTodo : id ∉ todo :=
    (List.nodup_cons.mp hNodup.of_append_right).1
  -- formulas that are awaited have not been begun
  have hMissing : ∀ k ∈ missing, k ∈ todo := by
    intro k hk
    rcases hAwaited k hk with ⟨h, hh, hWaits⟩
    have hNe : k ≠ id := by
      rintro rfl
      rw [hg, Option.some.injEq] at hh
      have hIdle := hWaits.idle
      rw [← hh, hBusy] at hIdle
      cases hIdle
    have hIn : k ∈ done ++ id :: todo := by
      rw [← hListed.isSome_get?_iff, hh]
      rfl
    rcases List.mem_append.mp hIn with hDone | hTodo
    · rw [hOther k hNe] at hh
      have hCurrent := (hPass.current hDone hh).1
      rw [← hGeneration] at hCurrent
      exact absurd hCurrent hWaits.stale
    · simpa [hNe] using hTodo
  have hAmong : ∀ k ∈ missing, k ∈ id :: todo := fun k hk =>
    List.mem_cons_of_mem _ (hMissing k hk)
  have hPerm := perm_bringForward hAmong
  rcases schedule_spec hListed hAmong with
    ⟨hListed', hHead, hTable⟩
  have hGet :
      ∀ k, (schedule id missing t.formulas).2.get? k =
        if k = id then some g else s.formulas.get? k := by
    intro k
    rw [hTable]
    split
    · rename_i hEq
      rw [hEq, hg]
    · rename_i hNe
      exact hOther k hNe
  refine ⟨hMissing, ⟨⟨hChanged.coherent.sound,
    hChanged.coherent.within, ?_, ⟨_, hListed'⟩⟩, hListed', ?_, ?_,
    ?_⟩, hHead, hTable, ?_⟩
  · have hEq : (schedule id missing t.formulas).2.get? =
        t.formulas.get? := funext hTable
    dsimp only
    rw [hEq]
    exact hChanged.coherent.agrees
  · intro k h hk hh
    change h.generation = t.generation ∧ _
    have hNe : k ≠ id := by
      rintro rfl
      exact
        (List.disjoint_of_nodup_append hNodup) hk List.mem_cons_self
    rw [hGet, if_neg hNe] at hh
    rw [hGeneration]
    exact hPass.current hk hh
  · intro k h hk hh
    change h.generation ≠ t.generation
    rw [hGeneration]
    have hIn := hPerm.mem_iff.mp hk
    rw [hGet] at hh
    split at hh
    · cases hh
      rw [hStill]
      exact hPass.stale List.mem_cons_self hLive
    · exact hPass.stale hIn hh
  · intro k h hh
    rw [hGet] at hh
    split at hh
    · cases hh
      rw [hExpr]
      exact hPass.proper hLive
    · exact hPass.proper hh
  · -- one more formula has been begun, or the next one is idle
    have hIdle :
        ∀ k, isIdle
            { t with
              formulas := (schedule id missing t.formulas).2 } k =
          if k = id then false else s.isIdle k := by
      intro k
      rw [isIdle]
      dsimp only
      rw [hGet]
      split
      · simp [hBusy]
      · rfl
    rcases head?_bringForward hSome (id :: todo) with
      ⟨first, hFirst, hFront⟩
    rcases hAwaited first hFirst with ⟨h, hh, hWaits⟩
    have hNe : first ≠ id := fun hEq =>
      hNotTodo (hEq ▸ hMissing first hFirst)
    have hBegins : s.isIdle first = true := by
      rw [isIdle, ← hOther first hNe, hh]
      simp [hWaits.idle]
    have hCount :
        (bringForward missing (id :: todo)).countP
            (isIdle
              { t with
                formulas := (schedule id missing t.formulas).2 }) =
          todo.countP s.isIdle := by
      rw [hPerm.countP_eq, List.countP_cons, hIdle, if_pos rfl]
      simp only [Bool.false_eq_true, ↓reduceIte, Nat.add_zero]
      refine List.countP_congr fun k hk => ?_
      have hOne : k ≠ id := fun hEq => hNotTodo (hEq ▸ hk)
      rw [hIdle, if_neg hOne]
    have hLength := hPerm.length_eq
    rw [effort, effort, hCount, hLength, hFront]
    simp only [Option.any_some, List.head?_cons, hIdle, if_neg hNe,
      hBegins, Bool.not_true, Bool.false_eq_true, ↓reduceIte,
      List.countP_cons]
    by_cases hIdleHere : s.isIdle id = true <;> simp [hIdleHere]

------------------------------------------------------------
-- Whole Passes
------------------------------------------------------------

/-
  Something that holds in a pass of `n` formulas, and that
  each step keeps.
-/
structure Lasts
    (n : Nat)
    (Inv : List Handle → List Handle → Sheet → Prop) : Prop where
  pass :
    ∀ {done todo s}, Inv done todo s → Pass done todo s
  step :
    ∀ {done id todo s f}, Inv done (id :: todo) s →
      s.formulas.get? id = some f →
      ∃ done' todo',
        Inv done' todo' (s.recalculateOne id f).2 ∧
          (s.recalculateOne id f).1 = todo'.head? ∧
          effort n todo' (s.recalculateOne id f).2 <
            effort n (id :: todo) s

/- A pass comes to its end, and more steps change nothing. -/
theorem Lasts.run
    {n : Nat}
    {Inv : List Handle → List Handle → Sheet → Prop}
    (hLasts : Lasts n Inv)
    {fuel : Nat}
    (hInv : Inv done todo s)
    (hFuel : effort n todo s ≤ fuel) :
    ∃ done',
      Inv done' [] (s.recalculateFrom fuel todo.head?) ∧
        ∀ k, s.recalculateFrom (fuel + k) todo.head? =
          s.recalculateFrom fuel todo.head? := by
  induction fuel generalizing done todo s with
  | zero =>
      cases todo with
      | nil =>
          refine ⟨done, hInv, fun k => ?_⟩
          cases k <;> rfl
      | cons id todo =>
          -- a formula that is left takes a step
          rw [effort, List.length_cons, Nat.add_one_mul] at hFuel
          omega
  | succ fuel ih =>
      cases todo with
      | nil =>
          refine ⟨done, hInv, fun k => ?_⟩
          rw [Nat.add_right_comm]
          rfl
      | cons id todo =>
          have hPass := hLasts.pass hInv
          have hMem : id ∈ done ++ id :: todo := by simp
          rw [← hPass.listed.isSome_get?_iff,
            Option.isSome_iff_exists] at hMem
          rcases hMem with ⟨f, hLive⟩
          have hStale : f.isStale s.generation = true := by
            have hOld := hPass.stale List.mem_cons_self hLive
            simpa [FormulaCell.isStale] using hOld
          rcases hLasts.step hInv hLive with
            ⟨done', todo', hInv', hNext, hLess⟩
          have hRun :
              ∀ m, s.recalculateFrom (m + 1) (id :: todo).head? =
                (s.recalculateOne id f).2.recalculateFrom m
                  todo'.head? := by
            intro m
            rw [List.head?_cons, recalculateFrom, hLive]
            dsimp only
            rw [if_pos hStale, hNext]
          rcases ih hInv' (by omega) with ⟨last, hEnd, hMore⟩
          refine ⟨last, by rw [hRun]; exact hEnd, fun k => ?_⟩
          rw [Nat.add_right_comm, hRun, hRun, hMore]

/- A pass has steps enough. -/
theorem effort_le_stepBound
    (hListed : s.formulas.Listed todo) :
    effort s.formulas.size todo s ≤ s.stepBound := by
  have hCount : todo.countP s.isIdle ≤ todo.length :=
    List.countP_le_length
  rw [effort, stepBound, hListed.size_eq, Nat.mul_add_one]
  rw [Nat.mul_add_one, Nat.add_one_mul]
  split <;> omega

/- Other formulas come first. -/
def interrupted
    (t : Sheet)
    (id : Handle)
    (missing : List Handle) : Option Handle × Sheet :=
  (some (schedule id missing t.formulas).1,
    { t with formulas := (schedule id missing t.formulas).2 })

/- How a calculation is concluded, by the way it ended. -/
def conclude (t : Sheet) (id : Handle) :
    Verdict → Option Handle × Sheet
  | .finished => t.finish id false
  | .circular => t.finish id true
  | .interrupted [] =>
      (t.setValueOf id (.error .badReference)).finish id true
  | .interrupted missing => t.interrupted id missing

theorem recalculateOne_eq (s : Sheet) (id : Handle) (f : FormulaCell) :
    s.recalculateOne id f =
      ((s.begun id).evaluate id f).2.conclude id
        ((s.begun id).evaluate id f).1 := by
  have hBegun :
      s.modifyFormula id (·.setInProgress true) = s.begun id := rfl
  unfold recalculateOne conclude
  rw [hBegun]
  rcases (s.begun id).evaluate id f with
    ⟨- | - | ⟨- | ⟨k, missing⟩⟩, t⟩ <;> rfl

/- What the evaluation of the current formula comes to. -/
theorem Pass.evaluate
    (hPass : Pass done (id :: todo) s)
    (hLive : s.formulas.get? id = some f) :
    ChangesResult id (s.begun id) ((s.begun id).evaluate id f).2 ∧
      ((s.begun id).evaluate id f).1.Fair
        ((s.begun id).evaluate id f).2 := by
  have hBegun :
      (s.begun id).formulas.get? id =
        some (f.setInProgress true) := by
    rw [get?_begun, if_pos rfl, hLive]
    rfl
  exact
    evaluateFrom_spec (hPass.proper hLive)
      ((s.begun id).offsetBound f)
      (Evaluation.ready_start fun _ => True)
      (hPass.coherent.begun id) hBegun rfl

/- One step of a pass. -/
theorem Pass.step
    (hPass : Pass done (id :: todo) s)
    (hLive : s.formulas.get? id = some f)
    {n : Nat}
    (hCount : 0 < n) :
    ∃ done' todo',
      Pass done' todo' (s.recalculateOne id f).2 ∧
        (s.recalculateOne id f).1 = todo'.head? ∧
        effort n todo' (s.recalculateOne id f).2 <
          effort n (id :: todo) s ∧
        SameFrame s (s.recalculateOne id f).2 ∧
        (done' ++ todo').Perm (done ++ id :: todo) := by
  have hEvaluated := hPass.evaluate hLive
  rw [recalculateOne_eq]
  generalize (s.begun id).evaluate id f = res at hEvaluated
  rcases res with ⟨verdict, t⟩
  rcases hEvaluated with ⟨hChanged, hFair⟩
  have hFrame : SameFrame s t :=
    ⟨hChanged.frame.generation, hChanged.frame.suspended,
      hChanged.frame.config⟩
  have hFinish :
      ∀ blocked, ∃ done' todo',
        Pass done' todo' (t.finish id blocked).2 ∧
          (t.finish id blocked).1 = todo'.head? ∧
          effort n todo' (t.finish id blocked).2 <
            effort n (id :: todo) s ∧
          SameFrame s (t.finish id blocked).2 ∧
          (done' ++ todo').Perm (done ++ id :: todo) := by
    intro blocked
    rcases hPass.finish hLive hChanged blocked hCount with
      ⟨hNext, hHead, hLess⟩
    exact
      ⟨_, _, hNext, hHead, hLess,
        hFrame.trans ⟨rfl, rfl, rfl⟩, by simp⟩
  cases verdict with
  | finished => exact hFinish false
  | circular => exact hFinish true
  | interrupted missing =>
      rcases hFair with ⟨hSome, hAwaited⟩
      cases missing with
      | nil => exact absurd rfl hSome
      | cons k missing =>
          rcases hPass.interrupt hLive hChanged hSome hAwaited n with
            ⟨hMissing, hNext, hHead, -, hLess⟩
          refine ⟨_, _, hNext, hHead.symm, hLess,
            hFrame.trans ⟨rfl, rfl, rfl⟩, ?_⟩
          refine List.Perm.append_left done (perm_bringForward ?_)
          intro j hj
          exact List.mem_cons_of_mem _ (hMissing j hj)

/- A pass leads from one orderly sheet to another. -/
theorem Orderly.recalculate
    (hOrderly : s.Orderly) :
    s.recalculate.Orderly ∧
      s.recalculate.generation = !s.generation ∧
      s.recalculate.suspended = s.suspended ∧
      s.recalculate.config = s.config := by
  rcases hOrderly.pass with ⟨todo, hListed, hPass⟩
  have hLasts :
      Lasts s.formulas.size fun done todo t =>
        Pass done todo t ∧
          SameFrame { s with generation := !s.generation } t ∧
          (done ++ todo).length = s.formulas.size := by
    refine ⟨fun h => h.1, ?_⟩
    rintro done id todo t f ⟨hPass, hFrame, hLength⟩ hLive
    have hCount : 0 < s.formulas.size := by
      rw [← hLength]
      simp
    rcases hPass.step hLive hCount with
      ⟨done', todo', hNext, hHead, hLess, hFrame', hPerm⟩
    exact
      ⟨done', todo', ⟨hNext, hFrame.trans hFrame',
        hPerm.length_eq.trans hLength⟩, hHead, hLess⟩
  have hStart :
      effort s.formulas.size todo
          { s with generation := !s.generation } ≤ s.stepBound :=
    effort_le_stepBound (s := { s with generation := !s.generation })
      hListed
  rcases
    hLasts.run
      ⟨hPass, sameFrame_refl _, by simpa using hListed.size_eq.symm⟩
      hStart with
    ⟨done, ⟨hEnd, hFrame, -⟩, -⟩
  rw [← hListed.first?_eq] at hEnd hFrame
  exact
    ⟨hEnd.orderly, hFrame.generation, hFrame.suspended,
      hFrame.config⟩

/- Calculation may be held back. -/
theorem Orderly.refresh (hOrderly : s.Orderly) :
    s.refresh.Orderly := by
  unfold Sheet.refresh
  split
  · exact hOrderly.recalculate.1
  · exact hOrderly

end Sheet

end Spreadsheet
