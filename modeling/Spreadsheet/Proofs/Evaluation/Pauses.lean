import Spreadsheet.Proofs.Evaluation.Agreement

/-
  Nodes that pause.

  A node that pauses keeps its notes. All that it leaves in
  the registers is which cells could not be read, and nothing
  that the walk does later depends on that.

  Main declarations:
    * `Registers.recount`
    * `Registers.Recounts`
    * `Notes.rests_afterOperand`
    * `Notes.rests_leave`
-/

namespace Spreadsheet

------------------------------------------------------------
-- What Is Missing
------------------------------------------------------------

namespace Registers

/- The registers, with another account of what is missing. -/
def recount
    (r : Registers)
    (circular : Bool)
    (missing : Array Handle) : Registers :=
  { r with circular := circular, missing := missing }

variable (r : Registers) (c : Bool) (m : Array Handle)

@[simp] theorem offset_recount :
    (r.recount c m).offset = r.offset := rfl

@[simp] theorem value_recount :
    (r.recount c m).value = r.value := rfl

/- Nothing has changed but what is missing. -/
def Recounts (r r' : Registers) : Prop :=
  r' = r.recount r'.circular r'.missing

variable {r} {r' r'' : Registers}

theorem Recounts.trans
    (hFirst : r.Recounts r')
    (hNext : r'.Recounts r'') :
    r.Recounts r'' := by
  rw [Recounts] at hFirst hNext ⊢
  rw [hFirst] at hNext
  exact hNext

theorem recounts_read (s : Site) (r : Registers) (p : Point) :
    r.Recounts (r.read s p).2 := by
  unfold read
  cases s.read p <;> rfl

theorem recounts_result (s : Site) (r : Registers) :
    r.Recounts (r.result s).2 := by
  unfold result element
  split
  · rfl
  · rfl
  · exact recounts_read s r _
  · split
    · exact recounts_read s r _
    · rfl

/- An operand that has to wait. -/
theorem recounts_of_reduce
    {s : Site}
    (hWaiting : r.reduce s = (.waiting, r')) :
    r.Recounts r' := by
  have hResult := recounts_result s r
  unfold reduce at hWaiting
  split at hWaiting
  · cases hWaiting
  · split at hWaiting <;> cases hWaiting
    rename_i hEq
    rwa [hEq] at hResult

end Registers

namespace Gathering

variable {ε τ β γ : Type} {r : Registers} {s : Site}

/- A run has changed nothing but what is missing. -/
def Recounted
    (r : Registers)
    (view : β → Gathering τ) : Except (Ended ε τ) β → Prop
  | .ok b => r.Recounts (view b).registers
  | .error ended => r.Recounts ended.2

theorem Recounted.bind
    {view : β → Gathering τ}
    {view' : γ → Gathering τ}
    {x : Except (Ended ε τ) β}
    {f : β → Except (Ended ε τ) γ}
    (hFirst : Recounted r view x)
    (hNext :
      ∀ b, r.Recounts (view b).registers →
        Recounted r view' (f b)) :
    Recounted r view' (x >>= f) := by
  cases x with
  | ok b => exact hNext b hFirst
  | error ended => exact hFirst

theorem recounted_read
    {g : Gathering τ}
    (hRecounts : r.Recounts g.registers)
    (p : Point) :
    Recounted (ε := ε) r Prod.snd (g.read s p) := by
  unfold Gathering.read
  cases s.read p with
  | value v => exact hRecounts
  | pending id => exact hRecounts.trans rfl
  | circular => exact hRecounts.trans rfl

theorem recounted_readIf
    {g : Gathering τ}
    (hRecounts : r.Recounts g.registers)
    (inside : Bool)
    (p : Point) :
    Recounted (ε := ε) r Prod.snd (g.readIf inside s p) := by
  unfold readIf
  split
  · exact recounted_read hRecounts p
  · exact hRecounts

theorem recounted_add
    {g : Gathering τ}
    (hRecounts : r.Recounts g.registers)
    (op : τ → Except ε τ) :
    Recounted r id (g.add op) := by
  unfold add
  split
  · exact hRecounts
  · split <;> exact hRecounts

/- By induction on the cells that are left. -/
theorem recounts_ending
    {step : Gathering τ → Point → Except (Ended ε τ) (Gathering τ)}
    (hStep :
      ∀ g p, r.Recounts g.registers → Recounted r id (step g p))
    (l : List Point)
    {g : Gathering τ}
    (hRecounts : r.Recounts g.registers) :
    r.Recounts (ending (l.foldlM step g)).2 := by
  have hRun : Recounted r id (l.foldlM step g) := by
    induction l generalizing g with
    | nil => exact hRecounts
    | cons p l ih =>
        rw [List.foldlM_cons]
        exact (hStep g p hRecounts).bind fun b => ih
  generalize l.foldlM step g = x at hRun
  cases x with
  | ok g => exact hRun
  | error ended => exact hRun

end Gathering

namespace Registers

open Gathering

variable {ε τ : Type}

theorem recounts_foldArea
    (s : Site)
    (r : Registers)
    (area : Rect)
    (op : Scalar → τ → Except ε τ)
    (a : τ) :
    r.Recounts (r.foldArea s area op a).2 := by
  rw [foldArea, Rect.foldUntil_eq_foldlM]
  exact
    recounts_ending
      (fun g p h => (recounted_read h p).bind fun b hb =>
        recounted_add hb _)
      _ rfl

theorem recounts_foldAreas
    (s : Site)
    (r : Registers)
    (first second : Rect)
    (op : Scalar → Scalar → τ → Except ε τ)
    (a : τ) :
    r.Recounts (r.foldAreas s first second op a).2 := by
  rw [foldAreas, Rect.foldUntil_eq_foldlM]
  exact
    recounts_ending
      (fun g p h => (recounted_read h _).bind fun b hb =>
        (recounted_readIf hb _ _).bind fun c hc =>
          recounted_add hc _)
      _ rfl

end Registers

------------------------------------------------------------
-- Nodes That Pause
------------------------------------------------------------

/-
  A node that pauses keeps its notes, and only what is missing
  has changed.
-/
def Response.Rests
    {σ : Type}
    (n : σ)
    (r : Registers)
    (res : Response σ) : Prop :=
  res.1 = .pause → res.2.1 = n ∧ r.Recounts res.2.2

section

open Registers

variable {s : Site} {r : Registers}

theorem InfixNotes.rests
    (n : InfixNotes)
    (op : InfixOp)
    (i : Nat) :
    Response.Rests n r (n.afterOperand op s i r) := by
  unfold afterOperand
  split
  · rename_i hWaiting
    exact fun _ => ⟨rfl, recounts_of_reduce hWaiting⟩
  · exact fun hPause => nomatch hPause
  · exact fun hPause => nomatch hPause

theorem UnaryNotes.rests
    (n : UnaryNotes)
    (f : Scalar → Scalar) :
    Response.Rests n r (n.afterOperand f s r) := by
  unfold afterOperand
  split
  · rename_i hWaiting
    exact fun _ => ⟨rfl, recounts_of_reduce hWaiting⟩
  · exact fun hPause => nomatch hPause
  · exact fun hPause => nomatch hPause

theorem ElementwiseNotes.rests (n : ElementwiseNotes) :
    Response.Rests n r (n.afterOperand s r) := by
  unfold afterOperand
  split
  · rename_i hWaiting
    exact fun _ => ⟨rfl, recounts_of_reduce hWaiting⟩
  · exact fun hPause => nomatch hPause
  · exact fun hPause => nomatch hPause

theorem ChoiceNotes.rests
    (n : ChoiceNotes)
    (f : Choice)
    (count i : Nat) :
    Response.Rests n r (n.afterOperand f count s i r) := by
  unfold afterOperand
  split
  · unfold afterSelector
    split
    · rename_i hWaiting
      exact fun _ => ⟨rfl, recounts_of_reduce hWaiting⟩
    · exact fun hPause => nomatch hPause
    · exact fun hPause => nomatch hPause
  · unfold afterAlternative
    dsimp only
    split <;> exact fun hPause => nomatch hPause

namespace AggregateNotes

theorem afterElement_ne_pause
    (n : AggregateNotes)
    (fold : Except ErrorValue Fold)
    (r : Registers) :
    (n.afterElement fold r).1 ≠ .pause := by
  unfold afterElement
  cases fold with
  | error e => simp
  | ok fold =>
      rcases Site.nextElement_cases r with ⟨p, -, hEq⟩ | hEq <;>
        simp [hEq]

theorem afterAll_ne_pause
    (n : AggregateNotes)
    (fold : Except ErrorValue Fold)
    (r : Registers) :
    (n.afterAll fold r).1 ≠ .pause := by
  unfold afterAll
  cases fold <;> simp

theorem rests
    (n : AggregateNotes)
    (f : Aggregate) :
    Response.Rests n r (n.afterOperand f s r) := by
  unfold afterOperand
  split
  · exact fun hPause => nomatch hPause
  · split
    · exact fun hPause => nomatch hPause
    · rename_i fold _
      unfold foldOperand
      split
      · exact fun hPause => absurd hPause (n.afterElement_ne_pause _ _)
      · rename_i p _
        have hRead := recounts_read s r p
        split
        · rename_i hEq
          rw [hEq] at hRead
          exact fun _ => ⟨rfl, hRead⟩
        · exact fun hPause =>
            absurd hPause (n.afterElement_ne_pause _ _)
      · exact fun hPause => absurd hPause (n.afterAll_ne_pause _ _)
      · rename_i a _
        have hFold := recounts_foldArea s r a (Fold.addIndirect f) fold
        split
        · rename_i hEq
          rw [hEq] at hFold
          exact fun _ => ⟨rfl, hFold⟩
        · exact fun hPause => absurd hPause (n.afterAll_ne_pause _ _)
        · exact fun hPause => absurd hPause (n.afterAll_ne_pause _ _)

end AggregateNotes

theorem Factor.recounts_collect
    (a : Factor)
    (r : Registers) :
    r.Recounts (a.collect s r).2 := by
  cases a with
  | scalars extent vs => rfl
  | area a =>
      have hFold :=
        recounts_foldArea s r a
          (fun v vs => (.ok (v :: vs) : Except ErrorValue _)) []
      unfold collect
      dsimp only
      split <;>
        (rename_i hEq
         rw [hEq] at hFold
         exact hFold)

namespace ProductNotes

theorem rests_afterOperand
    (n : ProductNotes)
    (i : Nat) :
    Response.Rests n r (n.afterOperand s i r) := by
  unfold afterOperand
  split
  · exact fun hPause => nomatch hPause
  · split
    · exact fun hPause => nomatch hPause
    · exact fun hPause => nomatch hPause
    · rename_i p _
      have hRead := recounts_read s r p
      split
      · rename_i hEq
        rw [hEq] at hRead
        exact fun _ => ⟨rfl, hRead⟩
      · exact fun hPause => nomatch hPause
    · rcases Site.nextElement_cases r with ⟨p, -, hEq⟩ | hEq <;>
        simp [Response.Rests, hEq]

theorem recounts_sumFactors
    (a b : Factor)
    (r : Registers) :
    r.Recounts (sumFactors s a b r).2 := by
  unfold sumFactors
  split
  · rename_i a b
    have hFold := recounts_foldAreas s r a b addProduct 0
    unfold sumAreas
    split <;>
      (rename_i hEq
       rw [hEq] at hFold
       exact hFold)
  · have hFirst := a.recounts_collect (s := s) r
    split
    · rename_i hEq
      rw [hEq] at hFirst
      exact hFirst
    · rename_i r' hEq
      rw [hEq] at hFirst
      have hSecond := b.recounts_collect (s := s) r'
      split <;>
        (rename_i hEq'
         rw [hEq'] at hSecond
         exact hFirst.trans hSecond)

theorem rests_leave (n : ProductNotes) :
    Response.Rests n r (n.leave s r) := by
  unfold leave
  split
  · exact fun hPause => nomatch hPause
  · have hCompute : r.Recounts (n.compute s r).2 := by
      unfold compute
      split
      · split
        · exact recounts_sumFactors _ _ r
        · rfl
      · rfl
    split
    · rename_i hEq
      rw [hEq] at hCompute
      exact fun _ => ⟨rfl, hCompute⟩
    · exact fun hPause => nomatch hPause

end ProductNotes

namespace Notes

theorem Rests.lift
    {σ : Type}
    {n : σ}
    {res : Response σ}
    (hRests : Response.Rests n r res)
    (f : σ → Notes) :
    Response.Rests (f n) r (Notes.lift f res) := fun hPause =>
  ⟨congrArg f (hRests hPause).1, (hRests hPause).2⟩

theorem rests_afterOperand
    (n : Notes)
    (i : Nat) :
    Response.Rests n r (n.afterOperand s i r) := by
  cases n with
  | leaf l => exact fun hPause => nomatch hPause
  | infixOp op n => exact Rests.lift (n.rests op i) _
  | unary f n => exact Rests.lift (n.rests f) _
  | aggregate f n => exact Rests.lift (n.rests f) _
  | product n => exact Rests.lift (n.rests_afterOperand i) _
  | elementwise f n => exact Rests.lift n.rests _
  | choice f count n => exact Rests.lift (n.rests f count i) _

theorem rests_leave (n : Notes) :
    Response.Rests n r (n.leave s r) := by
  cases n with
  | product n => exact Rests.lift n.rests_leave _
  | leaf l => exact fun hPause => nomatch hPause
  | infixOp op n => exact fun hPause => nomatch hPause
  | unary f n => exact fun hPause => nomatch hPause
  | aggregate f n => exact fun hPause => nomatch hPause
  | elementwise f n => exact fun hPause => nomatch hPause
  | choice f count n => exact fun hPause => nomatch hPause

end Notes

end

end Spreadsheet
