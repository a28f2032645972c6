import Spreadsheet.Formula

/-
  Expressions that can be read.

  An expression that was read from a text has no operation
  with too few or too many operands, and no array without
  elements.

  Main declarations:
    * `Expr.Proper`
    * `Formula.proper_read`
-/

namespace Spreadsheet

------------------------------------------------------------
-- Proper Expressions
------------------------------------------------------------

/- An array has elements. -/
def Leaf.Proper : Leaf → Prop
  | .array a => 0 < a.size.width ∧ 0 < a.size.height
  | _ => True

/- Every operation has as many operands as it takes. -/
inductive Expr.Proper : Expr → Prop where
  | leaf
      (bracketed : Bool)
      {l : Leaf}
      (hLeaf : l.Proper) :
      Expr.Proper (.leaf bracketed l)
  | apply
      (bracketed : Bool)
      {op : Operation}
      {args : List Expr}
      (hCount : op.accepts args.length = true)
      (hArgs : ∀ a ∈ args, Expr.Proper a) :
      Expr.Proper (.apply bracketed op args)

namespace Expr

theorem Proper.operand
    {bracketed : Bool}
    {op : Operation}
    {args : List Expr}
    {i : Nat}
    {a : Expr}
    (hProper : (Expr.apply bracketed op args).Proper)
    (hArg : args[i]? = some a) :
    a.Proper := by
  cases hProper with
  | apply _ _ hArgs => exact hArgs a (List.mem_of_getElem? hArg)

theorem proper_constant (v : Scalar) : (constant v).Proper :=
  .leaf false trivial

theorem proper_unreadable (e : ErrorValue) (cs : List Char) :
    (unreadable e cs).Proper :=
  .leaf false trivial

theorem Proper.bracket
    {e : Expr}
    (hProper : e.Proper) :
    e.bracket.Proper := by
  cases hProper with
  | leaf _ hLeaf => exact .leaf true hLeaf
  | apply _ hCount hArgs => exact .apply true hCount hArgs

/- A sign or an operator has one operand or two. -/
theorem proper_call_one
    {op : Operation}
    {e : Expr}
    (hCount : op.accepts 1 = true)
    (hProper : e.Proper) :
    (call op [e]).Proper :=
  .apply false hCount (by simpa using hProper)

theorem proper_call_infix
    (op : InfixOp)
    {left right : Expr}
    (hLeft : left.Proper)
    (hRight : right.Proper) :
    (call (.infixOp op) [left, right]).Proper :=
  .apply false rfl (by simp [hLeft, hRight])

end Expr

------------------------------------------------------------
-- Reading
------------------------------------------------------------

theorem Except.bind_eq_ok
    {ε α β : Type}
    {x : Except ε α}
    {f : α → Except ε β}
    {b : β} :
    (x >>= f) = .ok b ↔ ∃ a, x = .ok a ∧ f a = .ok b := by
  cases x <;> simp [bind, Except.bind]

namespace Parse

theorem proper_operand
    {ctx : ParseContext}
    {t : Token}
    {kind : OperandKind}
    {s s' : ParseState}
    {e : Expr}
    (hOperand : operand ctx t kind s = .ok (e, s')) :
    e.Proper := by
  unfold operand at hOperand
  split at hOperand
  · split at hOperand <;> cases hOperand
    · exact .leaf false trivial
    · exact Expr.proper_unreadable _ _
  · rw [Except.bind_eq_ok] at hOperand
    rcases hOperand with ⟨⟨v, s''⟩, -, hOk⟩
    cases hOk
    exact Expr.proper_constant v

/- Arrays are made of rows with elements only. -/
theorem proper_ofRows?
    {rows : List (List Scalar)}
    {a : ScalarArray}
    (hRows : ScalarArray.ofRows? rows = some a) :
    (Leaf.array a).Proper := by
  unfold ScalarArray.ofRows? at hRows
  dsimp only at hRows
  split at hRows
  · rename_i hWidth
    cases hRows
    refine ⟨Nat.pos_of_ne_zero hWidth.1, ?_⟩
    cases rows with
    | nil => simp at hWidth
    | cons row rows => simp
  · cases hRows

theorem proper_array
    {s s' : ParseState}
    {e : Expr}
    (hArray : array s = .ok (e, s')) :
    e.Proper := by
  unfold array at hArray
  simp only [Except.bind_eq_ok] at hArray
  rcases hArray with ⟨⟨v, s₁⟩, -, ⟨rows, s₂⟩, -, hOk⟩
  dsimp only at hOk
  split at hOk
  · rename_i a hRows
    cases hOk
    exact .leaf false (proper_ofRows? hRows)
  · cases hOk

theorem proper_callOf
    (ctx : ParseContext)
    (t : Token)
    {args : List Expr}
    (s : ParseState)
    (hArgs : ∀ a ∈ args, a.Proper) :
    (callOf ctx t args s).Proper := by
  unfold callOf
  dsimp only
  split
  · exact Expr.proper_unreadable _ _
  · split
    · exact .apply false (by assumption) hArgs
    · exact Expr.proper_unreadable _ _

theorem proper_percents
    {e : Expr}
    (s : ParseState)
    (rest : List Token)
    (hProper : e.Proper) :
    (percents e s rest).1.Proper := by
  induction rest generalizing e s with
  | nil => exact hProper
  | cons t rest ih =>
      rw [percents]
      split
      · exact ih _ (Expr.proper_call_one rfl hProper)
      · exact hProper

/-
  All functions that read a part of an expression, with calls
  at most so deep.
-/
structure ProperBelow (ctx : ParseContext) (fuel : Nat) : Prop where
  expression :
    ∀ {binding s e s'},
      Parse.expression ctx binding s fuel = .ok (e, s') → e.Proper
  chain :
    ∀ {binding left s e s'}, left.Proper →
      Parse.chain ctx binding left s fuel = .ok (e, s') → e.Proper
  signed :
    ∀ {s e s'}, Parse.signed ctx s fuel = .ok (e, s') → e.Proper
  primary :
    ∀ {t rest s e s'},
      Parse.primary ctx t rest s fuel = .ok (e, s') → e.Proper
  arguments :
    ∀ {s args s'}, Parse.arguments ctx s fuel = .ok (args, s') →
      ∀ a ∈ args, a.Proper
  argumentList :
    ∀ {s args s'}, Parse.argumentList ctx s fuel = .ok (args, s') →
      ∀ a ∈ args, a.Proper
  argument :
    ∀ {s e s'}, Parse.argument ctx s fuel = .ok (e, s') → e.Proper

theorem properBelow (ctx : ParseContext) (fuel : Nat) :
    ProperBelow ctx fuel := by
  induction fuel with
  | zero =>
      constructor <;>
        simp [expression, chain, signed, primary, arguments,
          argumentList, argument, ParseState.fail]
  | succ fuel ih =>
      constructor
      case expression =>
        intro binding s e s' hOk
        rw [expression, Except.bind_eq_ok] at hOk
        rcases hOk with ⟨⟨left, s₁⟩, hLeft, hChain⟩
        exact ih.chain (ih.signed hLeft) hChain
      case chain =>
        intro binding left s e s' hLeft hOk
        rw [chain] at hOk
        split at hOk
        · cases hOk
          exact hLeft
        · split at hOk
          · split at hOk
            · cases hOk
            · split at hOk
              · cases hOk
                exact hLeft
              · rw [Except.bind_eq_ok] at hOk
                rcases hOk with ⟨⟨right, s₁⟩, hRight, hChain⟩
                exact
                  ih.chain
                    (Expr.proper_call_infix _ hLeft
                      (ih.expression hRight))
                    hChain
          · cases hOk
            exact hLeft
      case signed =>
        intro s e s' hOk
        rw [signed] at hOk
        split at hOk
        · cases hOk
        · split at hOk
          · rw [Except.bind_eq_ok] at hOk
            rcases hOk with ⟨⟨operand, s₁⟩, hOperand, hEq⟩
            have hProper := ih.signed hOperand
            cases hEq
            split
            · exact Expr.proper_call_one rfl hProper
            · exact hProper
          · rw [Except.bind_eq_ok] at hOk
            rcases hOk with ⟨⟨operand, s₁⟩, hOperand, hEq⟩
            have hProper :=
              proper_percents s₁ s₁.rest (ih.primary hOperand)
            rw [Except.ok.injEq] at hEq
            rwa [hEq] at hProper
      case primary =>
        intro t rest s e s' hOk
        rw [primary] at hOk
        split at hOk
        · exact proper_operand hOk
        · rw [Except.bind_eq_ok] at hOk
          rcases hOk with ⟨⟨args, s₁⟩, hArgs, hEq⟩
          cases hEq
          exact proper_callOf ctx t _ (ih.arguments hArgs)
        · rw [Except.bind_eq_ok] at hOk
          rcases hOk with ⟨⟨inner, s₁⟩, hInner, hClose⟩
          dsimp only at hClose
          split at hClose
          · split at hClose
            · cases hClose
              exact (ih.expression hInner).bracket
            · cases hClose
          · cases hClose
        · exact proper_array hOk
        · cases hOk
      case arguments =>
        intro s args s' hOk
        rw [arguments] at hOk
        split at hOk
        · split at hOk
          · cases hOk
            simp
          · exact ih.argumentList hOk
        · exact ih.argumentList hOk
      case argumentList =>
        intro s args s' hOk
        rw [argumentList, Except.bind_eq_ok] at hOk
        rcases hOk with ⟨⟨arg, s₁⟩, hArg, hRest⟩
        have hProper := ih.argument hArg
        dsimp only at hRest
        split at hRest
        · cases hRest
        · split at hRest
          · rw [Except.bind_eq_ok] at hRest
            rcases hRest with ⟨⟨args', s₂⟩, hArgs, hEq⟩
            cases hEq
            have hOthers := ih.argumentList hArgs
            simpa [hProper] using hOthers
          · split at hRest
            · cases hRest
              simpa using hProper
            · cases hRest
      case argument =>
        intro s e s' hOk
        rw [argument] at hOk
        split at hOk
        · split at hOk
          · cases hOk
            exact Expr.proper_constant .blank
          · exact ih.expression hOk
        · exact ih.expression hOk

end Parse

theorem Expr.proper_ofChars?
    {source : List Char}
    {anchor : Point}
    {e : Expr}
    {refs : References}
    (hOk : Expr.ofChars? source anchor = .ok (e, refs)) :
    e.Proper := by
  rw [ofChars?, Except.bind_eq_ok] at hOk
  rcases hOk with ⟨tokens, -, hOk⟩
  unfold ofTokens? at hOk
  dsimp only at hOk
  split at hOk
  · cases hOk
  · rw [Except.bind_eq_ok] at hOk
    rcases hOk with ⟨⟨e', s⟩, hParse, hEnd⟩
    dsimp only at hEnd
    split at hEnd
    · cases hEnd
      exact (Parse.properBelow _ _).expression hParse
    · cases hEnd

/- What is entered as a formula is a proper expression. -/
theorem Formula.proper_read (cs : List Char) (anchor : Point) :
    (Formula.read cs anchor).1.Proper := by
  unfold read
  split
  · rename_i found hOk
    exact Expr.proper_ofChars? hOk
  · exact Expr.proper_unreadable _ _

end Spreadsheet
