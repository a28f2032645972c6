import Spreadsheet.Expr.Parser
import Spreadsheet.Proofs.Token.Segments

/-
  The grammar of formulas.

  A phrase is a part of a formula together with what it is
  read as. The rules say which segments are a phrase, and which
  references they hold. Chains of operators group from the
  left: the left operand is a chain of operators that bind as
  strongly, and the right one of operators that bind more
  strongly.

  Main declarations:
    * `Parse.Element`
    * `Parse.Rows`
    * `Parse.Phrase`
    * `Parse.Reads`
    * `Parse.Reads.fits`
-/

namespace Spreadsheet

namespace Parse

------------------------------------------------------------
-- Arrays
------------------------------------------------------------

/- The constant that an operand spells. -/
def scalarOf? (kind : OperandKind) (cs : List Char) : Option Scalar :=
  match kind with
  | .text => some (.text (String.ofList (textOfQuoted cs)))
  | .logical b => some (.bool b)
  | .error e => some (.error e)
  | .number =>
      ((Decimal.readFloat? cs).filter Float.isFinite).map .number
  | .range => none

/- A constant after signs that make it negative or not. -/
def signed? (negative : Bool) (v : Scalar) : Option Scalar :=
  if negative then
    match v with
    | .number x => some (.number (-x))
    | _ => none
  else
    some v

/- A constant after signs, of which some were read before. -/
inductive Element : Bool → List Segment → Scalar → Prop where
  | constant
      {negative : Bool}
      {u : Segment}
      {kind : OperandKind}
      {v w : Scalar}
      (hKind : u.kind = .operand kind)
      (hValue : scalarOf? kind u.chars = some v)
      (hSigned : signed? negative v = some w) :
      Element negative [u] w
  | sign
      {negative : Bool}
      {u : Segment}
      {us : List Segment}
      {w : Scalar}
      (hKind : u.kind = .prefixOp)
      (hRest : Element (negative != (u.chars == ['-'])) us w) :
      Element negative (u :: us) w

/- Elements that are separated into rows. -/
inductive Rows : List Segment → List (List Scalar) → Prop where
  | single
      {us : List Segment}
      {v : Scalar}
      (hElement : Element false us v) :
      Rows us [[v]]
  | across
      {us vs : List Segment}
      {u : Segment}
      {v : Scalar}
      {row : List Scalar}
      {rows : List (List Scalar)}
      (hElement : Element false us v)
      (hKind : u.kind = .argumentSeparator)
      (hRest : Rows vs (row :: rows)) :
      Rows (us ++ u :: vs) ((v :: row) :: rows)
  | down
      {us vs : List Segment}
      {u : Segment}
      {v : Scalar}
      {rows : List (List Scalar)}
      (hElement : Element false us v)
      (hKind : u.kind = .rowSeparator)
      (hRest : Rows vs rows) :
      Rows (us ++ u :: vs) ([v] :: rows)

/- An array has a row. -/
theorem Rows.eq_cons
    {us : List Segment}
    {rows : List (List Scalar)}
    (hRows : Rows us rows) :
    ∃ row rows', rows = row :: rows' := by
  cases hRows with
  | single => exact ⟨_, _, rfl⟩
  | across => exact ⟨_, _, rfl⟩
  | down => exact ⟨_, _, rfl⟩

------------------------------------------------------------
-- Phrases
------------------------------------------------------------

/- The call of a function, or its text if there is none. -/
def called
    (name : String)
    (args : List Expr)
    (cs : List Char) : Expr :=
  match Operation.ofName? name with
  | none => .unreadable .unknownName cs
  | some op =>
      if op.accepts args.length then .call op args
      else .unreadable .badFormula cs

/- An operand after one more sign. -/
def withSign (cs : List Char) (e : Expr) : Expr :=
  if cs = ['-'] then .call .negate [e] else e

/-
  The parts of formulas, with what they are read as: chains
  of operators that bind at least so strongly, operands with
  signs or percent signs or without, and arguments.
-/
inductive Phrase where
  | chain (binding : Nat) (e : Expr)
  | signed (e : Expr)
  | scaled (e : Expr)
  | primary (e : Expr)
  | argument (e : Expr)
  | list (es : List Expr)
  | arguments (es : List Expr)

/-
  The segments are a phrase when they are read at an anchor and
  after a number of references, and hold these references.
-/
inductive Reads (anchor : Point) :
    Phrase → List Segment → Nat → References → Prop where
  | constant
      {u : Segment}
      {kind : OperandKind}
      {v : Scalar}
      {i : Nat}
      (hKind : u.kind = .operand kind)
      (hValue : scalarOf? kind u.chars = some v) :
      Reads anchor (.primary (.constant v)) [u] i []
  | reference
      {u : Segment}
      {r : Reference}
      {i : Nat}
      (hKind : u.kind = .operand .range)
      (hRead : Reference.read? u.chars anchor = some r) :
      Reads anchor (.primary (.leaf false (.reference i))) [u] i [r]
  | name
      {u : Segment}
      {i : Nat}
      (hKind : u.kind = .operand .range)
      (hRead : Reference.read? u.chars anchor = none) :
      Reads anchor (.primary (.unreadable .unknownName u.chars)) [u]
        i []
  | group
      {u w : Segment}
      {us : List Segment}
      {e : Expr}
      {i : Nat}
      {rs : References}
      (hOpen : u.kind = .opening .group)
      (hInner : Reads anchor (.chain 0 e) us i rs)
      (hClose : w.kind = .closing .group) :
      Reads anchor (.primary e.bracket) (u :: us ++ [w]) i rs
  | array
      {u w : Segment}
      {us : List Segment}
      {rows : List (List Scalar)}
      {a : ScalarArray}
      {i : Nat}
      (hOpen : u.kind = .opening .array)
      (hRows : Rows us rows)
      (hArray : ScalarArray.ofRows? rows = some a)
      (hClose : w.kind = .closing .array) :
      Reads anchor (.primary (.leaf false (.array a)))
        (u :: us ++ [w]) i []
  | call
      {u w : Segment}
      {us : List Segment}
      {es : List Expr}
      {i : Nat}
      {rs : References}
      (hOpen : u.kind = .opening .call)
      (hArgs : Reads anchor (.arguments es) us i rs)
      (hClose : w.kind = .closing .call) :
      Reads anchor
        (.primary
          (called (u.token 0).functionName es
            (u.chars ++ Segment.render (us ++ [w]))))
        (u :: us ++ [w]) i rs
  | plain
      {us : List Segment}
      {e : Expr}
      {i : Nat}
      {rs : References}
      (hInner : Reads anchor (.primary e) us i rs) :
      Reads anchor (.scaled e) us i rs
  | percent
      {u : Segment}
      {us : List Segment}
      {e : Expr}
      {i : Nat}
      {rs : References}
      (hInner : Reads anchor (.scaled e) us i rs)
      (hKind : u.kind = .postfixOp) :
      Reads anchor (.scaled (.call .percent [e])) (us ++ [u]) i rs
  | unsigned
      {us : List Segment}
      {e : Expr}
      {i : Nat}
      {rs : References}
      (hInner : Reads anchor (.scaled e) us i rs) :
      Reads anchor (.signed e) us i rs
  | sign
      {u : Segment}
      {us : List Segment}
      {e : Expr}
      {i : Nat}
      {rs : References}
      (hKind : u.kind = .prefixOp)
      (hInner : Reads anchor (.signed e) us i rs) :
      Reads anchor (.signed (withSign u.chars e)) (u :: us) i rs
  | operand
      {us : List Segment}
      {e : Expr}
      {i : Nat}
      {rs : References}
      (binding : Nat)
      (hInner : Reads anchor (.signed e) us i rs) :
      Reads anchor (.chain binding e) us i rs
  | operator
      {us vs : List Segment}
      {u : Segment}
      {op : InfixOp}
      {left right : Expr}
      {i binding : Nat}
      {rs ss : References}
      (hLeft : Reads anchor (.chain op.binding left) us i rs)
      (hKind : u.kind = .infixOp)
      (hSymbol :
        InfixOp.ofSymbol? (String.ofList u.chars) = some op)
      (hRight :
        Reads anchor (.chain (op.binding + 1) right) vs
          (i + rs.length) ss)
      (hBinding : binding ≤ op.binding) :
      Reads anchor (.chain binding (.call (.infixOp op) [left, right]))
        (us ++ u :: vs) i (rs ++ ss)
  | given
      {us : List Segment}
      {e : Expr}
      {i : Nat}
      {rs : References}
      (hInner : Reads anchor (.chain 0 e) us i rs) :
      Reads anchor (.argument e) us i rs
  | omitted
      {i : Nat} :
      Reads anchor (.argument (.constant .blank)) [] i []
  | last
      {us : List Segment}
      {e : Expr}
      {i : Nat}
      {rs : References}
      (hInner : Reads anchor (.argument e) us i rs) :
      Reads anchor (.list [e]) us i rs
  | more
      {us vs : List Segment}
      {u : Segment}
      {e : Expr}
      {es : List Expr}
      {i : Nat}
      {rs ss : References}
      (hFirst : Reads anchor (.argument e) us i rs)
      (hKind : u.kind = .argumentSeparator)
      (hRest : Reads anchor (.list es) vs (i + rs.length) ss) :
      Reads anchor (.list (e :: es)) (us ++ u :: vs) i (rs ++ ss)
  | none
      {i : Nat} :
      Reads anchor (.arguments []) [] i []
  | some
      {us : List Segment}
      {es : List Expr}
      {i : Nat}
      {rs : References}
      (hInner : Reads anchor (.list es) us i rs)
      (hSome : us ≠ []) :
      Reads anchor (.arguments es) us i rs

------------------------------------------------------------
-- First Segments
------------------------------------------------------------

/- An operand without signs starts with such a token. -/
def startsPrimary : TokenKind → Bool
  | .operand _ | .opening _ => true
  | _ => false

/- The segments of a phrase that is not an argument list. -/
def Phrase.HasHead : Phrase → List Segment → Prop
  | .primary _, us | .scaled _, us =>
      ∃ u us', us = u :: us' ∧ startsPrimary u.kind = true
  | .signed _, us | .chain _ _, us =>
      ∃ u us',
        us = u :: us' ∧
          (startsPrimary u.kind = true ∨ u.kind = .prefixOp)
  | _, us =>
      ∀ u us', us = u :: us' →
        startsPrimary u.kind = true ∨ u.kind = .prefixOp ∨
          u.kind = .argumentSeparator

variable
  {anchor : Point}
  {phrase : Phrase}
  {us : List Segment}
  {i : Nat}
  {rs : References}

theorem Reads.hasHead
    (hReads : Reads anchor phrase us i rs) :
    phrase.HasHead us := by
  induction hReads with
  | constant hKind | reference hKind | name hKind =>
      exact ⟨_, [], rfl, by rw [hKind]; rfl⟩
  | group hOpen | array hOpen | call hOpen =>
      exact ⟨_, _, rfl, by rw [hOpen]; rfl⟩
  | plain hInner ih => exact ih
  | percent hInner hKind ih =>
      rcases ih with ⟨u, us, rfl, hHead⟩
      exact ⟨u, _, rfl, hHead⟩
  | unsigned hInner ih =>
      rcases ih with ⟨u, us, rfl, hHead⟩
      exact ⟨u, us, rfl, .inl hHead⟩
  | sign hKind hInner ih => exact ⟨_, _, rfl, .inr hKind⟩
  | operand binding hInner ih => exact ih
  | operator hLeft hKind hSymbol hRight hBinding ih =>
      rcases ih with ⟨u, us, rfl, hHead⟩
      exact ⟨u, _, rfl, hHead⟩
  | given hInner ih =>
      rcases ih with ⟨u, us, rfl, hHead⟩
      rintro v vs hEq
      cases hEq
      exact hHead.elim .inl fun h => .inr (.inl h)
  | omitted | none => nofun
  | last hInner ih => exact ih
  | @more us vs u _ _ _ _ _ hFirst hKind hRest ih _ =>
      rintro v vs' hEq
      cases us with
      | nil =>
          cases hEq
          exact .inr (.inr hKind)
      | cons w us =>
          cases hEq
          exact ih _ us rfl
  | some hInner hSome ih => exact ih

/- An expression has segments. -/
theorem Reads.ne_nil
    {binding : Nat}
    {e : Expr}
    (hReads : Reads anchor (.chain binding e) us i rs) :
    us ≠ [] := by
  rcases hReads.hasHead with ⟨u, us', rfl, -⟩
  exact List.cons_ne_nil u us'

------------------------------------------------------------
-- Brackets
------------------------------------------------------------

theorem Element.fits
    {negative : Bool}
    {v : Scalar}
    (hElement : Element negative us v)
    (hGenuine : ∀ u ∈ us, u.Genuine)
    (opened : List Bracket) :
    Segment.Fits ⟨opened, false⟩ us ⟨opened, true⟩ := by
  induction hElement with
  | constant hKind hValue hSigned =>
      exact (hGenuine _ List.mem_cons_self).fits_operand hKind _ _
  | @sign negative u us w hKind hRest ih =>
      have hSign :=
        (hGenuine u List.mem_cons_self).fits_prefixOp hKind opened
      exact
        hSign.append
          (ih fun v hv => hGenuine v (List.mem_cons_of_mem u hv))

/- The elements of an array fit between its braces. -/
theorem Rows.fits
    {rows : List (List Scalar)}
    (hRows : Rows us rows)
    (hGenuine : ∀ u ∈ us, u.Genuine)
    (opened : List Bracket) :
    Segment.Fits ⟨.array :: opened, false⟩ us
      ⟨.array :: opened, true⟩ := by
  induction hRows with
  | single hElement => exact hElement.fits hGenuine _
  | @across us vs u _ _ _ hElement hKind hRest ih =>
      simp only [List.mem_append, List.mem_cons] at hGenuine
      have hFirst :=
        hElement.fits (fun w hw => hGenuine w (.inl hw))
          (.array :: opened)
      have hBetween :=
        (hGenuine u (.inr (.inl rfl))).fits_argumentSeparator
          (b := .array) hKind (by decide) opened true
      have hSecond := ih fun w hw => hGenuine w (.inr (.inr hw))
      exact hFirst.append (hBetween.append hSecond)
  | @down us vs u _ _ hElement hKind hRest ih =>
      simp only [List.mem_append, List.mem_cons] at hGenuine
      have hFirst :=
        hElement.fits (fun w hw => hGenuine w (.inl hw))
          (.array :: opened)
      have hBetween :=
        (hGenuine u (.inr (.inl rfl))).fits_rowSeparator hKind
          (.array :: opened) true
      have hSecond := ih fun w hw => hGenuine w (.inr (.inr hw))
      exact hFirst.append (hBetween.append hSecond)

/- What brackets a phrase asks for, and leaves open. -/
def Phrase.Fits : Phrase → List Segment → Prop
  | .primary _, us | .scaled _, us =>
      ∀ opened after, Segment.Fits ⟨opened, after⟩ us ⟨opened, true⟩
  | .signed _, us | .chain _ _, us =>
      ∀ opened, Segment.Fits ⟨opened, false⟩ us ⟨opened, true⟩
  | _, us =>
      ∀ opened, ∃ after,
        Segment.Fits ⟨.call :: opened, false⟩ us
          ⟨.call :: opened, after⟩

/- Segments between two brackets of one kind. -/
theorem fits_enclosed
    {b : Bracket}
    {u w : Segment}
    {opened : List Bracket}
    {after : Bool}
    (hGenuine : ∀ v ∈ u :: us ++ [w], v.Genuine)
    (hOpen : u.kind = .opening b)
    (hInner :
      (∀ v ∈ us, v.Genuine) →
        ∃ after',
          Segment.Fits ⟨b :: opened, false⟩ us ⟨b :: opened, after'⟩)
    (hClose : w.kind = .closing b) :
    Segment.Fits ⟨opened, after⟩ (u :: us ++ [w]) ⟨opened, true⟩ := by
  simp only [List.cons_append, List.mem_cons, List.mem_append,
    List.not_mem_nil, or_false] at hGenuine
  rcases hInner fun v hv => hGenuine v (.inr (.inl hv)) with
    ⟨after', hBetween⟩
  have hFirst :=
    (hGenuine u (.inl rfl)).fits_opening hOpen opened after
  have hLast :=
    (hGenuine w (.inr (.inr rfl))).fits_closing hClose opened after'
  exact hFirst.append (hBetween.append hLast)

/- A phrase fits wherever phrases of its sort may stand. -/
theorem Reads.fits
    (hReads : Reads anchor phrase us i rs)
    (hGenuine : ∀ u ∈ us, u.Genuine) :
    phrase.Fits us := by
  induction hReads with
  | constant hKind | reference hKind | name hKind =>
      intro opened after
      exact (hGenuine _ List.mem_cons_self).fits_operand hKind _ _
  | group hOpen hInner hClose ih =>
      intro opened after
      exact
        fits_enclosed hGenuine hOpen (fun h => ⟨true, ih h _⟩) hClose
  | array hOpen hRows hArray hClose =>
      intro opened after
      exact
        fits_enclosed hGenuine hOpen
          (fun h => ⟨true, hRows.fits h opened⟩) hClose
  | call hOpen hArgs hClose ih =>
      intro opened after
      exact fits_enclosed hGenuine hOpen (fun h => ih h opened) hClose
  | plain hInner ih => exact ih hGenuine
  | @percent u us _ _ _ hInner hKind ih =>
      intro opened after
      simp only [List.mem_append, List.mem_singleton] at hGenuine
      have hOperand := ih (fun w hw => hGenuine w (.inl hw))
      have hSign :=
        (hGenuine u (.inr rfl)).fits_postfixOp hKind opened true
      exact (hOperand opened after).append hSign
  | unsigned hInner ih => exact fun opened => ih hGenuine opened false
  | @sign u us _ _ _ hKind hInner ih =>
      intro opened
      simp only [List.mem_cons] at hGenuine
      have hSign :=
        (hGenuine u (.inl rfl)).fits_prefixOp hKind opened
      exact hSign.append (ih (fun w hw => hGenuine w (.inr hw)) opened)
  | operand binding hInner ih => exact ih hGenuine
  | @operator us vs u op _ _ _ _ _ _ hLeft hKind hSymbol hRight
      hBinding ihLeft ihRight =>
      intro opened
      simp only [List.mem_append, List.mem_cons] at hGenuine
      have hComma : u.chars ≠ [','] := by
        intro hComma
        rw [hComma] at hSymbol
        cases hSymbol
      have hFirst := ihLeft (fun w hw => hGenuine w (.inl hw)) opened
      have hBetween :=
        (hGenuine u (.inr (.inl rfl))).fits_infixOp hKind hComma opened
      have hSecond :=
        ihRight (fun w hw => hGenuine w (.inr (.inr hw))) opened
      exact hFirst.append (hBetween.append hSecond)
  | given hInner ih =>
      exact fun opened => ⟨true, ih hGenuine (.call :: opened)⟩
  | omitted | none => exact fun opened => ⟨false, rfl⟩
  | last hInner ih => exact ih hGenuine
  | @more us vs u _ _ _ _ _ hFirst hKind hRest ihFirst ihRest =>
      intro opened
      simp only [List.mem_append, List.mem_cons] at hGenuine
      rcases ihFirst (fun w hw => hGenuine w (.inl hw)) opened with
        ⟨after, hFits⟩
      rcases ihRest (fun w hw => hGenuine w (.inr (.inr hw))) opened
        with ⟨after', hFits'⟩
      have hBetween :=
        (hGenuine u (.inr (.inl rfl))).fits_argumentSeparator
          (b := .call) hKind (by decide) opened after
      exact ⟨after', hFits.append (hBetween.append hFits')⟩
  | some hInner hSome ih => exact ih hGenuine

end Parse

end Spreadsheet
