import Spreadsheet.Proofs.Evaluation.Course
import Spreadsheet.Proofs.Evaluation.Elements

/-
  The cells that an expression refers to outside of arguments
  that were not selected.

  A choice selects an argument by the scalar that its first
  one shows, and an aggregate visits its arguments at one
  offset after another.

  Main declarations:
    * `Site.Turn`
    * `Site.Demands`
    * `Site.Knows`
    * `Site.Knows.demands`
-/

namespace Spreadsheet

open Registers

------------------------------------------------------------
-- Turns Of Aggregates
------------------------------------------------------------

namespace Aggregate

/- An argument that an aggregate takes all at once. -/
def takesWhole (f : Aggregate) : Operand → Bool
  | .area _ | .array _ => true
  | .cell _ => f == .sumProduct
  | .scalar _ => false

/-
  The argument that is visited next, and the offset. One that
  was taken at once leaves the offset as it is.
-/
def turnAfter
    (f : Aggregate)
    (extent : Size)
    (i : Nat)
    (offset : Point)
    (o : Operand) : Nat × Point :=
  if f.takesWhole o then
    (i + 1, offset)
  else
    match extent.next? offset with
    | some p => (i, p)
    | none => (i + 1, Point.zero)

end Aggregate

namespace Site

/- The offsets at which an aggregate visits its arguments. -/
inductive Turn
    (s : Site)
    (Held : Site → Prop)
    (f : Aggregate)
    (args : List Expr) : Nat → Point → Prop where
  | first : Turn s Held f args 0 Point.zero
  | next
      {i : Nat}
      {p : Point}
      {a : Expr}
      {o : Operand}
      (hTurn : Turn s Held f args i p)
      (hArg : args[i]? = some a)
      (hYields : Yields Held a p o) :
      Turn s Held f args (f.turnAfter (s.extent a) i p o).1
        (f.turnAfter (s.extent a) i p o).2

------------------------------------------------------------
-- Cells That Are Referred To
------------------------------------------------------------

/- The first argument selects another one at an offset. -/
def Selects
    (Held : Site → Prop)
    (f : Choice)
    (args : List Expr)
    (offset : Point)
    (i : Nat) : Prop :=
  ∃ a v, args[0]? = some a ∧ Shows Held a offset v ∧
    f.select args.length v = .argument i

/-
  An expression refers to a cell outside of all arguments that
  are not selected when it is evaluated at an offset.
-/
inductive Demands
    (s : Site)
    (Held : Site → Prop) : Expr → Point → Point → Prop where
  | leaf
      {bracketed : Bool}
      {l : Leaf}
      {offset p : Point}
      (hReads : s.Reads (.leaf bracketed l) p) :
      Demands s Held (.leaf bracketed l) offset p
  | operand
      {bracketed : Bool}
      {op : Operation}
      {args : List Expr}
      {a : Expr}
      {offset p : Point}
      (hAggregate : ∀ f, op ≠ .aggregate f)
      (hChoice : ∀ f, op ≠ .choice f)
      (hArg : a ∈ args)
      (hDemands : Demands s Held a offset p) :
      Demands s Held (.apply bracketed op args) offset p
  | aggregate
      {bracketed : Bool}
      {f : Aggregate}
      {args : List Expr}
      {i : Nat}
      {a : Expr}
      {offset q p : Point}
      (hArg : args[i]? = some a)
      (hTurn : s.Turn Held f args i q)
      (hDemands : Demands s Held a q p) :
      Demands s Held (.apply bracketed (.aggregate f) args) offset p
  | selector
      {bracketed : Bool}
      {f : Choice}
      {args : List Expr}
      {a : Expr}
      {offset p : Point}
      (hArg : args[0]? = some a)
      (hDemands : Demands s Held a offset p) :
      Demands s Held (.apply bracketed (.choice f) args) offset p
  | selected
      {bracketed : Bool}
      {f : Choice}
      {args : List Expr}
      {i : Nat}
      {a : Expr}
      {offset p : Point}
      (hSelects : Selects Held f args offset i)
      (hArg : args[i]? = some a)
      (hDemands : Demands s Held a offset p) :
      Demands s Held (.apply bracketed (.choice f) args) offset p

/- The value of an expression stands for no other cells. -/
abbrev Brings
    (s : Site)
    (Held : Site → Prop) :
    Expr → Registers → Registers → Prop :=
  Learns s fun e r r' =>
    r'.value.Within (s.Demands Held e r.offset)

theorem brings_leaf
    (s : Site)
    (Held : Site → Prop)
    (bracketed : Bool)
    (l : Leaf)
    (r : Registers) :
    s.Brings Held (.leaf bracketed l) r
      (r.publish (s.operand l).1 (s.operand l).2) :=
  ⟨left_leaf bracketed l r, fun _ =>
    (s.within_operand bracketed l).imp .leaf⟩

theorem Brings.recount
    {s : Site}
    {Held : Site → Prop}
    {e : Expr}
    {r r' : Registers}
    (hBrings : s.Brings Held e r r')
    (c : Bool)
    (m : Array Handle) :
    s.Brings Held e (r.recount c m) (r'.recount c m) :=
  ⟨⟨hBrings.left.suppressed, rfl, hBrings.left.offset, rfl,
    hBrings.left.extent, hBrings.left.value, hBrings.left.scalar⟩,
    hBrings.known⟩

------------------------------------------------------------
-- What Nodes Know
------------------------------------------------------------

/-
  What a node that is not suppressed has learned before an
  operand is visited.
-/
def Learned
    (s : Site)
    (Held : Site → Prop)
    (e : Expr)
    (args : List Expr)
    (offset : Point)
    (i : Nat)
    (n : Notes)
    (r : Registers) : Prop :=
  match n with
  | .aggregate f _ =>
      i < args.length → s.Turn Held f args i r.offset
  | .product m =>
      (i < args.length → s.Turn Held .sumProduct args i r.offset) ∧
        m.Within (s.Demands Held e offset)
  | .choice f _ m =>
      m.value.Within (s.Demands Held e offset) ∧
        ∀ j, m.selection = .argument j →
          Selects Held f args offset j
  | _ => True

/- What is known at a node before an operand is visited. -/
def Knows
    (s : Site)
    (Held : Site → Prop)
    (bracketed : Bool)
    (op : Operation)
    (args : List Expr)
    (r₀ : Registers)
    (i : Nat)
    (n : Notes)
    (r : Registers) : Prop :=
  s.Tracks bracketed op args r₀ i n r ∧
    (r₀.suppressed = false →
      s.Learned Held (.apply bracketed op args) args r₀.offset i n r)

section

variable {s u : Site} {Held : Site → Prop} {bracketed : Bool}
variable {op : Operation} {args : List Expr} {r₀ r r' : Registers}
variable {i : Nat} {n : Notes} {a : Expr}

/- Sheets of one size keep track of the same. -/
theorem Alike.tracks
    (hAlike : s.Alike u)
    (hTracks : s.Tracks bracketed op args r₀ i n r) :
    u.Tracks bracketed op args r₀ i n r := by
  have hSpanned : u.spanned = s.spanned := by
    funext args i
    rw [spanned, spanned, hAlike.extent]
  unfold Tracks at hTracks ⊢
  cases op with
  | infixOp _ | negate | percent | elementwise _ => rwa [hSpanned]
  | aggregate f =>
      cases f with
      | sumProduct => rwa [hAlike.reads]
      | _ => exact hTracks
  | choice f =>
      rcases hTracks with ⟨m, rfl, hChooses⟩
      refine ⟨m, rfl, hChooses.outside, hChooses.circular,
        hChooses.offset, hChooses.missing, hChooses.suppressed,
        ?_, ?_⟩
      · rw [hSpanned]
        exact hChooses.extent
      · rw [hAlike.reads]
        exact hChooses.value

theorem Alike.tracks_eq (hAlike : s.Alike u) :
    u.Tracks bracketed op args r₀ = s.Tracks bracketed op args r₀ := by
  funext i n r
  exact propext ⟨hAlike.symm.tracks, hAlike.tracks⟩

/- Whatever was missing does not matter later. -/
theorem Knows.recount
    (hKnows : s.Knows Held bracketed op args r₀ i n r)
    (c : Bool)
    (m : Array Handle) :
    s.Knows Held bracketed op args (r₀.recount c m) i n
      (r.recount c m) := by
  have hKeeps : ∀ {r}, r₀.Keeps r → (r₀.recount c m).Keeps
      (r.recount c m) := fun h => ⟨h.suppressed, rfl, h.offset, rfl⟩
  have hOutside :
      ∀ {p r}, Aggregates r₀ p r →
        Aggregates (r₀.recount c m) p (r.recount c m) :=
    fun h => ⟨h.outside_eq, h.suppressed, rfl, rfl⟩
  refine ⟨?_, fun hNeeded => ?_⟩
  · have hTracks := hKnows.1
    unfold Tracks at hTracks ⊢
    cases op with
    | infixOp _ | negate | percent | elementwise _ =>
        rcases hTracks with ⟨k, rfl, hBack, hRest⟩
        exact ⟨k, rfl, hKeeps hBack, hRest⟩
    | aggregate f =>
        cases f with
        | sumProduct =>
            rcases hTracks with ⟨k, rfl, hBack, hRest⟩
            exact ⟨k, rfl, hOutside hBack, hRest⟩
        | _ =>
            rcases hTracks with ⟨k, rfl, hBack⟩
            exact ⟨k, rfl, hOutside hBack⟩
    | choice f =>
        rcases hTracks with ⟨k, rfl, h⟩
        exact ⟨k, rfl, h.outside, rfl, h.offset, rfl, h.suppressed,
          h.extent, h.value⟩
  · have hLearned := hKnows.2 hNeeded
    unfold Learned at hLearned ⊢
    cases n <;> exact hLearned

/- What an operand refers to, its operation refers to. -/
theorem Knows.demands
    (hKnows : s.Knows Held bracketed op args r₀ i n r)
    (hArg : args[i]? = some a)
    (hNeeded : r.suppressed = false) :
    r₀.suppressed = false ∧
      ∀ {p}, s.Demands Held a r.offset p →
        s.Demands Held (.apply bracketed op args) r₀.offset p := by
  have hMem := List.mem_of_getElem? hArg
  have hIn := (List.getElem?_eq_some_iff.mp hArg).1
  rcases hKnows with ⟨hTracks, hLearned⟩
  -- an operand that is visited where its operation is
  have hKeeps :
      (∀ f, op ≠ .aggregate f) → (∀ f, op ≠ .choice f) →
        r₀.Keeps r →
          r₀.suppressed = false ∧
            ∀ {p}, s.Demands Held a r.offset p →
              s.Demands Held (.apply bracketed op args) r₀.offset
                p := by
    intro hAggregate hChoice hKeeps
    refine ⟨hKeeps.suppressed ▸ hNeeded, fun hDemands => ?_⟩
    rw [hKeeps.offset] at hDemands
    exact .operand hAggregate hChoice hMem hDemands
  unfold Tracks at hTracks
  cases op with
  | infixOp _ | negate | percent | elementwise _ =>
      rcases hTracks with ⟨m, -, hBack, -⟩
      exact hKeeps (by simp) (by simp) hBack
  | aggregate f =>
      have hTurn :
          r₀.suppressed = false ∧ s.Turn Held f args i r.offset := by
        cases f with
        | sumProduct =>
            rcases hTracks with ⟨m, rfl, hOutside, -⟩
            have hInside := hOutside.suppressed ▸ hNeeded
            exact ⟨hInside, (hLearned hInside).1 hIn⟩
        | _ =>
            rcases hTracks with ⟨m, rfl, hOutside⟩
            have hInside := hOutside.suppressed ▸ hNeeded
            exact ⟨hInside, hLearned hInside hIn⟩
      exact ⟨hTurn.1, .aggregate hArg hTurn.2⟩
  | choice f =>
      rcases hTracks with ⟨m, rfl, hChooses⟩
      have hBoth := hChooses.suppressed
      rw [hNeeded, eq_comm, Bool.or_eq_false_iff] at hBoth
      refine ⟨hBoth.1, fun hDemands => ?_⟩
      rw [hChooses.offset] at hDemands
      rcases Nat.eq_zero_or_pos i with rfl | hPos
      · exact .selector hArg hDemands
      · have hSelected := hBoth.2
        simp only [hPos, decide_true, Bool.true_and,
          Bool.not_eq_false'] at hSelected
        cases hCase : m.selection with
        | result v =>
            rw [hCase] at hSelected
            cases hSelected
        | argument j =>
            rw [hCase] at hSelected
            obtain rfl : i = j := eq_of_beq hSelected
            exact
              .selected ((hLearned hBoth.1).2 i hCase) hArg hDemands

/- The factors that a node has noted stand for no other cells. -/
theorem Knows.product
    {m : ProductNotes}
    (hKnows : s.Knows Held bracketed op args r₀ i n r)
    (hNotes : n = .product m)
    (hNeeded : r.suppressed = false) :
    r₀.suppressed = false ∧
      m.Within
        (s.Demands Held (.apply bracketed op args) r₀.offset) := by
  subst hNotes
  rcases hKnows with ⟨hTracks, hLearned⟩
  have hInside : r₀.suppressed = false := by
    unfold Tracks at hTracks
    cases op with
    | infixOp _ | negate | percent | elementwise _ =>
        rcases hTracks with ⟨m, hEq, -⟩
        cases hEq
    | choice f =>
        rcases hTracks with ⟨m, hEq, -⟩
        cases hEq
    | aggregate f =>
        cases f with
        | sumProduct =>
            rcases hTracks with ⟨m, -, hOutside, -⟩
            exact hOutside.suppressed ▸ hNeeded
        | _ =>
            rcases hTracks with ⟨m, hEq, -⟩
            cases hEq
  exact ⟨hInside, (hLearned hInside).2⟩

end

end Site

end Spreadsheet
