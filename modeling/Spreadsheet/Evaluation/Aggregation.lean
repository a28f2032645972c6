import Spreadsheet.Evaluation.Broadcast
import Spreadsheet.Operation.Fold

/-
  Aggregates over whole arguments.

  Arrays and rectangles of cells are folded at once. Any
  other argument is visited at each offset of its extent. The
  offset of the surrounding expression is kept aside.

  Key definitions include:
    * `AggregateNotes`
    * `Factor`
    * `ProductNotes`
-/

namespace Spreadsheet

/-
  Visit an argument again at its next offset, or go on to the
  next argument.
-/
def Registers.nextElement (r : Registers) : Outcome × Registers :=
  match r.extent.next? r.offset with
  | some p => (.repeatChild, { r with offset := p })
  | none => (.proceed, { r with offset := Point.zero })

------------------------------------------------------------
-- Folds
------------------------------------------------------------

/- The fold so far, and the offset outside. -/
structure AggregateNotes where
  fold : Except ErrorValue Fold
  outside : Point

namespace AggregateNotes

/- No argument was visited. -/
def start (f : Aggregate) : AggregateNotes :=
  ⟨.ok (.start f), Point.zero⟩

/- Arguments are visited from their first offset on. -/
def beforeOperands
    (n : AggregateNotes)
    (r : Registers) : AggregateNotes × Registers :=
  ({ n with outside := r.offset },
    { r with offset := Point.zero })

/- The argument was folded at one offset. -/
def afterElement
    (n : AggregateNotes)
    (fold : Except ErrorValue Fold)
    (r : Registers) : Response AggregateNotes :=
  match fold with
  | .error _ => (.skipAll, { n with fold := fold }, r)
  | .ok _ =>
      let (outcome, r) := r.nextElement
      (outcome, { n with fold := fold }, r)

/- The whole argument was folded. -/
def afterAll
    (n : AggregateNotes)
    (fold : Except ErrorValue Fold)
    (r : Registers) : Response AggregateNotes :=
  match fold with
  | .error _ => (.skipAll, { n with fold := fold }, r)
  | .ok _ => (.proceed, { n with fold := fold }, r)

/- Fold an argument that was visited. -/
def foldOperand
    (f : Aggregate)
    (s : Site)
    (n : AggregateNotes)
    (fold : Fold)
    (r : Registers) : Response AggregateNotes :=
  match r.value with
  | .scalar v => n.afterElement (fold.addDirect f v) r
  | .cell p =>
      match r.read s p with
      | (none, r) => (.pause, n, r)
      | (some v, r) => n.afterElement (fold.addIndirect f v) r
  | .array a =>
      n.afterAll
        (a.data.toList.foldlM (fun fold v => fold.addIndirect f v)
          fold)
        r
  | .area a =>
      match r.foldArea s a (Fold.addIndirect f) fold with
      | (.waiting _, r) => (.pause, n, r)
      | (.aborted e, r) => n.afterAll (.error e) r
      | (.complete fold, r) => n.afterAll (.ok fold) r

/- An argument was visited. -/
def afterOperand
    (f : Aggregate)
    (s : Site)
    (n : AggregateNotes)
    (r : Registers) : Response AggregateNotes :=
  if r.suppressed then
    (.skipAll, n, r)
  else
    match n.fold with
    | .error _ => (.skipAll, n, r)
    | .ok fold => n.foldOperand f s fold r

/- Leave the result. -/
def leave
    (f : Aggregate)
    (n : AggregateNotes)
    (r : Registers) : Registers :=
  { r with offset := n.outside }.publishScalar
    (.ofExcept (Fold.result f) n.fold) Size.one

end AggregateNotes

------------------------------------------------------------
-- Sums Of Products
------------------------------------------------------------

/-
  An argument of a sum of products: a rectangle, whose cells
  are read at the end, or the scalars that it consists of,
  the last one first.
-/
inductive Factor where
  | area (r : Rect)
  | scalars (extent : Size) (vs : List Scalar)

namespace Factor

/- The extent of a factor. -/
def extent : Factor → Size
  | .area r => r.size
  | .scalars extent _ => extent

/- The scalars of a factor, if they can all be read. -/
def collect
    (s : Site)
    (r : Registers) : Factor → Option (List Scalar) × Registers
  | .scalars _ vs => (some vs.reverse, r)
  | .area a =>
      let push (v : Scalar) (vs : List Scalar) :
          Except ErrorValue (List Scalar) :=
        .ok (v :: vs)
      match r.foldArea s a push [] with
      | (.complete vs, r) => (some vs.reverse, r)
      | (_, r) => (none, r)

/- Go on with the scalars of an argument, or begin with one. -/
def extend
    (v : Scalar)
    (r : Registers) : Option Factor → Factor
  | some (.scalars extent vs) =>
      if r.offset = Point.zero then .scalars r.extent [v]
      else .scalars extent (v :: vs)
  | _ => .scalars r.extent [v]

end Factor

/- The arguments so far, and the offset outside. -/
structure ProductNotes where
  first : Option Factor
  second : Option Factor
  outside : Point

namespace ProductNotes

/- No argument was visited. -/
def start : ProductNotes :=
  ⟨none, none, Point.zero⟩

/- Arguments are visited from their first offset on. -/
def beforeOperands
    (n : ProductNotes)
    (r : Registers) : ProductNotes × Registers :=
  ({ n with outside := r.offset },
    { r with offset := Point.zero })

/- What was noted for an argument. -/
def factor (i : Nat) (n : ProductNotes) : Option Factor :=
  if i = 0 then n.first else n.second

/- Note what an argument is. -/
def note
    (i : Nat)
    (factor : Factor)
    (n : ProductNotes) : ProductNotes :=
  if i = 0 then { n with first := some factor }
  else { n with second := some factor }

/- An argument was visited. -/
def afterOperand
    (s : Site)
    (i : Nat)
    (n : ProductNotes)
    (r : Registers) : Response ProductNotes :=
  if r.suppressed then
    (.skipAll, n, r)
  else
    match r.value with
    | .area a => (.proceed, n.note i (.area a), r)
    | .array a =>
        (.proceed,
          n.note i (.scalars a.size a.data.toList.reverse), r)
    | .cell p =>
        match r.read s p with
        | (none, r) => (.pause, n, r)
        | (some v, r) =>
            (.proceed, n.note i (.scalars Size.one [v]), r)
    | .scalar v =>
        let n := n.note i (Factor.extend v r (n.factor i))
        let (outcome, r) := r.nextElement
        (outcome, n, r)

/-
  Add a product to a sum. The first error fails, and what is
  not a number counts as zero.
-/
def addProduct
    (v w : Scalar)
    (total : Float) : Except ErrorValue Float :=
  match v, w with
  | .error e, _ => .error e
  | _, .error e => .error e
  | .number x, .number y => .ok (total + x * y)
  | _, _ => .ok total

/- The sum of the products of two lists. -/
def sumScalars (vs ws : List Scalar) : Except ErrorValue Float :=
  (vs.zip ws).foldlM
    (fun total (v, w) => addProduct v w total) 0

/- The sum of the products of two rectangles. -/
def sumAreas
    (s : Site)
    (a b : Rect)
    (r : Registers) : Option (Except ErrorValue Float) × Registers :=
  match r.foldAreas s a b addProduct 0 with
  | (.complete total, r) => (some (.ok total), r)
  | (.aborted e, r) => (some (.error e), r)
  | (.waiting _, r) => (none, r)

/- The sum of the products of two arguments of one extent. -/
def sumFactors
    (s : Site)
    (a b : Factor)
    (r : Registers) : Option (Except ErrorValue Float) × Registers :=
  match a, b with
  | .area a, .area b => sumAreas s a b r
  | a, b =>
      match a.collect s r with
      | (none, r) => (none, r)
      | (some vs, r) =>
          match b.collect s r with
          | (none, r) => (none, r)
          | (some ws, r) => (some (sumScalars vs ws), r)

/- The result, if all cells can be read. -/
def compute
    (s : Site)
    (n : ProductNotes)
    (r : Registers) : Option (Except ErrorValue Float) × Registers :=
  match n.first, n.second with
  | some a, some b =>
      if a.extent = b.extent then sumFactors s a b r
      else (some (.error .wrongValue), r)
  | _, _ => (some (.error .wrongValue), r)

/- Leave the result; the offset outside is current again. -/
def publish
    (n : ProductNotes)
    (v : Scalar)
    (r : Registers) : Registers :=
  { r with offset := n.outside }.publishScalar v Size.one

/- Leave the result once all cells can be read. -/
def leave
    (s : Site)
    (n : ProductNotes)
    (r : Registers) : Response ProductNotes :=
  if r.suppressed then
    (.proceed, n, n.publish .blank r)
  else
    match n.compute s r with
    | (none, r) => (.pause, n, r)
    | (some total, r) =>
        (.proceed, n, n.publish (.ofExcept .ofFloat total) r)

end ProductNotes

end Spreadsheet
