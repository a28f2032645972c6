import Spreadsheet.Reference.Adjustment

/-
  What references become by adjustments.

  An adjustment says of each reference what it becomes, or
  nothing if it stays as it is. So the adjusted list, which is
  copied from the old one when the first reference changes, has
  at each place what became of the reference there.

  Main declarations:
    * `Reference.adjustAlong`
    * `Reference.Changes`
    * `References.changed?`
    * `References.adjust?_eq`
    * `References.adjustToMove?_eq`
-/

namespace Spreadsheet

------------------------------------------------------------
-- Single References
------------------------------------------------------------

namespace Reference

/- A copy whose reference leaves the sheet has none. -/
def adjustToCopy (r : Reference) (dest : Point) : Reference :=
  if r.onSheet dest then r else .illegal

/-
  Change what a reference says along one axis; it becomes
  illegal where a change fails. Bands across the axis stay.
-/
def adjustAlong
    (axis : Axis)
    (single : Coord → Option Coord)
    (span : Span → Option Span) : Reference → Reference
  | .cell x y =>
      match axis with
      | .columns => (single x).elim .illegal (.cell · y)
      | .rows => (single y).elim .illegal (.cell x ·)
  | .area x y =>
      match axis with
      | .columns => (span x).elim .illegal (.area · y)
      | .rows => (span y).elim .illegal (.area x ·)
  | .band direction s =>
      if direction = axis then
        (span s).elim .illegal (.band axis ·)
      else
        .band direction s
  | .illegal => .illegal

/- A reference adjusted to an insertion. -/
def inserted
    (axis : Axis)
    (anchor before count : Nat)
    (r : Reference) : Reference :=
  r.adjustAlong axis
    (·.insert? anchor before count (maxSize.along axis))
    (·.insert? anchor before count (maxSize.along axis))

/- A reference adjusted to an erasure. -/
def erased
    (axis : Axis)
    (anchor first count : Nat)
    (r : Reference) : Reference :=
  r.adjustAlong axis
    (·.erase? anchor first count)
    (·.erase? anchor first count)

/-
  A change says what references become, and nothing of those
  that stay as they are.
-/
def Changes
    (change : Reference → Option Reference)
    (become : Reference → Reference) : Prop :=
  ∀ r, change r = if become r = r then none else some (become r)

theorem changes_adjustToCopy (dest : Point) :
    Changes (·.adjustToCopy? dest) (·.adjustToCopy dest) := by
  intro r
  cases r with
  | illegal => rfl
  | _ =>
      simp only [adjustToCopy?, adjustToCopy]
      split <;> simp

theorem changes_adjustToMove (dx dy : Int) :
    Changes (·.adjustToMove? dx dy) (·.adjustToMove dx dy) :=
  fun _ => rfl

/- A part that changes makes another reference. -/
theorem replacePart?_eq
    {α : Type}
    [DecidableEq α]
    {build : α → Reference}
    (hInjective : ∀ a b, build a = build b → a = b)
    (hLegal : ∀ a, build a ≠ .illegal)
    (old : α)
    (new : Option α) :
    replacePart? old new build =
      if new.elim .illegal build = build old then none
      else some (new.elim .illegal build) := by
  unfold replacePart?
  cases new with
  | none => rw [Option.elim_none, if_neg (hLegal old).symm]
  | some part =>
      by_cases hSame : part = old
      · simp [hSame]
      · have hOther : build part ≠ build old := fun h =>
          hSame (hInjective part old h)
        simp [hSame, hOther]

theorem changes_adjustAlong
    (axis : Axis)
    (single : Coord → Option Coord)
    (span : Span → Option Span) :
    Changes (·.adjustAlong? axis single span)
      (·.adjustAlong axis single span) := by
  intro r
  cases r with
  | cell x y =>
      cases axis <;>
        exact replacePart?_eq (by simp) (by simp) _ _
  | area x y =>
      cases axis <;>
        exact replacePart?_eq (by simp) (by simp) _ _
  | band direction s =>
      simp only [adjustAlong?, adjustAlong]
      split
      · rename_i hAxis
        subst hAxis
        exact replacePart?_eq (by simp) (by simp) _ _
      · rw [if_pos rfl]
  | illegal => rfl

theorem adjustToMove_zero (r : Reference) : r.adjustToMove 0 0 = r := by
  have hCoord (c : Coord) : c.moveAnchor 0 = c := by
    cases c <;> simp [Coord.moveAnchor]
  cases r with
  | band axis s =>
      cases axis <;> simp [adjustToMove, Span.map, hCoord]
  | _ => simp [adjustToMove, Span.map, hCoord]

end Reference

------------------------------------------------------------
-- Lists
------------------------------------------------------------

namespace References

/- What references become, unless they all stay as they are. -/
def changed?
    (refs : References)
    (become : Reference → Reference) : Option References :=
  if refs.map become = refs then none else some (refs.map become)

theorem getD_changed?
    (refs : References)
    (become : Reference → Reference) :
    (refs.changed? become).getD refs = refs.map become := by
  unfold changed?
  split
  · rename_i hSame
    exact hSame.symm
  · rfl

theorem changed?_eq_none_iff
    {refs : References}
    {become : Reference → Reference} :
    refs.changed? become = none ↔ refs.map become = refs := by
  unfold changed?
  split <;> simp_all

variable
  {change : Reference → Option Reference}
  {become : Reference → Reference}

/-
  The adjusted list after the references `done` were passed: a
  copy is there if one of them changed, and has the others as
  they were.
-/
def adjustedTo
    (become : Reference → Reference)
    (done rest : References) : Option References :=
  if done.map become = done then none
  else some (done.map become ++ rest)

theorem getD_adjustedTo
    (become : Reference → Reference)
    (done rest : References) :
    (adjustedTo become done rest).getD (done ++ rest) =
      done.map become ++ rest := by
  unfold adjustedTo
  split
  · rename_i hSame
    rw [Option.getD_none, hSame]
  · rfl

/- One more reference is passed. -/
theorem replaceEntry_adjustedTo
    (hChanges : Reference.Changes change become)
    (done rest : References)
    (r : Reference) :
    replaceEntry (done ++ r :: rest) change
        (adjustedTo become done (r :: rest)) (r, done.length) =
      adjustedTo become (done ++ [r]) rest := by
  unfold replaceEntry
  rw [hChanges r]
  by_cases hSame : become r = r
  · -- the reference stays, in the old list or in the copy
    rw [if_pos hSame]
    simp [adjustedTo, hSame]
  · rw [if_neg hSame]
    dsimp only
    rw [getD_adjustedTo]
    simp [adjustedTo, hSame]

theorem foldl_replaceEntry
    (hChanges : Reference.Changes change become)
    (done rest : References) :
    (rest.zipIdx done.length).foldl
        (replaceEntry (done ++ rest) change)
        (adjustedTo become done rest) =
      (done ++ rest).changed? become := by
  induction rest generalizing done with
  | nil => simp [adjustedTo, changed?]
  | cons r rest ih =>
      have hNext := ih (done ++ [r])
      rw [List.append_assoc, List.singleton_append,
        List.length_append, List.length_singleton] at hNext
      rw [List.zipIdx_cons, List.foldl_cons,
        replaceEntry_adjustedTo hChanges]
      exact hNext

/- A list is returned exactly if a reference changes. -/
theorem adjust?_eq
    (hChanges : Reference.Changes change become)
    (refs : References) :
    refs.adjust? change = refs.changed? become :=
  foldl_replaceEntry hChanges [] refs

theorem adjustToCopy?_eq (refs : References) (dest : Point) :
    refs.adjustToCopy? dest =
      refs.changed? (·.adjustToCopy dest) :=
  adjust?_eq (Reference.changes_adjustToCopy dest) refs

/- Without a move all references stay as they are. -/
theorem adjustToMove?_eq
    (refs : References)
    (start dest : Point) :
    refs.adjustToMove? start dest =
      refs.changed?
        (·.adjustToMove (dest.x - start.x) (dest.y - start.y)) := by
  unfold adjustToMove?
  split
  · rename_i hSame
    subst hSame
    rw [eq_comm, changed?_eq_none_iff]
    simp [Reference.adjustToMove_zero]
  · exact adjust?_eq (Reference.changes_adjustToMove _ _) refs

theorem adjustToErasure?_eq
    (refs : References)
    (axis : Axis)
    (anchor first count : Nat) :
    refs.adjustToErasure? axis anchor first count =
      refs.changed? (·.erased axis anchor first count) :=
  adjust?_eq (Reference.changes_adjustAlong axis _ _) refs

theorem adjustToInsertion?_eq
    (refs : References)
    (axis : Axis)
    (anchor before count : Nat) :
    refs.adjustToInsertion? axis anchor before count =
      refs.changed? (·.inserted axis anchor before count) :=
  adjust?_eq (Reference.changes_adjustAlong axis _ _) refs

end References

end Spreadsheet
