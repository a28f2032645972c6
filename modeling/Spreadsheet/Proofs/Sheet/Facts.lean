import Spreadsheet.Proofs.Sheet.Measures

/-
  What is known about single columns and rows.

  Of a column or row two things are known, and neither depends
  on the other: the length that it was given, if any, and
  whether it is hidden. The measures of a sheet say of each
  index what commands one by one say about it, no interval is
  kept that says nothing, and none reaches past the part of
  the sheet that is in use.

  Main declarations:
    * `Facts`
    * `Sheet.Command.facts`
    * `Sheet.measures_run`
    * `Sheet.Knows.run`
    * `Sheet.facts_of_commands`
-/

namespace Spreadsheet

------------------------------------------------------------
-- Facts
------------------------------------------------------------

/- The lengths that were given, and what is hidden, by index. -/
structure Facts where
  lengths : Nat → Option Float32
  flags : Nat → Bool

namespace Facts

variable {α : Type}

/- The same fact about `count` indices from `start` on. -/
def among
    (start count : Nat)
    (a : α)
    (known : Nat → α)
    (i : Nat) : α :=
  if start ≤ i ∧ i < start + count then a else known i

/-
  Facts move up, and the `count` new indices share the one
  about the index before which they were inserted.
-/
def inserted
    (before count : Nat)
    (known : Nat → α)
    (i : Nat) : α :=
  if i < before then known i
  else if i < before + count then known before
  else known (i - count)

/- Facts about `count` indices are dropped, and others move down. -/
def deleted
    (first count : Nat)
    (known : Nat → α)
    (i : Nat) : α :=
  if i < first then known i else known (i + count)

end Facts

namespace Sheet

/- What a command does to the facts along one axis. -/
def Command.facts
    (axis : Axis)
    (command : Command)
    (known : Facts) : Facts :=
  match command with
  | .setLength along start count length =>
      if along = axis then
        { known with
          lengths :=
            Facts.among start count (some length) known.lengths }
      else known
  | .clearLength along start count =>
      if along = axis then
        { known with
          lengths := Facts.among start count none known.lengths }
      else known
  | .hide along start count =>
      if along = axis then
        { known with
          flags := Facts.among start count true known.flags }
      else known
  | .unhide along start count =>
      if along = axis then
        { known with
          flags := Facts.among start count false known.flags }
      else known
  | .insertBand along before count =>
      if along = axis then
        ⟨Facts.inserted before count known.lengths,
          Facts.inserted before count known.flags⟩
      else known
  | .deleteBand along first count =>
      if along = axis then
        ⟨Facts.deleted first count known.lengths,
          Facts.deleted first count known.flags⟩
      else known
  | _ => known

/- The facts that a sheet states along one axis. -/
def facts (s : Sheet) (axis : Axis) : Facts where
  lengths i := (s.measure axis i).length
  flags i := (s.measure axis i).hidden

------------------------------------------------------------
-- Calls On Maps
------------------------------------------------------------

/- The call on the map of an axis that a command makes. -/
def Command.call?
    (axis : Axis) :
    Command → Option (IntervalMap.Command Measure)
  | .setLength along start count length =>
      if along = axis then
        some (.modify start (start + count) fun v =>
          some ⟨some length, v.any (·.hidden)⟩)
      else none
  | .clearLength along start count =>
      if along = axis then
        some (.modify start (start + count) fun v =>
          if v.any (·.hidden) then some ⟨none, true⟩ else none)
      else none
  | .hide along start count =>
      if along = axis then
        some (.modify start (start + count) fun v =>
          some ⟨v.bind (·.length), true⟩)
      else none
  | .unhide along start count =>
      if along = axis then
        some (.modify start (start + count) fun v =>
          (v.bind (·.length)).map fun length => ⟨some length, false⟩)
      else none
  | .insertBand along before count =>
      if along = axis ∧ count ≠ 0 then some (.insert before count)
      else none
  | .deleteBand along first count =>
      if along = axis ∧ count ≠ 0 then
        some (.erase first (first + count))
      else none
  | _ => none

/-
  A map is as a call leaves it, and as much of the sheet is in
  use as the call reaches.
-/
def Follows
    (axis : Axis)
    (s t : Sheet) :
    Option (IntervalMap.Command Measure) → Prop
  | none =>
      t.measures axis = s.measures axis ∧
        s.size.along axis ≤ t.size.along axis
  | some call =>
      t.measures axis = call.apply (s.measures axis) ∧
        call.reach (s.size.along axis) ≤ t.size.along axis

variable {s t u : Sheet}

theorem Grows.follows
    (hGrows : Grows s t)
    (axis : Axis) :
    Follows axis s t none :=
  ⟨hGrows.same axis, ((Grid.fits_iff_along axis).1 hGrows.size).1⟩

theorem Follows.grows
    {axis : Axis}
    {call? : Option (IntervalMap.Command Measure)}
    (hFollows : Follows axis s t call?)
    (hGrows : Grows t u) :
    Follows axis s u call? := by
  rcases hGrows.follows axis with ⟨hSame, hSize⟩
  cases call? with
  | none =>
      exact ⟨hSame.trans hFollows.1, hFollows.2.trans hSize⟩
  | some call =>
      exact ⟨hSame.trans hFollows.1, hFollows.2.trans hSize⟩

/- What is done along one axis leaves the other one alone. -/
theorem follows_along
    {along axis : Axis}
    {call : IntervalMap.Command Measure}
    (hAlong : Follows along s t (some call))
    (hCross : Follows along.cross s t none) :
    Follows axis s t (if along = axis then some call else none) := by
  by_cases hSame : along = axis
  · rw [if_pos hSame, ← hSame]
    exact hAlong
  · rw [if_neg hSame]
    have hOther : axis = along.cross := by
      cases along <;> cases axis <;>
        first
        | rfl
        | exact absurd rfl hSame
    rw [hOther]
    exact hCross

theorem follows_modifyMeasures
    {along axis : Axis}
    {start count : Nat}
    {op : Option Measure → Option Measure}
    (hDone :
      s.modifyMeasures along start count
          (fun m start stop => m.modify start stop op) =
        .ok t) :
    Follows axis s t
      (if along = axis then some (.modify start (start + count) op)
      else none) := by
  unfold Sheet.modifyMeasures at hDone
  rw [Except.bind_eq_ok] at hDone
  rcases hDone with ⟨_, _, hEdit⟩
  cases hEdit
  rcases measures_setMeasures
      { s with grid := s.grid.expandAlong along (start + count) } along
      ((s.measures along).modify start (start + count) op) with
    ⟨hAlong, hCross⟩
  refine follows_along ⟨hAlong, ?_⟩ ⟨hCross.trans ?_, ?_⟩
  · rw [size_setMeasures]
    exact (Size.along_setAlong _ along _).ge
  · cases along <;> rfl
  · rw [size_setMeasures]
    exact (Size.along_cross_setAlong _ along _).ge

theorem follows_insertBand
    {along axis : Axis}
    {before count : Nat}
    (hDone : s.insertBand along before count = .ok t) :
    Follows axis s t
      (if along = axis ∧ count ≠ 0 then some (.insert before count)
      else none) := by
  unfold Sheet.insertBand at hDone
  rw [Except.bind_eq_ok] at hDone
  rcases hDone with ⟨_, -, hEdit⟩
  split at hEdit
  · rename_i hNone
    cases hEdit
    rw [if_neg fun h => h.2 hNone]
    exact (grows_refl s).follows axis
  · rename_i hSome
    cases hEdit
    simp only [ne_eq, hSome, not_false_eq_true, and_true]
    refine Follows.grows (t := s.insertedBand along before count) ?_
      (grows_refresh _)
    rcases measures_insertedBand s along before count with
      ⟨hAlong, hCross⟩
    rcases size_insertedBand s along before count with
      ⟨hSize, hSizeCross⟩
    exact follows_along ⟨hAlong, hSize⟩ ⟨hCross, hSizeCross⟩

theorem follows_deleteBand
    {along axis : Axis}
    {first count : Nat}
    (hDone : s.deleteBand along first count = .ok t) :
    Follows axis s t
      (if along = axis ∧ count ≠ 0 then
        some (.erase first (first + count))
      else none) := by
  unfold Sheet.deleteBand at hDone
  rw [Except.bind_eq_ok] at hDone
  rcases hDone with ⟨_, -, hEdit⟩
  split at hEdit
  · rename_i hNone
    cases hEdit
    rw [if_neg fun h => h.2 hNone]
    exact (grows_refl s).follows axis
  · rename_i hSome
    cases hEdit
    simp only [ne_eq, hSome, not_false_eq_true, and_true]
    refine Follows.grows (t := s.deletedBand along first count) ?_
      (grows_refresh _)
    rcases measures_deletedBand s along first count with
      ⟨hAlong, hCross⟩
    rcases size_deletedBand s along first count with
      ⟨hSize, hSizeCross⟩
    refine follows_along ⟨hAlong, ?_⟩ ⟨hCross, hSizeCross⟩
    rw [IntervalMap.Command.reach, Nat.add_sub_cancel_left]
    exact hSize

/- A command makes at most one call on the map of each axis. -/
theorem measures_run
    {command : Command}
    (hDone : command.run s = .ok t)
    (axis : Axis) :
    Follows axis s t (command.call? axis) := by
  cases command with
  | insertBand along before count => exact follows_insertBand hDone
  | deleteBand along first count => exact follows_deleteBand hDone
  | setLength along start count length =>
      exact follows_modifyMeasures hDone
  | clearLength along start count =>
      exact follows_modifyMeasures hDone
  | hide along start count => exact follows_modifyMeasures hDone
  | unhide along start count => exact follows_modifyMeasures hDone
  | suspend =>
      cases hDone
      exact (grows_of_eq rfl rfl rfl).follows axis
  | resume =>
      change s.resume = .ok t at hDone
      unfold Sheet.resume at hDone
      split at hDone
      · cases hDone
      · cases hDone
        have hBegun :
            Grows s { s with suspended := s.suspended - 1 } :=
          grows_of_eq rfl rfl rfl
        exact (hBegun.trans (grows_refresh _)).follows axis
  | recalculate =>
      cases hDone
      exact (grows_recalculate s).follows axis
  | _ => exact (grows_of_isOnCells rfl hDone).follows axis

------------------------------------------------------------
-- Measures That Are Kept
------------------------------------------------------------

/- A measure says something. -/
def Telling (v : Measure) : Prop :=
  v.length ≠ none ∨ v.hidden = true

/-
  The intervals along an axis are canonical, say something,
  and do not reach past the part in use.
-/
structure Kept (s : Sheet) (axis : Axis) : Prop where
  canonical : (s.measures axis).Canonical
  telling : (s.measures axis).Values Telling
  stops : (s.measures axis).StopsBy (s.size.along axis)

theorem kept_new (config : SheetConfig) (axis : Axis) :
    (new config).Kept axis := by
  cases axis <;> exact ⟨IntervalMap.canonical_empty, nofun, nofun⟩

/-
  A call of a command writes only values with a property if
  each of the four changes of a measure does.
-/
theorem keeps_of_call?
    {p : Measure → Prop}
    {command : Command}
    {axis : Axis}
    {call : IntervalMap.Command Measure}
    (hSet :
      ∀ along start count length,
        command = .setLength along start count length →
          ∀ hidden, p ⟨some length, hidden⟩)
    (hClear : p ⟨none, true⟩)
    (hHide : ∀ v : Measure, p v → p ⟨v.length, true⟩)
    (hUnhide :
      ∀ length hidden, p ⟨some length, hidden⟩ →
        p ⟨some length, false⟩)
    (hCall : command.call? axis = some call) :
    call.Keeps p := by
  cases command <;>
    simp only [Command.call?, Option.ite_none_right_eq_some,
      Option.some.injEq, reduceCtorEq] at hCall <;>
    obtain ⟨-, rfl⟩ := hCall
  case setLength along start count length =>
    rintro v - w ⟨⟩
    exact hSet along start count length rfl _
  case clearLength =>
    rintro v - w hw
    dsimp only at hw
    split at hw <;> cases hw
    exact hClear
  case hide =>
    rintro (- | v) hv w ⟨⟩
    · exact hClear
    · exact hHide v (hv v rfl)
  case unhide =>
    rintro (- | ⟨- | length, hidden⟩) hv w hw <;> cases hw
    exact hUnhide length hidden (hv _ rfl)
  case insertBand => trivial
  case deleteBand => trivial

/- What commands write into a map says something. -/
theorem telling_of_call?
    {command : Command}
    {axis : Axis}
    {call : IntervalMap.Command Measure}
    (hCall : command.call? axis = some call) :
    call.Keeps Telling :=
  keeps_of_call? (fun _ _ _ _ _ _ => .inl nofun) (.inr rfl)
    (fun _ _ => .inr rfl) (fun _ _ _ => .inl nofun) hCall

/- Only a length that is no number is not equal to itself. -/
theorem proper_of_call?
    {command : Command}
    {axis : Axis}
    {call : IntervalMap.Command Measure}
    (hNumber :
      ∀ along start count,
        command ≠ .setLength along start count Float32.nan)
    (hCall : command.call? axis = some call) :
    call.Keeps fun v => (v == v) = true := by
  simp only [Measure.self_eq]
  refine keeps_of_call? ?_ nofun (fun _ hv => hv)
    (fun _ _ hv => hv) hCall
  rintro along start count length rfl hidden ⟨⟩
  exact hNumber along start count rfl

theorem Kept.follows
    {axis : Axis}
    {call? : Option (IntervalMap.Command Measure)}
    (hKept : s.Kept axis)
    (hFollows : Follows axis s t call?)
    (hTelling : ∀ call, call? = some call → call.Keeps Telling) :
    t.Kept axis := by
  cases call? with
  | none =>
      rcases hFollows with ⟨hSame, hSize⟩
      refine ⟨?_, ?_, ?_⟩
      · exact hSame ▸ hKept.canonical
      · exact hSame ▸ hKept.telling
      · exact hSame ▸ hKept.stops.wider hSize
  | some call =>
      rcases hFollows with ⟨hApplied, hSize⟩
      refine ⟨?_, ?_, ?_⟩
      · exact hApplied ▸ call.canonical_apply hKept.canonical
      · exact hApplied ▸ IntervalMap.Command.values_apply
          hKept.canonical hKept.telling (hTelling call rfl)
      · exact hApplied ▸ (call.stopsBy_apply hKept.stops).wider hSize

/- So it is on every sheet that commands and batches lead to. -/
theorem Calls.kept
    (hCalls : Calls s t)
    {axis : Axis}
    (hKept : s.Kept axis) :
    t.Kept axis := by
  induction hCalls with
  | refl s => exact hKept
  | call _ command hRun _ ih =>
      exact (ih hKept).follows (measures_run hRun axis)
        fun _ => telling_of_call?
  | @batch s u _ _ commands _ _ ih ihInner =>
      have hBegun : Grows u u.suspend := grows_of_eq rfl rfl rfl
      have hInner := ihInner
        ((ih hKept).follows (hBegun.follows axis) nofun)
      have hEnded :
          Grows (commands u.suspend).2
            { (commands u.suspend).2 with suspended := u.suspended } :=
        grows_of_eq rfl rfl rfl
      exact hInner.follows
        ((hEnded.trans (grows_refresh _)).follows axis) nofun

------------------------------------------------------------
-- Facts That Are Known
------------------------------------------------------------

/- What a map says about an index are these two facts. -/
def Tells
    (value : Option Measure)
    (length : Option Float32)
    (hidden : Bool) : Prop :=
  (value.bind (·.length) == length) = true ∧
    value.any (·.hidden) = hidden

/-
  The measures along an axis are kept well, no length is
  unlike itself, and they tell these facts.
-/
structure Knows (s : Sheet) (axis : Axis) (known : Facts) : Prop where
  kept : s.Kept axis
  proper : (s.measures axis).Proper
  tells :
    ∀ i, Tells ((s.measures axis).get? i) (known.lengths i)
      (known.flags i)

theorem Tells.of_alike
    {a b : Option Measure}
    {length : Option Float32}
    {hidden : Bool}
    (hTells : Tells b length hidden)
    (hAlike : Intervals.Alike a b) :
    Tells a length hidden := by
  cases a with
  | none =>
      cases b with
      | none => exact hTells
      | some w => cases hAlike
  | some v =>
      cases b with
      | none => cases hAlike
      | some w =>
          have hEqual : (v == w) = true := hAlike
          rw [Measure.beq_iff] at hEqual
          refine ⟨?_, hEqual.2.trans hTells.2⟩
          exact Intervals.Alike.trans hEqual.1 hTells.1

theorem Tells.clearLength
    {v : Option Measure}
    {length : Option Float32}
    {hidden : Bool}
    (hTells : Tells v length hidden) :
    Tells (if v.any (·.hidden) then some ⟨none, true⟩ else none) none
      hidden := by
  rw [← hTells.2]
  cases hHidden : v.any (·.hidden) <;> exact ⟨rfl, rfl⟩

theorem Tells.unhide
    {v : Option Measure}
    {length : Option Float32}
    {hidden : Bool}
    (hTells : Tells v length hidden) :
    Tells
      ((v.bind (·.length)).map fun length => ⟨some length, false⟩)
      length false := by
  refine ⟨?_, ?_⟩
  · have hLength := hTells.1
    cases hGiven : v.bind (·.length) <;> rwa [hGiven] at hLength
  · cases v.bind (·.length) <;> rfl

/- Facts that move by no step stay. -/
theorem facts_of_no_band
    {α : Type}
    (first : Nat)
    (known : Nat → α) :
    Facts.inserted first 0 known = known ∧
      Facts.deleted first 0 known = known := by
  refine ⟨funext fun i => ?_, funext fun i => ?_⟩
  · rw [Facts.inserted]
    split
    · rfl
    · rw [if_neg (by omega)]
      rfl
  · rw [Facts.deleted]
    split <;> rfl

/- What is done along one axis tells nothing new of the other. -/
theorem tells_along
    {along axis : Axis}
    {call : IntervalMap.Command Measure}
    {known changed : Facts}
    {old : Nat → Option Measure}
    {i : Nat}
    (hOld : Tells (old i) (known.lengths i) (known.flags i))
    (hHere :
      Tells (call.dense old i) (changed.lengths i)
        (changed.flags i)) :
    Tells
      ((if along = axis then some call else none).elim (old i)
        (·.dense old i))
      ((if along = axis then changed else known).lengths i)
      ((if along = axis then changed else known).flags i) := by
  by_cases hAlong : along = axis
  · rw [if_pos hAlong, if_pos hAlong]
    exact hHere
  · rw [if_neg hAlong, if_neg hAlong]
    exact hOld

/- The map says what the facts are after the command. -/
theorem tells_of_call?
    {command : Command}
    (hNumber :
      ∀ along start count,
        command ≠ .setLength along start count Float32.nan)
    (axis : Axis)
    {known : Facts}
    {old : Nat → Option Measure}
    (hTells : ∀ i, Tells (old i) (known.lengths i) (known.flags i))
    (i : Nat) :
    Tells ((command.call? axis).elim (old i) (·.dense old i))
      ((command.facts axis known).lengths i)
      ((command.facts axis known).flags i) := by
  have hOld := hTells i
  cases command
  case setLength along start count length =>
    have hSelf : (some length == some length) = true := by
      rw [Option.some_beq_some, Float32.beq_self_iff]
      rintro rfl
      exact hNumber along start count rfl
    refine tells_along hOld ?_
    simp only [IntervalMap.Command.dense, Facts.among]
    split
    · exact ⟨hSelf, hOld.2⟩
    · exact hOld
  case clearLength along start count =>
    refine tells_along hOld ?_
    simp only [IntervalMap.Command.dense, Facts.among]
    split
    · exact hOld.clearLength
    · exact hOld
  case hide along start count =>
    refine tells_along hOld ?_
    simp only [IntervalMap.Command.dense, Facts.among]
    split
    · exact ⟨hOld.1, rfl⟩
    · exact hOld
  case unhide along start count =>
    refine tells_along hOld ?_
    simp only [IntervalMap.Command.dense, Facts.among]
    split
    · exact hOld.unhide
    · exact hOld
  case insertBand along before count =>
    by_cases hNone : count = 0
    · simpa only [Command.call?, Command.facts, hNone, ne_eq,
        not_true_eq_false, and_false, if_false, Option.elim_none,
        (facts_of_no_band before _).1, ite_self] using hOld
    · simp only [Command.call?, and_iff_left hNone]
      refine tells_along hOld ?_
      simp only [IntervalMap.Command.dense, Facts.inserted]
      split
      · exact hOld
      · split
        · exact hTells before
        · exact hTells (i - count)
  case deleteBand along first count =>
    by_cases hNone : count = 0
    · simpa only [Command.call?, Command.facts, hNone, ne_eq,
        not_true_eq_false, and_false, if_false, Option.elim_none,
        (facts_of_no_band first _).2, ite_self] using hOld
    · simp only [Command.call?, and_iff_left hNone]
      refine tells_along hOld ?_
      simp only [IntervalMap.Command.dense, Facts.deleted,
        Nat.add_sub_cancel_left]
      split
      · exact hOld
      · exact hTells (i + count)
  all_goals exact hOld

theorem Knows.run
    {axis : Axis}
    {known : Facts}
    (hKnows : s.Knows axis known)
    {command : Command}
    (hNumber :
      ∀ along start count,
        command ≠ .setLength along start count Float32.nan)
    (hDone : command.run s = .ok t) :
    t.Knows axis (command.facts axis known) := by
  have hFollows := measures_run hDone axis
  have hTells := tells_of_call? hNumber axis hKnows.tells
  have hKept := hKnows.kept.follows hFollows
    fun _ => telling_of_call?
  cases hCall : command.call? axis with
  | none =>
      rw [hCall] at hFollows
      simp only [hCall, Option.elim_none] at hTells
      refine ⟨hKept, ?_, ?_⟩
      · rw [hFollows.1]
        exact hKnows.proper
      · rw [hFollows.1]
        exact hTells
  | some call =>
      rw [hCall] at hFollows
      simp only [hCall, Option.elim_some] at hTells
      have hProper := proper_of_call? hNumber hCall
      refine ⟨hKept, ?_, fun i => ?_⟩
      · rw [hFollows.1]
        exact IntervalMap.Command.values_apply
          hKnows.kept.canonical hKnows.proper hProper
      · rw [hFollows.1]
        exact (hTells i).of_alike
          (IntervalMap.Command.get?_apply hKnows.kept.canonical
            hKnows.proper hProper i)

/- All commands are carried out, one after the other. -/
def runAll (commands : List Command) (s : Sheet) :
    Except SheetError Sheet :=
  commands.foldlM (fun s command => command.run s) s

/- The facts after commands, from those before them. -/
def factsAfter
    (axis : Axis)
    (commands : List Command)
    (known : Facts) : Facts :=
  commands.foldl (fun known command => command.facts axis known) known

theorem Knows.runAll
    {axis : Axis}
    {commands : List Command}
    {known : Facts}
    (hKnows : s.Knows axis known)
    (hNumbers :
      ∀ along start count,
        .setLength along start count Float32.nan ∉ commands)
    (hDone : runAll commands s = .ok t) :
    t.Knows axis (factsAfter axis commands known) := by
  induction commands generalizing s known with
  | nil =>
      cases hDone
      exact hKnows
  | cons command commands ih =>
      rw [Sheet.runAll, List.foldlM_cons, Except.bind_eq_ok] at hDone
      rcases hDone with ⟨u, hRun, hRest⟩
      refine ih (hKnows.run ?_ hRun) ?_ hRest
      · rintro along start count rfl
        exact hNumbers along start count List.mem_cons_self
      · exact fun along start count hIn =>
          hNumbers along start count (List.mem_cons_of_mem _ hIn)

/- What a sheet says itself is what its map tells. -/
theorem tells_iff
    {axis : Axis}
    {i : Nat}
    {length : Option Float32}
    {hidden : Bool} :
    Tells ((s.measures axis).get? i) length hidden ↔
      ((s.measure axis i).length == length) = true ∧
        (s.measure axis i).hidden = hidden := by
  unfold Tells measure Measures.measure IntervalMap.getD
  cases (s.measures axis).get? i <;> rfl

theorem knows_facts
    {axis : Axis}
    (hKept : s.Kept axis)
    (hProper : (s.measures axis).Proper) :
    s.Knows axis (s.facts axis) := by
  refine ⟨hKept, hProper, fun i => ?_⟩
  rw [tells_iff]
  refine ⟨?_, rfl⟩
  have hSelf := Intervals.Proper.alike hProper i
  rw [← IntervalMap.get?_eq_valueAt] at hSelf
  change
    ((((s.measures axis).get? i).getD .usual).length ==
      (((s.measures axis).get? i).getD .usual).length) = true
  cases hValue : (s.measures axis).get? i with
  | none => rfl
  | some v =>
      rw [hValue] at hSelf
      exact (Measure.beq_iff.1 hSelf).1

/- An insertion that is accepted moves nothing off the sheet. -/
theorem Kept.onSheet_of_insertBand
    {axis : Axis}
    (hKept : s.Kept axis)
    {before count : Nat}
    (hCount : 0 < count)
    (hDone : s.insertBand axis before count = .ok t) :
    (t.measures axis).StopsBy (maxSize.along axis) := by
  have hRun : (Command.insertBand axis before count).run s = .ok t :=
    hDone
  have hFollows := measures_run hRun axis
  rw [Command.call?, if_pos ⟨rfl, by omega⟩] at hFollows
  have hStops := IntervalMap.Command.stopsBy_apply hKept.stops
    (.insert before count)
  rw [← hFollows.1] at hStops
  refine hStops.wider ?_
  unfold Sheet.insertBand checkInsertion at hDone
  simp only [Except.bind_eq_ok] at hDone
  rcases hDone with ⟨_, ⟨_, hBand, hRoom⟩, -⟩
  rw [checkBand_eq_ok] at hBand
  rw [checkCount_eq_ok] at hRoom
  rw [IntervalMap.Command.reach]
  omega

/-
  From any sheet on, commands change two facts about each
  column and row, a length and a flag, and nothing else is
  told by the measures after them. An interval that says
  nothing is never kept, and none reaches past the part in
  use, so that what is inserted next moves none off the sheet.
  Lengths are compared as numbers are, so none of them may be
  one that is not equal to itself.
-/
theorem facts_of_commands
    {config : SheetConfig}
    {commands : List Command}
    (hCalls : Calls (new config) s)
    (hProper :
      ∀ axis, ∀ r ∈ (s.measures axis).intervals,
        r.value.length ≠ some Float32.nan)
    (hNumbers :
      ∀ along start count,
        .setLength along start count Float32.nan ∉ commands)
    (hDone : runAll commands s = .ok t)
    (axis : Axis) :
    (∀ i,
        ((t.measure axis i).length ==
            (factsAfter axis commands (s.facts axis)).lengths i) =
              true ∧
          (t.measure axis i).hidden =
            (factsAfter axis commands (s.facts axis)).flags i) ∧
      (∀ r ∈ (t.measures axis).intervals,
        r.stop ≤ t.size.along axis ∧
          (r.value.length ≠ none ∨ r.value.hidden = true)) ∧
      ∀ before count u, 0 < count →
        t.insertBand axis before count = .ok u →
          ∀ r ∈ (u.measures axis).intervals,
            r.stop ≤ maxSize.along axis := by
  have hBefore : s.Knows axis (s.facts axis) :=
    knows_facts (hCalls.kept (kept_new config axis))
      fun r hr => Measure.self_eq.2 (hProper axis r hr)
  have hKnows := hBefore.runAll hNumbers hDone
  refine ⟨fun i => tells_iff.1 (hKnows.tells i), fun r hr => ?_, ?_⟩
  · exact ⟨hKnows.kept.stops r hr, hKnows.kept.telling r hr⟩
  · exact fun before count u hCount hInsert =>
      hKnows.kept.onSheet_of_insertBand hCount hInsert

/- Rows that are inserted share a length and a flag. -/
theorem facts_of_inserted_rows :
    ∃ t,
      runAll
          [.setLength .rows 2 3 20, .hide .rows 4 1,
            .insertBand .rows 4 2, .clearLength .rows 3 2]
          (new ⟨false, 15, 64⟩) =
        .ok t ∧
      (t.measure .rows 4).hidden = true ∧
      ((t.measure .rows 4).length == none) = true ∧
      (t.measure .rows 6).hidden = true ∧
      ((t.measure .rows 6).length == some 20) = true := by
  refine ⟨_, rfl, ?_⟩
  have hFacts := facts_of_commands
    (.refl (new ⟨false, 15, 64⟩)) (by rintro (- | -) <;> nofun)
    (by
      simp only [List.mem_cons, Command.setLength.injEq, reduceCtorEq,
        List.not_mem_nil, or_false, not_and]
      exact fun _ _ _ _ _ _ => by decide)
    (rfl :
      runAll
          [.setLength .rows 2 3 20, .hide .rows 4 1,
            .insertBand .rows 4 2, .clearLength .rows 3 2]
          _ =
        .ok _)
    .rows
  exact ⟨(hFacts.1 4).2, (hFacts.1 4).1, (hFacts.1 6).2,
    (hFacts.1 6).1⟩

end Sheet

end Spreadsheet
