import Mathlib
import Spreadsheet.Address

/-
  Arithmetic in words of 32 bits.

  A sum of words may be too large for a word, and there is no
  difference of a smaller and a larger word. Work comes out
  only if neither happens, and if all that it takes for
  granted is true. Then it comes out with the result of the
  same work on numbers without a bound.

  Main declarations:
    * `Word.add?`
    * `Word.sub?`
    * `Word.ensure`
    * `Word.foldlM_eq_some`
    * `Word.foldlM_eq_some_of_nodup`
    * `Address.scanWords`
    * `Address.scanWords_eq_some`
-/

namespace Spreadsheet

------------------------------------------------------------
-- Words
------------------------------------------------------------

namespace Word

/- The sum of two words, if it is a word. -/
def add? (a b : Nat) : Option Nat :=
  if a + b < 2 ^ 32 then some (a + b) else none

/- The difference of two words, if it is a word. -/
def sub? (a b : Nat) : Option Nat :=
  if b ≤ a then some (a - b) else none

/- Go on only if something is true. -/
def ensure (p : Prop) [Decidable p] : Option Unit :=
  if p then some () else none

theorem add?_eq_some {a b : Nat} (hWord : a + b < 2 ^ 32) :
    add? a b = some (a + b) :=
  if_pos hWord

theorem sub?_eq_some {a b : Nat} (hOrder : b ≤ a) :
    sub? a b = some (a - b) :=
  if_pos hOrder

theorem ensure_eq_some {p : Prop} [Decidable p] (hTrue : p) :
    ensure p = some () :=
  if_pos hTrue

/- Every side of a sheet is a word. -/
theorem maxSize_lt (axis : Axis) : maxSize.along axis < 2 ^ 32 := by
  cases axis <;> decide

/-
  A run of steps comes out if each step does and keeps what
  the next one needs.
-/
theorem foldlM_eq_some
    {α β : Type}
    (inv : β → Prop)
    {step? : β → α → Option β}
    {step : β → α → β}
    {l : List α}
    (hStep :
      ∀ a ∈ l, ∀ b, inv b →
        step? b a = some (step b a) ∧ inv (step b a))
    {b : β}
    (hInv : inv b) :
    l.foldlM step? b = some (l.foldl step b) ∧
      inv (l.foldl step b) := by
  induction l generalizing b with
  | nil => exact ⟨rfl, hInv⟩
  | cons a l ih =>
      rw [List.forall_mem_cons] at hStep
      rcases hStep.1 b hInv with ⟨hFirst, hKept⟩
      rw [List.foldlM_cons, hFirst]
      exact ih hStep.2 hKept

/-
  So it does if what a step needs depends on what was done
  before, and nothing is done twice.
-/
theorem foldlM_eq_some_of_nodup
    {α β : Type}
    (inv : List α → β → Prop)
    {step? : β → α → Option β}
    {step : β → α → β}
    {l : List α}
    (hStep :
      ∀ a ∈ l, ∀ done b, a ∉ done → inv done b →
        step? b a = some (step b a) ∧ inv (a :: done) (step b a))
    (hNodup : l.Nodup)
    {done : List α}
    (hNew : ∀ a ∈ l, a ∉ done)
    {b : β}
    (hInv : inv done b) :
    l.foldlM step? b = some (l.foldl step b) ∧
      inv (l.reverse ++ done) (l.foldl step b) := by
  induction l generalizing b done with
  | nil => exact ⟨rfl, hInv⟩
  | cons a l ih =>
      rw [List.forall_mem_cons] at hStep hNew
      rw [List.nodup_cons] at hNodup
      rcases hStep.1 done b hNew.1 hInv with ⟨hFirst, hKept⟩
      have hLater : ∀ c ∈ l, c ∉ a :: done := by
        intro c hIn hDone
        rcases List.mem_cons.1 hDone with rfl | hDone
        · exact hNodup.1 hIn
        · exact hNew.2 c hIn hDone
      rw [List.foldlM_cons, hFirst, List.reverse_cons,
        List.append_assoc]
      exact ih hStep.2 hNodup.2 hLater hKept

/- A list comes out if all its elements do. -/
theorem mapM_eq_some
    {α β : Type}
    {f? : α → Option β}
    {f : α → β}
    {l : List α}
    (hEach : ∀ a ∈ l, f? a = some (f a)) :
    l.mapM f? = some (l.map f) := by
  induction l with
  | nil => rfl
  | cons a l ih =>
      rw [List.forall_mem_cons] at hEach
      rw [List.mapM_cons, hEach.1, ih hEach.2]
      rfl

end Word

------------------------------------------------------------
-- Points And Sizes
------------------------------------------------------------

/- Move right and down, in words. -/
def Point.add? (p : Point) (s : Size) : Option Point := do
  let x ← Word.add? p.x s.width
  let y ← Word.add? p.y s.height
  return ⟨x, y⟩

theorem Point.add?_eq_some
    {p : Point}
    {s : Size}
    (hWidth : p.x + s.width < 2 ^ 32)
    (hHeight : p.y + s.height < 2 ^ 32) :
    p.add? s = some (p.add s) := by
  unfold Point.add?
  rw [Word.add?_eq_some hWidth, Word.add?_eq_some hHeight]
  rfl

------------------------------------------------------------
-- Names
------------------------------------------------------------

namespace Address

/- The number that digits spell, in words. -/
def numberWords
    (base limit : Nat)
    (value : Char → Nat)
    (start : Nat) : List Char → Option (Option Nat)
  | [] => some (some start)
  | c :: cs => do
      let room ← Word.sub? limit (value c)
      if room / base < start then
        return none
      else
        let next ← Word.add? (start * base) (value c)
        numberWords base limit value next cs

/- The index before a number that was read, in words. -/
def indexWords (number? : Option Nat) : Option (Option Nat) :=
  match number? with
  | none => some none
  | some n => (Word.sub? n 1).map some

/- The index that a run of letters or digits names, in words. -/
def indexOfWords (axis : Axis) (run : List Char) : Option (Option Nat) :=
  match axis with
  | .columns =>
      if run.isEmpty then some none
      else do
        indexWords (← numberWords 26 maxSize.width letterValue 0 run)
  | .rows =>
      if run.isEmpty || run.head? == some '0' then some none
      else do
        indexWords (← numberWords 10 maxSize.height digitValue 0 run)

/- The column or row at the start of a text, in words. -/
def scanWords (axis : Axis) (cs : List Char) : Option (Option Part) := do
  let (absolute, cs) := splitFixed cs
  let run := cs.takeWhile (isNameChar axis)
  let index? ← indexOfWords axis run
  return index?.map fun index =>
    ⟨index, absolute, run.length + absolute.toNat⟩

/- If there is room for a digit, it fits in after a number. -/
theorem next_le
    {base limit n v : Nat}
    (hBase : 0 < base)
    (hValue : v ≤ limit)
    (hRoom : ¬ (limit - v) / base < n) :
    n * base + v ≤ limit := by
  have hTimes :=
    (Nat.le_div_iff_mul_le hBase).1 (Nat.le_of_not_lt hRoom)
  omega

theorem numberWords_eq_some
    {base limit : Nat}
    {value : Char → Nat}
    (hBase : 0 < base)
    (hLimit : limit < 2 ^ 32)
    {cs : List Char}
    (hValue : ∀ c ∈ cs, value c ≤ limit)
    (start : Nat) :
    numberWords base limit value start cs =
      some (boundedNumber? base limit value start cs) := by
  induction cs generalizing start with
  | nil => rfl
  | cons c cs ih =>
      rw [List.forall_mem_cons] at hValue
      rw [numberWords, boundedNumber?, Word.sub?_eq_some hValue.1,
        Option.bind_eq_bind, Option.bind_some]
      split
      · rfl
      · rename_i hRoom
        have hNext := next_le hBase hValue.1 hRoom
        rw [Word.add?_eq_some (hNext.trans_lt hLimit),
          Option.bind_some]
        exact ih hValue.2 _

/- A number is at least as large as what it starts with. -/
theorem le_boundedNumber?
    {base limit : Nat}
    {value : Char → Nat}
    (hBase : 0 < base)
    {cs : List Char}
    {start n : Nat}
    (hRead : boundedNumber? base limit value start cs = some n) :
    start ≤ n := by
  induction cs generalizing start with
  | nil => exact (Option.some.inj hRead).le
  | cons c cs ih =>
      rw [boundedNumber?] at hRead
      split at hRead
      · cases hRead
      · have hRest := ih hRead
        have hTimes := Nat.le_mul_of_pos_right start hBase
        omega

/- A number with a first digit other than zero is not zero. -/
theorem boundedNumber?_pos
    {base limit : Nat}
    {value : Char → Nat}
    (hBase : 0 < base)
    {c : Char}
    (hFirst : 0 < value c)
    {cs : List Char}
    {n : Nat}
    (hRead : boundedNumber? base limit value 0 (c :: cs) = some n) :
    0 < n := by
  rw [boundedNumber?, Nat.zero_mul, Nat.zero_add] at hRead
  split at hRead
  · cases hRead
  · exact hFirst.trans_le (le_boundedNumber? hBase hRead)

/- The codes of letters in either case. -/
theorem toNat_of_isAlpha {c : Char} (hLetter : c.isAlpha = true) :
    65 ≤ c.toNat ∧ c.toNat ≤ 90 ∨ 97 ≤ c.toNat ∧ c.toNat ≤ 122 := by
  simp only [Char.isAlpha, Char.isUpper, Char.isLower,
    Bool.or_eq_true, Bool.and_eq_true, decide_eq_true_eq] at hLetter
  exact hLetter

/- Letters stand for numbers from one to 26. -/
theorem letterValue_le {c : Char} (hLetter : c.isAlpha = true) :
    letterValue c ≤ 26 := by
  have hRange := toNat_of_isAlpha hLetter
  have hFirst : 'A'.toNat = 65 := rfl
  unfold letterValue
  by_cases hLower : c.isLower = true
  · have hSmall : 97 ≤ c.toNat ∧ c.toNat ≤ 122 := by
      simp only [Char.isLower, Bool.and_eq_true, decide_eq_true_eq]
        at hLower
      exact hLower
    rw [Char.toUpper_eq_of_isLower hLower, Char.toNat_ofNat,
      if_pos (.inl (by omega))]
    omega
  · have hCapital : ¬ (97 ≤ c.toNat ∧ c.toNat ≤ 122) := by
      simp only [Char.isLower, Bool.and_eq_true, decide_eq_true_eq]
        at hLower
      exact hLower
    rw [Char.toUpper_eq_of_not_isLower (by simpa using hLower)]
    omega

theorem letterValue_pos (c : Char) : 0 < letterValue c :=
  Nat.succ_pos _

/- Digits stand for numbers up to nine, and only `0` for zero. -/
theorem digitValue_le {c : Char} (hDigit : c.isDigit = true) :
    digitValue c ≤ 9 := by
  have hRange : 48 ≤ c.toNat ∧ c.toNat ≤ 57 := by
    simp only [Char.isDigit, Bool.and_eq_true, decide_eq_true_eq]
      at hDigit
    exact hDigit
  have hFirst : '0'.toNat = 48 := rfl
  unfold digitValue
  omega

theorem digitValue_pos
    {c : Char}
    (hDigit : c.isDigit = true)
    (hNotZero : c ≠ '0') :
    0 < digitValue c := by
  have hRange : 48 ≤ c.toNat := by
    simp only [Char.isDigit, Bool.and_eq_true, decide_eq_true_eq]
      at hDigit
    exact hDigit.1
  have hFirst : '0'.toNat = 48 := rfl
  have hOther : c.toNat ≠ '0'.toNat := fun hSame =>
    hNotZero (Char.toNat_inj.1 hSame)
  unfold digitValue
  omega

/- A number whose first digit is not zero has an index before it. -/
theorem indexWords_numberWords
    {base limit : Nat}
    {value : Char → Nat}
    (hBase : 0 < base)
    (hLimit : limit < 2 ^ 32)
    {c : Char}
    {cs : List Char}
    (hValue : ∀ d ∈ c :: cs, value d ≤ limit)
    (hFirst : 0 < value c) :
    (numberWords base limit value 0 (c :: cs)).bind indexWords =
      some ((boundedNumber? base limit value 0 (c :: cs)).map
        (· - 1)) := by
  rw [numberWords_eq_some hBase hLimit hValue, Option.bind_some]
  cases hRead : boundedNumber? base limit value 0 (c :: cs) with
  | none => rfl
  | some n =>
      have hPos := boundedNumber?_pos hBase hFirst hRead
      rw [indexWords, Word.sub?_eq_some hPos]
      rfl

theorem indexOfWords_eq_some
    {axis : Axis}
    {run : List Char}
    (hRun : ∀ c ∈ run, isNameChar axis c = true) :
    indexOfWords axis run = some (indexOf? axis run) := by
  cases axis with
  | columns =>
      rcases run with - | ⟨c, cs⟩
      · rfl
      · exact indexWords_numberWords (by decide)
          (Word.maxSize_lt .columns)
          (fun d hIn => (letterValue_le (hRun d hIn)).trans (by decide))
          (letterValue_pos c)
  | rows =>
      rw [indexOfWords, indexOf?]
      split
      · rfl
      · rename_i hFirst
        rcases run with - | ⟨c, cs⟩
        · exact absurd rfl hFirst
        refine indexWords_numberWords (by decide)
          (Word.maxSize_lt .rows)
          (fun d hIn => (digitValue_le (hRun d hIn)).trans (by decide))
          (digitValue_pos (hRun c List.mem_cons_self) ?_)
        rintro rfl
        exact hFirst rfl

/-
  Whatever a text is, no word overflows when a name is looked
  for at its start.
-/
theorem scanWords_eq_some (axis : Axis) (cs : List Char) :
    scanWords axis cs = some (scan axis cs) := by
  unfold scanWords scan
  dsimp only
  rw [indexOfWords_eq_some fun c hIn => ?_]
  · rfl
  · exact List.mem_takeWhile_imp hIn

end Address

end Spreadsheet
