import Spreadsheet.Operation
import Spreadsheet.Proofs.Token.Segments

/-
  Segments that stand freely.

  A canonical text may stand before any delimiter: a blank, a
  separator, a percent sign or a closing bracket. The segments
  of such a text are written down here, for words, operators,
  calls and brackets, each after one blank or none. Segments
  that stand in some text stand freely too.

  Main declarations:
    * `Segment.Free`
    * `Segment.Loose`
    * `Segment.Spells`
    * `Segment.Free.append`
    * `Segment.free_of_lays`
    * `Segment.free_word`
    * `Segment.free_infix`
    * `Segment.spells_enclosed`
    * `Segment.loose_calling`
-/

namespace Spreadsheet

------------------------------------------------------------
-- Free Segments
------------------------------------------------------------

namespace Segment

open Lexeme (Delimited)

/- The blanks of canonical texts. -/
def Spaced (gap : List Char) : Prop :=
  gap = [] ∨ gap = [' ']

theorem Spaced.isGap
    {gap : List Char}
    (hGap : Spaced gap) :
    IsGap gap := by
  rcases hGap with rfl | rfl <;> simp [IsGap, Lexeme.isSpace]

/- A text after a blank is delimited if it is without it. -/
theorem Spaced.delimited
    {gap : List Char}
    (hGap : Spaced gap)
    {following : List Char}
    (hFollowing : Delimited following) :
    Delimited (gap ++ following) := by
  rcases hGap with rfl | rfl
  · exact hFollowing
  · rintro c hHead
    cases hHead
    rfl

/- Segments that may stand before any delimiter. -/
structure Free (us : List Segment) : Prop where
  genuine : ∀ u ∈ us, u.Genuine
  lays : ∀ following, Delimited following → Lays following us

theorem free_nil : Free [] :=
  ⟨by simp, fun _ _ => trivial⟩

/- The text of later segments may start with a delimiter. -/
theorem Free.append
    {us vs : List Segment}
    (hFirst : Free us)
    (hSecond : Free vs)
    (hNext :
      ∀ following, Delimited following →
        Delimited (render vs ++ following)) :
    Free (us ++ vs) := by
  refine ⟨?_, ?_⟩
  · intro u hu
    rcases List.mem_append.mp hu with hu | hu
    · exact hFirst.genuine u hu
    · exact hSecond.genuine u hu
  · intro following hFollowing
    rw [lays_append]
    exact ⟨hFirst.lays _ (hNext following hFollowing),
      hSecond.lays following hFollowing⟩

/- A segment after which anything may follow. -/
structure Loose (u : Segment) : Prop where
  genuine : u.Genuine
  stands : ∀ following, u.Stands following

theorem Loose.cons
    {u : Segment}
    {us : List Segment}
    (hFirst : u.Loose)
    (hSecond : Free us) :
    Free (u :: us) := by
  refine ⟨?_, ?_⟩
  · intro v hv
    rcases List.mem_cons.mp hv with rfl | hv
    · exact hFirst.genuine
    · exact hSecond.genuine v hv
  · intro following hFollowing
    exact ⟨hFirst.stands _, hSecond.lays following hFollowing⟩

/- Put freely standing segments before a loose delimiter. -/
theorem Free.append_loose
    {us vs : List Segment}
    {u : Segment}
    (hFirst : Free us)
    (hBetween : u.Loose)
    (hDelimited : ∀ following, Delimited (u.text ++ following))
    (hSecond : Free vs) :
    Free (us ++ u :: vs) := by
  refine hFirst.append (hBetween.cons hSecond) ?_
  intro following _
  rw [render_cons, List.append_assoc]
  exact hDelimited _

/- Segments that spell a text after some blanks. -/
structure Spells (gap cs : List Char) (us : List Segment) : Prop where
  free : Free us
  text : render us = gap ++ cs

/-
  Segments that spell a text after some blanks, up to blanks at
  its end. These are left over where the text ends with nothing
  between two blanks.
-/
structure SpellsBefore
    (gap cs tail : List Char)
    (us : List Segment) : Prop where
  free : Free us
  text : render us ++ tail = gap ++ cs
  spaced : Spaced tail

theorem Spells.before
    {gap cs : List Char}
    {us : List Segment}
    (hSpells : Spells gap cs us) :
    SpellsBefore gap cs [] us :=
  ⟨hSpells.free, (List.append_nil _).trans hSpells.text, .inl rfl⟩

------------------------------------------------------------
-- Segments Of Other Texts
------------------------------------------------------------

/- A delimiter may take the place of what followed segments. -/
theorem Lays.change
    {following former : List Char}
    {us : List Segment}
    (hLays : Lays former us)
    (hFollowing : Delimited following) :
    Lays following us := by
  induction us with
  | nil => trivial
  | cons u us ih =>
      rcases hLays with ⟨hStands, hLays⟩
      have hReplaces :
          Lexeme.Replaces (render us ++ following)
            (render us ++ former) :=
        Lexeme.Replaces.prepend _ (.inr hFollowing)
      exact ⟨⟨hStands.gap, hStands.lexeme,
        hStands.starts.change hStands.lexeme hReplaces⟩, ih hLays⟩

/-
  Segments that stand in some text stand freely, also with
  other blanks before them.
-/
theorem free_of_lays
    {former gap : List Char}
    {u : Segment}
    {us : List Segment}
    (hLays : Lays former (u :: us))
    (hGenuine : ∀ v ∈ u :: us, v.Genuine)
    (hGap : Spaced gap) :
    Free ({ u with gap := gap } :: us) := by
  refine ⟨?_, ?_⟩
  · intro v hv
    rcases List.mem_cons.mp hv with rfl | hv
    · rcases hGenuine u List.mem_cons_self with ⟨hSuits, hComma⟩
      exact ⟨hSuits, hComma⟩
    · exact hGenuine v (List.mem_cons_of_mem u hv)
  · intro following hFollowing
    rcases Lays.change hLays hFollowing with ⟨hStands, hLays'⟩
    exact ⟨⟨hGap.isGap, hStands.lexeme, hStands.starts⟩, hLays'⟩

/- A lexeme that stands at the end of a text stands freely. -/
theorem free_of_starts
    {gap cs : List Char}
    {lexeme : Lexeme}
    {kind : TokenKind}
    (hGap : Spaced gap)
    (hSuits : Suits cs lexeme kind)
    (hBlank : lexeme ≠ .blank)
    (hStarts : lexeme.Starts cs []) :
    Free [⟨gap, lexeme, cs, kind⟩] := by
  have hLays : Lays [] [⟨gap, lexeme, cs, kind⟩] :=
    ⟨⟨hGap.isGap, hBlank, hStarts⟩, trivial⟩
  refine free_of_lays hLays ?_ hGap
  intro u hu
  rw [List.mem_singleton] at hu
  subst hu
  refine ⟨hSuits, fun hComma => ?_⟩
  have hComma' : lexeme = .comma := hComma
  exact Lexeme.eq_of_starts_comma (hComma' ▸ hStarts)

end Segment

------------------------------------------------------------
-- Words
------------------------------------------------------------

namespace Lexeme

/- All characters that never continue a word. -/
def specials : List Char :=
  [' ', '\n', '\t', '\r', '"', '#', '+', '-', '*', '/', '^', '&',
    '=', '>', '<', '%', '\x7b', '(', ')', '\x7d', ';', ',']

/- Characters of a sort without special ones continue words. -/
theorem isSpecial_eq_false
    {p : Char → Bool}
    {c : Char}
    (hSort : specials.any p = false)
    (hc : p c = true) :
    isSpecial c = false := by
  rw [Bool.eq_false_iff]
  intro hSpecial
  have hMem : c ∈ specials := by
    simpa [isSpecial, isSpace, specials, or_assoc] using hSpecial
  have hNone := List.any_eq_false.mp hSort c hMem
  exact hNone hc

theorem isSpecial_of_isDigit
    {c : Char}
    (hc : c.isDigit = true) :
    isSpecial c = false :=
  isSpecial_eq_false (by decide) hc

theorem isSpecial_of_isAlpha
    {c : Char}
    (hc : c.isAlpha = true) :
    isSpecial c = false :=
  isSpecial_eq_false (by decide) hc

/- Ordinary characters before the end of words are of a word. -/
theorem wordLength_ordinary
    {cs following : List Char}
    (hOrdinary : ∀ c ∈ cs, isSpecial c = false)
    (hEnd : ∀ word, wordLength word following = 0)
    (word : List Char) :
    wordLength word (cs ++ following) = cs.length := by
  induction cs generalizing word with
  | nil => exact hEnd word
  | cons c cs ih =>
      rw [List.cons_append, wordLength,
        hOrdinary c List.mem_cons_self,
        ih fun d hd => hOrdinary d (List.mem_cons_of_mem c hd)]
      rfl

theorem starts_word
    {cs : List Char}
    (hSome : cs ≠ [])
    (hOrdinary : ∀ c ∈ cs, isSpecial c = false) :
    Starts .word cs [] := by
  cases cs with
  | nil => exact absurd rfl hSome
  | cons c cs =>
      have hEnd : ∀ word, wordLength word [] = 0 := fun _ => rfl
      have hLength :=
        wordLength_ordinary
          (fun d hd => hOrdinary d (List.mem_cons_of_mem c hd)) hEnd
          [c]
      rw [List.append_nil] at hLength
      refine ⟨c, cs, rfl, ?_⟩
      rw [List.append_nil]
      refine next_of_first (.word (hOrdinary c List.mem_cons_self) ?_)
      simp [wordOrCall, hLength]

/- A name with a parenthesis opens a call, whatever follows. -/
theorem starts_call
    {cs : List Char}
    (hSome : cs ≠ [])
    (hOrdinary : ∀ c ∈ cs, isSpecial c = false)
    (following : List Char) :
    Starts (.open .call) (cs ++ ['(']) following := by
  cases cs with
  | nil => exact absurd rfl hSome
  | cons c cs =>
      have hEnd : ∀ word, wordLength word ('(' :: following) = 0 := by
        intro word
        simp [wordLength, isSpecial]
      have hLength :=
        wordLength_ordinary
          (fun d hd => hOrdinary d (List.mem_cons_of_mem c hd)) hEnd
          [c]
      refine ⟨c, cs ++ ['('], rfl, ?_⟩
      refine next_of_first (.word (hOrdinary c List.mem_cons_self) ?_)
      simp [wordOrCall, hLength]

end Lexeme

namespace Segment

/- A word that may stand before any delimiter. -/
theorem free_word
    {gap cs : List Char}
    (hGap : Spaced gap)
    (hSome : cs ≠ [])
    (hOrdinary : ∀ c ∈ cs, Lexeme.isSpecial c = false) :
    Free [⟨gap, .word, cs, .operand (Lexeme.wordKind cs)⟩] :=
  free_of_starts hGap .word nofun (Lexeme.starts_word hSome hOrdinary)

------------------------------------------------------------
-- Signs And Brackets
------------------------------------------------------------

/- A bracket or separator is a piece whatever follows. -/
theorem loose_alone
    {gap : List Char}
    {c : Char}
    {lexeme : Lexeme}
    {kind : TokenKind}
    (hGap : Spaced gap)
    (hSuits : Suits [c] lexeme kind)
    (hAlone : (c, lexeme) ∈ Lexeme.alone) :
    Loose ⟨gap, lexeme, [c], kind⟩ := by
  have hStarts : ∀ following, lexeme.Starts [c] following :=
    fun following =>
      ⟨c, [], rfl, Lexeme.next_of_first (.alone hAlone)⟩
  have hBlank : lexeme ≠ .blank := by
    rintro rfl
    revert hAlone
    simp [Lexeme.alone]
  refine ⟨⟨hSuits, fun hComma => ?_⟩,
    fun following => ⟨hGap.isGap, hBlank, hStarts following⟩⟩
  have hComma' : lexeme = .comma := hComma
  exact Lexeme.eq_of_starts_comma (hComma' ▸ hStarts [])

theorem loose_minus
    {gap : List Char}
    (hGap : Spaced gap) :
    Loose ⟨gap, .sign, ['-'], .prefixOp⟩ := by
  refine ⟨⟨.signBefore, nofun⟩,
    fun following => ⟨hGap.isGap, nofun, '-', [], rfl, ?_⟩⟩
  cases following <;> rfl

theorem loose_percent :
    Loose ⟨[], .percent, ['%'], .postfixOp⟩ := by
  refine ⟨⟨.percent, nofun⟩,
    fun following => ⟨nofun, nofun, '%', [], rfl, ?_⟩⟩
  cases following <;> rfl

/- The character that closes a bracket. -/
def closer : Bracket → Char
  | .array => '\x7d'
  | .call | .group => ')'

/- The segment that closes a bracket. -/
def closing (gap : List Char) (b : Bracket) : Segment :=
  ⟨gap, .close (b == .array), [closer b], .closing b⟩

theorem loose_closing
    {gap : List Char}
    (hGap : Spaced gap)
    (b : Bracket) :
    Loose (closing gap b) :=
  loose_alone hGap (.closing b) (by cases b <;> decide)

/- Put brackets around a text, with blanks before the last. -/
theorem spells_enclosed
    {cs tail : List Char}
    {u : Segment}
    {us : List Segment}
    (b : Bracket)
    (hOpen : u.Loose)
    (hInner : SpellsBefore [] cs tail us) :
    Spells u.gap (u.chars ++ cs ++ [closer b])
      (u :: us ++ [closing tail b]) := by
  refine ⟨?_, ?_⟩
  · rw [List.cons_append]
    refine hOpen.cons ?_
    refine
      hInner.free.append_loose (loose_closing hInner.spaced b) ?_
        free_nil
    intro following
    have hDelimited : Lexeme.Delimited (closer b :: following) := by
      rintro c hHead
      cases hHead
      cases b <;> rfl
    simpa [text, closing] using hInner.spaced.delimited hDelimited
  · have hText : render us ++ tail = cs := hInner.text
    simp [text, closing, ← hText]

/- The name of a function with the parenthesis after it. -/
def calling (gap name : List Char) : Segment :=
  ⟨gap, .open .call, name ++ ['('], .opening .call⟩

theorem loose_calling
    {gap cs : List Char}
    (hGap : Spaced gap)
    (hSome : cs ≠ [])
    (hOrdinary : ∀ c ∈ cs, Lexeme.isSpecial c = false) :
    Loose (calling gap cs) :=
  ⟨⟨.opening .call, nofun⟩,
    fun following =>
      ⟨hGap.isGap, nofun,
        Lexeme.starts_call hSome hOrdinary following⟩⟩

end Segment

------------------------------------------------------------
-- Operators
------------------------------------------------------------

/- The piece that an operator's sign is. -/
def InfixOp.lexeme : InfixOp → Lexeme
  | .add | .subtract => .sign
  | _ => .operator

theorem InfixOp.ofSymbol?_symbol (op : InfixOp) :
    ofSymbol? op.symbol = some op := by
  cases op <;> decide

/- An operator between its operands, after a blank. -/
theorem Segment.free_infix (op : InfixOp) :
    Free [⟨[' '], op.lexeme, op.symbol.toList, .infixOp⟩] := by
  have hSuits : Suits op.symbol.toList op.lexeme .infixOp := by
    cases op <;> constructor
  have hStarts : op.lexeme.Starts op.symbol.toList [] := by
    cases op <;> exact ⟨_, _, rfl, rfl⟩
  refine free_of_starts (.inr rfl) hSuits ?_ hStarts
  cases op <;> nofun

end Spreadsheet
