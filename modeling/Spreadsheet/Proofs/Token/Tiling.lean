import Mathlib
import Spreadsheet.Formula
import Spreadsheet.Proofs.Token.Segments

/-
  The tokens of a formula tile its text.

  Whatever the text is, reading it ends, at its end or at a
  fault. The tokens that were read until then follow each
  other without gaps, and each of them starts and ends between
  two characters of the encoded text.

  Main declarations:
    * `Token.scan`
    * `Token.Tile`
    * `Token.Reads`
    * `Token.ofChars_eq_verdict`
    * `Token.Tile.spans`
    * `Token.reads_scan`
-/

namespace Spreadsheet

------------------------------------------------------------
-- Encoded Texts
------------------------------------------------------------

namespace Text

theorem byteLength_eq_utf8Len (cs : List Char) :
    byteLength cs = String.utf8Len cs := by
  induction cs with
  | nil => rfl
  | cons c cs ih => rw [byteLength, ih, String.utf8Len_cons, Nat.add_comm]

theorem utf8ByteSize_ofList (cs : List Char) :
    (String.ofList cs).utf8ByteSize = byteLength cs := by
  rw [String.utf8ByteSize_ofList, byteLength_eq_utf8Len]

theorem size_utf8Encode (cs : List Char) :
    cs.utf8Encode.size = byteLength cs := by
  rw [← utf8ByteSize_ofList, ← String.size_toByteArray,
    String.toByteArray_ofList]

/- A byte of an encoded text at which a character may start. -/
def IsBoundary (cs : List Char) (i : Nat) : Prop :=
  String.Pos.Raw.IsValid (String.ofList cs) ⟨i⟩

/- The bytes of an encoded text between two of them. -/
def bytesBetween (cs : List Char) (start stop : Nat) : ByteArray :=
  (String.ofList cs).toByteArray.extract start stop

theorem isBoundary_append (cs ds : List Char) :
    IsBoundary (cs ++ ds) (byteLength cs) := by
  rw [IsBoundary, String.Pos.Raw.isValid_iff_exists_append]
  refine ⟨.ofList cs, .ofList ds, String.ofList_append, ?_⟩
  rw [← utf8ByteSize_ofList]
  rfl

theorem bytesBetween_append (before cs after : List Char) :
    bytesBetween (before ++ (cs ++ after)) (byteLength before)
        (byteLength before + byteLength cs) =
      cs.utf8Encode := by
  rw [bytesBetween, String.toByteArray_ofList, List.utf8Encode_append,
    List.utf8Encode_append, ← size_utf8Encode, ← size_utf8Encode]
  rw [ByteArray.extract_append, Nat.sub_self, Nat.add_sub_cancel_left,
    ByteArray.extract_append_eq_left rfl,
    ByteArray.extract_eq_empty_iff.2 (by omega),
    ByteArray.empty_append]

end Text

------------------------------------------------------------
-- Reading Up To A Fault
------------------------------------------------------------

namespace Token

/-
  The tokens of the rest of a formula that are read before a
  fault is noticed, and that fault, if there is one.
-/
def scan
    (ctx : LexContext)
    (offset : Nat) :
    List Char → List Token × Option LexError
  | [] =>
      ([],
        if ctx.opened.isEmpty then none
        else some ⟨.unmatchedOpener, offset⟩)
  | c :: cs =>
      match Lexeme.next c cs with
      | .error .unterminatedText =>
          ([],
            some
              ⟨.unterminatedText, offset + Text.byteLength (c :: cs)⟩)
      | .error fault => ([], some ⟨fault, offset⟩)
      | .ok (lexeme, n) =>
          let chars := c :: cs.take n
          match ctx.classify lexeme chars with
          | .error fault => ([], some ⟨fault, offset⟩)
          | .ok (kind, opened) =>
              let t : Token := ⟨kind, chars, offset⟩
              let rest := scan (ctx.after t opened) t.stop (cs.drop n)
              (t :: rest.1, rest.2)
termination_by cs => cs.length
decreasing_by
  simp only [List.length_drop, List.length_cons]
  omega

/- What a formula is read to, with what came before a fault. -/
def verdict (read : List Token × Option LexError) :
    Except LexError (List Token) :=
  match read.2 with
  | none => .ok read.1
  | some e => .error e

theorem verdict_cons
    (t : Token)
    (read : List Token × Option LexError) :
    verdict (t :: read.1, read.2) = (verdict read).map (t :: ·) := by
  rcases read with ⟨ts, - | e⟩ <;> rfl

/- The tokens of a formula are those that are read up to its end. -/
theorem ofChars_eq_verdict
    (ctx : LexContext)
    (offset : Nat)
    (cs : List Char) :
    ofChars ctx offset cs = verdict (scan ctx offset cs) := by
  induction ctx, offset, cs using scan.induct with
  | case1 ctx offset =>
      rw [ofChars, scan]
      split <;> rfl
  | case2 ctx offset c cs hNext =>
      rw [ofChars, scan]
      simp only [hNext]
      rfl
  | case3 ctx offset c cs fault hOther hNext =>
      rw [ofChars, scan]
      cases fault with
      | unterminatedText => exact absurd rfl hOther
      | _ => simp only [hNext]; rfl
  | case4 ctx offset c cs lexeme n hNext chars fault hKind =>
      rw [ofChars, scan]
      simp only [hNext, bind, Except.bind]
      rw [hKind]
      rfl
  | case5 ctx offset c cs lexeme n hNext chars kind opened hKind t ih =>
      rw [Segment.ofChars_cons hNext hKind, scan]
      simp only [hNext]
      rw [hKind]
      dsimp only
      rw [verdict_cons, ← ih]
      rfl

------------------------------------------------------------
-- Tokens In A Row
------------------------------------------------------------

/-
  Tokens that are not empty and follow each other from one
  byte up to another.
-/
def Tile : Nat → Nat → List Token → Prop
  | start, stop, [] => start = stop
  | start, stop, t :: ts =>
      t.start = start ∧ t.start < t.stop ∧ Tile t.stop stop ts

theorem stop_eq (t : Token) :
    t.stop = t.start + Text.byteLength t.chars := rfl

theorem render_cons (t : Token) (ts : List Token) :
    render (t :: ts) = t.chars ++ render ts := by
  rw [render, List.flatMap_cons]
  rfl

theorem byteLength_pos {cs : List Char} (hSome : cs ≠ []) :
    0 < Text.byteLength cs := by
  cases cs with
  | nil => exact absurd rfl hSome
  | cons c cs =>
      have := c.utf8Size_pos
      rw [Text.byteLength]
      omega

/- Each token comes right after what the ones before it spell. -/
theorem Tile.split
    {start stop : Nat}
    {ts : List Token}
    (hTile : Tile start stop ts)
    {t : Token}
    (ht : t ∈ ts) :
    ∃ before after,
      render ts = before ++ (t.chars ++ after) ∧
        t.start = start + Text.byteLength before := by
  induction ts generalizing start with
  | nil => cases ht
  | cons u ts ih =>
      rcases hTile with ⟨hStart, -, hRest⟩
      rw [render_cons]
      rcases List.mem_cons.1 ht with rfl | ht
      · exact ⟨[], render ts, rfl, hStart⟩
      · rcases ih hRest ht with ⟨before, after, hText, hPlace⟩
        refine ⟨u.chars ++ before, after, ?_, ?_⟩
        · rw [hText, List.append_assoc]
        · rw [hPlace, Text.byteLength_append, stop_eq, hStart]
          omega

/- The span of a token is cut out of the text by its bytes. -/
theorem Tile.spans
    {stop : Nat}
    {ts : List Token}
    {before : List Char}
    (hTile : Tile (Text.byteLength before) stop ts)
    {t : Token}
    (ht : t ∈ ts)
    (after : List Char) :
    Text.IsBoundary (before ++ (render ts ++ after)) t.start ∧
      Text.IsBoundary (before ++ (render ts ++ after)) t.stop ∧
      Text.bytesBetween (before ++ (render ts ++ after)) t.start
          t.stop =
        t.chars.utf8Encode := by
  rcases hTile.split ht with ⟨left, right, hText, hPlace⟩
  have hSource :
      before ++ (render ts ++ after) =
        (before ++ left) ++ (t.chars ++ (right ++ after)) := by
    rw [hText]
    simp only [List.append_assoc]
  have hStart : t.start = Text.byteLength (before ++ left) := by
    rw [hPlace, Text.byteLength_append]
  have hStop :
      t.stop = Text.byteLength (before ++ left ++ t.chars) := by
    rw [stop_eq, hStart, ← Text.byteLength_append]
  rw [hSource]
  refine ⟨?_, ?_, ?_⟩
  · rw [hStart]
    exact Text.isBoundary_append _ _
  · rw [hStop, ← List.append_assoc]
    exact Text.isBoundary_append _ _
  · rw [stop_eq, hStart]
    exact Text.bytesBetween_append _ _ _

------------------------------------------------------------
-- What Is Read
------------------------------------------------------------

/-
  The tokens that were read tile the text from a byte on, and
  a fault is noticed at a byte between two characters of what
  is left. Without a fault nothing is left.
-/
structure Reads
    (offset : Nat)
    (cs : List Char)
    (read : List Token × Option LexError)
    (rest : List Char) : Prop where
  covers : cs = render read.1 ++ rest
  tile :
    Tile offset (offset + Text.byteLength (render read.1)) read.1
  done : read.2 = none → rest = []
  fault :
    ∀ e, read.2 = some e → ∃ skipped ahead,
      rest = skipped ++ ahead ∧
        e.offset =
          offset + Text.byteLength (render read.1) +
            Text.byteLength skipped

theorem reads_fault
    {offset : Nat}
    {cs skipped ahead : List Char}
    (hRest : cs = skipped ++ ahead)
    (fault : LexFault) :
    Reads offset cs
      ([], some ⟨fault, offset + Text.byteLength skipped⟩) cs where
  covers := rfl
  tile := rfl
  done := nofun
  fault := by
    rintro e ⟨⟩
    exact ⟨skipped, ahead, hRest, rfl⟩

/- One more token in front of what is read after it. -/
theorem Reads.cons
    {t : Token}
    {cs rest : List Char}
    {read : List Token × Option LexError}
    (hReads : Reads t.stop cs read rest)
    (hSome : t.chars ≠ []) :
    Reads t.start (t.chars ++ cs) (t :: read.1, read.2) rest := by
  have hStop :
      t.start + Text.byteLength (render (t :: read.1)) =
        t.stop + Text.byteLength (render read.1) := by
    rw [render_cons, Text.byteLength_append, stop_eq]
    omega
  refine ⟨?_, ⟨rfl, ?_, ?_⟩, hReads.done, ?_⟩
  · rw [render_cons, List.append_assoc, ← hReads.covers]
  · have := byteLength_pos hSome
    rw [stop_eq]
    omega
  · rw [hStop]
    exact hReads.tile
  · rw [hStop]
    exact hReads.fault

/- By induction on the text, as it is read. -/
theorem reads_scan
    (ctx : LexContext)
    (offset : Nat)
    (cs : List Char) :
    ∃ rest, Reads offset cs (scan ctx offset cs) rest := by
  induction ctx, offset, cs using scan.induct with
  | case1 ctx offset =>
      rw [scan]
      refine ⟨[], rfl, rfl, fun _ => rfl, fun e hFault => ?_⟩
      refine ⟨[], [], rfl, ?_⟩
      split at hFault <;> cases hFault
      rfl
  | case2 ctx offset c cs hNext =>
      rw [scan]
      simp only [hNext]
      exact ⟨_, reads_fault (List.append_nil _).symm _⟩
  | case3 ctx offset c cs fault hOther hNext =>
      rw [scan]
      simp only [hNext]
      exact ⟨_, reads_fault (List.nil_append _).symm _⟩
  | case4 ctx offset c cs lexeme n hNext chars fault hKind =>
      rw [scan]
      simp only [hNext]
      rw [hKind]
      exact ⟨_, reads_fault (List.nil_append _).symm _⟩
  | case5 ctx offset c cs lexeme n hNext chars kind opened hKind t ih =>
      rcases ih with ⟨rest, hReads⟩
      have hAll := hReads.cons (List.cons_ne_nil c (cs.take n))
      rw [scan]
      simp only [hNext]
      rw [hKind]
      refine ⟨rest, ?_⟩
      rwa [show t.chars ++ cs.drop n = c :: cs from
        congrArg (c :: ·) (List.take_append_drop n cs)] at hAll

------------------------------------------------------------
-- Whole Formulas
------------------------------------------------------------

end Token

end Spreadsheet
