/-
  Positions in a text, counted in bytes of its encoding.

  Key definitions include:
    * `Text.byteLength`
    * `Text.dropBytes`
    * `Text.slice`
-/

namespace Spreadsheet

namespace Text

/- The number of bytes that encode a list of characters. -/
def byteLength : List Char → Nat
  | [] => 0
  | c :: cs => c.utf8Size + byteLength cs

@[simp] theorem byteLength_append (cs ds : List Char) :
    byteLength (cs ++ ds) = byteLength cs + byteLength ds := by
  induction cs with
  | nil => simp [byteLength]
  | cons c cs ih => simp [byteLength, ih, Nat.add_assoc]

/- What follows the characters of the first `n` bytes. -/
def dropBytes (n : Nat) : List Char → List Char
  | [] => []
  | c :: cs =>
      if n = 0 then c :: cs else dropBytes (n - c.utf8Size) cs

/- The characters of the first `n` bytes. -/
def takeBytes (n : Nat) : List Char → List Char
  | [] => []
  | c :: cs =>
      if n = 0 then [] else c :: takeBytes (n - c.utf8Size) cs

/- The characters from byte `start` up to byte `stop`. -/
def slice (cs : List Char) (start stop : Nat) : List Char :=
  takeBytes (stop - start) (dropBytes start cs)

end Text

end Spreadsheet
