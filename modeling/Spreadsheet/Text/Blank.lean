/-
  Blanks at the ends of a text, and comparison of texts
  without regard to the case of the letters A to Z.

  Key definitions include:
    * `Text.isBlank`
    * `Text.trim`
    * `Text.equalIgnoringCase`
-/

namespace Spreadsheet

namespace Text

/- The characters with the property `White_Space`. -/
def isBlank (c : Char) : Bool :=
  let n := c.toNat
  (9 ≤ n && n ≤ 13) || n == 0x20 || n == 0x85 || n == 0xA0 ||
    n == 0x1680 || (0x2000 ≤ n && n ≤ 0x200A) ||
    n == 0x2028 || n == 0x2029 || n == 0x202F ||
    n == 0x205F || n == 0x3000

theorem isBlank_of_isWhitespace
    (c : Char)
    (hBlank : c.isWhitespace = true) :
    isBlank c = true := by
  simp only [Char.isWhitespace, Bool.or_eq_true,
    decide_eq_true_eq] at hBlank
  rcases hBlank with ((h | h) | h) | h <;> subst h <;> decide

/- A list of characters without the blanks at both ends. -/
def trimChars (cs : List Char) : List Char :=
  ((cs.dropWhile isBlank).reverse.dropWhile isBlank).reverse

/- A text without the blanks at both ends. -/
def trim (s : String) : String :=
  String.ofList (trimChars s.toList)

/- The letters a to z in upper case, all else unchanged. -/
def upperAscii (s : String) : String :=
  String.ofList (s.toList.map Char.toUpper)

/- Two texts agree up to the case of the letters A to Z. -/
def equalIgnoringCase (s t : String) : Bool :=
  s.toList.map Char.toUpper == t.toList.map Char.toUpper

end Text

end Spreadsheet
