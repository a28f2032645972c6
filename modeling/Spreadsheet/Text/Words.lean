import Spreadsheet.Text.Join

/-
  The words of a text, which are separated by spaces.

  Key definitions include:
    * `Text.splitSpaces`
    * `Text.words`
    * `Text.squeeze`
-/

namespace Spreadsheet

namespace Text

/- The parts of a text between single spaces. -/
def splitSpaces : List Char → List (List Char)
  | [] => [[]]
  | c :: cs =>
      match splitSpaces cs with
      | [] => [[c]]
      | part :: parts =>
          if c = ' ' then [] :: part :: parts
          else (c :: part) :: parts

/- The parts between spaces that have letters. -/
def words (cs : List Char) : List (List Char) :=
  (splitSpaces cs).filter (!·.isEmpty)

/- A text with one space between words and none around them. -/
def squeeze (s : String) : String :=
  String.ofList (joinWith [' '] (words s.toList))

end Text

end Spreadsheet
