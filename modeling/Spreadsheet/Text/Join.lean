/-
  Joining texts.

  Key definitions include:
    * `Text.joinWith`
-/

namespace Spreadsheet

namespace Text

/- Join lists of characters with others in between. -/
def joinWith (between : List Char) : List (List Char) → List Char
  | [] => []
  | [cs] => cs
  | cs :: rest => cs ++ between ++ joinWith between rest

end Text

end Spreadsheet
