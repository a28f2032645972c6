import Spreadsheet.Text.CaseTable

/-
  Upper and lower case of whole texts.

  A letter may become several letters, and a capital sigma
  at the end of a word becomes the final form of the small
  letter. All other letters change case one by one.

  Key definitions include:
    * `Text.upper`
    * `Text.lower`
    * `Text.isAscii`
    * `Text.lowerByte`
-/

namespace Spreadsheet

namespace Text

/- Look a letter up among expansions first, then among runs. -/
def changeCase
    (expansions : List (Nat × List Nat))
    (runs : List CaseRun)
    (c : Char) : List Char :=
  let n := c.toNat
  match expansions.lookup n with
  | some letters => letters.map Char.ofNat
  | none =>
      match runs.find? (·.holds n) with
      | some run => [Char.ofNat ((n : Int) + run.shift).toNat]
      | none => [c]

/- The letters that a letter has in upper case. -/
def upperChar (c : Char) : List Char :=
  if c.toNat < 128 then
    [c.toUpper]
  else
    changeCase upperExpansions upperRuns c

/- The letters that a letter has in lower case. -/
def lowerChar (c : Char) : List Char :=
  if c.toNat < 128 then
    [c.toLower]
  else
    changeCase lowerExpansions lowerRuns c

/- A character lies in one of the ranges. -/
def inRanges (ranges : List (Nat × Nat)) (c : Char) : Bool :=
  ranges.any fun r => r.1 ≤ c.toNat && c.toNat ≤ r.2

/-
  The nearest character that is not ignored next to sigma
  has a case.
-/
def nextIsCased (cs : List Char) : Bool :=
  match cs.dropWhile (inRanges ignorableRanges) with
  | [] => false
  | c :: _ => inRanges casedRanges c

/- The capital letter sigma. -/
def capitalSigma : Char := 'Σ'

/-
  The lower case of a text whose preceding characters are
  given in reverse. Sigma takes its final form after a cased
  letter, unless a cased letter follows.
-/
def lowerChars (before : List Char) : List Char → List Char
  | [] => []
  | c :: cs =>
      let letters :=
        if c = capitalSigma then
          if nextIsCased before && !nextIsCased cs then ['ς']
          else ['σ']
        else
          lowerChar c
      letters ++ lowerChars (c :: before) cs

/- A text in upper case. -/
def upper (s : String) : String :=
  String.ofList (s.toList.flatMap upperChar)

/- A text in lower case. -/
def lower (s : String) : String :=
  String.ofList (lowerChars [] s.toList)

/- The bytes that encode a text. -/
def bytes (s : String) : List UInt8 :=
  s.toUTF8.data.toList

/- A text of bytes below 128 only. -/
def isAscii (s : String) : Bool :=
  (bytes s).all (· < 128)

/- The byte of a letter A to Z becomes that of its small letter. -/
def lowerByte (b : UInt8) : UInt8 :=
  if 65 ≤ b && b ≤ 90 then b + 32 else b

end Text

end Spreadsheet
