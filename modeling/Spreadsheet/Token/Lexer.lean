import Spreadsheet.Decimal.Reader
import Spreadsheet.Token.Basic

/-
  Splitting a formula into tokens.

  The first character of the rest of a formula decides which
  kind of piece starts there and how many further characters
  belong to it. Brackets are matched while reading, since a
  comma separates arguments only directly inside a call or
  an array, and a sign stands between operands only after
  something that ends an operand.

  Key definitions include:
    * `LexError`
    * `Lexeme`
    * `Lexeme.next`
    * `Token.ofChars`
    * `Token.lex`
-/

namespace Spreadsheet

------------------------------------------------------------
-- Errors
------------------------------------------------------------

/- Why a formula cannot be split into tokens. -/
inductive LexFault where
  | unterminatedText
  | unknownErrorCode
  | unmatchedCloser
  | mismatchedBrackets
  | unmatchedOpener
deriving DecidableEq, Repr, Inhabited

/- A fault and the byte at which it was noticed. -/
structure LexError where
  fault : LexFault
  offset : Nat
deriving DecidableEq, Repr, Inhabited

/- The wording of a fault. -/
def LexError.message (e : LexError) : String :=
  match e.fault with
  | .unterminatedText =>
      "Reached end of formula while parsing string"
  | .unknownErrorCode =>
      "Invalid error code at position " ++ toString e.offset
  | .unmatchedCloser =>
      "No matching opener for closer at position " ++
        toString e.offset
  | .mismatchedBrackets => "Mismatched ( and \x7b pair"
  | .unmatchedOpener =>
      "Unmatched opening parenthesis or brace"

/- The wording of a fault together with its place. -/
def LexError.display (e : LexError) : String :=
  "TokenizerError at " ++ toString e.offset ++ ": " ++ e.message

------------------------------------------------------------
-- Lexemes
------------------------------------------------------------

/- The pieces of a formula, before brackets are matched. -/
inductive Lexeme where
  | text
  | error (e : ErrorValue)
  | blank
  | sign
  | percent
  | operator
  | open (bracket : Bracket)
  | close (brace : Bool)
  | comma
  | semicolon
  | word
deriving DecidableEq, Repr

namespace Lexeme

/- The blanks of formulas. -/
def isSpace (c : Char) : Bool :=
  c == ' ' || c == '\n' || c == '\t' || c == '\r'

/- The characters that never continue a word. -/
def isSpecial (c : Char) : Bool :=
  isSpace c ||
    ['"', '#', '+', '-', '*', '/', '^', '&', '=', '>', '<', '%',
      '\x7b', '(', ')', '\x7d', ';', ','].contains c

/-
  A word that a sign may continue: a number up to the letter
  of its exponent.
-/
def isExponentBase (word : List Char) : Bool :=
  (word.getLast? == some 'e' || word.getLast? == some 'E') &&
    1 < word.length &&
    word.dropLast.all (fun c => c.isDigit || c == '.') &&
    word.count '.' ≤ 1

/-
  How many characters continue a word that so far consists
  of the characters `word`.
-/
def wordLength (word : List Char) : List Char → Nat
  | [] => 0
  | c :: cs =>
      if !isSpecial c ||
          ((c == '+' || c == '-') && isExponentBase word) then
        wordLength (word ++ [c]) cs + 1
      else
        0

/-
  How many characters lead to the end of a text, its closing
  quote included. A quote that is written twice belongs to
  the text.
-/
def textLength? : List Char → Option Nat
  | [] => none
  | '"' :: '"' :: cs => (textLength? cs).map (· + 2)
  | '"' :: _ => some 1
  | _ :: cs => (textLength? cs).map (· + 1)

/- The error value whose spelling starts here, in any case. -/
def errorAt? (cs : List Char) : Option ErrorValue :=
  ErrorValue.all.find? fun e =>
    e.text.length ≤ cs.length &&
      Text.equalIgnoringCase (String.ofList (cs.take e.text.length))
        e.text

/- Two characters that form one comparison sign. -/
def isDoubleSign (c d : Char) : Bool :=
  (c == '>' && d == '=') || (c == '<' && d == '=') ||
    (c == '<' && d == '>')

/- An operator and how many further characters it has. -/
def operator? (c : Char) (cs : List Char) : Lexeme × Nat :=
  if (cs.head?.map (isDoubleSign c)).getD false then
    (.operator, 1)
  else if c == '%' then
    (.percent, 0)
  else if c == '+' || c == '-' then
    (.sign, 0)
  else
    (.operator, 0)

/- A word; one before a parenthesis opens a call. -/
def wordOrCall (c : Char) (cs : List Char) : Lexeme × Nat :=
  let n := wordLength [c] cs
  if (cs.drop n).head? = some '(' then
    (.open .call, n + 1)
  else
    (.word, n)

/-
  The piece that starts with the character `c`, and how many
  of the characters `cs` after it belong to it.
-/
def next
    (c : Char)
    (cs : List Char) : Except LexFault (Lexeme × Nat) :=
  if c = '"' then
    match textLength? cs with
    | some n => .ok (.text, n)
    | none => .error .unterminatedText
  else if c = '#' then
    match errorAt? (c :: cs) with
    | some e => .ok (.error e, e.text.length - 1)
    | none => .error .unknownErrorCode
  else if isSpace c then
    .ok (.blank, (cs.takeWhile isSpace).length)
  else if c = '\x7b' then
    .ok (.open .array, 0)
  else if c = '(' then
    .ok (.open .group, 0)
  else if c = ')' || c = '\x7d' then
    .ok (.close (c == '\x7d'), 0)
  else if c = ';' then
    .ok (.semicolon, 0)
  else if c = ',' then
    .ok (.comma, 0)
  else if isSpecial c then
    .ok (operator? c cs)
  else
    .ok (wordOrCall c cs)

/- What a word stands for. -/
def wordKind (word : List Char) : OperandKind :=
  if Text.equalIgnoringCase (String.ofList word) "TRUE" then
    .logical true
  else if Text.equalIgnoringCase (String.ofList word) "FALSE" then
    .logical false
  else if (Decimal.Literal.ofChars? word).isSome then
    .number
  else
    .range

end Lexeme

------------------------------------------------------------
-- Tokens
------------------------------------------------------------

/-
  What reading a token depends on: the brackets that are
  open, innermost first, and whether an operand has just
  ended.
-/
structure LexContext where
  opened : List Bracket
  afterOperand : Bool
deriving DecidableEq, Repr

namespace LexContext

/- Nothing is open and nothing precedes. -/
def start : LexContext := ⟨[], false⟩

/- A comma here separates arguments or elements. -/
def inList (ctx : LexContext) : Bool :=
  match ctx.opened with
  | .call :: _ | .array :: _ => true
  | _ => false

/-
  The kind of token that a piece is, and the brackets that
  are open after it.
-/
def classify
    (ctx : LexContext)
    (lexeme : Lexeme)
    (chars : List Char) :
    Except LexFault (TokenKind × List Bracket) :=
  match lexeme with
  | .text => .ok (.operand .text, ctx.opened)
  | .error e => .ok (.operand (.error e), ctx.opened)
  | .word => .ok (.operand (Lexeme.wordKind chars), ctx.opened)
  | .blank => .ok (.blank, ctx.opened)
  | .operator => .ok (.infixOp, ctx.opened)
  | .percent => .ok (.postfixOp, ctx.opened)
  | .sign =>
      .ok (if ctx.afterOperand then .infixOp else .prefixOp,
        ctx.opened)
  | .open b => .ok (.opening b, b :: ctx.opened)
  | .close brace =>
      match ctx.opened with
      | [] => .error .unmatchedCloser
      | b :: outer =>
          if (b == .array) = brace then
            .ok (.closing b, outer)
          else
            .error .mismatchedBrackets
  | .semicolon => .ok (.rowSeparator, ctx.opened)
  | .comma =>
      .ok (if ctx.inList then .argumentSeparator else .infixOp,
        ctx.opened)

/- The context after a token. -/
def after
    (ctx : LexContext)
    (t : Token)
    (opened : List Bracket) : LexContext where
  opened := opened
  afterOperand :=
    if t.isBlank then ctx.afterOperand else t.endsOperand

end LexContext

namespace Token

/-
  The tokens of the rest of a formula, which starts at a
  given byte.
-/
def ofChars
    (ctx : LexContext)
    (offset : Nat) :
    List Char → Except LexError (List Token)
  | [] =>
      if ctx.opened.isEmpty then .ok []
      else .error ⟨.unmatchedOpener, offset⟩
  | c :: cs => do
      let (lexeme, n) ←
        match Lexeme.next c cs with
        | .ok found => .ok found
        | .error .unterminatedText =>
            .error ⟨.unterminatedText,
              offset + Text.byteLength (c :: cs)⟩
        | .error fault => .error ⟨fault, offset⟩
      let chars := c :: cs.take n
      let (kind, opened) ←
        (ctx.classify lexeme chars).mapError (⟨·, offset⟩)
      let t : Token := ⟨kind, chars, offset⟩
      let rest ← ofChars (ctx.after t opened) t.stop (cs.drop n)
      .ok (t :: rest)
termination_by cs => cs.length
decreasing_by
  simp only [List.length_drop, List.length_cons]
  omega

/- The tokens of a formula, less one leading `=`. -/
def lex (cs : List Char) : Except LexError (List Token) :=
  match cs with
  | '=' :: cs => ofChars .start 1 cs
  | cs => ofChars .start 0 cs

/- The text that a list of tokens was read from. -/
def render (ts : List Token) : List Char :=
  ts.flatMap chars

end Token

end Spreadsheet
