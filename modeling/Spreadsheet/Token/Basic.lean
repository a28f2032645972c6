import Spreadsheet.ErrorValue
import Spreadsheet.Text.Bytes

/-
  The tokens of a formula.

  A token keeps the characters it was read from and the byte
  at which they start, so that the tokens of a formula tile
  its text.

  Key definitions include:
    * `Bracket`
    * `TokenKind`
    * `Token`
    * `Token.endsOperand`
-/

namespace Spreadsheet

/- The three kinds of brackets. -/
inductive Bracket where
  | call
  | array
  | group
deriving DecidableEq, Repr, Inhabited

/- The constants and names that stand between operators. -/
inductive OperandKind where
  | text
  | number
  | logical (b : Bool)
  | error (e : ErrorValue)
  | range
deriving DecidableEq, Repr, Inhabited

/- The role of a token in its formula. -/
inductive TokenKind where
  | operand (kind : OperandKind)
  | opening (bracket : Bracket)
  | closing (bracket : Bracket)
  | argumentSeparator
  | rowSeparator
  | prefixOp
  | infixOp
  | postfixOp
  | blank
deriving DecidableEq, Repr, Inhabited

/- A piece of a formula, with the byte at which it starts. -/
structure Token where
  kind : TokenKind
  chars : List Char
  start : Nat
deriving DecidableEq, Repr, Inhabited

namespace Token

/- The text of a token. -/
def text (t : Token) : String :=
  String.ofList t.chars

/- The byte just past a token. -/
def stop (t : Token) : Nat :=
  t.start + Text.byteLength t.chars

/- Blanks carry no meaning. -/
def isBlank (t : Token) : Bool :=
  t.kind == .blank

/-
  A sign after this token stands between two operands:
  the token ends an operand.
-/
def endsOperand (t : Token) : Bool :=
  match t.kind with
  | .operand _ | .closing _ | .postfixOp => true
  | _ => false

/- A token is an operator. -/
def isOperator (t : Token) : Bool :=
  match t.kind with
  | .prefixOp | .infixOp | .postfixOp => true
  | _ => false

/- The function's name in the token that opens its call. -/
def functionName (t : Token) : String :=
  if t.chars.getLast? = some '(' then
    String.ofList t.chars.dropLast
  else
    t.text

/- How a token is named in error messages. -/
def description (t : Token) : String :=
  "'" ++ t.text ++ "' at " ++ toString t.start

end Token

end Spreadsheet
