import Spreadsheet.Expr.Basic
import Spreadsheet.Reference.Adjustment
import Spreadsheet.Token.Lexer

/-
  Reading tokens as an expression.

  Infix operators bind by their strength and group from the
  left, signs before an operand bind more strongly, and `%`
  after an operand most strongly. A call of an unknown
  function, or with a wrong number of arguments, is kept as
  unreadable text; every other fault fails as a whole.

  Every function that reads part of an expression takes a
  bound on the depth of its calls, which is larger than any
  expression over the given tokens can need.

  Key definitions include:
    * `ParseError`
    * `ParseState`
    * `Parse.expression`
    * `Expr.ofTokens?`
-/

namespace Spreadsheet

------------------------------------------------------------
-- Errors
------------------------------------------------------------

/- Why tokens are not an expression. -/
inductive ParseFault where
  | noTokens
  | unexpectedToken (t : Token)
  | unexpectedEnd
  | unsupportedOperator (t : Token)
  | missingParenthesis
  | invalidNumber (t : Token)
  | notAnArgument (t : Token)
  | unterminatedCall
  | unterminatedArray
  | unexpectedInArray (t : Token)
  | raggedArray
  | missingElement
  | notAConstant (t : Token)
  | negatedConstant
  | unreadable (e : LexError)
deriving DecidableEq, Repr, Inhabited

/- A fault and the place of the token where it was noticed. -/
structure ParseError where
  fault : ParseFault
  position : Option Nat
deriving DecidableEq, Repr, Inhabited

/- The wording of a fault. -/
def ParseFault.message : ParseFault → String
  | .noTokens => "No tokens to parse"
  | .unexpectedToken t => "Unexpected token: " ++ t.description
  | .unexpectedEnd => "Unexpected end of tokens"
  | .unsupportedOperator t =>
      "Unsupported operator '" ++ t.text ++ "'"
  | .missingParenthesis => "Expected closing parenthesis"
  | .invalidNumber t => "Invalid number: " ++ t.text
  | .notAnArgument t =>
      "Expected ',' or ')' in function arguments, got " ++
        t.description
  | .unterminatedCall => "Unterminated function call"
  | .unterminatedArray => "Unterminated array"
  | .unexpectedInArray t =>
      "Unexpected token in array: " ++ t.description
  | .raggedArray => "Array rows differ in length"
  | .missingElement => "Unexpected end of array"
  | .notAConstant t =>
      "Array elements must be constants, got " ++ t.description
  | .negatedConstant => "Only numbers can be negated in arrays"
  | .unreadable e => e.message

/- The wording of a fault together with its place. -/
def ParseError.display (e : ParseError) : String :=
  match e.position with
  | some p =>
      "ParserError at position " ++ toString p ++ ": " ++
        e.fault.message
  | none => "ParserError: " ++ e.fault.message

/- A formula that has no tokens has no expression. -/
def ParseError.ofLexError (e : LexError) : ParseError :=
  ⟨.unreadable e, some e.offset⟩

------------------------------------------------------------
-- State
------------------------------------------------------------

/-
  What is left to read: the tokens, how many were read, the
  byte just past the last of them, and the references found
  so far.
-/
structure ParseState where
  rest : List Token
  position : Nat
  lastStop : Nat
  refs : References

/- What a part of a formula is read from. -/
structure ParseContext where
  source : List Char
  anchor : Point

/- A part that was read, and what is left. -/
abbrev Parsed (α : Type) := α × ParseState

namespace ParseState

/- Fail at the next token. -/
def fail
    (s : ParseState)
    (fault : ParseFault) : Except ParseError (Parsed α) :=
  .error ⟨fault, some s.position⟩

/- Read a token off. -/
def advance
    (s : ParseState)
    (t : Token)
    (rest : List Token) : ParseState where
  rest := rest
  position := s.position + 1
  lastStop := t.stop
  refs := s.refs

/- Append a reference; its place is the former length. -/
def addReference
    (s : ParseState)
    (r : Reference) : Nat × ParseState :=
  (s.refs.length, { s with refs := s.refs ++ [r] })

end ParseState

------------------------------------------------------------
-- Constants
------------------------------------------------------------

namespace Parse

/- Quotes that are written twice, written once. -/
def undoubleQuotes : List Char → List Char
  | '"' :: '"' :: cs => '"' :: undoubleQuotes cs
  | c :: cs => c :: undoubleQuotes cs
  | [] => []

/- The text between the quotes of a token. -/
def textOfQuoted (cs : List Char) : List Char :=
  undoubleQuotes (cs.drop 1).dropLast

/- The constant that a token spells. -/
def constant
    (t : Token)
    (kind : OperandKind)
    (s : ParseState) : Except ParseError (Parsed Scalar) :=
  match kind with
  | .text => .ok (.text (String.ofList (textOfQuoted t.chars)), s)
  | .logical b => .ok (.bool b, s)
  | .error e => .ok (.error e, s)
  | .number =>
      match (Decimal.readFloat? t.chars).filter Float.isFinite with
      | some x => .ok (.number x, s)
      | none => s.fail (.invalidNumber t)
  | .range => s.fail (.notAConstant t)

/- The operand that a token spells. -/
def operand
    (ctx : ParseContext)
    (t : Token)
    (kind : OperandKind)
    (s : ParseState) : Except ParseError (Parsed Expr) :=
  match kind with
  | .range =>
      match Reference.read? t.chars ctx.anchor with
      | some r =>
          let (i, s) := s.addReference r
          .ok (.leaf false (.reference i), s)
      | none => .ok (.unreadable .unknownName t.chars, s)
  | kind => do
      let (v, s) ← constant t kind s
      .ok (.constant v, s)

------------------------------------------------------------
-- Arrays
------------------------------------------------------------

/-
  Read the signs before an element of an array: whether they
  make it negative, and what follows them.
-/
def signs (negative : Bool) (s : ParseState) :
    List Token → Bool × ParseState
  | [] => (negative, { s with rest := [] })
  | t :: rest =>
      if t.kind = .prefixOp then
        signs (negative != (t.chars == ['-'])) (s.advance t rest) rest
      else
        (negative, { s with rest := t :: rest })

/- Read an element of an array. -/
def element (s : ParseState) : Except ParseError (Parsed Scalar) :=
  let (negative, s) := signs false s s.rest
  match s.rest with
  | [] => s.fail .missingElement
  | t :: rest =>
      match t.kind with
      | .operand .range => s.fail (.notAConstant t)
      | .operand kind => do
          let (v, s) ← constant t kind (s.advance t rest)
          if negative then
            match v with
            | .number x => .ok (.number (-x), s)
            | _ => s.fail .negatedConstant
          else
            .ok (v, s)
      | _ => s.fail (.notAConstant t)

/-
  Read the rest of an array whose last row has at least one
  element; rows and the elements of the last row come in
  reverse.
-/
def arrayRows
    (rows : List (List Scalar))
    (row : List Scalar)
    (s : ParseState) :
    Nat → Except ParseError (Parsed (List (List Scalar)))
  | 0 => s.fail .unterminatedArray
  | fuel + 1 =>
      match s.rest with
      | [] => s.fail .unterminatedArray
      | t :: rest =>
          match t.kind with
          | .argumentSeparator => do
              let (v, s) ← element (s.advance t rest)
              arrayRows rows (v :: row) s fuel
          | .rowSeparator => do
              let (v, s) ← element (s.advance t rest)
              arrayRows (row.reverse :: rows) [v] s fuel
          | .closing .array =>
              .ok ((row.reverse :: rows).reverse, s.advance t rest)
          | _ => s.fail (.unexpectedInArray t)

/- Read an array after its opening brace. -/
def array (s : ParseState) : Except ParseError (Parsed Expr) := do
  let (v, s) ← element s
  let (rows, s) ← arrayRows [] [v] s (s.rest.length + 1)
  match ScalarArray.ofRows? rows with
  | some a => .ok (.leaf false (.array a), s)
  | none => s.fail .raggedArray

------------------------------------------------------------
-- Expressions
------------------------------------------------------------

/-
  The call of a function by the name in its token. Calls that
  cannot be made keep their text, up to the last token read.
-/
def callOf
    (ctx : ParseContext)
    (t : Token)
    (args : List Expr)
    (s : ParseState) : Expr :=
  let text := Text.slice ctx.source t.start s.lastStop
  match Operation.ofName? t.functionName with
  | none => .unreadable .unknownName text
  | some op =>
      if op.accepts args.length then .call op args
      else .unreadable .badFormula text

/- Apply the percent signs that follow an operand. -/
def percents (e : Expr) (s : ParseState) :
    List Token → Expr × ParseState
  | [] => (e, { s with rest := [] })
  | t :: rest =>
      if t.kind = .postfixOp then
        percents (.call .percent [e]) (s.advance t rest) rest
      else
        (e, { s with rest := t :: rest })

mutual

/- Read an infix chain whose operators bind so strongly. -/
def expression
    (ctx : ParseContext)
    (binding : Nat)
    (s : ParseState) : Nat → Except ParseError (Parsed Expr)
  | 0 => s.fail .unexpectedEnd
  | fuel + 1 => do
      let (left, s) ← signed ctx s fuel
      chain ctx binding left s fuel

/- Read the operators that follow a left operand. -/
def chain
    (ctx : ParseContext)
    (binding : Nat)
    (left : Expr)
    (s : ParseState) : Nat → Except ParseError (Parsed Expr)
  | 0 => s.fail .unexpectedEnd
  | fuel + 1 =>
      match s.rest with
      | [] => .ok (left, s)
      | t :: rest =>
          if t.kind = .infixOp then
            match InfixOp.ofSymbol? t.text with
            | none => s.fail (.unsupportedOperator t)
            | some op =>
                if op.binding < binding then
                  .ok (left, s)
                else do
                  let (right, s) ←
                    expression ctx (op.binding + 1)
                      (s.advance t rest) fuel
                  chain ctx binding
                    (.call (.infixOp op) [left, right]) s fuel
          else
            .ok (left, s)

/- Read an operand with the signs before it. -/
def signed
    (ctx : ParseContext)
    (s : ParseState) : Nat → Except ParseError (Parsed Expr)
  | 0 => s.fail .unexpectedEnd
  | fuel + 1 =>
      match s.rest with
      | [] => s.fail .unexpectedEnd
      | t :: rest =>
          if t.kind = .prefixOp then do
            let (e, s) ← signed ctx (s.advance t rest) fuel
            .ok (if t.chars = ['-'] then .call .negate [e] else e, s)
          else do
            let (e, s) ← primary ctx t rest s fuel
            .ok (percents e s s.rest)

/- Read an operand without the signs around it. -/
def primary
    (ctx : ParseContext)
    (t : Token)
    (rest : List Token)
    (s : ParseState) : Nat → Except ParseError (Parsed Expr)
  | 0 => s.fail .unexpectedEnd
  | fuel + 1 =>
      match t.kind with
      | .operand kind => operand ctx t kind (s.advance t rest)
      | .opening .call => do
          let (args, s) ← arguments ctx (s.advance t rest) fuel
          .ok (callOf ctx t args s, s)
      | .opening .group => do
          let (e, s) ← expression ctx 0 (s.advance t rest) fuel
          match s.rest with
          | t :: rest =>
              if t.kind = .closing .group then
                .ok (e.bracket, s.advance t rest)
              else
                s.fail .missingParenthesis
          | [] => s.fail .missingParenthesis
      | .opening .array => array (s.advance t rest)
      | _ => s.fail (.unexpectedToken t)

/- Read the arguments of a call, if it has any. -/
def arguments
    (ctx : ParseContext)
    (s : ParseState) : Nat → Except ParseError (Parsed (List Expr))
  | 0 => s.fail .unexpectedEnd
  | fuel + 1 =>
      match s.rest with
      | t :: rest =>
          if t.kind = .closing .call then
            .ok ([], s.advance t rest)
          else
            argumentList ctx s fuel
      | [] => argumentList ctx s fuel

/- Read arguments, of which any may be omitted. -/
def argumentList
    (ctx : ParseContext)
    (s : ParseState) : Nat → Except ParseError (Parsed (List Expr))
  | 0 => s.fail .unexpectedEnd
  | fuel + 1 => do
      let (arg, s) ← argument ctx s fuel
      match s.rest with
      | [] => s.fail .unterminatedCall
      | t :: rest =>
          if t.kind = .argumentSeparator then do
            let (args, s) ← argumentList ctx (s.advance t rest) fuel
            .ok (arg :: args, s)
          else if t.kind = .closing .call then
            .ok ([arg], s.advance t rest)
          else
            s.fail (.notAnArgument t)

/- Read an argument; an omitted one is blank. -/
def argument
    (ctx : ParseContext)
    (s : ParseState) : Nat → Except ParseError (Parsed Expr)
  | 0 => s.fail .unexpectedEnd
  | fuel + 1 =>
      match s.rest with
      | t :: _ =>
          if t.kind = .argumentSeparator ∨ t.kind = .closing .call then
            .ok (.constant .blank, s)
          else
            expression ctx 0 s fuel
      | [] => expression ctx 0 s fuel

end

end Parse

------------------------------------------------------------
-- Whole Formulas
------------------------------------------------------------

namespace Expr

/-
  The expression that tokens spell, and its references. The
  tokens were read from `source`, and blanks are skipped.
-/
def ofTokens?
    (source : List Char)
    (tokens : List Token)
    (anchor : Point) : Except ParseError (Expr × References) :=
  let tokens := tokens.filter fun t => !t.isBlank
  match tokens with
  | [] => .error ⟨.noTokens, none⟩
  | _ => do
      let (e, s) ←
        Parse.expression ⟨source, anchor⟩ 0 ⟨tokens, 0, 0, []⟩
          (8 * tokens.length + 8)
      match s.rest with
      | [] => .ok (e, s.refs)
      | t :: _ => .error ⟨.unexpectedToken t, some s.position⟩

/- The expression that a text without `=` spells. -/
def ofChars?
    (source : List Char)
    (anchor : Point) : Except ParseError (Expr × References) := do
  let tokens ← (Token.lex source).mapError .ofLexError
  ofTokens? source tokens anchor

end Expr

end Spreadsheet
