import Spreadsheet.Text.Blank

/-
  The operators and functions of formulas.

  Operations are grouped by how they treat their operands:
  infix, prefix and postfix operators and elementwise
  functions act on one scalar of each operand at a time,
  aggregates fold all scalars of all arguments into one, and
  choice functions evaluate only some of their arguments.

  Key definitions include:
    * `InfixOp`
    * `Aggregate`
    * `Elementwise`
    * `Choice`
    * `Operation`
    * `Operation.symbol`
    * `Operation.accepts`
    * `Operation.ofName?`
-/

namespace Spreadsheet

------------------------------------------------------------
-- Kinds Of Operations
------------------------------------------------------------

/- Operators between two operands. -/
inductive InfixOp where
  | add | subtract | multiply | divide | power | concat
  | equal | unequal | less | lessEqual | greater | greaterEqual
deriving DecidableEq, Repr, Inhabited

/- Functions that fold all scalars of their arguments. -/
inductive Aggregate where
  | sum | product | average | count | countFilled | countBlank
  | minimum | maximum | conjunction | disjunction | parity
  | concat | sumProduct
deriving DecidableEq, Repr, Inhabited

/- Functions of a fixed number of scalars. -/
inductive Elementwise where
  | absolute | floor | sign | squareRoot | modulo | power | round
  | negation | length | upper | lower | trim
  | isBlank | isNumber | isText | isLogical | isError
  | isErrorNotMissing | isMissing | errorCode
  | missing | alwaysTrue | alwaysFalse | pi
deriving DecidableEq, Repr, Inhabited

/- Functions that evaluate only some of their arguments. -/
inductive Choice where
  | ifElse | choose | ifError
deriving DecidableEq, Repr, Inhabited

/- An operator or function. -/
inductive Operation where
  | infixOp (op : InfixOp)
  | negate
  | percent
  | aggregate (f : Aggregate)
  | elementwise (f : Elementwise)
  | choice (f : Choice)
deriving DecidableEq, Repr, Inhabited

------------------------------------------------------------
-- Spelling
------------------------------------------------------------

/- The sign between the operands. -/
def InfixOp.symbol : InfixOp → String
  | .add => "+"
  | .subtract => "-"
  | .multiply => "*"
  | .divide => "/"
  | .power => "^"
  | .concat => "&"
  | .equal => "="
  | .unequal => "<>"
  | .less => "<"
  | .lessEqual => "<="
  | .greater => ">"
  | .greaterEqual => ">="

/- All infix operators. -/
def InfixOp.all : List InfixOp :=
  [.add, .subtract, .multiply, .divide, .power, .concat,
    .equal, .unequal, .less, .lessEqual, .greater,
    .greaterEqual]

/- The infix operator with a given sign. -/
def InfixOp.ofSymbol? (s : String) : Option InfixOp :=
  InfixOp.all.find? (·.symbol == s)

/-
  How strongly an operator binds its operands. All operators
  of one strength group from the left.
-/
def InfixOp.binding : InfixOp → Nat
  | .power => 5
  | .multiply | .divide => 4
  | .add | .subtract => 3
  | .concat => 2
  | .equal | .unequal | .less | .lessEqual | .greater
  | .greaterEqual => 1

/- The name of an aggregate in formulas. -/
def Aggregate.name : Aggregate → String
  | .sum => "SUM"
  | .product => "PRODUCT"
  | .average => "AVERAGE"
  | .count => "COUNT"
  | .countFilled => "COUNTA"
  | .countBlank => "COUNTBLANK"
  | .minimum => "MIN"
  | .maximum => "MAX"
  | .conjunction => "AND"
  | .disjunction => "OR"
  | .parity => "XOR"
  | .concat => "CONCAT"
  | .sumProduct => "SUMPRODUCT"

/- The name of an elementwise function in formulas. -/
def Elementwise.name : Elementwise → String
  | .absolute => "ABS"
  | .floor => "INT"
  | .sign => "SIGN"
  | .squareRoot => "SQRT"
  | .modulo => "MOD"
  | .power => "POWER"
  | .round => "ROUND"
  | .negation => "NOT"
  | .length => "LEN"
  | .upper => "UPPER"
  | .lower => "LOWER"
  | .trim => "TRIM"
  | .isBlank => "ISBLANK"
  | .isNumber => "ISNUMBER"
  | .isText => "ISTEXT"
  | .isLogical => "ISLOGICAL"
  | .isError => "ISERROR"
  | .isErrorNotMissing => "ISERR"
  | .isMissing => "ISNA"
  | .errorCode => "ERROR.TYPE"
  | .missing => "NA"
  | .alwaysTrue => "TRUE"
  | .alwaysFalse => "FALSE"
  | .pi => "PI"

/- The name of a choice function in formulas. -/
def Choice.name : Choice → String
  | .ifElse => "IF"
  | .choose => "CHOOSE"
  | .ifError => "IFERROR"

/- All aggregates. -/
def Aggregate.all : List Aggregate :=
  [.sum, .product, .average, .count, .countFilled, .countBlank,
    .minimum, .maximum, .conjunction, .disjunction, .parity,
    .concat, .sumProduct]

/- All elementwise functions. -/
def Elementwise.all : List Elementwise :=
  [.absolute, .floor, .sign, .squareRoot, .modulo, .power,
    .round, .negation, .length, .upper, .lower, .trim, .isBlank,
    .isNumber, .isText, .isLogical, .isError,
    .isErrorNotMissing, .isMissing, .errorCode, .missing,
    .alwaysTrue, .alwaysFalse, .pi]

/- All choice functions. -/
def Choice.all : List Choice :=
  [.ifElse, .choose, .ifError]

namespace Operation

/- The sign or name of an operation in formulas. -/
def symbol : Operation → String
  | .infixOp op => op.symbol
  | .negate => "-"
  | .percent => "%"
  | .aggregate f => f.name
  | .elementwise f => f.name
  | .choice f => f.name

/- The operation is written as a name before arguments. -/
def isFunction : Operation → Bool
  | .aggregate _ | .elementwise _ | .choice _ => true
  | _ => false

------------------------------------------------------------
-- Arguments
------------------------------------------------------------

/- The least number of arguments. -/
def fewest : Operation → Nat
  | .infixOp _ => 2
  | .negate | .percent => 1
  | .aggregate .sumProduct => 2
  | .aggregate _ => 1
  | .elementwise .modulo | .elementwise .power => 2
  | .elementwise .missing | .elementwise .alwaysTrue
  | .elementwise .alwaysFalse | .elementwise .pi => 0
  | .elementwise _ => 1
  | .choice _ => 2

/- The greatest number of arguments, if there is one. -/
def most : Operation → Option Nat
  | .aggregate .countBlank => some 1
  | .aggregate .sumProduct => some 2
  | .aggregate _ => none
  | .elementwise .round => some 2
  | .choice .ifElse => some 3
  | .choice .choose => none
  | op => some op.fewest

/- An operation can be applied to so many arguments. -/
def accepts (op : Operation) (count : Nat) : Bool :=
  op.fewest ≤ count &&
    match op.most with
    | none => true
    | some most => count ≤ most

------------------------------------------------------------
-- Catalogue
------------------------------------------------------------

/- All operations: operators first, then functions. -/
def all : List Operation :=
  InfixOp.all.map infixOp ++ [negate, percent] ++
    Aggregate.all.map aggregate ++
    Elementwise.all.map elementwise ++ Choice.all.map choice

/- The function with a given name, in any case. -/
def ofName? (name : String) : Option Operation :=
  all.find? fun op =>
    op.isFunction && op.symbol == Text.upperAscii name

end Operation

end Spreadsheet
