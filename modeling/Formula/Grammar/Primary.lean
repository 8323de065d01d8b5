import Formula.Decimal.Numeral
import Formula.Grammar.Chain

/-!
# Primary expressions

A primary expression is a number, a path, a call, or an expression between parentheses:

* `primary   ::= number | path | name "(" arguments ")" | "(" expression ")"`
* `path      ::= (quoted | name) ("." name)*`
* `arguments ::= (expression ("," expression)*)?`

A name before an opening parenthesis is always a call.  Only the names that the dialect lists may be
called without arguments.  The parsers for calls and parentheses are written over a parser for the
operands of the expressions inside.
-/

namespace Formula.Parser

/-! ### Paths -/

/-- The names at the front, each behind a point, and the tokens behind them. -/
def splitAttributes : List Token → List String × List Token
  | point :: name :: rest =>
    if point.isSymbol "." && name.kind = .name then
      let (names, rest) := splitAttributes rest
      (name.text :: names, rest)
    else ([], point :: name :: rest)
  | rest => ([], rest)

/-- Consumes the names that follow, each behind a point. -/
def attributes : Parser (List String) := fun _ s =>
  let (names, rest) := splitAttributes s.rest
  .done names { s with rest }

/-- The path with the given root.  A point that no name follows is consumed before the error. -/
def pathFrom (root : String) : Parser Path := do
  let names ← attributes
  if ← nextIs "." then
    advance
    expected .attribute
  else return root :: names

/-! ### Numbers -/

/-- The value of a number token. -/
def number (t : Token) : Parser Expr :=
  match Decimal.read? t.text with
  | none => fail (.invalidNumber t.text)
  | some x =>
    if x.isFinite then do
      advance
      return .literal x
    else fail (.numberOutOfRange t.text)

/-! ### Calls -/

/-- Further arguments, each behind a comma.  `fuel` bounds their number. -/
def moreArguments (item : Parser Expr) : Nat → Parser (List Expr)
  | 0 => return []
  | fuel + 1 => do
    if ← nextIs "," then
      advance
      let arg ← item
      let args ← moreArguments item fuel
      return arg :: args
    else return []

/-- The arguments of a call, at least one. -/
def arguments (item : Parser Expr) : Parser (List Expr) := do
  let arg ← item
  let args ← moreArguments item (← remaining)
  return arg :: args

/-- Whether the function `name` may be called without arguments. -/
def isNullary (name : String) : Parser Bool :=
  fun input s => .done (name ∈ input.dialect.nullary) s

/-- A call of the function `name`; the next token is the opening parenthesis. -/
def callOf (name : String) (item : Parser Expr) : Parser Expr := do
  let opened ← position
  advance
  if ← nextIs ")" then
    if ← isNullary name then
      advance
      return .call name []
    else fail (.noArguments name)
  else
    let args ← arguments item
    require ")" (.argument name opened)
    return .call name args

/-! ### Primary expressions -/

/-- An expression between parentheses; the next token is the one that opens. -/
def parenthesized (opened : Nat) (item : Parser Expr) : Parser Expr := do
  advance
  let inner ← item
  require ")" (.closing opened)
  return inner

/-- A primary expression over the parser `operand` for the operands of the expressions inside it. -/
def primary (operand : Parser Expr) : Parser Expr := do
  match ← next? with
  | none => expected .expression
  | some t =>
    match t.kind with
    | .number => number t
    | .quoted =>
      advance
      return .path (← pathFrom t.text)
    | .name =>
      advance
      if ← nextIs "(" then callOf t.text (expressionOver operand)
      else return .path (← pathFrom t.text)
    | .symbol =>
      if t.text = "(" then parenthesized t.position (expressionOver operand)
      else expected .expression

end Formula.Parser
