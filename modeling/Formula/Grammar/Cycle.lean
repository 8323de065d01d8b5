import Formula.Grammar.Primary

/-!
# Unary expressions, where the grammar closes

* `unary ::= ("!" | "-" | "+") unary | power`
* `power ::= primary ("^" unary)?`

Every cycle of the grammar passes through `unary`.  One turn of the cycle, `unaryLevel`, is therefore
written over the parser that stands for `unary` in it, and keeps one level of nesting open.  A turn
consumes a token before it comes to that parser, so as many turns as there are tokens, and one more
for the end of the input, are enough; `unary` is that iterate of the turn.
-/

namespace Formula.Parser

/-- A primary expression, raised to a power or not. -/
def power (self : Parser Expr) : Parser Expr := do
  let base ← primary self
  if ← nextIs "^" then
    advance
    return .binary base .power (← self)
  else return base

/-- The operator that the next token writes before an operand. -/
def sign? : Parser (Option UnaryOp) := do
  match ← next? with
  | none => return none
  | some t => if t.kind = .symbol then return UnaryOp.ofSymbol? t.text else return none

/-- **One turn of the cycle**: an operator before an operand, or a power. -/
def unaryLevel (self : Parser Expr) : Parser Expr :=
  insideFinally do
    match ← sign? with
    | some op =>
      advance
      return .unary op (← self)
    | none => power self

/-- Turns of the cycle nested to a given height; at the bottom stands `stop`. -/
def nested (stop : Parser Expr) : Nat → Parser Expr
  | 0 => stop
  | n + 1 => fun input s => unaryLevel (nested stop n) input s

/-- **A unary expression.**  The parser at the bottom is never reached. -/
def unary : Parser Expr := fun input s =>
  nested (expected .expression) (s.rest.length + 1) input s

/-- **An expression**, as far as it reaches. -/
def expression : Parser Expr :=
  expressionOver unary

end Formula.Parser
