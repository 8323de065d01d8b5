import Formula.Grammar.Cycle

/-!
# Expressions and assignments from tokens

A formula takes up all of its tokens.  An assignment is a path, the sign `=` and an expression:

* `assignment ::= path "=" expression`
-/

namespace Formula

namespace Parser

/-- Fails if there are no tokens at all. -/
def nonempty (fault : ParseFault) : Parser Unit := fun input s =>
  if input.tokens.isEmpty then fail fault input s else .done () s

/-- Fails if a token is left. -/
def finished : Parser Unit := do
  match ← next? with
  | none => return ()
  | some t => fail (.trailing t)

/-- Fails if no token is left, because `what` was expected. -/
def unfinished (what : Expectation) : Parser Unit := do
  match ← next? with
  | none => expected what
  | some _ => return ()

/-- **All tokens left, as an expression.** -/
def wholeExpression : Parser Expr := do
  nonempty .emptyExpression
  let e ← expression
  finished
  return e

/-- The path that an assignment begins with. -/
def destination : Parser Path := do
  match ← next? with
  | none => expected .destination
  | some t =>
    if t.isRoot then
      advance
      pathFrom t.text
    else expected .destination

/-- **All tokens left, as an assignment.** -/
def wholeAssignment : Parser Assignment := do
  nonempty .emptyAssignment
  let path ← destination
  require "=" .equals
  unfinished .value
  let value ← expression
  finished
  return ⟨path, value⟩

end Parser

/-- **The expression that tokens form** in a dialect. -/
def Expr.ofTokens (dialect : Dialect) (tokens : List Token) : Except ParseError Expr :=
  let input : Parser.Input := ⟨tokens, dialect⟩
  (Parser.wholeExpression input input.start).result

/-- **The assignment that tokens form** in a dialect. -/
def Assignment.ofTokens (dialect : Dialect) (tokens : List Token) :
    Except ParseError Assignment :=
  let input : Parser.Input := ⟨tokens, dialect⟩
  (Parser.wholeAssignment input input.start).result

end Formula
