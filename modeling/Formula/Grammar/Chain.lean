import Formula.Expr.Basic
import Formula.Grammar.Parser

/-!
# Chains of operators

The operators between operands form six levels, from the loosest binding to the tightest:

`||`, `&&`, `== !=`, `< <= > >=`, `+ -`, `* /`.

An expression of a level is a chain of operands of the next level with operators of this level
between them, and it groups from the left.  Each operator puts what was read before it one step
deeper into the tree; so the rest of the chain is read inside a new level of nesting, and all these
levels close when the chain is complete.
-/

namespace Formula.Parser

/-- The operator among `ops` that the next token writes. -/
def operator? (ops : List BinaryOp) : Parser (Option BinaryOp) := do
  match ← next? with
  | none => return none
  | some t =>
    if t.kind = .symbol then return (BinaryOp.ofSymbol? t.text).filter (· ∈ ops)
    else return none

/-- Extends the tree `left` by the operators of a level and their operands.  `fuel` bounds the
number of operators. -/
def chain (ops : List BinaryOp) (operand : Parser Expr) : Nat → Expr → Parser Expr
  | 0, left => return left
  | fuel + 1, left => do
    match ← operator? ops with
    | none => return left
    | some op =>
      inside do
        advance
        let right ← operand
        chain ops operand fuel (.binary left op right)

/-- An expression of the level with the operators `ops`.  A chain has fewer operators than there are
tokens left; these are counted only if there is an operator at all. -/
def level (ops : List BinaryOp) (operand : Parser Expr) : Parser Expr := do
  let left ← operand
  match ← operator? ops with
  | none => return left
  | some _ => chain ops operand (← remaining) left

/-- The operators of the six levels, the loosest first. -/
def levels : List (List BinaryOp) :=
  [[.or], [.and], [.equal, .notEqual], [.less, .lessEqual, .greater, .greaterEqual],
    [.add, .subtract], [.multiply, .divide]]

/-- An expression of the loosest level, over the parser of the operands of the tightest. -/
def expressionOver (operand : Parser Expr) : Parser Expr :=
  levels.foldr level operand

end Formula.Parser
