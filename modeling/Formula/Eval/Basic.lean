import Formula.Eval.Environment
import Formula.Eval.Registry
import Formula.Eval.Run
import Formula.Eval.Value

/-!
# The values of expressions

Operands are evaluated from left to right and none is left out: the logical operators, too, evaluate
both of their operands.  A call is checked before its arguments are evaluated.  The first failure
ends the evaluation, and it is recorded where it arises.
-/

namespace Formula

/-! ### Steps -/

/-- Asks the environment for the value of a path. -/
def Environment.lookup (vars : Environment) (path : Path) : Run EvalError Float := do
  Run.step (.lookup path)
  Run.recordFailure .lookupFailed (vars path)

/-- Checks a call and finds its function. -/
def Registry.admit (r : Registry) (name : String) (found : Nat) : Run EvalError Callable := do
  Run.step (.check name found)
  Run.recordFailure .callRejected (r.callee name found)

/-- Applies a function to the values of its arguments. -/
def Callable.applyTo (f : Callable) (name : String) (args : List Float) : Run EvalError Float := do
  Run.step (.apply name args)
  return f.apply args

/-! ### Expressions -/

mutual

/-- **The value of an expression**, with all that its evaluation does. -/
def Expr.eval (registry : Registry) (vars : Environment) : Expr → Run EvalError Float
  | .literal x => return x
  | .path p => vars.lookup p
  | .unary op operand => do
    let x ← operand.eval registry vars
    return op.apply x
  | .binary left op right => do
    let x ← left.eval registry vars
    let y ← right.eval registry vars
    return op.apply x y
  | .call name args => do
    let f ← registry.admit name args.length
    let values ← Expr.evalAll registry vars args
    f.applyTo name values

/-- The values of a list of expressions, from left to right. -/
def Expr.evalAll (registry : Registry) (vars : Environment) :
    List Expr → Run EvalError (List Float)
  | [] => return []
  | e :: es => do
    let x ← e.eval registry vars
    let xs ← Expr.evalAll registry vars es
    return x :: xs

end

/-! ### Assignments -/

/-- A path and the value that it is to receive.  To store it is up to the host. -/
structure Binding where
  /-- The path. -/
  path : Path
  /-- The value. -/
  value : Float
deriving DecidableEq

/-- The value of an assignment's expression, for the path of the assignment. -/
def Assignment.eval (registry : Registry) (vars : Environment) (a : Assignment) :
    Run EvalError Binding := do
  let x ← a.value.eval registry vars
  return ⟨a.destination, x⟩

end Formula
