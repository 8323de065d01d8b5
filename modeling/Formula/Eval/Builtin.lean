import Formula.Decimal.Binary64
import Formula.Eval.Registry

/-!
# The functions that are always there

`max`, `min`, `abs`, `floor`, `ceil`, `sqrt`, `exp`, `ln` (the natural logarithm) and `log` (the
logarithm to base ten).
-/

namespace Formula

namespace Builtin

/-- A function of one argument. -/
def unary (f : Float → Float) : Callable where
  arity := 1
  apply args :=
    match args with
    | [x] => f x
    | _ => Decimal.notANumber

/-- A function of two arguments. -/
def binary (f : Float → Float → Float) : Callable where
  arity := 2
  apply args :=
    match args with
    | [x, y] => f x y
    | _ => Decimal.notANumber

/-- The greater of two numbers, where an operand that is no number does not count. -/
def max (x y : Float) : Float :=
  if x.isNaN then y else if y.isNaN then x else if x < y then y else x

/-- The smaller of two numbers, where an operand that is no number does not count. -/
def min (x y : Float) : Float :=
  if x.isNaN then y else if y.isNaN then x else if y < x then y else x

/-- The functions with their names. -/
def all : List (String × Callable) :=
  [("max", binary max), ("min", binary min), ("abs", unary Float.abs),
    ("floor", unary Float.floor), ("ceil", unary Float.ceil), ("sqrt", unary Float.sqrt),
    ("exp", unary Float.exp), ("ln", unary Float.log), ("log", unary Float.log10)]

end Builtin

/-- The registry with the functions that are always there. -/
def Registry.builtins : Registry :=
  Builtin.all.foldl (fun r f => r.insert f.1 f.2) Registry.empty

end Formula
