import Formula.Decimal.Binary64
import Formula.Expr.Basic

/-!
# Values and operators

Every value is a double.  Truth is encoded in numbers: comparisons and logical operators give one or
zero, and every operand but zero counts as true, also one that is no number.
-/

namespace Formula

namespace Value

/-- The number that stands for a truth value. -/
def ofBool (b : Bool) : Float :=
  if b then Decimal.one else Decimal.zero

/-- Whether a number counts as true. -/
def isTrue (x : Float) : Bool :=
  x != Decimal.zero

end Value

/-- The value of an operator at its operand. -/
def UnaryOp.apply (op : UnaryOp) (x : Float) : Float :=
  match op with
  | .not => Value.ofBool (x == Decimal.zero)
  | .negate => -x
  | .plus => x

/-- The value of an operator at its operands. -/
def BinaryOp.apply (op : BinaryOp) (x y : Float) : Float :=
  match op with
  | .or => Value.ofBool (Value.isTrue x || Value.isTrue y)
  | .and => Value.ofBool (Value.isTrue x && Value.isTrue y)
  | .equal => Value.ofBool (x == y)
  | .notEqual => Value.ofBool (x != y)
  | .less => Value.ofBool (x < y)
  | .lessEqual => Value.ofBool (x ≤ y)
  | .greater => Value.ofBool (y < x)
  | .greaterEqual => Value.ofBool (y ≤ x)
  | .add => x + y
  | .subtract => x - y
  | .multiply => x * y
  | .divide => x / y
  | .power => Float.pow x y

end Formula
