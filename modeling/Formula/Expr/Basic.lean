/-!
# Expressions and assignments

The tree of a formula: numbers, paths of names, operators with one and with two operands, and calls
of functions.  An `Assignment` names the path that is to receive the value of an expression.

The symbols of the operators are given once, in `UnaryOp.symbol` and `BinaryOp.symbol`; reading a
symbol back is a search among all operators.
-/

namespace Formula

/-- The segments of a dotted name. -/
abbrev Path := List String

/-- The operators that stand before their operand. -/
inductive UnaryOp where
  | not
  | negate
  | plus
deriving DecidableEq, Repr

/-- The operators that stand between their operands. -/
inductive BinaryOp where
  | or
  | and
  | equal
  | notEqual
  | less
  | lessEqual
  | greater
  | greaterEqual
  | add
  | subtract
  | multiply
  | divide
  | power
deriving DecidableEq, Repr

/-! ### Symbols -/

/-- How an operator is written. -/
def UnaryOp.symbol : UnaryOp → String
  | .not => "!"
  | .negate => "-"
  | .plus => "+"

/-- How an operator is written. -/
def BinaryOp.symbol : BinaryOp → String
  | .or => "||"
  | .and => "&&"
  | .equal => "=="
  | .notEqual => "!="
  | .less => "<"
  | .lessEqual => "<="
  | .greater => ">"
  | .greaterEqual => ">="
  | .add => "+"
  | .subtract => "-"
  | .multiply => "*"
  | .divide => "/"
  | .power => "^"

/-- The operators with one operand. -/
def UnaryOp.all : List UnaryOp := [.not, .negate, .plus]

/-- The operators with two operands, from the loosest to the tightest. -/
def BinaryOp.all : List BinaryOp :=
  [.or, .and, .equal, .notEqual, .less, .lessEqual, .greater, .greaterEqual, .add, .subtract,
    .multiply, .divide, .power]

/-- The operator that a symbol writes before an operand. -/
def UnaryOp.ofSymbol? (s : String) : Option UnaryOp :=
  UnaryOp.all.find? (·.symbol = s)

/-- The operator that a symbol writes between two operands. -/
def BinaryOp.ofSymbol? (s : String) : Option BinaryOp :=
  BinaryOp.all.find? (·.symbol = s)

theorem UnaryOp.ofSymbol?_eq_some_iff {s : String} {op : UnaryOp} :
    UnaryOp.ofSymbol? s = some op ↔ op.symbol = s := by
  constructor
  · intro h
    simpa using List.find?_some h
  · rintro rfl
    cases op <;> rfl

theorem BinaryOp.ofSymbol?_eq_some_iff {s : String} {op : BinaryOp} :
    BinaryOp.ofSymbol? s = some op ↔ op.symbol = s := by
  constructor
  · intro h
    simpa using List.find?_some h
  · rintro rfl
    cases op <;> rfl

/-! ### Trees -/

/-- An expression. -/
inductive Expr where
  /-- A number. -/
  | literal (value : Float)
  /-- A variable, resolved as a whole. -/
  | path (segments : Path)
  /-- An operator before its operand. -/
  | unary (op : UnaryOp) (operand : Expr)
  /-- An operator between its operands. -/
  | binary (left : Expr) (op : BinaryOp) (right : Expr)
  /-- A function applied to arguments. -/
  | call (name : String) (args : List Expr)

/-- The value of an expression, to be stored under a path. -/
structure Assignment where
  /-- The path that receives the value. -/
  destination : Path
  /-- The expression that gives it. -/
  value : Expr

/-! ### Equality

Trees are compared node by node, with a test for the numbers at the leaves as a parameter.  With the
comparison of numbers as numbers the two zeros are equal and a tree that holds a number that is no
number is not even equal to itself: this is `Expr.same`.  With equality of the bits it decides
`=`. -/

mutual

/-- Whether two expressions have the same shape, with numbers that `eq` takes for equal. -/
def Expr.sameBy (eq : Float → Float → Bool) : Expr → Expr → Bool
  | .literal x, .literal y => eq x y
  | .path p, .path q => p = q
  | .unary o x, .unary u y => o = u && Expr.sameBy eq x y
  | .binary l o r, .binary m u s => Expr.sameBy eq l m && o = u && Expr.sameBy eq r s
  | .call f xs, .call g ys => f = g && Expr.sameByAll eq xs ys
  | _, _ => false

/-- Whether two lists of expressions agree entry by entry. -/
def Expr.sameByAll (eq : Float → Float → Bool) : List Expr → List Expr → Bool
  | [], [] => true
  | x :: xs, y :: ys => Expr.sameBy eq x y && Expr.sameByAll eq xs ys
  | _, _ => false

end

/-- Whether two expressions have the same shape and equal numbers. -/
def Expr.same (a b : Expr) : Bool :=
  Expr.sameBy (· == ·) a b

mutual

/-- Trees of the same shape with the same bits at the leaves are equal. -/
theorem Expr.sameBy_iff : ∀ a b : Expr, Expr.sameBy (fun x y => x = y) a b = true ↔ a = b
  | .literal x, b => by cases b <;> simp [Expr.sameBy]
  | .path p, b => by cases b <;> simp [Expr.sameBy]
  | .unary o x, b => by
    cases b with
    | unary u y => simp [Expr.sameBy, Expr.sameBy_iff x y]
    | _ => simp [Expr.sameBy]
  | .binary l o r, b => by
    cases b with
    | binary m u s => simp [Expr.sameBy, Expr.sameBy_iff l m, Expr.sameBy_iff r s, and_assoc]
    | _ => simp [Expr.sameBy]
  | .call f xs, b => by
    cases b with
    | call g ys => simp [Expr.sameBy, Expr.sameByAll_iff xs ys]
    | _ => simp [Expr.sameBy]

/-- Lists of trees that agree entry by entry are equal. -/
theorem Expr.sameByAll_iff :
    ∀ as bs : List Expr, Expr.sameByAll (fun x y => x = y) as bs = true ↔ as = bs
  | [], bs => by cases bs <;> simp [Expr.sameByAll]
  | a :: as, bs => by
    cases bs with
    | nil => simp [Expr.sameByAll]
    | cons b bs => simp [Expr.sameByAll, Expr.sameBy_iff a b, Expr.sameByAll_iff as bs]

end

instance : DecidableEq Expr := fun a b => decidable_of_iff _ (Expr.sameBy_iff a b)

deriving instance DecidableEq for Assignment

end Formula
