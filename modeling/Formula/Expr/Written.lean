import Formula.Decimal.Layout
import Formula.Expr.Basic

/-!
# Writing expressions

The written form of a tree puts every operator between parentheses and the root of every path
between square brackets, so that it reads back as the same tree whatever the precedences are.
-/

namespace Formula

/-- A path with its root between brackets and the other segments behind points. -/
def Path.display : Path → String
  | [] => ""
  | root :: names => "[" ++ root ++ "]" ++ String.join (names.map ("." ++ ·))

mutual

/-- The written form of an expression. -/
def Expr.display : Expr → String
  | .literal x => Decimal.display x
  | .path p => Path.display p
  | .unary op x => "(" ++ op.symbol ++ x.display ++ ")"
  | .binary l op r => "(" ++ l.display ++ " " ++ op.symbol ++ " " ++ r.display ++ ")"
  | .call f args => f ++ "(" ++ Expr.displayArgs args ++ ")"

/-- The written forms of arguments, separated by commas. -/
def Expr.displayArgs : List Expr → String
  | [] => ""
  | x :: xs => x.display ++ Expr.displayMore xs

/-- The written forms of further arguments, each behind a comma. -/
def Expr.displayMore : List Expr → String
  | [] => ""
  | x :: xs => ", " ++ x.display ++ Expr.displayMore xs

end

/-- The written form of an assignment. -/
def Assignment.display (a : Assignment) : String :=
  Path.display a.destination ++ " = " ++ a.value.display

end Formula
