import Formula.Expr.Written
import Formula.Proofs.Token.Spelling

/-!
# Trees that can be written

Not every tree has a written form that reads back: a path may be empty, the root of a path may hold the
bracket that closes it, a name may be no name, a number may have a sign. `Expr.isWellFormed` asks for
what the written form needs at each node, and no more.

The written form puts parentheses around every operator, and these cost levels of nesting.
`Expr.writtenDepth` counts them: two for an operator before its operand, and two for the right operand
of an operator between two, where the left one costs one.
-/

namespace Formula

/-- Whether a path has a root without a closing bracket, and names behind it. -/
def Path.isWellFormed : Path → Bool
  | [] => false
  | root :: names => !root.toList.contains ']' && names.all Item.isIdentifier

mutual

/-- Whether the written form of a tree stands for it. -/
def Expr.isWellFormed (nullary : List String) : Expr → Bool
  | .literal x => x.isFinite && !Decimal.isNegative x
  | .path p => Path.isWellFormed p
  | .unary _ x => x.isWellFormed nullary
  | .binary l _ r => l.isWellFormed nullary && r.isWellFormed nullary
  | .call f args =>
    Item.isIdentifier f && (!args.isEmpty || nullary.contains f) &&
      Expr.areWellFormed nullary args

/-- Whether all trees of a list are well-formed. -/
def Expr.areWellFormed (nullary : List String) : List Expr → Bool
  | [] => true
  | x :: xs => x.isWellFormed nullary && Expr.areWellFormed nullary xs

end

/-- Whether both sides of an assignment are well-formed. -/
def Assignment.isWellFormed (nullary : List String) (a : Assignment) : Bool :=
  Path.isWellFormed a.destination && a.value.isWellFormed nullary

mutual

/-- The levels of nesting that the written form of a tree takes. -/
def Expr.writtenDepth : Expr → ℕ
  | .literal _ => 1
  | .path _ => 1
  | .unary _ x => 2 + x.writtenDepth
  | .binary l _ r => max (1 + l.writtenDepth) (2 + r.writtenDepth)
  | .call _ args => 1 + Expr.writtenDepthAll args

/-- The greatest number of levels in a list of trees. -/
def Expr.writtenDepthAll : List Expr → ℕ
  | [] => 0
  | x :: xs => max x.writtenDepth (Expr.writtenDepthAll xs)

end

/-! ### The characters of the written form -/

namespace Expr

theorem toList_unary (op : UnaryOp) (x : Expr) : (Expr.unary op x).display.toList =
    ['('] ++ (op.symbol.toList ++ (x.display.toList ++ [')'])) := by
  simp [display]

theorem toList_binary (l : Expr) (op : BinaryOp) (r : Expr) :
    (Expr.binary l op r).display.toList = ['('] ++ (l.display.toList ++ ([' '] ++
      (op.symbol.toList ++ ([' '] ++ (r.display.toList ++ [')']))))) := by
  simp [display]

theorem toList_call (f : String) (args : List Expr) : (Expr.call f args).display.toList =
    f.toList ++ (['('] ++ ((displayArgs args).toList ++ [')'])) := by
  simp [display]

theorem toList_displayArgs (x : Expr) (xs : List Expr) :
    (displayArgs (x :: xs)).toList = x.display.toList ++ (displayMore xs).toList := by
  simp [displayArgs]

theorem toList_displayMore (x : Expr) (xs : List Expr) : (displayMore (x :: xs)).toList =
    [','] ++ ([' '] ++ (x.display.toList ++ (displayMore xs).toList)) := by
  simp [displayMore]

end Expr

theorem Path.toList_display (root : String) (names : List String) :
    (Path.display (root :: names)).toList =
      ('[' :: (root.toList ++ [']'])) ++ names.flatMap fun name => '.' :: name.toList := by
  simp [Path.display, List.flatMap_map]

theorem Assignment.toList_display (a : Assignment) : a.display.toList =
    (Path.display a.destination).toList ++ ([' '] ++ (['='] ++ ([' '] ++ a.value.display.toList))) := by
  simp [Assignment.display]

end Formula
