import Formula.Expr.Basic

/-!
# What occurs in an expression

The paths that an expression reads and the functions that it calls, each once, in the order in which
they first appear from left to right.  A function appears before its arguments.
-/

namespace Formula

/-- The elements of a list, each at its first place only. -/
def firstAppearances {α : Type} [BEq α] : List α → List α
  | [] => []
  | a :: as => a :: (firstAppearances as).filter (fun b => !(b == a))

namespace Expr

mutual

/-- All occurrences of paths, from left to right. -/
def pathOccurrences : Expr → List Path
  | .literal _ => []
  | .path p => [p]
  | .unary _ x => x.pathOccurrences
  | .binary l _ r => l.pathOccurrences ++ r.pathOccurrences
  | .call _ args => pathOccurrencesAll args

/-- All occurrences of paths in a list of expressions. -/
def pathOccurrencesAll : List Expr → List Path
  | [] => []
  | x :: xs => x.pathOccurrences ++ pathOccurrencesAll xs

end

mutual

/-- All calls, from left to right: the name and the number of arguments of each. -/
def calls : Expr → List (String × Nat)
  | .literal _ => []
  | .path _ => []
  | .unary _ x => x.calls
  | .binary l _ r => l.calls ++ r.calls
  | .call f args => (f, args.length) :: callsAll args

/-- All calls in a list of expressions. -/
def callsAll : List Expr → List (String × Nat)
  | [] => []
  | x :: xs => x.calls ++ callsAll xs

end

/-- **The paths that an expression reads.** -/
def paths (e : Expr) : List Path :=
  firstAppearances e.pathOccurrences

/-- **The names of the functions that an expression calls.** -/
def functions (e : Expr) : List String :=
  firstAppearances (e.calls.map Prod.fst)

end Expr

/-- The paths that an assignment reads; the destination is written, not read. -/
def Assignment.paths (a : Assignment) : List Path :=
  a.value.paths

end Formula
