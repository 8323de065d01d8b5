import Formula.Expr.Basic
import Std.Data.TreeMap

/-!
# Variables and failures

The host resolves variables: an `Environment` answers every path with a value or an error, and
nothing else is known about it.  A `VarMap` is a ready-made environment: a finite map from paths to
values, with an optional value for all other paths.

An expression fails to have a value if a variable cannot be resolved, or if a call names no function
or has the wrong number of arguments.  Arithmetic itself never fails.
-/

namespace Formula

/-! ### Why an expression has no value -/

/-- Why an expression has no value. -/
inductive EvalError where
  /-- A variable without a value, named by its dotted path, and why it has none. -/
  | unresolvedVariable (path : String) (reason : String)
  /-- A call of a name that is no function. -/
  | unknownFunction (name : String)
  /-- A call with another number of arguments than the function takes. -/
  | argumentCount (name : String) (wanted : Nat) (found : Nat)
deriving DecidableEq, Repr

namespace EvalError

/-- The failure to resolve a path. -/
def unresolved (path : Path) (reason : String) : EvalError :=
  .unresolvedVariable (".".intercalate path) reason

/-- The text of the error. -/
def message : EvalError → String
  | .unresolvedVariable path reason => "Unresolved variable '" ++ path ++ "': " ++ reason
  | .unknownFunction name => "Unknown function '" ++ name ++ "'"
  | .argumentCount name wanted found =>
    "Function '" ++ name ++ "' expects " ++ toString wanted ++ " argument(s), found " ++
      toString found

end EvalError

/-! ### Environments -/

/-- What the host answers for a path. -/
abbrev Environment := Path → Except EvalError Float

/-- A finite map from paths to values. -/
structure VarMap where
  /-- The paths that have a value of their own. -/
  values : Std.TreeMap Path Float
  /-- The value of every other path, if there is one. -/
  fallback : Option Float

namespace VarMap

/-- The map without entries. -/
def empty (fallback : Option Float) : VarMap :=
  ⟨∅, fallback⟩

/-- The value that a path has of its own. -/
def get? (m : VarMap) (path : Path) : Option Float :=
  m.values[path]?

/-- Gives a path a value of its own, in place of the one it had. -/
def insert (m : VarMap) (path : Path) (value : Float) : VarMap :=
  { m with values := m.values.insert path value }

/-- The map with the given entries; of two entries for a path the later one counts. -/
def ofList (entries : List (Path × Float)) (fallback : Option Float) : VarMap :=
  entries.foldl (fun m e => m.insert e.1 e.2) (empty fallback)

/-- The number of paths with a value of their own. -/
def size (m : VarMap) : Nat :=
  m.values.size

/-- How the map resolves variables. -/
def environment (m : VarMap) : Environment := fun path =>
  match m.get? path, m.fallback with
  | some x, _ => .ok x
  | none, some x => .ok x
  | none, none => .error (.unresolved path "no such variable")

/-- Only the path that is given a value changes its value. -/
theorem get?_insert (m : VarMap) (path : Path) (value : Float) (q : Path) :
    (m.insert path value).get? q = if path = q then some value else m.get? q := by
  simp [insert, get?, Std.TreeMap.getElem?_insert]

end VarMap

end Formula
