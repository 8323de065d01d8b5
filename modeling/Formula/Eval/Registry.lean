import Formula.Eval.Environment
import Formula.Expr.Occurrences
import Std.Data.TreeMap

/-!
# The functions that may be called

A `Registry` maps names to functions with a fixed number of arguments.  Whether a call is admissible
is decided by `callee`, before any argument is evaluated; `names` and `nullaryNames` are views of the
registry, in the order of the names.

The calls of an expression can be checked without evaluating it.  They are in order if every
function is known and every call has the right number of arguments.  Unknown names are reported
first, so that a misspelt name is not hidden behind a wrong number of arguments elsewhere; among
faults of one kind the leftmost is reported.
-/

namespace Formula

/-- A function: how many arguments it takes, and what it makes of them. -/
structure Callable where
  /-- The number of arguments. -/
  arity : Nat
  /-- The value at a list of arguments; only lists of length `arity` matter. -/
  apply : List Float → Float

/-- The functions that are known by name. -/
structure Registry where
  /-- The functions under their names. -/
  functions : Std.TreeMap String Callable

namespace Registry

/-- The registry without functions. -/
def empty : Registry := ⟨∅⟩

/-- The function with a given name. -/
def get? (r : Registry) (name : String) : Option Callable :=
  r.functions[name]?

/-- Whether there is a function with a given name. -/
def contains (r : Registry) (name : String) : Bool :=
  r.functions.contains name

/-- Puts a function under a name, in place of the one it had. -/
def insert (r : Registry) (name : String) (f : Callable) : Registry :=
  ⟨r.functions.insert name f⟩

/-- Takes the function away that a name has. -/
def erase (r : Registry) (name : String) : Registry :=
  ⟨r.functions.erase name⟩

/-- The function that a name had, and the registry with another one in its place. -/
def getThenInsert (r : Registry) (name : String) (f : Callable) : Option Callable × Registry :=
  (r.get? name, r.insert name f)

/-- The function that a name had, and the registry without it. -/
def getThenErase (r : Registry) (name : String) : Option Callable × Registry :=
  (r.get? name, r.erase name)

/-- The names in increasing order. -/
def names (r : Registry) : List String :=
  r.functions.keys

/-- The names of the functions without arguments, in increasing order. -/
def nullaryNames (r : Registry) : List String :=
  (r.functions.toList.filter (·.2.arity = 0)).map (·.1)

/-- **The function that a call means**, if the name is known and the number of arguments fits. -/
def callee (r : Registry) (name : String) (found : Nat) : Except EvalError Callable :=
  match r.get? name with
  | none => .error (.unknownFunction name)
  | some f =>
    if f.arity = found then .ok f else .error (.argumentCount name f.arity found)

/-- The value of a function at given arguments. -/
def call (r : Registry) (name : String) (args : List Float) : Except EvalError Float :=
  (r.callee name args.length).map (·.apply args)

/-! ### What the changes do -/

/-- Only the name that is given a function changes its function. -/
theorem get?_insert (r : Registry) (name : String) (f : Callable) (other : String) :
    (r.insert name f).get? other = if name = other then some f else r.get? other := by
  simp [insert, get?, Std.TreeMap.getElem?_insert]

/-- Only the name that loses its function changes its function. -/
theorem get?_erase (r : Registry) (name other : String) :
    (r.erase name).get? other = if name = other then none else r.get? other := by
  simp [erase, get?, Std.TreeMap.getElem?_erase]

end Registry

/-! ### Checking calls without evaluating -/

/-- The first of the names without a function is an error. -/
def Registry.checkNames (r : Registry) : List String → Except EvalError Unit
  | [] => .ok ()
  | name :: names =>
    if r.contains name then r.checkNames names else .error (.unknownFunction name)

/-- The first of the calls that is not admissible is an error. -/
def Registry.checkCalls (r : Registry) : List (String × Nat) → Except EvalError Unit
  | [] => .ok ()
  | (name, found) :: calls => do
    let _ ← r.callee name found
    r.checkCalls calls

/-- **Checks all calls of an expression**: first the names, then the numbers of arguments. -/
def Expr.check (r : Registry) (e : Expr) : Except EvalError Unit := do
  r.checkNames e.functions
  r.checkCalls e.calls

end Formula
