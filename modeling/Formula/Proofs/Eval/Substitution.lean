import Formula.Eval.Basic
import Formula.Eval.Builtin
import Mathlib.Data.List.Basic

/-!
# Assigning and substituting

An assignment evaluates an expression, and the host stores the value under a path. To read the path
afterwards is then to read the expression before: an evaluation behind the assignment comes to what the tree
comes to in front of it when the expression stands wherever the tree reads the path (`eval_behind_assignment`).
It is the value and the errors that agree, not the steps, since the expression is evaluated once in the one
case and as often as the path is read in the other.

A path is one key as a whole. So the paths that begin like it, or that it begins like, are not concerned.
-/

namespace Formula

variable {registry : Registry} {vars vars' : Environment} {d p : Path} {v e : Expr} {x : Float}

/-! ### Substitution -/

mutual

/-- The tree with `v` wherever it reads the path `d`. -/
def Expr.replace (d : Path) (v : Expr) : Expr → Expr
  | .literal x => .literal x
  | .path p => if p = d then v else .path p
  | .unary op x => .unary op (Expr.replace d v x)
  | .binary l op r => .binary (Expr.replace d v l) op (Expr.replace d v r)
  | .call f args => .call f (Expr.replaceAll d v args)

/-- The trees with `v` wherever they read the path `d`. -/
def Expr.replaceAll (d : Path) (v : Expr) : List Expr → List Expr
  | [] => []
  | x :: xs => Expr.replace d v x :: Expr.replaceAll d v xs

end

theorem Expr.length_replaceAll (d : Path) (v : Expr) (es : List Expr) :
    (Expr.replaceAll d v es).length = es.length := by
  induction es with
  | nil => rfl
  | cons x xs ih => rw [replaceAll, List.length_cons, List.length_cons, ih]

/-! ### Results -/

/-- The result of a sequence depends on the runs only by their results. -/
theorem Run.result_bind_congr {ε α β : Type} {r r' : Run ε α} {f f' : α → Run ε β}
    (hr : r.result = r'.result) (hf : ∀ a, (f a).result = (f' a).result) :
    (r >>= f).result = (r' >>= f').result := by
  cases h : r.result with
  | error err => rw [bind_of_error h, bind_of_error (hr.symm.trans h)]
  | ok a =>
    rw [bind_of_ok h, bind_of_ok (hr.symm.trans h)]
    exact hf a

theorem Environment.result_lookup (vars : Environment) (p : Path) :
    (vars.lookup p).result = vars p := by
  unfold lookup
  cases h : vars p <;> rfl

mutual

/-- **Where `d` has the value of `v`**, a tree comes to what it comes to with `v` in the place of `d`. A call
is checked by its number of arguments, which stays the same. -/
theorem Expr.result_replace (hv : (v.eval registry vars).result = .ok x)
    (hvars : ∀ p, vars' p = if p = d then .ok x else vars p) : ∀ e : Expr,
    (e.eval registry vars').result = ((Expr.replace d v e).eval registry vars).result
  | .literal _ => rfl
  | .path p => by
    rw [eval, Environment.result_lookup, hvars, replace]
    by_cases hp : p = d
    · rw [if_pos hp, if_pos hp, hv]
    · rw [if_neg hp, if_neg hp, eval, Environment.result_lookup]
  | .unary _ y => Run.result_bind_congr (y.result_replace hv hvars) fun _ => rfl
  | .binary l _ r => Run.result_bind_congr (l.result_replace hv hvars) fun _ =>
    Run.result_bind_congr (r.result_replace hv hvars) fun _ => rfl
  | .call f args => by
    rw [eval, replace, eval, Expr.length_replaceAll]
    refine Run.result_bind_congr rfl fun g => ?_
    exact Run.result_bind_congr (Expr.result_replaceAll hv hvars args) fun _ => rfl

theorem Expr.result_replaceAll (hv : (v.eval registry vars).result = .ok x)
    (hvars : ∀ p, vars' p = if p = d then .ok x else vars p) : ∀ es : List Expr,
    (Expr.evalAll registry vars' es).result =
      (Expr.evalAll registry vars (Expr.replaceAll d v es)).result
  | [] => rfl
  | y :: ys => Run.result_bind_congr (y.result_replace hv hvars) fun _ =>
    Run.result_bind_congr (Expr.result_replaceAll hv hvars ys) fun _ => rfl

end

/-! ### Assignments -/

/-- A table resolves the path that it is given a value for, and every other one as before. -/
theorem VarMap.environment_insert (table : VarMap) (d : Path) (x : Float) (p : Path) :
    (table.insert d x).environment p = if p = d then .ok x else table.environment p := by
  unfold environment
  rw [get?_insert]
  by_cases hp : p = d
  · rw [if_pos hp, if_pos hp.symm]
  · rw [if_neg hp, if_neg (Ne.symm hp)]
    rfl

/-- An assignment has a value if its expression has, and it is to be stored under its path. -/
theorem Assignment.eval_eq_ok {a : Assignment} {b : Binding}
    (h : (a.eval registry vars).result = .ok b) :
    b.path = a.destination ∧ (a.value.eval registry vars).result = .ok b.value := by
  unfold eval at h
  cases hx : (a.value.eval registry vars).result with
  | error err =>
    rw [Run.bind_of_error hx] at h
    cases h
  | ok x =>
    rw [Run.bind_of_ok hx] at h
    cases h
    exact ⟨rfl, rfl⟩

/-- **Assigning is substituting.** If an assignment has a value and this is stored, every tree comes to what
it came to before with the expression in the place of the path, be it a value or an error; all other paths
resolve as before, and the substitution leaves them alone. -/
theorem eval_behind_assignment (registry : Registry) (table : VarMap) (a : Assignment) (b : Binding)
    (h : (a.eval registry table.environment).result = .ok b) :
    let behind := table.insert b.path b.value
    b.path = a.destination ∧
      (∀ e : Expr, (e.eval registry behind.environment).result =
        ((Expr.replace a.destination a.value e).eval registry table.environment).result) ∧
      ∀ p, p ≠ a.destination → behind.environment p = table.environment p ∧
        Expr.replace a.destination a.value (.path p) = .path p := by
  intro behind
  obtain ⟨hpath, hvalue⟩ := Assignment.eval_eq_ok h
  have hbehind : ∀ p, behind.environment p =
      if p = a.destination then .ok b.value else table.environment p := by
    intro p
    rw [table.environment_insert, hpath]
  refine ⟨hpath, Expr.result_replace hvalue hbehind, fun p hp => ⟨?_, ?_⟩⟩
  · rw [hbehind, if_neg hp]
  · rw [Expr.replace, if_neg hp]

/-- Behind `x.y = x.y + x` the tree `max(x.y, x) + x.y.z` reads the new value of `x.y` and the old ones of `x`
and of `x.y.z`, the one by an entry and the other by the fallback. -/
theorem eval_behind_assignment_nested :
    let table := VarMap.ofList [(["x"], Decimal.one), (["x", "y"], Decimal.one)] (some Decimal.zero)
    let a : Assignment := ⟨["x", "y"], .binary (.path ["x", "y"]) .add (.path ["x"])⟩
    let e : Expr := .binary (.call "max" [.path ["x", "y"], .path ["x"]]) .add (.path ["x", "y", "z"])
    let two := Decimal.one + Decimal.one
    (a.eval Registry.builtins table.environment).result = .ok ⟨["x", "y"], two⟩ ∧
      (e.eval Registry.builtins (table.insert ["x", "y"] two).environment).result = .ok two ∧
      ((Expr.replace a.destination a.value e).eval Registry.builtins table.environment).result =
        .ok two := by
  intro table a e two
  have ha : (a.eval Registry.builtins table.environment).result = .ok ⟨["x", "y"], two⟩ := by
    decide +kernel
  have he : (e.eval Registry.builtins (table.insert ["x", "y"] two).environment).result = .ok two := by
    decide +kernel
  have hreplace := (eval_behind_assignment Registry.builtins table a _ ha).2.1 e
  exact ⟨ha, he, hreplace.symm.trans he⟩

end Formula
