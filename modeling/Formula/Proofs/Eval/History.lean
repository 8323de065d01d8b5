import Formula.Eval.Registry
import Mathlib.Data.List.Induction

/-!
# Registries over time

A host registers functions and takes them away again. Whatever the order of these changes is, a registry
holds under each name what the last change of this name has put there, or what it held at the start if there
is none (`Registry.get?_after`).

The views of a registry are read off what it holds: the names that may be called without arguments are those
of the functions that take none (`mem_nullaryNames`), and a call is refused if the name is unknown or the
number of arguments is another one (`callee_eq_error_iff`).
-/

namespace Formula.Registry

variable {r : Registry} {f : String} {n : Nat} {err : EvalError}

/-! ### Changes -/

/-- A change of a registry. -/
inductive Change where
  /-- Puts a function under a name. -/
  | register (name : String) (f : Callable)
  /-- Takes the function away that a name has. -/
  | unregister (name : String)

namespace Change

/-- The name whose function changes. -/
def name : Change → String
  | .register name _ => name
  | .unregister name => name

/-- The function that the name has behind the change. -/
def function? : Change → Option Callable
  | .register _ f => some f
  | .unregister _ => none

/-- The function that the name had, and the changed registry. -/
def apply : Change → Registry → Option Callable × Registry
  | .register name f, r => r.getThenInsert name f
  | .unregister name, r => r.getThenErase name

/-- **A change concerns its own name**, and leaves all others as they are. -/
theorem get?_apply (c : Change) (r : Registry) (f : String) :
    (c.apply r).2.get? f = if c.name = f then c.function? else r.get? f := by
  cases c with
  | register name g => exact r.get?_insert name g f
  | unregister name => exact r.get?_erase name f

end Change

/-- The registry behind some changes, the first of which comes first. -/
def after (r : Registry) (changes : List Change) : Registry :=
  changes.foldl (fun r c => (c.apply r).2) r

/-- The last change of a name. -/
def lastChange? (changes : List Change) (f : String) : Option Change :=
  changes.reverse.find? (·.name = f)

/-- **A registry holds what the last change has put there.** -/
theorem get?_after (r : Registry) (changes : List Change) (f : String) :
    (r.after changes).get? f = ((lastChange? changes f).map Change.function?).getD (r.get? f) := by
  induction changes using List.reverseRecOn with
  | nil => rfl
  | append_singleton changes c ih =>
    have hafter : r.after (changes ++ [c]) = (c.apply (r.after changes)).2 := by
      rw [after, List.foldl_append]
      rfl
    rw [hafter, c.get?_apply, lastChange?, List.reverse_append, List.reverse_singleton,
      List.singleton_append, List.find?_cons]
    by_cases hc : c.name = f
    · simp [hc]
    · simp only [hc, if_false, decide_false]
      exact ih

/-! ### Views -/

/-- **The names that may be called without arguments** are those of functions that take none. -/
theorem mem_nullaryNames : f ∈ r.nullaryNames ↔ ∃ g, r.get? f = some g ∧ g.arity = 0 := by
  simp [nullaryNames, get?]

theorem contains_eq (r : Registry) (f : String) : r.contains f = (r.get? f).isSome :=
  Std.TreeMap.contains_eq_isSome_getElem?

/-- A call means the function of its name if this takes as many arguments. -/
theorem callee_eq_ok_iff {g : Callable} :
    r.callee f n = .ok g ↔ r.get? f = some g ∧ g.arity = n := by
  unfold callee
  cases r.get? f with
  | none => simp
  | some h =>
    dsimp only
    split_ifs with hn
    · simp only [Except.ok.injEq, Option.some.injEq]
      exact ⟨fun hg => ⟨hg, hg ▸ hn⟩, And.left⟩
    · refine ⟨fun herr => (by cases herr), ?_⟩
      rintro ⟨hg, harity⟩
      cases hg
      exact absurd harity hn

/-- **A call is refused** if the name is unknown, or if its function takes another number of arguments. -/
theorem callee_eq_error_iff : r.callee f n = .error err ↔
    r.get? f = none ∧ err = .unknownFunction f ∨
      ∃ g, r.get? f = some g ∧ g.arity ≠ n ∧ err = .argumentCount f g.arity n := by
  unfold callee
  cases r.get? f with
  | none => simp [eq_comm]
  | some g =>
    dsimp only
    split_ifs with hn
    · simp [hn]
    · have herr : (.error (.argumentCount f g.arity n) : Except EvalError Callable) = .error err ↔
          err = .argumentCount f g.arity n := by
        rw [Except.error.injEq, eq_comm]
      simp [hn, herr]

end Formula.Registry
