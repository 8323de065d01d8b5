import Formula.Proofs.Eval.Machine
import Formula.Proofs.Eval.Views

/-!
# Functions are given as many arguments as they take

The number of arguments is checked in front of them, on the tree, and the function is applied behind them, to
the list of their values. The two numbers are the same, since an evaluation that goes on has a value for each
argument; so whatever has been registered, each function is applied to just as many arguments as it takes
(`Expr.applies_eval`).

It is this on which the bodies of the built-in functions rely (`Builtin.body`): they look up the first argument,
and some of them the second one, whether it is there or not. On a machine none of them ever panics, nor does any
function of the host that gives a value for as many arguments as it was registered with (`applications_fit`).
-/

namespace Formula

/-! ### The bodies of the built-in functions -/

namespace Builtin

/-- The body of a function of one argument. -/
def unaryBody (f : Float → Float) : Body := fun args => do
  let x ← args[0]?
  return f x

/-- The body of a function of two arguments. -/
def binaryBody (f : Float → Float → Float) : Body := fun args => do
  let x ← args[0]?
  let y ← args[1]?
  return f x y

/-- The bodies with their names. -/
def bodies : List (String × Body) :=
  [("max", binaryBody max), ("min", binaryBody min), ("abs", unaryBody Float.abs),
    ("floor", unaryBody Float.floor), ("ceil", unaryBody Float.ceil), ("sqrt", unaryBody Float.sqrt),
    ("exp", unaryBody Float.exp), ("ln", unaryBody Float.log), ("log", unaryBody Float.log10)]

/-- The body of a built-in function; a name that is none has no body that could be run. -/
def body (name : String) : Body :=
  (bodies.lookup name).getD fun _ => none

theorem unaryBody_computes (f : Float → Float) : (unaryBody f).Computes (unary f) := by
  intro args hargs
  obtain ⟨x, rfl⟩ := List.length_eq_one_iff.mp hargs
  rfl

theorem binaryBody_computes (f : Float → Float → Float) : (binaryBody f).Computes (binary f) := by
  intro args hargs
  obtain ⟨x, y, rfl⟩ := List.length_eq_two.mp hargs
  rfl

/-- **The bodies compute the built-in functions.** -/
theorem body_computes {f : String} {g : Callable} (h : (f, g) ∈ all) : (body f).Computes g := by
  simp only [all, List.mem_cons, Prod.mk.injEq, List.not_mem_nil, or_false] at h
  rcases h with ⟨rfl, rfl⟩ | ⟨rfl, rfl⟩ | ⟨rfl, rfl⟩ | ⟨rfl, rfl⟩ | ⟨rfl, rfl⟩ | ⟨rfl, rfl⟩ |
    ⟨rfl, rfl⟩ | ⟨rfl, rfl⟩ | ⟨rfl, rfl⟩
  · exact binaryBody_computes max
  · exact binaryBody_computes min
  all_goals exact unaryBody_computes _

end Builtin

/-! ### Applications -/

variable {α β ε : Type} {registry : Registry} {vars : Environment} {f : String} {g : Callable}
  {xs : List Float}

/-- **The function fits the arguments**: it is the one of the name and takes as many, and if it is a built-in one,
its body finds all that it looks up. -/
structure Registry.Fits (registry : Registry) (f : String) (xs : List Float) (g : Callable) : Prop where
  held : registry.get? f = some g
  length_eq : xs.length = g.arity
  builtin : (f, g) ∈ Builtin.all → Builtin.body f xs = some (g.apply xs)

theorem Registry.fits_iff : registry.Fits f xs g ↔ registry.get? f = some g ∧ xs.length = g.arity :=
  ⟨fun h => ⟨h.held, h.length_eq⟩, fun ⟨hheld, hlength⟩ =>
    ⟨hheld, hlength, fun hmem => Builtin.body_computes hmem xs hlength⟩⟩

theorem Registry.call_eq_ok_iff {x : Float} :
    registry.call f xs = .ok x ↔ ∃ g, registry.Fits f xs g ∧ x = g.apply xs := by
  unfold call
  cases hcallee : registry.callee f xs.length with
  | ok g =>
    obtain ⟨hheld, harity⟩ := callee_eq_ok_iff.mp hcallee
    simp [Except.map, fits_iff, hheld, harity, eq_comm]
  | error err =>
    refine ⟨fun h => (by cases h), ?_⟩
    rintro ⟨g, hfits, -⟩
    rw [callee_eq_ok_iff.mpr ⟨hfits.held, hfits.length_eq.symm⟩] at hcallee
    cases hcallee

/-- **All functions that a run applies fit** the arguments that they are applied to. -/
def Run.Applies (registry : Registry) (run : Run ε α) : Prop :=
  ∀ f xs, .apply f xs ∈ run.steps → ∃ g, registry.Fits f xs g

namespace Run.Applies

theorem of_steps {run : Run ε α} (h : ∀ f xs, .apply f xs ∉ run.steps) : run.Applies registry :=
  fun f xs hmem => absurd hmem (h f xs)

theorem pure (a : α) : (Pure.pure a : Run ε α).Applies registry :=
  of_steps fun _ _ => List.not_mem_nil

theorem bind {run : Run ε α} {next : α → Run ε β} (h : run.Applies registry)
    (hnext : ∀ a, run.result = .ok a → (next a).Applies registry) : (run >>= next).Applies registry := by
  intro f xs hmem
  cases hresult : run.result with
  | error err =>
    rw [Run.bind_of_error hresult] at hmem
    exact h f xs hmem
  | ok a =>
    rw [Run.bind_of_ok hresult] at hmem
    rcases List.mem_append.mp hmem with hmem | hmem
    · exact h f xs hmem
    · exact hnext a hresult f xs hmem

/-- A question with a record of the failure applies nothing. -/
theorem ask {s : Step} (hs : s.isRequest = true) (event : ε → LogEvent) (result : Except ε α) :
    (do Run.step s; Run.recordFailure event result : Run ε α).Applies registry := by
  refine of_steps fun f xs hmem => ?_
  rw [Run.steps_ask, List.mem_singleton] at hmem
  subst hmem
  cases hs

theorem applyTo (h : registry.Fits f xs g) : (g.applyTo f xs).Applies registry := by
  intro f' xs' hmem
  cases List.mem_singleton.mp hmem
  exact ⟨g, h⟩

end Run.Applies

mutual

/-- **An evaluation gives each function as many arguments as it takes.** -/
theorem Expr.applies_eval : ∀ e : Expr, (e.eval registry vars).Applies registry
  | .literal x => .pure x
  | .path p => .ask rfl _ (vars p)
  | .unary _ x => x.applies_eval.bind fun _ _ => .pure _
  | .binary l _ r => l.applies_eval.bind fun _ _ => r.applies_eval.bind fun _ _ => .pure _
  | .call f args => by
    refine Run.Applies.bind (.ask rfl _ (registry.callee f args.length)) fun g hg => ?_
    refine (Expr.applies_evalAll args).bind fun values hvalues => ?_
    have hcallee : registry.callee f args.length = .ok g := (Run.result_ask _ _ _).symm.trans hg
    obtain ⟨hget, harity⟩ := Registry.callee_eq_ok_iff.mp hcallee
    exact .applyTo (Registry.fits_iff.mpr ⟨hget, (Expr.length_evalAll hvalues).trans harity.symm⟩)

theorem Expr.applies_evalAll : ∀ es : List Expr, (Expr.evalAll registry vars es).Applies registry
  | [] => .pure []
  | x :: xs => x.applies_eval.bind fun _ _ => (Expr.applies_evalAll xs).bind fun _ _ => .pure _

end

/-! ### Registries over time -/

namespace Registry

/-- **The bodies behind some changes.** What the host has registered last has a body that computes it from as many
arguments as it takes, and may panic otherwise; all other names have the bodies of the built-in functions. -/
structure Written (changes : List Change) (bodies : Bodies) : Prop where
  host : ∀ f g, IsLast changes (.register f g) → (bodies f).Computes g
  builtin : ∀ f, (∀ c ∈ changes, c.name ≠ f) → bodies f = Builtin.body f

theorem Written.compute {changes : List Change} {bodies : Bodies} (h : Written changes bodies)
    (origin : Origin) : bodies.Compute (origin.registry.after changes) := by
  intro f g hget
  rcases get?_after_eq_some_iff.mp hget with hlast | ⟨hnone, hstart⟩
  · exact h.host f g hlast
  · rw [h.builtin f hnone]
    cases origin with
    | empty => cases hstart
    | builtins => exact Builtin.body_computes (Origin.builtins.get?_registry.mp hstart)

end Registry

/-- **Functions are only called with as many arguments as they take.** Whatever has been registered, all functions
that an evaluation applies fit their arguments, and so does the function of a call; a machine that runs the bodies
never panics, and in room for the height of the tree it does what the evaluation does. -/
theorem applications_fit (origin : Registry.Origin) (changes : List Registry.Change) (bodies : Bodies)
    (hbodies : Registry.Written changes bodies) :
    let r := origin.registry.after changes
    (∀ (e : Expr) (vars : Environment),
      (∀ f xs, .apply f xs ∈ (e.eval r vars).steps → ∃ g, r.Fits f xs g) ∧
      (∀ n, (e.execute bodies r vars n).result ≠ .error .panicked) ∧
      ∀ n, e.height ≤ n → e.execute bodies r vars n = (e.eval r vars).mapError .refused) ∧
    ∀ f xs,
      (∀ x, r.call f xs = .ok x ↔ ∃ g, r.Fits f xs g ∧ x = g.apply xs) ∧
      r.execute bodies f xs = (r.call f xs).mapError .refused := by
  intro r
  have hcompute : bodies.Compute r := hbodies.compute origin
  refine ⟨fun e vars => ⟨e.applies_eval, fun n => ?_, fun n hle => ?_⟩,
    fun f xs => ⟨fun _ => Registry.call_eq_ok_iff, Registry.execute_eq hcompute f xs⟩⟩
  · exact (e.tracks_execute hcompute n).not_panicked
  · exact (e.tracks_execute hcompute n).eq_of_le hle

/-- When the host has put a function of one argument in the place of `max`, `max(min(1, x))` applies `min` to two
arguments and `max` to one, and a machine with room for three nested evaluations does not panic. -/
theorem applications_fit_replaced :
    let first : Callable := ⟨1, fun args => args.headD Decimal.zero⟩
    let changes : List Registry.Change := [.register "max" first]
    let bodies : Bodies := fun f => if f = "max" then fun args => args[0]? else Builtin.body f
    let r := Registry.Origin.builtins.registry.after changes
    let vars : Environment := fun _ => .ok Decimal.zero
    let e : Expr := .call "max" [.call "min" [.literal Decimal.one, .path ["x"]]]
    Registry.Written changes bodies ∧
      Step.apply "max" [Decimal.zero] ∈ (e.eval r vars).steps ∧
      (∃ g, r.Fits "max" [Decimal.zero] g) ∧
      (e.execute bodies r vars 2).result ≠ .error .panicked ∧
      e.execute bodies r vars 3 = (e.eval r vars).mapError .refused := by
  intro first changes bodies r vars e
  have hbodies : Registry.Written changes bodies := by
    refine ⟨?_, fun f hf => ?_⟩
    · rintro f g ⟨before, behind, hchanges, -⟩
      have hmem : .register f g ∈ changes := hchanges ▸ List.mem_append_right _ List.mem_cons_self
      cases List.mem_singleton.mp hmem
      intro args hargs
      obtain ⟨x, rfl⟩ := List.length_eq_one_iff.mp hargs
      rfl
    · exact if_neg (Ne.symm (hf _ (List.mem_singleton_self _)))
  have hmem : Step.apply "max" [Decimal.zero] ∈ (e.eval r vars).steps := by decide +kernel
  obtain ⟨happlies, hpanics, hagrees⟩ := (applications_fit .builtins changes bodies hbodies).1 e vars
  exact ⟨hbodies, hmem, happlies _ _ hmem, hpanics 2, hagrees 3 (by decide)⟩

end Formula
