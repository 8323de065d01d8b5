import Formula.Proofs.Eval.History
import Formula.Proofs.Eval.Steps
import Formula.Proofs.Grammar.Height

/-!
# Evaluation on a machine

`Expr.eval` is a function on trees, and so it has a value or an error for every tree. A machine that evaluates
may end in two more ways. It has room for a number of nested evaluations only, one for each node on the way down
from the root, and a function is a piece of code that looks its arguments up by their places and panics where
there is none (`Body`). `Expr.execute` is the evaluation with both of these in it.

Where the bodies of the functions compute the functions of the registry from as many arguments as these take,
the machine never panics, and it does what `Expr.eval` does unless it runs out of room; an evaluation that has a
value needs room for just the height of its tree (`Expr.tracks_execute`).
-/

namespace Formula

/-! ### The machine -/

/-- Why a machine ends without a value. -/
inductive Stop where
  /-- There is no value. -/
  | refused (error : EvalError)
  /-- A function looked for an argument that is not there. -/
  | panicked
  /-- There is no room for one more evaluation inside the others. -/
  | exhausted
deriving DecidableEq

/-- The body of a function: its value at a list of arguments, or `none` for the panic at an argument that is not
there. -/
abbrev Body := List Float → Option Float

/-- The bodies of the functions, by their names. -/
abbrev Bodies := String → Body

/-- The body has the values of the function wherever the number of arguments is right. -/
def Body.Computes (body : Body) (g : Callable) : Prop :=
  ∀ args, args.length = g.arity → body args = some (g.apply args)

/-- The bodies compute the functions of a registry. -/
def Bodies.Compute (bodies : Bodies) (registry : Registry) : Prop :=
  ∀ f g, registry.get? f = some g → (bodies f).Computes g

/-- What the body comes to at given arguments. -/
def Body.outcome (body : Body) (args : List Float) : Except Stop Float :=
  (body args).elim (.error .panicked) .ok

/-- Runs the body of a function. -/
def Body.execute (body : Body) (name : String) (args : List Float) : Run Stop Float := do
  Run.step (.apply name args)
  Run.ofExcept (body.outcome args)

/-- Spends one of `n` nested calls on a piece of work, which has the others. Where there is none to be spent the
answer is `stop`. -/
def nest {β : Type} (stop : β) (n : ℕ) (work : ℕ → β) : β :=
  match n with
  | 0 => stop
  | n + 1 => work n

/-- The end of a run for which there is no room. -/
def Run.exhausted {α : Type} : Run Stop α :=
  Run.ofExcept (.error .exhausted)

mutual

/-- **An evaluation on a machine** with room for `n` nested evaluations. -/
def Expr.execute (bodies : Bodies) (registry : Registry) (vars : Environment) :
    Expr → ℕ → Run Stop Float
  | .literal x, n => nest .exhausted n fun _ => return x
  | .path p, n => nest .exhausted n fun _ => (vars.lookup p).mapError .refused
  | .unary op operand, n => nest .exhausted n fun n => do
    let x ← operand.execute bodies registry vars n
    return op.apply x
  | .binary left op right, n => nest .exhausted n fun n => do
    let x ← left.execute bodies registry vars n
    let y ← right.execute bodies registry vars n
    return op.apply x y
  | .call name args, n => nest .exhausted n fun n => do
    let _ ← Run.mapError .refused <| registry.admit name args.length
    let values ← Expr.executeAll bodies registry vars args n
    (bodies name).execute name values

/-- The values of a list of expressions. -/
def Expr.executeAll (bodies : Bodies) (registry : Registry) (vars : Environment) :
    List Expr → ℕ → Run Stop (List Float)
  | [], _ => return []
  | e :: es, n => do
    let x ← e.execute bodies registry vars n
    let xs ← Expr.executeAll bodies registry vars es n
    return x :: xs

end

/-- A call of a function on a machine. -/
def Registry.execute (bodies : Bodies) (r : Registry) (name : String) (args : List Float) :
    Except Stop Float := do
  let _ ← (r.callee name args.length).mapError .refused
  (bodies name).outcome args

/-! ### Runs of evaluations -/

variable {α β : Type} {registry : Registry} {vars : Environment} {bodies : Bodies} {f : String} {n d d' : ℕ}
  {g : Callable} {e : Expr} {es : List Expr} {xs : List Float}

/-- An error of a sequence is seen as a wider one in both of its parts. -/
theorem Run.mapError_bind {ε ε' : Type} (wide : ε → ε') (r : Run ε α) (next : α → Run ε β) :
    (r >>= next).mapError wide = r.mapError wide >>= fun a => (next a).mapError wide := by
  obtain ⟨_ | _, _, _⟩ := r <;> rfl

theorem Run.bind_eq_ok {ε : Type} {r : Run ε α} {next : α → Run ε β} {b : β}
    (h : (r >>= next).result = .ok b) : ∃ a, r.result = .ok a ∧ (next a).result = .ok b := by
  cases hr : r.result with
  | error err =>
    rw [bind_of_error hr] at h
    cases h
  | ok a =>
    rw [bind_of_ok hr] at h
    exact ⟨a, rfl, h⟩

theorem Expr.length_evalAll (h : (Expr.evalAll registry vars es).result = .ok xs) :
    xs.length = es.length := by
  induction es generalizing xs with
  | nil =>
    cases h
    rfl
  | cons e es ih =>
    obtain ⟨x, -, h⟩ := Run.bind_eq_ok h
    obtain ⟨ys, hys, h⟩ := Run.bind_eq_ok h
    cases h
    rw [List.length_cons, List.length_cons, ih hys]

/-- A body that computes a function does not panic where the number of arguments is right. -/
theorem Body.Computes.outcome {body : Body} (h : body.Computes g) (hargs : xs.length = g.arity) :
    body.outcome xs = .ok (g.apply xs) := by
  rw [Body.outcome, h xs hargs]
  rfl

theorem Body.Computes.execute {body : Body} (h : body.Computes g) (hargs : xs.length = g.arity)
    (f : String) : body.execute f xs = (g.applyTo f xs).mapError .refused := by
  rw [Body.execute, h.outcome hargs]
  rfl

/-! ### The machine and the evaluation -/

/-- **The machine tracks a run** that has evaluations nested `d` deep: it is out of room, with less than `d`, or
it does what the run does, and has had room for all if the run has a value. -/
inductive Tracks (n d : ℕ) (machine : Run Stop α) (run : Run EvalError α) : Prop
  | exhausted (result : machine.result = .error .exhausted) (less : n < d)
  | agrees (eq : machine = run.mapError .refused) (room : ∀ a, run.result = .ok a → d ≤ n)

namespace Tracks

theorem of_run (run : Run EvalError α) : Tracks n 0 (run.mapError .refused) run :=
  .agrees rfl fun _ _ => Nat.zero_le n

variable {machine : Run Stop α} {run : Run EvalError α} {more : α → Run Stop β}
  {next : α → Run EvalError β}

theorem bind (h : Tracks n d machine run)
    (hnext : ∀ a, run.result = .ok a → Tracks n d' (more a) (next a)) :
    Tracks n (max d d') (machine >>= more) (run >>= next) := by
  rcases h with ⟨hresult, hless⟩ | ⟨rfl, hroom⟩
  · refine .exhausted ?_ (lt_max_of_lt_left hless)
    rw [Run.bind_of_error hresult]
  · cases hresult : run.result with
    | error err =>
      have hmachine := Run.mapError_of_error (g := Stop.refused) hresult
      refine .agrees ?_ fun b hb => ?_
      · rw [Run.bind_of_error hmachine, Run.bind_of_error hresult]
        rfl
      · rw [Run.bind_of_error hresult] at hb
        cases hb
    | ok a =>
      have hmachine := Run.mapError_of_ok (g := Stop.refused) hresult
      rcases hnext a hresult with ⟨hresult', hless⟩ | ⟨heq, hroom'⟩
      · refine .exhausted ?_ (lt_max_of_lt_right hless)
        rw [Run.bind_of_ok hmachine]
        exact hresult'
      · refine .agrees ?_ fun b hb => max_le (hroom a hresult) (hroom' b ?_)
        · rw [Run.mapError_bind, Run.bind_of_ok hmachine, Run.bind_of_ok hmachine, heq]
        · rwa [Run.bind_of_ok hresult] at hb

theorem map (h : Tracks n d machine run) (k : α → β) :
    Tracks n d (machine >>= fun a => pure (k a)) (run >>= fun a => pure (k a)) := by
  have hbind : Tracks n (max d 0) (machine >>= fun a => pure (k a)) (run >>= fun a => pure (k a)) :=
    h.bind fun a _ => .of_run (pure (k a))
  rwa [Nat.max_zero] at hbind

/-- One more evaluation around all others. -/
theorem nest {work : ℕ → Run Stop α} (h : ∀ n, Tracks n d (work n) run) :
    Tracks n (1 + d) (Formula.nest .exhausted n work) run := by
  cases n with
  | zero => exact .exhausted rfl (by omega)
  | succ n =>
    rcases h n with ⟨hresult, hless⟩ | ⟨heq, hroom⟩
    · exact .exhausted hresult (by omega)
    · refine .agrees heq fun a ha => ?_
      have := hroom a ha
      omega

/-- A machine never panics on what it tracks. -/
theorem not_panicked (h : Tracks n d machine run) : machine.result ≠ .error .panicked := by
  rcases h with ⟨hresult, -⟩ | ⟨rfl, -⟩
  · rw [hresult]
    simp
  · cases hresult : run.result with
    | error err => rw [Run.mapError_of_error hresult]; simp
    | ok a => rw [Run.mapError_of_ok hresult]; simp

theorem eq_of_le (h : Tracks n d machine run) (hle : d ≤ n) : machine = run.mapError .refused := by
  rcases h with ⟨-, hless⟩ | ⟨heq, -⟩
  · omega
  · exact heq

/-- An evaluation with a value needs all the room. -/
theorem exhausted_of_lt (h : Tracks n d machine run) {a : α} (ha : run.result = .ok a) (hlt : n < d) :
    machine.result = .error .exhausted := by
  rcases h with ⟨hresult, -⟩ | ⟨-, hroom⟩
  · exact hresult
  · have := hroom a ha
    omega

end Tracks

mutual

/-- **A machine does what the evaluation does**, in room for the height of the tree. -/
theorem Expr.tracks_execute (hbodies : bodies.Compute registry) : ∀ (e : Expr) (n : ℕ),
    Tracks n e.height (e.execute bodies registry vars n) (e.eval registry vars)
  | .literal x, n => .nest fun _ => .of_run (pure x)
  | .path p, n => .nest fun _ => .of_run (vars.lookup p)
  | .unary op x, n => .nest fun n => (x.tracks_execute hbodies n).map op.apply
  | .binary l op r, n => .nest fun n =>
    (l.tracks_execute hbodies n).bind fun x _ => (r.tracks_execute hbodies n).map (op.apply x)
  | .call f args, n => .nest fun n => by
    have hcall : Tracks n (max 0 (max (Expr.heightAll args) 0))
        (do
          let _ ← Run.mapError Stop.refused <| registry.admit f args.length
          let values ← Expr.executeAll bodies registry vars args n
          (bodies f).execute f values)
        (do
          let g ← registry.admit f args.length
          let values ← Expr.evalAll registry vars args
          g.applyTo f values) := by
      refine (Tracks.of_run _).bind fun g hg =>
        (Expr.tracks_executeAll hbodies args n).bind fun values hvalues => ?_
      have hcallee : registry.callee f args.length = .ok g := (Run.result_ask _ _ _).symm.trans hg
      obtain ⟨hget, harity⟩ := Registry.callee_eq_ok_iff.mp hcallee
      rw [(hbodies f g hget).execute ((Expr.length_evalAll hvalues).trans harity.symm)]
      exact .of_run _
    rwa [Nat.max_zero, Nat.zero_max] at hcall

theorem Expr.tracks_executeAll (hbodies : bodies.Compute registry) : ∀ (es : List Expr) (n : ℕ),
    Tracks n (Expr.heightAll es) (Expr.executeAll bodies registry vars es n)
      (Expr.evalAll registry vars es)
  | [], _ => .of_run (pure [])
  | x :: xs, n =>
    (x.tracks_execute hbodies n).bind fun y _ => (Expr.tracks_executeAll hbodies xs n).map (y :: ·)

end

/-- A call on a machine is the call of the registry. -/
theorem Registry.execute_eq (hbodies : bodies.Compute registry) (f : String) (xs : List Float) :
    registry.execute bodies f xs = (registry.call f xs).mapError .refused := by
  unfold execute call
  cases hcallee : registry.callee f xs.length with
  | error err => rfl
  | ok g =>
    obtain ⟨hget, harity⟩ := callee_eq_ok_iff.mp hcallee
    exact (hbodies f g hget).outcome harity.symm

end Formula
