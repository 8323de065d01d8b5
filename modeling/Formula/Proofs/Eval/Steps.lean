import Formula.Eval.Basic
import Formula.Eval.Builtin
import Formula.Expr.Occurrences
import Mathlib.Data.List.Basic

/-!
# The steps of an evaluation

A tree says what its evaluation asks for, and in which order: at a path the host for its value, and at
a call the registry for its function, before anything that the arguments ask for. `Expr.steps` lists
this; no operator leaves an operand out, the logical ones included.

A run *follows* a list of steps if it asks for them one after the other up to the first that fails, and
its result is the error of that step, or a value if none fails (`Follows`). Runs in sequence follow
the steps of the one and then those of the other, and so an evaluation follows the steps of its tree,
`Expr.follows_eval`.
-/

namespace Formula

/-! ### First failures -/

section FirstFailure

variable {α β ε : Type} {f : α → Except ε β} {l m before before' : List α} {a a' : α} {err err' : ε}

/-- `a` is the first element of the list at which `f` fails, and `before` are those in front of it. -/
structure FirstFailure (f : α → Except ε β) (l before : List α) (a : α) (err : ε) : Prop where
  reaches : before ++ [a] <+: l
  passes : ∀ b ∈ before, ∃ y, f b = .ok y
  fails : f a = .error err

theorem FirstFailure.mem (h : FirstFailure f l before a err) : a ∈ l :=
  h.reaches.subset (List.mem_append_right _ (List.mem_singleton_self a))

theorem FirstFailure.not_ok (h : FirstFailure f l before a err) : ¬ ∃ y, f a = .ok y := by
  rintro ⟨y, hy⟩
  rw [h.fails] at hy
  cases hy

theorem FirstFailure.append_right (h : FirstFailure f l before a err) (m : List α) :
    FirstFailure f (l ++ m) before a err :=
  ⟨h.reaches.trans (List.prefix_append l m), h.passes, h.fails⟩

theorem FirstFailure.append_left (hl : ∀ b ∈ l, ∃ y, f b = .ok y)
    (h : FirstFailure f m before a err) : FirstFailure f (l ++ m) (l ++ before) a err := by
  refine ⟨?_, fun b hb => ?_, h.fails⟩
  · rw [List.append_assoc]
    exact (List.prefix_append_right_inj l).mpr h.reaches
  · rcases List.mem_append.mp hb with hb | hb
    · exact hl b hb
    · exact h.passes b hb

theorem exists_firstFailure (f : α → Except ε β) (l : List α) :
    (∀ a ∈ l, ∃ y, f a = .ok y) ∨ ∃ before a err, FirstFailure f l before a err := by
  induction l with
  | nil => exact Or.inl (by simp)
  | cons a l ih =>
    cases ha : f a with
    | error err =>
      have hinitial : [] ++ [a] <+: a :: l := ⟨l, rfl⟩
      exact Or.inr ⟨[], a, err, hinitial, by simp, ha⟩
    | ok y =>
      have hone : ∀ b ∈ [a], ∃ y, f b = .ok y := by simp [ha]
      rcases ih with hl | ⟨before, b, err, h⟩
      · exact Or.inl (List.forall_mem_cons.mpr ⟨⟨y, ha⟩, hl⟩)
      · exact Or.inr ⟨_, b, err, h.append_left hone⟩

/-- **A list has one first failure.** -/
theorem FirstFailure.unique (h : FirstFailure f l before a err)
    (h' : FirstFailure f l before' a' err') : before = before' ∧ a = a' ∧ err = err' := by
  -- Of two prefixes that end in a failure, neither reaches beyond the end of the other.
  have hle : ∀ {b₁ b₂ a₁ a₂ e₁ e₂}, FirstFailure f l b₁ a₁ e₁ → FirstFailure f l b₂ a₂ e₂ →
      b₂.length ≤ b₁.length := by
    intro b₁ b₂ a₁ a₂ e₁ e₂ h₁ h₂
    by_contra hlt
    have hinitial : b₁ ++ [a₁] <+: b₂ := by
      refine List.prefix_of_prefix_length_le h₁.reaches
        ((List.prefix_append b₂ [a₂]).trans h₂.reaches) ?_
      rw [List.length_append, List.length_singleton]
      omega
    exact h₁.not_ok (h₂.passes a₁ (hinitial.subset (by simp)))
  have hlen : (before ++ [a]).length = (before' ++ [a']).length := by
    have := hle h h'
    have := hle h' h
    simp only [List.length_append, List.length_singleton]
    omega
  have hinitial : before ++ [a] <+: before' ++ [a'] :=
    List.prefix_of_prefix_length_le h.reaches h'.reaches (Nat.le_of_eq hlen)
  have heq := hinitial.eq_of_length hlen
  obtain ⟨rfl, hlast⟩ := List.append_inj' heq rfl
  obtain rfl := List.singleton_inj.mp hlast
  have herr := h.fails.symm.trans h'.fails
  exact ⟨rfl, rfl, Except.error.inj herr⟩

end FirstFailure

/-! ### What a tree asks for -/

mutual

/-- **The steps of a tree**, from left to right, a call before its arguments. -/
def Expr.steps : Expr → List Step
  | .literal _ => []
  | .path p => [.lookup p]
  | .unary _ x => x.steps
  | .binary l _ r => l.steps ++ r.steps
  | .call f args => .check f args.length :: Expr.stepsAll args

/-- The steps of a list of trees. -/
def Expr.stepsAll : List Expr → List Step
  | [] => []
  | x :: xs => x.steps ++ Expr.stepsAll xs

end

namespace Step

/-- The path that a step asks for. -/
def path? : Step → Option Path
  | .lookup p => some p
  | _ => none

/-- The call that a step checks. -/
def call? : Step → Option (String × ℕ)
  | .check f n => some (f, n)
  | _ => none

/-- Whether a step asks something; applying a function does not. -/
def isRequest : Step → Bool
  | .apply .. => false
  | _ => true

/-- **What a step comes to** in a registry and an environment. -/
def outcome (registry : Registry) (vars : Environment) : Step → Except EvalError Unit
  | .lookup p => (vars p).map fun _ => ()
  | .check f n => (registry.callee f n).map fun _ => ()
  | .apply .. => .ok ()

end Step

mutual

theorem Expr.filterMap_path?_steps : ∀ e : Expr, e.steps.filterMap Step.path? = e.pathOccurrences
  | .literal _ => rfl
  | .path _ => rfl
  | .unary _ x => x.filterMap_path?_steps
  | .binary l _ r => by
    rw [steps, List.filterMap_append, l.filterMap_path?_steps, r.filterMap_path?_steps]
    rfl
  | .call _ args => Expr.filterMap_path?_stepsAll args

theorem Expr.filterMap_path?_stepsAll :
    ∀ es : List Expr, (Expr.stepsAll es).filterMap Step.path? = Expr.pathOccurrencesAll es
  | [] => rfl
  | x :: xs => by
    rw [stepsAll, List.filterMap_append, x.filterMap_path?_steps, Expr.filterMap_path?_stepsAll xs]
    rfl

end

mutual

theorem Expr.filterMap_call?_steps : ∀ e : Expr, e.steps.filterMap Step.call? = e.calls
  | .literal _ => rfl
  | .path _ => rfl
  | .unary _ x => x.filterMap_call?_steps
  | .binary l _ r => by
    rw [steps, List.filterMap_append, l.filterMap_call?_steps, r.filterMap_call?_steps]
    rfl
  | .call f args => congrArg ((f, args.length) :: ·) (Expr.filterMap_call?_stepsAll args)

theorem Expr.filterMap_call?_stepsAll :
    ∀ es : List Expr, (Expr.stepsAll es).filterMap Step.call? = Expr.callsAll es
  | [] => rfl
  | x :: xs => by
    rw [stepsAll, List.filterMap_append, x.filterMap_call?_steps, Expr.filterMap_call?_stepsAll xs]
    rfl

end

/-! ### What a run asks for -/

namespace Run

variable {ε α : Type} (r : Run ε α)

/-- The steps of a run that ask something, in order and as often as asked. -/
def requests : List Step :=
  r.steps.filter Step.isRequest

/-- The calls that a run checks, in order and as often as checked. -/
def checks : List (String × ℕ) :=
  r.steps.filterMap Step.call?

/-- A question with a record of its failure is one step. -/
theorem steps_ask (s : Step) (event : ε → LogEvent) (result : Except ε α) :
    (do Run.step s; Run.recordFailure event result : Run ε α).steps = [s] := by
  cases result <;> rfl

theorem result_ask (s : Step) (event : ε → LogEvent) (result : Except ε α) :
    (do Run.step s; Run.recordFailure event result : Run ε α).result = result := by
  cases result <;> rfl

theorem lookups_eq : r.lookups = r.requests.filterMap Step.path? := by
  rw [requests, List.filterMap_filter, lookups]
  congr
  funext s
  cases s <;> rfl

theorem checks_eq : r.checks = r.requests.filterMap Step.call? := by
  rw [requests, List.filterMap_filter, checks]
  congr
  funext s
  cases s <;> rfl

end Run

/-! ### Following a list of steps -/

variable {registry : Registry} {vars : Environment} {α β : Type} {run : Run EvalError α}
  {planned more : List Step}

/-- **A run follows a list of steps**: it asks for all of them and has a value, or it asks for them up
to the first that fails and has its error. -/
inductive Follows (registry : Registry) (vars : Environment) (planned : List Step)
    (run : Run EvalError α) : Prop
  | completes {a : α} (result : run.result = .ok a) (requests : run.requests = planned)
      (passes : ∀ s ∈ planned, ∃ y, s.outcome registry vars = .ok y)
  | stops {before : List Step} {s : Step} {err : EvalError} (result : run.result = .error err)
      (requests : run.requests = before ++ [s])
      (first : FirstFailure (Step.outcome registry vars) planned before s err)

namespace Follows

theorem pure (a : α) : Follows registry vars [] (Pure.pure a : Run EvalError α) :=
  .completes rfl rfl (by simp)

/-- **Runs in sequence follow the one list and then the other.** -/
theorem bind {next : α → Run EvalError β} (h : Follows registry vars planned run)
    (hnext : ∀ a, Follows registry vars more (next a)) :
    Follows registry vars (planned ++ more) (run >>= next) := by
  rcases h with ⟨hresult, hrequests, hpasses⟩ | ⟨hresult, hrequests, hfirst⟩
  · rename_i a
    have hboth : (run >>= next).requests = planned ++ (next a).requests := by
      rw [← hrequests, Run.bind_of_ok hresult, Run.requests, List.filter_append]
      rfl
    have hsame : (run >>= next).result = (next a).result := by
      rw [Run.bind_of_ok hresult]
    rcases hnext a with ⟨hresult', hrequests', hpasses'⟩ | ⟨hresult', hrequests', hfirst⟩
    · refine .completes (hsame.trans hresult') (by rw [hboth, hrequests']) fun s hs => ?_
      rcases List.mem_append.mp hs with hs | hs
      · exact hpasses s hs
      · exact hpasses' s hs
    · exact .stops (hsame.trans hresult') (by rw [hboth, hrequests', List.append_assoc])
        (hfirst.append_left hpasses)
  · refine .stops ?_ ?_ (hfirst.append_right more)
    · rw [Run.bind_of_error hresult]
    · rw [Run.bind_of_error hresult]
      exact hrequests

theorem map {f : α → β} (h : Follows registry vars planned run) :
    Follows registry vars planned (run >>= fun a => Pure.pure (f a)) := by
  have hbind : Follows registry vars (planned ++ []) (run >>= fun a => Pure.pure (f a)) :=
    h.bind fun a => pure (f a)
  rwa [List.append_nil] at hbind

/-- A step whose outcome is that of the question it asks, with a record of the failure. -/
theorem ask {s : Step} {result : Except EvalError α} (event : EvalError → LogEvent)
    (hs : s.isRequest = true) (houtcome : s.outcome registry vars = result.map fun _ => ()) :
    Follows registry vars [s] (do Run.step s; Run.recordFailure event result) := by
  have hfilter : [s].filter Step.isRequest = [s] := List.filter_cons_of_pos hs
  cases result with
  | ok a =>
    refine .completes (a := a) rfl hfilter fun t ht => ?_
    obtain rfl := List.mem_singleton.mp ht
    exact ⟨(), houtcome⟩
  | error err =>
    have hfirst : FirstFailure (Step.outcome registry vars) [s] [] s err :=
      ⟨List.prefix_rfl, fun _ hb => absurd hb List.not_mem_nil, houtcome⟩
    refine .stops rfl ?_ hfirst
    exact hfilter

theorem lookup (p : Path) : Follows registry vars [.lookup p] (vars.lookup p) :=
  ask .lookupFailed rfl rfl

theorem check (f : String) (n : ℕ) : Follows registry vars [.check f n] <| registry.admit f n :=
  ask .callRejected rfl rfl

theorem applyTo (g : Callable) (f : String) (args : List Float) :
    Follows registry vars [] (g.applyTo f args) :=
  .completes rfl rfl (by simp)

/-! What follows a list of steps is known in full once it is known which of them fail. -/

theorem ok_iff (h : Follows registry vars planned run) :
    (∃ a, run.result = .ok a) ↔ ∀ s ∈ planned, ∃ y, s.outcome registry vars = .ok y := by
  rcases h with ⟨hresult, -, hpasses⟩ | ⟨hresult, -, hfirst⟩
  · exact ⟨fun _ => hpasses, fun _ => ⟨_, hresult⟩⟩
  · constructor
    · rintro ⟨a, ha⟩
      rw [hresult] at ha
      cases ha
    · intro hpasses
      exact absurd (hpasses _ hfirst.mem) hfirst.not_ok

theorem error_iff (h : Follows registry vars planned run) {err : EvalError} :
    run.result = .error err ↔
      ∃ before s, FirstFailure (Step.outcome registry vars) planned before s err := by
  rcases h with ⟨hresult, -, hpasses⟩ | ⟨hresult, -, hfirst⟩
  · constructor
    · intro herr
      rw [hresult] at herr
      cases herr
    · rintro ⟨before, s, hfirst⟩
      exact absurd (hpasses s hfirst.mem) hfirst.not_ok
  · constructor
    · intro herr
      obtain rfl := Except.error.inj (hresult.symm.trans herr)
      exact ⟨_, _, hfirst⟩
    · rintro ⟨before, s, hfirst'⟩
      rw [hresult, (hfirst.unique hfirst').2.2]

theorem requests_of_ok (h : Follows registry vars planned run) {a : α}
    (ha : run.result = .ok a) : run.requests = planned := by
  rcases h with ⟨-, hrequests, -⟩ | ⟨hresult, -, -⟩
  · exact hrequests
  · rw [hresult] at ha
    cases ha

theorem requests_of_first (h : Follows registry vars planned run) {before : List Step} {s : Step}
    {err : EvalError} (hfirst : FirstFailure (Step.outcome registry vars) planned before s err) :
    run.requests = before ++ [s] := by
  rcases h with ⟨-, -, hpasses⟩ | ⟨-, hrequests, hfirst'⟩
  · exact absurd (hpasses s hfirst.mem) hfirst.not_ok
  · obtain ⟨rfl, rfl, -⟩ := hfirst.unique hfirst'
    exact hrequests

theorem requests_prefix (h : Follows registry vars planned run) : run.requests <+: planned := by
  rcases h with ⟨-, hrequests, -⟩ | ⟨-, hrequests, hfirst⟩
  · exact hrequests ▸ List.prefix_rfl
  · rw [hrequests]
    exact hfirst.reaches

end Follows

mutual

/-- **An evaluation follows the steps of its tree.** -/
theorem Expr.follows_eval : ∀ e : Expr, Follows registry vars e.steps (e.eval registry vars)
  | .literal x => .pure x
  | .path p => .lookup p
  | .unary _ x => x.follows_eval.map
  | .binary l _ r => l.follows_eval.bind fun _ => r.follows_eval.map
  | .call f args => (Follows.check f args.length).bind fun g => by
    have h := (Expr.follows_evalAll args).bind fun values => Follows.applyTo g f values
    rwa [List.append_nil] at h

theorem Expr.follows_evalAll :
    ∀ es : List Expr, Follows registry vars (Expr.stepsAll es) (Expr.evalAll registry vars es)
  | [] => .pure []
  | x :: xs => x.follows_eval.bind fun _ => (Expr.follows_evalAll xs).map

end

/-- **Evaluation goes through the steps of its tree** from left to right and stops at the first that
fails: it has a value exactly if none fails, otherwise the error of the first that does, and it has
asked for all steps in the one case and for those up to the failing one in the other. -/
theorem eval_takes_steps (registry : Registry) (vars : Environment) (e : Expr) :
    let run := e.eval registry vars
    let outcome := Step.outcome registry vars
    ((∃ x, run.result = .ok x) ↔ ∀ s ∈ e.steps, outcome s = .ok ()) ∧
      (∀ err, run.result = .error err ↔ ∃ before s, FirstFailure outcome e.steps before s err) ∧
      ((∃ x, run.result = .ok x) →
        run.requests = e.steps ∧ run.lookups = e.steps.filterMap Step.path?) ∧
      ∀ before s err, FirstFailure outcome e.steps before s err →
        run.requests = before ++ [s] ∧ run.lookups = (before ++ [s]).filterMap Step.path? := by
  intro run outcome
  have hfollows : Follows registry vars e.steps run := e.follows_eval
  refine ⟨hfollows.ok_iff.trans ?_, fun err => hfollows.error_iff, ?_, fun before s err hfirst => ?_⟩
  · exact forall₂_congr fun s _ => ⟨fun ⟨_, h⟩ => h, fun h => ⟨(), h⟩⟩
  · rintro ⟨x, hx⟩
    have hrequests := hfollows.requests_of_ok hx
    exact ⟨hrequests, by rw [run.lookups_eq, hrequests]⟩
  · have hrequests := hfollows.requests_of_first hfirst
    exact ⟨hrequests, by rw [run.lookups_eq, hrequests]⟩

/-- In `x + abs(y, x)` the wrong number of arguments comes before `y`, but after the first `x`. -/
theorem eval_takes_steps_wrong_count :
    let vars : Environment := fun p =>
      if p = ["x"] then .ok Decimal.one else .error (.unresolved p "no such variable")
    let e : Expr := .binary (.path ["x"]) .add (.call "abs" [.path ["y"], .path ["x"]])
    let run := e.eval Registry.builtins vars
    run.result = .error (.argumentCount "abs" 1 2) ∧ run.lookups = [["x"]] := by
  intro vars e run
  have hfirst : FirstFailure (Step.outcome Registry.builtins vars) e.steps [.lookup ["x"]]
      (.check "abs" 2) (.argumentCount "abs" 1 2) :=
    ⟨by decide, fun s hs => ⟨(), by obtain rfl := List.mem_singleton.mp hs; rfl⟩, by decide +kernel⟩
  have hsteps := eval_takes_steps Registry.builtins vars e
  exact ⟨(hsteps.2.1 _).mpr ⟨_, _, hfirst⟩, (hsteps.2.2.2 _ _ _ hfirst).2⟩

end Formula
