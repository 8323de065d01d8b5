import Formula.Engine.Basic
import Formula.Proofs.Eval.Dependencies
import Formula.Proofs.Eval.History

/-!
# Checking a source and evaluating it

`Engine.check` and `Engine.evalSource` go over a tree in different ways. The check looks at the names of
all functions before it looks at any number of arguments, and an evaluation takes the calls one by one
between the paths that it asks for. Still the one foretells the other: what passes the check fails only
where a variable does, and what does not pass fails. Where no variable fails, a wrong number of
arguments is reported by both alike; an unknown function may be hidden from the evaluation by a wrong
number of arguments in front of it, and by nothing else (`check_foretells_evalSource`).
-/

namespace Formula

/-! ### The calls of a tree -/

namespace Registry

variable {r : Registry} {f : String} {n : ℕ} {err : EvalError} {names more : List String}
  {calls : List (String × ℕ)}

theorem callee_of_not_contains (h : r.contains f = false) :
    r.callee f n = .error (.unknownFunction f) := by
  rw [contains_eq, Option.isSome_eq_false_iff, Option.isNone_iff_eq_none] at h
  exact callee_eq_error_iff.mpr (.inl ⟨h, rfl⟩)

theorem argumentCount_of_callee (h : r.contains f = true) (herr : r.callee f n = .error err) :
    ∃ wanted, err = .argumentCount f wanted n := by
  rcases callee_eq_error_iff.mp herr with ⟨hnone, -⟩ | ⟨g, -, -, hcount⟩
  · rw [contains_eq, hnone] at h
    cases h
  · exact ⟨g.arity, hcount⟩

theorem contains_of_callee {g : Callable} (h : r.callee f n = .ok g) : r.contains f = true := by
  rw [contains_eq, (callee_eq_ok_iff.mp h).1]
  rfl

theorem checkNames_eq_ok_iff : r.checkNames names = .ok () ↔ ∀ f ∈ names, r.contains f = true := by
  induction names with
  | nil => simp [checkNames]
  | cons f names ih =>
    rw [checkNames, List.forall_mem_cons]
    split_ifs with hf
    · simp [hf, ih]
    · simp [hf]

theorem checkNames_append (h : ∀ f ∈ names, r.contains f = true) :
    r.checkNames (names ++ more) = r.checkNames more := by
  induction names with
  | nil => rfl
  | cons f names ih =>
    rw [List.forall_mem_cons] at h
    rw [List.cons_append, checkNames, if_pos h.1, ih h.2]

theorem checkNames_eq_error (h : r.checkNames names = .error err) :
    ∃ f ∈ names, r.contains f = false ∧ err = .unknownFunction f := by
  induction names with
  | nil => cases h
  | cons f names ih =>
    rw [checkNames] at h
    split_ifs at h with hf
    · obtain ⟨g, hg, hcontains, rfl⟩ := ih h
      exact ⟨g, List.mem_cons_of_mem _ hg, hcontains, rfl⟩
    · exact ⟨f, List.mem_cons_self, Bool.not_eq_true _ |>.mp hf, (Except.error.inj h).symm⟩

/-- Known names may be left out. -/
theorem checkNames_filter {p : String → Bool} (h : ∀ f, p f = false → r.contains f = true) :
    r.checkNames (names.filter p) = r.checkNames names := by
  induction names with
  | nil => rfl
  | cons f names ih =>
    by_cases hp : p f = true
    · rw [List.filter_cons_of_pos hp, checkNames, checkNames, ih]
    · rw [List.filter_cons_of_neg hp, checkNames, if_pos (h f (Bool.not_eq_true _ |>.mp hp)), ih]

/-- **The first unknown name is the same** with and without repetitions. -/
theorem checkNames_firstAppearances :
    r.checkNames (firstAppearances names) = r.checkNames names := by
  induction names with
  | nil => rfl
  | cons f names ih =>
    rw [firstAppearances, checkNames, checkNames]
    split_ifs with hf
    · rw [checkNames_filter, ih]
      intro g hg
      have hgf : g = f := by simpa using hg
      rwa [hgf]
    · rfl

/-- Whether a call is admissible. -/
def admits (r : Registry) (c : String × ℕ) : Except EvalError Callable :=
  r.callee c.1 c.2

theorem checkCalls_append {rest : List (String × ℕ)} (h : ∀ c ∈ calls, ∃ g, r.admits c = .ok g) :
    r.checkCalls (calls ++ rest) = r.checkCalls rest := by
  induction calls with
  | nil => rfl
  | cons c calls ih =>
    rw [List.forall_mem_cons] at h
    obtain ⟨⟨g, hg⟩, hcalls⟩ := h
    have hcallee : r.callee c.1 c.2 = .ok g := hg
    rw [List.cons_append, checkCalls, hcallee]
    exact ih hcalls

theorem checkCalls_of_first {before : List (String × ℕ)} {c : String × ℕ}
    (h : FirstFailure r.admits calls before c err) : r.checkCalls calls = .error err := by
  obtain ⟨rest, rfl⟩ := h.reaches
  have hcallee : r.callee c.1 c.2 = .error err := h.fails
  rw [List.append_assoc, checkCalls_append h.passes, List.singleton_append, checkCalls, hcallee]
  rfl

theorem checkCalls_of_passes (h : ∀ c ∈ calls, ∃ g, r.admits c = .ok g) :
    r.checkCalls calls = .ok () := by
  have hall : r.checkCalls (calls ++ []) = r.checkCalls [] := checkCalls_append h
  rwa [List.append_nil] at hall

theorem checkCalls_eq_ok_iff :
    r.checkCalls calls = .ok () ↔ ∀ c ∈ calls, ∃ g, r.admits c = .ok g := by
  refine ⟨fun h => ?_, checkCalls_of_passes⟩
  rcases exists_firstFailure r.admits calls with hpasses | ⟨before, c, err, hfirst⟩
  · exact hpasses
  · rw [checkCalls_of_first hfirst] at h
    cases h

theorem checkCalls_eq_error_iff :
    r.checkCalls calls = .error err ↔ ∃ before c, FirstFailure r.admits calls before c err := by
  refine ⟨fun h => ?_, fun ⟨_, _, hfirst⟩ => checkCalls_of_first hfirst⟩
  rcases exists_firstFailure r.admits calls with hpasses | ⟨before, c, err', hfirst⟩
  · rw [checkCalls_of_passes hpasses] at h
    cases h
  · rw [checkCalls_of_first hfirst] at h
    obtain rfl := Except.error.inj h
    exact ⟨before, c, hfirst⟩

/-- Up to the first call that is not in order all names are known, so that the first unknown name is
the name of this call or of a later one. -/
theorem unknown_of_first {before : List (String × ℕ)} {c : String × ℕ}
    (hfirst : FirstFailure r.admits calls before c err)
    (hnames : r.checkNames (calls.map Prod.fst) = .error (.unknownFunction f)) :
    err = .unknownFunction f ∨
      (∃ wanted, err = .argumentCount c.1 wanted c.2) ∧
        ∀ b ∈ before ++ [c], r.contains b.1 = true := by
  have hbefore : ∀ b ∈ before, r.contains b.1 = true := by
    intro b hb
    obtain ⟨g, hg⟩ := hfirst.passes b hb
    exact contains_of_callee hg
  by_cases hc : r.contains c.1 = true
  · refine Or.inr ⟨argumentCount_of_callee hc hfirst.fails, fun b hb => ?_⟩
    rcases List.mem_append.mp hb with hb | hb
    · exact hbefore b hb
    · rwa [List.mem_singleton.mp hb]
  · left
    have hfails : r.callee c.1 c.2 = .error err := hfirst.fails
    rw [callee_of_not_contains (Bool.not_eq_true _ |>.mp hc)] at hfails
    obtain ⟨rest, rfl⟩ := hfirst.reaches
    have hknown : ∀ g ∈ before.map Prod.fst, r.contains g = true := by simpa using hbefore
    rw [List.append_assoc, List.map_append, checkNames_append hknown, List.singleton_append,
      List.map_cons, checkNames, if_neg hc] at hnames
    exact (Except.error.inj hfails).symm.trans (Except.error.inj hnames)

end Registry

/-! ### Evaluating what is checked -/

section Checked

variable {registry : Registry} {vars : Environment} {e : Expr} {before : List Step} {s : Step}
  {c : String × ℕ} {err : EvalError}

theorem map_eq_error_iff {α β ε : Type} {x : Except ε α} {f : α → β} {err : ε} :
    x.map f = .error err ↔ x = .error err := by
  cases x <;> simp [Except.map]

theorem exists_map_eq_ok_iff {α β ε : Type} {x : Except ε α} {f : α → β} :
    (∃ b, x.map f = .ok b) ↔ ∃ a, x = .ok a := by
  cases x <;> simp [Except.map]

/-- A step that checks a call comes to what the registry says about it. -/
theorem Step.outcome_of_call? (hs : s.call? = some c) :
    s.outcome registry vars = (registry.admits c).map fun _ => () := by
  cases s with
  | check f n =>
    obtain rfl := Option.some.inj hs
    rfl
  | lookup p => cases hs
  | apply f args => cases hs

theorem Expr.mem_calls_iff : c ∈ e.calls ↔ ∃ s ∈ e.steps, s.call? = some c := by
  rw [← e.filterMap_call?_steps, List.mem_filterMap]

/-- An evaluation fails at a variable, with its error, or at a call that is not in order. -/
theorem Expr.step_of_first (hfirst : FirstFailure (Step.outcome registry vars) e.steps before s err) :
    (∃ p ∈ e.paths, s = .lookup p ∧ vars p = .error err) ∨
      ∃ c ∈ e.calls, s = .check c.1 c.2 ∧ registry.admits c = .error err := by
  cases s with
  | lookup p =>
    refine .inl ⟨p, Expr.mem_paths.mpr ?_, rfl, map_eq_error_iff.mp hfirst.fails⟩
    rw [← e.filterMap_path?_steps]
    exact List.mem_filterMap.mpr ⟨_, hfirst.mem, rfl⟩
  | check f n =>
    have hmem : (f, n) ∈ e.calls := Expr.mem_calls_iff.mpr ⟨_, hfirst.mem, rfl⟩
    exact .inr ⟨(f, n), hmem, rfl, map_eq_error_iff.mp hfirst.fails⟩
  | apply f args => cases hfirst.fails

/-- A tree whose calls are all in order fails only where a variable does. -/
theorem Expr.lookup_of_checked (hcalls : ∀ c ∈ e.calls, ∃ g, registry.admits c = .ok g)
    (hfirst : FirstFailure (Step.outcome registry vars) e.steps before s err) :
    ∃ p ∈ e.paths, s = .lookup p ∧ vars p = .error err := by
  obtain hlookup | ⟨c, hc, -, herr⟩ := Expr.step_of_first hfirst
  · exact hlookup
  · obtain ⟨g, hg⟩ := hcalls c hc
    rw [hg] at herr
    cases herr

/-- Where no variable fails, the first step that fails is the first call that is not in order. -/
theorem Expr.first_call (hvars : ∀ p, ∃ x, vars p = .ok x)
    (hfirst : FirstFailure (Step.outcome registry vars) e.steps before s err) :
    ∃ c, s = .check c.1 c.2 ∧
      FirstFailure registry.admits e.calls (before.filterMap Step.call?) c err := by
  obtain ⟨p, -, -, hp⟩ | ⟨c, -, rfl, hc⟩ := Expr.step_of_first hfirst
  · obtain ⟨x, hx⟩ := hvars p
    rw [hx] at hp
    cases hp
  · refine ⟨c, rfl, ?_, fun b hb => ?_, hc⟩
    · have hinitial := hfirst.reaches.filterMap Step.call?
      rwa [List.filterMap_append, e.filterMap_call?_steps] at hinitial
    · obtain ⟨t, ht, htb⟩ := List.mem_filterMap.mp hb
      have hpasses := hfirst.passes t ht
      rwa [Step.outcome_of_call? htb, exists_map_eq_ok_iff] at hpasses

/-- **Where no variable fails**, either all calls are in order and there is a value, or the evaluation
ends at the first call that is not. -/
theorem Expr.eval_of_total (hvars : ∀ p, ∃ x, vars p = .ok x) (e : Expr) :
    (∀ c ∈ e.calls, ∃ g, registry.admits c = .ok g) ∨
      ∃ earlier c err, FirstFailure registry.admits e.calls earlier c err ∧
        (e.eval registry vars).result = .error err ∧
        (e.eval registry vars).checks = earlier ++ [c] := by
  have hfollows : Follows registry vars e.steps (e.eval registry vars) := e.follows_eval
  cases hresult : (e.eval registry vars).result with
  | ok x =>
    refine Or.inl fun c hc => ?_
    obtain ⟨s, hs, hsc⟩ := Expr.mem_calls_iff.mp hc
    have hpasses := hfollows.ok_iff.mp ⟨x, hresult⟩ s hs
    rwa [Step.outcome_of_call? hsc, exists_map_eq_ok_iff] at hpasses
  | error err =>
    obtain ⟨before, s, hfirst⟩ := hfollows.error_iff.mp hresult
    obtain ⟨c, rfl, hcalls⟩ := Expr.first_call hvars hfirst
    refine Or.inr ⟨_, c, err, hcalls, rfl, ?_⟩
    rw [Run.checks_eq, hfollows.requests_of_first hfirst, List.filterMap_append]
    rfl

/-- The check of a tree names an unknown function, or ends at the first call that is not in order. -/
theorem Expr.check_eq_error (h : e.check registry = .error err) :
    (∃ f ∈ e.functions, registry.contains f = false ∧ err = .unknownFunction f ∧
      registry.checkNames (e.calls.map Prod.fst) = .error err) ∨
    (∀ c ∈ e.calls, registry.contains c.1 = true) ∧
      ∃ earlier c, FirstFailure registry.admits e.calls earlier c err := by
  unfold check at h
  cases hnames : registry.checkNames e.functions with
  | error err' =>
    rw [hnames] at h
    obtain rfl := Except.error.inj h
    obtain ⟨f, hf, hcontains, herr⟩ := Registry.checkNames_eq_error hnames
    rw [functions, Registry.checkNames_firstAppearances] at hnames
    exact Or.inl ⟨f, hf, hcontains, herr, hnames⟩
  | ok u =>
    rw [hnames] at h
    refine Or.inr ⟨fun c hc => ?_, Registry.checkCalls_eq_error_iff.mp h⟩
    exact Registry.checkNames_eq_ok_iff.mp hnames c.1 (Expr.mem_functions.mpr ⟨c.2, hc⟩)

theorem Expr.admits_of_check (h : e.check registry = .ok ()) :
    ∀ c ∈ e.calls, ∃ g, registry.admits c = .ok g := by
  unfold check at h
  cases hnames : registry.checkNames e.functions with
  | error err =>
    rw [hnames] at h
    cases h
  | ok u =>
    rw [hnames] at h
    exact Registry.checkCalls_eq_ok_iff.mp h

end Checked

/-! ### Sources -/

namespace Engine

variable {engine : Engine} {vars : Environment} {source : String} {e : Expr} {err : SourceError}

theorem steps_expression (engine : Engine) (source : String) :
    (engine.expression source).steps = [] := by
  unfold expression
  cases htokens : (Token.read source).result with
  | error err => rw [Run.bind_of_error htokens]; rfl
  | ok tokens =>
    rw [Run.bind_of_ok htokens]
    cases Expr.ofTokens engine.dialect tokens <;> rfl

theorem evalSource_of_error (h : (engine.expression source).result = .error err) :
    (engine.evalSource vars source).result = .error (.source err) := by
  rw [evalSource, Run.bind_of_error (Run.mapError_of_error h)]

theorem evalSource_of_ok (h : (engine.expression source).result = .ok e) (vars : Environment) :
    (engine.evalSource vars source).result =
        (e.eval engine.registry vars).result.mapError Failure.eval ∧
      (engine.evalSource vars source).steps = (e.eval engine.registry vars).steps := by
  have hsteps : ((engine.expression source).mapError Failure.source).steps = [] :=
    engine.steps_expression source
  rw [evalSource, Run.bind_of_ok (Run.mapError_of_ok h), hsteps]
  exact ⟨rfl, rfl⟩

theorem check_of_error (h : (engine.expression source).result = .error err) :
    (engine.check source).result = .error (.source err) := by
  rw [check, Run.bind_of_error (Run.mapError_of_error h)]

theorem check_of_ok (h : (engine.expression source).result = .ok e) :
    (engine.check source).result =
      ((e.check engine.registry).mapError Failure.eval).map fun _ => e := by
  rw [check, Run.bind_of_ok (Run.mapError_of_ok h)]
  cases e.check engine.registry <;> rfl

/-- Reading is all that a source error can come from, in a check as in an evaluation. -/
theorem check_eq_source_iff :
    (engine.check source).result = .error (.source err) ↔
      (engine.expression source).result = .error err := by
  cases h : (engine.expression source).result with
  | error err' => rw [check_of_error h]; simp
  | ok e =>
    rw [check_of_ok h]
    cases e.check engine.registry <;> simp [Except.mapError, Except.map]

theorem evalSource_eq_source_iff :
    (engine.evalSource vars source).result = .error (.source err) ↔
      (engine.expression source).result = .error err := by
  cases h : (engine.expression source).result with
  | error err' => rw [evalSource_of_error h]; simp
  | ok e =>
    rw [(evalSource_of_ok h vars).1]
    cases (e.eval engine.registry vars).result <;> simp [Except.mapError]

theorem of_check_eq_ok (h : (engine.check source).result = .ok e) :
    (engine.expression source).result = .ok e ∧ e.check engine.registry = .ok () := by
  cases hread : (engine.expression source).result with
  | error err =>
    rw [check_of_error hread] at h
    cases h
  | ok e' =>
    rw [check_of_ok hread] at h
    cases hcheck : e'.check engine.registry with
    | error err =>
      rw [hcheck] at h
      cases h
    | ok u =>
      rw [hcheck] at h
      obtain rfl := Except.ok.inj h
      exact ⟨rfl, hcheck⟩

theorem of_check_eq_eval {err : EvalError} (h : (engine.check source).result = .error (.eval err)) :
    ∃ e, (engine.expression source).result = .ok e ∧ e.check engine.registry = .error err := by
  cases hread : (engine.expression source).result with
  | error err =>
    rw [check_of_error hread] at h
    cases h
  | ok e =>
    rw [check_of_ok hread] at h
    cases hcheck : e.check engine.registry with
    | error err' =>
      rw [hcheck] at h
      cases h
      exact ⟨e, rfl, hcheck⟩
    | ok u =>
      rw [hcheck] at h
      cases h

/-- What passes the check fails only where a variable does. -/
theorem evalSource_of_checked (h : (engine.check source).result = .ok e) :
    (∀ failure, (engine.evalSource vars source).result = .error failure →
        ∃ p ∈ e.paths, p ∈ (engine.evalSource vars source).lookups ∧
          ∃ err, vars p = .error err ∧ failure = .eval err) ∧
      ((∀ p ∈ e.paths, ∃ x, vars p = .ok x) →
        ∃ x, (engine.evalSource vars source).result = .ok x) := by
  obtain ⟨hread, hcheck⟩ := of_check_eq_ok h
  have hcalls := Expr.admits_of_check hcheck
  have hfollows : Follows engine.registry vars e.steps (e.eval engine.registry vars) := e.follows_eval
  obtain ⟨hsame, hsteps⟩ := evalSource_of_ok hread vars
  rw [Run.lookups, hsteps, hsame]
  cases hresult : (e.eval engine.registry vars).result with
  | ok x =>
    refine ⟨fun failure hfailure => ?_, fun _ => ⟨x, rfl⟩⟩
    cases hfailure
  | error err =>
    obtain ⟨before, s, hfirst⟩ := hfollows.error_iff.mp hresult
    obtain ⟨p, hp, rfl, herr⟩ := Expr.lookup_of_checked hcalls hfirst
    have hasked : p ∈ (e.eval engine.registry vars).lookups := by
      rw [Run.lookups_eq, hfollows.requests_of_first hfirst]
      exact List.mem_filterMap.mpr ⟨.lookup p, by simp, rfl⟩
    refine ⟨fun failure hfailure => ⟨p, hp, hasked, err, herr, (Except.error.inj hfailure).symm⟩, ?_⟩
    intro hvars
    obtain ⟨x, hx⟩ := hvars p hp
    rw [herr] at hx
    cases hx

/-- Where no variable fails, a wrong number of arguments that the check finds is found by the
evaluation. -/
theorem evalSource_of_argumentCount (hvars : ∀ p, ∃ x, vars p = .ok x) {f : String} {wanted n : ℕ}
    (h : (engine.check source).result = .error (.eval (.argumentCount f wanted n))) :
    (engine.evalSource vars source).result = .error (.eval (.argumentCount f wanted n)) := by
  obtain ⟨e, hread, hcheck⟩ := of_check_eq_eval h
  rcases Expr.check_eq_error hcheck with ⟨g, -, -, herr, -⟩ | ⟨-, earlier, c, hfirst⟩
  · cases herr
  · rcases Expr.eval_of_total hvars e with hadmits | ⟨earlier', c', err', hfirst', hresult, -⟩
    · exact absurd (hadmits c hfirst.mem) hfirst.not_ok
    · obtain ⟨-, -, rfl⟩ := hfirst.unique hfirst'
      rw [(evalSource_of_ok hread vars).1, hresult]
      rfl

/-- Where no variable fails, only a wrong number of arguments in an earlier call hides an unknown
function from the evaluation. -/
theorem evalSource_of_unknownFunction (hvars : ∀ p, ∃ x, vars p = .ok x) {f : String}
    (h : (engine.check source).result = .error (.eval (.unknownFunction f))) :
    (engine.evalSource vars source).result = .error (.eval (.unknownFunction f)) ∨
      ∃ e earlier g n wanted, (engine.expression source).result = .ok e ∧
        f ∈ e.functions ∧ earlier ++ [(g, n)] <+: e.calls ∧ (∀ c ∈ earlier ++ [(g, n)], c.1 ≠ f) ∧
        (engine.evalSource vars source).checks = earlier ++ [(g, n)] ∧
        (engine.evalSource vars source).result = .error (.eval (.argumentCount g wanted n)) := by
  obtain ⟨e, hread, hcheck⟩ := of_check_eq_eval h
  obtain ⟨hsame, hsteps⟩ := evalSource_of_ok hread vars
  rcases Expr.check_eq_error hcheck with
    ⟨f', hf, hunknown, herr, hnames⟩ | ⟨hknown, _, c, hfirst⟩
  · cases herr
    rcases Expr.eval_of_total hvars e with hadmits | ⟨earlier, c, err, hfirst, hresult, hchecks⟩
    · obtain ⟨n, hmem⟩ := Expr.mem_functions.mp hf
      obtain ⟨g, hg⟩ := hadmits _ hmem
      rw [Registry.contains_of_callee hg] at hunknown
      cases hunknown
    · rw [hsame, hresult]
      rcases Registry.unknown_of_first hfirst hnames with rfl | ⟨⟨wanted, rfl⟩, hbefore⟩
      · exact Or.inl rfl
      · refine Or.inr ⟨e, earlier, c.1, c.2, wanted, hread, hf, hfirst.reaches, fun b hb => ?_, ?_, rfl⟩
        · rintro rfl
          rw [hbefore b hb] at hunknown
          cases hunknown
        · rw [Run.checks, hsteps]
          exact hchecks
  · obtain ⟨wanted, herr⟩ := Registry.argumentCount_of_callee (hknown c hfirst.mem) hfirst.fails
    cases herr

end Engine

/-- **A check foretells an evaluation.** Sources that cannot be read are refused by both alike. What
passes the check fails only with an error of the environment at a path of the expression. Where no
variable fails, a wrong number of arguments is reported by both, and an unknown function too unless an
earlier call has a wrong number of arguments. -/
theorem check_foretells_evalSource (engine : Engine) (source : String) :
    (∀ vars err, (engine.check source).result = .error (.source err) ↔
      (engine.evalSource vars source).result = .error (.source err)) ∧
    (∀ e, (engine.check source).result = .ok e → ∀ vars,
      (∀ failure, (engine.evalSource vars source).result = .error failure →
        ∃ p ∈ e.paths, p ∈ (engine.evalSource vars source).lookups ∧
          ∃ err, vars p = .error err ∧ failure = .eval err) ∧
      ((∀ p ∈ e.paths, ∃ x, vars p = .ok x) →
        ∃ x, (engine.evalSource vars source).result = .ok x)) ∧
    ∀ vars, (∀ p, ∃ x, vars p = .ok x) →
      (∀ f wanted n, (engine.check source).result = .error (.eval (.argumentCount f wanted n)) →
        (engine.evalSource vars source).result = .error (.eval (.argumentCount f wanted n))) ∧
      ∀ f, (engine.check source).result = .error (.eval (.unknownFunction f)) →
        (engine.evalSource vars source).result = .error (.eval (.unknownFunction f)) ∨
        ∃ e earlier g n wanted, (engine.expression source).result = .ok e ∧
          f ∈ e.functions ∧ earlier ++ [(g, n)] <+: e.calls ∧
          (∀ c ∈ earlier ++ [(g, n)], c.1 ≠ f) ∧
          (engine.evalSource vars source).checks = earlier ++ [(g, n)] ∧
          (engine.evalSource vars source).result = .error (.eval (.argumentCount g wanted n)) := by
  refine ⟨fun vars err => ?_, fun e h vars => Engine.evalSource_of_checked h, fun vars hvars =>
    ⟨fun f wanted n h => Engine.evalSource_of_argumentCount hvars h,
      fun f h => Engine.evalSource_of_unknownFunction hvars h⟩⟩
  rw [Engine.check_eq_source_iff, Engine.evalSource_eq_source_iff]

/-- In `abs(x, 2) + nope(x)` the check finds `nope`, and the evaluation a call in front of it. -/
theorem check_foretells_evalSource_hidden :
    let engine : Engine := ⟨.standard, Registry.builtins⟩
    let vars : Environment := fun _ => .ok Decimal.one
    let source := "abs(x, 2) + nope(x)"
    (engine.check source).result = .error (.eval (.unknownFunction "nope")) ∧
      ∃ g n wanted, g ≠ "nope" ∧
        (engine.evalSource vars source).result = .error (.eval (.argumentCount g wanted n)) := by
  intro engine vars source
  have hcheck : (engine.check source).result = .error (.eval (.unknownFunction "nope")) := by
    decide +kernel
  have hvars : ∀ p, ∃ x, vars p = .ok x := fun _ => ⟨_, rfl⟩
  refine ⟨hcheck, ?_⟩
  rcases ((check_foretells_evalSource engine source).2.2 vars hvars).2 _ hcheck with
    hsame | ⟨_, _, g, n, wanted, -, -, -, hne, -, hresult⟩
  · exact absurd hsame (by decide +kernel)
  · exact ⟨g, n, wanted, hne (g, n) (by simp), hresult⟩

end Formula
