import Formula.Proofs.Eval.Steps

/-!
# What an evaluation depends on

A host that keeps a value up to date evaluates an expression again when one of its paths changes, and
so the list of these paths has to be complete. It is: an evaluation that succeeds asks for just the
paths of `Expr.paths` and checks just the functions of `Expr.functions`, in the order of the lists if
repetitions are left out, and one that fails asks for nothing else. Two environments that agree on the
paths, and two registries that agree on the functions, are therefore not told apart, whether the
evaluation succeeds or fails (`eval_depends_on`).
-/

namespace Formula

/-! ### First appearances -/

section FirstAppearances

variable {α : Type} [BEq α] [LawfulBEq α]

theorem firstAppearances_filter (p : α → Bool) (l : List α) :
    firstAppearances (l.filter p) = (firstAppearances l).filter p := by
  induction l with
  | nil => rfl
  | cons a l ih =>
    by_cases ha : p a = true
    · rw [List.filter_cons_of_pos ha, firstAppearances, firstAppearances, List.filter_cons_of_pos ha,
        ih, List.filter_filter, List.filter_filter]
      simp only [Bool.and_comm]
    · rw [List.filter_cons_of_neg ha, firstAppearances, List.filter_cons_of_neg ha, ih,
        List.filter_filter]
      refine List.filter_congr fun b _ => ?_
      -- What passes is not the element left out.
      by_cases hb : b = a
      · rw [hb, Bool.not_eq_true _ |>.mp ha]
        rfl
      · simp [hb]

/-- **First appearances are what is left when later repetitions are removed.** -/
theorem firstAppearances_eq_eraseDups : ∀ l : List α, firstAppearances l = l.eraseDups
  | [] => rfl
  | a :: l => by
    have : (l.filter fun b => !b == a).length < l.length + 1 :=
      Nat.lt_succ_of_le (List.length_filter_le _ _)
    rw [List.eraseDups_cons, ← firstAppearances_eq_eraseDups (l.filter fun b => !b == a),
      firstAppearances_filter, firstAppearances]
termination_by l => l.length

theorem mem_firstAppearances {a : α} {l : List α} : a ∈ firstAppearances l ↔ a ∈ l := by
  rw [firstAppearances_eq_eraseDups, List.mem_eraseDups]

end FirstAppearances

theorem Expr.mem_paths {e : Expr} {p : Path} : p ∈ e.paths ↔ p ∈ e.pathOccurrences :=
  mem_firstAppearances

theorem Expr.mem_functions {e : Expr} {f : String} : f ∈ e.functions ↔ ∃ n, (f, n) ∈ e.calls := by
  rw [functions, mem_firstAppearances, List.mem_map]
  constructor
  · rintro ⟨⟨g, n⟩, hc, rfl⟩
    exact ⟨n, hc⟩
  · rintro ⟨n, hc⟩
    exact ⟨(f, n), hc, rfl⟩

/-! ### What an evaluation asks for -/

variable {registry registry' : Registry} {vars vars' : Environment}

namespace Expr

theorem lookups_eval_of_ok {e : Expr} {x : Float} (h : (e.eval registry vars).result = .ok x) :
    (e.eval registry vars).lookups = e.pathOccurrences := by
  rw [Run.lookups_eq, e.follows_eval.requests_of_ok h, filterMap_path?_steps]

theorem checks_eval_of_ok {e : Expr} {x : Float} (h : (e.eval registry vars).result = .ok x) :
    (e.eval registry vars).checks = e.calls := by
  rw [Run.checks_eq, e.follows_eval.requests_of_ok h, filterMap_call?_steps]

theorem lookups_eval_prefix (e : Expr) : (e.eval registry vars).lookups <+: e.pathOccurrences := by
  rw [Run.lookups_eq, ← filterMap_path?_steps]
  exact e.follows_eval.requests_prefix.filterMap _

theorem checks_eval_prefix (e : Expr) : (e.eval registry vars).checks <+: e.calls := by
  rw [Run.checks_eq, ← filterMap_call?_steps]
  exact e.follows_eval.requests_prefix.filterMap _

end Expr

/-! ### Two evaluations -/

theorem Registry.admit_congr {f : String} {n : ℕ} (h : registry.get? f = registry'.get? f) :
    registry.admit f n = registry'.admit f n := by
  unfold Registry.admit
  simp only [callee, h]

mutual

/-- **Evaluations that get the same answers are the same**, whatever they come to. -/
theorem Expr.eval_congr : ∀ e : Expr, (∀ p ∈ e.pathOccurrences, vars p = vars' p) →
    (∀ c ∈ e.calls, registry.get? c.1 = registry'.get? c.1) →
    e.eval registry vars = e.eval registry' vars'
  | .literal _, _, _ => rfl
  | .path p, hp, _ => by
    have := hp p (List.mem_singleton_self p)
    simp only [eval, Environment.lookup, this]
  | .unary _ x, hp, hc => by
    rw [eval, eval, x.eval_congr hp hc]
  | .binary l _ r, hp, hc => by
    have hl := l.eval_congr (fun p h => hp p (List.mem_append_left _ h))
      fun c h => hc c (List.mem_append_left _ h)
    have hr := r.eval_congr (fun p h => hp p (List.mem_append_right _ h))
      fun c h => hc c (List.mem_append_right _ h)
    rw [eval, eval, hl, hr]
  | .call f args, hp, hc => by
    have hf : registry.admit f args.length = registry'.admit f args.length :=
      Registry.admit_congr (hc (f, args.length) List.mem_cons_self)
    have hargs := Expr.evalAll_congr args hp fun c h => hc c (List.mem_cons_of_mem _ h)
    rw [eval, eval, hf, hargs]

theorem Expr.evalAll_congr : ∀ es : List Expr, (∀ p ∈ Expr.pathOccurrencesAll es, vars p = vars' p) →
    (∀ c ∈ Expr.callsAll es, registry.get? c.1 = registry'.get? c.1) →
    Expr.evalAll registry vars es = Expr.evalAll registry' vars' es
  | [], _, _ => rfl
  | x :: xs, hp, hc => by
    have hx := x.eval_congr (fun p h => hp p (List.mem_append_left _ h))
      fun c h => hc c (List.mem_append_left _ h)
    have hxs := Expr.evalAll_congr xs (fun p h => hp p (List.mem_append_right _ h))
      fun c h => hc c (List.mem_append_right _ h)
    rw [evalAll, evalAll, hx, hxs]

end

/-- **An evaluation depends on the paths and the functions of its tree, and on all of them.** -/
theorem eval_depends_on (e : Expr) :
    (∀ registry vars,
      let run := e.eval registry vars
      ((∃ x, run.result = .ok x) →
        run.lookups.eraseDups = e.paths ∧ (run.checks.map Prod.fst).eraseDups = e.functions) ∧
      (∀ p ∈ run.lookups, p ∈ e.paths) ∧ ∀ c ∈ run.checks, c.1 ∈ e.functions) ∧
    ∀ registry registry' vars vars', (∀ p ∈ e.paths, vars p = vars' p) →
      (∀ f ∈ e.functions, registry.get? f = registry'.get? f) →
      e.eval registry vars = e.eval registry' vars' := by
  refine ⟨fun registry vars => ⟨?_, fun p hp => ?_, fun c hc => ?_⟩,
    fun registry registry' vars vars' hvars hfunctions => e.eval_congr (fun p hp => ?_) fun c hc => ?_⟩
  · rintro ⟨x, hx⟩
    rw [Expr.lookups_eval_of_ok hx, Expr.checks_eval_of_ok hx, ← firstAppearances_eq_eraseDups,
      ← firstAppearances_eq_eraseDups]
    exact ⟨rfl, rfl⟩
  · exact Expr.mem_paths.mpr (e.lookups_eval_prefix.subset hp)
  · exact Expr.mem_functions.mpr ⟨c.2, e.checks_eval_prefix.subset hc⟩
  · exact hvars p (Expr.mem_paths.mpr hp)
  · exact hfunctions c.1 (Expr.mem_functions.mpr ⟨c.2, hc⟩)

/-- In `x + abs(x)` it is `x` and `abs` that count: another variable may have no value, and another
function may be added. -/
theorem eval_depends_on_abs :
    let e : Expr := .binary (.path ["x"]) .add (.call "abs" [.path ["x"]])
    let one : Environment := fun _ => .ok Decimal.one
    let onlyX : Environment := fun p =>
      if p = ["x"] then .ok Decimal.one else .error (.unresolved p "no such variable")
    let more := Registry.builtins.insert "half" ⟨1, fun _ => Decimal.one⟩
    (∃ x, (e.eval Registry.builtins one).result = .ok x) ∧
      (e.eval Registry.builtins one).lookups.eraseDups = e.paths ∧
      e.eval Registry.builtins one = e.eval more onlyX := by
  intro e one onlyX more
  have hok : ∃ x, (e.eval Registry.builtins one).result = .ok x := ⟨_, rfl⟩
  refine ⟨hok, (((eval_depends_on e).1 Registry.builtins one).1 hok).1,
    (eval_depends_on e).2 _ _ _ _ (fun p hp => ?_) fun f hf => ?_⟩
  · have hpaths : e.paths = [["x"]] := by decide
    rw [hpaths, List.mem_singleton] at hp
    exact (if_pos hp).symm
  · have hfunctions : e.functions = ["abs"] := by decide
    rw [hfunctions, List.mem_singleton] at hf
    rw [hf, Registry.get?_insert, if_neg (by decide)]

end Formula
