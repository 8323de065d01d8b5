import Formula.Proofs.Engine.Checking
import Formula.Proofs.Engine.Dialects
import Formula.Proofs.Written.Nodes

/-!
# Calls without arguments

The parser lets a function be called without arguments only if it is on a list, and an engine makes this list
anew from its registry for each source. So what an engine reads has such calls only of functions that it holds
at that moment and that take no arguments, however often its functions have changed before. An evaluation
therefore fails at none of them (`Expr.failure_of_held`).

Nor is the list shorter than it has to be: a name and a pair of parentheses are a call wherever the engine
holds such a function (`Engine.expression_nullaryCall`).
-/

namespace Formula

variable {registry : Registry} {vars : Environment} {e : Expr} {f : String} {n : ℕ} {err : EvalError}

/-! ### The calls of a tree -/

mutual

/-- The calls of a tree are those of its subtrees that are calls. -/
theorem Expr.mem_calls : ∀ e : Expr,
    (f, n) ∈ e.calls ↔ ∃ args, .call f args ∈ e.subtrees ∧ args.length = n
  | .literal _ => by simp [calls, subtrees]
  | .path _ => by simp [calls, subtrees]
  | .unary _ x => by simp [calls, subtrees, x.mem_calls]
  | .binary l _ r => by
    simp [calls, subtrees, l.mem_calls, r.mem_calls, or_and_right, exists_or]
  | .call g xs => by
    rw [calls, List.mem_cons, Expr.mem_callsAll xs, subtrees]
    simp only [List.mem_cons, call.injEq, or_and_right, exists_or, Prod.mk.injEq]
    refine or_congr_left ⟨?_, ?_⟩
    · rintro ⟨rfl, rfl⟩
      exact ⟨xs, ⟨rfl, rfl⟩, rfl⟩
    · rintro ⟨args, ⟨rfl, rfl⟩, rfl⟩
      exact ⟨rfl, rfl⟩

theorem Expr.mem_callsAll : ∀ es : List Expr,
    (f, n) ∈ Expr.callsAll es ↔ ∃ args, .call f args ∈ Expr.subtreesAll es ∧ args.length = n
  | [] => by simp [callsAll, subtreesAll]
  | x :: xs => by
    simp [callsAll, subtreesAll, x.mem_calls, Expr.mem_callsAll xs, or_and_right, exists_or]

end

/-- A call without arguments stands in the tree as such. -/
theorem Expr.mem_calls_zero : (f, 0) ∈ e.calls ↔ .call f [] ∈ e.subtrees := by
  simp [e.mem_calls, List.length_eq_zero_iff]

/-! ### Evaluations -/

/-- **The error blames a call without arguments**: a number of arguments that is none, or the name of a
function that the tree calls without any. -/
inductive EvalError.BlamesNullary (e : Expr) : EvalError → Prop
  | argumentCount (f : String) (wanted : ℕ) : EvalError.BlamesNullary e (.argumentCount f wanted 0)
  | unknownFunction {f : String} (h : .call f [] ∈ e.subtrees) :
      EvalError.BlamesNullary e (.unknownFunction f)

/-- **The calls without arguments fit the engine**: the functions are there and take none, and no evaluation
fails at such a call. Where an error blames one nevertheless, it is the answer of the host for a variable; a
table of variables never answers so. -/
structure Engine.NullaryCallsFit (engine : Engine) (e : Expr) : Prop where
  held : ∀ f, .call f [] ∈ e.subtrees → ∃ g, engine.registry.get? f = some g ∧ g.arity = 0
  stops : ∀ vars err f, (engine.eval vars e).result = .error err →
    (engine.eval vars e).requests.getLast? ≠ some (.check f 0)
  blamed : ∀ vars err, err.BlamesNullary e → (engine.eval vars e).result = .error err →
    ∃ p ∈ e.paths, vars p = .error err
  table : ∀ (table : VarMap) err, err.BlamesNullary e →
    (engine.eval table.environment e).result ≠ .error err

/-- A table answers with values, or else names the variable. -/
theorem VarMap.environment_eq_error {table : VarMap} {p : Path}
    (h : table.environment p = .error err) : err = .unresolved p "no such variable" := by
  unfold environment at h
  split at h
  · cases h
  · cases h
  · exact (Except.error.inj h).symm

section Held

variable (hheld : ∀ f, .call f [] ∈ e.subtrees → ∃ g, registry.get? f = some g ∧ g.arity = 0)

include hheld

/-- **Where the functions of such calls are held**, an evaluation that fails does so at a variable, or at a
call with arguments. -/
theorem Expr.failure_of_held (herr : (e.eval registry vars).result = .error err) :
    ∃ s, (e.eval registry vars).requests.getLast? = some s ∧
      ((∃ p ∈ e.paths, s = .lookup p ∧ vars p = .error err) ∨
        ∃ f n, n ≠ 0 ∧ s = .check f n ∧ registry.callee f n = .error err) := by
  obtain ⟨before, s, hfirst⟩ := e.follows_eval.error_iff.mp herr
  have hlast : (e.eval registry vars).requests.getLast? = some s := by
    rw [e.follows_eval.requests_of_first hfirst, List.getLast?_concat]
  refine ⟨s, hlast, ?_⟩
  obtain hlookup | ⟨⟨f, n⟩, hc, rfl, hfails⟩ := Expr.step_of_first hfirst
  · exact .inl hlookup
  · refine .inr ⟨f, n, ?_, rfl, hfails⟩
    rintro rfl
    obtain ⟨g, hg, harity⟩ := hheld f (Expr.mem_calls_zero.mp hc)
    have hpasses : registry.admits (f, 0) = .ok g := Registry.callee_eq_ok_iff.mpr ⟨hg, harity⟩
    rw [hpasses] at hfails
    cases hfails

/-- A call with arguments is refused for itself. -/
theorem Registry.not_blamesNullary_of_callee (hn : n ≠ 0) (h : registry.callee f n = .error err) :
    ¬ err.BlamesNullary e := by
  rcases callee_eq_error_iff.mp h with ⟨hnone, rfl⟩ | ⟨g, -, -, rfl⟩
  · rintro (_ | hf)
    obtain ⟨g, hg, -⟩ := hheld f hf
    rw [hg] at hnone
    cases hnone
  · rintro ⟨⟩
    exact hn rfl

theorem Expr.lookup_of_blamed (hblames : err.BlamesNullary e)
    (herr : (e.eval registry vars).result = .error err) : ∃ p ∈ e.paths, vars p = .error err := by
  obtain ⟨s, -, ⟨p, hp, -, hvars⟩ | ⟨f, n, hn, -, hfails⟩⟩ := Expr.failure_of_held hheld herr
  · exact ⟨p, hp, hvars⟩
  · exact absurd hblames (Registry.not_blamesNullary_of_callee hheld hn hfails)

end Held

theorem Engine.nullaryCallsFit_of_held {engine : Engine}
    (hheld : ∀ f, .call f [] ∈ e.subtrees → ∃ g, engine.registry.get? f = some g ∧ g.arity = 0) :
    engine.NullaryCallsFit e := by
  refine ⟨hheld, fun vars err f herr hlast => ?_, fun vars err => Expr.lookup_of_blamed hheld,
    fun table err hblames herr => ?_⟩
  · obtain ⟨s, hs, ⟨p, -, rfl, -⟩ | ⟨g, n, hn, rfl, -⟩⟩ := Expr.failure_of_held hheld herr
    · cases hs.symm.trans hlast
    · cases hs.symm.trans hlast
      exact hn rfl
  · obtain ⟨p, -, hp⟩ := Expr.lookup_of_blamed hheld hblames herr
    obtain rfl := VarMap.environment_eq_error hp
    cases hblames

/-! ### Engines -/

/-- In a dialect that lists a name, the name and a pair of parentheses are a call. -/
theorem Expr.ofSource_nullaryCall (hf : IsName f) : ∃ ts, Token.ofSource (f ++ "()") = .ok ts ∧
    ∀ δ : Dialect, 1 ≤ δ.maxDepth → f ∈ δ.nullary → Expr.ofTokens δ ts = .ok (.call f []) := by
  have hdisplay : (Expr.call f []).display = f ++ "()" := by
    rw [Expr.display, Expr.displayArgs, String.append_empty, String.append_assoc]
    rfl
  have hread : ∀ δ : Dialect, f ∈ δ.nullary → ∃ ts, Token.ofSource (f ++ "()") = .ok ts ∧
      (1 ≤ δ.maxDepth → Expr.ofTokens δ ts = .ok (.call f [])) := by
    intro δ hδ
    have hproper : ∀ x ∈ (Expr.call f []).subtrees, x.Proper δ.nullary := by
      intro x hx
      obtain rfl := List.mem_singleton.mp hx
      exact .call hf fun _ => hδ
    obtain ⟨ts, hts, hderives⟩ := Expr.derives_display ((Expr.isWellFormed_iff _).mpr hproper)
    rw [hdisplay] at hts
    exact ⟨ts, hts, (hderives.ofTokens δ.maxDepth).1⟩
  obtain ⟨ts, hts, -⟩ := hread ⟨1, [f]⟩ (List.mem_singleton_self f)
  refine ⟨ts, hts, fun δ hdepth hδ => ?_⟩
  obtain ⟨us, hus, hok⟩ := hread δ hδ
  obtain rfl := Except.ok.inj (hts.symm.trans hus)
  exact hok hdepth

namespace Engine

variable {engine : Engine} {source : String}

/-- The engine behind some changes of its functions. -/
def after (engine : Engine) (changes : List Registry.Change) : Engine :=
  { engine with registry := engine.registry.after changes }

theorem nullaryCallsFit_of_proper (h : ∀ x ∈ e.subtrees, x.Proper engine.dialect.nullary) :
    engine.NullaryCallsFit e := by
  refine nullaryCallsFit_of_held fun f hf => ?_
  have hmem : f ∈ engine.registry.nullaryNames := (Expr.proper_call_iff.mp (h _ hf)).2 rfl
  exact Registry.mem_nullaryNames.mp hmem

/-- **What an engine reads fits it.** -/
theorem nullaryCallsFit_expression (h : (engine.expression source).result = .ok e) :
    engine.NullaryCallsFit e := by
  obtain ⟨ts, hts, he⟩ := expression_eq_ok_iff.mp h
  exact nullaryCallsFit_of_proper (Expr.proper_of_ofTokens hts he)

/-- **A name and a pair of parentheses are a call** where the function is held. -/
theorem expression_nullaryCall (hf : IsName f) (hdepth : 1 ≤ engine.settings.maxDepth)
    (hheld : ∃ g, engine.registry.get? f = some g ∧ g.arity = 0) :
    (engine.expression (f ++ "()")).result = .ok (.call f []) := by
  obtain ⟨ts, hts, hcall⟩ := Expr.ofSource_nullaryCall hf
  have hmem : f ∈ engine.dialect.nullary := Registry.mem_nullaryNames.mpr hheld
  exact expression_eq_ok_iff.mpr ⟨ts, hts, hcall _ hdepth hmem⟩

/-- **Otherwise they are nothing**: a dialect that lists the name reads no other tree in them. -/
theorem held_of_expression_nullaryCall (hf : IsName f) (hdepth : 1 ≤ engine.settings.maxDepth)
    (he : (engine.expression (f ++ "()")).result = .ok e) :
    ∃ g, engine.registry.get? f = some g ∧ g.arity = 0 := by
  obtain ⟨ts, hts, hcall⟩ := Expr.ofSource_nullaryCall hf
  obtain ⟨us, hus, hread⟩ := expression_eq_ok_iff.mp he
  obtain rfl := Except.ok.inj (hts.symm.trans hus)
  have hlisted := hcall ⟨engine.settings.maxDepth, [f]⟩ hdepth (List.mem_singleton_self f)
  have hsame : e = .call f [] := Dialect.onlyRefuses_expression.agree hread hlisted
  have hmem : .call f [] ∈ e.subtrees := by
    rw [hsame]
    exact List.mem_cons_self
  exact (nullaryCallsFit_expression he).held f hmem

/-- Such a call passes the check. -/
theorem check_nullaryCall (hf : IsName f) (hdepth : 1 ≤ engine.settings.maxDepth)
    (hheld : ∃ g, engine.registry.get? f = some g ∧ g.arity = 0) :
    (engine.check (f ++ "()")).result = .ok (.call f []) := by
  have hread := expression_nullaryCall hf hdepth hheld
  obtain ⟨g, hg, harity⟩ := hheld
  have hcallee : engine.registry.callee f 0 = .ok g := Registry.callee_eq_ok_iff.mpr ⟨hg, harity⟩
  have hnames : engine.registry.checkNames (Expr.call f []).functions = .ok () := by
    refine Registry.checkNames_eq_ok_iff.mpr fun h hh => ?_
    obtain rfl := List.mem_singleton.mp hh
    exact Registry.contains_of_callee hcallee
  have hcalls : engine.registry.checkCalls (Expr.call f []).calls = .ok () := by
    refine Registry.checkCalls_eq_ok_iff.mpr fun c hc => ?_
    obtain rfl := List.mem_singleton.mp hc
    exact ⟨g, hcallee⟩
  have hcheck : (Expr.call f []).check engine.registry = .ok () := by
    rw [Expr.check, hnames]
    exact hcalls
  rw [check_of_ok hread, hcheck]
  rfl

end Engine

/-- What succeeds exactly under a condition fails exactly without it. -/
theorem exists_error_iff_not {ε α : Type} {x : Except ε α} {P : Prop} (h : (∃ a, x = .ok a) ↔ P) :
    (∃ err, x = .error err) ↔ ¬ P := by
  rw [← h]
  cases x <;> simp

/-- **The list of the parser is the registry's.** Whatever has happened to the functions of an engine: in what
it reads or checks, each call without arguments is one of a function that it holds now and that takes none,
and no evaluation fails there. Conversely a name and a pair of parentheses are refused exactly if the engine
does not hold such a function. -/
theorem nullary_calls_fit (engine₀ : Engine) (changes : List Registry.Change) :
    let engine := engine₀.after changes
    (∀ source,
      (∀ e, (engine.expression source).result = .ok e → engine.NullaryCallsFit e) ∧
      (∀ a, (engine.assignment source).result = .ok a → engine.NullaryCallsFit a.value) ∧
      ∀ e, (engine.check source).result = .ok e → engine.NullaryCallsFit e) ∧
    ∀ f, IsName f → 1 ≤ engine.settings.maxDepth →
      ((∃ err, (engine.expression (f ++ "()")).result = .error err) ↔
        ¬ ∃ g, engine.registry.get? f = some g ∧ g.arity = 0) ∧
      ((∃ failure, (engine.check (f ++ "()")).result = .error failure) ↔
        ¬ ∃ g, engine.registry.get? f = some g ∧ g.arity = 0) := by
  intro engine
  refine ⟨fun source => ⟨fun e he => Engine.nullaryCallsFit_expression he, fun a ha => ?_,
    fun e he => ?_⟩, fun f hf hdepth => ⟨exists_error_iff_not ?_, exists_error_iff_not ?_⟩⟩
  · obtain ⟨ts, hts, ha⟩ := Engine.assignment_eq_ok_iff.mp ha
    exact Engine.nullaryCallsFit_of_proper (Assignment.proper_of_ofTokens hts ha).2
  · exact Engine.nullaryCallsFit_expression (Engine.of_check_eq_ok he).1
  · exact ⟨fun ⟨e, he⟩ => Engine.held_of_expression_nullaryCall hf hdepth he,
      fun h => ⟨_, Engine.expression_nullaryCall hf hdepth h⟩⟩
  · exact ⟨fun ⟨e, he⟩ => Engine.held_of_expression_nullaryCall hf hdepth (Engine.of_check_eq_ok he).1,
      fun h => ⟨_, Engine.check_nullaryCall hf hdepth h⟩⟩

/-- When `now` has become a function without arguments and `abs` is no longer known, `now()+x` fits the engine
and `abs()` is refused. -/
theorem nullary_calls_fit_now :
    let engine₀ : Engine := ⟨.standard, Registry.builtins⟩
    let changes : List Registry.Change :=
      [.register "now" ⟨2, fun _ => Decimal.zero⟩, .register "now" ⟨0, fun _ => Decimal.one⟩,
        .register "abs" ⟨0, fun _ => Decimal.one⟩, .unregister "abs"]
    let engine := engine₀.after changes
    let e : Expr := .binary (.call "now" []) .add (.path ["x"])
    (engine.expression "now()+x").result = .ok e ∧
      engine.NullaryCallsFit e ∧ ∃ err, (engine.expression "abs()").result = .error err := by
  intro engine₀ changes engine e
  have he : (engine.expression "now()+x").result = .ok e := by decide +kernel
  have habs : ¬ ∃ g, engine.registry.get? "abs" = some g ∧ g.arity = 0 := by
    have hnone : engine.registry.get? "abs" = none := engine₀.registry.get?_after changes "abs"
    rintro ⟨g, hg, -⟩
    rw [hnone] at hg
    cases hg
  have hfit := nullary_calls_fit engine₀ changes
  refine ⟨he, (hfit.1 _).1 e he, ?_⟩
  exact (hfit.2 "abs" (isIdentifier_iff.mp (by decide +kernel)) (by decide)).1.mpr habs

end Formula
