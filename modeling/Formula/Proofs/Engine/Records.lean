import Formula.Proofs.Engine.Layout
import Formula.Proofs.Token.Spans

/-!
# One failure, one record

An evaluation records a failure where it arises and not again on the way back, whatever operators and calls stand
around it: its records are those of the steps that it takes (`Expr.logged_eval`), and of these only the last can
fail. So an engine that evaluates a source writes one record for each token before the first that is none, and
behind them at most one more: none if it fails there, or if there is a value, and otherwise the record of the error
that it returns (`evalSource_reports`).
-/

namespace Formula

variable {α β : Type} {registry : Registry} {vars : Environment} {e : Expr} {err : EvalError}
  {engine : Engine} {source : String} {ts : List Token} {log : List LogEvent}

/-! ### The records of an evaluation -/

/-- The record of a failure, if there is one. -/
def failureRecord? (event : EvalError → LogEvent) : Except EvalError α → Option LogEvent
  | .ok _ => none
  | .error err => some (event err)

/-- The record that a step leaves. -/
def Step.record? (registry : Registry) (vars : Environment) : Step → Option LogEvent
  | .lookup p => failureRecord? .lookupFailed (vars p)
  | .check f n => failureRecord? .callRejected (registry.callee f n)
  | .apply .. => none

theorem Step.record?_of_passes {s : Step} (h : ∃ y, s.outcome registry vars = .ok y) :
    s.record? registry vars = none := by
  cases s with
  | lookup p =>
    obtain ⟨x, hx⟩ := exists_map_eq_ok_iff.mp h
    rw [record?, hx, failureRecord?]
  | check f n =>
    obtain ⟨g, hg⟩ := exists_map_eq_ok_iff.mp h
    rw [record?, hg, failureRecord?]
  | apply f args => rfl

/-- **A run is logged** if its records are those of its steps. -/
def Run.Logged (registry : Registry) (vars : Environment) (run : Run EvalError α) : Prop :=
  run.log = run.requests.filterMap (Step.record? registry vars)

namespace Run.Logged

theorem pure (a : α) : Logged registry vars (Pure.pure a : Run EvalError α) :=
  rfl

theorem bind {run : Run EvalError α} {next : α → Run EvalError β} (h : run.Logged registry vars)
    (hnext : ∀ a, (next a).Logged registry vars) : (run >>= next).Logged registry vars := by
  cases hresult : run.result with
  | error err =>
    rw [Run.bind_of_error hresult]
    exact h
  | ok a =>
    rw [Run.bind_of_ok hresult, Logged, requests, List.filter_append, List.filterMap_append]
    exact congrArg₂ (· ++ ·) h (hnext a)

/-- A step that records its failure. -/
theorem ask {s : Step} {event : EvalError → LogEvent} {result : Except EvalError α}
    (hs : s.isRequest = true) (hrecord : s.record? registry vars = failureRecord? event result) :
    (do Run.step s; Run.recordFailure event result).Logged registry vars := by
  have hrequests : (do Run.step s; Run.recordFailure event result).requests = [s] := by
    rw [Run.requests, Run.steps_ask]
    exact List.filter_cons_of_pos hs
  rw [Logged, hrequests, List.filterMap_cons, hrecord]
  cases result <;> rfl

theorem lookup (p : Path) : (vars.lookup p).Logged registry vars :=
  ask rfl rfl

theorem check (f : String) (n : ℕ) : Logged registry vars <| registry.admit f n :=
  ask rfl rfl

theorem applyTo (g : Callable) (f : String) (args : List Float) :
    (g.applyTo f args).Logged registry vars :=
  rfl

end Run.Logged

mutual

/-- **An evaluation records what its steps record**, and nothing else. -/
theorem Expr.logged_eval : ∀ e : Expr, (e.eval registry vars).Logged registry vars
  | .literal x => .pure x
  | .path p => .lookup p
  | .unary _ x => x.logged_eval.bind fun _ => .pure _
  | .binary l _ r => l.logged_eval.bind fun _ => r.logged_eval.bind fun _ => .pure _
  | .call f args => (Run.Logged.check f args.length).bind fun g =>
    (Expr.logged_evalAll args).bind fun values => .applyTo g f values

theorem Expr.logged_evalAll :
    ∀ es : List Expr, (Expr.evalAll registry vars es).Logged registry vars
  | [] => .pure []
  | x :: xs => x.logged_eval.bind fun _ => (Expr.logged_evalAll xs).bind fun _ => .pure _

end

theorem filterMap_record?_of_passes {before : List Step}
    (h : ∀ s ∈ before, ∃ y, s.outcome registry vars = .ok y) :
    before.filterMap (Step.record? registry vars) = [] :=
  List.filterMap_eq_nil_iff.mpr fun s hs => Step.record?_of_passes (h s hs)

/-- Where there is a value, nothing is recorded. -/
theorem Expr.log_eval_of_ok {x : Float} (h : (e.eval registry vars).result = .ok x) :
    (e.eval registry vars).log = [] := by
  have hfollows : Follows registry vars e.steps (e.eval registry vars) := e.follows_eval
  rw [e.logged_eval, hfollows.requests_of_ok h]
  exact filterMap_record?_of_passes (hfollows.ok_iff.mp ⟨x, h⟩)

/-- **Where there is no value, one record is left**: of the variable or of the call that was asked for last. -/
theorem Expr.log_eval_of_error (h : (e.eval registry vars).result = .error err) :
    ∃ before s, (e.eval registry vars).requests = before ++ [s] ∧
      ((∃ p, s = .lookup p ∧ vars p = .error err ∧
          (e.eval registry vars).log = [.lookupFailed err]) ∨
        ∃ f n, s = .check f n ∧ registry.callee f n = .error err ∧
          (e.eval registry vars).log = [.callRejected err]) := by
  have hfollows : Follows registry vars e.steps (e.eval registry vars) := e.follows_eval
  obtain ⟨before, s, hfirst⟩ := hfollows.error_iff.mp h
  have hrequests := hfollows.requests_of_first hfirst
  have hlog : (e.eval registry vars).log = [s].filterMap (Step.record? registry vars) := by
    rw [e.logged_eval, hrequests, List.filterMap_append, filterMap_record?_of_passes hfirst.passes,
      List.nil_append]
  refine ⟨before, s, hrequests, ?_⟩
  obtain ⟨p, -, rfl, hp⟩ | ⟨⟨f, n⟩, -, rfl, hcallee⟩ := Expr.step_of_first hfirst
  · refine .inl ⟨p, rfl, hp, hlog.trans ?_⟩
    rw [List.filterMap_cons, Step.record?, hp]
    rfl
  · refine .inr ⟨f, n, rfl, hcallee, hlog.trans ?_⟩
    rw [List.filterMap_cons, Step.record?, show registry.callee f n = .error err from hcallee]
    rfl

/-! ### What an engine reports -/

/-- How records tell what happens. -/
structure Telling (ρ : Type) where
  token : Token → ρ
  rejected : String → ParseError → ρ
  lookupFailed : EvalError → ρ
  callRejected : EvalError → ρ

/-- The records as events. -/
def Telling.events : Telling LogEvent :=
  ⟨.token, .rejected, .lookupFailed, .callRejected⟩

/-- A record as it is written: its level, its target and its message. -/
def LogEvent.line (event : LogEvent) : String × String × String :=
  (event.level, event.target, event.message)

/-- The records as they are written. -/
def Telling.lines : Telling (String × String × String) where
  token t := ("TRACE", "TOKENIZE", t.kind.label ++ " " ++ Text.quoted t.text ++ " at " ++ toString t.position)
  rejected source err := ("DEBUG", "PARSE", "rejected " ++ Text.quoted source ++ ": " ++ err.describe)
  lookupFailed err := ("DEBUG", "EVAL", "variable lookup failed: " ++ err.message)
  callRejected err := ("DEBUG", "EVAL", "rejected call: " ++ err.message)

/-- **What the evaluation of a source comes to, and its records.** Each of the five cases says what the source is,
what the evaluation returns, and which records it leaves. -/
inductive Engine.Reports {ρ : Type} (telling : Telling ρ) (engine : Engine) (vars : Environment)
    (source : String) : Except Failure Float → List ρ → Prop
  | unreadable {ts : List Token} {err : TokenError} {more : List Item}
      (items : Item.ofSource source = ts.map .ok ++ .error err :: more) :
      Reports telling engine vars source (.error (.source (.token err))) (ts.map telling.token)
  | rejected {ts : List Token} {err : ParseError} (items : Item.ofSource source = ts.map .ok)
      (parsed : Expr.ofTokens engine.dialect ts = .error err) :
      Reports telling engine vars source (.error (.source (.parse err)))
        (ts.map telling.token ++ [telling.rejected source err])
  | lookupFailed {ts : List Token} {e : Expr} {before : List Step} {p : Path} {err : EvalError}
      (items : Item.ofSource source = ts.map .ok) (parsed : Expr.ofTokens engine.dialect ts = .ok e)
      (requests : (engine.eval vars e).requests = before ++ [.lookup p]) (fails : vars p = .error err) :
      Reports telling engine vars source (.error (.eval err))
        (ts.map telling.token ++ [telling.lookupFailed err])
  | callRejected {ts : List Token} {e : Expr} {before : List Step} {f : String} {n : ℕ} {err : EvalError}
      (items : Item.ofSource source = ts.map .ok) (parsed : Expr.ofTokens engine.dialect ts = .ok e)
      (requests : (engine.eval vars e).requests = before ++ [.check f n])
      (fails : engine.registry.callee f n = .error err) :
      Reports telling engine vars source (.error (.eval err))
        (ts.map telling.token ++ [telling.callRejected err])
  | value {ts : List Token} {e : Expr} {x : Float} (items : Item.ofSource source = ts.map .ok)
      (parsed : Expr.ofTokens engine.dialect ts = .ok e) (evaluated : (engine.eval vars e).result = .ok x) :
      Reports telling engine vars source (.ok x) (ts.map telling.token)

/-- Records that are written tell the same. -/
theorem Engine.Reports.written {result : Except Failure Float}
    (h : engine.Reports .events vars source result log) :
    engine.Reports .lines vars source result (log.map LogEvent.line) := by
  have htokens : ∀ ts : List Token,
      (ts.map Telling.events.token).map LogEvent.line = ts.map Telling.lines.token :=
    fun _ => List.map_map
  cases h with
  | unreadable items => rw [htokens]; exact .unreadable items
  | rejected items parsed => rw [List.map_append, htokens]; exact .rejected items parsed
  | lookupFailed items parsed requests fails =>
    rw [List.map_append, htokens]
    exact .lookupFailed items parsed requests fails
  | callRejected items parsed requests fails =>
    rw [List.map_append, htokens]
    exact .callRejected items parsed requests fails
  | value items parsed evaluated => rw [htokens]; exact .value items parsed evaluated

/-! ### Sources -/

theorem Item.tokensBefore_map_ok_append (ts : List Token) (items : List Item) :
    Item.tokensBefore (ts.map .ok ++ items) = ts ++ Item.tokensBefore items := by
  induction ts with
  | nil => rfl
  | cons t ts ih => exact congrArg (t :: ·) ih

theorem Token.result_read {result : Except TokenError (List Token)} (h : Token.ofSource source = result) :
    (Token.read source).result = result.mapError .token := by
  rw [Token.read, h]

theorem Token.log_read {items : List Item} (h : Item.ofSource source = ts.map .ok ++ items)
    (hitems : Item.tokensBefore items = []) : (Token.read source).log = ts.map .token := by
  rw [Token.read, h, Item.tokensBefore_map_ok_append, hitems, List.append_nil]

namespace Engine

theorem log_expression_of_unreadable {err : TokenError} (h : Token.ofSource source = .error err) :
    (engine.expression source).result = .error (.token err) ∧
      (engine.expression source).log = (Token.read source).log := by
  have hread : (Token.read source).result = .error (.token err) := Token.result_read h
  rw [expression, Run.bind_of_error hread]
  exact ⟨rfl, rfl⟩

theorem log_expression (h : Token.ofSource source = .ok ts) :
    (engine.expression source).log = (Token.read source).log ++
      (Run.recordFailure (.rejected source) (Expr.ofTokens engine.dialect ts)).log := by
  have hread : (Token.read source).result = .ok ts := Token.result_read h
  rw [expression, Run.bind_of_ok hread]
  rfl

theorem log_evalSource_of_error {err : SourceError} (h : (engine.expression source).result = .error err) :
    (engine.evalSource vars source).log = (engine.expression source).log := by
  rw [evalSource, Run.bind_of_error (Run.mapError_of_error h)]
  rfl

theorem log_evalSource_of_ok (h : (engine.expression source).result = .ok e) :
    (engine.evalSource vars source).log = (engine.expression source).log ++ (engine.eval vars e).log := by
  rw [evalSource, Run.bind_of_ok (Run.mapError_of_ok h)]
  rfl

end Engine

/-- The records of a source that writes a tree are those of its tokens and those of the evaluation. -/
theorem Engine.reports_of_parsed (hitems : Item.ofSource source = ts.map .ok)
    (hparsed : Expr.ofTokens engine.dialect ts = .ok e) :
    engine.Reports .events vars source ((engine.eval vars e).result.mapError .eval)
      (ts.map .token ++ (engine.eval vars e).log) := by
  cases hresult : (engine.eval vars e).result with
  | ok x =>
    rw [eval, Expr.log_eval_of_ok hresult, List.append_nil]
    exact .value hitems hparsed hresult
  | error err =>
    obtain ⟨before, s, hrequests, ⟨p, rfl, hp, hlog⟩ | ⟨f, n, rfl, hcallee, hlog⟩⟩ :=
      Expr.log_eval_of_error hresult
    · rw [eval, hlog]
      exact .lookupFailed hitems hparsed hrequests hp
    · rw [eval, hlog]
      exact .callRejected hitems hparsed hrequests hcallee

/-- **One failure, one record.** The records of an evaluation are those of the tokens before the first that is none,
and the record of the error that the evaluation returns, if this stands behind them; so it is for the events and
for the lines that are written. -/
theorem evalSource_reports (engine : Engine) (vars : Environment) (source : String) :
    let run := engine.evalSource vars source
    engine.Reports .events vars source run.result run.log ∧
      engine.Reports .lines vars source run.result (run.log.map LogEvent.line) := by
  intro run
  suffices hevents : engine.Reports .events vars source run.result run.log from ⟨hevents, hevents.written⟩
  cases hts : Token.ofSource source with
  | error err =>
    obtain ⟨ts, more, hitems⟩ := Item.collect_eq_error_iff.mp hts
    obtain ⟨hread, hlog⟩ := engine.log_expression_of_unreadable hts
    rw [Engine.evalSource_of_error hread, Engine.log_evalSource_of_error hread, hlog,
      Token.log_read hitems rfl]
    exact .unreadable hitems
  | ok ts =>
    have hitems := Item.collect_eq_ok_iff.mp hts
    have htokens : (Token.read source).log = ts.map .token :=
      Token.log_read (hitems.trans (List.append_nil _).symm) rfl
    have hread : (engine.expression source).result =
        (Expr.ofTokens engine.dialect ts).mapError .parse := Engine.result_expression hts
    have hlog := engine.log_expression hts
    cases hparsed : Expr.ofTokens engine.dialect ts with
    | error err =>
      rw [hparsed] at hread hlog
      rw [Engine.evalSource_of_error hread, Engine.log_evalSource_of_error hread, hlog, htokens]
      exact .rejected hitems hparsed
    | ok e =>
      rw [hparsed] at hread hlog
      have hempty : (engine.expression source).log = ts.map .token := by
        rw [hlog, htokens]
        exact List.append_nil _
      rw [(Engine.evalSource_of_ok hread vars).1, Engine.log_evalSource_of_ok hread, hempty]
      exact Engine.reports_of_parsed hitems hparsed

/-- In `-abs(x,y)` the call is refused before `x` and `y` are asked for, and the sign records nothing. -/
example :
    let vars : Environment := fun p => .error (.unresolved p "no such variable")
    (Engine.evalSource ⟨.standard, .builtins⟩ vars "-abs(x,y)").log =
      [.token ⟨.symbol, "-", 0⟩, .token ⟨.name, "abs", 1⟩, .token ⟨.symbol, "(", 4⟩,
        .token ⟨.name, "x", 5⟩, .token ⟨.symbol, ",", 6⟩, .token ⟨.name, "y", 7⟩,
        .token ⟨.symbol, ")", 8⟩, .callRejected (.argumentCount "abs" 1 2)] := by
  decide +kernel

end Formula
