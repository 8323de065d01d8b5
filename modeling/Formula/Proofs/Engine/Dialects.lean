import Formula.Engine.Basic
import Formula.Proofs.Grammar.Lockstep

/-!
# Dialects only refuse

A dialect decides which formulas are accepted, and nothing else. Against a larger one (`Within`), with
more levels and more functions that may be called without arguments, it only adds refusals: for nesting
beyond its own limit, and for calls without arguments of the functions that it lacks (`Refuses`). Both
runs of the parser stay in lockstep until the first of these.

So what is accepted stays accepted, with the same tree. Two dialects that both accept tokens lie within a
common larger one (`join`), which accepts them with the trees of both.
-/

namespace Formula

variable {δ δ' : Dialect} {α : Type}

namespace Dialect

/-- The second dialect allows all that the first one allows. -/
structure Within (δ δ' : Dialect) : Prop where
  maxDepth_le : δ.maxDepth ≤ δ'.maxDepth
  nullary_subset : δ.nullary ⊆ δ'.nullary

/-- **The faults that only the smaller of two dialects finds.** -/
def Refuses (δ δ' : Dialect) : ParseFault → Prop
  | .tooDeep limit => limit = δ.maxDepth
  | .noArguments name => name ∈ δ'.nullary ∧ name ∉ δ.nullary
  | _ => False

/-- A reader of tokens finds the same in a smaller dialect and in a larger one, but for the faults of
the smaller. -/
def OnlyRefuses (read : Dialect → List Token → Except ParseError α) : Prop :=
  ∀ δ δ' : Dialect, δ.Within δ' → ∀ ts, read δ ts = read δ' ts ∨
    ∃ e, read δ ts = .error e ∧ δ.Refuses δ' e.fault

/-- What both dialects allow. -/
def join (δ δ' : Dialect) : Dialect :=
  ⟨max δ.maxDepth δ'.maxDepth, δ.nullary ++ δ'.nullary⟩

theorem within_join_left (δ δ' : Dialect) : δ.Within (δ.join δ') :=
  ⟨Nat.le_max_left _ _, List.subset_append_left _ _⟩

theorem within_join_right (δ δ' : Dialect) : δ'.Within (δ.join δ') :=
  ⟨Nat.le_max_right _ _, List.subset_append_right _ _⟩

/-! ### The runs of the parser -/

/-- The runs in a dialect and in a larger one. -/
def Within.lockstep (h : δ.Within δ') (ts : List Token) : Parser.Lockstep ⟨ts, δ⟩ ⟨ts, δ'⟩ where
  offset := 0
  Exact := True
  Refusal := δ.Refuses δ'
  isEmpty_eq := rfl
  stop_eq _ := rfl
  deep_of_deep d hd := by
    have hle := h.maxDepth_le
    simp only at hd ⊢
    omega
  deep_or_refusal _ _ := .inr rfl
  nullary_subset := h.nullary_subset
  nullary_or_refusal name hname := by
    by_cases hin : name ∈ δ.nullary
    · exact .inl hin
    · exact .inr ⟨hname, hin⟩

theorem onlyRefuses_of_keeps {p : Parser α}
    (hp : ∀ {input input' : Parser.Input} (L : Parser.Lockstep input input'), L.Keeps p p) :
    OnlyRefuses fun δ ts => (p ⟨ts, δ⟩ ⟨ts, 0⟩).result := by
  intro δ δ' h ts
  have hanswers : (h.lockstep ts).Answers 0 (p ⟨ts, δ⟩ ⟨ts, 0⟩) (p ⟨ts, δ'⟩ ⟨ts, 0⟩) :=
    hp (h.lockstep ts) (.same (h.lockstep ts) ts 0)
  rcases hanswers.result_eq_or trivial with heq | hrefused
  · dsimp only
    rw [heq]
    cases (p ⟨ts, δ'⟩ ⟨ts, 0⟩).result with
    | ok a => exact .inl rfl
    | error e =>
      -- Both may be nested too deeply; each error then names the limit of its own dialect.
      by_cases hdeep : ∃ limit, e.fault = .tooDeep limit
      · obtain ⟨limit, hfault⟩ := hdeep
        refine .inr ⟨_, rfl, ?_⟩
        change δ.Refuses δ' (e.fault.withLimit δ.maxDepth)
        rw [hfault]
        rfl
      · left
        change Except.error (e.withLimit δ.maxDepth) = .error e
        rw [ParseError.withLimit_of_ne fun limit hfault => hdeep ⟨limit, hfault⟩]
  · exact .inr hrefused

theorem onlyRefuses_expression : OnlyRefuses Expr.ofTokens :=
  onlyRefuses_of_keeps fun _ => Parser.Lockstep.keeps_wholeExpression

theorem onlyRefuses_assignment : OnlyRefuses Assignment.ofTokens :=
  onlyRefuses_of_keeps fun _ => Parser.Lockstep.keeps_wholeAssignment

/-! ### What is accepted -/

variable {read : Dialect → List Token → Except ParseError α} {ts : List Token} {a a' : α}

/-- A larger dialect accepts as well, with the same tree. -/
theorem OnlyRefuses.accepts (h : OnlyRefuses read) (hwithin : δ.Within δ') (ha : read δ ts = .ok a) :
    read δ' ts = .ok a := by
  rcases h δ δ' hwithin ts with heq | ⟨e, he, -⟩
  · rw [← heq, ha]
  · rw [ha] at he
    cases he

/-- Two dialects that accept tokens accept them with one tree. -/
theorem OnlyRefuses.agree (h : OnlyRefuses read) (ha : read δ ts = .ok a)
    (ha' : read δ' ts = .ok a') : a = a' := by
  have hjoin := h.accepts (δ.within_join_left δ') ha
  rw [h.accepts (δ.within_join_right δ') ha'] at hjoin
  exact (Except.ok.inj hjoin).symm

end Dialect

/-! ### Sources -/

variable {engine : Engine} {source : String} {e : Expr} {a : Assignment}

theorem Engine.expression_eq_ok_iff : (engine.expression source).result = .ok e ↔
    ∃ ts, Token.ofSource source = .ok ts ∧ Expr.ofTokens engine.dialect ts = .ok e :=
  Token.read_bind_eq_ok_iff fun ts => by cases Expr.ofTokens engine.dialect ts <;> rfl

theorem Engine.assignment_eq_ok_iff : (engine.assignment source).result = .ok a ↔
    ∃ ts, Token.ofSource source = .ok ts ∧ Assignment.ofTokens engine.dialect ts = .ok a :=
  Token.read_bind_eq_ok_iff fun ts => by cases Assignment.ofTokens engine.dialect ts <;> rfl

/-- **A dialect only refuses.** A smaller dialect finds the same in all tokens as a larger one, or one of
its own faults; so a source that it accepts is accepted by the larger one with the same tree. Whatever two
dialects or two engines both accept has one tree. -/
theorem dialects_only_refuse :
    (Dialect.OnlyRefuses Expr.ofTokens ∧ Dialect.OnlyRefuses Assignment.ofTokens) ∧
    (∀ δ δ' : Dialect, δ.Within δ' → ∀ source : String,
      (∀ e, (Expr.ofSource δ source).result = .ok e → (Expr.ofSource δ' source).result = .ok e) ∧
      ∀ a, (Assignment.ofSource δ source).result = .ok a →
        (Assignment.ofSource δ' source).result = .ok a) ∧
    (∀ (δ δ' : Dialect) (ts : List Token),
      (∀ e e', Expr.ofTokens δ ts = .ok e → Expr.ofTokens δ' ts = .ok e' → e = e') ∧
      ∀ a a', Assignment.ofTokens δ ts = .ok a → Assignment.ofTokens δ' ts = .ok a' → a = a') ∧
    ∀ (engine engine' : Engine) (source : String),
      (∀ e e', (engine.expression source).result = .ok e →
        (engine'.expression source).result = .ok e' → e = e') ∧
      ∀ a a', (engine.assignment source).result = .ok a →
        (engine'.assignment source).result = .ok a' → a = a' := by
  have hexpr := Dialect.onlyRefuses_expression
  have hassign := Dialect.onlyRefuses_assignment
  refine ⟨⟨hexpr, hassign⟩, fun δ δ' h source => ⟨fun e he => ?_, fun a ha => ?_⟩,
    fun δ δ' ts => ⟨fun e e' => hexpr.agree, fun a a' => hassign.agree⟩,
    fun engine engine' source => ⟨fun e e' he he' => ?_, fun a a' ha ha' => ?_⟩⟩
  · obtain ⟨ts, hts, he⟩ := Expr.ofSource_eq_ok_iff.mp he
    exact Expr.ofSource_eq_ok_iff.mpr ⟨ts, hts, hexpr.accepts h he⟩
  · obtain ⟨ts, hts, ha⟩ := Assignment.ofSource_eq_ok_iff.mp ha
    exact Assignment.ofSource_eq_ok_iff.mpr ⟨ts, hts, hassign.accepts h ha⟩
  · obtain ⟨ts, hts, he⟩ := Engine.expression_eq_ok_iff.mp he
    obtain ⟨ts', hts', he'⟩ := Engine.expression_eq_ok_iff.mp he'
    obtain rfl := Except.ok.inj (hts.symm.trans hts')
    exact hexpr.agree he he'
  · obtain ⟨ts, hts, ha⟩ := Engine.assignment_eq_ok_iff.mp ha
    obtain ⟨ts', hts', ha'⟩ := Engine.assignment_eq_ok_iff.mp ha'
    obtain rfl := Except.ok.inj (hts.symm.trans hts')
    exact hassign.agree ha ha'

/-- With two levels and no function without arguments, `now()` is refused and `1+2` is accepted. -/
theorem dialects_only_refuse_now :
    let δ : Dialect := ⟨2, []⟩
    let δ' : Dialect := ⟨3, ["now"]⟩
    let ts : List Token := [⟨.name, "now", 0⟩, ⟨.symbol, "(", 3⟩, ⟨.symbol, ")", 4⟩]
    let e : Expr := .binary (.literal 1) .add (.literal 2)
    δ.Within δ' ∧ Expr.ofTokens δ ts = .error ⟨4, .noArguments "now"⟩ ∧
      (Expr.ofTokens δ ts = Expr.ofTokens δ' ts ∨
        ∃ err, Expr.ofTokens δ ts = .error err ∧ δ.Refuses δ' err.fault) ∧
      (Expr.ofSource δ "1+2").result = .ok e ∧ (Expr.ofSource δ' "1+2").result = .ok e := by
  intro δ δ' ts e
  have hwithin : δ.Within δ' := ⟨by decide, by decide⟩
  have hsum : (Expr.ofSource δ "1+2").result = .ok e := by decide +kernel
  exact ⟨hwithin, by decide +kernel, dialects_only_refuse.1.1 δ δ' hwithin ts, hsum,
    (dialects_only_refuse.2.1 δ δ' hwithin "1+2").1 e hsum⟩

end Formula
