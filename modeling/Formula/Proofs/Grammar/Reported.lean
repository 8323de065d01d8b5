import Formula.Proofs.Grammar.Reuse

/-!
# What an error reports

An error stands at the token before which the parser stopped, or at the end of the tokens, and its fault
is true of that token (`ParseFault.Describes`): what is reported as found is what stands there, a number
that is reported as unreadable cannot be read, a call that lacks arguments ends there. Every parser of the
grammar reports so, from every state (`reporting_wholeExpression`, `reporting_wholeAssignment`).

So an error never speaks of a token that is not there. If all number tokens can be read, no number is
reported as unreadable (`Reachable.readable`).
-/

namespace Formula

/-- **What a fault says** of the tokens left where it was found. -/
def ParseFault.Describes (input : Parser.Input) (rest : List Token) : ParseFault → Prop
  | .emptyExpression => input.tokens = []
  | .emptyAssignment => input.tokens = []
  | .unexpected _ found => found = rest.head?
  | .trailing t => rest.head? = some t
  | .tooDeep limit => limit = input.dialect.maxDepth
  | .invalidNumber text =>
    ∃ t ∈ rest.head?, t.kind = .number ∧ t.text = text ∧ Decimal.read? text = none
  | .numberOutOfRange text => ∃ t ∈ rest.head?, t.kind = .number ∧ t.text = text ∧
      ∃ x, Decimal.read? text = some x ∧ x.isFinite = false
  | .noArguments name => name ∉ input.dialect.nullary ∧ ∃ t ∈ rest.head?, t.isSymbol ")" = true

namespace Parser

variable {α β : Type} {input : Input} {s : State}

/-- An error stands where the parser stopped, and its fault is true there. -/
def Reports (input : Input) : Reply α → Prop
  | .done _ _ => True
  | .failed e s => e.position = s.position input ∧ e.fault.Describes input s.rest

/-- The parser reports so from every state. -/
def Reporting (p : Parser α) : Prop :=
  ∀ input s, Reports input (p input s)

/-! ### Rules -/

theorem Reports.bind {p : Parser α} {f : α → Parser β} (hp : Reports input (p input s))
    (hf : ∀ a s', p input s = .done a s' → Reports input (f a input s')) :
    Reports input ((p >>= f) input s) := by
  rw [bind_apply]
  cases hps : p input s with
  | done a s' => exact hf a s' hps
  | failed e s' => rwa [hps] at hp

/-- Looking ahead changes nothing. -/
theorem Reports.look {p : Parser α} {f : α → Parser β} {a : α} (hp : p input s = .done a s)
    (hf : Reports input (f a input s)) : Reports input ((p >>= f) input s) := by
  rw [bind_apply, hp]
  exact hf

theorem Reports.fail {fault : ParseFault} (h : fault.Describes input s.rest) :
    Reports input ((fail fault : Parser α) input s) :=
  ⟨rfl, h⟩

theorem reporting_pure (a : α) : Reporting (pure a) := fun _ _ => trivial

theorem reporting_advance : Reporting advance := fun _ _ => trivial

theorem reporting_expected (what : Expectation) : Reporting (expected what : Parser α) :=
  fun _ _ => .fail rfl

theorem Reporting.bind {p : Parser α} {f : α → Parser β} (hp : Reporting p)
    (hf : ∀ a, Reporting (f a)) : Reporting (p >>= f) :=
  fun input s => (hp input s).bind fun a s' _ => hf a input s'

theorem reporting_require (symbol : String) (what : Expectation) :
    Reporting (require symbol what) := by
  intro input s
  refine Reports.look (p := nextIs symbol) rfl ?_
  split
  · exact reporting_advance input s
  · exact reporting_expected what input s

/-- What stands before the next token changes neither when a level opens nor when it closes. -/
theorem Reporting.inside {p : Parser α} (hp : Reporting p) : Reporting (inside p) := by
  intro input s
  unfold Parser.inside
  split
  · exact .fail rfl
  · have h := hp input s.deeper
    cases hps : p input s.deeper with
    | done a s' => exact trivial
    | failed e s' => rwa [hps] at h

theorem Reporting.insideFinally {p : Parser α} (hp : Reporting p) : Reporting (insideFinally p) := by
  intro input s
  unfold Parser.insideFinally
  split
  · exact .fail rfl
  · have h := hp input s.deeper
    cases hps : p input s.deeper with
    | done a s' => exact trivial
    | failed e s' => rwa [hps] at h

/-! ### The parsers of the grammar -/

variable {q operand item : Parser Expr}

theorem reporting_chain (ops : List BinaryOp) (hq : Reporting operand) :
    ∀ n x, Reporting (chain ops operand n x)
  | 0, x => reporting_pure x
  | n + 1, x => by
    intro input s
    rw [chain]
    obtain ⟨o, ho, -⟩ := operator?_apply input ops s
    refine Reports.look ho ?_
    cases o with
    | none => exact reporting_pure x input s
    | some op =>
      exact (reporting_advance.bind fun _ => hq.bind fun y =>
        reporting_chain ops hq n (.binary x op y)).inside input s

theorem reporting_level (ops : List BinaryOp) (hq : Reporting operand) :
    Reporting (level ops operand) := by
  intro input s
  rw [level_apply]
  exact (hq input s).bind fun x s' _ =>
    Reports.look (p := remaining) rfl (reporting_chain ops hq _ x input s')

theorem reporting_expressionOver (hq : Reporting q) : Reporting (expressionOver q) := by
  unfold expressionOver
  induction levels with
  | nil => exact hq
  | cons ops ls ih => exact reporting_level ops ih

theorem reporting_pathFrom (root : String) : Reporting (pathFrom root) := by
  have hattr : Reporting attributes := fun _ _ => trivial
  refine hattr.bind fun names input s => Reports.look (p := nextIs ".") rfl ?_
  split
  · exact (reporting_advance.bind fun _ => reporting_expected _) input s
  · exact reporting_pure _ input s

/-- A number is reported where it stands. -/
theorem reports_number {t : Token} (ht : s.rest.head? = some t) (hk : t.kind = .number) :
    Reports input (number t input s) := by
  unfold number
  cases hread : Decimal.read? t.text with
  | none => exact .fail ⟨t, ht, hk, rfl, hread⟩
  | some x =>
    dsimp only
    split
    · exact trivial
    · next hfinite => exact .fail ⟨t, ht, hk, rfl, x, hread, Bool.eq_false_iff.mpr hfinite⟩

theorem reporting_moreArguments (hq : Reporting item) : ∀ n, Reporting (moreArguments item n)
  | 0 => reporting_pure []
  | n + 1 => by
    intro input s
    rw [moreArguments]
    refine Reports.look (p := nextIs ",") rfl ?_
    split
    · have hrest := hq.bind fun y => (reporting_moreArguments hq n).bind fun ys => reporting_pure (y :: ys)
      exact (reporting_advance.bind fun _ => hrest) input s
    · exact reporting_pure [] input s

theorem reporting_arguments (hq : Reporting item) : Reporting (arguments item) :=
  hq.bind fun _ _ _ => Reports.look (p := remaining) rfl <|
    ((reporting_moreArguments hq _).bind fun _ => reporting_pure _) _ _

/-- A call without arguments is refused at the parenthesis that closes it. -/
theorem reporting_callOf (name : String) (hq : Reporting item) : Reporting (callOf name item) := by
  intro input s
  refine Reports.look (p := position) rfl ((reporting_advance input s).bind fun _ s₁ _ => ?_)
  refine Reports.look (p := nextIs ")") rfl ?_
  cases hclosed : s₁.rest.head?.any (·.isSymbol ")") with
  | true =>
    obtain ⟨t, ht, hsym⟩ := Option.any_eq_true _ _ |>.mp hclosed
    refine Reports.look (p := isNullary name) rfl ?_
    split
    · exact trivial
    · next hname => exact .fail ⟨by simpa using hname, t, ht, hsym⟩
  | false =>
    have hclose := fun opened args => (reporting_require ")" (.argument name opened)).bind
      fun _ => reporting_pure (Expr.call name args)
    exact ((reporting_arguments hq).bind fun args => hclose _ args) input s₁

theorem reporting_parenthesized (opened : ℕ) (hq : Reporting item) :
    Reporting (parenthesized opened item) :=
  reporting_advance.bind fun _ => hq.bind fun x =>
    (reporting_require ")" (.closing opened)).bind fun _ => reporting_pure x

theorem reporting_primary (hq : Reporting q) : Reporting (primary q) := by
  intro input s
  have hexp := reporting_expressionOver hq
  refine Reports.look (p := next?) rfl ?_
  cases ht : s.rest.head? with
  | none => exact reporting_expected .expression input s
  | some t =>
    dsimp only
    cases hk : t.kind with
    | number => exact reports_number ht hk
    | quoted =>
      have hpath := (reporting_pathFrom t.text).bind fun p => reporting_pure (Expr.path p)
      exact (reporting_advance.bind fun _ => hpath) input s
    | name =>
      refine (reporting_advance input s).bind fun _ s₁ _ => Reports.look (p := nextIs "(") rfl ?_
      split
      · exact reporting_callOf t.text hexp input s₁
      · exact ((reporting_pathFrom t.text).bind fun p => reporting_pure (Expr.path p)) input s₁
    | symbol =>
      dsimp only
      split
      · exact reporting_parenthesized _ hexp input s
      · exact reporting_expected .expression input s

theorem reporting_power (hq : Reporting q) : Reporting (power q) := by
  refine (reporting_primary hq).bind fun b input s => Reports.look (p := nextIs "^") rfl ?_
  split
  · exact (reporting_advance.bind fun _ => hq.bind fun y => reporting_pure _) input s
  · exact reporting_pure b input s

theorem reporting_unaryLevel (hq : Reporting q) : Reporting (unaryLevel q) := by
  refine Reporting.insideFinally fun input s => ?_
  obtain ⟨o, ho, -⟩ := sign?_apply input s
  refine Reports.look ho ?_
  cases o with
  | none => exact reporting_power hq input s
  | some op => exact (reporting_advance.bind fun _ => hq.bind fun x => reporting_pure _) input s

theorem reporting_nested {stop : Parser Expr} (hstop : Reporting stop) :
    ∀ n, Reporting (nested stop n)
  | 0 => hstop
  | n + 1 => fun input s => reporting_unaryLevel (reporting_nested hstop n) input s

theorem reporting_expression : Reporting expression :=
  reporting_expressionOver fun input s =>
    reporting_nested (reporting_expected _) (s.rest.length + 1) input s

/-! ### Whole formulas -/

theorem reporting_nonempty (fault : ParseFault)
    (h : ∀ input : Input, input.tokens = [] → ∀ rest, fault.Describes input rest) :
    Reporting (nonempty fault) := by
  intro input s
  unfold nonempty
  split
  · next hempty => exact .fail (h input (List.isEmpty_iff.mp hempty) s.rest)
  · exact trivial

theorem reporting_finished : Reporting finished := by
  intro input s
  refine Reports.look (p := next?) rfl ?_
  cases ht : s.rest.head? with
  | none => exact trivial
  | some t => exact .fail ht

theorem reporting_unfinished (what : Expectation) : Reporting (unfinished what) := by
  intro input s
  refine Reports.look (p := next?) rfl ?_
  cases s.rest.head? with
  | none => exact reporting_expected what input s
  | some t => exact trivial

theorem reporting_destination : Reporting destination := by
  intro input s
  refine Reports.look (p := next?) rfl ?_
  cases s.rest.head? with
  | none => exact reporting_expected .destination input s
  | some t =>
    dsimp only
    split
    · exact (reporting_advance.bind fun _ => reporting_pathFrom t.text) input s
    · exact reporting_expected .destination input s

/-- **The errors of expressions** are true where they stand. -/
theorem reporting_wholeExpression : Reporting wholeExpression :=
  (reporting_nonempty .emptyExpression fun _ h _ => h).bind fun _ => reporting_expression.bind fun e =>
    reporting_finished.bind fun _ => reporting_pure e

/-- **The errors of assignments** are true where they stand. -/
theorem reporting_wholeAssignment : Reporting wholeAssignment := by
  refine (reporting_nonempty .emptyAssignment fun _ h _ => h).bind fun _ => ?_
  refine reporting_destination.bind fun path => ?_
  refine (reporting_require "=" .equals).bind fun _ => (reporting_unfinished .value).bind fun _ => ?_
  exact reporting_expression.bind fun e => reporting_finished.bind fun _ => reporting_pure _

/-! ### Numbers -/

/-- **Numbers that can be read** are not reported as unreadable. -/
theorem Reporting.readable {p : Parser α} (hp : Reporting p) (hsettled : Settled 0 p)
    (hrest : ∀ t ∈ s.rest, t.kind = .number → Decimal.read? t.text ≠ none) (pos : ℕ) (text : String) :
    (p input s).result ≠ .error ⟨pos, .invalidNumber text⟩ := by
  intro h
  have hreports := hp input s
  have hsuffix := (hsettled input s).suffix
  cases hr : p input s with
  | done a s' => rw [hr] at h; cases h
  | failed e s' =>
    rw [hr] at h hreports hsuffix
    cases h
    obtain ⟨-, t, ht, hk, rfl, hnone⟩ := hreports
    exact hrest t (hsuffix.subset (List.mem_of_mem_head? ht)) hk hnone

/-- After any calls, neither an expression nor an assignment fails by a number token that can be read. -/
theorem Reachable.readable (h : Reachable input s)
    (htokens : ∀ t ∈ input.tokens, t.kind = .number → Decimal.read? t.text ≠ none) (pos : ℕ)
    (text : String) :
    (wholeExpression input s).result ≠ .error ⟨pos, .invalidNumber text⟩ ∧
      (wholeAssignment input s).result ≠ .error ⟨pos, .invalidNumber text⟩ := by
  have hrest : ∀ t ∈ s.rest, t.kind = .number → Decimal.read? t.text ≠ none :=
    fun t ht => htokens t (h.suffix.subset ht)
  exact ⟨reporting_wholeExpression.readable settled_wholeExpression hrest pos text,
    reporting_wholeAssignment.readable settled_wholeAssignment hrest pos text⟩

end Parser

end Formula
