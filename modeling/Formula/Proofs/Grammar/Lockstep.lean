import Formula.Proofs.Grammar.Reading
import Mathlib.Data.List.Forall2

/-!
# Two runs in lockstep

A `Lockstep` compares the runs of one parser on two inputs. The tokens are the same, up to their
positions if these are not compared (`Exact`), and the left run has a fixed number of levels open beside
those of the right one (`offset`). The dialects decide alike, but for the faults by which the left run
may end alone (`Refusal`).

Whatever parser of the grammar runs on both sides, its replies then stand against each other
(`Answers`): both runs answer with the same value, or both fail with the same error, and both go on or
stop at the same token with the levels still apart by the offset; or the left run was refused. Each rule
is stated for the parsers on both sides (`Keeps`), so the grammar is gone through only once, for
`keeps_wholeExpression` and `keeps_wholeAssignment`.
-/

namespace Formula

/-- The tokens differ at most in their positions. -/
structure Token.Alike (t t' : Token) : Prop where
  kind_eq : t.kind = t'.kind
  text_eq : t.text = t'.text

theorem Token.Alike.isSymbol_eq {t t' : Token} (h : t.Alike t') (s : String) :
    t.isSymbol s = t'.isSymbol s := by
  rw [isSymbol, isSymbol, h.kind_eq, h.text_eq]

/-- The fault under the limit `M`, if it is one of nesting. -/
def ParseFault.withLimit (M : ℕ) : ParseFault → ParseFault
  | .tooDeep _ => .tooDeep M
  | fault => fault

/-- The error under the limit `M`, if it is one of nesting. -/
def ParseError.withLimit (M : ℕ) (e : ParseError) : ParseError :=
  ⟨e.position, e.fault.withLimit M⟩

/-- Only errors of nesting know the limit. -/
theorem ParseError.withLimit_of_ne {e : ParseError} {M : ℕ}
    (h : ∀ limit, e.fault ≠ .tooDeep limit) : e.withLimit M = e := by
  obtain ⟨pos, fault⟩ := e
  cases fault with
  | tooDeep limit => exact absurd rfl (h limit)
  | _ => rfl

namespace Parser

variable {α β : Type} {input input' : Input}

/-- What two runs have in common. -/
structure Lockstep (input input' : Input) where
  /-- How many levels more are open on the left. -/
  offset : ℕ
  /-- Whether positions agree as well. -/
  Exact : Prop
  /-- The faults by which the left run may end alone. -/
  Refusal : ParseFault → Prop
  isEmpty_eq : input.tokens.isEmpty = input'.tokens.isEmpty
  stop_eq : Exact → input.stop = input'.stop
  deep_of_deep : ∀ d, input'.dialect.maxDepth < d + 1 → input.dialect.maxDepth < offset + d + 1
  deep_or_refusal : ∀ d, input.dialect.maxDepth < offset + d + 1 →
    input'.dialect.maxDepth < d + 1 ∨ Refusal (.tooDeep input.dialect.maxDepth)
  nullary_subset : input.dialect.nullary ⊆ input'.dialect.nullary
  nullary_or_refusal : ∀ name ∈ input'.dialect.nullary,
    name ∈ input.dialect.nullary ∨ Refusal (.noArguments name)

namespace Lockstep

variable (L : Lockstep input input')

/-- The states stand against each other, with `n` levels open on the right. -/
structure InStep (n : ℕ) (s s' : State) : Prop where
  alike : List.Forall₂ Token.Alike s.rest s'.rest
  rest_eq : L.Exact → s.rest = s'.rest
  depth_left : s.depth = L.offset + n
  depth_right : s'.depth = n

/-- The replies stand against each other, for runs that began with `n` levels open on the right. -/
inductive Answers (n : ℕ) : Reply α → Reply α → Prop
  | done (a : α) {s s' : State} (h : L.InStep n s s') : Answers n (.done a s) (.done a s')
  | failed {e e' : ParseError} {s s' : State} {m : ℕ} (hm : n ≤ m) (h : L.InStep m s s')
      (he : L.Exact → e = e'.withLimit input.dialect.maxDepth) :
      Answers n (.failed e s) (.failed e' s')
  | refused {e : ParseError} {s : State} {r : Reply α} (h : L.Refusal e.fault) :
      Answers n (.failed e s) r

/-- The parsers, on the left and on the right, keep the runs in step. -/
def Keeps (p p' : Parser α) : Prop :=
  ∀ ⦃n : ℕ⦄ ⦃s s' : State⦄, L.InStep n s s' → L.Answers n (p input s) (p' input' s')

variable {L} {n : ℕ} {s s' : State}

/-! ### Rules -/

/-- States with the same tokens stand against each other. -/
theorem InStep.same (L : Lockstep input input') (ts : List Token) (n : ℕ) :
    L.InStep n ⟨ts, L.offset + n⟩ ⟨ts, n⟩ :=
  ⟨List.forall₂_same.mpr fun _ _ => ⟨rfl, rfl⟩, fun _ => rfl, rfl, rfl⟩

theorem InStep.consume (h : L.InStep n s s') :
    L.InStep n { s with rest := s.rest.tail } { s' with rest := s'.rest.tail } := by
  refine ⟨?_, fun hexact => by rw [h.rest_eq hexact], h.depth_left, h.depth_right⟩
  obtain ⟨rest, d⟩ := s
  obtain ⟨rest', d'⟩ := s'
  cases h.alike with
  | nil => exact .nil
  | cons _ hrest => exact hrest

theorem InStep.deeper (h : L.InStep n s s') : L.InStep (n + 1) s.deeper s'.deeper :=
  ⟨h.alike, h.rest_eq, congrArg Nat.succ h.depth_left, congrArg Nat.succ h.depth_right⟩

theorem InStep.shallower (h : L.InStep (n + 1) s s') : L.InStep n s.shallower s'.shallower :=
  ⟨h.alike, h.rest_eq, congrArg Nat.pred h.depth_left, congrArg Nat.pred h.depth_right⟩

theorem InStep.position_eq (h : L.InStep n s s') (hexact : L.Exact) :
    s.position input = s'.position input' := by
  unfold State.position
  rw [h.rest_eq hexact, L.stop_eq hexact]

theorem keeps_pure (a : α) : L.Keeps (pure a) (pure a) :=
  fun _ _ _ h => .done a h

theorem Keeps.bind {p p' : Parser α} {f f' : α → Parser β} (hp : L.Keeps p p')
    (hf : ∀ a, L.Keeps (f a) (f' a)) : L.Keeps (p >>= f) (p' >>= f') := by
  intro n s s' h
  have hreply := hp h
  rw [bind_apply, bind_apply]
  generalize p input s = r at hreply
  generalize p' input' s' = r' at hreply
  cases hreply with
  | done a h₁ => exact hf a h₁
  | failed hm h₁ he => exact .failed hm h₁ he
  | refused hr => exact .refused hr

/-- Both runs fail at their next token. -/
theorem answers_fail {fault fault' : ParseFault} (h : L.InStep n s s')
    (hfault : L.Exact → fault = fault'.withLimit input.dialect.maxDepth) :
    L.Answers n ((fail fault : Parser α) input s) ((fail fault' : Parser α) input' s') := by
  refine .failed le_rfl h fun hexact => ?_
  rw [ParseError.withLimit, h.position_eq hexact, hfault hexact]

theorem keeps_fail {fault fault' : ParseFault}
    (hfault : L.Exact → fault = fault'.withLimit input.dialect.maxDepth) :
    L.Keeps (fail fault : Parser α) (fail fault') :=
  fun _ _ _ h => answers_fail h hfault

theorem keeps_expected {what what' : Expectation} (hwhat : L.Exact → what = what') :
    L.Keeps (expected what : Parser α) (expected what') :=
  fun _ _ _ h => answers_fail h fun hexact => by rw [hwhat hexact, h.rest_eq hexact]; rfl

theorem keeps_advance : L.Keeps advance advance :=
  fun _ _ _ h => .done () h.consume

theorem keeps_remaining : L.Keeps remaining remaining := by
  intro n s s' h
  unfold remaining
  rw [h.alike.length_eq]
  exact .done _ h

theorem keeps_nextIs (symbol : String) : L.Keeps (nextIs symbol) (nextIs symbol) := by
  intro n s s' h
  obtain ⟨rest, d⟩ := s
  obtain ⟨rest', d'⟩ := s'
  have hnext : rest.head?.any (·.isSymbol symbol) = rest'.head?.any (·.isSymbol symbol) := by
    cases h.alike with
    | nil => rfl
    | cons ht _ => exact ht.isSymbol_eq symbol
  unfold nextIs
  dsimp only
  rw [hnext]
  exact .done _ h

/-- The next tokens, if there are any, are alike. -/
theorem InStep.next (h : L.InStep n s s') :
    (next? input s = .done none s ∧ next? input' s' = .done none s') ∨
      ∃ t t', t.Alike t' ∧ (L.Exact → t = t') ∧
        next? input s = .done (some t) s ∧ next? input' s' = .done (some t') s' := by
  obtain ⟨rest, d⟩ := s
  obtain ⟨rest', d'⟩ := s'
  have hrest : L.Exact → rest = rest' := h.rest_eq
  cases h.alike with
  | nil => exact .inl ⟨rfl, rfl⟩
  | cons ht _ => exact .inr ⟨_, _, ht, fun hexact => (List.cons.inj (hrest hexact)).1, rfl, rfl⟩

/-- A parser that looks at the next token first. -/
theorem keeps_next {f f' : Option Token → Parser α} (hnone : L.Keeps (f none) (f' none))
    (hsome : ∀ t t', Token.Alike t t' → (L.Exact → t = t') → L.Keeps (f (some t)) (f' (some t'))) :
    L.Keeps (next? >>= f) (next? >>= f') := by
  intro n s s' h
  rw [bind_apply, bind_apply]
  rcases h.next with ⟨ht, ht'⟩ | ⟨t, t', halike, hexact, ht, ht'⟩
  · rw [ht, ht']
    exact hnone h
  · rw [ht, ht']
    exact hsome t t' halike hexact h

theorem keeps_require (symbol : String) {what what' : Expectation}
    (hwhat : L.Exact → what = what') :
    L.Keeps (require symbol what) (require symbol what') := by
  refine (keeps_nextIs symbol).bind fun b => ?_
  cases b with
  | true => exact keeps_advance
  | false => exact keeps_expected hwhat

/-- On both sides a level is one too many, or the left run is refused, or the level opens. -/
theorem InStep.enter {r r' : Reply α} (h : L.InStep n s s')
    (hr : L.InStep (n + 1) s.deeper s'.deeper → L.Answers n r r') :
    L.Answers n
      (if input.dialect.maxDepth < s.depth + 1 then
        fail (.tooDeep input.dialect.maxDepth) input s.deeper else r)
      (if input'.dialect.maxDepth < s'.depth + 1 then
        fail (.tooDeep input'.dialect.maxDepth) input' s'.deeper else r') := by
  rw [h.depth_left, h.depth_right]
  by_cases hdeep' : input'.dialect.maxDepth < n + 1
  · rw [if_pos (L.deep_of_deep n hdeep'), if_pos hdeep']
    refine .failed (Nat.le_succ n) h.deeper fun hexact => ?_
    rw [ParseError.withLimit, h.deeper.position_eq hexact]
    rfl
  · rw [if_neg hdeep']
    by_cases hdeep : input.dialect.maxDepth < L.offset + n + 1
    · rw [if_pos hdeep]
      exact .refused ((L.deep_or_refusal n hdeep).resolve_left hdeep')
    · rw [if_neg hdeep]
      exact hr h.deeper

theorem Keeps.inside {p p' : Parser α} (hp : L.Keeps p p') :
    L.Keeps (Parser.inside p) (Parser.inside p') := by
  refine fun n s s' h => h.enter fun hdeeper => ?_
  have hreply := hp hdeeper
  generalize p input s.deeper = r at hreply
  generalize p' input' s'.deeper = r' at hreply
  cases hreply with
  | done a h₁ => exact .done a h₁.shallower
  | failed hm h₁ he => exact .failed (by omega) h₁ he
  | refused hr => exact .refused hr

theorem Keeps.insideFinally {p p' : Parser α} (hp : L.Keeps p p') :
    L.Keeps (Parser.insideFinally p) (Parser.insideFinally p') := by
  refine fun n s s' h => h.enter fun hdeeper => ?_
  have hreply := hp hdeeper
  generalize p input s.deeper = r at hreply
  generalize p' input' s'.deeper = r' at hreply
  cases hreply with
  | done a h₁ => exact .done a h₁.shallower
  | @failed _ _ _ _ m hm h₁ he =>
    -- The level closes after an error too, and the levels around it are still open.
    obtain ⟨m, rfl⟩ : ∃ k, m = k + 1 := ⟨m - 1, by omega⟩
    exact .failed (by omega) h₁.shallower he
  | refused hr => exact .refused hr

/-! ### The parsers of the grammar -/

variable {q q' operand operand' item item' : Parser Expr}

theorem keeps_operator? (ops : List BinaryOp) : L.Keeps (operator? ops) (operator? ops) := by
  refine keeps_next (keeps_pure none) fun t t' ht _ => ?_
  dsimp only
  rw [ht.kind_eq, ht.text_eq]
  split
  · exact keeps_pure _
  · exact keeps_pure _

theorem keeps_sign? : L.Keeps sign? sign? := by
  refine keeps_next (keeps_pure none) fun t t' ht _ => ?_
  dsimp only
  rw [ht.kind_eq, ht.text_eq]
  split
  · exact keeps_pure _
  · exact keeps_pure _

theorem keeps_chain (ops : List BinaryOp) (hq : L.Keeps operand operand') :
    ∀ k x, L.Keeps (chain ops operand k x) (chain ops operand' k x)
  | 0, x => keeps_pure x
  | k + 1, x => by
    rw [chain, chain]
    refine (keeps_operator? ops).bind fun o => ?_
    cases o with
    | none => exact keeps_pure x
    | some op =>
      exact (keeps_advance.bind fun _ => hq.bind fun y => keeps_chain ops hq k _).inside

theorem keeps_level (ops : List BinaryOp) (hq : L.Keeps operand operand') :
    L.Keeps (level ops operand) (level ops operand') := by
  refine hq.bind fun x => (keeps_operator? ops).bind fun o => ?_
  cases o with
  | none => exact keeps_pure x
  | some op => exact keeps_remaining.bind fun k => keeps_chain ops hq k x

theorem keeps_expressionOver (hq : L.Keeps q q') :
    L.Keeps (expressionOver q) (expressionOver q') := by
  unfold expressionOver
  induction levels with
  | nil => exact hq
  | cons ops ls ih => exact keeps_level ops ih

/-- The names behind points are the same, and so is where they end. -/
theorem splitAttributes_alike : ∀ {ts ts' : List Token}, List.Forall₂ Token.Alike ts ts' →
    (splitAttributes ts).1 = (splitAttributes ts').1 ∧
      List.Forall₂ Token.Alike (splitAttributes ts).2 (splitAttributes ts').2
  | _, _, .nil => ⟨rfl, .nil⟩
  | _, _, .cons ht .nil => ⟨rfl, .cons ht .nil⟩
  | _, _, .cons hp (.cons hn h) => by
    obtain ⟨hnames, hrest⟩ := splitAttributes_alike h
    simp only [splitAttributes, hp.isSymbol_eq, hn.kind_eq, hn.text_eq]
    split
    · exact ⟨by rw [hnames], hrest⟩
    · exact ⟨rfl, .cons hp (.cons hn h)⟩

theorem keeps_attributes : L.Keeps attributes attributes := by
  intro n s s' h
  obtain ⟨hnames, hrest⟩ := splitAttributes_alike h.alike
  simp only [attributes, hnames]
  exact .done _ ⟨hrest, fun hexact => by rw [h.rest_eq hexact], h.depth_left, h.depth_right⟩

theorem keeps_pathFrom (root : String) : L.Keeps (pathFrom root) (pathFrom root) := by
  refine keeps_attributes.bind fun names => (keeps_nextIs ".").bind fun b => ?_
  cases b with
  | true => exact keeps_advance.bind fun _ => keeps_expected fun _ => rfl
  | false => exact keeps_pure _

theorem keeps_number {t t' : Token} (ht : t.Alike t') : L.Keeps (number t) (number t') := by
  unfold number
  rw [ht.text_eq]
  cases Decimal.read? t'.text with
  | none => exact keeps_fail fun _ => rfl
  | some x =>
    dsimp only
    split
    · exact keeps_advance.bind fun _ => keeps_pure _
    · exact keeps_fail fun _ => rfl

theorem keeps_moreArguments (hq : L.Keeps item item') :
    ∀ k, L.Keeps (moreArguments item k) (moreArguments item' k)
  | 0 => keeps_pure []
  | k + 1 => by
    rw [moreArguments, moreArguments]
    refine (keeps_nextIs ",").bind fun b => ?_
    cases b with
    | true =>
      exact keeps_advance.bind fun _ => hq.bind fun y =>
        (keeps_moreArguments hq k).bind fun ys => keeps_pure _
    | false => exact keeps_pure []

theorem keeps_arguments (hq : L.Keeps item item') :
    L.Keeps (arguments item) (arguments item') :=
  hq.bind fun _ => keeps_remaining.bind fun k =>
    (keeps_moreArguments hq k).bind fun _ => keeps_pure _

/-- A name that only the right dialect lists refuses the left run. -/
theorem keeps_callNone (name : String) {p p' : Parser α} (hp : L.Keeps p p') :
    L.Keeps (isNullary name >>= fun b => if b then p else fail (.noArguments name))
      (isNullary name >>= fun b => if b then p' else fail (.noArguments name)) := by
  intro n s s' h
  rw [bind_apply, bind_apply]
  simp only [isNullary]
  by_cases hname : name ∈ input.dialect.nullary
  · simp only [hname, L.nullary_subset hname, decide_true, if_true]
    exact hp h
  · by_cases hname' : name ∈ input'.dialect.nullary
    · simp only [hname, decide_false]
      exact .refused ((L.nullary_or_refusal name hname').resolve_left hname)
    · simp only [hname, hname', decide_false]
      exact answers_fail h fun _ => rfl

theorem keeps_callOf (name : String) (hq : L.Keeps item item') :
    L.Keeps (callOf name item) (callOf name item') := by
  intro n s s' h
  -- Only the place of the parenthesis may differ, and only an error mentions it.
  unfold callOf
  rw [bind_apply, bind_apply]
  refine (keeps_advance.bind fun _ => (keeps_nextIs ")").bind fun b => ?_) h
  cases b with
  | true => exact keeps_callNone name (keeps_advance.bind fun _ => keeps_pure _)
  | false =>
    refine (keeps_arguments hq).bind fun args => ?_
    exact (keeps_require ")" fun hexact => by rw [h.position_eq hexact]).bind fun _ => keeps_pure _

theorem keeps_parenthesized {opened opened' : ℕ} (hopened : L.Exact → opened = opened')
    (hq : L.Keeps item item') :
    L.Keeps (parenthesized opened item) (parenthesized opened' item') :=
  keeps_advance.bind fun _ => hq.bind fun _ =>
    (keeps_require ")" fun hexact => by rw [hopened hexact]).bind fun _ => keeps_pure _

theorem keeps_primary (hq : L.Keeps q q') : L.Keeps (primary q) (primary q') := by
  refine keeps_next (keeps_expected fun _ => rfl) fun t t' ht hexact => ?_
  dsimp only
  rw [ht.kind_eq]
  cases t'.kind with
  | number => exact keeps_number ht
  | quoted =>
    rw [ht.text_eq]
    exact keeps_advance.bind fun _ => (keeps_pathFrom _).bind fun _ => keeps_pure _
  | name =>
    rw [ht.text_eq]
    refine keeps_advance.bind fun _ => (keeps_nextIs "(").bind fun b => ?_
    cases b with
    | true => exact keeps_callOf _ (keeps_expressionOver hq)
    | false => exact (keeps_pathFrom _).bind fun _ => keeps_pure _
  | symbol =>
    dsimp only
    rw [ht.text_eq]
    split
    · exact keeps_parenthesized (fun h => by rw [hexact h]) (keeps_expressionOver hq)
    · exact keeps_expected fun _ => rfl

theorem keeps_power (hq : L.Keeps q q') : L.Keeps (power q) (power q') := by
  refine (keeps_primary hq).bind fun b => (keeps_nextIs "^").bind fun r => ?_
  cases r with
  | true => exact keeps_advance.bind fun _ => hq.bind fun y => keeps_pure _
  | false => exact keeps_pure b

theorem keeps_unaryLevel (hq : L.Keeps q q') : L.Keeps (unaryLevel q) (unaryLevel q') := by
  refine Keeps.insideFinally (keeps_sign?.bind fun o => ?_)
  cases o with
  | some op => exact keeps_advance.bind fun _ => hq.bind fun x => keeps_pure _
  | none => exact keeps_power hq

theorem keeps_nested {stop stop' : Parser Expr} (hstop : L.Keeps stop stop') :
    ∀ k, L.Keeps (nested stop k) (nested stop' k)
  | 0 => hstop
  | k + 1 => fun _ _ _ h => keeps_unaryLevel (keeps_nested hstop k) h

theorem keeps_unary : L.Keeps unary unary := by
  intro n s s' h
  unfold unary
  rw [h.alike.length_eq]
  exact keeps_nested (keeps_expected fun _ => rfl) _ h

theorem keeps_expression : L.Keeps expression expression :=
  keeps_expressionOver keeps_unary

/-! ### Whole formulas -/

theorem keeps_nonempty {fault : ParseFault}
    (hfault : fault = fault.withLimit input.dialect.maxDepth) :
    L.Keeps (nonempty fault) (nonempty fault) := by
  intro n s s' h
  unfold nonempty
  rw [L.isEmpty_eq]
  split
  · exact answers_fail h fun _ => hfault
  · exact .done () h

theorem keeps_finished : L.Keeps finished finished :=
  keeps_next (keeps_pure ()) fun _ _ _ hexact => keeps_fail fun h => by rw [hexact h]; rfl

theorem keeps_unfinished (what : Expectation) : L.Keeps (unfinished what) (unfinished what) :=
  keeps_next (keeps_expected fun _ => rfl) fun _ _ _ _ => keeps_pure ()

theorem keeps_destination : L.Keeps destination destination := by
  refine keeps_next (keeps_expected fun _ => rfl) fun t t' ht _ => ?_
  dsimp only
  rw [Token.isRoot, Token.isRoot, ht.kind_eq, ht.text_eq]
  split
  · exact keeps_advance.bind fun _ => keeps_pathFrom _
  · exact keeps_expected fun _ => rfl

/-- **Expressions are read in lockstep.** -/
theorem keeps_wholeExpression : L.Keeps wholeExpression wholeExpression :=
  (keeps_nonempty rfl).bind fun _ => keeps_expression.bind fun e =>
    keeps_finished.bind fun _ => keeps_pure e

/-- **Assignments are read in lockstep.** -/
theorem keeps_wholeAssignment : L.Keeps wholeAssignment wholeAssignment := by
  refine (keeps_nonempty rfl).bind fun _ => keeps_destination.bind fun path => ?_
  refine (keeps_require "=" fun _ => rfl).bind fun _ => (keeps_unfinished .value).bind fun _ => ?_
  exact keeps_expression.bind fun e => keeps_finished.bind fun _ => keeps_pure _

/-! ### Answers that stand against each other -/

variable {r r' : Reply α}

/-- **The results are the same**, with the limit of the left side in errors of nesting, unless the left
run was refused. -/
theorem Answers.result_eq_or (h : L.Answers n r r') (hexact : L.Exact) :
    r.result = r'.result.mapError (·.withLimit input.dialect.maxDepth) ∨
      ∃ e, r.result = .error e ∧ L.Refusal e.fault := by
  cases h with
  | done a _ => exact .inl rfl
  | failed _ _ he => exact .inl (congrArg Except.error (he hexact))
  | refused hr => exact .inr ⟨_, rfl, hr⟩

/-- Without refusals the runs end in step. -/
theorem Answers.inStep (h : L.Answers n r r') (hrefusal : ∀ fault, ¬ L.Refusal fault) :
    ∃ m, L.InStep m r.state r'.state := by
  cases h with
  | done a h => exact ⟨n, h⟩
  | failed _ h _ => exact ⟨_, h⟩
  | refused hr => exact absurd hr (hrefusal _)

end Lockstep

end Parser

end Formula
