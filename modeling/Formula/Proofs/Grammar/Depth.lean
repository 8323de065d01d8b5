import Formula.Proofs.Grammar.Recognition.Primary

/-!
# Levels are paid for with tokens

`Settles input s k r` is what the parsers keep from the state `s` in which they begin to the reply `r`.
Tokens are only consumed from the front. The levels that were open are open at the end, and no others
if there is an answer. And a level beyond the limit has its price: the parser is then as deep as the
limit although each level was opened behind a token of its own, so the limit is not above the levels
and tokens that there were at the beginning. `k` is the number of tokens that are consumed in any case
before a level is opened.

So no tokens are nested too deeply for a limit above their number (`not_tooDeep`).
-/

namespace Formula.Parser

variable {α β : Type} {input : Input} {s : State} {k : ℕ}

/-- What a reply may be, for a parser that begins in the state `s`. -/
def Settles (input : Input) (s : State) (k : ℕ) : Reply α → Prop
  | .done _ s' => s'.rest <:+ s.rest ∧ s'.depth = s.depth
  | .failed e s' => s'.rest <:+ s.rest ∧ s.depth ≤ s'.depth ∧ ∀ limit, e.fault = .tooDeep limit →
      input.dialect.maxDepth + k + s'.rest.length ≤ s.depth + s.rest.length

/-! ### Rules -/

theorem Settles.pure (a : α) : Settles input s k ((pure a : Parser α) input s) :=
  ⟨List.suffix_rfl, rfl⟩

theorem Settles.fail {fault : ParseFault} (h : ∀ limit, fault ≠ .tooDeep limit) :
    Settles input s k ((fail fault : Parser α) input s) :=
  ⟨List.suffix_rfl, le_rfl, fun limit he => absurd he (h limit)⟩

theorem Settles.expected (what : Expectation) :
    Settles input s k ((expected what : Parser α) input s) :=
  Settles.fail fun _ h => by cases h

theorem Settles.bind {p : Parser α} {f : α → Parser β} (hp : Settles input s k (p input s))
    (hf : ∀ a s', p input s = .done a s' → Settles input s' k (f a input s')) :
    Settles input s k ((p >>= f) input s) := by
  rw [bind_apply]
  cases hps : p input s with
  | failed e s' => rwa [hps] at hp
  | done a s' =>
    rw [hps] at hp
    obtain ⟨h₁, h₂⟩ := hp
    have h := hf a s' hps
    have hlen := h₁.length_le
    dsimp only
    cases hfs : f a input s' with
    | done b s'' =>
      rw [hfs] at h
      exact ⟨h.1.trans h₁, h.2.trans h₂⟩
    | failed e s'' =>
      rw [hfs] at h
      obtain ⟨h₃, h₄, h₅⟩ := h
      refine ⟨h₃.trans h₁, h₂ ▸ h₄, fun limit he => ?_⟩
      have := h₅ limit he
      omega

/-- Looking ahead changes nothing. -/
theorem Settles.look {p : Parser α} {f : α → Parser β} {a : α} (hp : p input s = .done a s)
    (hf : Settles input s k (f a input s)) : Settles input s k ((p >>= f) input s) := by
  rw [bind_apply, hp]
  exact hf

/-- A token that is consumed pays for one level. -/
theorem Settles.advance {f : Unit → Parser β} {t : Token} {rest : List Token} {d : ℕ}
    (hf : Settles input ⟨rest, d⟩ k (f () input ⟨rest, d⟩)) :
    Settles input ⟨t :: rest, d⟩ (k + 1) ((advance >>= f) input ⟨t :: rest, d⟩) := by
  rw [bind_apply]
  change Settles input ⟨t :: rest, d⟩ (k + 1) (f () input ⟨rest, d⟩)
  cases hfs : f () input ⟨rest, d⟩ with
  | done b s' =>
    rw [hfs] at hf
    exact ⟨hf.1.trans (List.suffix_cons t rest), hf.2⟩
  | failed e s' =>
    rw [hfs] at hf
    obtain ⟨h₁, h₂, h₃⟩ := hf
    refine ⟨h₁.trans (List.suffix_cons t rest), h₂, fun limit he => ?_⟩
    have := h₃ limit he
    simp only [List.length_cons] at this ⊢
    omega

theorem Settles.consume (s : State) : Settles input s k (Parser.advance input s) :=
  ⟨List.tail_suffix s.rest, rfl⟩

/-- The token that `p` consumes before it opens a level pays for the level around it. -/
theorem Settles.inside {p : Parser α} (hp : Settles input s.deeper 1 (p input s.deeper)) :
    Settles input s 0 (inside p input s) := by
  unfold Parser.inside
  by_cases h : input.dialect.maxDepth < s.depth + 1
  · rw [if_pos h]
    refine ⟨List.suffix_rfl, Nat.le_succ _, fun _ _ => ?_⟩
    simp only [State.deeper]
    omega
  · rw [if_neg h]
    cases hps : p input s.deeper with
    | done a s' =>
      rw [hps] at hp
      exact ⟨hp.1, by simp [State.shallower, hp.2, State.deeper]⟩
    | failed e s' =>
      rw [hps] at hp
      obtain ⟨h₁, h₂, h₃⟩ := hp
      refine ⟨h₁, Nat.le_trans (Nat.le_succ _) h₂, fun limit he => ?_⟩
      have := h₃ limit he
      simp only [State.deeper] at this
      omega

theorem Settles.insideFinally {p : Parser α} (hp : Settles input s.deeper 1 (p input s.deeper)) :
    Settles input s 0 (insideFinally p input s) := by
  unfold Parser.insideFinally
  by_cases h : input.dialect.maxDepth < s.depth + 1
  · rw [if_pos h]
    refine ⟨List.suffix_rfl, Nat.le_succ _, fun _ _ => ?_⟩
    simp only [State.deeper]
    omega
  · rw [if_neg h]
    cases hps : p input s.deeper with
    | done a s' =>
      rw [hps] at hp
      exact ⟨hp.1, by simp [State.shallower, hp.2, State.deeper]⟩
    | failed e s' =>
      rw [hps] at hp
      obtain ⟨h₁, h₂, h₃⟩ := hp
      refine ⟨h₁, Nat.le_sub_one_of_lt h₂, fun limit he => ?_⟩
      have := h₃ limit he
      simp only [State.deeper, State.shallower] at this ⊢
      omega

/-! ### The parsers of the grammar -/

/-- The parser settles from every state. -/
def Settled (k : ℕ) (p : Parser α) : Prop := ∀ input s, Settles input s k (p input s)

variable {q operand item : Parser Expr}

theorem settled_chain {ops : List BinaryOp} (hq : Settled 0 operand) :
    ∀ n x, Settled 0 (chain ops operand n x)
  | 0, x => fun _ _ => Settles.pure x
  | n + 1, x => by
    intro input s
    rw [chain]
    obtain ⟨o, ho, hop⟩ := operator?_apply input ops s
    refine Settles.look ho ?_
    cases o with
    | none => exact Settles.pure x
    | some op =>
      obtain ⟨-, t, ht, -⟩ := (hop op).mp rfl
      obtain ⟨ts, d⟩ := s
      obtain ⟨rest, rfl⟩ := List.head?_eq_some_iff.mp ht
      exact Settles.inside (Settles.advance (Settles.bind (hq _ _) fun y s' _ =>
        settled_chain hq n _ input s'))

theorem settled_level {ops : List BinaryOp} (hq : Settled 0 operand) :
    Settled 0 (level ops operand) := by
  intro input s
  rw [level_apply]
  exact Settles.bind (hq _ _) fun x s' _ => Settles.look rfl (settled_chain hq _ x input s')

theorem settled_expressionOver (hq : Settled 0 q) : Settled 0 (expressionOver q) := by
  unfold expressionOver
  induction levels with
  | nil => exact hq
  | cons ops ls ih => exact settled_level ih

theorem splitAttributes_suffix (ts : List Token) : (splitAttributes ts).2 <:+ ts := by
  obtain ⟨ps, hps, -⟩ := Grammar.splitAttributes_sound (Prod.eta (splitAttributes ts)).symm
  exact ⟨ps, hps.symm⟩

/-- The parser of a path opens no level. -/
theorem settles_pathFrom (root : String) : Settles input s k (pathFrom root input s) := by
  have hattr : Settles input s k (attributes input s) :=
    ⟨(splitAttributes_suffix s.rest), rfl⟩
  refine Settles.bind hattr fun names s' _ => ?_
  refine Settles.look (p := nextIs ".") rfl ?_
  split
  · exact Settles.bind (Settles.consume s') fun _ s'' _ => Settles.expected _
  · exact Settles.pure _

theorem settles_number (t : Token) : Settles input s k (number t input s) := by
  unfold number
  cases Decimal.read? t.text with
  | none => exact Settles.fail fun _ h => by cases h
  | some x =>
    dsimp only
    split
    · exact Settles.bind (Settles.consume s) fun _ s' _ => Settles.pure _
    · exact Settles.fail fun _ h => by cases h

theorem settles_require (symbol : String) (what : Expectation) :
    Settles input s k (require symbol what input s) := by
  refine Settles.look (p := nextIs symbol) rfl ?_
  split
  · exact Settles.consume s
  · exact Settles.expected _

theorem settled_moreArguments (hq : Settled 0 item) :
    ∀ n input s, Settles input s 0 (moreArguments item n input s)
  | 0 => fun _ _ => Settles.pure []
  | n + 1 => by
    intro input s
    rw [moreArguments]
    refine Settles.look (p := nextIs ",") rfl ?_
    split
    · refine Settles.bind (Settles.consume s) fun _ s₁ _ => ?_
      refine Settles.bind (hq _ _) fun y s₂ _ => ?_
      exact Settles.bind (settled_moreArguments hq n input s₂) fun ys s₃ _ => Settles.pure _
    · exact Settles.pure []

theorem settles_callOf (name : String) (hq : Settled 0 item) :
    Settles input s 0 (callOf name item input s) := by
  refine Settles.look (p := position) rfl ?_
  refine Settles.bind (Settles.consume s) fun _ s₁ _ => ?_
  refine Settles.look (p := nextIs ")") rfl ?_
  split
  · refine Settles.look (p := isNullary name) rfl ?_
    split
    · exact Settles.bind (Settles.consume s₁) fun _ s₂ _ => Settles.pure _
    · exact Settles.fail fun _ h => by cases h
  · refine Settles.bind ?_ fun args s₂ _ => ?_
    · refine Settles.bind (hq _ _) fun y s₂ _ => Settles.look (p := remaining) rfl ?_
      exact Settles.bind (settled_moreArguments hq _ _ _) fun ys s₃ _ => Settles.pure _
    · exact Settles.bind (settles_require _ _) fun _ s₃ _ => Settles.pure _

/-- **A primary expression consumes a token** before it opens a level. -/
theorem settled_primary (hq : Settled 0 q) : Settled 1 (primary q) := by
  intro input s
  have hexp := settled_expressionOver hq
  refine Settles.look (p := next?) rfl ?_
  obtain ⟨rest, d⟩ := s
  cases rest with
  | nil => exact Settles.expected _
  | cons t rest =>
    dsimp only [List.head?_cons]
    cases t.kind with
    | number => exact settles_number t
    | quoted =>
      exact Settles.advance (Settles.bind (settles_pathFrom _) fun p s' _ => Settles.pure _)
    | name =>
      refine Settles.advance (Settles.look (p := nextIs "(") rfl ?_)
      split
      · exact settles_callOf _ hexp
      · exact Settles.bind (settles_pathFrom _) fun p s' _ => Settles.pure _
    | symbol =>
      dsimp only
      split
      · refine Settles.advance (Settles.bind (hexp _ _) fun x s₁ _ => ?_)
        exact Settles.bind (settles_require _ _) fun _ s₂ _ => Settles.pure _
      · exact Settles.expected _

theorem settled_power (hq : Settled 0 q) : Settled 1 (power q) := by
  intro input s
  refine Settles.bind (settled_primary hq _ _) fun b s₁ _ => Settles.look (p := nextIs "^") rfl ?_
  obtain ⟨rest, d⟩ := s₁
  cases rest with
  | nil => exact Settles.pure _
  | cons t rest =>
    split
    · exact Settles.advance (Settles.bind (hq _ _) fun y s₂ _ => Settles.pure _)
    · exact Settles.pure _

theorem settled_unaryLevel (hq : Settled 0 q) : Settled 0 (unaryLevel q) := by
  intro input s
  refine Settles.insideFinally ?_
  obtain ⟨o, ho, hop⟩ := sign?_apply input s.deeper
  refine Settles.look ho ?_
  cases o with
  | none => exact settled_power hq _ _
  | some op =>
    obtain ⟨t, ht, -⟩ := (hop op).mp rfl
    obtain ⟨rest, hrest⟩ := List.head?_eq_some_iff.mp ht
    rw [show s.deeper = ⟨t :: rest, s.deeper.depth⟩ by rw [← hrest]]
    exact Settles.advance (Settles.bind (hq _ _) fun y s₁ _ => Settles.pure _)

theorem settled_nested {stop : Parser Expr} (hstop : Settled 0 stop) :
    ∀ n, Settled 0 (nested stop n)
  | 0 => hstop
  | n + 1 => fun input s => settled_unaryLevel (settled_nested hstop n) input s

theorem settled_expression : Settled 0 expression :=
  settled_expressionOver fun input s =>
    settled_nested (fun _ _ => Settles.expected _) (s.rest.length + 1) input s

/-! ### Whole formulas -/

theorem settles_nonempty {fault : ParseFault} (h : ∀ limit, fault ≠ .tooDeep limit) :
    Settles input s k (nonempty fault input s) := by
  unfold nonempty
  split
  · exact Settles.fail h
  · exact Settles.pure ()

theorem settles_finished : Settles input s k (finished input s) := by
  refine Settles.look (p := next?) rfl ?_
  cases s.rest.head? with
  | none => exact Settles.pure ()
  | some t => exact Settles.fail fun _ h => by cases h

theorem settles_destination : Settles input s k (destination input s) := by
  refine Settles.look (p := next?) rfl ?_
  cases s.rest.head? with
  | none => exact Settles.expected _
  | some t =>
    dsimp only
    split
    · exact Settles.bind (Settles.consume s) fun _ s₁ _ => settles_pathFrom _
    · exact Settles.expected _

theorem settles_unfinished (what : Expectation) :
    Settles input s k (unfinished what input s) := by
  refine Settles.look (p := next?) rfl ?_
  cases s.rest.head? with
  | none => exact Settles.expected _
  | some t => exact Settles.pure ()

theorem settled_wholeExpression : Settled 0 wholeExpression := by
  intro input s
  refine Settles.bind (settles_nonempty fun _ h => by cases h) fun _ s₁ _ => ?_
  refine Settles.bind (settled_expression _ _) fun e s₂ _ => ?_
  exact Settles.bind settles_finished fun _ s₃ _ => Settles.pure e

theorem settled_wholeAssignment : Settled 0 wholeAssignment := by
  intro input s
  refine Settles.bind (settles_nonempty fun _ h => by cases h) fun _ s₁ _ => ?_
  refine Settles.bind settles_destination fun path s₂ _ => ?_
  refine Settles.bind (settles_require _ _) fun _ s₃ _ => ?_
  refine Settles.bind (settles_unfinished _) fun _ s₄ _ => ?_
  refine Settles.bind (settled_expression _ _) fun e s₅ _ => ?_
  exact Settles.bind settles_finished fun _ s₆ _ => Settles.pure _

/-- Tokens are only consumed from the front. -/
theorem Settles.suffix {r : Reply α} (h : Settles input s k r) : r.state.rest <:+ s.rest := by
  cases r with
  | done a s' => exact h.1
  | failed e s' => exact h.1

/-- The price of a level cannot be paid where there are fewer tokens than levels. -/
theorem Settled.not_tooDeep {p : Parser α} (hp : Settled 0 p) (input : Input)
    (hM : input.tokens.length < input.dialect.maxDepth) (pos limit : ℕ) :
    (p input input.start).result ≠ .error ⟨pos, .tooDeep limit⟩ := by
  intro h
  have hsettles := hp input input.start
  cases hr : p input input.start with
  | done a s => rw [hr] at h; cases h
  | failed e s =>
    rw [hr] at h hsettles
    cases h
    obtain ⟨-, -, hprice⟩ := hsettles
    have hle : input.dialect.maxDepth + 0 + s.rest.length ≤ 0 + input.tokens.length :=
      hprice limit rfl
    omega

/-- **Fewer tokens than levels are never nested too deeply.** -/
theorem not_tooDeep {M : ℕ} {Z : List String} {ts : List Token} (hM : ts.length < M) (pos limit : ℕ) :
    Expr.ofTokens ⟨M, Z⟩ ts ≠ .error ⟨pos, .tooDeep limit⟩ :=
  settled_wholeExpression.not_tooDeep ⟨ts, ⟨M, Z⟩⟩ hM pos limit

end Formula.Parser
