import Formula.Proofs.Grammar.Derivation

/-!
# Parsers read derivations

`Reads input p ts a c rest` says all that the parser `p` does on the tokens `ts` before `rest` when it
begins with `d` open levels: if `d + c` levels are allowed it consumes `ts`, answers `a` and leaves
the levels as they were; if they are not it fails because the nesting is too deep. The rules follow
the definition of the parsers: one phrase behind another costs the greater of both costs, and a new
level costs one more.

With them every derivation is read by the parser of its class (`Derives.reads`), provided that no token
behind the phrase continues it (`Ends`).
-/

namespace Formula.Parser

variable {α β : Type} {input : Input}

/-- What a parser does on the tokens of a phrase, whatever the number of open levels. -/
structure Reads (input : Input) (p : Parser α) (ts : List Token) (a : α) (c : ℕ)
    (rest : List Token) : Prop where
  within : ∀ d, d + c ≤ input.dialect.maxDepth → p input ⟨ts ++ rest, d⟩ = .done a ⟨rest, d⟩
  beyond : ∀ d ≤ input.dialect.maxDepth, input.dialect.maxDepth < d + c →
    ∃ pos s, p input ⟨ts ++ rest, d⟩ = .failed ⟨pos, .tooDeep input.dialect.maxDepth⟩ s

/-! ### Rules -/

/-- The two ways to open a level differ only in what is left open when it ends with an error. -/
theorem insideFinally_apply (p : Parser α) (input : Input) (s : State) :
    insideFinally p input s = match inside p input s with
      | .done a s' => .done a s'
      | .failed e s' =>
        .failed e (if input.dialect.maxDepth < s.depth + 1 then s' else s'.shallower) := by
  unfold insideFinally inside
  by_cases h : input.dialect.maxDepth < s.depth + 1
  · simp only [if_pos h]
    rfl
  · simp only [if_neg h]
    cases p input s.deeper with
    | done a s' => rfl
    | failed e s' => rfl

namespace Reads

variable {p q : Parser α} {f : α → Parser β} {ts us rest : List Token} {a : α} {b : β} {c d : ℕ}

/-- Parsers that agree on the tokens at hand read the same. -/
theorem congr (h : ∀ d, p input ⟨ts ++ rest, d⟩ = q input ⟨ts ++ rest, d⟩)
    (hq : Reads input q ts a c rest) : Reads input p ts a c rest :=
  ⟨fun d hd => (h d).trans (hq.within d hd), fun d hd hc => by rw [h d]; exact hq.beyond d hd hc⟩

theorem pure (a : α) : Reads input (pure a) [] a 0 rest :=
  ⟨fun _ _ => rfl, fun d hd hc => absurd hc (by omega)⟩

theorem bind (hp : Reads input p ts a c (us ++ rest)) (hf : Reads input (f a) us b d rest) :
    Reads input (p >>= f) (ts ++ us) b (max c d) rest := by
  refine ⟨fun n hn => ?_, fun n hn hc => ?_⟩
  · rw [bind_apply, List.append_assoc, hp.within n (by omega)]
    exact hf.within n (by omega)
  · rw [bind_apply, List.append_assoc]
    by_cases h : n + c ≤ input.dialect.maxDepth
    · rw [hp.within n h]
      exact hf.beyond n hn (by omega)
    · obtain ⟨pos, s, hs⟩ := hp.beyond n hn (by omega)
      exact ⟨pos, s, by rw [hs]⟩

/-- Looking ahead consumes nothing. -/
theorem look (hp : ∀ d, p input ⟨ts ++ rest, d⟩ = .done a ⟨ts ++ rest, d⟩)
    (hf : Reads input (f a) ts b c rest) : Reads input (p >>= f) ts b c rest :=
  congr (fun d => by rw [bind_apply, hp d]) hf

theorem advance {f : Unit → Parser β} {t : Token} (hf : Reads input (f ()) ts b c rest) :
    Reads input (Parser.advance >>= f) (t :: ts) b c rest :=
  ⟨fun d hd => hf.within d hd, fun d hd hc => hf.beyond d hd hc⟩

/-- What comes before costs nothing. -/
theorem after (hp : Reads input p ts a 0 (us ++ rest)) (hf : Reads input (f a) us b d rest) :
    Reads input (p >>= f) (ts ++ us) b d rest := by
  simpa using bind hp hf

/-- What follows costs nothing. -/
theorem close (hp : Reads input p ts a c (us ++ rest)) (hf : Reads input (f a) us b 0 rest) :
    Reads input (p >>= f) (ts ++ us) b c rest := by
  simpa using bind hp hf

/-- Nothing is consumed behind the phrase. -/
theorem finish (hp : Reads input p ts a c rest) (hf : Reads input (f a) [] b 0 rest) :
    Reads input (p >>= f) ts b c rest := by
  simpa using close (show Reads input p ts a c ([] ++ rest) from hp) hf

theorem map (hp : Reads input p ts a c rest) (g : α → β) :
    Reads input (p >>= fun a => Pure.pure (g a)) ts (g a) c rest :=
  finish hp (pure (g a))

theorem inside (hp : Reads input p ts a c rest) :
    Reads input (Parser.inside p) ts a (1 + c) rest := by
  refine ⟨fun d hd => ?_, fun d hd hc => ?_⟩
  · rw [Parser.inside, if_neg (by simp only; omega)]
    simp only [State.deeper, hp.within (d + 1) (by omega)]
    rfl
  · rw [Parser.inside]
    by_cases h : input.dialect.maxDepth < d + 1
    · exact ⟨_, _, if_pos h⟩
    · rw [if_neg h]
      obtain ⟨pos, s, hs⟩ := hp.beyond (d + 1) (by omega) (by omega)
      exact ⟨pos, s, by simp only [State.deeper, hs]⟩

theorem insideFinally (hp : Reads input p ts a c rest) :
    Reads input (Parser.insideFinally p) ts a (1 + c) rest := by
  have h := hp.inside
  refine ⟨fun d hd => ?_, fun d hd hc => ?_⟩
  · rw [insideFinally_apply, h.within d hd]
  · obtain ⟨pos, s, hs⟩ := h.beyond d hd hc
    exact ⟨pos, _, by rw [insideFinally_apply, hs]⟩

/-- **The limit decides** on a parser that reads all of its tokens. -/
theorem result (hp : Reads input p input.tokens a c []) :
    (c ≤ input.dialect.maxDepth → (p input input.start).result = .ok a) ∧
      (input.dialect.maxDepth < c → ∃ pos,
        (p input input.start).result = .error ⟨pos, .tooDeep input.dialect.maxDepth⟩) := by
  have hstart : input.start = ⟨input.tokens ++ [], 0⟩ := by rw [List.append_nil]; rfl
  rw [hstart]
  refine ⟨fun hc => ?_, fun hc => ?_⟩
  · rw [hp.within 0 (by omega)]
    rfl
  · obtain ⟨pos, s, hs⟩ := hp.beyond 0 (Nat.zero_le _) (by omega)
    exact ⟨pos, by rw [hs]; rfl⟩

end Reads

/-! ### Looking at the next token -/

/-- No token of `rest` is one of the symbols, if it is the first. -/
def Ends (symbols : List String) (rest : List Token) : Prop :=
  ∀ t ∈ rest.head?, ∀ s ∈ symbols, t.isSymbol s = false

theorem Ends.mono {ss rs : List String} {rest : List Token} (h : Ends rs rest) (hs : ss ⊆ rs) :
    Ends ss rest :=
  fun t ht s hss => h t ht s (hs hss)

theorem ends_nil {ss : List String} : Ends ss [] := by
  intro t ht; simp at ht

theorem ends_cons {ss : List String} {s : String} {t : Token} {rest : List Token}
    (ht : t.isSymbol s) (hs : s ∉ ss) : Ends ss (t :: rest) := by
  intro u hu r hr
  obtain rfl := Option.mem_some_iff.mp hu
  rw [Token.isSymbol_iff] at ht
  rw [Bool.eq_false_iff, ne_eq, Token.isSymbol_iff]
  rintro ⟨-, h⟩
  exact hs (by rw [← ht.2, h]; exact hr)

theorem Ends.append {ss : List String} {ts : List Token} (h : Ends ss ts) (hts : ts ≠ [])
    (rest : List Token) : Ends ss (ts ++ rest) := by
  obtain ⟨t, us, rfl⟩ := List.exists_cons_of_ne_nil hts
  exact h

/-- The first token is none of the symbols that would continue the phrase. -/
theorem Ends.not_isSymbol {ss : List String} {t : Token} {s : String} {rest : List Token}
    (h : Ends ss rest) (ht : rest.head? = some t) (hs : s ∈ ss) : ¬ t.isSymbol s = true := by
  rw [h t ht s hs]
  exact Bool.false_ne_true

theorem ends_singleton_iff {s : String} {rest : List Token} :
    Ends [s] rest ↔ ¬ ∃ t ∈ rest.head?, t.isSymbol s = true := by
  constructor
  · rintro h ⟨t, ht, hsym⟩
    exact h.not_isSymbol ht (List.mem_singleton_self s) hsym
  · intro h t ht r hr
    rw [List.mem_singleton.mp hr, Bool.eq_false_iff]
    exact fun hsym => h ⟨t, ht, hsym⟩

theorem ends_of_kind {ss : List String} {t : Token} {rest : List Token} (h : t.kind ≠ .symbol) :
    Ends ss (t :: rest) := by
  intro u hu s _
  obtain rfl := Option.mem_some_iff.mp hu
  simp [Token.isSymbol, h]

theorem nextIs_of_isSymbol {t : Token} {s : String} {rest : List Token} {d : ℕ}
    (h : t.isSymbol s) : nextIs s input ⟨t :: rest, d⟩ = .done true ⟨t :: rest, d⟩ := by
  simp [nextIs, h]

theorem nextIs_of_ends {ss : List String} {s : String} {rest : List Token} {d : ℕ}
    (h : Ends ss rest) (hs : s ∈ ss) : nextIs s input ⟨rest, d⟩ = .done false ⟨rest, d⟩ := by
  cases rest with
  | nil => rfl
  | cons t rest => simp [nextIs, h t (by simp) s hs]

/-- **What the search for an operator finds.** -/
theorem operator?_apply (input : Input) (ops : List BinaryOp) (s : State) :
    ∃ o, operator? ops input s = .done o s ∧
    ∀ op, o = some op ↔ op ∈ ops ∧ ∃ t ∈ s.rest.head?, t.isSymbol op.symbol := by
  obtain ⟨rest, d⟩ := s
  cases rest with
  | nil => exact ⟨none, rfl, by simp⟩
  | cons t rest =>
    by_cases ht : t.kind = .symbol
    · refine ⟨(BinaryOp.ofSymbol? t.text).filter (· ∈ ops), ?_, fun op => ?_⟩
      · simp [operator?, bind_apply, next?, ht]
      · simp only [Option.filter_eq_some_iff, BinaryOp.ofSymbol?_eq_some_iff, List.head?_cons,
          Option.mem_def, Option.some.injEq, exists_eq_left', Token.isSymbol_iff, decide_eq_true_eq]
        exact ⟨fun h => ⟨h.2, ht, h.1.symm⟩, fun h => ⟨h.2.2.symm, h.1⟩⟩
    · refine ⟨none, ?_, fun op => ?_⟩
      · simp [operator?, bind_apply, next?, ht]
      · simp [Token.isSymbol_iff, ht]

theorem operator?_of_mem {ops : List BinaryOp} {op : BinaryOp} {t : Token} {rest : List Token}
    {d : ℕ} (hop : op ∈ ops) (ht : t.isSymbol op.symbol) :
    operator? ops input ⟨t :: rest, d⟩ = .done (some op) ⟨t :: rest, d⟩ := by
  obtain ⟨o, ho, h⟩ := operator?_apply input ops ⟨t :: rest, d⟩
  rw [ho, (h op).mpr ⟨hop, t, rfl, ht⟩]

theorem operator?_of_ends {ops : List BinaryOp} {ss : List String} {rest : List Token} {d : ℕ}
    (h : Ends ss rest) (hs : ∀ op ∈ ops, op.symbol ∈ ss) :
    operator? ops input ⟨rest, d⟩ = .done none ⟨rest, d⟩ := by
  obtain ⟨o, ho, h'⟩ := operator?_apply input ops ⟨rest, d⟩
  cases o with
  | none => exact ho
  | some op =>
    obtain ⟨hop, t, ht, hsym⟩ := (h' op).mp rfl
    exact absurd hsym (h.not_isSymbol ht (hs op hop))

/-- A level is an operand and the chain behind it. -/
theorem level_apply (input : Input) (ops : List BinaryOp) (operand : Parser Expr) (s : State) :
    level ops operand input s =
    (operand >>= fun x => remaining >>= fun n => chain ops operand n x) input s := by
  simp only [level, bind_apply]
  cases operand input s with
  | failed e s' => rfl
  | done x s' =>
    obtain ⟨o, ho, h⟩ := operator?_apply input ops s'
    cases o with
    | some op => simp only [ho]; rfl
    | none =>
      simp only [ho, remaining]
      cases s'.rest.length with
      | zero => rfl
      | succ n => rw [chain, bind_apply, ho]

/-- What the search for a sign finds. -/
theorem sign?_apply (input : Input) (s : State) : ∃ o, sign? input s = .done o s ∧
    ∀ op, o = some op ↔ ∃ t ∈ s.rest.head?, t.isSymbol (UnaryOp.symbol op) := by
  obtain ⟨rest, d⟩ := s
  cases rest with
  | nil => exact ⟨none, rfl, by simp⟩
  | cons t rest =>
    by_cases ht : t.kind = .symbol
    · refine ⟨UnaryOp.ofSymbol? t.text, ?_, fun op => ?_⟩
      · simp [sign?, bind_apply, next?, ht]
      · simp only [UnaryOp.ofSymbol?_eq_some_iff, List.head?_cons, Option.mem_def,
          Option.some.injEq, exists_eq_left', Token.isSymbol_iff]
        exact ⟨fun h => ⟨ht, h.symm⟩, fun h => h.2.symm⟩
    · refine ⟨none, ?_, fun op => ?_⟩
      · simp [sign?, bind_apply, next?, ht]
      · simp [Token.isSymbol_iff, ht]

end Formula.Parser
