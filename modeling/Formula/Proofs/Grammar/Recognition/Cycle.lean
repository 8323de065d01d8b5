import Formula.Proofs.Grammar.Recognition.Primary

/-!
# Expressions are recognized

Unary expressions close the cycle of the grammar. Their parser is an iterate of one turn of the cycle, and
each turn recognizes its phrases where one token more is left than the parser below it knows
(`knows_unaryLevel`). So expressions are recognized in all states (`recognizes_expression`): an answer is
derived from the tokens consumed, and an error stands at the first token with which no expression goes on.
-/

namespace Formula.Grammar

open Formula.Parser

variable {Z : List String} {input : Input} {s : State} {m : ℕ} {q : Parser Expr}
  {ts rest : List Token} {e : Expr} {t : Token}

theorem unaryOp_eq_of_isSymbol {op op' : UnaryOp} (h : t.isSymbol op.symbol)
    (h' : t.isSymbol op'.symbol) : op = op' := by
  rw [Token.isSymbol_iff] at h h'
  have hop := UnaryOp.ofSymbol?_eq_some_iff.mpr h.2.symm
  rw [UnaryOp.ofSymbol?_eq_some_iff.mpr h'.2.symm] at hop
  exact (Option.some.inj hop).symm

/-! ### The cycle -/

/-- A primary expression, raised to a power or not. -/
def Powers (Z : List String) (ts : List Token) (e : Expr) : Prop :=
  Sequence (Belongs Z .primary) (fun b us e => us = [] ∧ e = b ∨
    ∃ t vs x, us = t :: vs ∧ t.isSymbol "^" ∧ Belongs Z .unary vs x ∧ e = .binary b .power x) ts e

theorem recognizes_power (hq : Knows input m .unary q) (hs : s.rest.length < m + 1) :
    Recognizes input (Powers input.dialect.nullary) (Ends Phrase.unary.extending) s
      (power q input s) := by
  refine Recognizes.bind (knows_primary hq s hs) (fun b s₁ hs₁ => ?_) ?_ ?_
  · obtain ⟨ts, d⟩ := s₁
    refine Recognizes.nextIs ?_ fun hends => ?_
    · rintro t rest rfl ht
      have hlen := hs₁.length_le
      simp only [List.length_cons] at hlen
      have hexponent := hq ⟨rest, d⟩ (by simp only; omega)
      refine Recognizes.advance_of_mem (show "^" ∈ Phrase.unary.extending by decide) ht
        ((Recognizes.map (g := Expr.binary b .power) hexponent).of ?_ ?_ fun _ h => h)
      · rintro us _ ⟨x, hx, rfl⟩
        exact .inr ⟨t, us, x, rfl, ht, hx, rfl⟩
      · rintro ws rest' e (⟨hnil, -⟩ | ⟨u, vs, x, hws, -, hx, rfl⟩) - -
        · cases hnil
        · obtain ⟨rfl, rfl⟩ := List.cons.inj hws
          exact ⟨x, hx, rfl⟩
    · refine (Recognizes.pure b).of ?_ ?_ fun _ h => h
      · exact fun ts e h => .inl h
      · rintro ws rest' e (hnil | ⟨u, vs, x, rfl, hu, -⟩) - hhead
        · exact hnil
        · exact absurd hu (hends.not_isSymbol hhead.symm (List.mem_singleton_self "^"))
  · exact fun _ b _ => ⟨[], b, .inl ⟨rfl, rfl⟩⟩
  · rintro _ b us e rest' - (⟨rfl, -⟩ | ⟨t, vs, x, rfl, ht, -⟩) hends
    · exact hends.mono (by decide)
    · exact ends_cons ht (by decide)

theorem Powers.belongs (h : Powers Z ts e) : Belongs Z .unary ts e := by
  obtain ⟨us, vs, b, rfl, ⟨c, hb⟩, ⟨rfl, rfl⟩ | ⟨t, vs, x, rfl, hsym, ⟨d, hx⟩, rfl⟩⟩ := h
  · rw [List.append_nil]
    exact ⟨_, .plain hb⟩
  · exact ⟨_, .power hb hsym hx⟩

/-- The unary expressions that begin with no sign are the powers. -/
theorem Belongs.powers (h : Belongs Z .unary ts e)
    (ht : ∀ t ∈ (ts ++ rest).head?, ∀ op : UnaryOp, t.isSymbol op.symbol = false) :
    Powers Z ts e := by
  obtain ⟨c, h⟩ := h
  cases h with
  | sign hsym =>
    rw [ht _ rfl] at hsym
    cases hsym
  | plain h => exact ⟨ts, [], e, (List.append_nil ts).symm, ⟨_, h⟩, .inl ⟨rfl, rfl⟩⟩
  | power hb hsym hx => exact ⟨_, _, _, rfl, ⟨_, hb⟩, .inr ⟨_, _, _, rfl, hsym, ⟨_, hx⟩, rfl⟩⟩

/-- The unary expressions that begin with a sign go on with a unary expression. -/
theorem belongs_sign_iff {op : UnaryOp} (ht : t.isSymbol op.symbol) :
    Belongs Z .unary (t :: ts) e ↔ ∃ x, Belongs Z .unary ts x ∧ e = .unary op x := by
  constructor
  · rintro ⟨c, h⟩
    have hhead : ∀ {us vs : List Token} {b : Expr} {c : ℕ}, Derives Z .primary us b c →
        t :: ts = us ++ vs → False := by
      intro us vs b c h hlist
      obtain ⟨u, us, rfl, hu⟩ := h.head_primary
      obtain ⟨rfl, -⟩ := List.cons.inj hlist
      rw [hu op] at ht
      cases ht
    generalize hlist : t :: ts = list at h
    cases h with
    | sign hsym h =>
      cases hlist
      obtain rfl := unaryOp_eq_of_isSymbol ht hsym
      exact ⟨_, ⟨_, h⟩, rfl⟩
    | plain h => exact (hhead h (by rw [hlist, List.append_nil])).elim
    | power h => exact (hhead h hlist).elim
  · rintro ⟨x, ⟨c, h⟩, rfl⟩
    exact ⟨_, .sign ht h⟩

theorem knows_unaryLevel (hq : Knows input m .unary q) :
    Knows input (m + 1) .unary (unaryLevel q) := by
  intro s hs
  refine Recognizes.insideFinally ?_
  obtain ⟨o, ho, hop⟩ := sign?_apply input s.deeper
  refine Recognizes.look ho ?_
  cases o with
  | some op =>
    obtain ⟨t, ht, hsym⟩ := (hop op).mp rfl
    obtain ⟨ts, d⟩ := s
    obtain ⟨rest, rfl⟩ := List.head?_eq_some_iff.mp ht
    have hrest : rest.length < m := Nat.lt_of_succ_lt_succ hs
    refine Recognizes.advance ?_
      ((Recognizes.map (g := Expr.unary op) (hq ⟨rest, d + 1⟩ hrest)).of ?_ ?_ fun _ h => h)
    · rintro _ rest' e ⟨c, h⟩ - - rfl
      have hone : 1 ≤ c := h.least_le
      have hzero : c + 0 ≤ 0 := h.cost_le
      omega
    · rintro us _ ⟨x, hx, rfl⟩
      exact (belongs_sign_iff hsym).mpr ⟨x, hx, rfl⟩
    · rintro ws rest' e h - -
      exact (belongs_sign_iff hsym).mp h
  | none =>
    refine (recognizes_power (s := s.deeper) hq hs).of (fun _ _ h => h.belongs) ?_ fun _ h => h
    intro ws rest' e h _ hhead
    have hnone : ∀ t ∈ (ws ++ rest').head?, ∀ op : UnaryOp, t.isSymbol op.symbol = false := by
      intro t ht op
      rw [hhead] at ht
      rw [Bool.eq_false_iff]
      intro hsym
      cases (hop op).mpr ⟨t, ht, hsym⟩
    exact h.powers hnone

/-- **As many turns as tokens are enough**, and one more for the end of the input. -/
theorem knows_nested (stop : Parser Expr) : ∀ m, Knows input m .unary (nested stop m)
  | 0 => fun _ hs => absurd hs (Nat.not_lt_zero _)
  | m + 1 => fun s hs => knows_unaryLevel (knows_nested stop m) s hs

theorem knows_unary (m : ℕ) : Knows input m .unary unary :=
  fun s _ => knows_nested (expected .expression) (s.rest.length + 1) s (Nat.lt_succ_self _)

/-- **Expressions are recognized**, whatever stands before or behind them. -/
theorem recognizes_expression (input : Input) (s : State) :
    Recognizes input (Forms input.dialect.nullary) (Ends (Phrase.level levels).extending) s
      (expression input s) :=
  knows_expressionOver (knows_unary (s.rest.length + 1)) s (Nat.lt_succ_self _)

end Formula.Grammar
