import Formula.Proofs.Grammar.Completeness

/-!
# Parsers recognize their phrases, token by token

A language says which tokens are a phrase and which value it has. `Recognizes input P F s r` says that
the reply `r`, given in the state `s`, is the right one for the language `P`, where a phrase may only
stand before tokens that satisfy `F`. The reply is right for more than the tokens at hand: only the
tokens that are consumed and the one behind them matter.

* An answer is the value of the tokens that were consumed, and whatever comes behind the next token,
  no other phrase can be read off.
* At an error, the tokens that were consumed can be completed to a phrase; but with the next token
  behind them, no phrase can be read off, whatever comes then. The error stands at that token.

An error of nesting says nothing. The rules take a language apart as the parsers do: one phrase behind
another, the phrases that begin with a given token, those that the next token allows.
-/

namespace Formula.Parser

variable {α β : Type} {input : Input} {s : State}

/-- The reply is the right one for the phrases `P`, which may only stand before tokens in `F`. -/
def Recognizes (input : Input) (P : List Token → α → Prop) (F : List Token → Prop) (s : State) :
    Reply α → Prop
  | .done a s' => ∃ ts, s.rest = ts ++ s'.rest ∧ P ts a ∧
      ∀ ⦃tail ws rest : List Token⦄ ⦃b : α⦄, tail.head? = s'.rest.head? → P ws b → F rest →
        ts ++ tail = ws ++ rest → ws = ts ∧ b = a
  | .failed e s' => (∃ limit, e.fault = .tooDeep limit) ∨
      e.position = s'.position input ∧ ∃ ts, s.rest = ts ++ s'.rest ∧ (∃ us a, P (ts ++ us) a) ∧
        ∀ ⦃tail ws rest : List Token⦄ ⦃b : α⦄, tail.head? = s'.rest.head? → P ws b → F rest →
          ts ++ tail ≠ ws ++ rest

/-- One phrase behind another, whose language may depend on the value of the first. -/
def Sequence (P : List Token → α → Prop) (Q : α → List Token → β → Prop) (ts : List Token) (b : β) :
    Prop :=
  ∃ us vs a, ts = us ++ vs ∧ P us a ∧ Q a vs b

namespace Recognizes

variable {P P' : List Token → α → Prop} {F F' : List Token → Prop}

/-! ### Rules -/

theorem head?_append_congr {tail tail' : List Token} (ts : List Token)
    (h : tail.head? = tail'.head?) : (ts ++ tail).head? = (ts ++ tail').head? := by
  rw [List.head?_append, List.head?_append, h]

/-- The phrases may be replaced by others, among which those that the next token allows are the same. -/
theorem of {r : Reply α} (h : Recognizes input P F s r) (hP : ∀ ⦃ts a⦄, P ts a → P' ts a)
    (hP' : ∀ ⦃ws rest a⦄, P' ws a → F' rest → (ws ++ rest).head? = s.rest.head? → P ws a)
    (hF : ∀ ⦃rest⦄, F' rest → F rest) : Recognizes input P' F' s r := by
  cases r with
  | done a s' =>
    obtain ⟨ts, hts, ha, hunique⟩ := h
    refine ⟨ts, hts, hP ha, fun tail ws rest b htail hws hrest heq => ?_⟩
    refine hunique htail (hP' hws hrest ?_) (hF hrest) heq
    rw [← heq, hts]
    exact head?_append_congr ts htail
  | failed e s' =>
    rcases h with hdeep | ⟨hpos, ts, hts, ⟨us, a, hcomplete⟩, hrefuse⟩
    · exact .inl hdeep
    · refine .inr ⟨hpos, ts, hts, ⟨us, a, hP hcomplete⟩, fun tail ws rest b htail hws hrest heq => ?_⟩
      refine hrefuse htail (hP' hws hrest ?_) (hF hrest) heq
      rw [← heq, hts]
      exact head?_append_congr ts htail

theorem pure (a : α) :
    Recognizes input (fun ts b => ts = [] ∧ b = a) F s ((pure a : Parser α) input s) := by
  refine ⟨[], rfl, ⟨rfl, rfl⟩, ?_⟩
  rintro tail ws rest b - ⟨rfl, rfl⟩ - -
  exact ⟨rfl, rfl⟩

/-- Nothing is consumed, and the next token begins no phrase. -/
theorem fail {fault : ParseFault} (hcomplete : ∃ us a, P us a)
    (hrefuse : ∀ ⦃ws rest b⦄, P ws b → F rest → (ws ++ rest).head? ≠ s.rest.head?) :
    Recognizes input P F s ((Parser.fail fault : Parser α) input s) := by
  refine .inr ⟨rfl, [], rfl, hcomplete, fun tail ws rest b htail hws hrest heq => ?_⟩
  exact hrefuse hws hrest (by rw [← heq]; exact htail)

theorem expected {what : Expectation} (hcomplete : ∃ us a, P us a)
    (hrefuse : ∀ ⦃ws rest b⦄, P ws b → F rest → (ws ++ rest).head? ≠ s.rest.head?) :
    Recognizes input P F s ((Parser.expected what : Parser α) input s) :=
  fail hcomplete hrefuse

/-- Looking ahead consumes nothing. -/
theorem look {p : Parser α} {f : α → Parser β} {Q : List Token → β → Prop} {a : α}
    (hp : p input s = .done a s) (hf : Recognizes input Q F s (f a input s)) :
    Recognizes input Q F s ((p >>= f) input s) := by
  rw [bind_apply, hp]
  exact hf

/-- The next token decides. -/
theorem nextIs {symbol : String} {f : Bool → Parser α} {ts : List Token} {d : ℕ}
    (htrue : ∀ t rest, ts = t :: rest → t.isSymbol symbol →
      Recognizes input P F ⟨t :: rest, d⟩ (f true input ⟨t :: rest, d⟩))
    (hfalse : Ends [symbol] ts → Recognizes input P F ⟨ts, d⟩ (f false input ⟨ts, d⟩)) :
    Recognizes input P F ⟨ts, d⟩ ((Parser.nextIs symbol >>= f) input ⟨ts, d⟩) := by
  by_cases hnext : ∃ t ∈ ts.head?, t.isSymbol symbol
  · obtain ⟨t, ht, hsym⟩ := hnext
    obtain ⟨rest, rfl⟩ := List.head?_eq_some_iff.mp ht
    exact look (nextIs_of_isSymbol hsym) (htrue t rest rfl hsym)
  · have hends : Ends [symbol] ts := ends_singleton_iff.mpr hnext
    exact look (nextIs_of_ends hends (List.mem_singleton_self symbol)) (hfalse hends)

/-- **One phrase behind another.** -/
theorem bind {p : Parser α} {f : α → Parser β} {Q : α → List Token → β → Prop}
    {G : List Token → Prop}
    (hp : Recognizes input P F s (p input s))
    (hf : ∀ a s₁, s₁.rest <:+ s.rest → Recognizes input (Q a) G s₁ (f a input s₁))
    (hQ : ∀ ⦃ts a⦄, P ts a → ∃ us b, Q a us b)
    (hF : ∀ ⦃ts a us b rest⦄, P ts a → Q a us b → G rest → F (us ++ rest)) :
    Recognizes input (Sequence P Q) G s ((p >>= f) input s) := by
  rw [bind_apply]
  cases hps : p input s with
  | failed e s₁ =>
    rw [hps] at hp
    rcases hp with hdeep | ⟨hpos, ts, hts, ⟨us, a, hcomplete⟩, hrefuse⟩
    · exact .inl hdeep
    · obtain ⟨vs, b, hb⟩ := hQ hcomplete
      refine .inr ⟨hpos, ts, hts, ⟨us ++ vs, b, ts ++ us, vs, a, by simp, hcomplete, hb⟩, ?_⟩
      rintro tail _ rest b' htail ⟨w₁, w₂, a', rfl, hw₁, hw₂⟩ hrest heq
      exact hrefuse htail hw₁ (hF hw₁ hw₂ hrest) (by rw [heq, List.append_assoc])
  | done a s₁ =>
    rw [hps] at hp
    obtain ⟨ts, hts, ha, hunique⟩ := hp
    have hreply := hf a s₁ ⟨ts, hts.symm⟩
    dsimp only
    -- The tokens that `f` consumes decide which token stands behind those of `p`.
    have hsplit : ∀ {us tail : List Token} {s₂ : State} {w₁ w₂ rest : List Token} {a' : α} {b : β},
        s₁.rest = us ++ s₂.rest → tail.head? = s₂.rest.head? → P w₁ a' → Q a' w₂ b → G rest →
        ts ++ us ++ tail = w₁ ++ w₂ ++ rest → w₁ = ts ∧ a' = a ∧ us ++ tail = w₂ ++ rest := by
      intro us tail s₂ w₁ w₂ rest a' b hus htail hw₁ hw₂ hrest heq
      rw [List.append_assoc, List.append_assoc] at heq
      have hhead : (us ++ tail).head? = s₁.rest.head? := by
        rw [hus]
        exact head?_append_congr us htail
      obtain ⟨rfl, rfl⟩ := hunique hhead hw₁ (hF hw₁ hw₂ hrest) heq
      exact ⟨rfl, rfl, List.append_cancel_left heq⟩
    cases hfs : f a input s₁ with
    | done b s₂ =>
      rw [hfs] at hreply
      obtain ⟨us, hus, hb, hunique'⟩ := hreply
      refine ⟨ts ++ us, by rw [hts, hus, List.append_assoc], ⟨ts, us, a, rfl, ha, hb⟩, ?_⟩
      rintro tail _ rest b' htail ⟨w₁, w₂, a', rfl, hw₁, hw₂⟩ hrest heq
      obtain ⟨rfl, rfl, heq'⟩ := hsplit hus htail hw₁ hw₂ hrest heq
      obtain ⟨rfl, rfl⟩ := hunique' htail hw₂ hrest heq'
      exact ⟨rfl, rfl⟩
    | failed e s₂ =>
      rw [hfs] at hreply
      rcases hreply with hdeep | ⟨hpos, us, hus, ⟨vs, b, hcomplete⟩, hrefuse⟩
      · exact .inl hdeep
      · refine .inr ⟨hpos, ts ++ us, by rw [hts, hus, List.append_assoc],
          ⟨vs, b, ts, us ++ vs, a, by simp, ha, hcomplete⟩, ?_⟩
        rintro tail _ rest b' htail ⟨w₁, w₂, a', rfl, hw₁, hw₂⟩ hrest heq
        obtain ⟨rfl, rfl, heq'⟩ := hsplit hus htail hw₁ hw₂ hrest heq
        exact hrefuse htail hw₂ hrest heq'

/-- The value of a phrase, changed. -/
theorem map {p : Parser α} {g : α → β} (hp : Recognizes input P F s (p input s)) :
    Recognizes input (fun ts b => ∃ a, P ts a ∧ b = g a) F s
      ((p >>= fun a => Pure.pure (g a)) input s) := by
  refine (bind (G := F) hp (fun a s₁ _ => pure (g a)) (fun _ a _ => ⟨[], g a, rfl, rfl⟩) ?_).of
    ?_ ?_ fun _ h => h
  · rintro _ _ _ _ rest - ⟨rfl, -⟩ hrest
    exact hrest
  · rintro _ b ⟨us, vs, a, rfl, ha, rfl, rfl⟩
    exact ⟨a, by rwa [List.append_nil], rfl⟩
  · rintro ws rest b ⟨a, ha, rfl⟩ - -
    exact ⟨ws, [], a, (List.append_nil _).symm, ha, rfl, rfl⟩

/-- **A token is consumed**, and the phrases go on behind it. -/
theorem advance {f : Unit → Parser α} {t : Token} {rest : List Token} {d : ℕ}
    (hne : ∀ ⦃ws rest' b⦄, P ws b → F rest' → (ws ++ rest').head? = some t → ws ≠ [])
    (hf : Recognizes input (fun us b => P (t :: us) b) F ⟨rest, d⟩ (f () input ⟨rest, d⟩)) :
    Recognizes input P F ⟨t :: rest, d⟩ ((Parser.advance >>= f) input ⟨t :: rest, d⟩) := by
  rw [bind_apply]
  change Recognizes input P F ⟨t :: rest, d⟩ (f () input ⟨rest, d⟩)
  -- Every phrase that can be read off begins with the token.
  have hcons : ∀ {ts tail ws rest' : List Token} {b : α}, P ws b → F rest' →
      t :: ts ++ tail = ws ++ rest' → ∃ us, ws = t :: us ∧ ts ++ tail = us ++ rest' := by
    intro ts tail ws rest' b hws hrest heq
    obtain ⟨u, us, rfl⟩ := List.exists_cons_of_ne_nil (hne hws hrest (by rw [← heq]; rfl))
    obtain ⟨rfl, heq'⟩ := List.cons.inj heq
    exact ⟨us, rfl, heq'⟩
  cases hfs : f () input ⟨rest, d⟩ with
  | done a s' =>
    rw [hfs] at hf
    obtain ⟨ts, hts, ha, hunique⟩ := hf
    refine ⟨t :: ts, congrArg (t :: ·) hts, ha, fun tail ws rest' b htail hws hrest heq => ?_⟩
    obtain ⟨us, rfl, heq'⟩ := hcons hws hrest heq
    obtain ⟨rfl, rfl⟩ := hunique htail hws hrest heq'
    exact ⟨rfl, rfl⟩
  | failed e s' =>
    rw [hfs] at hf
    rcases hf with hdeep | ⟨hpos, ts, hts, hcomplete, hrefuse⟩
    · exact .inl hdeep
    · refine .inr ⟨hpos, t :: ts, congrArg (t :: ·) hts, hcomplete, ?_⟩
      intro tail ws rest' b htail hws hrest heq
      obtain ⟨us, rfl, heq'⟩ := hcons hws hrest heq
      exact hrefuse htail hws hrest heq'

/-- A symbol that would continue a phrase is consumed: no phrase ends before it. -/
theorem advance_of_mem {f : Unit → Parser α} {ss : List String} {symbol : String} {t : Token}
    {rest : List Token} {d : ℕ} (hsymbol : symbol ∈ ss) (ht : t.isSymbol symbol)
    (hf : Recognizes input (fun us b => P (t :: us) b) (Ends ss) ⟨rest, d⟩ (f () input ⟨rest, d⟩)) :
    Recognizes input P (Ends ss) ⟨t :: rest, d⟩ ((Parser.advance >>= f) input ⟨t :: rest, d⟩) := by
  refine advance ?_ hf
  rintro _ rest' b - hends hhead rfl
  exact hends.not_isSymbol hhead hsymbol ht

/-- A token that is a phrase by itself, and begins no other. -/
theorem single {a : α} {t : Token} {rest : List Token} {d : ℕ} (ha : P [t] a)
    (honly : ∀ ⦃ws rest' b⦄, P ws b → F rest' → (ws ++ rest').head? = some t → ws = [t] ∧ b = a) :
    Recognizes input P F ⟨t :: rest, d⟩
      ((Parser.advance >>= fun _ => Pure.pure a) input ⟨t :: rest, d⟩) := by
  refine ⟨[t], rfl, ha, fun tail ws rest' b _ hws hrest heq => ?_⟩
  exact honly hws hrest (by rw [← heq]; rfl)

theorem inside {p : Parser α} (hp : Recognizes input P F s.deeper (p input s.deeper)) :
    Recognizes input P F s (Parser.inside p input s) := by
  unfold Parser.inside
  by_cases h : input.dialect.maxDepth < s.depth + 1
  · rw [if_pos h]
    exact .inl ⟨_, rfl⟩
  · rw [if_neg h]
    cases hps : p input s.deeper with
    | done a s' => rw [hps] at hp; exact hp
    | failed e s' => rw [hps] at hp; exact hp

theorem insideFinally {p : Parser α} (hp : Recognizes input P F s.deeper (p input s.deeper)) :
    Recognizes input P F s (Parser.insideFinally p input s) := by
  unfold Parser.insideFinally
  by_cases h : input.dialect.maxDepth < s.depth + 1
  · rw [if_pos h]
    exact .inl ⟨_, rfl⟩
  · rw [if_neg h]
    cases hps : p input s.deeper with
    | done a s' => rw [hps] at hp; exact hp
    | failed e s' => rw [hps] at hp; exact hp

end Recognizes

end Formula.Parser
