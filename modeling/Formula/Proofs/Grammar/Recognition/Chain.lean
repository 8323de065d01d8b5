import Formula.Proofs.Grammar.Recognition

/-!
# Levels are recognized

`Belongs Z φ ts e` forgets the cost of a derivation, and `Knows input m φ q` says that the parser `q`
recognizes the phrases of the class `φ`, if no token behind the phrase continues it
(`Phrase.extending`), where fewer than `m` tokens are left. The parser of a level knows the expressions of
the level as soon as that of its operands knows the operands (`knows_level`): the operator behind an
operand tells whether the chain goes on.
-/

namespace Formula.Grammar

open Formula.Parser

variable {Z : List String} {input : Input} {s : State} {m : ℕ} {q operand : Parser Expr}
  {ts rest : List Token} {e : Expr} {t : Token}

/-- The tokens are a phrase of the class, at some cost. -/
def Belongs (Z : List String) (φ : Phrase) (ts : List Token) (e : Expr) : Prop :=
  ∃ c, Derives Z φ ts e c

/-- The parser recognizes the phrases of a class where fewer than `m` tokens are left. -/
def Knows (input : Input) (m : ℕ) (φ : Phrase) (q : Parser Expr) : Prop :=
  ∀ s : State, s.rest.length < m →
    Recognizes input (Belongs input.dialect.nullary φ) (Ends φ.extending) s (q input s)

/-! ### How a phrase begins -/

/-- A name alone is a primary expression. -/
theorem derives_name (Z : List String) : Derives Z .primary [⟨.name, "a", 0⟩] (.path ["a"]) 0 :=
  .path rfl .nil

theorem Belongs.head_primary (h : Belongs Z .primary ts e) :
    ∃ t us, ts = t :: us ∧ ∀ op : UnaryOp, t.isSymbol op.symbol = false := by
  obtain ⟨c, h⟩ := h
  exact h.head_primary

theorem Belongs.head?_ne_none (h : Belongs Z .primary ts e) : (ts ++ rest).head? ≠ none := by
  obtain ⟨t, us, rfl, -⟩ := h.head_primary
  simp

theorem binaryOp_eq_of_isSymbol {op op' : BinaryOp} (h : t.isSymbol op.symbol)
    (h' : t.isSymbol op'.symbol) : op = op' := by
  rw [Token.isSymbol_iff] at h h'
  have hop := BinaryOp.ofSymbol?_eq_some_iff.mpr h.2.symm
  rw [BinaryOp.ofSymbol?_eq_some_iff.mpr h'.2.symm] at hop
  exact (Option.some.inj hop).symm

/-! ### Levels -/

/-- A chain stops before a token that is none of its operators. -/
theorem recognizes_chain_stop {ops : List BinaryOp} {ls : List (List BinaryOp)} (x : Expr)
    (hstop : ∀ t ∈ s.rest.head?, ∀ op ∈ ops, t.isSymbol op.symbol = false) :
    Recognizes input (Belongs Z (.chain ops ls x)) (Ends (Phrase.chain ops ls x).extending) s
      (.done x s) := by
  refine (Recognizes.pure x).of ?_ ?_ fun _ h => h
  · rintro _ _ ⟨rfl, rfl⟩
    exact ⟨0, .stop⟩
  · rintro ws rest e ⟨c, h⟩ - hhead
    cases h with
    | stop => exact ⟨rfl, rfl⟩
    | more ht hop =>
      rw [hstop _ (by rw [← hhead]; rfl) _ hop] at ht
      cases ht

theorem recognizes_chain {ops : List BinaryOp} {ls : List (List BinaryOp)}
    (hls : (ops :: ls) <:+ levels) (hq : Knows input m (.level ls) operand) :
    ∀ n x (s : State), s.rest.length ≤ n → s.rest.length < m →
      Recognizes input (Belongs input.dialect.nullary (.chain ops ls x))
        (Ends (Phrase.chain ops ls x).extending) s (chain ops operand n x input s)
  | 0, x, s, hn, _ => by
    refine recognizes_chain_stop x fun t ht => ?_
    rw [List.length_eq_zero_iff.mp (by omega : s.rest.length = 0)] at ht
    cases ht
  | n + 1, x, ⟨ts, d⟩, hn, hm => by
    rw [chain]
    obtain ⟨o, ho, hop⟩ := operator?_apply input ops ⟨ts, d⟩
    refine Recognizes.look ho ?_
    cases o with
    | none =>
      refine recognizes_chain_stop x fun t ht op hmem => ?_
      rw [Bool.eq_false_iff]
      intro hsym
      cases (hop op).mpr ⟨hmem, t, ht, hsym⟩
    | some op =>
      obtain ⟨hmem, t, ht, hsym⟩ := (hop op).mp rfl
      obtain ⟨rest, rfl⟩ := List.head?_eq_some_iff.mp ht
      rw [List.length_cons] at hn hm
      have hsymbols : op.symbol ∈ (Phrase.chain ops ls x).extending := by
        simp only [Phrase.extending, List.flatMap_cons, List.append_assoc]
        exact List.mem_append_left _ (List.mem_map_of_mem hmem)
      have hoperand := hq ⟨rest, d + 1⟩ (by simp only; omega)
      refine Recognizes.inside (Recognizes.advance_of_mem hsymbols hsym ?_)
      refine (Recognizes.bind hoperand (G := Ends (Phrase.chain ops ls x).extending)
        (Q := fun y => Belongs input.dialect.nullary (.chain ops ls (.binary x op y)))
        (fun y s₁ hs₁ => ?_) ?_ ?_).of ?_ ?_ fun _ h => h
      · have hlen := hs₁.length_le
        exact recognizes_chain hls hq n _ s₁ (by simp only at hlen; omega)
          (by simp only at hlen; omega)
      · exact fun _ y _ => ⟨[], _, 0, .stop⟩
      · rintro _ y us e rest' - ⟨c, h⟩ hends
        exact h.ends_operand hls hends
      · rintro _ e ⟨us, vs, y, rfl, ⟨c, hy⟩, ⟨d, he⟩⟩
        exact ⟨_, .more hsym hmem hy he⟩
      · rintro ws rest' e ⟨c, h⟩ - -
        cases h with
        | more ht' hop' hy he =>
          obtain rfl := binaryOp_eq_of_isSymbol hsym ht'
          exact ⟨_, _, _, rfl, ⟨_, hy⟩, ⟨_, he⟩⟩

theorem knows_level {ops : List BinaryOp} {ls : List (List BinaryOp)}
    (hls : (ops :: ls) <:+ levels) (hq : Knows input m (.level ls) operand) :
    Knows input m (.level (ops :: ls)) (level ops operand) := by
  intro s hs
  rw [level_apply]
  refine (Recognizes.bind (hq s hs) (G := Ends (Phrase.level (ops :: ls)).extending)
    (Q := fun x => Belongs input.dialect.nullary (.chain ops ls x))
    (fun x s₁ hs₁ => ?_) ?_ ?_).of ?_ ?_ fun _ h => h
  · have hlen := hs₁.length_le
    refine Recognizes.look (a := s₁.rest.length) rfl ?_
    exact recognizes_chain hls hq _ x s₁ le_rfl (by omega)
  · exact fun _ x _ => ⟨[], x, 0, .stop⟩
  · rintro _ x us e rest' - ⟨c, h⟩ hends
    exact h.ends_operand hls hends
  · rintro _ e ⟨us, vs, x, rfl, ⟨c, hx⟩, ⟨d, he⟩⟩
    exact ⟨_, .level hx he⟩
  · rintro ws rest' e ⟨c, h⟩ - -
    cases h with
    | level hx he => exact ⟨_, _, _, rfl, ⟨_, hx⟩, ⟨_, he⟩⟩

theorem knows_levels (hq : Knows input m .unary q) :
    ∀ ls, ls <:+ levels → Knows input m (.level ls) (ls.foldr level q)
  | [], _ => by
    intro s hs
    refine (hq s hs).of ?_ ?_ fun _ h => h
    · rintro ts e ⟨c, h⟩
      exact ⟨c, .operand h⟩
    · rintro ws rest e ⟨c, h⟩ - -
      cases h with
      | operand h => exact ⟨c, h⟩
  | ops :: ls, hls =>
    knows_level hls (knows_levels hq ls ((List.suffix_cons ops ls).trans hls))

theorem knows_expressionOver (hq : Knows input m .unary q) :
    Knows input m (.level levels) (expressionOver q) :=
  knows_levels hq levels (List.suffix_refl _)

end Formula.Grammar
