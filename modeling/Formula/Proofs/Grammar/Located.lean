import Formula.Proofs.Grammar.Depth
import Formula.Proofs.Grammar.Soundness
import Formula.Proofs.Token.Spans

/-!
# Errors stand where a formula cannot go on

A reader of tokens is *stuck* behind tokens with which no list begins that it accepts under any limit; it
can be *completed* behind tokens with which some list begins that it accepts under all limits that are
large enough. Where the nesting is not too deep, the error of a refusal stands at the first token with
which the reader is stuck, or at the end of tokens that can still be completed (`Localized`). Both readers
of formulas recognize their phrases, so this is what recognition says about their errors.

The tokens of a source stand between characters of it, so the position of an error does as well
(`error_localized`).
-/

namespace Formula

open Formula.Parser Formula.Grammar

variable {α : Type} {input : Input} {ts : List Token} {e : ParseError} {source : String}

/-- Some list that begins with the tokens is accepted under every limit that is large enough. -/
def Completable (read : ℕ → List Token → Except ParseError α) (ts : List Token) : Prop :=
  ∃ us a M₀, ∀ M ≥ M₀, read M (ts ++ us) = .ok a

/-- No list that begins with the tokens is accepted, under any limit. -/
def Stuck (read : ℕ → List Token → Except ParseError α) (ts : List Token) : Prop :=
  ∀ us M a, read M (ts ++ us) ≠ .ok a

/-- **Where an error may stand** in tokens. -/
inductive Localized (read : ℕ → List Token → Except ParseError α) (ts : List Token) (pos : ℕ) : Prop
  /-- At the first token with which no formula goes on. -/
  | token (i : ℕ) (hi : i < ts.length) (hpos : pos = ts[i].position)
      (hcompletable : Completable read (ts.take i)) (hstuck : Stuck read (ts.take (i + 1)))
  /-- Behind the last token, where the formula is not complete. -/
  | stop (hpos : pos = (ts.getLast?.map Token.stop).getD 0) (hcompletable : Completable read ts)

/-- The byte offset lies between two characters, or at an end of the source. -/
def IsBoundary (source : String) (pos : ℕ) : Prop :=
  ∃ before after, source = before ++ after ∧ before.utf8ByteSize = pos

/-! ### Readers that recognize their phrases -/

/-- A reader accepts the phrases of a language, each under all limits that are large enough. -/
structure Accepts (read : ℕ → List Token → Except ParseError α) (P : List Token → α → Prop) : Prop where
  sound : ∀ ⦃M ts a⦄, read M ts = .ok a → P ts a
  complete : ∀ ⦃ts a⦄, P ts a → ∃ M₀, ∀ M ≥ M₀, read M ts = .ok a

theorem stop_eq_getD (input : Input) :
    input.stop = (input.tokens.getLast?.map Token.stop).getD 0 := by
  unfold Input.stop
  cases input.tokens.getLast? <;> rfl

/-- **The errors of a parser that recognizes its phrases** are localized, if there are fewer tokens than
levels. -/
theorem Parser.Recognizes.localized {p : Parser α} {P : List Token → α → Prop}
    {read : ℕ → List Token → Except ParseError α} (haccepts : Accepts read P) (hsettled : Settled 0 p)
    (hM : input.tokens.length < input.dialect.maxDepth)
    (hp : Recognizes input P (· = []) input.start (p input input.start))
    (he : (p input input.start).result = .error e) : Localized read input.tokens e.position := by
  have hdeep : ∀ limit, e.fault ≠ .tooDeep limit := fun limit hfault =>
    hsettled.not_tooDeep input hM e.position limit (by rw [← hfault]; exact he)
  cases hr : p input input.start with
  | done a s =>
    rw [hr] at he
    cases he
  | failed e' s =>
    rw [hr] at hp he
    cases he
    rcases hp with ⟨limit, hlimit⟩ | ⟨hpos, us, hus, ⟨vs, a, ha⟩, hrefuse⟩
    · exact absurd hlimit (hdeep limit)
    have htokens : input.tokens = us ++ s.rest := hus
    obtain ⟨M₀, hM₀⟩ := haccepts.complete ha
    have hcompletable : Completable read us := ⟨vs, a, M₀, hM₀⟩
    obtain ⟨rest, d⟩ := s
    cases rest with
    | nil =>
      rw [List.append_nil] at htokens
      subst htokens
      exact .stop (hpos.trans (stop_eq_getD input)) hcompletable
    | cons t rest =>
      have hi : us.length < input.tokens.length := by simp [htokens]
      refine .token us.length hi ?_ ?_ ?_
      · rw [hpos]
        simp [State.position, htokens]
      · simpa [htokens] using hcompletable
      · intro ws M a hok
        have hhead : (t :: ws).head? = (t :: rest).head? := rfl
        refine hrefuse hhead (haccepts.sound hok) rfl ?_
        simp [htokens, List.take_append]

theorem accepts_expression (Z : List String) :
    Accepts (fun M ts => Expr.ofTokens ⟨M, Z⟩ ts) (Forms Z) := by
  refine ⟨fun _ _ _ => forms_of_ofTokens, ?_⟩
  rintro ts e ⟨c, hc⟩
  exact ⟨c, fun M hM => (hc.ofTokens M).1 hM⟩

theorem accepts_assignment (Z : List String) :
    Accepts (fun M ts => Assignment.ofTokens ⟨M, Z⟩ ts) (Assigns Z) := by
  refine ⟨fun _ _ _ => assigns_of_ofTokens, ?_⟩
  rintro _ ⟨path, e⟩ ⟨_, r, vs, rfl, ⟨t, us, names, rfl, ht, hattr, rfl⟩, hr, c, hc⟩
  exact ⟨c, fun M hM => (hc.ofTokens_assignment ht hattr hr M).1 hM⟩

/-! ### Positions in a source -/

theorem IsBoundary.le {pos : ℕ} (h : IsBoundary source pos) : pos ≤ source.utf8ByteSize := by
  obtain ⟨before, after, rfl, rfl⟩ := h
  rw [String.utf8ByteSize_append]
  exact Nat.le_add_right _ _

theorem isBoundary_zero (source : String) : IsBoundary source 0 :=
  ⟨"", source, by rw [String.empty_append], String.utf8ByteSize_empty⟩

/-- The tokens of a source begin and end between characters. -/
theorem isBoundary_of_mem {t : Token} (hts : Token.ofSource source = .ok ts) (ht : t ∈ ts) :
    IsBoundary source t.position ∧ IsBoundary source t.stop := by
  have hmem : Except.ok t ∈ Item.ofSource source := by
    rw [Item.collect_eq_ok_iff.mp hts]
    exact List.mem_map_of_mem ht
  obtain ⟨-, lexeme, ⟨before, after, hsource, hstart, hstop⟩, -⟩ :=
    (Item.ofSource_tiles source).partitions.lexemes _ hmem
  refine ⟨⟨before, lexeme ++ after, ?_, hstart⟩, ⟨before ++ lexeme, after, hsource, hstop⟩⟩
  rw [hsource, String.append_assoc]

theorem Localized.isBoundary {read : ℕ → List Token → Except ParseError α} {pos : ℕ}
    (h : Localized read ts pos) (hts : Token.ofSource source = .ok ts) : IsBoundary source pos := by
  cases h with
  | token i hi hpos =>
    rw [hpos]
    exact (isBoundary_of_mem hts (List.getElem_mem hi)).1
  | stop hpos =>
    rw [hpos]
    cases hlast : ts.getLast? with
    | none => exact isBoundary_zero source
    | some t => exact (isBoundary_of_mem hts (List.mem_of_getLast? hlast)).2

/-- **Errors are localized.** In a source whose tokens are fewer than the levels that are allowed, the
error of a refused formula stands at the first token with which no formula goes on, or behind tokens that
can be completed; its position lies in the source, between two characters or at an end. -/
theorem error_localized (source : String) (ts : List Token) (M : ℕ) (Z : List String)
    (hts : Token.ofSource source = .ok ts) (hM : ts.length < M) :
    (∀ e, Expr.ofTokens ⟨M, Z⟩ ts = .error e →
      Localized (fun M ts => Expr.ofTokens ⟨M, Z⟩ ts) ts e.position ∧
        e.position ≤ source.utf8ByteSize ∧ IsBoundary source e.position) ∧
    ∀ e, Assignment.ofTokens ⟨M, Z⟩ ts = .error e →
      Localized (fun M ts => Assignment.ofTokens ⟨M, Z⟩ ts) ts e.position ∧
        e.position ≤ source.utf8ByteSize ∧ IsBoundary source e.position := by
  have hplaced : ∀ {α : Type} {read : ℕ → List Token → Except ParseError α} {pos : ℕ},
      Localized read ts pos →
        Localized read ts pos ∧ pos ≤ source.utf8ByteSize ∧ IsBoundary source pos :=
    fun h => ⟨h, (h.isBoundary hts).le, h.isBoundary hts⟩
  refine ⟨fun e he => hplaced ?_, fun e he => hplaced ?_⟩
  · exact (recognizes_wholeExpression ⟨ts, ⟨M, Z⟩⟩ id).localized (accepts_expression Z)
      settled_wholeExpression hM he
  · exact (recognizes_wholeAssignment ⟨ts, ⟨M, Z⟩⟩ id).localized (accepts_assignment Z)
      settled_wholeAssignment hM he

/-- Behind `é+` a closing parenthesis begins no operand. -/
theorem error_localized_unopened :
    let source := "é+)"
    let ts : List Token := [⟨.name, "é", 0⟩, ⟨.symbol, "+", 2⟩, ⟨.symbol, ")", 3⟩]
    let e : ParseError := ⟨3, .unexpected .expression (some ⟨.symbol, ")", 3⟩)⟩
    Token.ofSource source = .ok ts ∧ ts.length < 4 ∧ Expr.ofTokens ⟨4, []⟩ ts = .error e ∧
      Localized (fun M ts => Expr.ofTokens ⟨M, []⟩ ts) ts e.position ∧
      e.position ≤ source.utf8ByteSize ∧ IsBoundary source e.position := by
  intro source ts e
  have hts : Token.ofSource source = .ok ts := by decide +kernel
  have hM : ts.length < 4 := by decide
  have he : Expr.ofTokens ⟨4, []⟩ ts = .error e := by decide +kernel
  exact ⟨hts, hM, he, (error_localized source ts 4 [] hts hM).1 e he⟩

end Formula
