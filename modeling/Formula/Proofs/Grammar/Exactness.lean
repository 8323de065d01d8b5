import Formula.Proofs.Grammar.Completeness
import Formula.Proofs.Grammar.Depth
import Formula.Proofs.Grammar.Soundness

/-!
# The parser is the grammar

With more levels than tokens the answers of the parser are the trees of the grammar, and no others
(`ofTokens_eq_ok_iff_forms`). An answer is derived under any limit; a tree that is derived is answered as
soon as its cost is allowed, and a derivation never costs more than it has tokens. One list of tokens
therefore has one tree (`Forms.unique`): under such a limit the parser would answer both.
-/

namespace Formula.Grammar

variable {Z : List String} {ts : List Token}

/-- Tokens with a derivation form its tree under any limit that is not below their number. -/
theorem Forms.ofTokens {e : Expr} (h : Forms Z ts e) {M : ℕ} (hM : ts.length ≤ M) :
    Expr.ofTokens ⟨M, Z⟩ ts = .ok e := by
  obtain ⟨c, hc⟩ := h
  have hcost : c + 0 ≤ ts.length := hc.cost_le
  exact (hc.ofTokens M).1 (by omega)

/-- **One list of tokens has one tree.** -/
theorem Forms.unique {e e' : Expr} (h : Forms Z ts e) (h' : Forms Z ts e') : e = e' := by
  have hok : Expr.ofTokens ⟨ts.length, Z⟩ ts = .ok e := h.ofTokens le_rfl
  rw [h'.ofTokens le_rfl] at hok
  exact (Except.ok.inj hok).symm

/-- **Exactness.** With more levels than tokens the parser answers a tree if and only if the tokens
form it; they form at most one, and they are never nested too deeply. -/
theorem ofTokens_eq_ok_iff_forms {M : ℕ} (hM : ts.length < M) :
    (∀ e, Expr.ofTokens ⟨M, Z⟩ ts = .ok e ↔ Forms Z ts e) ∧
      (∀ e e', Forms Z ts e → Forms Z ts e' → e = e') ∧
      ∀ pos limit, Expr.ofTokens ⟨M, Z⟩ ts ≠ .error ⟨pos, .tooDeep limit⟩ := by
  refine ⟨fun e => ⟨forms_of_ofTokens, fun h => h.ofTokens hM.le⟩, fun e e' => Forms.unique, ?_⟩
  exact Parser.not_tooDeep hM

/-- The tokens of `a+b^f()`, where `f` may be called without arguments. -/
theorem ofTokens_eq_ok_iff_forms_sum :
    let ts : List Token := [⟨.name, "a", 0⟩, ⟨.symbol, "+", 1⟩, ⟨.name, "b", 2⟩, ⟨.symbol, "^", 3⟩,
      ⟨.name, "f", 4⟩, ⟨.symbol, "(", 5⟩, ⟨.symbol, ")", 6⟩]
    ts.length < 8 ∧
      Forms ["f"] ts (.binary (.path ["a"]) .add (.binary (.path ["b"]) .power (.call "f" []))) ∧
      ∀ pos limit, Expr.ofTokens ⟨8, ["f"]⟩ ts ≠ .error ⟨pos, .tooDeep limit⟩ := by
  intro ts
  have hlen : ts.length < 8 := by decide
  have hexact := ofTokens_eq_ok_iff_forms (Z := ["f"]) hlen
  refine ⟨hlen, (hexact.1 _).mp ?_, hexact.2.2⟩
  decide +kernel

end Formula.Grammar
