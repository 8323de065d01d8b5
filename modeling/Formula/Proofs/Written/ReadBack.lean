import Formula.Proofs.Grammar.Completeness
import Formula.Proofs.Written.Display

/-!
# Written forms read back

The text of a well-formed tree is cut into tokens that form the tree again, and what this costs is known
exactly: `Expr.writtenDepth`. So the limit decides, and nothing else does (`ofTokens_display`). For an
assignment it is the value that decides; its destination costs nothing.
-/

namespace Formula

open Grammar Item
open Formula.Parser (levels)

variable {Z : List String}

/-- The tokens of a written form, and what they form at which cost. -/
theorem Expr.derives_display {e : Expr} (h : e.isWellFormed Z = true) :
    ∃ ts, Token.ofSource e.display = .ok ts ∧ Derives Z (.level levels) ts e e.writtenDepth := by
  obtain ⟨ts, c, hts, hderives, hdepth⟩ := Expr.written e h 0 [] closes_nil
  refine ⟨ts, hts.ofSource, ?_⟩
  rw [hdepth]
  exact hderives.level_of_primary levels

/-- The tokens of a written assignment: a path, the sign, and those of the value. -/
theorem Assignment.derives_display {a : Assignment} (h : a.isWellFormed Z = true) :
    ∃ t r ts us names, Token.ofSource a.display = .ok (t :: ts ++ r :: us) ∧ t.isRoot ∧
      Attributes ts names ∧ r.isSymbol "=" ∧ a.destination = t.text :: names ∧
      Derives Z (.level levels) us a.value a.value.writtenDepth := by
  simp only [isWellFormed, Bool.and_eq_true] at h
  obtain ⟨hpath, hvalue⟩ := h
  have hequals : ∀ p rest, Spells p ['='] [⟨.symbol, "=", p⟩] (' ' :: rest) := by
    intro p rest
    exact spells_mark (by decide) (blank_ends_symbol _ '=')
  have hblank : ∀ rest, Closes (' ' :: rest) := fun rest => closes_cons (Or.inl rfl)
  obtain ⟨t, ts, names, hts, hroot, hattr, hdest⟩ := spells_path hpath 0 (hblank
    (['='] ++ ([' '] ++ a.value.display.toList) ++ []))
  obtain ⟨us, c, hus, hderives, hdepth⟩ := Expr.written a.value hvalue (0 + bytes
    (Path.display a.destination).toList + bytes [' '] + bytes ['='] + bytes [' ']) [] closes_nil
  have hright := (spells_space _ _).append hus
  have hspells := hts.append ((spells_space _ _).append ((hequals _ _).append hright))
  rw [← Assignment.toList_display] at hspells
  refine ⟨t, _, ts, us, names, hspells.ofSource, hroot, hattr, isSymbol_mk _ _, hdest, ?_⟩
  rw [hdepth]
  exact hderives.level_of_primary levels

/-- **Written forms read back** if the limit allows the levels that they take, and are nested too
deeply if it does not. -/
theorem ofTokens_display (Z : List String) (m : ℕ) :
    (∀ e : Expr, e.isWellFormed Z = true → ∃ ts, Token.ofSource e.display = .ok ts ∧
      (e.writtenDepth ≤ m → Expr.ofTokens ⟨m, Z⟩ ts = .ok e) ∧
      (m < e.writtenDepth → ∃ pos, Expr.ofTokens ⟨m, Z⟩ ts = .error ⟨pos, .tooDeep m⟩)) ∧
    (∀ a : Assignment, a.isWellFormed Z = true → ∃ ts, Token.ofSource a.display = .ok ts ∧
      (a.value.writtenDepth ≤ m → Assignment.ofTokens ⟨m, Z⟩ ts = .ok a) ∧
      (m < a.value.writtenDepth → ∃ pos,
        Assignment.ofTokens ⟨m, Z⟩ ts = .error ⟨pos, .tooDeep m⟩)) := by
  refine ⟨fun e h => ?_, fun a h => ?_⟩
  · obtain ⟨ts, hts, hderives⟩ := Expr.derives_display h
    exact ⟨ts, hts, hderives.ofTokens m⟩
  · obtain ⟨t, r, ts, us, names, hts, hroot, hattr, hr, hdest, hderives⟩ :=
      Assignment.derives_display h
    have hofTokens := hderives.ofTokens_assignment hroot hattr hr m
    rw [← hdest] at hofTokens
    exact ⟨_, hts, hofTokens⟩

/-- The call `max((-1), [a b].c)` takes four levels. -/
theorem ofTokens_display_call :
    let e : Expr := .call "max" [.unary .negate (.literal Decimal.one), .path ["a b", "c"]]
    e.isWellFormed [] = true ∧ e.writtenDepth = 4 ∧
      (∃ ts, Token.ofSource e.display = .ok ts ∧ Expr.ofTokens ⟨4, []⟩ ts = .ok e) ∧
      (∃ ts, Token.ofSource (Assignment.display ⟨["x"], e⟩) = .ok ts ∧
        ∃ pos, Assignment.ofTokens ⟨3, []⟩ ts = .error ⟨pos, .tooDeep 3⟩) := by
  intro e
  have he : e.isWellFormed [] = true := by decide +kernel
  have ha : Assignment.isWellFormed [] ⟨["x"], e⟩ = true := by decide +kernel
  obtain ⟨ts, hts, hok, -⟩ := (ofTokens_display [] 4).1 e he
  obtain ⟨us, hus, -, hdeep⟩ := (ofTokens_display [] 3).2 ⟨["x"], e⟩ ha
  exact ⟨he, rfl, ⟨ts, hts, hok (by decide)⟩, us, hus, hdeep (by decide)⟩

end Formula
