import Formula.Proofs.Engine.Checking
import Formula.Proofs.Grammar.Layout

/-!
# Layout never changes meaning

Two sources whose tokens have the same contents may be laid out differently: there may be other blanks
between the tokens, and so the tokens may stand at other offsets. An engine reads the same trees from
both, or refuses both at the same token, or both at the end; and what it evaluates from one it evaluates
from the other, asking for the same variables (`layout_irrelevant`).
-/

namespace Formula

open Formula.Parser

variable {ε ε' α : Type} {ts us : List Token} {i : ℕ} {source source' : String} {engine : Engine}

theorem AgreeAt.mapError {position : ε → ℕ} {position' : ε' → ℕ} {f : ε → ε'} {r r' : Except ε α}
    (h : AgreeAt position ts us i r r') (hf : ∀ e, position' (f e) = position e) :
    AgreeAt position' ts us i (r.mapError f) (r'.mapError f) := by
  cases h with
  | value a => exact .value a
  | error he he' => exact .error ((hf _).trans he) ((hf _).trans he')

/-! ### Sources -/

theorem Engine.result_expression (hts : Token.ofSource source = .ok ts) :
    (engine.expression source).result = (Expr.ofTokens engine.dialect ts).mapError .parse := by
  rw [Engine.expression, Token.read_bind_of_ok hts]
  cases Expr.ofTokens engine.dialect ts <;> rfl

theorem Engine.result_assignment (hts : Token.ofSource source = .ok ts) :
    (engine.assignment source).result = (Assignment.ofTokens engine.dialect ts).mapError .parse := by
  rw [Engine.assignment, Token.read_bind_of_ok hts]
  cases Assignment.ofTokens engine.dialect ts <;> rfl

/-- Nothing is asked for where a source cannot be read. -/
theorem Engine.steps_evalSource_of_error {err : SourceError} (vars : Environment)
    (h : (engine.expression source).result = .error err) : (engine.evalSource vars source).steps = [] := by
  rw [evalSource, Run.bind_of_error (Run.mapError_of_error h)]
  exact engine.steps_expression source

/-- **Evaluations that mean the same**: all steps are the same, and so is the value or the error, but that
an error of reading stands at the same token, wherever this is. -/
structure SameMeaning (ts us : List Token) (r r' : Run Failure Float) : Prop where
  steps_eq : r.steps = r'.steps
  lookups_eq : r.lookups = r'.lookups
  value : ∀ x, r.result = .ok x ↔ r'.result = .ok x
  eval : ∀ err, r.result = .error (.eval err) ↔ r'.result = .error (.eval err)
  source : ∀ err, r.result = .error (.source err) → ∃ err', r'.result = .error (.source err') ∧
    ∃ i ≤ ts.length, err.position = Token.offsetOf ts i ∧ err'.position = Token.offsetOf us i

/-- What is read alike is evaluated alike. -/
theorem Engine.sameMeaning_evalSource (hi : i ≤ ts.length)
    (h : AgreeAt SourceError.position ts us i (engine.expression source).result
      (engine.expression source').result) (vars : Environment) :
    SameMeaning ts us (engine.evalSource vars source) (engine.evalSource vars source') := by
  generalize hr : (engine.expression source).result = r at h
  generalize hr' : (engine.expression source').result = r' at h
  cases h with
  | value e =>
    obtain ⟨hresult, hsteps⟩ := Engine.evalSource_of_ok hr vars
    obtain ⟨hresult', hsteps'⟩ := Engine.evalSource_of_ok hr' vars
    have hsame := hsteps.trans hsteps'.symm
    refine ⟨hsame, ?_, fun x => by rw [hresult, hresult'], fun err => by rw [hresult, hresult'], ?_⟩
    · rw [Run.lookups, Run.lookups, hsame]
    · intro err herr
      rw [Engine.evalSource_eq_source_iff, hr] at herr
      cases herr
  | error he he' =>
    have hsteps := Engine.steps_evalSource_of_error vars hr
    have hsteps' := Engine.steps_evalSource_of_error vars hr'
    refine ⟨by rw [hsteps, hsteps'], by rw [Run.lookups, Run.lookups, hsteps, hsteps'], ?_, ?_, ?_⟩
    · intro x
      rw [Engine.evalSource_of_error hr, Engine.evalSource_of_error hr']
      simp
    · intro err
      rw [Engine.evalSource_of_error hr, Engine.evalSource_of_error hr']
      simp
    · intro err herr
      rw [Engine.evalSource_of_error hr] at herr
      cases herr
      exact ⟨_, Engine.evalSource_of_error hr', i, hi, he, he'⟩

/-- **Layout never changes meaning.** Tokens with the same contents may stand anywhere: two parsers that
are given them answer all calls alike, and an engine reads and evaluates alike whatever sources they come
from. -/
theorem layout_irrelevant (ts us : List Token) (h : ts.map Token.content = us.map Token.content) :
    (∀ dialect calls, List.Forall₂ (Reply.Agrees ⟨ts, dialect⟩ ⟨us, dialect⟩)
      (replies ⟨ts, dialect⟩ (Input.start ⟨ts, dialect⟩) calls)
      (replies ⟨us, dialect⟩ (Input.start ⟨us, dialect⟩) calls)) ∧
    ∀ source source', Token.ofSource source = .ok ts → Token.ofSource source' = .ok us →
      ∀ engine : Engine,
        (∃ i ≤ ts.length, AgreeAt SourceError.position ts us i (engine.expression source).result
          (engine.expression source').result) ∧
        (∃ i ≤ ts.length, AgreeAt SourceError.position ts us i (engine.assignment source).result
          (engine.assignment source').result) ∧
        ∀ vars, SameMeaning ts us (engine.evalSource vars source) (engine.evalSource vars source') := by
  have halike := Token.forall₂_alike_iff.mpr h
  refine ⟨fun dialect calls => ?_, fun source source' hts hus engine => ?_⟩
  · exact (Lockstep.layout_start dialect halike).replies_agree List.suffix_rfl List.suffix_rfl calls
  · obtain ⟨⟨i, hi, hexpression⟩, j, hj, hassignment⟩ := ofTokens_agree engine.dialect halike
    have hparse : ∀ e, SourceError.position (.parse e) = ParseError.position e := fun _ => rfl
    have hread := hexpression.mapError hparse
    have hread' := hassignment.mapError hparse
    rw [← Engine.result_expression hts, ← Engine.result_expression hus] at hread
    rw [← Engine.result_assignment hts, ← Engine.result_assignment hus] at hread'
    exact ⟨⟨i, hi, hread⟩, ⟨j, hj, hread'⟩, Engine.sameMeaning_evalSource hi hread⟩

/-- `(1+` breaks off at its end, whichever blanks stand in it; the parser that is asked again stays there,
with levels left open. -/
theorem layout_irrelevant_unclosed :
    let ts : List Token := [⟨.symbol, "(", 0⟩, ⟨.number, "1", 1⟩, ⟨.symbol, "+", 2⟩]
    let us : List Token := [⟨.symbol, "(", 2⟩, ⟨.number, "1", 3⟩, ⟨.symbol, "+", 5⟩]
    let engine : Engine := ⟨.standard, Registry.builtins⟩
    ts.map Token.content = us.map Token.content ∧
      Token.ofSource "(1+" = .ok ts ∧ Token.ofSource "  (1\n+\t" = .ok us ∧
      Expr.ofTokens .standard ts = .error ⟨3, .unexpected .expression none⟩ ∧
      Expr.ofTokens .standard us = .error ⟨6, .unexpected .expression none⟩ ∧
      List.Forall₂ (Reply.Agrees ⟨ts, .standard⟩ ⟨us, .standard⟩)
        (replies ⟨ts, .standard⟩ (Input.start ⟨ts, .standard⟩) [.expression, .assignment])
        (replies ⟨us, .standard⟩ (Input.start ⟨us, .standard⟩) [.expression, .assignment]) ∧
      ∀ vars, SameMeaning ts us (engine.evalSource vars "(1+") (engine.evalSource vars "  (1\n+\t") := by
  intro ts us engine
  have hcontent : ts.map Token.content = us.map Token.content := rfl
  have hts : Token.ofSource "(1+" = .ok ts := by decide +kernel
  have hus : Token.ofSource "  (1\n+\t" = .ok us := by decide +kernel
  obtain ⟨hcalls, hsources⟩ := layout_irrelevant ts us hcontent
  refine ⟨hcontent, hts, hus, by decide +kernel, by decide +kernel, hcalls _ _, ?_⟩
  exact (hsources _ _ hts hus engine).2.2

end Formula
