import Formula.Proofs.Grammar.Depth
import Formula.Proofs.Grammar.Lockstep
import Formula.Proofs.Grammar.Soundness

/-!
# A parser that is used again

The calls on one parser lead from state to state, and a call that fails may leave tokens and open levels
behind. Whatever came before (`Reachable`), only these two matter to the next call: it goes on as a new
parser does on the tokens that are left, where the levels that are open have been taken off the limit
(`Input.resume`). Both run in lockstep, apart by the levels that are open.

At the end of the tokens a parser that is used again fails for good, in its place; a new parser without
tokens fails in another way, so the end is a case of its own.
-/

namespace Formula.Parser

variable {α : Type} {input : Input} {s : State} {p : Parser α}

/-- **The states that calls on one parser lead to**, whether they succeed or fail. -/
inductive Reachable (input : Input) : State → Prop
  | start : Reachable input input.start
  | expression {s : State} (h : Reachable input s) :
      Reachable input (wholeExpression input s).state
  | assignment {s : State} (h : Reachable input s) :
      Reachable input (wholeAssignment input s).state

/-- How many tokens are consumed. -/
def State.index (input : Input) (s : State) : ℕ :=
  input.tokens.length - s.rest.length

/-- **The input of a new parser** for the tokens that are left, where the levels that are open are taken
off the limit. -/
def State.fresh (input : Input) (s : State) : Input :=
  ⟨input.tokens.drop (s.index input), ⟨input.dialect.maxDepth - s.depth, input.dialect.nullary⟩⟩

/-- The parser goes on as a new one does. The answer is the same, but that an error of nesting names the
limit of the old parser; the tokens consumed and the levels left open are counted on. -/
structure GoesOn (p : Parser α) (input : Input) (s : State) : Prop where
  result_eq : (p input s).result =
    (p (s.fresh input) (s.fresh input).start).result.mapError (·.withLimit input.dialect.maxDepth)
  index_eq : (p input s).state.index input =
    s.index input + (p (s.fresh input) (s.fresh input).start).state.index (s.fresh input)
  depth_eq : (p input s).state.depth =
    s.depth + (p (s.fresh input) (s.fresh input).start).state.depth

/-- The parser fails and consumes nothing. -/
def FailsInPlace (p : Parser α) (input : Input) (s : State) : Prop :=
  (∃ e, (p input s).result = .error e) ∧ (p input s).state.index input = s.index input

/-! ### The tokens left -/

/-- **The tokens left are the last ones**, after any calls. -/
theorem Reachable.suffix (h : Reachable input s) : s.rest <:+ input.tokens := by
  induction h with
  | start => exact List.suffix_rfl
  | expression _ ih => exact (settled_wholeExpression input _).suffix.trans ih
  | assignment _ ih => exact (settled_wholeAssignment input _).suffix.trans ih

theorem State.fresh_tokens (h : s.rest <:+ input.tokens) : (s.fresh input).tokens = s.rest :=
  (List.suffix_iff_eq_drop.mp h).symm

theorem State.rest_ne_nil (h : s.index input < input.tokens.length) : s.rest ≠ [] := by
  intro hnil
  rw [index, hnil, List.length_nil] at h
  omega

theorem State.rest_eq_nil (h : s.rest <:+ input.tokens)
    (hindex : s.index input = input.tokens.length) (hne : input.tokens ≠ []) : s.rest = [] := by
  have hlen := h.length_le
  have hpos := List.length_pos_iff.mpr hne
  rw [index] at hindex
  exact List.length_eq_zero_iff.mp (by omega)

/-! ### Going on -/

/-- The end of the tokens is where it was. -/
theorem stop_fresh (h : s.rest <:+ input.tokens) (hne : s.rest ≠ []) :
    (s.fresh input).stop = input.stop := by
  rw [Input.stop, Input.stop, State.fresh_tokens h]
  obtain ⟨us, hus⟩ := h
  rw [← hus, List.getLast?_append, List.getLast?_eq_some_getLast hne, Option.some_or]

/-- The runs of a parser that is used again and of a new one. -/
def Lockstep.resumed (h : s.rest <:+ input.tokens) (hne : s.rest ≠ []) :
    Lockstep input (s.fresh input) where
  offset := s.depth
  Exact := True
  Refusal _ := False
  isEmpty_eq := by
    have htokens : input.tokens ≠ [] := fun hnil => hne (List.suffix_nil.mp (hnil ▸ h))
    rw [State.fresh_tokens h, List.isEmpty_eq_false_iff.mpr htokens,
      List.isEmpty_eq_false_iff.mpr hne]
  stop_eq _ := (stop_fresh h hne).symm
  deep_of_deep d hd := by
    simp only [State.fresh] at hd
    omega
  deep_or_refusal d hd := by
    left
    simp only [State.fresh]
    omega
  nullary_subset := List.Subset.refl _
  nullary_or_refusal _ hname := .inl hname

/-- **A parser goes on** where tokens are left. -/
theorem goesOn (hp : Settled 0 p) (h : s.rest <:+ input.tokens) (hne : s.rest ≠ [])
    (hkeeps : (Lockstep.resumed h hne).Keeps p p) : GoesOn p input s := by
  have hstart : (Lockstep.resumed h hne).InStep 0 s (s.fresh input).start := by
    rw [Input.start, State.fresh_tokens h]
    exact .same (Lockstep.resumed h hne) s.rest 0
  have hanswers := hkeeps hstart
  obtain ⟨m, hstep⟩ := hanswers.inStep fun _ => id
  refine ⟨(hanswers.result_eq_or trivial).resolve_right fun ⟨_, _, hfalse⟩ => hfalse, ?_, ?_⟩
  · have hlen := h.length_le
    have hlen' := (hp (s.fresh input) (s.fresh input).start).suffix.length_le
    rw [Input.start, State.fresh_tokens h] at hlen'
    rw [State.index, State.index, State.index, State.fresh_tokens h, hstep.rest_eq trivial]
    simp only [Input.start, State.fresh_tokens h] at hlen' ⊢
    omega
  · rw [hstep.depth_left, hstep.depth_right]
    rfl

/-! ### The end of the tokens -/

/-- At the end of the tokens nothing is recognized that takes a token. -/
theorem Recognizes.failsInPlace {P : List Token → α → Prop} {F : List Token → Prop}
    (hp : Recognizes input P F s (p input s)) (hsettled : Settled 0 p)
    (hP : ∀ ⦃ts a⦄, P ts a → ts ≠ []) (hrest : s.rest = []) : FailsInPlace p input s := by
  have hsuffix := (hsettled input s).suffix
  rw [hrest, List.suffix_nil] at hsuffix
  refine ⟨?_, by rw [State.index, State.index, hsuffix, hrest]⟩
  cases hr : p input s with
  | failed e s' => exact ⟨e, rfl⟩
  | done a s' =>
    rw [hr] at hp
    obtain ⟨ts, hts, ha, -⟩ := hp
    rw [hrest, eq_comm, List.append_eq_nil_iff] at hts
    exact absurd hts.1 (hP ha)

/-- **A parser that is used again is a new one** for the tokens that are left, with the levels that are
open taken off the limit; at the end of the tokens it fails for good. -/
theorem reachable_goesOn (input : Input) (s : State) (h : Reachable input s) :
    s.rest = input.tokens.drop (s.index input) ∧
    (s.index input < input.tokens.length →
      GoesOn wholeExpression input s ∧ GoesOn wholeAssignment input s) ∧
    (s.index input = input.tokens.length → input.tokens ≠ [] →
      FailsInPlace wholeExpression input s ∧ FailsInPlace wholeAssignment input s) := by
  have hsuffix := h.suffix
  refine ⟨List.suffix_iff_eq_drop.mp hsuffix, fun hindex => ?_, fun hindex hne => ?_⟩
  · have hrest := State.rest_ne_nil hindex
    exact ⟨goesOn settled_wholeExpression hsuffix hrest Lockstep.keeps_wholeExpression,
      goesOn settled_wholeAssignment hsuffix hrest Lockstep.keeps_wholeAssignment⟩
  · have hrest := State.rest_eq_nil hsuffix hindex hne
    exact ⟨(Grammar.recognizes_wholeExpression input fun _ => hrest).failsInPlace
        settled_wholeExpression (fun _ _ hts => hts.ne_nil) hrest,
      (Grammar.recognizes_wholeAssignment input fun _ => hrest).failsInPlace
        settled_wholeAssignment (fun _ _ hts => hts.ne_nil) hrest⟩

/-- The tokens of `1+a.-2` under the limit two: the first call stops behind the point and leaves one level
open, so the second one has but one level left for `-2`. -/
theorem reachable_goesOn_dotted :
    let input : Input := ⟨[⟨.number, "1", 0⟩, ⟨.symbol, "+", 1⟩, ⟨.name, "a", 2⟩, ⟨.symbol, ".", 3⟩,
      ⟨.symbol, "-", 4⟩, ⟨.number, "2", 5⟩], ⟨2, []⟩⟩
    let s : State := (wholeExpression input input.start).state
    Reachable input s ∧ s.index input = 4 ∧ s.depth = 1 ∧ GoesOn wholeExpression input s ∧
      (wholeExpression input s).result = .error ⟨5, .tooDeep 2⟩ ∧
      (wholeExpression (s.fresh input) (s.fresh input).start).result = .error ⟨5, .tooDeep 1⟩ := by
  intro input s
  have hs : Reachable input s := .expression .start
  have hindex : s.index input = 4 := by decide +kernel
  have hgoes := (reachable_goesOn input s hs).2.1 (by rw [hindex]; decide)
  exact ⟨hs, hindex, by decide +kernel, hgoes.1, by decide +kernel, by decide +kernel⟩

end Formula.Parser
