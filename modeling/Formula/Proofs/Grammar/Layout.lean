import Formula.Proofs.Grammar.Located
import Formula.Proofs.Grammar.Reported

/-!
# Positions decide nothing

The positions of tokens go into errors, and nowhere else. Two parsers that are given tokens with the same
contents, wherever they stand, run in lockstep (`Lockstep.layout`): after any calls they stand before the
same token with the same number of levels open, and each call answers the same value on both sides, or
fails at the same token, or at the end on both sides (`replies_agree`).
-/

namespace Formula

/-! ### Tokens with the same contents -/

/-- What a token is, wherever it stands. -/
def Token.content (t : Token) : Token.Kind × String :=
  (t.kind, t.text)

theorem Token.forall₂_alike_iff : ∀ {ts us : List Token},
    List.Forall₂ Token.Alike ts us ↔ ts.map Token.content = us.map Token.content
  | [], [] => ⟨fun _ => rfl, fun _ => .nil⟩
  | [], _ :: _ => ⟨(nomatch ·), (nomatch ·)⟩
  | _ :: _, [] => ⟨(nomatch ·), (nomatch ·)⟩
  | t :: ts, u :: us => by
    rw [List.forall₂_cons, forall₂_alike_iff, List.map_cons, List.map_cons, List.cons.injEq]
    refine and_congr_left fun _ => ?_
    rw [content, content, Prod.mk.injEq]
    exact ⟨fun h => ⟨h.kind_eq, h.text_eq⟩, fun h => ⟨h.1, h.2⟩⟩

/-- **The byte offset of the `i`-th token**, or behind the last one if there are no more. -/
def Token.offsetOf (ts : List Token) (i : ℕ) : ℕ :=
  match ts[i]? with
  | some t => t.position
  | none => (ts.getLast?.map Token.stop).getD 0

/-- **The same value, or errors at the same place**: both at the `i`-th token, or both at the end. -/
inductive AgreeAt {ε α : Type} (position : ε → ℕ) (ts us : List Token) (i : ℕ) :
    Except ε α → Except ε α → Prop
  | value (a : α) : AgreeAt position ts us i (.ok a) (.ok a)
  | error {e e' : ε} (he : position e = Token.offsetOf ts i) (he' : position e' = Token.offsetOf us i) :
      AgreeAt position ts us i (.error e) (.error e')

theorem AgreeAt.of_ok {ε α : Type} {position : ε → ℕ} {ts us : List Token} {i : ℕ} {a : α}
    {r : Except ε α} (h : AgreeAt position ts us i (.ok a) r) : r = .ok a := by
  cases h with
  | value => rfl

namespace Parser

variable {α : Type} {input input' : Input} {s s' : State} {n : ℕ} {dialect : Dialect}
  {ts us : List Token}

/-! ### Two runs -/

/-- The runs on tokens that are alike. -/
def Lockstep.layout (dialect : Dialect) (h : List.Forall₂ Token.Alike ts us) :
    Lockstep ⟨ts, dialect⟩ ⟨us, dialect⟩ where
  offset := 0
  Exact := False
  Refusal _ := False
  isEmpty_eq := by cases h <;> rfl
  stop_eq := False.elim
  deep_of_deep _ hd := by rwa [Nat.zero_add]
  deep_or_refusal _ hd := by rw [Nat.zero_add] at hd; exact .inl hd
  nullary_subset := List.Subset.refl _
  nullary_or_refusal _ hname := .inl hname

theorem Lockstep.layout_start (dialect : Dialect) (h : List.Forall₂ Token.Alike ts us) :
    (Lockstep.layout dialect h).InStep 0 (Input.start ⟨ts, dialect⟩) (Input.start ⟨us, dialect⟩) :=
  ⟨h, False.elim, rfl, rfl⟩

/-- A parser stands at the token that it has counted up to. -/
theorem State.position_eq_offsetOf (h : s.rest <:+ input.tokens) :
    s.position input = Token.offsetOf input.tokens (s.index input) := by
  obtain ⟨rest, d⟩ := s
  obtain ⟨front, hfront⟩ := h
  have hindex : State.index input ⟨rest, d⟩ = front.length := by
    rw [index, ← hfront, List.length_append, Nat.add_sub_cancel]
  rw [hindex, Token.offsetOf, position, ← hfront]
  cases rest with
  | nil =>
    rw [List.append_nil] at hfront ⊢
    rw [List.getElem?_eq_none le_rfl, stop_eq_getD, hfront]
  | cons t rest => rw [List.getElem?_append_right le_rfl, Nat.sub_self, List.getElem?_cons_zero]

/-- **Replies that agree**, up to the positions in errors. -/
structure Reply.Agrees (input input' : Input) (r r' : Reply α) : Prop where
  index_eq : r.state.index input = r'.state.index input'
  depth_eq : r.state.depth = r'.state.depth
  result : AgreeAt ParseError.position input.tokens input'.tokens (r.state.index input)
    r.result r'.result

/-- What settles leaves the last tokens. -/
theorem Settled.suffix {p : Parser α} (hp : Settled 0 p) (h : s.rest <:+ input.tokens) :
    (p input s).state.rest <:+ input.tokens :=
  (hp input s).suffix.trans h

/-- What a failed reply reports is where the parser stands. -/
theorem Reporting.position_eq {p : Parser α} {e : ParseError} (hp : Reporting p)
    (hsettled : Settled 0 p) (h : s.rest <:+ input.tokens) (he : (p input s).result = .error e) :
    e.position = Token.offsetOf input.tokens ((p input s).state.index input) := by
  rw [← State.position_eq_offsetOf (hsettled.suffix h)]
  have hreports := hp input s
  cases hr : p input s with
  | done a s₁ => rw [hr] at he; cases he
  | failed e' s₁ =>
    rw [hr] at he hreports
    cases he
    exact hreports.1

/-- **A call on two parsers in step** is answered alike and leaves them in step. -/
theorem Lockstep.Keeps.agrees {h : List.Forall₂ Token.Alike ts us} {p : Parser α}
    (hp : (Lockstep.layout dialect h).Keeps p p) (hreporting : Reporting p) (hsettled : Settled 0 p)
    (hstep : (Lockstep.layout dialect h).InStep n s s') (hs : s.rest <:+ ts) (hs' : s'.rest <:+ us) :
    (∃ m, (Lockstep.layout dialect h).InStep m (p ⟨ts, dialect⟩ s).state (p ⟨us, dialect⟩ s').state) ∧
      Reply.Agrees ⟨ts, dialect⟩ ⟨us, dialect⟩ (p ⟨ts, dialect⟩ s) (p ⟨us, dialect⟩ s') := by
  have hanswers := hp hstep
  obtain ⟨m, hstep'⟩ := hanswers.inStep fun _ => id
  have hindex : (p ⟨ts, dialect⟩ s).state.index ⟨ts, dialect⟩ =
      (p ⟨us, dialect⟩ s').state.index ⟨us, dialect⟩ := by
    rw [State.index, State.index, h.length_eq, hstep'.alike.length_eq]
  refine ⟨⟨m, hstep'⟩, hindex, ?_, ?_⟩
  · rw [hstep'.depth_left, hstep'.depth_right]
    exact Nat.zero_add m
  · have herror : ∀ e, (p ⟨ts, dialect⟩ s).result = .error e →
        e.position = Token.offsetOf ts ((p ⟨ts, dialect⟩ s).state.index ⟨ts, dialect⟩) :=
      fun _ => hreporting.position_eq hsettled hs
    have herror' : ∀ e, (p ⟨us, dialect⟩ s').result = .error e →
        e.position = Token.offsetOf us ((p ⟨ts, dialect⟩ s).state.index ⟨ts, dialect⟩) := by
      rw [hindex]
      exact fun _ => hreporting.position_eq hsettled hs'
    generalize p ⟨ts, dialect⟩ s = r at hanswers herror herror' ⊢
    generalize p ⟨us, dialect⟩ s' = r' at hanswers herror' ⊢
    cases hanswers with
    | done a => exact .value a
    | failed => exact .error (herror _ rfl) (herror' _ rfl)
    | refused hr => exact hr.elim

/-! ### Sequences of calls -/

/-- What a parser may be asked for. -/
inductive Call where
  | expression
  | assignment
deriving DecidableEq

/-- The parser of what is asked for. -/
def Call.parser : Call → Parser (Expr ⊕ Assignment)
  | .expression => wholeExpression >>= fun e => pure (.inl e)
  | .assignment => wholeAssignment >>= fun a => pure (.inr a)

/-- **The replies to a sequence of calls**, each from the state that the one before it left behind. -/
def replies (input : Input) : State → List Call → List (Reply (Expr ⊕ Assignment))
  | _, [] => []
  | s, c :: calls => c.parser input s :: replies input (c.parser input s).state calls

theorem reporting_call (c : Call) : Reporting c.parser := by
  cases c with
  | expression => exact reporting_wholeExpression.bind fun _ => reporting_pure _
  | assignment => exact reporting_wholeAssignment.bind fun _ => reporting_pure _

theorem settled_call (c : Call) : Settled 0 c.parser := by
  cases c with
  | expression =>
    exact fun input s => (settled_wholeExpression input s).bind fun _ _ _ => .pure _
  | assignment =>
    exact fun input s => (settled_wholeAssignment input s).bind fun _ _ _ => .pure _

theorem Lockstep.keeps_call (L : Lockstep input input') (c : Call) : L.Keeps c.parser c.parser := by
  cases c with
  | expression => exact keeps_wholeExpression.bind fun _ => keeps_pure _
  | assignment => exact keeps_wholeAssignment.bind fun _ => keeps_pure _

/-- Parsers in step answer all calls alike. -/
theorem Lockstep.InStep.replies_agree {h : List.Forall₂ Token.Alike ts us}
    (hstep : (Lockstep.layout dialect h).InStep n s s') (hs : s.rest <:+ ts) (hs' : s'.rest <:+ us)
    (calls : List Call) :
    List.Forall₂ (Reply.Agrees ⟨ts, dialect⟩ ⟨us, dialect⟩) (replies ⟨ts, dialect⟩ s calls)
      (replies ⟨us, dialect⟩ s' calls) := by
  induction calls generalizing n s s' with
  | nil => exact .nil
  | cons c calls ih =>
    obtain ⟨⟨m, hnext⟩, hagrees⟩ := (Lockstep.keeps_call (Lockstep.layout dialect h) c).agrees
      (reporting_call c) (settled_call c) hstep hs hs'
    exact .cons hagrees (ih hnext ((settled_call c).suffix hs) ((settled_call c).suffix hs'))

/-! ### Readers -/

/-- **Readers agree** on tokens with the same contents. -/
theorem ofTokens_agree (dialect : Dialect) (h : List.Forall₂ Token.Alike ts us) :
    (∃ i ≤ ts.length, AgreeAt ParseError.position ts us i (Expr.ofTokens dialect ts)
      (Expr.ofTokens dialect us)) ∧
    ∃ i ≤ ts.length, AgreeAt ParseError.position ts us i (Assignment.ofTokens dialect ts)
      (Assignment.ofTokens dialect us) := by
  have hstart := Lockstep.layout_start dialect h
  obtain ⟨-, hexpression⟩ := Lockstep.keeps_wholeExpression.agrees reporting_wholeExpression
    settled_wholeExpression hstart List.suffix_rfl List.suffix_rfl
  obtain ⟨-, hassignment⟩ := Lockstep.keeps_wholeAssignment.agrees reporting_wholeAssignment
    settled_wholeAssignment hstart List.suffix_rfl List.suffix_rfl
  exact ⟨⟨_, Nat.sub_le _ _, hexpression.result⟩, ⟨_, Nat.sub_le _ _, hassignment.result⟩⟩

end Parser

end Formula
