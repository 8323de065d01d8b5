import Formula.Proofs.Grammar.Exactness
import Formula.Proofs.Grammar.Reuse

/-!
# Assignments are paths and expressions

An assignment is a path, the sign `=` and an expression, and each of them is read as it is alone. Behind
the sign the parser goes on as a new one does on the tokens that are left (`result_behind`), so one
equation says all that it answers, trees and errors alike: `Assignment.ofTokens_append`.

No phrase of the grammar holds the sign: its symbols are those of the operators and the four that group
and separate (`Derives.isKnown`). So nothing is both an assignment and an expression.
-/

namespace Formula

open Formula.Parser Formula.Grammar

variable {α β : Type} {δ : Dialect} {p r ts : List Token} {t : Token} {d : Path}

/-! ### The tokens behind the sign -/

/-- What is done leaves the rest to what comes behind it. -/
theorem Parser.bind_of_done {q : Parser α} {f : α → Parser β} {input : Input} {s s' : State} {a : α}
    (h : q input s = .done a s') : (q >>= f) input s = f a input s' := by
  rw [bind_apply, h]

/-- On the last tokens of an input a parser answers what it answers on these tokens alone. -/
theorem Parser.result_behind {q : Parser α} (hq : Settled 0 q)
    (hkeeps : ∀ {input input' : Input} (L : Lockstep input input'), L.Keeps q q) (hr : r ≠ [])
    (p : List Token) : (q ⟨p ++ r, δ⟩ ⟨r, 0⟩).result = (q ⟨r, δ⟩ ⟨r, 0⟩).result := by
  -- Whatever precedes `r`, the parser goes on as one and the same new parser for `r` does.
  have hfresh : ∀ us, (q ⟨us ++ r, δ⟩ ⟨r, 0⟩).result =
      (q ⟨r, δ⟩ ⟨r, 0⟩).result.mapError (·.withLimit δ.maxDepth) := by
    intro us
    have hsuffix : r <:+ us ++ r := List.suffix_append us r
    have hgoes : GoesOn q ⟨us ++ r, δ⟩ ⟨r, 0⟩ := goesOn hq hsuffix hr (hkeeps _)
    have htokens : (State.fresh ⟨us ++ r, δ⟩ ⟨r, 0⟩).tokens = r := State.fresh_tokens hsuffix
    have hsame : State.fresh ⟨us ++ r, δ⟩ ⟨r, 0⟩ = ⟨r, δ⟩ := congrArg (Input.mk · δ) htokens
    rw [hgoes.result_eq, hsame]
    rfl
  exact (hfresh p).trans (hfresh []).symm

/-- An expression with nothing behind it, and what is made of it. -/
def Parser.closing (g : Expr → α) : Parser α := do
  let e ← expression
  finished
  return g e

theorem Parser.result_closing (g : Expr → α) (input : Input) (s : State) :
    (closing g input s).result = (closing id input s).result.map g := by
  unfold closing
  rw [bind_apply, bind_apply]
  cases expression input s with
  | failed e s' => rfl
  | done e s' =>
    dsimp only
    rw [bind_apply, bind_apply]
    cases finished input s' <;> rfl

/-- With tokens at hand, a whole expression is an expression with nothing behind it. -/
theorem Parser.wholeExpression_apply {input : Input} (hne : input.tokens ≠ []) (s : State) :
    wholeExpression input s = closing id input s := by
  have hnonempty : nonempty .emptyExpression input s = .done () s := by
    simp [nonempty, hne]
  exact bind_of_done hnonempty

/-- Behind a path and the sign, an assignment is an expression with nothing behind it. -/
theorem Parser.wholeAssignment_apply (hp : Names p d) (ht : t.isSymbol "=") (hr : r ≠ []) :
    wholeAssignment ⟨p ++ t :: r, δ⟩ ⟨p ++ t :: r, 0⟩ =
      closing (Assignment.mk d) ⟨p ++ t :: r, δ⟩ ⟨r, 0⟩ := by
  obtain ⟨u, us, names, rfl, hroot, hattr, rfl⟩ := hp
  obtain ⟨v, vs, rfl⟩ := List.exists_cons_of_ne_nil hr
  have hends : Ends ["."] ([t] ++ v :: vs) := ends_cons ht (by decide)
  generalize hinput : Input.mk (u :: us ++ t :: v :: vs) δ = input
  have hnonempty : nonempty .emptyAssignment input ⟨u :: us ++ t :: v :: vs, 0⟩ =
      .done () ⟨u :: us ++ t :: v :: vs, 0⟩ := by
    rw [← hinput]
    rfl
  have hdestination : destination input ⟨u :: us ++ t :: v :: vs, 0⟩ =
      .done (u.text :: names) ⟨t :: v :: vs, 0⟩ :=
    (reads_destination hroot hattr hends (List.mem_singleton_self ".")).within 0 (Nat.zero_le _)
  have hsign : require "=" .equals input ⟨t :: v :: vs, 0⟩ = .done () ⟨v :: vs, 0⟩ :=
    (reads_require ht).within 0 (Nat.zero_le _)
  have hvalue : unfinished .value input ⟨v :: vs, 0⟩ = .done () ⟨v :: vs, 0⟩ := rfl
  unfold wholeAssignment
  rw [bind_of_done hnonempty, bind_of_done hdestination, bind_of_done hsign, bind_of_done hvalue]
  rfl

/-- **An assignment is a path and an expression.** Behind a path and the sign the tokens are read as an
expression, with the same error if they are none. -/
theorem Assignment.ofTokens_append (hp : Names p d) (ht : t.isSymbol "=") (hr : r ≠ [])
    (δ : Dialect) :
    Assignment.ofTokens δ (p ++ t :: r) = (Expr.ofTokens δ r).map (Assignment.mk d) := by
  have hbehind : (wholeExpression ⟨p ++ t :: r, δ⟩ ⟨r, 0⟩).result = Expr.ofTokens δ r := by
    rw [List.append_cons]
    exact result_behind settled_wholeExpression (fun _ => Lockstep.keeps_wholeExpression) hr (p ++ [t])
  have hne : p ++ t :: r ≠ [] := by simp
  rw [← hbehind, wholeExpression_apply hne, ← result_closing, ← wholeAssignment_apply hp ht hr]
  rfl

/-! ### The symbols of expressions -/

namespace Grammar

variable {Z : List String} {φ : Phrase} {e : Expr} {c : ℕ}

/-- The symbols that may occur in an expression. -/
def symbols : List String :=
  ["(", ")", ",", "."] ++ (UnaryOp.all.map UnaryOp.symbol ++ BinaryOp.all.map BinaryOp.symbol)

theorem unarySymbol_mem (op : UnaryOp) : op.symbol ∈ symbols := by
  cases op <;> decide

theorem binarySymbol_mem (op : BinaryOp) : op.symbol ∈ symbols := by
  cases op <;> decide

/-- The token is none of the other symbols. -/
def IsKnown (t : Token) : Prop :=
  t.kind = .symbol → t.text ∈ symbols

theorem isKnown_of_isSymbol {s : String} (ht : t.isSymbol s) (hs : s ∈ symbols) : IsKnown t := by
  intro _
  rwa [(Token.isSymbol_iff.mp ht).2]

theorem isKnown_of_kind (ht : t.kind ≠ .symbol) : IsKnown t :=
  fun h => absurd h ht

theorem isKnown_of_isRoot (ht : t.isRoot = true) : IsKnown t := by
  refine isKnown_of_kind fun hk => ?_
  rw [Token.isRoot, hk] at ht
  cases ht

theorem Attributes.isKnown {names : List String} (h : Attributes ts names) :
    ∀ t ∈ ts, IsKnown t := by
  induction h with
  | nil => exact List.forall_mem_nil _
  | cons hp hn _ ih =>
    have hpoint := isKnown_of_isSymbol hp (by decide)
    have hname := isKnown_of_kind (by rw [hn]; decide)
    exact List.forall_mem_cons.mpr ⟨hpoint, List.forall_mem_cons.mpr ⟨hname, ih⟩⟩

/-- **An expression holds the symbols of the operators**, parentheses, commas and points, and no others. -/
theorem Derives.isKnown (h : Derives Z φ ts e c) : ∀ t ∈ ts, IsKnown t := by
  induction h with
  | operand _ ih => exact ih
  | level _ _ ih ih' => exact List.forall_mem_append.mpr ⟨ih, ih'⟩
  | stop => exact List.forall_mem_nil _
  | more ht _ _ _ ih ih' =>
    have hop := isKnown_of_isSymbol ht (binarySymbol_mem _)
    exact List.forall_mem_cons.mpr ⟨hop, List.forall_mem_append.mpr ⟨ih, ih'⟩⟩
  | sign ht _ ih =>
    exact List.forall_mem_cons.mpr ⟨isKnown_of_isSymbol ht (unarySymbol_mem _), ih⟩
  | plain _ ih => exact ih
  | power _ ht _ ih ih' =>
    have hop := isKnown_of_isSymbol ht (binarySymbol_mem .power)
    exact List.forall_mem_append.mpr ⟨ih, List.forall_mem_cons.mpr ⟨hop, ih'⟩⟩
  | number ht => exact List.forall_mem_singleton.mpr (isKnown_of_kind (by rw [ht]; decide))
  | path ht hattr => exact List.forall_mem_cons.mpr ⟨isKnown_of_isRoot ht, hattr.isKnown⟩
  | group hl hr _ ih =>
    have hopen := isKnown_of_isSymbol hl (by decide)
    have hclose := List.forall_mem_singleton.mpr (isKnown_of_isSymbol hr (by decide))
    exact List.forall_mem_cons.mpr ⟨hopen, List.forall_mem_append.mpr ⟨ih, hclose⟩⟩
  | callNone ht hl hr =>
    have hname := isKnown_of_kind (by rw [ht]; decide)
    have hopen := isKnown_of_isSymbol hl (by decide)
    have hclose := List.forall_mem_singleton.mpr (isKnown_of_isSymbol hr (by decide))
    exact List.forall_mem_cons.mpr ⟨hname, List.forall_mem_cons.mpr ⟨hopen, hclose⟩⟩
  | call ht hl hr _ _ ih ih' =>
    have hname := isKnown_of_kind (by rw [ht]; decide)
    have hopen := isKnown_of_isSymbol hl (by decide)
    have hclose := List.forall_mem_singleton.mpr (isKnown_of_isSymbol hr (by decide))
    have hargs := List.forall_mem_append.mpr ⟨List.forall_mem_append.mpr ⟨ih, ih'⟩, hclose⟩
    exact List.forall_mem_cons.mpr ⟨hname, List.forall_mem_cons.mpr ⟨hopen, hargs⟩⟩
  | last => exact List.forall_mem_nil _
  | next ht _ _ ih ih' =>
    have hcomma := isKnown_of_isSymbol ht (by decide)
    exact List.forall_mem_cons.mpr ⟨hcomma, List.forall_mem_append.mpr ⟨ih, ih'⟩⟩

/-- **Nothing is both an expression and an assignment**, even if the dialects differ. -/
theorem Forms.not_assigns {Z' : List String} {a : Assignment} (h : Forms Z ts e) :
    ¬ Assigns Z' ts a := by
  rintro ⟨us, t, vs, rfl, -, ht, -⟩
  obtain ⟨c, hc⟩ := h
  obtain ⟨hkind, htext⟩ := Token.isSymbol_iff.mp ht
  have hmem : t.text ∈ symbols := hc.isKnown t (by simp) hkind
  rw [htext] at hmem
  exact absurd hmem (by decide)

end Grammar

/-! ### Assignments -/

/-- **Assignments decompose.** Tokens are an assignment if and only if they are a path, the sign and an
expression, which are its two sides; what is wrong behind the sign is wrong with the expression alone, and
at the same place. No tokens are an expression as well, whatever the dialects are. -/
theorem assignment_decomposes (δ : Dialect) (ts : List Token) :
    (∀ d v, Assignment.ofTokens δ ts = .ok ⟨d, v⟩ ↔ ∃ p t r, ts = p ++ t :: r ∧ Names p d ∧
      t.isSymbol "=" ∧ Expr.ofTokens δ r = .ok v) ∧
    (∀ p d t r err, Names p d → t.isSymbol "=" → r ≠ [] →
      (Assignment.ofTokens δ (p ++ t :: r) = .error err ↔ Expr.ofTokens δ r = .error err)) ∧
    ∀ δ' e a, Expr.ofTokens δ ts = .ok e → Assignment.ofTokens δ' ts ≠ .ok a := by
  refine ⟨fun d v => ⟨fun h => ?_, ?_⟩, fun p d t r err hp ht hr => ?_, fun δ' e a he ha => ?_⟩
  · obtain ⟨p, t, r, rfl, hp, ht, hforms⟩ := assigns_of_ofTokens h
    refine ⟨p, t, r, rfl, hp, ht, ?_⟩
    rw [Assignment.ofTokens_append hp ht hforms.ne_nil] at h
    cases hv : Expr.ofTokens δ r with
    | error err => rw [hv] at h; cases h
    | ok w => rw [hv] at h; cases h; rfl
  · rintro ⟨p, t, r, rfl, hp, ht, hv⟩
    rw [Assignment.ofTokens_append hp ht (forms_of_ofTokens hv).ne_nil, hv]
    rfl
  · rw [Assignment.ofTokens_append hp ht hr]
    cases Expr.ofTokens δ r with
    | error err' => exact ⟨fun h => (by cases h; rfl), fun h => (by cases h; rfl)⟩
    | ok w => exact ⟨fun h => (by cases h), fun h => (by cases h)⟩
  · exact (forms_of_ofTokens he).not_assigns (assigns_of_ofTokens ha)

/-- `[a b].c=-x` is an assignment and no expression; `[a b].c=-x 2` is refused at the `2`, as `-x 2` is. -/
theorem assignment_decomposes_negated :
    let p : List Token := [⟨.quoted, "a b", 0⟩, ⟨.symbol, ".", 5⟩, ⟨.name, "c", 6⟩]
    let t : Token := ⟨.symbol, "=", 7⟩
    let r : List Token := [⟨.symbol, "-", 8⟩, ⟨.name, "x", 9⟩]
    let two : Token := ⟨.number, "2", 11⟩
    Names p ["a b", "c"] ∧ t.isSymbol "=" ∧ r ++ [two] ≠ [] ∧
      Assignment.ofTokens .standard (p ++ t :: r) =
        .ok ⟨["a b", "c"], .unary .negate (.path ["x"])⟩ ∧
      Assignment.ofTokens .standard (p ++ t :: (r ++ [two])) = .error ⟨11, .trailing two⟩ ∧
      ∀ δ e, Expr.ofTokens δ (p ++ t :: r) ≠ .ok e := by
  intro p t r two
  have hp : Names p ["a b", "c"] := ⟨_, _, _, rfl, rfl, .cons rfl rfl .nil, rfl⟩
  have hok : Assignment.ofTokens .standard (p ++ t :: r) =
      .ok ⟨["a b", "c"], .unary .negate (.path ["x"])⟩ :=
    ((assignment_decomposes .standard (p ++ t :: r)).1 _ _).mpr
      ⟨p, t, r, rfl, hp, by decide, by decide +kernel⟩
  have herr : Expr.ofTokens .standard (r ++ [two]) = .error ⟨11, .trailing two⟩ := by
    decide +kernel
  refine ⟨hp, by decide, by decide, hok, ?_, fun δ e he => ?_⟩
  · exact ((assignment_decomposes .standard []).2.1 p _ t _ _ hp (by decide) (by decide)).mpr herr
  · exact (assignment_decomposes δ (p ++ t :: r)).2.2 .standard e _ he hok

end Formula
