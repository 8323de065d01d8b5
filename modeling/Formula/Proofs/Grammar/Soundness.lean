import Formula.Proofs.Grammar.Recognition.Cycle

/-!
# What is read is derived

The parsers of whole formulas recognize expressions and assignments that nothing follows
(`recognizes_wholeExpression`, `recognizes_wholeAssignment`), and they answer only when no token is left
(`Exhausts`). So an answer is derived from all the tokens, for expressions (`forms_of_ofTokens`) as for
assignments (`assigns_of_ofTokens`).
-/

namespace Formula.Parser

variable {α β : Type} {input : Input} {s : State}

/-! ### Answers without a rest -/

/-- The parser answers only when no token is left. -/
def Exhausts (p : Parser α) : Prop :=
  ∀ ⦃input : Input⦄ ⦃s : State⦄ ⦃a : α⦄ ⦃s' : State⦄, p input s = .done a s' → s'.rest = []

theorem Exhausts.bind {p : Parser α} {f : α → Parser β} (hf : ∀ a, Exhausts (f a)) :
    Exhausts (p >>= f) := by
  intro input s b s' h
  rw [bind_apply] at h
  cases hp : p input s with
  | done a s₁ =>
    rw [hp] at h
    exact hf a h
  | failed e s₁ =>
    rw [hp] at h
    cases h

theorem exhausts_finished (a : α) : Exhausts (finished >>= fun _ => pure a) := by
  rintro input ⟨rest, d⟩ b s' h
  cases rest with
  | nil =>
    cases h
    rfl
  | cons t rest => cases h

theorem exhausts_wholeExpression : Exhausts wholeExpression :=
  .bind fun _ => .bind fun e => exhausts_finished e

theorem exhausts_wholeAssignment : Exhausts wholeAssignment :=
  .bind fun _ => .bind fun path => .bind fun _ => .bind fun _ => .bind fun e =>
    exhausts_finished (Assignment.mk path e)

/-- An answer that leaves no token is the value of all the tokens. -/
theorem Recognizes.of_result_eq_ok {P : List Token → α → Prop} {F : List Token → Prop}
    {p : Parser α} {a : α} (hp : Recognizes input P F input.start (p input input.start))
    (hexhausts : Exhausts p) (h : (p input input.start).result = .ok a) : P input.tokens a := by
  cases hr : p input input.start with
  | failed e s' =>
    rw [hr] at h
    cases h
  | done b s' =>
    have hrest := hexhausts hr
    rw [hr] at hp h
    cases h
    obtain ⟨ts, hts, ha, -⟩ := hp
    rw [hrest, List.append_nil] at hts
    rwa [show input.tokens = ts from hts]

/-! ### Rules for whole formulas -/

theorem recognizes_finished :
    Recognizes input (fun ts (_ : Unit) => ts = []) (· = []) s (finished input s) := by
  obtain ⟨rest, d⟩ := s
  cases rest with
  | nil =>
    refine (Recognizes.pure ()).of ?_ ?_ fun _ h => h
    · exact fun ts _ h => h.1
    · exact fun ws rest _ h _ _ => ⟨h, rfl⟩
  | cons t rest =>
    refine Recognizes.fail ⟨[], (), rfl⟩ ?_
    rintro _ _ - rfl rfl hhead
    cases hhead

/-- Nothing stands behind a formula. -/
theorem Recognizes.whole {P : List Token → α → Prop} {F : List Token → Prop} {p : Parser α}
    (g : α → β) (hp : Recognizes input P F s (p input s)) (hF : F []) :
    Recognizes input (fun ts b => ∃ a, P ts a ∧ b = g a) (· = []) s
      ((p >>= fun a => finished >>= fun _ => Pure.pure (g a)) input s) := by
  refine (Recognizes.bind hp (G := (· = []))
    (fun a s₁ _ => Recognizes.map (g := fun _ => g a) recognizes_finished) ?_ ?_).of
    ?_ ?_ fun _ h => h
  · exact fun _ a _ => ⟨[], g a, (), rfl, rfl⟩
  · rintro _ a _ _ _ - ⟨-, rfl, -⟩ rfl
    exact hF
  · rintro _ b ⟨us, _, a, rfl, ha, -, rfl, rfl⟩
    exact ⟨a, by rwa [List.append_nil], rfl⟩
  · rintro ws rest b ⟨a, ha, rfl⟩ - -
    exact ⟨ws, [], a, (List.append_nil ws).symm, ha, (), rfl, rfl⟩

/-- A formula has a first token, so an input without tokens is refused before it is read. -/
theorem Recognizes.nonempty {P : List Token → α → Prop} {F : List Token → Prop}
    {f : Unit → Parser α} {fault : ParseFault} (hs : input.tokens = [] → s.rest = [])
    (hcomplete : ∃ us a, P us a) (hP : ∀ ⦃ts a⦄, P ts a → ts ≠ [])
    (hf : Recognizes input P F s (f () input s)) :
    Recognizes input P F s ((Parser.nonempty fault >>= f) input s) := by
  by_cases htokens : input.tokens = []
  · have hfail : Parser.nonempty fault input s = Parser.fail fault input s := by
      simp [Parser.nonempty, htokens]
    rw [bind_apply, hfail]
    refine Recognizes.fail hcomplete fun ws rest b hws _ hhead => ?_
    obtain ⟨t, us, rfl⟩ := List.exists_cons_of_ne_nil (hP hws)
    rw [hs htokens] at hhead
    cases hhead
  · refine Recognizes.look (a := ()) ?_ hf
    simp [Parser.nonempty, htokens]

end Formula.Parser

namespace Formula.Grammar

open Formula.Parser

variable {Z : List String} {ts : List Token} {e : Expr} {input : Input} {s : State}

/-! ### Expressions -/

theorem Forms.ne_nil (h : Forms Z ts e) : ts ≠ [] := by
  obtain ⟨c, hc⟩ := h
  exact hc.ne_nil

theorem forms_name (Z : List String) : Forms Z [⟨.name, "a", 0⟩] (.path ["a"]) :=
  ⟨_, (derives_name Z).level_of_primary levels⟩

/-- **Whole expressions are recognized.** -/
theorem recognizes_wholeExpression (input : Input) (hs : input.tokens = [] → s.rest = []) :
    Recognizes input (Forms input.dialect.nullary) (· = []) s (wholeExpression input s) := by
  refine Recognizes.nonempty hs ⟨_, _, forms_name _⟩ (fun _ _ h => Forms.ne_nil h) ?_
  refine ((recognizes_expression input s).whole id ends_nil).of ?_ ?_ fun _ h => h
  · rintro ts _ ⟨e, he, rfl⟩
    exact he
  · exact fun ts rest e he _ _ => ⟨e, he, rfl⟩

/-- **An answer is derived** from all the tokens. -/
theorem forms_of_ofTokens {M : ℕ} (h : Expr.ofTokens ⟨M, Z⟩ ts = .ok e) : Forms Z ts e :=
  (recognizes_wholeExpression ⟨ts, ⟨M, Z⟩⟩ id).of_result_eq_ok
    exhausts_wholeExpression h

/-- The derivation costs no more than the limit allows. -/
theorem derives_of_ofTokens {M : ℕ} (h : Expr.ofTokens ⟨M, Z⟩ ts = .ok e) :
    ∃ c ≤ M, Derives Z (.level levels) ts e c := by
  obtain ⟨c, hc⟩ := forms_of_ofTokens h
  refine ⟨c, ?_, hc⟩
  by_contra hcost
  obtain ⟨pos, hdeep⟩ := (hc.ofTokens M).2 (Nat.lt_of_not_le hcost)
  rw [h] at hdeep
  cases hdeep

/-! ### Assignments -/

/-- The tokens are a path. -/
def Names (ts : List Token) (path : Path) : Prop :=
  ∃ t us names, ts = t :: us ∧ t.isRoot ∧ Attributes us names ∧ path = t.text :: names

/-- The tokens form the assignment `a`. -/
def Assigns (Z : List String) (ts : List Token) (a : Assignment) : Prop :=
  ∃ us r vs, ts = us ++ r :: vs ∧ Names us a.destination ∧ r.isSymbol "=" ∧ Forms Z vs a.value

theorem names_name : Names [⟨.name, "a", 0⟩] ["a"] :=
  ⟨_, [], [], rfl, rfl, .nil, rfl⟩

theorem Assigns.ne_nil {a : Assignment} (h : Assigns Z ts a) : ts ≠ [] := by
  obtain ⟨us, r, vs, rfl, -⟩ := h
  simp

theorem recognizes_destination :
    Recognizes input Names (Ends ["."]) s (destination input s) := by
  obtain ⟨ts, d⟩ := s
  cases ts with
  | nil =>
    refine Recognizes.look (a := none) rfl (Recognizes.expected ⟨_, _, names_name⟩ ?_)
    rintro _ rest path ⟨t, us, names, rfl, -⟩ - hhead
    cases hhead
  | cons t rest =>
    refine Recognizes.look (a := some t) rfl ?_
    by_cases ht : t.isRoot
    · simp only [ht, if_true]
      have hpath := recognizes_pathFrom input ⟨rest, d⟩ t.text (List.mem_singleton_self ".")
      refine Recognizes.advance ?_ (hpath.of ?_ ?_ fun _ h => h)
      · rintro _ rest' path ⟨u, us, names, rfl, -⟩ - - hnil
        cases hnil
      · rintro us path ⟨names, hattr, rfl⟩
        exact ⟨t, us, names, rfl, ht, hattr, rfl⟩
      · rintro us rest' path ⟨u, vs, names, hcons, -, hattr, rfl⟩ - -
        obtain ⟨rfl, rfl⟩ := List.cons.inj hcons
        exact ⟨names, hattr, rfl⟩
    · simp only [ht]
      refine Recognizes.expected ⟨_, _, names_name⟩ ?_
      rintro _ rest' path ⟨u, us, names, rfl, hu, -⟩ - hhead
      obtain rfl := Option.some.inj hhead
      exact ht hu

/-- The value behind the sign of an assignment; without a token there is none. -/
theorem recognizes_value (path : Path) :
    Recognizes input (fun ts a => ∃ e, Forms input.dialect.nullary ts e ∧ a = ⟨path, e⟩) (· = []) s
      ((unfinished .value >>= fun _ => expression >>= fun e => finished >>= fun _ =>
        pure (Assignment.mk path e)) input s) := by
  by_cases hs : s.rest.head? = none
  · have hfail : unfinished .value input s = expected .value input s := by
      unfold unfinished
      rw [bind_apply, next?]
      simp only [hs]
    rw [bind_apply, hfail]
    refine Recognizes.expected ⟨_, _, _, forms_name _, rfl⟩ ?_
    rintro ws rest _ ⟨e, he, rfl⟩ - hhead
    obtain ⟨t, us, rfl⟩ := List.exists_cons_of_ne_nil he.ne_nil
    rw [hs] at hhead
    cases hhead
  · obtain ⟨t, ht⟩ := Option.ne_none_iff_exists'.mp hs
    refine Recognizes.look (a := ()) ?_ ?_
    · unfold unfinished
      rw [bind_apply, next?]
      simp only [ht]
      rfl
    · exact (recognizes_expression input s).whole (Assignment.mk path) ends_nil

/-- **Whole assignments are recognized.** -/
theorem recognizes_wholeAssignment (input : Input) (hs : input.tokens = [] → s.rest = []) :
    Recognizes input (Assigns input.dialect.nullary) (· = []) s (wholeAssignment input s) := by
  refine Recognizes.nonempty hs ?_ (fun _ _ h => Assigns.ne_nil h) ?_
  · exact ⟨_, ⟨["a"], .path ["a"]⟩, _, ⟨.symbol, "=", 1⟩, _, rfl, names_name, by decide,
      forms_name _⟩
  · refine (Recognizes.bind recognizes_destination (G := (· = []))
      (fun path s₁ _ => Recognizes.bind (recognizes_require "=" .equals (F := fun _ => True))
        (fun _ s₂ _ => recognizes_value path) ?_ ?_) ?_ ?_).of ?_ ?_ fun _ h => h
    · exact fun _ _ _ => ⟨_, _, _, forms_name _, rfl⟩
    · exact fun _ _ _ _ _ _ _ _ => trivial
    · exact fun _ path _ => ⟨_, _, _, _, (), rfl, ⟨⟨.symbol, "=", 1⟩, rfl, by decide⟩,
        _, forms_name _, rfl⟩
    · rintro _ path _ a rest - ⟨us, vs, -, rfl, ⟨r, rfl, hr⟩, -⟩ -
      exact ends_cons hr (by decide)
    · rintro _ a ⟨us, _, path, rfl, hpath, ⟨_, vs, -, rfl, ⟨r, rfl, hr⟩, e, he, rfl⟩⟩
      exact ⟨us, r, vs, rfl, hpath, hr, he⟩
    · rintro _ rest a ⟨us, r, vs, rfl, hpath, hr, he⟩ - -
      exact ⟨us, r :: vs, a.destination, rfl, hpath, [r], vs, (), rfl, ⟨r, rfl, hr⟩,
        a.value, he, rfl⟩

/-- **An assignment is derived** from all the tokens. -/
theorem assigns_of_ofTokens {M : ℕ} {a : Assignment}
    (h : Assignment.ofTokens ⟨M, Z⟩ ts = .ok a) : Assigns Z ts a :=
  (recognizes_wholeAssignment ⟨ts, ⟨M, Z⟩⟩ id).of_result_eq_ok
    exhausts_wholeAssignment h

end Formula.Grammar
