import Formula.Proofs.Grammar.Cost
import Formula.Proofs.Grammar.Recognition.Chain

/-!
# Primary expressions are recognized

The first token of a primary expression decides what it is (`belongs_cons_iff`), and behind a name the
next token decides between a path and a call; the parser looks at no more. What is open when it stops can
be completed: a name follows a point, an argument and a parenthesis close a call that may not be empty.

A primary expression may have one token more than the expressions inside it (`knows_primary`).
-/

namespace Formula.Grammar

open Formula.Parser

variable {Z : List String} {input : Input} {s : State} {m : ℕ} {q item : Parser Expr}
  {ts rest : List Token} {e : Expr} {t : Token} {d : ℕ}

/-! ### Paths -/

theorem splitAttributes_sound : ∀ {ts rest : List Token} {names : List String},
    splitAttributes ts = (names, rest) → ∃ ps, ts = ps ++ rest ∧ Attributes ps names ∧
      splitAttributes rest = ([], rest) := by
  intro ts
  fun_induction splitAttributes ts with
  | case1 point name us hp ns us' hsplit ih =>
    intro rest names h
    cases h
    obtain ⟨ps, rfl, hps, hrest⟩ := ih hsplit
    rw [Bool.and_eq_true, decide_eq_true_eq] at hp
    exact ⟨point :: name :: ps, rfl, .cons hp.1 hp.2 hps, hrest⟩
  | case2 point name us hp =>
    intro rest names h
    cases h
    exact ⟨[], rfl, .nil, by rw [splitAttributes, if_neg hp]⟩
  | case3 ts hts =>
    intro rest names h
    cases h
    refine ⟨[], rfl, .nil, ?_⟩
    unfold splitAttributes
    split
    · exact absurd rfl (hts _ _ _)
    · rfl

/-- Nothing is split off a point before a token that is no name. -/
theorem splitAttributes_point (ht : t.isSymbol ".") :
    splitAttributes (t :: rest) = ([], t :: rest) ↔ ∀ u ∈ rest.head?, u.kind ≠ .name := by
  cases rest with
  | nil => simp [splitAttributes]
  | cons u rest =>
    by_cases hu : u.kind = .name
    · simp [splitAttributes, ht, hu]
    · simp [splitAttributes, hu]

theorem Attributes.append {ps : List Token} {names names' : List String}
    (h : Attributes ts names) (h' : Attributes ps names') :
    Attributes (ts ++ ps) (names ++ names') := by
  induction h with
  | nil => exact h'
  | cons hp hn _ ih => exact .cons hp hn ih

theorem recognizes_pathFrom (input : Input) (s : State) (root : String) {ss : List String}
    (hss : "." ∈ ss) :
    Recognizes input (fun ts p => ∃ names, Attributes ts names ∧ p = root :: names) (Ends ss) s
      (pathFrom root input s) := by
  obtain ⟨ts, d⟩ := s
  obtain ⟨names, rest, hsplit⟩ : ∃ names rest, splitAttributes ts = (names, rest) :=
    ⟨_, _, (Prod.eta _).symm⟩
  obtain ⟨ps, rfl, hattr, hrest⟩ := splitAttributes_sound hsplit
  have hread : attributes input ⟨ps ++ rest, d⟩ = .done names ⟨rest, d⟩ := by
    simp only [attributes, hsplit]
  -- What can be read off is what is split off.
  have hsplits : ∀ {ws rest' : List Token} {names' : List String}, Attributes ws names' →
      Ends ss rest' → splitAttributes (ws ++ rest') = (names', rest') :=
    fun hws hends => splitAttributes_append hws hends hss
  unfold pathFrom
  rw [bind_apply, hread]
  by_cases hpoint : ∃ t ∈ rest.head?, t.isSymbol "."
  · obtain ⟨t, ht, hsym⟩ := hpoint
    obtain ⟨rest, rfl⟩ := List.head?_eq_some_iff.mp ht
    have hkind := (splitAttributes_point hsym).mp hrest
    dsimp only
    rw [bind_apply, nextIs_of_isSymbol hsym]
    refine .inr ⟨rfl, ps ++ [t], by simp, ?_, ?_⟩
    · have hname : Attributes [t, ⟨.name, "a", 0⟩] ["a"] := .cons hsym rfl .nil
      exact ⟨[⟨.name, "a", 0⟩], _, _, by simpa using hattr.append hname, rfl⟩
    · rintro tail ws rest' p htail ⟨names', hws, rfl⟩ hends heq
      have hstuck : splitAttributes (t :: tail) = ([], t :: tail) :=
        (splitAttributes_point hsym).mpr (by rw [htail]; exact hkind)
      have hleft := splitAttributes_append_of hattr (t :: tail)
      rw [hstuck, List.append_cons, heq, hsplits hws hends] at hleft
      have hrest' : rest' = t :: tail := (Prod.mk.inj hleft).2
      rw [hrest'] at hends
      exact hends.not_isSymbol rfl hss hsym
  · have hends : Ends ["."] rest := ends_singleton_iff.mpr hpoint
    dsimp only
    rw [bind_apply, nextIs_of_ends hends (List.mem_singleton_self ".")]
    refine ⟨ps, rfl, ⟨names, hattr, rfl⟩, ?_⟩
    rintro tail ws rest' p htail ⟨names', hws, rfl⟩ hends' heq
    have htail' : Ends ["."] tail := fun t ht => hends t (by rw [← htail]; exact ht)
    have hleft := splitAttributes_append hattr htail' (List.mem_singleton_self ".")
    rw [heq, hsplits hws hends'] at hleft
    obtain ⟨rfl, rfl⟩ := Prod.mk.inj hleft
    exact ⟨(List.append_cancel_right heq).symm, rfl⟩

/-! ### Calls and parentheses -/

theorem recognizes_require (symbol : String) (what : Expectation) {F : List Token → Prop} :
    Recognizes input (fun ts _ => ∃ r, ts = [r] ∧ r.isSymbol symbol) F s
      (require symbol what input s) := by
  obtain ⟨ts, d⟩ := s
  refine Recognizes.nextIs (fun t rest _ hsym => ?_) fun hends => ?_
  · refine ⟨[t], rfl, ⟨t, rfl, hsym⟩, ?_⟩
    rintro tail _ rest' _ - ⟨r, rfl, -⟩ - heq
    obtain ⟨rfl, -⟩ := List.cons.inj heq
    exact ⟨rfl, rfl⟩
  · refine Recognizes.expected ⟨[⟨.symbol, symbol, 0⟩], (), _, rfl, ?_⟩ ?_
    · exact Token.isSymbol_iff.mpr ⟨rfl, rfl⟩
    · rintro _ rest' _ ⟨r, rfl, hsym⟩ - hhead
      exact hends.not_isSymbol hhead.symm (List.mem_singleton_self symbol) hsym

/-- What stands before a closing parenthesis. -/
theorem recognizes_closing {α : Type} {p : Parser α} {P : List Token → α → Prop}
    {F F' : List Token → Prop} {what : Expectation} (g : α → Expr)
    (hp : Recognizes input P F s (p input s)) (hF : ∀ r rest, r.isSymbol ")" → F (r :: rest)) :
    Recognizes input (fun ts e => ∃ us r a, ts = us ++ [r] ∧ r.isSymbol ")" ∧ P us a ∧ e = g a) F' s
      ((p >>= fun a => require ")" what >>= fun _ => pure (g a)) input s) := by
  refine (Recognizes.bind hp (G := F')
    (fun a s₁ _ => Recognizes.map (g := fun _ => g a) (recognizes_require ")" what)) ?_ ?_).of
    ?_ ?_ fun _ h => h
  · exact fun _ a _ => ⟨[⟨.symbol, ")", 0⟩], g a, (), ⟨_, rfl, rfl⟩, rfl⟩
  · rintro _ a _ e rest - ⟨-, ⟨r, rfl, hr⟩, -⟩ -
    exact hF r rest hr
  · rintro _ e ⟨us, _, a, rfl, ha, -, ⟨r, rfl, hr⟩, rfl⟩
    exact ⟨us, r, a, rfl, hr, ha, rfl⟩
  · rintro _ rest e ⟨us, r, a, rfl, hr, ha, rfl⟩ - -
    exact ⟨us, [r], a, rfl, ha, (), ⟨r, rfl, hr⟩, rfl⟩

/-- The further arguments `ys` of a call, of which `xs` are known. -/
def Further (Z : List String) (f : String) (xs : List Expr) (ts : List Token) (ys : List Expr) :
    Prop :=
  Belongs Z (.arguments f xs) ts (.call f (xs ++ ys))

theorem further_nil (f : String) (xs : List Expr) : Further Z f xs [] [] :=
  ⟨0, by rw [List.append_nil]; exact .last⟩

theorem further_cons_iff {f : String} {xs ys : List Expr} :
    Further Z f xs ts ys ↔ ts = [] ∧ ys = [] ∨ ∃ t us vs y zs, ts = t :: (us ++ vs) ∧
      t.isSymbol "," ∧ Belongs Z (.level levels) us y ∧ Further Z f (xs ++ [y]) vs zs ∧
      ys = y :: zs := by
  constructor
  · rintro ⟨c, h⟩
    generalize he : Expr.call f (xs ++ ys) = e at h
    cases h with
    | last =>
      have hys := List.append_right_eq_self.mp (Expr.call.inj he).2
      exact .inl ⟨rfl, hys⟩
    | @next _ _ t us vs y _ c d ht hy h =>
      obtain ⟨parts, -, -, rfl, -⟩ := derives_arguments_iff.mp h
      have hys := (Expr.call.inj he).2
      rw [List.append_assoc, List.append_cancel_left_eq] at hys
      exact .inr ⟨t, us, vs, y, _, rfl, ht, ⟨c, hy⟩, ⟨d, h⟩, hys⟩
  · rintro (⟨rfl, rfl⟩ | ⟨t, us, vs, y, zs, rfl, ht, ⟨c, hy⟩, ⟨d, h⟩, rfl⟩)
    · exact further_nil f xs
    · rw [List.append_assoc] at h
      exact ⟨_, .next ht hy h⟩

/-- Every list of arguments ends somewhere. -/
theorem ends_level_of_further {f : String} {xs ys : List Expr} (h : Further Z f xs ts ys)
    (hends : Ends (Phrase.arguments f xs).extending rest) :
    Ends (Phrase.level levels).extending (ts ++ rest) := by
  rcases further_cons_iff.mp h with ⟨rfl, -⟩ | ⟨t, us, vs, y, zs, rfl, ht, -⟩
  · exact hends.mono fun s hs => List.mem_cons_of_mem _ hs
  · exact ends_cons ht (by decide +kernel)

theorem recognizes_moreArguments (f : String) (hq : Knows input m (.level levels) item) :
    ∀ n xs (s : State), s.rest.length ≤ n → s.rest.length < m →
      Recognizes input (Further input.dialect.nullary f xs) (Ends (Phrase.arguments f xs).extending)
        s (moreArguments item n input s) := by
  -- Without a comma there are no further arguments.
  have hstop : ∀ xs (s : State), (∀ t ∈ s.rest.head?, t.isSymbol "," = false) →
      Recognizes input (Further input.dialect.nullary f xs) (Ends (Phrase.arguments f xs).extending)
        s (.done [] s) := by
    intro xs s hstop
    refine (Recognizes.pure []).of ?_ ?_ fun _ h => h
    · rintro _ _ ⟨rfl, rfl⟩
      exact further_nil f xs
    · rintro ws rest' ys h - hhead
      rcases further_cons_iff.mp h with hnil | ⟨t, us, vs, y, zs, rfl, ht, -⟩
      · exact hnil
      · rw [hstop t (by rw [← hhead]; rfl)] at ht
        cases ht
  intro n
  induction n with
  | zero =>
    intro xs s hn _
    refine hstop xs s fun t ht => ?_
    rw [List.length_eq_zero_iff.mp (by omega : s.rest.length = 0)] at ht
    cases ht
  | succ n ih =>
    rintro xs ⟨ts, d⟩ hn hm
    rw [moreArguments]
    refine Recognizes.nextIs ?_ fun hends => ?_
    · rintro t rest rfl hsym
      rw [List.length_cons] at hn hm
      have hitem := hq ⟨rest, d⟩ (by simp only; omega)
      refine Recognizes.advance_of_mem (show "," ∈ (Phrase.arguments f xs).extending from
        List.mem_cons_self) hsym ?_
      refine (Recognizes.bind hitem (G := Ends (Phrase.arguments f xs).extending)
        (fun y s₁ hs₁ => Recognizes.map (g := fun ys => y :: ys) (ih (xs ++ [y]) s₁ ?_ ?_))
        ?_ ?_).of ?_ ?_ fun _ h => h
      · have hlen := hs₁.length_le
        simp only at hlen
        omega
      · have hlen := hs₁.length_le
        simp only at hlen
        omega
      · exact fun _ y _ => ⟨[], [y], [], further_nil f _, rfl⟩
      · rintro _ y us _ rest' - ⟨zs, hzs, rfl⟩ hends
        exact ends_level_of_further hzs hends
      · rintro _ _ ⟨us, vs, y, rfl, hy, zs, hzs, rfl⟩
        exact further_cons_iff.mpr (.inr ⟨t, us, vs, y, zs, rfl, hsym, hy, hzs, rfl⟩)
      · rintro ws rest' ys h - -
        rcases further_cons_iff.mp h with ⟨hnil, -⟩ | ⟨u, us, vs, y, zs, hws, hu, hy, hzs, rfl⟩
        · cases hnil
        · obtain ⟨rfl, rfl⟩ := List.cons.inj hws
          exact ⟨us, vs, y, rfl, hy, zs, hzs, rfl⟩
    · exact hstop xs _ fun t ht => hends t ht "," (List.mem_singleton_self ",")

/-- The arguments of a call of `f`, at least one. -/
def Arguments (Z : List String) (f : String) : List Token → List Expr → Prop :=
  Sequence (Belongs Z (.level levels)) fun x us es => ∃ ys, Further Z f [x] us ys ∧ es = x :: ys

theorem recognizes_arguments (f : String) (hq : Knows input m (.level levels) item)
    (hs : s.rest.length < m) :
    Recognizes input (Arguments input.dialect.nullary f) (Ends (Phrase.arguments f []).extending) s
      (arguments item input s) := by
  refine Recognizes.bind (hq s hs) (fun x s₁ hs₁ => Recognizes.look (a := s₁.rest.length) rfl ?_) ?_ ?_
  · have hlen := hs₁.length_le
    exact Recognizes.map (recognizes_moreArguments f hq _ [x] s₁ le_rfl (by omega))
  · exact fun _ x _ => ⟨[], [x], [], further_nil f _, rfl⟩
  · rintro _ x us _ rest' - ⟨ys, hys, rfl⟩ hends
    exact ends_level_of_further hys hends

/-- Arguments begin with no closing parenthesis. -/
theorem Arguments.head?_ne {f : String} {es : List Expr} {r : Token} (h : Arguments Z f ts es)
    (hr : r.isSymbol ")") : (ts ++ rest).head? ≠ some r := by
  obtain ⟨us, vs, x, rfl, ⟨c, hx⟩, -⟩ := h
  intro hhead
  rw [List.append_assoc] at hhead
  have hends : Ends [")"] (us ++ (vs ++ rest)) := hx.ends_closing.append hx.ne_nil _
  exact hends.not_isSymbol hhead (List.mem_singleton_self ")") hr

/-- What may stand behind the opening parenthesis in a call of `f`. -/
def Called (Z : List String) (f : String) (ts : List Token) (e : Expr) : Prop :=
  (∃ r, ts = [r] ∧ r.isSymbol ")" ∧ f ∈ Z ∧ e = .call f []) ∨
    ∃ us r es, ts = us ++ [r] ∧ r.isSymbol ")" ∧ Arguments Z f us es ∧ e = .call f es

/-- What may stand behind the token `t` in a primary expression that begins with it. -/
def Behind (Z : List String) (t : Token) (ts : List Token) (e : Expr) : Prop :=
  match t.kind with
  | .number => ts = [] ∧ ∃ x, Decimal.read? t.text = some x ∧ x.isFinite = true ∧ e = .literal x
  | .quoted => ∃ names, Attributes ts names ∧ e = .path (t.text :: names)
  | .name => (∃ names, Attributes ts names ∧ e = .path (t.text :: names)) ∨
      ∃ l us, ts = l :: us ∧ l.isSymbol "(" ∧ Called Z t.text us e
  | .symbol => t.text = "(" ∧
      ∃ us r, ts = us ++ [r] ∧ r.isSymbol ")" ∧ Belongs Z (.level levels) us e

/-- **The first token of a primary expression decides what it is.** -/
theorem belongs_cons_iff : Belongs Z .primary (t :: ts) e ↔ Behind Z t ts e := by
  unfold Behind
  constructor
  · rintro ⟨c, h⟩
    generalize hlist : t :: ts = list at h
    cases h with
    | number ht hx hf =>
      cases hlist
      simp only [ht]
      exact ⟨trivial, _, hx, hf, rfl⟩
    | path ht hattr =>
      cases hlist
      cases hk : t.kind with
      | quoted => exact ⟨_, hattr, rfl⟩
      | name => exact .inl ⟨_, hattr, rfl⟩
      | number => simp [Token.isRoot, hk] at ht
      | symbol => simp [Token.isRoot, hk] at ht
    | group ht hr h =>
      cases hlist
      rw [Token.isSymbol_iff] at ht
      simp only [ht.1]
      exact ⟨ht.2, _, _, rfl, hr, _, h⟩
    | callNone ht hl hr hz =>
      cases hlist
      simp only [ht]
      exact .inr ⟨_, _, rfl, hl, .inl ⟨_, rfl, hr, hz, rfl⟩⟩
    | call ht hl hr hx h =>
      cases hlist
      obtain ⟨parts, -, -, rfl, -⟩ := derives_arguments_iff.mp h
      simp only [ht]
      exact .inr ⟨_, _, rfl, hl, .inr ⟨_, _, _, rfl, hr, ⟨_, _, _, rfl, ⟨_, hx⟩, _, ⟨_, h⟩, rfl⟩, rfl⟩⟩
  · cases ht : t.kind with
    | number =>
      rintro ⟨rfl, x, hx, hf, rfl⟩
      exact ⟨0, .number ht hx hf⟩
    | quoted =>
      rintro ⟨names, hattr, rfl⟩
      exact ⟨0, .path (by simp [Token.isRoot, ht]) hattr⟩
    | name =>
      rintro (⟨names, hattr, rfl⟩ | ⟨l, us, rfl, hl, ⟨r, rfl, hr, hz, rfl⟩ | hcall⟩)
      · exact ⟨0, .path (by simp [Token.isRoot, ht]) hattr⟩
      · exact ⟨0, .callNone ht hl hr hz⟩
      · obtain ⟨_, r, _, rfl, hr, ⟨vs, ws, x, rfl, ⟨c, hx⟩, ys, ⟨d, h⟩, rfl⟩, rfl⟩ := hcall
        exact ⟨_, .call ht hl hr hx h⟩
    | symbol =>
      rintro ⟨htext, us, r, rfl, hr, c, h⟩
      exact ⟨c, .group (Token.isSymbol_iff.mpr ⟨ht, htext⟩) hr h⟩

/-- No token behind the parenthesis of a call can make it a path. -/
theorem belongs_call_iff {l : Token} (ht : t.kind = .name) (hl : l.isSymbol "(") :
    Belongs Z .primary (t :: l :: ts) e ↔ Called Z t.text ts e := by
  rw [belongs_cons_iff]
  simp only [Behind, ht]
  constructor
  · rintro (⟨names, hattr, -⟩ | ⟨l, us, hlist, -, hcall⟩)
    · cases hattr with
      | cons hp =>
        rw [Token.isSymbol_iff] at hl hp
        rw [hl.2] at hp
        exact absurd hp.2 (by decide)
    · cases hlist
      exact hcall
  · exact fun hcall => .inr ⟨l, ts, rfl, hl, hcall⟩

theorem recognizes_callOf {l : Token} (hq : Knows input m (.level levels) item)
    (hrest : rest.length < m) (ht : t.kind = .name) (hl : l.isSymbol "(") :
    Recognizes input (fun us e => Belongs input.dialect.nullary .primary (t :: us) e)
      (Ends Phrase.primary.extending) ⟨l :: rest, d⟩ (callOf t.text item input ⟨l :: rest, d⟩) := by
  refine Recognizes.look (a := l.position) rfl (Recognizes.advance_of_mem
    (show "(" ∈ Phrase.primary.extending by decide) hl (Recognizes.nextIs ?_ ?_))
  · rintro r rest rfl hr
    refine Recognizes.look (a := decide (t.text ∈ input.dialect.nullary)) rfl ?_
    -- A list of arguments does not begin here, so the call has none.
    have hcall : ∀ {ws rest' : List Token} {e : Expr},
        Belongs input.dialect.nullary .primary (t :: l :: ws) e →
        (ws ++ rest').head? = some r →
        ws = [r] ∧ t.text ∈ input.dialect.nullary ∧ e = .call t.text [] := by
      intro ws rest' e h hhead
      rcases (belongs_call_iff ht hl).mp h with ⟨r', rfl, -, hz, rfl⟩ | ⟨us, r', es, rfl, -, hargs, -⟩
      · obtain rfl := Option.some.inj hhead
        exact ⟨rfl, hz, rfl⟩
      · rw [List.append_assoc] at hhead
        exact absurd hhead (hargs.head?_ne hr)
    by_cases hz : t.text ∈ input.dialect.nullary
    · simp only [hz, decide_true, if_true]
      have hnone : Belongs input.dialect.nullary .primary [t, l, r] (.call t.text []) :=
        (belongs_call_iff ht hl).mpr (.inl ⟨r, rfl, hr, hz, rfl⟩)
      refine Recognizes.single hnone fun ws rest' e h _ hhead => ?_
      obtain ⟨hws, -, he⟩ := hcall h hhead
      exact ⟨hws, he⟩
    · simp only [hz, decide_false]
      refine Recognizes.fail ⟨[⟨.name, "a", 0⟩, r], .call t.text [.path ["a"]], ?_⟩ ?_
      · refine (belongs_call_iff ht hl).mpr (.inr ⟨[⟨.name, "a", 0⟩], r, _, rfl, hr, ?_, rfl⟩)
        exact ⟨[_], [], _, rfl, ⟨_, (derives_name _).level_of_primary levels⟩, [], further_nil _ _, rfl⟩
      · rintro ws rest' e h - hhead
        exact hz (hcall h hhead).2.1
  · intro hends
    have hargs := recognizes_arguments (s := ⟨rest, d⟩) t.text hq hrest
    refine (recognizes_closing (Expr.call t.text) hargs ?_).of ?_ ?_ fun _ h => h
    · exact fun r rest' hr =>
        ends_cons hr (show ")" ∉ (Phrase.arguments "" []).extending by decide +kernel)
    · rintro _ _ ⟨us, r, es, rfl, hr, hes, rfl⟩
      exact (belongs_call_iff ht hl).mpr (.inr ⟨us, r, es, rfl, hr, hes, rfl⟩)
    · rintro ws rest' e h - hhead
      rcases (belongs_call_iff ht hl).mp h with ⟨r, rfl, hr, -⟩ | ⟨us, r, es, rfl, hr, hes, rfl⟩
      · exact absurd hr (hends.not_isSymbol hhead.symm (List.mem_singleton_self ")"))
      · exact ⟨us, r, es, rfl, hr, hes, rfl⟩

/-! ### Primary expressions -/

theorem recognizes_number (ht : t.kind = .number) :
    Recognizes input (Belongs input.dialect.nullary .primary) (Ends Phrase.primary.extending)
      ⟨t :: rest, d⟩ (number t input ⟨t :: rest, d⟩) := by
  have hhead : ∀ {ws rest' : List Token} {e : Expr}, Belongs input.dialect.nullary .primary ws e →
      (ws ++ rest').head? = some t → ws = [t] ∧
        ∃ x, Decimal.read? t.text = some x ∧ x.isFinite = true ∧ e = .literal x := by
    intro ws rest' e h hhead
    obtain ⟨u, us, rfl, -⟩ := h.head_primary
    obtain rfl := Option.some.inj hhead
    rw [belongs_cons_iff, Behind, ht] at h
    obtain ⟨rfl, hx⟩ := h
    exact ⟨rfl, hx⟩
  have hfail : ∀ fault, (∀ x, Decimal.read? t.text = some x → ¬ x.isFinite = true) →
      Recognizes input (Belongs input.dialect.nullary .primary) (Ends Phrase.primary.extending)
        ⟨t :: rest, d⟩ ((fail fault : Parser Expr) input ⟨t :: rest, d⟩) := by
    intro fault hbad
    refine Recognizes.fail ⟨_, _, _, derives_name _⟩ fun ws rest' e h _ heq => ?_
    obtain ⟨-, x, hx, hf, -⟩ := hhead h heq
    exact hbad x hx hf
  unfold number
  cases hx : Decimal.read? t.text with
  | none => exact hfail _ fun x hx' => by rw [hx] at hx'; cases hx'
  | some x =>
    by_cases hf : x.isFinite = true
    · simp only [hf, if_true]
      refine Recognizes.single ⟨0, .number ht hx hf⟩ fun ws rest' e h _ heq => ?_
      obtain ⟨hws, x', hx', -, rfl⟩ := hhead h heq
      rw [hx] at hx'
      exact ⟨hws, by rw [Option.some.inj hx']⟩
    · simp only [hf]
      exact hfail _ fun x' hx' => by rw [hx] at hx'; rwa [← Option.some.inj hx']

/-- A path, behind its root. -/
theorem recognizes_path (ht : t.isRoot) (hcall : t.kind = .name → Ends ["("] rest) :
    Recognizes input (fun us e => Belongs input.dialect.nullary .primary (t :: us) e)
      (Ends Phrase.primary.extending) ⟨rest, d⟩
      ((pathFrom t.text >>= fun p => pure (Expr.path p)) input ⟨rest, d⟩) := by
  have hpath := recognizes_pathFrom input ⟨rest, d⟩ t.text
    (show "." ∈ Phrase.primary.extending by decide)
  refine (Recognizes.map (g := Expr.path) hpath).of ?_ ?_ fun _ h => h
  · rintro us _ ⟨_, ⟨names, hattr, rfl⟩, rfl⟩
    exact ⟨0, .path ht hattr⟩
  · rintro ws rest' e h - hhead
    rw [belongs_cons_iff, Behind] at h
    cases hk : t.kind with
    | number => simp [Token.isRoot, hk] at ht
    | symbol => simp [Token.isRoot, hk] at ht
    | quoted =>
      simp only [hk] at h
      obtain ⟨names, hattr, rfl⟩ := h
      exact ⟨_, ⟨names, hattr, rfl⟩, rfl⟩
    | name =>
      simp only [hk] at h
      rcases h with ⟨names, hattr, rfl⟩ | ⟨l, us, rfl, hl, -⟩
      · exact ⟨_, ⟨names, hattr, rfl⟩, rfl⟩
      · exact absurd hl ((hcall hk).not_isSymbol hhead.symm (List.mem_singleton_self "("))

/-- **A primary expression** may have one token more than the expressions inside it. -/
theorem knows_primary (hq : Knows input m .unary q) : Knows input (m + 1) .primary (primary q) := by
  rintro ⟨ts, d⟩ hs
  cases ts with
  | nil =>
    refine Recognizes.look (a := none) rfl (Recognizes.expected ⟨_, _, _, derives_name _⟩ ?_)
    intro ws rest' e h _ hhead
    exact h.head?_ne_none hhead
  | cons t rest =>
    have hrest : rest.length < m := Nat.lt_of_succ_lt_succ hs
    have hne : ∀ ⦃ws rest' : List Token⦄ ⦃e : Expr⦄, Belongs input.dialect.nullary .primary ws e →
        Ends Phrase.primary.extending rest' → (ws ++ rest').head? = some t → ws ≠ [] := by
      rintro _ rest' e h - - rfl
      obtain ⟨_, _, hnil, -⟩ := h.head_primary
      cases hnil
    refine Recognizes.look (a := some t) rfl ?_
    dsimp only
    cases ht : t.kind with
    | number => exact recognizes_number ht
    | quoted =>
      refine Recognizes.advance hne (recognizes_path (by simp [Token.isRoot, ht]) fun hname => ?_)
      rw [ht] at hname
      cases hname
    | name =>
      refine Recognizes.advance hne (Recognizes.nextIs ?_ fun hends => ?_)
      · rintro l rest rfl hl
        rw [List.length_cons] at hrest
        exact recognizes_callOf (knows_expressionOver hq) (by omega) ht hl
      · exact recognizes_path (by simp [Token.isRoot, ht]) fun _ => hends
    | symbol =>
      have hbehind : ∀ {ws : List Token} {e : Expr}, Belongs input.dialect.nullary .primary (t :: ws) e →
          t.text = "(" ∧ ∃ us r, ws = us ++ [r] ∧ r.isSymbol ")" ∧
            Belongs input.dialect.nullary (.level levels) us e := by
        intro ws e h
        rwa [belongs_cons_iff, Behind, ht] at h
      by_cases htext : t.text = "("
      · have hinner := knows_expressionOver hq ⟨rest, d⟩ hrest
        dsimp only
        rw [if_pos htext]
        refine Recognizes.advance hne ((recognizes_closing id hinner ?_).of ?_ ?_ fun _ h => h)
        · exact fun r rest' hr => ends_cons hr (by decide +kernel)
        · rintro _ _ ⟨us, r, e, rfl, hr, ⟨c, h⟩, rfl⟩
          exact ⟨c, .group (Token.isSymbol_iff.mpr ⟨ht, htext⟩) hr h⟩
        · rintro ws rest' e h - -
          obtain ⟨-, us, r, rfl, hr, h⟩ := hbehind h
          exact ⟨us, r, e, rfl, hr, h, rfl⟩
      · dsimp only
        rw [if_neg htext]
        refine Recognizes.expected ⟨_, _, _, derives_name _⟩ fun ws rest' e h _ hhead => ?_
        obtain ⟨u, us, rfl, -⟩ := h.head_primary
        obtain rfl := Option.some.inj hhead
        exact htext (hbehind h).1

end Formula.Grammar
