import Formula.Proofs.Grammar.Reading

/-!
# Every derivation is read

A phrase is read to its end if no token behind it continues it; `Phrase.extending` lists the symbols
that do. In a derivation the token behind an inner phrase never does: an operator of one level is no
operator of a tighter one, and a closing parenthesis or a comma continues nothing.

The parsers are iterates of one turn of the cycle of the grammar, and the tokens of a phrase bound the
turns that it takes; `Derives.reads` is stated over a parser of unary expressions that reads the
derivations of at most `n` tokens.
-/

namespace Formula.Grammar

open Formula.Parser

/-- The symbols that continue a phrase of a class. -/
def Phrase.extending : Phrase → List String
  | .primary => [".", "("]
  | .unary => ["^", ".", "("]
  | .level ls => ls.flatMap (·.map BinaryOp.symbol) ++ ["^", ".", "("]
  | .chain ops ls _ => (ops :: ls).flatMap (·.map BinaryOp.symbol) ++ ["^", ".", "("]
  | .arguments _ _ => "," :: levels.flatMap (·.map BinaryOp.symbol) ++ ["^", ".", "("]

theorem extending_operand {ops : List BinaryOp} {ls : List (List BinaryOp)} (x : Expr) :
    (Phrase.level ls).extending ⊆ (Phrase.chain ops ls x).extending := by
  intro s hs
  simp only [Phrase.extending, List.flatMap_cons, List.append_assoc] at hs ⊢
  exact List.mem_append_right _ hs

/-- **An operator of a level continues no operand of it.** -/
theorem symbol_notMem_extending {ops : List BinaryOp} {ls : List (List BinaryOp)}
    (h : (ops :: ls) <:+ levels) {op : BinaryOp} (hop : op ∈ ops) :
    op.symbol ∉ (Phrase.level ls).extending := by
  have key : ∀ l ∈ levels.tails, ∀ ops ∈ l.head?, ∀ op ∈ ops,
      op.symbol ∉ (Phrase.level l.tail).extending := by decide +kernel
  exact key _ (List.mem_tails _ _ |>.mpr h) ops rfl op hop

/-! ### The parsers of the productions -/

variable {input : Input} {operand item q : Parser Expr} {ops : List BinaryOp} {rest : List Token}

theorem reads_chain_stop {n : ℕ} {x : Expr} {ss : List String} (hrest : Ends ss rest)
    (hs : ∀ op ∈ ops, op.symbol ∈ ss) : Reads input (chain ops operand n x) [] x 0 rest := by
  cases n with
  | zero => exact Reads.pure x
  | succ n =>
    rw [chain]
    exact Reads.look (fun d => operator?_of_ends hrest hs) (Reads.pure x)

theorem reads_chain_more {n : ℕ} {x y e : Expr} {op : BinaryOp} {t : Token} {ts us : List Token}
    {c d : ℕ} (ht : t.isSymbol op.symbol) (hop : op ∈ ops)
    (hy : Reads input operand ts y c (us ++ rest))
    (hch : Reads input (chain ops operand n (.binary x op y)) us e d rest) :
    Reads input (chain ops operand (n + 1) x) (t :: (ts ++ us)) e (1 + max c d) rest := by
  rw [chain]
  exact Reads.look (fun d => operator?_of_mem hop ht) (Reads.inside (Reads.advance (hy.bind hch)))

theorem reads_level {x e : Expr} {ts us : List Token} {c d : ℕ}
    (hx : Reads input operand ts x c (us ++ rest))
    (hch : ∀ n, us.length ≤ n → Reads input (chain ops operand n x) us e d rest) :
    Reads input (level ops operand) (ts ++ us) e (max c d) rest := by
  refine Reads.congr (fun d => level_apply input ops operand _) (hx.bind ?_)
  exact Reads.look (a := (us ++ rest).length) (fun d => rfl) (hch _ (by simp))

theorem reads_unaryLevel_sign {t : Token} {op : UnaryOp} {ts : List Token} {e : Expr} {c : ℕ}
    (ht : t.isSymbol op.symbol) (h : Reads input q ts e c rest) :
    Reads input (unaryLevel q) (t :: ts) (.unary op e) (1 + c) rest := by
  refine Reads.insideFinally (Reads.look (a := some op) (fun d => ?_) (Reads.advance (h.map _)))
  obtain ⟨o, ho, h⟩ := sign?_apply input ⟨t :: (ts ++ rest), d⟩
  have hop : o = some op := (h op).mpr ⟨t, rfl, ht⟩
  rw [List.cons_append, ho, hop]

theorem reads_power {t : Token} {ts us : List Token} {b e : Expr} {c d : ℕ} (ht : t.isSymbol "^")
    (hb : Reads input (primary q) ts b c (t :: us ++ rest)) (he : Reads input q us e d rest) :
    Reads input (power q) (ts ++ t :: us) (.binary b .power e) (max c d) rest :=
  hb.bind (Reads.look (fun _ => nextIs_of_isSymbol ht) (Reads.advance (he.map _)))

theorem reads_power_plain {ts : List Token} {b : Expr} {c : ℕ} {ss : List String}
    (hrest : Ends ss rest) (hs : "^" ∈ ss) (hb : Reads input (primary q) ts b c rest) :
    Reads input (power q) ts b c rest :=
  hb.finish (Reads.look (fun _ => nextIs_of_ends hrest hs) (Reads.pure b))

/-- A primary expression begins with no sign. -/
theorem Derives.head_primary {Z : List String} {ts : List Token} {e : Expr} {c : ℕ}
    (h : Derives Z .primary ts e c) :
    ∃ t us, ts = t :: us ∧ ∀ op : UnaryOp, t.isSymbol op.symbol = false := by
  have hkind : ∀ {t : Token}, t.kind ≠ .symbol → ∀ op : UnaryOp, t.isSymbol op.symbol = false :=
    fun h op => by simp [Token.isSymbol, h]
  cases h with
  | number ht => exact ⟨_, _, rfl, hkind (by rw [ht]; decide)⟩
  | path ht => exact ⟨_, _, rfl, hkind fun h => by simp [Token.isRoot, h] at ht⟩
  | group hl =>
    refine ⟨_, _, rfl, fun op => ?_⟩
    rw [Token.isSymbol_iff] at hl
    cases op <;> simp [Token.isSymbol, hl, UnaryOp.symbol]
  | callNone ht => exact ⟨_, _, rfl, hkind (by rw [ht]; decide)⟩
  | call ht => exact ⟨_, _, rfl, hkind (by rw [ht]; decide)⟩

theorem reads_unaryLevel_power {t : Token} {ts : List Token} {e : Expr} {c : ℕ}
    (ht : ∀ op : UnaryOp, t.isSymbol op.symbol = false)
    (h : Reads input (power q) (t :: ts) e c rest) :
    Reads input (unaryLevel q) (t :: ts) e (1 + c) rest := by
  refine Reads.insideFinally (Reads.look (a := none) (fun d => ?_) h)
  obtain ⟨o, ho, h⟩ := sign?_apply input ⟨t :: (ts ++ rest), d⟩
  cases o with
  | none => exact ho
  | some op =>
    obtain ⟨u, hu, hop⟩ := (h op).mp rfl
    obtain rfl := Option.mem_some_iff.mp hu
    rw [ht op] at hop
    cases hop

/-! ### Primary expressions -/

/-- Names behind points are split off, and then what can be split off the tokens behind them. -/
theorem splitAttributes_append_of {ts : List Token} {names : List String} (h : Attributes ts names)
    (rest : List Token) :
    splitAttributes (ts ++ rest) =
      (names ++ (splitAttributes rest).1, (splitAttributes rest).2) := by
  induction h with
  | nil => rfl
  | cons hp hn _ ih => simp [splitAttributes, hp, hn, ih]

theorem splitAttributes_append {ts : List Token} {names : List String} {ss : List String}
    (h : Attributes ts names) (hrest : Ends ss rest) (hs : "." ∈ ss) :
    splitAttributes (ts ++ rest) = (names, rest) := by
  have hstop : splitAttributes rest = ([], rest) := by
    match rest with
    | [] => rfl
    | [_] => rfl
    | t :: _ :: _ => simp [splitAttributes, hrest t rfl "." hs]
  rw [splitAttributes_append_of h, hstop, List.append_nil]

theorem reads_pathFrom {root : String} {ts : List Token} {names : List String} {ss : List String}
    (h : Attributes ts names) (hrest : Ends ss rest) (hs : "." ∈ ss) :
    Reads input (pathFrom root) ts (root :: names) 0 rest := by
  have hread : Reads input attributes ts names 0 rest :=
    ⟨fun d _ => by simp [attributes, splitAttributes_append h hrest hs],
      fun d hd hc => absurd hc (by omega)⟩
  exact hread.finish (Reads.look (fun d => nextIs_of_ends hrest hs) (Reads.pure _))

theorem reads_number {t : Token} {x : Float} (ht : t.kind = .number)
    (hx : Decimal.read? t.text = some x) (hf : x.isFinite = true) :
    Reads input (primary q) [t] (.literal x) 0 rest := by
  refine Reads.look (a := some t) (fun d => rfl) ?_
  simp only [ht, number, hx, hf, if_true]
  exact Reads.advance (Reads.pure _)

/-- Behind a root stands a point or the token behind the path. -/
theorem Attributes.ends {ts : List Token} {names : List String} {ss : List String}
    (h : Attributes ts names) (hrest : Ends ss rest) (hs : "(" ∈ ss) : Ends ["("] (ts ++ rest) := by
  cases h with
  | nil => exact hrest.mono (by simpa using hs)
  | cons hp => exact ends_cons hp (by decide)

theorem reads_path {t : Token} {ts : List Token} {names : List String} (ht : t.isRoot)
    (h : Attributes ts names) (hrest : Ends Phrase.primary.extending rest) :
    Reads input (primary q) (t :: ts) (.path (t.text :: names)) 0 rest := by
  have hpath : Reads input (pathFrom t.text) ts (t.text :: names) 0 rest :=
    reads_pathFrom h hrest (by decide)
  refine Reads.look (a := some t) (fun d => rfl) ?_
  cases hk : t.kind with
  | quoted => simpa only [hk] using Reads.advance (hpath.map _)
  | name =>
    simp only [hk]
    refine Reads.advance (Reads.look (fun d => nextIs_of_ends (h.ends hrest ?_) ?_) (hpath.map _))
    · decide
    · decide
  | number => simp [Token.isRoot, hk] at ht
  | symbol => simp [Token.isRoot, hk] at ht

theorem reads_require {r : Token} {symbol : String} {what : Expectation} (hr : r.isSymbol symbol) :
    Reads input (require symbol what) [r] () 0 rest :=
  Reads.look (fun _ => nextIs_of_isSymbol hr) ⟨fun _ _ => rfl, fun d hd hc => absurd hc (by omega)⟩

theorem reads_group {l r : Token} {ts : List Token} {e : Expr} {c : ℕ} (hl : l.isSymbol "(")
    (hr : r.isSymbol ")") (h : Reads input (expressionOver q) ts e c (r :: rest)) :
    Reads input (primary q) (l :: (ts ++ [r])) e c rest := by
  rw [Token.isSymbol_iff] at hl
  refine Reads.look (a := some l) (fun d => rfl) ?_
  simp only [hl.1, hl.2, if_true, parenthesized]
  exact Reads.advance (h.close ((reads_require hr).map _))

theorem reads_callNone {t l r : Token} (ht : t.kind = .name) (hl : l.isSymbol "(")
    (hr : r.isSymbol ")") (hz : t.text ∈ input.dialect.nullary) :
    Reads input (primary q) [t, l, r] (.call t.text []) 0 rest := by
  refine Reads.look (a := some t) (fun d => rfl) ?_
  simp only [ht]
  refine Reads.advance (Reads.look (fun d => nextIs_of_isSymbol hl) ?_)
  refine Reads.look (a := l.position) (fun d => rfl) (Reads.advance ?_)
  refine Reads.look (fun d => nextIs_of_isSymbol hr) (Reads.look (a := true) (fun d => ?_) ?_)
  · simp [isNullary, hz]
  · exact Reads.advance (Reads.pure _)

theorem reads_moreArguments_stop {n : ℕ} {ss : List String} (hrest : Ends ss rest)
    (hs : "," ∈ ss) : Reads input (moreArguments item n) [] [] 0 rest := by
  cases n with
  | zero => exact Reads.pure []
  | succ n =>
    rw [moreArguments]
    exact Reads.look (fun d => nextIs_of_ends hrest hs) (Reads.pure [])

theorem reads_moreArguments_next {n : ℕ} {t : Token} {ts us : List Token} {y : Expr}
    {ys : List Expr} {c d : ℕ} (ht : t.isSymbol ",") (hy : Reads input item ts y c (us ++ rest))
    (hys : Reads input (moreArguments item n) us ys d rest) :
    Reads input (moreArguments item (n + 1)) (t :: (ts ++ us)) (y :: ys) (max c d) rest := by
  rw [moreArguments]
  exact Reads.look (fun d => nextIs_of_isSymbol ht) (Reads.advance (hy.bind (hys.map _)))

theorem reads_arguments {ts us : List Token} {y : Expr} {ys : List Expr} {c d : ℕ}
    (hy : Reads input item ts y c (us ++ rest))
    (hys : ∀ n, us.length ≤ n → Reads input (moreArguments item n) us ys d rest) :
    Reads input (arguments item) (ts ++ us) (y :: ys) (max c d) rest :=
  hy.bind (Reads.look (a := (us ++ rest).length) (fun _ => rfl) ((hys _ (by simp)).map _))

theorem reads_call {t l r : Token} {ts : List Token} {es : List Expr} {c : ℕ}
    (ht : t.kind = .name) (hl : l.isSymbol "(") (hr : r.isSymbol ")")
    (hts : Ends [")"] (ts ++ [r] ++ rest))
    (h : Reads input (arguments (expressionOver q)) ts es c (r :: rest)) :
    Reads input (primary q) (t :: l :: (ts ++ [r])) (.call t.text es) c rest := by
  refine Reads.look (a := some t) (fun d => rfl) ?_
  simp only [ht]
  refine Reads.advance (Reads.look (fun d => nextIs_of_isSymbol hl) ?_)
  refine Reads.look (a := l.position) (fun d => rfl) (Reads.advance ?_)
  refine Reads.look (a := false) (fun d => ?_) (h.close ((reads_require hr).map _))
  exact nextIs_of_ends hts (by simp)

/-! ### All derivations -/

theorem unarySymbol_notMem (op : UnaryOp) : op.symbol ∉ [")"] := by
  cases op <;> decide

theorem binarySymbol_notMem (op : BinaryOp) : op.symbol ∉ [")"] := by
  cases op <;> decide

/-- A phrase does not begin with a parenthesis that closes. -/
theorem Derives.ends_closing {Z : List String} {φ : Phrase} {ts : List Token} {e : Expr} {c : ℕ}
    (h : Derives Z φ ts e c) : Ends [")"] ts := by
  have happend : ∀ {ts us : List Token}, Ends [")"] ts → Ends [")"] us → Ends [")"] (ts ++ us) := by
    intro ts us h h'
    by_cases hts : ts = []
    · simpa [hts] using h'
    · exact h.append hts us
  induction h with
  | operand _ ih => exact ih
  | level _ _ ih ih' => exact happend ih ih'
  | stop => exact ends_nil
  | more ht => exact ends_cons ht (binarySymbol_notMem _)
  | sign ht => exact ends_cons ht (unarySymbol_notMem _)
  | plain _ ih => exact ih
  | power _ ht _ ih => exact happend ih (ends_cons ht (by decide))
  | number ht => exact ends_of_kind (by rw [ht]; decide)
  | path ht => exact ends_of_kind fun h => by simp [Token.isRoot, h] at ht
  | group hl => exact ends_cons hl (by decide)
  | callNone ht => exact ends_of_kind (by rw [ht]; decide)
  | call ht => exact ends_of_kind (by rw [ht]; decide)
  | last => exact ends_nil
  | next ht => exact ends_cons ht (by decide)

/-- A chain is empty or begins with one of its operators. -/
theorem Derives.head_chain {Z : List String} {ls : List (List BinaryOp)} {x : Expr}
    {ts : List Token} {e : Expr} {c : ℕ} (h : Derives Z (.chain ops ls x) ts e c) :
    ts = [] ∨ ∃ t us, ∃ op ∈ ops, ts = t :: us ∧ t.isSymbol op.symbol := by
  cases h with
  | stop => exact Or.inl rfl
  | more ht hop => exact Or.inr ⟨_, _, _, hop, rfl, ht⟩

/-- Further arguments are none or begin with a comma. -/
theorem Derives.head_arguments {Z : List String} {f : String} {xs : List Expr}
    {ts : List Token} {e : Expr} {c : ℕ} (h : Derives Z (.arguments f xs) ts e c) :
    ts = [] ∨ ∃ t us, ts = t :: us ∧ t.isSymbol "," := by
  cases h with
  | last => exact Or.inl rfl
  | next ht => exact Or.inr ⟨_, _, rfl, ht⟩

/-- A chain stops its operand. -/
theorem Derives.ends_operand {Z : List String} {ls : List (List BinaryOp)} {x : Expr}
    {ts : List Token} {e : Expr} {c : ℕ} (hls : (ops :: ls) <:+ levels)
    (h : Derives Z (.chain ops ls x) ts e c)
    (hrest : Ends (Phrase.chain ops ls x).extending rest) :
    Ends (Phrase.level ls).extending (ts ++ rest) := by
  rcases h.head_chain with rfl | ⟨t, us, op, hop, rfl, ht⟩
  · exact hrest.mono (extending_operand x)
  · exact ends_cons ht (symbol_notMem_extending hls hop)

/-- A comma and a parenthesis that closes stop an argument. -/
theorem Derives.ends_argument {Z : List String} {f : String} {xs : List Expr}
    {ts : List Token} {e : Expr} {c : ℕ} {r : Token} (h : Derives Z (.arguments f xs) ts e c)
    (hr : r.isSymbol ")") : Ends (Phrase.level levels).extending (ts ++ r :: rest) := by
  rcases h.head_arguments with rfl | ⟨t, us, rfl, ht⟩
  · exact ends_cons hr (by decide +kernel)
  · exact ends_cons ht (by decide +kernel)

/-- The parser of unary expressions reads the derivations of at most `n` tokens. -/
def ReadsUnary (input : Input) (q : Parser Expr) (n : ℕ) : Prop :=
  ∀ ts e c rest, Derives input.dialect.nullary .unary ts e c → ts.length ≤ n →
    Ends Phrase.unary.extending rest → Reads input q ts e c rest

/-- What the parser of a class does on a derivation of at most `n` tokens, over such a parser. -/
def ReadsPhrase (input : Input) (q : Parser Expr) (n : ℕ) (ts : List Token) (e : Expr) (c : ℕ) :
    Phrase → Prop
  | .level ls => ls <:+ levels → ts.length ≤ n → ∀ rest, Ends (Phrase.level ls).extending rest →
      Reads input (ls.foldr Parser.level q) ts e c rest
  | .chain ops ls x => (ops :: ls) <:+ levels → ts.length ≤ n → ∀ rest,
      Ends (Phrase.chain ops ls x).extending rest → ∀ k, ts.length ≤ k →
      Reads input (chain ops (ls.foldr Parser.level q) k x) ts e c rest
  | .unary => ts.length ≤ n → ∀ rest, Ends Phrase.unary.extending rest → Reads input q ts e c rest
  | .primary => ts.length ≤ n + 1 → ∀ rest, Ends Phrase.primary.extending rest →
      Reads input (primary q) ts e c rest
  | .arguments f xs => ts.length ≤ n → ∃ ys, e = .call f (xs ++ ys) ∧
      ∀ r rest, r.isSymbol ")" → ∀ k, ts.length ≤ k →
      Reads input (moreArguments (expressionOver q) k) ts ys c (r :: rest)

/-- **Every derivation is read** by the parser of its class. -/
theorem Derives.reads {n : ℕ} (hq : ReadsUnary input q n) {φ : Phrase} {ts : List Token} {e : Expr}
    {c : ℕ} (h : Derives input.dialect.nullary φ ts e c) : ReadsPhrase input q n ts e c φ := by
  induction h with
  | operand h ih => exact fun _ hn rest hrest => ih hn rest hrest
  | level h h' ih ih' =>
    intro hls hn rest hrest
    rw [List.length_append] at hn
    have hops := (List.suffix_cons _ _).trans hls
    refine reads_level (ih hops (by omega) _ (h'.ends_operand hls hrest)) fun k hk => ?_
    exact ih' hls (by omega) rest hrest k hk
  | stop =>
    intro _ _ rest hrest k _
    refine reads_chain_stop hrest fun op hop => ?_
    simp only [Phrase.extending, List.flatMap_cons, List.append_assoc]
    exact List.mem_append_left _ (List.mem_map_of_mem hop)
  | more ht hop h h' ih ih' =>
    intro hls hn rest hrest k hk
    rw [List.length_cons, List.length_append] at hn hk
    have hops := (List.suffix_cons _ _).trans hls
    obtain ⟨k, rfl⟩ : ∃ m, k = m + 1 := ⟨k - 1, by omega⟩
    refine reads_chain_more ht hop (ih hops (by omega) _ (h'.ends_operand hls hrest)) ?_
    exact ih' hls (by omega) rest hrest k (by omega)
  -- The three unary phrases are not read by a parser of this turn but by `q`, whole.
  | sign ht h => exact fun hn rest hrest => hq _ _ _ rest (.sign ht h) hn hrest
  | plain h => exact fun hn rest hrest => hq _ _ _ rest (.plain h) hn hrest
  | power h ht h' => exact fun hn rest hrest => hq _ _ _ rest (.power h ht h') hn hrest
  | number ht hx hf => exact fun _ rest _ => reads_number ht hx hf
  | path ht h => exact fun _ rest hrest => reads_path ht h hrest
  | group hl hr h ih =>
    intro hn rest _
    simp only [List.length_cons, List.length_append, List.length_nil] at hn
    refine reads_group hl hr (ih (List.suffix_refl _) (by omega) _ ?_)
    exact ends_cons hr (by decide +kernel)
  | callNone ht hl hr hz => exact fun _ rest _ => reads_callNone ht hl hr hz
  | call ht hl hr h h' ih ih' =>
    intro hn rest _
    simp only [List.length_cons, List.length_append, List.length_nil] at hn
    obtain ⟨ys, rfl, hys⟩ := ih' (by omega)
    refine reads_call ht hl hr ?_ (reads_arguments (ih (List.suffix_refl _) (by omega) _ ?_) ?_)
    · simpa only [List.append_assoc] using h.ends_closing.append h.ne_nil _
    · exact h'.ends_argument hr
    · exact hys _ rest hr
  | last =>
    intro _
    refine ⟨[], by simp, fun r rest hr k _ => ?_⟩
    refine reads_moreArguments_stop (ends_cons hr ?_) (List.mem_singleton_self ",")
    decide
  | @next f xs t ts us y e c d ht h h' ih ih' =>
    intro hn
    rw [List.length_cons, List.length_append] at hn
    obtain ⟨ys, rfl, hys⟩ := ih' (by omega)
    refine ⟨y :: ys, by simp, fun r rest hr k hk => ?_⟩
    rw [List.length_cons, List.length_append] at hk
    obtain ⟨k, rfl⟩ : ∃ m, k = m + 1 := ⟨k - 1, by omega⟩
    refine reads_moreArguments_next ht (ih (List.suffix_refl _) (by omega) _ ?_) ?_
    · exact h'.ends_argument hr
    · exact hys r rest hr k (by omega)

/-! ### The cycle -/

/-- **As many turns as tokens are enough**, whatever stands at the bottom. -/
theorem readsUnary_nested (stop : Parser Expr) : ∀ n, ReadsUnary input (nested stop n) n
  | 0 => by
    intro ts e c rest h hn _
    have h1 : 1 ≤ c := h.least_le
    have h2 : c + 0 ≤ ts.length := h.cost_le
    omega
  | n + 1 => by
    intro ts e c rest h hn hrest
    have ih := readsUnary_nested stop n
    have hprimary : Ends Phrase.primary.extending rest := hrest.mono (by decide)
    change Reads input (unaryLevel (nested stop n)) ts e c rest
    cases h with
    | sign ht h =>
      rw [List.length_cons] at hn
      exact reads_unaryLevel_sign ht (ih _ _ _ rest h (by omega) hrest)
    | plain h =>
      obtain ⟨t, us, rfl, ht⟩ := h.head_primary
      exact reads_unaryLevel_power ht
        (reads_power_plain hrest (by decide) (h.reads ih hn rest hprimary))
    | power h ht h' =>
      -- The base is a primary expression over the turn below, the exponent is read by that turn.
      rw [List.length_append, List.length_cons] at hn
      obtain ⟨u, vs, rfl, hu⟩ := h.head_primary
      refine reads_unaryLevel_power hu (reads_power ht (h.reads ih (by omega) _ ?_) ?_)
      · exact ends_cons ht (by decide)
      · exact ih _ _ _ rest h' (by omega) hrest

theorem readsUnary_unary (n : ℕ) : ReadsUnary input unary n := by
  intro ts e c rest h _ hrest
  have hlen : ts.length ≤ (ts ++ rest).length + 1 := by rw [List.length_append]; omega
  have hread := readsUnary_nested (expected .expression) _ ts e c rest h hlen hrest
  exact ⟨hread.within, hread.beyond⟩

/-- The parser of expressions reads the derivations of expressions. -/
theorem Derives.reads_expression {ts : List Token} {e : Expr} {c : ℕ}
    (h : Derives input.dialect.nullary (.level levels) ts e c)
    (hrest : Ends (Phrase.level levels).extending rest) : Reads input expression ts e c rest :=
  h.reads (readsUnary_unary ts.length) (List.suffix_refl _) le_rfl rest hrest

/-! ### Whole formulas -/

theorem reads_wholeExpression {ts : List Token} {e : Expr} {c : ℕ} (hne : input.tokens ≠ [])
    (h : Derives input.dialect.nullary (.level levels) ts e c) :
    Reads input wholeExpression ts e c [] := by
  refine Reads.look (a := ()) (fun d => ?_) ((h.reads_expression ends_nil).finish ?_)
  · simp [nonempty, hne]
  · exact Reads.look (a := ()) (fun d => rfl) (Reads.pure e)

/-- **The limit decides.** Tokens with a derivation form its tree if the limit is not below the cost,
and are nested too deeply if it is. -/
theorem Derives.ofTokens {Z : List String} {ts : List Token} {e : Expr} {c : ℕ}
    (h : Derives Z (.level levels) ts e c) (M : ℕ) :
    (c ≤ M → Expr.ofTokens ⟨M, Z⟩ ts = .ok e) ∧
      (M < c → ∃ pos, Expr.ofTokens ⟨M, Z⟩ ts = .error ⟨pos, .tooDeep M⟩) := by
  have hread : Reads ⟨ts, ⟨M, Z⟩⟩ wholeExpression ts e c [] := reads_wholeExpression h.ne_nil h
  exact hread.result

theorem reads_destination {t : Token} {ts : List Token} {names : List String} {ss : List String}
    (ht : t.isRoot) (h : Attributes ts names) (hrest : Ends ss rest) (hs : "." ∈ ss) :
    Reads input destination (t :: ts) (t.text :: names) 0 rest := by
  refine Reads.look (a := some t) (fun d => rfl) ?_
  simp only [ht, if_true]
  exact Reads.advance (reads_pathFrom h hrest hs)

/-- The limit decides in the same way on an assignment; its path costs nothing. -/
theorem Derives.ofTokens_assignment {Z : List String} {t r : Token} {ts us : List Token}
    {names : List String} {e : Expr} {c : ℕ} (ht : t.isRoot) (hattr : Attributes ts names)
    (hr : r.isSymbol "=") (h : Derives Z (.level levels) us e c) (M : ℕ) :
    (c ≤ M → Assignment.ofTokens ⟨M, Z⟩ (t :: ts ++ r :: us) = .ok ⟨t.text :: names, e⟩) ∧
      (M < c → ∃ pos, Assignment.ofTokens ⟨M, Z⟩ (t :: ts ++ r :: us) =
        .error ⟨pos, .tooDeep M⟩) := by
  have hends : Ends ["."] ([r] ++ us ++ []) := ends_cons hr (by decide)
  obtain ⟨u, us, rfl⟩ := List.exists_cons_of_ne_nil h.ne_nil
  have hread : Reads ⟨t :: ts ++ r :: u :: us, ⟨M, Z⟩⟩ wholeAssignment (t :: ts ++ r :: u :: us)
      ⟨t.text :: names, e⟩ c [] := by
    refine Reads.look (a := ()) (fun d => rfl) ?_
    refine Reads.after (reads_destination ht hattr hends (List.mem_singleton_self ".")) ?_
    refine Reads.after (reads_require hr) (Reads.look (a := ()) (fun d => rfl) ?_)
    exact (h.reads_expression ends_nil).finish (Reads.look (fun d => rfl) (Reads.pure _))
  exact hread.result

end Formula.Grammar
