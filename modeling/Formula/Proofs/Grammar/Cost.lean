import Formula.Proofs.Grammar.Completeness

/-!
# What a derivation costs

The grammar extends a chain by one operator and a list of arguments by one argument at a time, and its
costs are those of these steps. Here the phrases are taken whole: a level is an operand and the links
behind it (`derives_level_iff`), a call is a name and its arguments (`derives_call_iff`). The `i`-th link
of a level costs `i` more than its operand, since the levels that the operators before it have opened are
still open; an argument costs what it costs alone.

The main statement, `limit_decides`, is that a limit accepts the derivations whose cost is within it and
refuses all others as nested too deeply.
-/

namespace Formula.Grammar

open Formula.Parser

variable {Z : List String} {ops : List BinaryOp} {ls : List (List BinaryOp)} {x e : Expr}
  {ts : List Token} {c d : ℕ}

/-- An expression with the token in front of it. -/
structure Part where
  /-- The token in front. -/
  sign : Token
  /-- The tokens of the expression. -/
  tokens : List Token
  /-- Its tree. -/
  tree : Expr
  /-- Its cost. -/
  cost : ℕ

/-- All tokens of a part. -/
def Part.written (p : Part) : List Token :=
  p.sign :: p.tokens

/-- The expression of the part is derived, over the given levels. -/
def Part.Derived (Z : List String) (ls : List (List BinaryOp)) (p : Part) : Prop :=
  Derives Z (.level ls) p.tokens p.tree p.cost

/-! ### Levels -/

/-- An operator and the operand behind it. -/
structure Link extends Part where
  /-- The operator that the token in front writes. -/
  op : BinaryOp

/-- The link may stand in a chain of the operators `ops` over the levels `ls`. -/
structure Link.Fits (Z : List String) (ops : List BinaryOp) (ls : List (List BinaryOp)) (l : Link) :
    Prop where
  isSymbol : l.sign.isSymbol l.op.symbol
  mem : l.op ∈ ops
  derived : l.Derived Z ls

/-- The tree behind a link, which groups to the left. -/
def Link.extend (x : Expr) (l : Link) : Expr :=
  .binary x l.op l.tree

/-- **The cost of links**, of which the first has the number `i`: the largest number and cost. -/
def Link.costFrom : ℕ → List Link → ℕ
  | _, [] => 0
  | i, l :: links => max (i + l.cost) (Link.costFrom (i + 1) links)

/-- One level more around all links costs one more. -/
theorem Link.max_costFrom_succ (links : List Link) : ∀ i k : ℕ,
    max (1 + k) (Link.costFrom (i + 1) links) = 1 + max k (Link.costFrom i links) := by
  induction links with
  | nil => simp [Link.costFrom]
  | cons l links ih =>
    intro i k
    have h := ih (i + 1) (max k (i + l.cost))
    simp only [Link.costFrom]
    omega

theorem derives_chain_iff : Derives Z (.chain ops ls x) ts e c ↔ ∃ links : List Link,
    (∀ l ∈ links, l.Fits Z ops ls) ∧ ts = links.flatMap (·.written) ∧
      e = links.foldl Link.extend x ∧ c = Link.costFrom 1 links := by
  constructor
  · intro h
    generalize hφ : Phrase.chain ops ls x = φ at h
    induction h generalizing x with
    | stop =>
      cases hφ
      exact ⟨[], by simp, rfl, rfl, rfl⟩
    | @more _ _ _ t op us _ y _ c _ ht hop hy _ _ ih =>
      cases hφ
      obtain ⟨links, hlinks, rfl, rfl, rfl⟩ := ih rfl
      refine ⟨⟨⟨t, us, y, c⟩, op⟩ :: links, ?_, rfl, rfl, ?_⟩
      · exact List.forall_mem_cons.mpr ⟨⟨ht, hop, hy⟩, hlinks⟩
      · exact (Link.max_costFrom_succ links 1 c).symm
    | _ => cases hφ
  · rintro ⟨links, hlinks, rfl, rfl, rfl⟩
    induction links generalizing x with
    | nil => exact .stop
    | cons l links ih =>
      obtain ⟨hl, hlinks⟩ := List.forall_mem_cons.mp hlinks
      have hmore := Derives.more hl.isSymbol hl.mem hl.derived (ih (x := l.extend x) hlinks)
      rwa [← Link.max_costFrom_succ] at hmore

/-- **A level is an operand and the links behind it.** -/
theorem derives_level_iff : Derives Z (.level (ops :: ls)) ts e c ↔
    ∃ us x c₀, ∃ links : List Link, Derives Z (.level ls) us x c₀ ∧
      (∀ l ∈ links, l.Fits Z ops ls) ∧ ts = us ++ links.flatMap (·.written) ∧
      e = links.foldl Link.extend x ∧ c = max c₀ (Link.costFrom 1 links) := by
  constructor
  · rintro (_ | ⟨hx, hchain⟩)
    obtain ⟨links, hlinks, rfl, rfl, rfl⟩ := derives_chain_iff.mp hchain
    exact ⟨_, _, _, links, hx, hlinks, rfl, rfl, rfl⟩
  · rintro ⟨us, x, c₀, links, hx, hlinks, rfl, rfl, rfl⟩
    exact .level hx (derives_chain_iff.mpr ⟨links, hlinks, rfl, rfl, rfl⟩)

/-! ### Calls -/

/-- The largest cost of the parts. -/
def Part.largestCost (parts : List Part) : ℕ :=
  parts.foldr (fun p c => max p.cost c) 0

theorem derives_arguments_iff {f : String} {xs : List Expr} :
    Derives Z (.arguments f xs) ts e c ↔ ∃ parts : List Part,
      (∀ p ∈ parts, p.sign.isSymbol "," ∧ p.Derived Z levels) ∧ ts = parts.flatMap (·.written) ∧
      e = .call f (xs ++ parts.map (·.tree)) ∧ c = Part.largestCost parts := by
  constructor
  · intro h
    generalize hφ : Phrase.arguments f xs = φ at h
    induction h generalizing xs with
    | last =>
      cases hφ
      exact ⟨[], by simp, rfl, by simp, rfl⟩
    | @next _ _ t us _ y _ c _ ht hy _ _ ih =>
      cases hφ
      obtain ⟨parts, hparts, rfl, rfl, rfl⟩ := ih rfl
      refine ⟨⟨t, us, y, c⟩ :: parts, ?_, rfl, by simp, rfl⟩
      exact List.forall_mem_cons.mpr ⟨⟨ht, hy⟩, hparts⟩
    | _ => cases hφ
  · rintro ⟨parts, hparts, rfl, rfl, rfl⟩
    induction parts generalizing xs with
    | nil =>
      rw [List.map_nil, List.append_nil]
      exact .last
    | cons p parts ih =>
      obtain ⟨⟨hsign, hp⟩, hparts⟩ := List.forall_mem_cons.mp hparts
      rw [List.map_cons, List.append_cons]
      exact .next hsign hp (ih hparts)

/-- **A call is a name and its arguments**, the first behind the parenthesis that opens and each
further one behind a comma. -/
theorem derives_call_iff {t l : Token} (ht : t.kind = .name) (hl : l.isSymbol "(") :
    Derives Z .primary (t :: l :: ts) e c ↔ ∃ r, r.isSymbol ")" ∧
      (ts = [r] ∧ t.text ∈ Z ∧ e = .call t.text [] ∧ c = 0 ∨
        ∃ us y c₀, ∃ parts : List Part, Derives Z (.level levels) us y c₀ ∧
          (∀ p ∈ parts, p.sign.isSymbol "," ∧ p.Derived Z levels) ∧
          ts = us ++ parts.flatMap (·.written) ++ [r] ∧
          e = .call t.text (y :: parts.map (·.tree)) ∧ c = max c₀ (Part.largestCost parts)) := by
  constructor
  · intro h
    generalize hlist : t :: l :: ts = list at h
    cases h with
    | number =>
      cases hlist
    | path _ hattr =>
      cases hlist
      cases hattr with
      | cons hp =>
        rw [Token.isSymbol_iff] at hl hp
        rw [hl.2] at hp
        exact absurd hp.2 (by decide)
    | group ht' =>
      obtain ⟨rfl, -⟩ := List.cons.inj hlist
      rw [Token.isSymbol_iff, ht] at ht'
      cases ht'.1
    | callNone _ _ hr hz =>
      cases hlist
      exact ⟨_, hr, .inl ⟨rfl, hz, rfl, rfl⟩⟩
    | call _ _ hr hy hmore =>
      cases hlist
      obtain ⟨parts, hparts, rfl, rfl, rfl⟩ := derives_arguments_iff.mp hmore
      exact ⟨_, hr, .inr ⟨_, _, _, parts, hy, hparts, rfl, rfl, rfl⟩⟩
  · rintro ⟨r, hr, ⟨rfl, hz, rfl, rfl⟩ | ⟨us, y, c₀, parts, hy, hparts, rfl, rfl, rfl⟩⟩
    · exact .callNone ht hl hr hz
    · exact .call ht hl hr hy (derives_arguments_iff.mpr ⟨parts, hparts, rfl, rfl, rfl⟩)

/-! ### The limit -/

/-- **The limit accepts the derivations whose cost is within it**, and refuses all others as nested too
deeply; the cost of a level counts its operators, that of a call is the largest of its arguments. -/
theorem limit_decides (Z : List String) :
    (∀ ts e c, Derives Z (.level levels) ts e c → ∀ m : ℕ,
      (c ≤ m → Expr.ofTokens ⟨m, Z⟩ ts = .ok e) ∧
      (m < c → ∃ pos, Expr.ofTokens ⟨m, Z⟩ ts = .error ⟨pos, .tooDeep m⟩)) ∧
    (∀ m : ℕ, (ParseFault.tooDeep m).message =
      "Expression nested too deeply (limit " ++ toString m ++ ")") ∧
    (∀ ops ls ts e c, Derives Z (.level (ops :: ls)) ts e c ↔
      ∃ us x c₀, ∃ links : List Link, Derives Z (.level ls) us x c₀ ∧
        (∀ l ∈ links, l.Fits Z ops ls) ∧ ts = us ++ links.flatMap (·.written) ∧
        e = links.foldl Link.extend x ∧ c = max c₀ (Link.costFrom 1 links)) ∧
    ∀ t l ts e c, t.kind = .name → l.isSymbol "(" →
      (Derives Z .primary (t :: l :: ts) e c ↔ ∃ r, r.isSymbol ")" ∧
        (ts = [r] ∧ t.text ∈ Z ∧ e = .call t.text [] ∧ c = 0 ∨
          ∃ us y c₀, ∃ parts : List Part, Derives Z (.level levels) us y c₀ ∧
            (∀ p ∈ parts, p.sign.isSymbol "," ∧ p.Derived Z levels) ∧
            ts = us ++ parts.flatMap (·.written) ++ [r] ∧
            e = .call t.text (y :: parts.map (·.tree)) ∧
            c = max c₀ (Part.largestCost parts))) := by
  refine ⟨fun ts e c h m => h.ofTokens m, fun m => rfl, ?_, ?_⟩
  · exact fun ops ls ts e c => derives_level_iff
  · exact fun t l ts e c ht hl => derives_call_iff ht hl

/-- The tokens of `a+b^-c+d`, which cost four: the sign is the third level in the operand behind the
first operator. -/
theorem limit_decides_signed_exponent :
    let ts : List Token := [⟨.name, "a", 0⟩, ⟨.symbol, "+", 1⟩, ⟨.name, "b", 2⟩, ⟨.symbol, "^", 3⟩,
      ⟨.symbol, "-", 4⟩, ⟨.name, "c", 5⟩, ⟨.symbol, "+", 6⟩, ⟨.name, "d", 7⟩]
    let e : Expr := .binary (.binary (.path ["a"]) .add
      (.binary (.path ["b"]) .power (.unary .negate (.path ["c"])))) .add (.path ["d"])
    Derives [] (.level levels) ts e 4 ∧ Expr.ofTokens ⟨4, []⟩ ts = .ok e ∧
      ∃ pos, Expr.ofTokens ⟨3, []⟩ ts = .error ⟨pos, .tooDeep 3⟩ := by
  intro ts e
  have hpath : ∀ name pos, Derives [] .primary [⟨.name, name, pos⟩] (.path [name]) 0 :=
    fun name pos => .path rfl .nil
  have hplus : ∀ pos, Token.isSymbol ⟨.symbol, "+", pos⟩ (BinaryOp.symbol .add) = true :=
    fun pos => rfl
  have hminus : Token.isSymbol ⟨.symbol, "-", 4⟩ (UnaryOp.symbol .negate) = true := rfl
  have hpower : Derives [] .unary [⟨.name, "b", 2⟩, ⟨.symbol, "^", 3⟩, ⟨.symbol, "-", 4⟩,
      ⟨.name, "c", 5⟩] (.binary (.path ["b"]) .power (.unary .negate (.path ["c"]))) 3 :=
    .power (hpath "b" 2) (by decide) (.sign hminus (.plain (hpath "c" 5)))
  have hsum : Derives [] (.level ([.add, .subtract] :: [[.multiply, .divide]])) ts e 4 :=
    .level ((hpath "a" 0).level_of_primary _) <|
      .more (hplus 1) (by decide) (hpower.level_of_unary _) <|
        .more (hplus 6) (by decide) ((hpath "d" 7).level_of_primary _) .stop
  have h : Derives [] (.level levels) ts e 4 :=
    hsum.level_append [[.or], [.and], [.equal, .notEqual],
      [.less, .lessEqual, .greater, .greaterEqual]]
  have hlimit := (limit_decides []).1 ts e 4 h
  exact ⟨h, (hlimit 4).1 le_rfl, (hlimit 3).2 (by decide)⟩

end Formula.Grammar
