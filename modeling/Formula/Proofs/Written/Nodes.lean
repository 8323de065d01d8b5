import Formula.Proofs.Written.Accepted

/-!
# The nodes of the trees that sources write

A tree can be put together by hand from anything. What comes out of a source is *proper* at every node
(`Expr.Proper`): a number is finite and has no sign, a path is a root without a bracket that closes it and
names behind that, a function has a name, and it is called without arguments only where the dialect
allows this. The place that an assignment writes to is such a path, too (`proper_of_source`).

This says of every subtree what the check `Expr.isWellFormed` computes on the whole tree
(`Expr.isWellFormed_iff`).
-/

namespace Formula

open Item

variable {Z : List String} {s f : String} {p : Path} {e : Expr} {args : List Expr}

/-! ### Names and paths -/

/-- **A name** begins with a letter or an underscore, so with no digit, and goes on with letters, numerals
and underscores. -/
structure IsName (s : String) : Prop where
  ne_empty : s ≠ ""
  begins : ∀ c ∈ s.toList.head?, isNameStart c = true ∧ c.isDigit = false
  goes_on : ∀ c ∈ s.toList, isNamePart c = true

theorem isIdentifier_iff : isIdentifier s = true ↔ IsName s := by
  have hempty : s = "" ↔ s.toList = [] := String.toList_eq_nil_iff.symm
  unfold isIdentifier
  cases hs : s.toList with
  | nil =>
    have hnot : ¬ IsName s := fun h => h.ne_empty (hempty.mpr hs)
    simp [hnot]
  | cons c cs =>
    simp only [Bool.and_eq_true, List.all_eq_true]
    constructor
    · rintro ⟨hc, hcs⟩
      refine ⟨fun h => ?_, fun d hd => ?_, fun d hd => ?_⟩
      · rw [hempty, hs] at h
        cases h
      · rw [hs] at hd
        cases hd
        exact ⟨hc, not_isDigit_of_isNameStart hc⟩
      · rw [hs] at hd
        rcases List.mem_cons.mp hd with rfl | hd
        · exact isNamePart_of_isNameStart hc
        · exact hcs d hd
    · intro h
      refine ⟨(h.begins c (by rw [hs]; rfl)).1, fun d hd => h.goes_on d ?_⟩
      rw [hs]
      exact List.mem_cons_of_mem c hd

/-- **A proper path** has a root, which no bracket ends early, and names behind it. -/
inductive Path.Proper : Path → Prop
  | intro {root : String} {names : List String} (hroot : ']' ∉ root.toList)
      (hnames : ∀ s ∈ names, IsName s) : Path.Proper (root :: names)

theorem Path.isWellFormed_iff : Path.isWellFormed p = true ↔ p.Proper := by
  cases p with
  | nil =>
    have hnot : ¬ Path.Proper [] := fun h => by cases h
    simp [Path.isWellFormed, hnot]
  | cons root names =>
    simp only [Path.isWellFormed, Bool.and_eq_true, Bool.not_eq_true', List.contains_eq_mem,
      decide_eq_false_iff_not, List.all_eq_true, isIdentifier_iff]
    constructor
    · rintro ⟨hroot, hnames⟩
      exact .intro hroot hnames
    · rintro ⟨hroot, hnames⟩
      exact ⟨hroot, hnames⟩

/-! ### Subtrees -/

mutual

/-- A tree and all trees in it, each before its own parts. -/
def Expr.subtrees : Expr → List Expr
  | .literal x => [.literal x]
  | .path p => [.path p]
  | .unary op x => .unary op x :: x.subtrees
  | .binary l op r => .binary l op r :: (l.subtrees ++ r.subtrees)
  | .call f args => .call f args :: Expr.subtreesAll args

/-- The trees of a list and all trees in them. -/
def Expr.subtreesAll : List Expr → List Expr
  | [] => []
  | x :: xs => x.subtrees ++ Expr.subtreesAll xs

end

/-- **A proper node**, whatever its operands and arguments are. -/
inductive Expr.Proper (Z : List String) : Expr → Prop
  | literal {x : Float} (hfinite : x.isFinite = true) (hsign : Decimal.isNegative x = false) :
      Expr.Proper Z (.literal x)
  | path {p : Path} (h : p.Proper) : Expr.Proper Z (.path p)
  | unary {op : UnaryOp} {x : Expr} : Expr.Proper Z (.unary op x)
  | binary {l : Expr} {op : BinaryOp} {r : Expr} : Expr.Proper Z (.binary l op r)
  | call {f : String} {args : List Expr} (hf : IsName f) (hargs : args = [] → f ∈ Z) :
      Expr.Proper Z (.call f args)

namespace Expr

theorem proper_literal_iff {x : Float} :
    Proper Z (.literal x) ↔ x.isFinite = true ∧ Decimal.isNegative x = false :=
  ⟨fun | .literal hfinite hsign => ⟨hfinite, hsign⟩, fun ⟨hfinite, hsign⟩ => .literal hfinite hsign⟩

theorem proper_path_iff : Proper Z (.path p) ↔ p.Proper :=
  ⟨fun | .path h => h, .path⟩

theorem proper_call_iff : Proper Z (.call f args) ↔ IsName f ∧ (args = [] → f ∈ Z) :=
  ⟨fun | .call hf hargs => ⟨hf, hargs⟩, fun ⟨hf, hargs⟩ => .call hf hargs⟩

mutual

/-- **A tree is well-formed if it is proper at every node.** -/
theorem isWellFormed_iff : ∀ e : Expr, e.isWellFormed Z = true ↔ ∀ x ∈ e.subtrees, x.Proper Z
  | .literal x => by
    simp [isWellFormed, subtrees, proper_literal_iff]
  | .path p => by
    simp [isWellFormed, subtrees, proper_path_iff, Path.isWellFormed_iff]
  | .unary op x => by
    rw [isWellFormed, subtrees, List.forall_mem_cons, x.isWellFormed_iff]
    exact ⟨fun h => ⟨.unary, h⟩, And.right⟩
  | .binary l op r => by
    rw [isWellFormed, subtrees, List.forall_mem_cons, List.forall_mem_append, Bool.and_eq_true,
      l.isWellFormed_iff, r.isWellFormed_iff]
    exact ⟨fun h => ⟨.binary, h⟩, And.right⟩
  | .call f args => by
    have hnone : (!args.isEmpty || Z.contains f) = true ↔ (args = [] → f ∈ Z) := by
      cases args <;> simp
    rw [isWellFormed, subtrees, List.forall_mem_cons, Bool.and_eq_true, Bool.and_eq_true,
      isIdentifier_iff, hnone, areWellFormed_iff args, proper_call_iff]

theorem areWellFormed_iff :
    ∀ es : List Expr, areWellFormed Z es = true ↔ ∀ x ∈ subtreesAll es, x.Proper Z
  | [] => by simp [areWellFormed, subtreesAll]
  | x :: xs => by
    rw [areWellFormed, subtreesAll, List.forall_mem_append, Bool.and_eq_true, x.isWellFormed_iff,
      areWellFormed_iff xs]

end

end Expr

/-! ### Sources -/

section Sources

variable {δ : Dialect} {source : String} {ts : List Token} {a : Assignment}

/-- The names that tokens of a source write are those of a proper path. -/
theorem Grammar.Names.proper (h : Names ts p) (hts : ∀ t ∈ ts, t.isLexed = true) : p.Proper := by
  obtain ⟨t, us, names, rfl, hroot, hattr, rfl⟩ := h
  obtain ⟨ht, hus⟩ := List.forall_mem_cons.mp hts
  rw [← Path.isWellFormed_iff, Path.isWellFormed, root_of_isLexed ht hroot,
    hattr.all_isIdentifier (List.all_eq_true.mpr hus)]
  rfl

theorem Expr.proper_of_ofTokens (hts : Token.ofSource source = .ok ts)
    (h : Expr.ofTokens δ ts = .ok e) : ∀ x ∈ e.subtrees, x.Proper δ.nullary :=
  e.isWellFormed_iff.mp (isWellFormed_of_ofSource hts (Grammar.forms_of_ofTokens h))

/-- The path of an assignment and its value are read from tokens of one source. -/
theorem Assignment.proper_of_ofTokens (hts : Token.ofSource source = .ok ts)
    (h : Assignment.ofTokens δ ts = .ok a) :
    a.destination.Proper ∧ ∀ x ∈ a.value.subtrees, x.Proper δ.nullary := by
  obtain ⟨us, t, vs, rfl, hnames, -, hforms⟩ := Grammar.assigns_of_ofTokens h
  have hlexed : ∀ u ∈ us ++ t :: vs, u.isLexed = true := fun _ hu => Token.isLexed_of_ofSource hts hu
  obtain ⟨hus, hvs⟩ := List.forall_mem_append.mp hlexed
  have hvalue : a.value.isWellFormed δ.nullary = true :=
    Grammar.Forms.isWellFormed hforms (List.forall_mem_cons.mp hvs).2
  exact ⟨hnames.proper hus, a.value.isWellFormed_iff.mp hvalue⟩

end Sources

/-- **What a source writes is proper throughout**: the tree of an expression, and both sides of an
assignment. -/
theorem proper_of_source (δ : Dialect) (source : String) :
    (∀ e, (Expr.ofSource δ source).result = .ok e → ∀ x ∈ e.subtrees, x.Proper δ.nullary) ∧
    ∀ a, (Assignment.ofSource δ source).result = .ok a →
      a.destination.Proper ∧ ∀ x ∈ a.value.subtrees, x.Proper δ.nullary := by
  refine ⟨fun e h => ?_, fun a h => ?_⟩
  · obtain ⟨ts, hts, he⟩ := Expr.ofSource_eq_ok_iff.mp h
    exact Expr.proper_of_ofTokens hts he
  · obtain ⟨ts, hts, ha⟩ := Assignment.ofSource_eq_ok_iff.mp h
    exact Assignment.proper_of_ofTokens hts ha

/-- In `f([a b].c, 2*-g())` there are a path, a number and a call without arguments; in `[a b].c=g()` there
is a path on the left. -/
theorem proper_of_source_call :
    let δ : Dialect := ⟨9, ["g"]⟩
    let e : Expr := .call "f" [.path ["a b", "c"],
      .binary (.literal 2) .multiply (.unary .negate (.call "g" []))]
    let a : Assignment := ⟨["a b", "c"], .call "g" []⟩
    (Expr.ofSource δ "f([a b].c, 2*-g())").result = .ok e ∧ (∀ x ∈ e.subtrees, x.Proper ["g"]) ∧
      (Assignment.ofSource δ "[a b].c=g()").result = .ok a ∧ a.destination.Proper := by
  intro δ e a
  have he : (Expr.ofSource δ "f([a b].c, 2*-g())").result = .ok e := by decide +kernel
  have ha : (Assignment.ofSource δ "[a b].c=g()").result = .ok a := by decide +kernel
  exact ⟨he, (proper_of_source δ _).1 e he, ha, ((proper_of_source δ _).2 a ha).1⟩

end Formula
