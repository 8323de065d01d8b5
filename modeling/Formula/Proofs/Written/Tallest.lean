import Formula.Proofs.Grammar.Height
import Formula.Proofs.Written.Accepted

/-!
# The highest trees

The bound on the height under a limit is attained by sources. `towerText n` costs `n + 1` levels: around
a call with the tower of `n - 1` as its argument stands a power, and behind it, on each of the six levels
of operators, a chain of `n` operators. Each of the chains begins anew with all levels at its disposal,
but puts the tree that was read before it `n` steps deeper.

So the highest tree under the limit `m` has `3 * m ^ 2 - m - 1` nodes on a path, and the limit bounds the
height of the trees that it lets pass only where it lets no operators pass (`height_le_limit_iff`).
-/

namespace Formula

open Grammar Item
open Formula.Parser (levels)

variable {p k m : ℕ} {rest text : List Char} {x : Expr}

/-! ### Chains and towers -/

/-- The path `x`. -/
def leaf : Expr := .path ["x"]

/-- The chain of `k` operators `op` behind a tree. -/
def chainTree (op : BinaryOp) : ℕ → Expr → Expr
  | 0, x => x
  | k + 1, x => chainTree op k (.binary x op leaf)

/-- An operator and a leaf behind it. -/
def operandText (op : BinaryOp) : List Char :=
  [' '] ++ (op.symbol.toList ++ ([' '] ++ "x".toList))

/-- The text of `k` operators and operands. -/
def chainText (op : BinaryOp) : ℕ → List Char
  | 0 => []
  | k + 1 => operandText op ++ chainText op k

/-- A chain of `k` operators on each of the levels, the tightest first. -/
def raiseTree (k : ℕ) (x : Expr) : List (List BinaryOp) → Expr
  | [] => x
  | ops :: ls => chainTree (ops.headD .or) k (raiseTree k x ls)

/-- The text of a tree with a chain on each of the levels. -/
def raiseText (k : ℕ) (text : List Char) : List (List BinaryOp) → List Char
  | [] => text
  | ops :: ls => raiseText k text ls ++ chainText (ops.headD .or) k

/-- The tower of `n` calls. -/
def towerTree : ℕ → Expr
  | 0 => leaf
  | n + 1 => raiseTree (n + 1) (.binary (.call "f" [towerTree n]) .power leaf) levels

/-- The text of the tower of `n` calls. -/
def towerText : ℕ → List Char
  | 0 => "x".toList
  | n + 1 => raiseText (n + 1) ("f".toList ++ (['('] ++ (towerText n ++ ([')'] ++
      operandText .power)))) levels

/-! ### Heights -/

theorem height_chainTree (op : BinaryOp) (k : ℕ) (x : Expr) (hx : 0 < x.height) :
    (chainTree op k x).height = x.height + k := by
  induction k generalizing x with
  | zero => rfl
  | succ k ih =>
    have hbinary : (Expr.binary x op leaf).height = 1 + max x.height 1 := rfl
    rw [chainTree, ih _ (by omega), hbinary]
    omega

theorem height_raiseTree (k : ℕ) (x : Expr) (hx : 0 < x.height) (ls : List (List BinaryOp)) :
    (raiseTree k x ls).height = x.height + ls.length * k := by
  induction ls with
  | nil => rw [raiseTree, List.length_nil, Nat.zero_mul, Nat.add_zero]
  | cons ops ls ih =>
    rw [raiseTree, height_chainTree _ _ _ (by omega), ih, List.length_cons, Nat.succ_mul]
    omega

theorem height_towerTree (n : ℕ) : (towerTree n).height = tallest n + 6 * n := by
  induction n with
  | zero => rfl
  | succ n ih =>
    have hpower : (Expr.binary (.call "f" [towerTree n]) .power leaf).height =
        1 + max (1 + max (towerTree n).height 0) 1 := rfl
    rw [towerTree, height_raiseTree _ _ (by omega), hpower, ih, levels_length, tallest]
    omega

/-! ### Costs -/

/-- The text spells the tree within `m` levels, before whatever a written form may stand. -/
def Reaches (ls : List (List BinaryOp)) (text : List Char) (x : Expr) (m : ℕ) : Prop :=
  ∀ p rest, Closes rest → ∃ ts c, Spells p text ts rest ∧ Derives [] (.level ls) ts x c ∧ c ≤ m

theorem spells_leaf (hrest : Closes rest) : Spells p "x".toList [⟨.name, "x", p⟩] rest :=
  spells_name (by decide +kernel) hrest.not_isNamePart

theorem derives_leaf (p : ℕ) : Derives [] .primary [⟨.name, "x", p⟩] leaf 0 :=
  .path rfl .nil

theorem spells_operandText (op : BinaryOp) (p : ℕ) (hrest : Closes rest) :
    ∃ t u, Spells p (operandText op) [t, u] rest ∧ t.isSymbol op.symbol ∧
      Derives [] .primary [u] leaf 0 := by
  have hoperand := (spells_space (p + bytes [' '] + bytes op.symbol.toList) _).append
    (spells_leaf hrest)
  have hspells := (spells_space p _).append
    ((spells_binarySymbol op (blank_ends_symbol _)).append hoperand)
  exact ⟨_, _, hspells, isSymbol_mk _ _, derives_leaf _⟩

theorem closes_chainText (op : BinaryOp) (k : ℕ) (hrest : Closes rest) :
    Closes (chainText op k ++ rest) := by
  cases k with
  | zero => exact hrest
  | succ k => exact closes_cons (Or.inl rfl)

/-- A chain costs one level for each operator, and one for its last operand. -/
theorem spells_chainText {op : BinaryOp} {ops : List BinaryOp} {ls : List (List BinaryOp)}
    (hop : op ∈ ops) (k : ℕ) (x : Expr) (p : ℕ) (hrest : Closes rest) :
    ∃ ts c, Spells p (chainText op k) ts rest ∧
      Derives [] (.chain ops ls x) ts (chainTree op k x) c ∧ c ≤ k + 1 := by
  induction k generalizing x p with
  | zero => exact ⟨[], 0, Spells.nil, .stop, Nat.zero_le _⟩
  | succ k ih =>
    obtain ⟨ts, c, hts, hderives, hc⟩ := ih (.binary x op leaf) (p + bytes (operandText op))
    obtain ⟨t, u, htu, ht, hu⟩ := spells_operandText op p (closes_chainText op k hrest)
    have hmore := Derives.more ht hop (hu.level_of_primary ls) hderives
    exact ⟨_, _, htu.append hts, hmore, by omega⟩

theorem reaches_raiseText {ls : List (List BinaryOp)} (hx : Reaches [] text x m) (hk : k + 1 ≤ m)
    (hls : ∀ ops ∈ ls, ops ≠ []) : Reaches ls (raiseText k text ls) (raiseTree k x ls) m := by
  induction ls with
  | nil => exact hx
  | cons ops ls ih =>
    intro p rest hrest
    have hop : ops.headD .or ∈ ops := by
      obtain ⟨op, ops', rfl⟩ := List.exists_cons_of_ne_nil (hls ops List.mem_cons_self)
      exact List.mem_cons_self
    -- The chain stands last, so its text is spelled before that of the tighter levels.
    obtain ⟨us, d, hus, hderives', hd⟩ := spells_chainText hop k (raiseTree k x ls)
      (p + bytes (raiseText k text ls)) hrest
    obtain ⟨ts, c, hts, hderives, hc⟩ := ih (fun ops h => hls ops (List.mem_cons_of_mem _ h)) p _
      (closes_chainText _ k hrest)
    exact ⟨_, max c d, hts.append hus, .level hderives hderives', by omega⟩

/-- **A tower of `n` calls costs `n + 1` levels.** -/
theorem reaches_towerText (n : ℕ) : Reaches levels (towerText n) (towerTree n) (n + 1) := by
  induction n with
  | zero =>
    intro p rest hrest
    exact ⟨_, 1, spells_leaf hrest, (derives_leaf p).level_of_primary levels, Nat.le_refl 1⟩
  | succ n ih =>
    refine reaches_raiseText ?_ (Nat.le_refl _) (by decide)
    intro p rest hrest
    obtain ⟨ts, c, hts, hderives, hc⟩ := ih (p + bytes "f".toList + bytes ['('])
      ([')'] ++ operandText .power ++ rest) (closes_cons (Or.inr (Or.inl rfl)))
    obtain ⟨t, u, htu, ht, hu⟩ := spells_operandText .power (p + bytes "f".toList + bytes ['('] +
      bytes (towerText n) + bytes [')']) hrest
    have hargs := (spells_opening (p + bytes "f".toList) _).append
      (hts.append ((spells_closing _ _).append htu))
    have hspells := (spells_name (by decide +kernel) (opening_ends_name _)).append hargs
    have hcall : Derives [] .primary (⟨.name, "f", p⟩ :: ⟨.symbol, "(", p + bytes "f".toList⟩ ::
        (ts ++ [] ++ [⟨.symbol, ")", p + bytes "f".toList + bytes ['('] + bytes (towerText n)⟩]))
        (.call "f" [towerTree n]) (max c 0) :=
      .call rfl (isSymbol_mk _ _) (isSymbol_mk _ _) hderives .last
    have hpower := Derives.power hcall ht (.plain hu)
    rw [List.append_nil, List.cons_append, List.cons_append, List.append_assoc] at hpower
    exact ⟨_, _, hspells, .operand hpower, by omega⟩

/-! ### The bound is attained -/

/-- A tower is accepted under the limit that its text was made for. -/
theorem ofSource_tower (n : ℕ) :
    (Expr.ofSource ⟨n + 1, []⟩ (String.ofList (towerText n))).result = .ok (towerTree n) := by
  obtain ⟨ts, c, hts, hderives, hc⟩ := reaches_towerText n 0 [] closes_nil
  rw [← String.toList_ofList (l := towerText n)] at hts
  rw [Expr.ofSource_result hts.ofSource, (hderives.ofTokens (n + 1)).1 hc]
  rfl

/-- **The highest trees.** Under the limit `m` no tree is higher than `3 * m ^ 2 - m - 1`, some source
writes a tree of this height, and so the limit itself bounds the heights only if it is at most one. -/
theorem height_le_limit_iff (m : ℕ) :
    (∀ Z ts e, Expr.ofTokens ⟨m, Z⟩ ts = .ok e → e.height + m + 1 ≤ 3 * m ^ 2) ∧
      (1 ≤ m → ∃ source e, (Expr.ofSource ⟨m, []⟩ source).result = .ok e ∧
        e.height + m + 1 = 3 * m ^ 2) ∧
      ((∀ Z source e, (Expr.ofSource ⟨m, Z⟩ source).result = .ok e → e.height ≤ m) ↔ m ≤ 1) := by
  have hbound : ∀ Z ts e, Expr.ofTokens ⟨m, Z⟩ ts = .ok e → e.height + m + 1 ≤ 3 * m ^ 2 :=
    fun _ _ _ h => height_le_of_ofTokens h
  have htower : 1 ≤ m → ∃ source e, (Expr.ofSource ⟨m, []⟩ source).result = .ok e ∧
      e.height + m + 1 = 3 * m ^ 2 := by
    intro hm
    obtain ⟨n, rfl⟩ : ∃ n, m = n + 1 := ⟨m - 1, by omega⟩
    refine ⟨_, _, ofSource_tower n, ?_⟩
    have hclosed := tallest_closed n
    have hsq : (n + 1) ^ 2 = n ^ 2 + 2 * n + 1 := by ring
    rw [height_towerTree]
    omega
  refine ⟨hbound, htower, fun h => ?_, fun hm Z source e h => ?_⟩
  · by_contra hm
    obtain ⟨source, e, hsource, hheight⟩ := htower (by omega)
    have hle := h [] source e hsource
    have hsq : 2 * m ≤ m ^ 2 := by
      rw [Nat.pow_two]
      exact Nat.mul_le_mul_right m (by omega)
    omega
  · obtain ⟨ts, -, hofTokens⟩ := Expr.ofSource_eq_ok_iff.mp h
    have hle := hbound Z ts e hofTokens
    rcases Nat.le_one_iff_eq_zero_or_eq_one.mp hm with rfl | rfl
    · omega
    · omega

/-- Under the limit two some source writes a tree of nine nodes on a path. -/
theorem height_le_limit_iff_two :
    ∃ source e, (Expr.ofSource ⟨2, []⟩ source).result = .ok e ∧ e.height = 9 := by
  obtain ⟨source, e, hsource, hheight⟩ := (height_le_limit_iff 2).2.1 (by decide)
  exact ⟨source, e, hsource, by omega⟩

/-- The product of `-1` and `1` is three nodes high under the limit two. -/
theorem height_negated_product :
    let e : Expr := .binary (.unary .negate (.literal Decimal.one)) .multiply (.literal Decimal.one)
    (Expr.ofSource ⟨2, []⟩ "-1*1").result = .ok e ∧ ¬ e.height ≤ 2 := by
  decide +kernel

end Formula
