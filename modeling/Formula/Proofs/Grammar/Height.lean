import Formula.Proofs.Grammar.Completeness
import Formula.Proofs.Grammar.Soundness
import Mathlib.Tactic.Ring

/-!
# How high a tree may be under a limit

The *height* of a tree is the number of nodes on its longest path from the root. The cost of a
derivation does not bound it: an operator of a chain pays for the operands behind it, and the tree in
front of it, which it puts one step deeper too, was paid for before.

What a limit does bound is given by `tallest`: a unary expression of cost `n + 1` is at most `tallest n`
high, and each level over it adds at most `n`, one for each operator that its chain may have. The sum
is a square, `height_le_of_ofTokens`.
-/

namespace Formula

mutual

/-- The number of nodes on the longest path from the root. -/
def Expr.height : Expr → ℕ
  | .literal _ => 1
  | .path _ => 1
  | .unary _ x => 1 + x.height
  | .binary l _ r => 1 + max l.height r.height
  | .call _ args => 1 + Expr.heightAll args

/-- The greatest height in a list of expressions. -/
def Expr.heightAll : List Expr → ℕ
  | [] => 0
  | x :: xs => max x.height (Expr.heightAll xs)

end

theorem Expr.heightAll_append (xs ys : List Expr) :
    Expr.heightAll (xs ++ ys) = max (Expr.heightAll xs) (Expr.heightAll ys) := by
  induction xs with
  | nil => rw [List.nil_append, Expr.heightAll]; omega
  | cons x xs ih => rw [List.cons_append, Expr.heightAll, Expr.heightAll, ih, max_assoc]

namespace Grammar

open Formula.Parser (levels)

variable {Z : List String} {ts : List Token} {e : Expr}

/-! ### The bound -/

/-- The greatest height of a unary expression of cost `n + 1`: a leaf, or a power of a call with an
expression of cost `n` as its argument. -/
def tallest : ℕ → ℕ
  | 0 => 1
  | n + 1 => 2 + (tallest n + 6 * n)

theorem levels_length : levels.length = 6 := rfl

theorem tallest_le_succ (n : ℕ) : tallest n ≤ tallest (n + 1) := by
  rw [tallest]
  omega

theorem tallest_closed (n : ℕ) : tallest n + n = 3 * n ^ 2 + 1 := by
  induction n with
  | zero => rfl
  | succ n ih =>
    rw [tallest]
    have hsq : (n + 1) ^ 2 = n ^ 2 + 2 * n + 1 := by ring
    omega

/-- How high the tree of a phrase may be that costs at most `n + 1`. A primary expression is only ever
read behind one level more. -/
def Phrase.bound (n : ℕ) : Phrase → ℕ
  | .level ls => tallest n + ls.length * n
  | .chain _ ls x => max x.height (tallest n + ls.length * n) + n
  | .unary => tallest n
  | .primary => 1 + (tallest n + 6 * n)
  | .arguments _ xs => 1 + max (Expr.heightAll xs) (tallest n + 6 * n)

/-- Without further levels a primary expression is a leaf. -/
theorem Derives.height_of_primary_zero (h : Derives Z .primary ts e 0) : e.height = 1 := by
  have hlevel : ∀ {us x c}, Derives Z (.level levels) us x c → 1 ≤ c := fun h => h.least_le
  generalize hc : (0 : ℕ) = c at h
  cases h with
  | number => rfl
  | path => rfl
  | group _ _ h =>
    have := hlevel h
    omega
  | callNone => rfl
  | call _ _ _ h _ =>
    have := hlevel h
    omega

/-- A primary expression that stands alone is read behind the level of its unary expression. -/
theorem Derives.height_le_tallest {c n : ℕ} (h : Derives Z .primary ts e c) (hc : c ≤ n)
    (hbound : ∀ k, c ≤ k + 1 → e.height ≤ Phrase.primary.bound k) : e.height ≤ tallest n := by
  cases n with
  | zero =>
    obtain rfl : c = 0 := by omega
    exact h.height_of_primary_zero.le
  | succ n =>
    have hle := hbound n hc
    simp only [Phrase.bound] at hle
    rw [tallest]
    omega

/-- **Every phrase keeps to its bound.** -/
theorem Derives.height_le {φ : Phrase} {c : ℕ} (h : Derives Z φ ts e c) :
    ∀ n, c ≤ n + 1 → e.height ≤ φ.bound n := by
  induction h with
  | operand _ ih =>
    intro n hn
    have hle := ih n hn
    simp only [Phrase.bound] at hle ⊢
    omega
  | @level ops ls ts us x e c d _ _ ih ih' =>
    intro n hn
    have hx := ih n (by omega)
    have he := ih' n (by omega)
    simp only [Phrase.bound] at hx he ⊢
    have hmul : (ops :: ls).length * n = ls.length * n + n := by
      rw [List.length_cons, Nat.succ_mul]
    omega
  | stop =>
    intro n _
    simp only [Phrase.bound]
    omega
  | @more ops ls x t op ts us y e c d _ _ h _ ih ih' =>
    intro n hn
    have hc : 1 ≤ c := h.least_le
    obtain ⟨k, rfl⟩ : ∃ k, n = k + 1 := ⟨n - 1, by omega⟩
    -- The operand has all levels; what follows it has one less, but begins one node higher.
    have hy := ih (k + 1) (by omega)
    have he := ih' k (by omega)
    have hbinary : (Expr.binary x op y).height = 1 + max x.height y.height := rfl
    have htall := tallest_le_succ k
    have hmul : ls.length * k ≤ ls.length * (k + 1) := Nat.mul_le_mul_left _ (Nat.le_succ k)
    simp only [Phrase.bound] at hy he ⊢
    omega
  | @sign t op ts e c _ h ih =>
    intro n hn
    have hc : 1 ≤ c := h.least_le
    obtain ⟨k, rfl⟩ : ∃ k, n = k + 1 := ⟨n - 1, by omega⟩
    have he := ih k (by omega)
    have hunary : (Expr.unary op e).height = 1 + e.height := rfl
    simp only [Phrase.bound] at he ⊢
    rw [tallest]
    omega
  | plain h ih =>
    intro n hn
    exact h.height_le_tallest (by omega) ih
  | @power ts t us b e c d h _ h' ih ih' =>
    intro n hn
    have hd : 1 ≤ d := h'.least_le
    obtain ⟨k, rfl⟩ : ∃ k, n = k + 1 := ⟨n - 1, by omega⟩
    have hb := ih k (by omega)
    have he := ih' k (by omega)
    have hbinary : (Expr.binary b .power e).height = 1 + max b.height e.height := rfl
    simp only [Phrase.bound] at hb he ⊢
    rw [tallest]
    omega
  | number =>
    intro n _
    exact Nat.le_add_right 1 _
  | path =>
    intro n _
    exact Nat.le_add_right 1 _
  | group _ _ _ ih =>
    intro n hn
    have hle := ih n hn
    simp only [Phrase.bound, levels_length] at hle ⊢
    omega
  | callNone =>
    intro n _
    exact Nat.le_add_right 1 _
  | call _ _ _ _ _ ih ih' =>
    intro n hn
    have hx := ih n (by omega)
    have he := ih' n (by omega)
    simp only [Phrase.bound, Expr.heightAll] at he
    simp only [Phrase.bound, levels_length] at hx ⊢
    omega
  | last =>
    intro n _
    have hcall : ∀ f xs, (Expr.call f xs).height = 1 + Expr.heightAll xs := fun _ _ => rfl
    rw [hcall]
    simp only [Phrase.bound]
    omega
  | next _ _ _ ih ih' =>
    intro n hn
    have hy := ih n (by omega)
    have he := ih' n (by omega)
    simp only [Phrase.bound, levels_length] at hy he ⊢
    rw [Expr.heightAll_append, Expr.heightAll, Expr.heightAll] at he
    omega

/-- **The height under a limit.** A tree that is accepted under the limit `m` is at most
`3 * m ^ 2 - m - 1` high. -/
theorem height_le_of_ofTokens {m : ℕ} (h : Expr.ofTokens ⟨m, Z⟩ ts = .ok e) :
    e.height + m + 1 ≤ 3 * m ^ 2 := by
  obtain ⟨c, hcm, hc⟩ := derives_of_ofTokens h
  have hleast : 1 ≤ c := hc.least_le
  obtain ⟨n, rfl⟩ : ∃ n, m = n + 1 := ⟨m - 1, by omega⟩
  have hle := hc.height_le n hcm
  have hclosed := tallest_closed n
  have hsq : (n + 1) ^ 2 = n ^ 2 + 2 * n + 1 := by ring
  simp only [Phrase.bound, levels_length] at hle
  omega

end Grammar

end Formula
