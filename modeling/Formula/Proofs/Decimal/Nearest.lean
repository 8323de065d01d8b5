import Formula.Decimal.Shortest
import Formula.Proofs.Decimal.Bits

/-!
# The nearest double of a quotient

`nearest a b` depends on the quotient of `a` and `b` only (`nearest_mul_right`), and a quotient that is a
double is its own nearest one (`nearest_units`): a whole number of units of `2⁻¹⁰⁷⁴` below `2⁵³` is its
own number, and beyond that the step is read off the number of binary digits.

For decimals this means that digits and exponent may be exchanged for each other: a factor of ten moves
from the coefficient into the exponent without effect (`Scaled.nearest_ten`).
-/

namespace Formula.Decimal

variable {a b k : ℕ}

/-! ### Quotients -/

theorem roundHalfEven_mul_right (hk : 0 < k) :
    roundHalfEven (a * k) (b * k) = roundHalfEven a b := by
  have hdiv : a * k / (b * k) = a / b := Nat.mul_div_mul_right a b hk
  have hmod : a * k % (b * k) = a % b * k := Nat.mul_mod_mul_right k a b
  have hdouble : 2 * (a % b * k) = 2 * (a % b) * k := (Nat.mul_assoc 2 _ k).symm
  have hlt : 2 * (a % b) * k < b * k ↔ 2 * (a % b) < b := Nat.mul_lt_mul_right hk
  have heq : 2 * (a % b) * k = b * k ↔ 2 * (a % b) = b := Nat.mul_right_cancel_iff hk
  unfold roundHalfEven
  simp only [hdiv, hmod, hdouble, hlt, heq]

/-- A whole quotient is not rounded. -/
theorem roundHalfEven_mul_self (hb : 0 < b) (q : ℕ) : roundHalfEven (q * b) b = q := by
  have hdiv : q * b / b = q := Nat.mul_div_cancel q hb
  have hmod : q * b % b = 0 := Nat.mul_mod_left q b
  unfold roundHalfEven
  simp only [hdiv, hmod, Nat.mul_zero]
  rw [if_pos (Or.inl hb)]

/-- **Only the quotient counts.** -/
theorem nearest_mul_right (hk : 0 < k) : nearest (a * k) (b * k) = nearest a b := by
  have hunits : a * k * unitsPerOne = a * unitsPerOne * k := Nat.mul_right_comm a k unitsPerOne
  have hdiv : a * unitsPerOne * k / (b * k) = a * unitsPerOne / b := Nat.mul_div_mul_right _ b hk
  have hstep : ∀ m, b * k * Nat.pow 2 m = b * Nat.pow 2 m * k :=
    fun m => Nat.mul_right_comm b k (Nat.pow 2 m)
  unfold nearest
  simp only [hunits, hdiv, hstep, roundHalfEven_mul_right hk]

theorem nearest_zero (b : ℕ) : nearest 0 b = 0 := by
  unfold nearest roundHalfEven
  simp only [Nat.zero_mul, Nat.zero_div, Nat.zero_mod, Nat.mul_zero]
  have hlog : Nat.log2 0 - 52 = 0 := by decide
  rw [hlog, Nat.zero_mul, Nat.zero_add]
  by_cases hb : b * Nat.pow 2 0 = 0
  · rw [if_pos (Or.inr ⟨hb.symm, trivial⟩), Nat.zero_min]
  · rw [if_pos (Or.inl (Nat.pos_of_ne_zero hb)), Nat.zero_min]

theorem nearest_le (a b : ℕ) : nearest a b ≤ infinityBits :=
  Nat.min_le_right _ _

/-! ### Doubles -/

theorem natPow_pos {n : ℕ} (hn : 0 < n) (m : ℕ) : 0 < Nat.pow n m := Nat.pow_pos hn

theorem unitsPerOne_pos : 0 < unitsPerOne := by
  unfold unitsPerOne
  generalize 1074 = n
  exact natPow_pos Nat.two_pos n

/-- The step of a magnitude, as an exponent of two, is what its number of binary digits says. -/
theorem log2_units {bits : ℕ} (h : 2 * binade ≤ bits) :
    Nat.log2 (units bits) - 52 = bits / binade - 1 := by
  have hbinade : binade = 2 ^ 52 := rfl
  obtain ⟨q, hq⟩ : ∃ q, bits / binade = q + 2 := by
    have hle : 2 ≤ bits / binade := (Nat.le_div_iff_mul_le (by decide)).mpr h
    exact ⟨bits / binade - 2, by omega⟩
  have hmod : bits % binade < binade := Nat.mod_lt _ (by decide)
  have hunits : units bits = (binade + bits % binade) * 2 ^ (q + 1) := by
    unfold units
    rw [if_neg (by omega), hq]
    rfl
  have hlow : 2 ^ (52 + (q + 1)) ≤ units bits := by
    rw [hunits, Nat.pow_add]
    exact Nat.mul_le_mul_right _ (by omega)
  have hhigh : units bits < 2 ^ (52 + (q + 1) + 1) := by
    have hpow : 2 ^ (52 + (q + 1) + 1) = 2 ^ 53 * 2 ^ (q + 1) := by
      rw [← Nat.pow_add]
      congr 1
      omega
    rw [hunits, hpow]
    exact Nat.mul_lt_mul_of_pos_right (by omega) (Nat.two_pow_pos _)
  have hpos : units bits ≠ 0 := Nat.ne_of_gt (Nat.lt_of_lt_of_le (Nat.two_pow_pos _) hlow)
  rw [(Nat.log2_eq_iff hpos).mpr ⟨hlow, hhigh⟩, hq]
  omega

/-- **A double is nearest to itself.** -/
theorem nearest_units {bits : ℕ} (h : bits < infinityBits) :
    nearest (units bits) unitsPerOne = bits := by
  have hbinade : binade = 2 ^ 52 := rfl
  have hone : 0 < unitsPerOne := unitsPerOne_pos
  have hdiv : units bits * unitsPerOne / unitsPerOne = units bits := Nat.mul_div_cancel _ hone
  have hround : ∀ m, roundHalfEven (units bits * unitsPerOne) (unitsPerOne * Nat.pow 2 m) =
      roundHalfEven (units bits) (Nat.pow 2 m) := by
    intro m
    rw [Nat.mul_comm unitsPerOne, roundHalfEven_mul_right hone]
  unfold nearest
  simp only [hdiv, hround]
  by_cases hsmall : bits < 2 * binade
  · have hunits : units bits = bits := by rw [units, if_pos hsmall]
    have hlog : Nat.log2 bits - 52 = 0 := by
      have hlt : Nat.log2 bits < 53 := by
        by_cases hzero : bits = 0
        · rw [hzero]
          decide
        · exact (Nat.log2_lt hzero).mpr (by omega)
      omega
    have hself : roundHalfEven bits (Nat.pow 2 0) = bits := by
      have := roundHalfEven_mul_self Nat.one_pos bits
      rwa [Nat.mul_one] at this
    rw [hunits, hlog, hself, Nat.zero_mul, Nat.zero_add, Nat.min_eq_left h.le]
  · rw [log2_units (by omega)]
    have hunits : units bits = (binade + bits % binade) * Nat.pow 2 (bits / binade - 1) := by
      rw [units, if_neg hsmall]
    have hquot : 2 ≤ bits / binade := (Nat.le_div_iff_mul_le (by decide)).mpr (by omega)
    have hsplit : bits / binade * binade + bits % binade = bits := Nat.div_add_mod' bits binade
    have hfirst : (bits / binade - 1) * binade + binade = bits / binade * binade := by
      rw [← Nat.succ_mul]
      congr 1
      omega
    have hstep : 0 < Nat.pow 2 (bits / binade - 1) := natPow_pos Nat.two_pos _
    rw [hunits, roundHalfEven_mul_self hstep, ← Nat.add_assoc, hfirst, hsplit,
      Nat.min_eq_left h.le]

/-! ### Decimals -/

theorem Scaled.nearest_of_nonneg (c : ℕ) {e : ℤ} (he : 0 ≤ e) :
    Scaled.nearest ⟨c, e⟩ = Decimal.nearest (c * Nat.pow 10 e.toNat) 1 := by
  unfold Scaled.nearest
  exact if_pos he

theorem Scaled.nearest_of_neg (c : ℕ) {e : ℤ} (he : e < 0) :
    Scaled.nearest ⟨c, e⟩ = Decimal.nearest c (Nat.pow 10 (-e).toNat) := by
  unfold Scaled.nearest
  exact if_neg (Int.not_le.mpr he)

/-- A factor of ten of the coefficient may stand in the exponent. -/
theorem Scaled.nearest_ten (c : ℕ) (e : ℤ) :
    Scaled.nearest ⟨10 * c, e⟩ = Scaled.nearest ⟨c, e + 1⟩ := by
  rcases Int.lt_trichotomy e (-1) with he | rfl | he
  · obtain ⟨n, rfl⟩ : ∃ n : ℕ, e = -((n : ℤ) + 2) := ⟨(-e - 2).toNat, by omega⟩
    have hpow : (-(-((n : ℤ) + 2))).toNat = n + 2 := by omega
    have hpow' : (-(-((n : ℤ) + 2) + 1)).toNat = n + 1 := by omega
    have hten : Nat.pow 10 (n + 2) = Nat.pow 10 (n + 1) * 10 := rfl
    rw [nearest_of_neg _ (by omega), nearest_of_neg _ (by omega), hpow, hpow', hten,
      Nat.mul_comm 10 c]
    exact nearest_mul_right (by decide)
  · have hpow : Nat.pow 10 (-(-1 : ℤ)).toNat = 1 * 10 := rfl
    have hpow' : Nat.pow 10 (-1 + 1 : ℤ).toNat = 1 := rfl
    rw [nearest_of_neg _ (by decide), nearest_of_nonneg _ (by decide), hpow, hpow', Nat.mul_one,
      Nat.mul_comm 10 c]
    exact nearest_mul_right (by decide)
  · obtain ⟨n, rfl⟩ : ∃ n : ℕ, e = n := ⟨e.toNat, by omega⟩
    have hpow : ((n : ℤ) + 1).toNat = n + 1 := by omega
    have hten : Nat.pow 10 (n + 1) = Nat.pow 10 n * 10 := rfl
    rw [nearest_of_nonneg _ (by omega), nearest_of_nonneg _ (by omega), hpow, Int.toNat_natCast,
      hten, Nat.mul_comm 10 c, Nat.mul_assoc, Nat.mul_comm 10]

end Formula.Decimal
