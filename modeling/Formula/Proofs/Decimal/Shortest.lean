import Formula.Proofs.Decimal.Nearest

/-!
# The shortest decimal reads back

The search for the shortest decimal answers with a candidate only after it has found that the candidate
is nearest to the double, and the exact decimal stands in if no grid answers; moving zeros into the
exponent changes nothing. So the answer is nearest to the double whatever the search has tried
(`shortest_nearest`).
-/

namespace Formula.Decimal

variable {tie : Tie} {bits : ℕ} {d : Scaled}

theorem Scaled.nearest_trim (fuel : ℕ) (d : Scaled) : (d.trim fuel).nearest = d.nearest := by
  induction fuel generalizing d with
  | zero => rfl
  | succ fuel ih =>
    unfold Scaled.trim
    by_cases h : d.coefficient ≠ 0 ∧ d.coefficient % 10 = 0
    · rw [if_pos h, ih]
      have hten : 10 * (d.coefficient / 10) = d.coefficient := by omega
      have hmove := Scaled.nearest_ten (d.coefficient / 10) d.exponent
      rw [hten] at hmove
      exact hmove.symm
    · rw [if_neg h]

/-- Of two candidates that read back either one is taken. -/
theorem Tie.choose_cases (tie : Tie) (c : ℕ) : tie.choose c = c ∨ tie.choose c = c + 1 := by
  cases tie with
  | up => exact Or.inr rfl
  | even =>
    unfold Tie.choose
    by_cases hc : c % 2 = 0
    · exact Or.inl (if_pos hc)
    · exact Or.inr (if_neg hc)

/-- An answer of a grid reads back. -/
theorem onGrid_nearest {p : ℤ} (h : onGrid tie bits p = some d) : d.nearest = bits := by
  unfold onGrid at h
  extract_lets a b c below above at h
  clear_value a b
  by_cases hbelow : below.nearest = bits
  · rw [if_pos hbelow] at h
    by_cases habove : above.nearest = bits
    · rw [if_pos habove] at h
      have hchosen : Scaled.nearest ⟨tie.choose c, p⟩ = bits := by
        rcases tie.choose_cases c with hc | hc
        · rw [hc]
          exact hbelow
        · rw [hc]
          exact habove
      split at h
      · rw [← Option.some.inj h]
        exact hbelow
      · split at h
        · rw [← Option.some.inj h]
          exact hchosen
        · rw [← Option.some.inj h]
          exact habove
    · rw [if_neg habove] at h
      rw [← Option.some.inj h]
      exact hbelow
  · rw [if_neg hbelow] at h
    by_cases habove : above.nearest = bits
    · rw [if_pos habove] at h
      rw [← Option.some.inj h]
      exact habove
    · rw [if_neg habove] at h
      cases h

theorem firstGrid_nearest {top : ℤ} {fuel n : ℕ} (h : firstGrid tie bits top fuel n = some d) :
    d.nearest = bits := by
  induction fuel generalizing n with
  | zero => cases h
  | succ fuel ih =>
    rw [firstGrid] at h
    cases hgrid : onGrid tie bits (top - n + 1) with
    | some d' => rw [hgrid] at h; cases h; exact onGrid_nearest hgrid
    | none => rw [hgrid] at h; exact ih h

/-- Powers of one half are decimals: `2⁻ⁿ = 5ⁿ · 10⁻ⁿ`. -/
theorem Scaled.nearest_halves (u n : ℕ) :
    Scaled.nearest ⟨u * Nat.pow 5 n, -n⟩ = Decimal.nearest u (Nat.pow 2 n) := by
  have hfive : 0 < Nat.pow 5 n := natPow_pos (by decide) n
  have hten : Nat.pow 10 n = Nat.pow 2 n * Nat.pow 5 n := Nat.mul_pow 2 5 n
  rcases Nat.eq_zero_or_pos n with rfl | hn
  · rw [nearest_of_nonneg _ (by decide)]
    exact congrArg (Decimal.nearest · 1) (by rw [Nat.pow, Nat.mul_one]; exact Nat.mul_one u)
  · rw [nearest_of_neg _ (by omega), Int.neg_neg, Int.toNat_natCast, hten]
    exact nearest_mul_right hfive

theorem exact_nearest (h : bits < infinityBits) : (exact bits).nearest = bits := by
  have hunits := nearest_units h
  unfold unitsPerOne at hunits
  exact (Scaled.nearest_halves (units bits) 1074).trans hunits

/-- **The shortest decimal reads back.** -/
theorem shortest_nearest (tie : Tie) (h : bits < infinityBits) :
    (shortest tie bits).nearest = bits := by
  unfold shortest
  by_cases hzero : bits = 0
  · rw [if_pos hzero, hzero]
    rw [Scaled.nearest_of_nonneg 0 (Int.le_refl 0), Nat.zero_mul, nearest_zero]
  · rw [if_neg hzero]
    dsimp only
    rw [Scaled.nearest_trim]
    cases hgrid : firstGrid tie bits (leadingExponent bits) 17 1 with
    | none => exact exact_nearest h
    | some d => exact firstGrid_nearest hgrid

end Formula.Decimal
