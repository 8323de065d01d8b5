import Formula.Proofs.Decimal.Seventeen

/-!
# How far rounding goes

The double nearest to a quotient differs from it by at most half a step (`nearestUnits_bounds`), which is at most
`2 ^ (-53)` of the quotient where the step is not the least one. A quotient that is half a step short of the double
above the greatest finite one is still rounded to a finite one (`nearestUnits_lt`).
-/

namespace Formula.Decimal

variable {a b bits k m n p q r : ℕ}

theorem roundHalfEven_bounds (hb : 0 < b) (a : ℕ) :
    2 * (roundHalfEven a b * b) ≤ 2 * a + b ∧ 2 * a ≤ 2 * (roundHalfEven a b * b) + b := by
  have hsplit := Nat.div_add_mod' a b
  have hrest := Nat.mod_lt a hb
  unfold roundHalfEven
  dsimp only
  split_ifs with hdown
  · omega
  · rw [Nat.add_mul]
    omega

/-- **A quotient and the double nearest to it** differ by half a step at most. -/
theorem nearestUnits_bounds (hq : 0 < q) (h : nearestUnits p q < infinityBits) :
    2 * (units (nearestUnits p q) * q) ≤ 2 * p + q * 2 ^ stepOf p q ∧
      2 * p ≤ 2 * (units (nearestUnits p q) * q) + q * 2 ^ stepOf p q := by
  have hlt := steps_lt p q
  have hup := roundHalfEven_le p (q * 2 ^ stepOf p q)
  have hfull : stepOf p q ≠ 0 → 2 ^ 52 ≤ roundHalfEven p (q * 2 ^ stepOf p q) :=
    fun hne => (le_steps hne).trans (le_roundHalfEven _ _)
  have hbounds := roundHalfEven_bounds (Nat.mul_pos hq (Nat.two_pow_pos (stepOf p q))) p
  have hbits : nearestUnits p q = stepOf p q * binade + roundHalfEven p (q * 2 ^ stepOf p q) := by
    unfold nearestUnits at h ⊢
    omega
  have hunits : units (nearestUnits p q) * q = roundHalfEven p (q * 2 ^ stepOf p q) * (q * 2 ^ stepOf p q) := by
    rw [hbits, units_steps (by omega) hfull]
    ring
  rw [hunits]
  exact hbounds

/-- Where the step is not the least one, it is small beside the quotient. -/
theorem nearestUnits_bounds_of_step (hq : 0 < q) (h : nearestUnits p q < infinityBits) (hstep : stepOf p q ≠ 0) :
    units (nearestUnits p q) * q * 2 ^ 53 ≤ p * (2 ^ 53 + 1) ∧
      p * (2 ^ 53 - 1) ≤ units (nearestUnits p q) * q * 2 ^ 53 := by
  have hbounds := nearestUnits_bounds hq h
  have hsteps := le_steps hstep
  rw [Nat.le_div_iff_mul_le (Nat.mul_pos hq (Nat.two_pow_pos _))] at hsteps
  omega

/-- The step of the greatest finite doubles, as an exponent of two. -/
def topStep : ℕ := 971 + 1074

/-- **What is rounded to a finite double.** -/
theorem nearestUnits_lt (hq : 0 < q) (h : 2 * p < (2 ^ 54 - 1) * (q * 2 ^ topStep)) :
    nearestUnits p q < infinityBits := by
  have hbinade : binade = 2 ^ 52 := rfl
  have hinf : infinityBits = 2047 * 2 ^ 52 := rfl
  have htop : topStep = 2045 := rfl
  have hlt := steps_lt p q
  have hup := roundHalfEven_le p (q * 2 ^ stepOf p q)
  have hden : 0 < q * 2 ^ stepOf p q := Nat.mul_pos hq (Nat.two_pow_pos _)
  unfold nearestUnits
  refine (Nat.min_le_left _ _).trans_lt ?_
  rw [hbinade, hinf]
  rcases Nat.lt_trichotomy (stepOf p q) topStep with hlow | htop' | hhigh
  · omega
  · have hbounds := (roundHalfEven_bounds hden p).1
    have hsmall : roundHalfEven p (q * 2 ^ stepOf p q) < 2 ^ 53 := by
      refine Nat.lt_of_mul_lt_mul_right (a := q * 2 ^ stepOf p q) ?_
      rw [← htop'] at h
      omega
    omega
  · have hsteps := le_steps (p := p) (q := q) (by omega)
    rw [Nat.le_div_iff_mul_le hden] at hsteps
    have hdouble : q * 2 ^ topStep * 2 ≤ q * 2 ^ stepOf p q := by
      rw [Nat.mul_assoc, ← Nat.pow_succ]
      exact Nat.mul_le_mul_left q (Nat.pow_le_pow_right Nat.two_pos hhigh)
    omega

/-- The units of finite magnitudes, without the last few of them. -/
theorem units_le (h : bits + n ≤ infinityBits) (hpos : 0 < n) (hn : n ≤ 2 ^ 52) :
    units bits ≤ (2 ^ 53 - n) * 2 ^ topStep := by
  have hbinade : binade = 2 ^ 52 := rfl
  have hinf : infinityBits = 2047 * 2 ^ 52 := rfl
  have htop : topStep = 2045 := rfl
  obtain ⟨k, m, rfl, hk, hm, hfull⟩ := exists_steps (by omega : bits < infinityBits)
  rw [units_steps hm.le hfull]
  rw [hbinade, hinf] at h
  rcases Nat.lt_or_eq_of_le (htop ▸ hk : k ≤ topStep) with hlt | rfl
  · have hhalf : 2 ^ k * 2 ≤ 2 ^ topStep := by
      rw [← Nat.pow_succ]
      exact Nat.pow_le_pow_right Nat.two_pos hlt
    calc m * 2 ^ k ≤ 2 ^ 52 * 2 * 2 ^ k := Nat.mul_le_mul_right _ (by omega)
      _ = 2 ^ 52 * (2 ^ k * 2) := by ring
      _ ≤ (2 ^ 53 - n) * 2 ^ topStep := Nat.mul_le_mul (by omega) hhalf
  · exact Nat.mul_le_mul_right _ (by omega)

/-! ### Natural numbers -/

theorem two_pow_topStep : 2 ^ topStep = Nat.pow 2 971 * unitsPerOne := by
  unfold topStep unitsPerOne
  generalize 971 = i
  generalize 1074 = j
  exact Nat.pow_add 2 i j

/-- The double nearest to a positive natural number. -/
theorem nearest_one_bounds (hn : 0 < n) (h : nearest n 1 < infinityBits) :
    units (nearest n 1) * 2 ^ 53 ≤ n * unitsPerOne * (2 ^ 53 + 1) ∧
      n * unitsPerOne * (2 ^ 53 - 1) ≤ units (nearest n 1) * 2 ^ 53 := by
  have hne : n * unitsPerOne ≠ 0 := (Nat.mul_pos hn unitsPerOne_pos).ne'
  have hlog : 1074 ≤ Nat.log2 (n * unitsPerOne) := by
    have hle := Nat.le_mul_of_pos_left unitsPerOne hn
    generalize n * unitsPerOne = a at hle hne ⊢
    unfold unitsPerOne at hle
    generalize 1074 = k at hle ⊢
    exact (Nat.le_log2 hne).mpr hle
  have hstep : stepOf (n * unitsPerOne) 1 ≠ 0 := by
    unfold stepOf
    rw [Nat.div_one]
    omega
  have hbounds := nearestUnits_bounds_of_step Nat.one_pos h hstep
  rwa [Nat.mul_one] at hbounds

theorem nearest_one_pos (hn : 0 < n) (h : nearest n 1 < infinityBits) : 0 < nearest n 1 := by
  have hlow := (nearest_one_bounds hn h).2
  rw [Nat.pos_iff_ne_zero]
  intro hzero
  rw [hzero, units_zero] at hlow
  have hpos := Nat.mul_pos hn unitsPerOne_pos
  omega

/-- Natural numbers up to `10 ^ 308` are rounded to finite doubles. -/
theorem nearest_lt_of_le (h : n ≤ Nat.pow 10 308) : nearest n 1 < infinityBits := by
  have hten : 2 * Nat.pow 10 308 < (2 ^ 54 - 1) * Nat.pow 2 971 := by decide +kernel
  refine nearestUnits_lt Nat.one_pos ?_
  rw [Nat.one_mul, two_pow_topStep]
  generalize Nat.pow 2 971 = z at hten ⊢
  generalize Nat.pow 10 308 = t at hten h
  rw [← Nat.mul_assoc, ← Nat.mul_assoc]
  exact Nat.mul_lt_mul_of_pos_right (by omega) unitsPerOne_pos

/-- Those that are rounded to finite doubles lie below `10 ^ 309`. -/
theorem lt_of_nearest_lt (h : nearest n 1 < infinityBits) : n < Nat.pow 10 309 := by
  have hten : Nat.pow 2 971 * 2 ^ 53 < Nat.pow 10 309 := by decide +kernel
  rcases Nat.eq_zero_or_pos n with rfl | hn
  · exact (Nat.zero_le _).trans_lt hten
  refine lt_of_le_of_lt ?_ hten
  have hlow := (nearest_one_bounds hn h).2
  have hunits := units_le (n := 1) h Nat.one_pos Nat.one_le_two_pow
  have hpos := unitsPerOne_pos
  rw [two_pow_topStep] at hunits
  generalize units (nearest n 1) = u at hlow hunits
  generalize Nat.pow 2 971 = z at hunits ⊢
  generalize unitsPerOne = v at hlow hunits hpos
  refine Nat.le_of_mul_le_mul_right ?_ hpos
  have hmove : z * 2 ^ 53 * v = z * v * 2 ^ 53 := by ring
  rw [hmove]
  omega

/-! ### Products and quotients that are finite -/

/-- **A product of two natural numbers whose product is not among the greatest doubles is finite** after the three
roundings. -/
theorem nearest_mul_lt (hm : 0 < m) (hn : 0 < n) (hm' : nearest m 1 < infinityBits) (hn' : nearest n 1 < infinityBits)
    (h : nearest (m * n) 1 + 4 ≤ infinityBits) :
    nearest (units (nearest m 1) * units (nearest n 1)) (unitsPerOne * unitsPerOne) < infinityBits := by
  have hleft := (nearest_one_bounds hm hm').1
  have hright := (nearest_one_bounds hn hn').1
  have hproduct := (nearest_one_bounds (Nat.mul_pos hm hn) (by omega)).2
  have hunits := units_le h (by decide) (by decide)
  have hpos : 0 < 2 ^ topStep * unitsPerOne := Nat.mul_pos (Nat.two_pow_pos _) unitsPerOne_pos
  have hboth := Nat.mul_le_mul hleft hright
  rw [nearest_eq, nearestUnits_mul_right unitsPerOne_pos]
  apply nearestUnits_lt unitsPerOne_pos
  generalize units (nearest m 1) = u at hboth ⊢
  generalize units (nearest n 1) = u' at hboth ⊢
  generalize units (nearest (m * n) 1) = w at hproduct hunits
  generalize 2 ^ topStep = z at hunits hpos ⊢
  generalize unitsPerOne = v at hboth hproduct hpos ⊢
  have hrounded : u * u' * 2 ^ 106 ≤ m * n * v * v * ((2 ^ 53 + 1) * (2 ^ 53 + 1)) := by
    calc u * u' * 2 ^ 106 = u * 2 ^ 53 * (u' * 2 ^ 53) := by ring
      _ ≤ m * v * (2 ^ 53 + 1) * (n * v * (2 ^ 53 + 1)) := hboth
      _ = m * n * v * v * ((2 ^ 53 + 1) * (2 ^ 53 + 1)) := by ring
  have hsmall : m * n * v * v * (2 ^ 53 - 1) ≤ (2 ^ 53 - 4) * 2 ^ 53 * (v * z) := by
    calc m * n * v * v * (2 ^ 53 - 1) = m * n * v * (2 ^ 53 - 1) * v := Nat.mul_right_comm _ _ _
      _ ≤ (2 ^ 53 - 4) * z * 2 ^ 53 * v := Nat.mul_le_mul_right v (hproduct.trans (Nat.mul_le_mul_right _ hunits))
      _ = (2 ^ 53 - 4) * 2 ^ 53 * (v * z) := by ring
  rw [Nat.mul_comm z v] at hpos
  omega

/-- A quotient by a natural number is finite. -/
theorem nearest_div_lt (h : bits < infinityBits) (hn : 10 ≤ n) (hn' : nearest n 1 < infinityBits) :
    nearest (units bits) (units (nearest n 1)) < infinityBits := by
  have hdivisor := (nearest_one_bounds (by omega) hn').2
  have hunits := units_le (n := 1) h Nat.one_pos Nat.one_le_two_pow
  have hone := unitsPerOne_pos
  have hmore : 10 * unitsPerOne ≤ n * unitsPerOne := Nat.mul_le_mul_right _ hn
  have hle : unitsPerOne ≤ units (nearest n 1) := by omega
  have hpos : 0 < units (nearest n 1) := by omega
  have hscaled : 0 < units (nearest n 1) * 2 ^ topStep := Nat.mul_pos hpos (Nat.two_pow_pos _)
  rw [nearest_eq]
  apply nearestUnits_lt hpos
  have hquotient := Nat.mul_le_mul hunits hle
  have hmove : (2 ^ 53 - 1) * 2 ^ topStep * units (nearest n 1) =
      (2 ^ 53 - 1) * (units (nearest n 1) * 2 ^ topStep) := by
    ring
  rw [hmove] at hquotient
  omega

end Formula.Decimal
