import Formula.Proofs.Decimal.Arithmetic
import Formula.Proofs.Decimal.Shortest

/-!
# Seventeen digits suffice

What differs from a double by less than `2 ^ (-54)` of it is nearest to that double and to no other
(`nearestUnits_of_close`). On the grid of the decimals of seventeen digits one of the two neighbours of a double is
that close, so the search for the shortest decimal always ends on a grid, and the coefficient of the shortest decimal
is at most `10 ^ 17` (`shortest_coefficient_le`).
-/

namespace Formula.Decimal

variable {a b bits k m n p q r t : ℕ} {tie : Tie} {d : Scaled}

/-! ### Close to a double -/

/-- Less than half a step away from a whole number. -/
theorem roundHalfEven_of_close (hlow : 2 * (r * b) < 2 * a + b) (hhigh : 2 * a < 2 * (r * b) + b) :
    roundHalfEven a b = r := by
  have hsplit := Nat.div_add_mod' a b
  unfold roundHalfEven
  dsimp only
  rcases Nat.lt_or_ge a (r * b) with hlt | hge
  · obtain ⟨s, rfl⟩ : ∃ s, r = s + 1 := ⟨r - 1, by
      have hne : r ≠ 0 := by
        rintro rfl
        omega
      omega⟩
    rw [Nat.add_mul, Nat.one_mul] at hlow hlt
    have hdiv : a / b = s := Nat.div_eq_of_lt_le (by omega) (by rw [Nat.add_mul]; omega)
    rw [hdiv] at hsplit ⊢
    rw [if_neg (by omega)]
  · have hdiv : a / b = r := Nat.div_eq_of_lt_le hge (by rw [Nat.add_mul]; omega)
    rw [hdiv] at hsplit ⊢
    rw [if_pos (Or.inl (by omega))]

/-- A finite magnitude as a step and the number of steps. -/
theorem exists_steps (h : bits < infinityBits) :
    ∃ k m, bits = k * binade + m ∧ k ≤ 2045 ∧ m < 2 ^ 53 ∧ (k ≠ 0 → 2 ^ 52 ≤ m) := by
  have hbinade : binade = 2 ^ 52 := rfl
  have hinf : infinityBits = 2047 * 2 ^ 52 := rfl
  rcases Nat.lt_or_ge bits (2 ^ 52) with hlow | hlow
  · exact ⟨0, bits, by omega, by omega, by omega, fun h => absurd rfl h⟩
  · refine ⟨bits / 2 ^ 52 - 1, 2 ^ 52 + bits % 2 ^ 52, ?_, by omega, by omega, fun _ => Nat.le_add_right _ _⟩
    rw [hbinade]
    omega

theorem stepOf_eq (hq : 0 < q) (hlow : k ≠ 0 → 2 ^ 52 * (q * 2 ^ k) ≤ p) (hhigh : p < 2 ^ 53 * (q * 2 ^ k)) :
    stepOf p q = k := by
  have hmove : ∀ n, 2 ^ n * (q * 2 ^ k) = 2 ^ (n + k) * q := by
    intro n
    rw [Nat.pow_add]
    ring
  have hlt : p / q < 2 ^ (52 + k + 1) := by
    rw [Nat.div_lt_iff_lt_mul hq, Nat.add_right_comm, ← hmove]
    exact hhigh
  unfold stepOf
  by_cases hk : k = 0
  · have hlog := log2_le_of_lt hlt
    omega
  · have hle : 2 ^ (52 + k) ≤ p / q := by
      rw [Nat.le_div_iff_mul_le hq, ← hmove]
      exact hlow hk
    have hne : p / q ≠ 0 := Nat.ne_of_gt (Nat.lt_of_lt_of_le (Nat.two_pow_pos _) hle)
    rw [(Nat.log2_eq_iff hne).mpr ⟨hle, hlt⟩, Nat.add_sub_cancel_left]

/-- A number of steps of the right height that is less than half a step away. -/
theorem nearestUnits_eq (hq : 0 < q) (hk : k ≠ 0 → 2 ^ 52 * (q * 2 ^ k) ≤ p) (hp : p < 2 ^ 53 * (q * 2 ^ k))
    (hlow : 2 * (r * (q * 2 ^ k)) < 2 * p + q * 2 ^ k) (hhigh : 2 * p < 2 * (r * (q * 2 ^ k)) + q * 2 ^ k) :
    nearestUnits p q = min (k * binade + r) infinityBits := by
  unfold nearestUnits
  rw [stepOf_eq hq hk hp, roundHalfEven_of_close hlow hhigh]

/-- **What is close to a double is rounded to it.** -/
theorem nearestUnits_of_close (h : bits < infinityBits) (hq : 0 < q)
    (hlow : units bits * q * (2 ^ 54 - 1) < p * 2 ^ 54) (hhigh : p * 2 ^ 54 < units bits * q * (2 ^ 54 + 1)) :
    nearestUnits p q = bits := by
  have hbinade : binade = 2 ^ 52 := rfl
  obtain ⟨k, m, hbits, hk, hm, hfull⟩ := exists_steps h
  have hunits : units bits * q = m * (q * 2 ^ k) := by
    rw [hbits, units_steps hm.le hfull]
    ring
  rw [hunits] at hlow hhigh
  have hstep : 0 < q * 2 ^ k := Nat.mul_pos hq (Nat.two_pow_pos k)
  have hless : (m + 1) * (q * 2 ^ k) ≤ 2 ^ 53 * (q * 2 ^ k) := Nat.mul_le_mul_right _ hm
  rw [Nat.add_mul, Nat.one_mul] at hless
  by_cases hheight : k ≠ 0 → 2 ^ 52 * (q * 2 ^ k) ≤ p
  · rw [nearestUnits_eq hq hheight (r := m) (by omega) (by omega) (by omega), ← hbits, Nat.min_eq_left h.le]
  · -- below a power of two the steps are half as wide
    obtain ⟨k, rfl⟩ : ∃ j, k = j + 1 := ⟨k - 1, by omega⟩
    have hbelow : p < 2 ^ 52 * (q * 2 ^ (k + 1)) := by omega
    have hpower : m = 2 ^ 52 := by
      by_contra hne
      have hbig : 2 ^ 52 + 1 ≤ m := by
        have := hfull (Nat.succ_ne_zero k)
        omega
      have hmore : (2 ^ 52 + 1) * (q * 2 ^ (k + 1)) ≤ m * (q * 2 ^ (k + 1)) := Nat.mul_le_mul_right _ hbig
      omega
    have hhalf : q * 2 ^ (k + 1) = q * 2 ^ k * 2 := by rw [Nat.pow_succ, Nat.mul_assoc]
    rw [hpower, hhalf] at hlow
    rw [hhalf] at hbelow
    have hnear := nearestUnits_eq (p := p) (r := 2 ^ 53) hq (k := k) (fun _ => by omega) (by omega) (by omega)
      (by omega)
    rw [hbits, hpower, hbinade] at h
    rw [hnear, hbits, hpower, hbinade, Nat.min_eq_left (by omega)]
    omega

/-! ### The grids -/

/-- **The digits of a positive double**: multiplied by `10 ^ 324` it has `l` digits before its point. -/
structure Leads (bits l : ℕ) : Prop where
  low : 10 ^ l * unitsPerOne ≤ units bits * Nat.pow 10 324 * 10
  high : units bits * Nat.pow 10 324 < 10 ^ l * unitsPerOne

/-- The least positive double begins behind 323 zeros. -/
theorem unitsPerOne_le : unitsPerOne ≤ Nat.pow 10 324 := by
  decide +kernel

theorem leads_leadingExponent (hpos : 0 < units bits) :
    ∃ l : ℕ, leadingExponent bits = (l : ℤ) - 325 ∧ Leads bits l := by
  have hone : 0 < units bits * Nat.pow 10 324 / unitsPerOne :=
    Nat.div_pos (unitsPerOne_le.trans (Nat.le_mul_of_pos_left _ hpos)) unitsPerOne_pos
  have hlen : ∀ k, 0 < k → ((Nat.toDigits 10 (units bits * Nat.pow 10 324 / unitsPerOne)).length ≤ k ↔
      units bits * Nat.pow 10 324 / unitsPerOne < 10 ^ k) := fun k hk => Nat.length_toDigits_le_iff (by decide) hk
  have hne := Nat.length_toDigits_pos (b := 10) (n := units bits * Nat.pow 10 324 / unitsPerOne)
  refine ⟨_, rfl, ?_⟩
  generalize (Nat.toDigits 10 (units bits * Nat.pow 10 324 / unitsPerOne)).length = l at hne hlen
  constructor
  · obtain ⟨l, rfl⟩ : ∃ j, l = j + 1 := ⟨l - 1, by omega⟩
    have hlow : 10 ^ l ≤ units bits * Nat.pow 10 324 / unitsPerOne := by
      rcases Nat.eq_zero_or_pos l with rfl | hl
      · exact hone
      · exact Nat.le_of_not_lt fun hlt => Nat.not_succ_le_self l ((hlen l hl).mpr hlt)
    rw [Nat.le_div_iff_mul_le unitsPerOne_pos] at hlow
    rw [Nat.pow_succ, Nat.mul_right_comm]
    exact Nat.mul_le_mul_right 10 hlow
  · have hhigh := (hlen l hne).mp (Nat.le_refl l)
    rwa [Nat.div_lt_iff_lt_mul unitsPerOne_pos] at hhigh

/-- The number of whole steps of `10 ^ p` in a double. -/
def stepsBelow (bits : ℕ) (p : ℤ) : ℕ :=
  (if 0 ≤ p then units bits else units bits * Nat.pow 10 (-p).toNat) /
    (if 0 ≤ p then unitsPerOne * Nat.pow 10 p.toNat else unitsPerOne)

/-- The answer of a grid is one of the two neighbours. -/
theorem coefficient_onGrid {p : ℤ} (h : onGrid tie bits p = some d) : d.coefficient ≤ stepsBelow bits p + 1 := by
  have hchoose : tie.choose (stepsBelow bits p) ≤ stepsBelow bits p + 1 := by
    rcases tie.choose_cases (stepsBelow bits p) with hc | hc <;> omega
  have hanswer : d = ⟨stepsBelow bits p, p⟩ ∨ d = ⟨stepsBelow bits p + 1, p⟩ ∨
      d = ⟨tie.choose (stepsBelow bits p), p⟩ := by
    unfold onGrid at h
    extract_lets a b c below above at h
    have hc : c = stepsBelow bits p := rfl
    clear_value a b
    rw [← hc]
    split_ifs at h
    · exact Or.inl (Option.some.inj h).symm
    · exact Or.inr (Or.inr (Option.some.inj h).symm)
    · exact Or.inr (Or.inl (Option.some.inj h).symm)
    · exact Or.inl (Option.some.inj h).symm
    · exact Or.inr (Or.inl (Option.some.inj h).symm)
  rcases hanswer with rfl | rfl | rfl
  · exact Nat.le_succ _
  · exact Nat.le_refl _
  · exact hchoose

/-- A grid answers if one of the two neighbours reads back. -/
theorem onGrid_ne_none {p : ℤ} (h : Scaled.nearest ⟨stepsBelow bits p, p⟩ = bits ∨
    Scaled.nearest ⟨stepsBelow bits p + 1, p⟩ = bits) : onGrid tie bits p ≠ none := by
  intro hnone
  unfold onGrid at hnone
  extract_lets a b c below above at hnone
  have hc : c = stepsBelow bits p := rfl
  rw [← hc] at h
  clear_value a b
  split_ifs at hnone
  rename_i hbelow habove
  exact h.elim hbelow habove

/-- A grid without its two cases. -/
theorem exists_grid (bits : ℕ) (p : ℤ) : ∃ r t : ℕ, p = (t : ℤ) - r ∧
    stepsBelow bits p = units bits * 10 ^ r / (unitsPerOne * 10 ^ t) ∧
    ∀ c, Scaled.nearest ⟨c, p⟩ = nearest (c * 10 ^ t) (10 ^ r) := by
  rcases Int.lt_or_le p 0 with hp | hp
  · refine ⟨(-p).toNat, 0, by omega, ?_, fun c => ?_⟩
    · unfold stepsBelow
      rw [if_neg (Int.not_le.mpr hp), if_neg (Int.not_le.mpr hp), Nat.pow_zero, Nat.mul_one]
      rfl
    · rw [Scaled.nearest_of_neg c hp, Nat.pow_zero, Nat.mul_one]
      rfl
  · refine ⟨0, p.toNat, by omega, ?_, fun c => ?_⟩
    · unfold stepsBelow
      rw [if_pos hp, if_pos hp, Nat.pow_zero, Nat.mul_one]
      rfl
    · rw [Scaled.nearest_of_nonneg c hp, Nat.pow_zero]
      rfl

/-- On the grid of `n` digits a double has `n` digits before its point. -/
theorem Leads.grid {l : ℕ} (h : Leads bits l) (hn : (t : ℤ) - r = (l : ℤ) - 325 - n + 1) :
    units bits * 10 ^ r < 10 ^ n * (unitsPerOne * 10 ^ t) ∧
      10 ^ n * (unitsPerOne * 10 ^ t) ≤ units bits * 10 ^ r * 10 := by
  obtain ⟨hlow, hhigh⟩ := h
  have hsum : l + r = n + t + 324 := by omega
  clear hn
  generalize 324 = e at hlow hhigh hsum
  have htens : 0 < 10 ^ e := Nat.pow_pos (by decide)
  have hpow : 10 ^ l * 10 ^ r = 10 ^ n * 10 ^ t * 10 ^ e := by
    rw [← Nat.pow_add, ← Nat.pow_add, ← Nat.pow_add, hsum]
  have hgrid : 10 ^ n * (unitsPerOne * 10 ^ t) * 10 ^ e = 10 ^ l * unitsPerOne * 10 ^ r := by
    calc 10 ^ n * (unitsPerOne * 10 ^ t) * 10 ^ e = 10 ^ n * 10 ^ t * 10 ^ e * unitsPerOne := by ring
      _ = 10 ^ l * unitsPerOne * 10 ^ r := by rw [← hpow, Nat.mul_right_comm]
  constructor
  · refine Nat.lt_of_mul_lt_mul_right (a := 10 ^ e) ?_
    rw [hgrid, Nat.mul_right_comm]
    exact Nat.mul_lt_mul_of_pos_right hhigh (Nat.pow_pos (by decide))
  · refine Nat.le_of_mul_le_mul_right ?_ htens
    calc 10 ^ n * (unitsPerOne * 10 ^ t) * 10 ^ e ≤ units bits * 10 ^ e * 10 * 10 ^ r := by
          rw [hgrid]
          exact Nat.mul_le_mul_right _ hlow
      _ = units bits * 10 ^ r * 10 * 10 ^ e := by ring

/-! ### The search -/

theorem units_pos (h : bits < infinityBits) (hpos : 0 < bits) : 0 < units bits := by
  obtain ⟨k, m, rfl, -, hm, hfull⟩ := exists_steps h
  have hne : 0 < m := by
    rw [Nat.pos_iff_ne_zero]
    rintro rfl
    have hk : k = 0 := by
      by_contra hk
      exact absurd (hfull hk) (by decide)
    rw [hk, Nat.zero_mul] at hpos
    omega
  rw [units_steps hm.le hfull]
  exact Nat.mul_pos hne (Nat.two_pow_pos k)

/-- **On the grid of seventeen digits a neighbour reads back.** -/
theorem onGrid_seventeen {l : ℕ} (h : bits < infinityBits) (hl : Leads bits l) :
    onGrid tie bits ((l : ℤ) - 325 - 17 + 1) ≠ none := by
  obtain ⟨r, t, hp, hsteps, hnearest⟩ := exists_grid bits ((l : ℤ) - 325 - 17 + 1)
  obtain ⟨-, hlow⟩ := hl.grid (n := 17) hp.symm
  have hstep : 0 < unitsPerOne * 10 ^ t := Nat.mul_pos unitsPerOne_pos (Nat.pow_pos (by decide))
  have hsplit := Nat.div_add_mod' (units bits * 10 ^ r) (unitsPerOne * 10 ^ t)
  have hrest := Nat.mod_lt (units bits * 10 ^ r) hstep
  apply onGrid_ne_none
  rw [hnearest, hnearest, nearest_eq, nearest_eq, hsteps]
  generalize units bits * 10 ^ r / (unitsPerOne * 10 ^ t) = c at hsplit
  have hmove : ∀ c, c * 10 ^ t * unitsPerOne = c * (unitsPerOne * 10 ^ t) := by
    intro c
    ring
  rw [hmove, hmove, Nat.add_mul, Nat.one_mul]
  have hclose := fun p => nearestUnits_of_close (p := p) h (Nat.pow_pos (n := r) (by decide : 0 < 10))
  generalize units bits * 10 ^ r = a at *
  generalize unitsPerOne * 10 ^ t = b at *
  rcases Nat.lt_or_ge (2 * (a % b)) b with hhalf | hhalf
  · exact Or.inl (hclose _ (by omega) (by omega))
  · exact Or.inr (hclose _ (by omega) (by omega))

/-- The search ends where it meets a grid that answers, and all grids on the way have small coefficients. -/
theorem firstGrid_spec {top : ℤ} {c fuel : ℕ} (hsome : ∃ j < fuel, onGrid tie bits (top - (n + j : ℕ) + 1) ≠ none)
    (hsmall : ∀ j < fuel, ∀ d, onGrid tie bits (top - (n + j : ℕ) + 1) = some d → d.coefficient ≤ c) :
    ∃ d, firstGrid tie bits top fuel n = some d ∧ d.coefficient ≤ c := by
  induction fuel generalizing n with
  | zero =>
    obtain ⟨j, hj, -⟩ := hsome
    exact absurd hj (Nat.not_lt_zero j)
  | succ fuel ih =>
    rw [firstGrid]
    cases hgrid : onGrid tie bits (top - n + 1) with
    | some d => exact ⟨d, rfl, hsmall 0 (Nat.succ_pos fuel) d hgrid⟩
    | none =>
      have hmove : ∀ j, n + 1 + j = n + (j + 1) := fun j => by omega
      refine ih ?_ ?_
      · obtain ⟨j, hj, hne⟩ := hsome
        cases j with
        | zero => exact absurd hgrid hne
        | succ j => exact ⟨j, Nat.lt_of_succ_lt_succ hj, by rwa [hmove]⟩
      · intro j hj d hd
        rw [hmove] at hd
        exact hsmall (j + 1) (Nat.succ_lt_succ hj) d hd

theorem coefficient_trim (fuel : ℕ) (d : Scaled) : (d.trim fuel).coefficient ≤ d.coefficient := by
  induction fuel generalizing d with
  | zero => exact Nat.le_refl _
  | succ fuel ih =>
    unfold Scaled.trim
    split_ifs
    · exact (ih _).trans (Nat.div_le_self _ _)
    · exact Nat.le_refl _

/-- **Seventeen digits suffice**: the coefficient of the shortest decimal is at most `10 ^ 17`. -/
theorem shortest_coefficient_le (tie : Tie) (h : bits < infinityBits) :
    (shortest tie bits).coefficient ≤ 10 ^ 17 := by
  unfold shortest
  by_cases hzero : bits = 0
  · rw [if_pos hzero]
    exact Nat.zero_le _
  · obtain ⟨l, htop, hl⟩ := leads_leadingExponent (units_pos h (Nat.pos_of_ne_zero hzero))
    have hsmall : ∀ j < 17, ∀ d, onGrid tie bits ((l : ℤ) - 325 - (1 + j : ℕ) + 1) = some d →
        d.coefficient ≤ 10 ^ 17 := by
      intro j hj d hd
      obtain ⟨r, t, hp, hsteps, -⟩ := exists_grid bits ((l : ℤ) - 325 - (1 + j : ℕ) + 1)
      have hgrid := (hl.grid hp.symm).1
      rw [← Nat.div_lt_iff_lt_mul (Nat.mul_pos unitsPerOne_pos (Nat.pow_pos (by decide))), ← hsteps] at hgrid
      have hpow : 10 ^ (1 + j) ≤ 10 ^ 17 := Nat.pow_le_pow_right (by decide) (by omega)
      exact (coefficient_onGrid hd).trans (hgrid.trans_le hpow)
    obtain ⟨d, hd, hc⟩ := firstGrid_spec ⟨16, by decide, onGrid_seventeen h hl⟩ hsmall
    rw [if_neg hzero, htop, hd]
    exact (coefficient_trim _ _).trans hc

end Formula.Decimal
