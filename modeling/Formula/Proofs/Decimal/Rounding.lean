import Formula.Proofs.Decimal.Nearest

/-!
# Rounding to a double

Arithmetic on doubles is exact arithmetic on mantissas and exponents, followed by one rounding. The rounding shifts bits
out of the mantissa and keeps account of them in two further bits; on the way the mantissa stands for a quotient of
natural numbers at every step (`Represents`), so what comes out is that quotient rounded, the tie going to the even
neighbour. Packed behind the bits of its exponent it is the number that `nearest` finds (`toNat_pack_round`).
-/

namespace Formula.Decimal

open Float.Model (Format totalExponent)
open Float.Model.UnpackedFloat

variable {em : ExtendedMantissa} {a b i j k m n t : ℕ} {e : ℤ}

/-! ### Mantissas and the bits that were shifted out -/

/-- **The mantissa and its two further bits stand for `a / b`**: whether the rest is at least one half, and whether it
is anything but nothing and one half. -/
structure Represents (em : ExtendedMantissa) (a b : ℕ) : Prop where
  mantissa : em.mantissa = a / b
  roundBit : em.roundBit = decide (b ≤ 2 * (a % b))
  stickyBit : em.stickyBit = decide (a % b ≠ 0 ∧ 2 * (a % b) ≠ b)

theorem represents_exact (m : ℕ) : Represents (ExtendedMantissa.ofMantissaAndAccuracy m .exact) m 1 :=
  ⟨(Nat.div_one m).symm, by simp [ExtendedMantissa.ofMantissaAndAccuracy, Nat.mod_one],
    by simp [ExtendedMantissa.ofMantissaAndAccuracy, Nat.mod_one]⟩

theorem represents_fraction (hb : 0 < b) (a : ℕ) :
    Represents (ExtendedMantissa.ofMantissaAndAccuracy (a / b) (accuracyOfFraction (a % b) b)) a b := by
  unfold accuracyOfFraction
  by_cases hzero : a % b = 0
  · rw [if_pos hzero]
    refine ⟨rfl, ?_, ?_⟩
    · simp [ExtendedMantissa.ofMantissaAndAccuracy, hzero]
      omega
    · simp [ExtendedMantissa.ofMantissaAndAccuracy, hzero]
  · rw [if_neg hzero]
    rcases Nat.lt_trichotomy (2 * (a % b)) b with hlt | heq | hgt
    · rw [Nat.compare_eq_lt.mpr hlt]
      refine ⟨rfl, ?_, ?_⟩
      · simp [ExtendedMantissa.ofMantissaAndAccuracy, hlt]
      · simp [ExtendedMantissa.ofMantissaAndAccuracy, hzero, hlt.ne]
    · rw [Nat.compare_eq_eq.mpr heq]
      refine ⟨rfl, ?_, ?_⟩
      · simp [ExtendedMantissa.ofMantissaAndAccuracy, heq]
      · simp [ExtendedMantissa.ofMantissaAndAccuracy, heq]
    · rw [Nat.compare_eq_gt.mpr hgt]
      refine ⟨rfl, ?_, ?_⟩
      · simp [ExtendedMantissa.ofMantissaAndAccuracy, hgt.le]
      · simp [ExtendedMantissa.ofMantissaAndAccuracy, hzero, hgt.ne']

/-- One more bit is shifted out. -/
theorem Represents.shiftRightOne (hb : 0 < b) (h : Represents em a b) : Represents em.shiftRightOne a (b * 2) := by
  have hdiv : a / (b * 2) = a / b / 2 := (Nat.div_div_eq_div_mul a b 2).symm
  have hmod : a % (b * 2) = a % b + b * (a / b % 2) := Nat.mod_mul
  have hrest : a % b < b := Nat.mod_lt a hb
  obtain ⟨hm, hround, hsticky⟩ := h
  unfold ExtendedMantissa.shiftRightOne
  refine ⟨by rw [hm, hdiv], ?_, ?_⟩
  · rw [hm, hmod]
    rcases Nat.mod_two_eq_zero_or_one (a / b) with hbit | hbit
    · simp [hbit]
      omega
    · simp [hbit]
      omega
  · rw [hround, hsticky, hmod]
    rcases Nat.mod_two_eq_zero_or_one (a / b) with hbit | hbit
    · rw [hbit, Bool.eq_iff_iff]
      simp
      omega
    · rw [hbit, Bool.eq_iff_iff]
      simp
      omega

theorem Represents.shiftRight (hb : 0 < b) (h : Represents em a b) (t : ℕ) : Represents (em >>> t) a (b * 2 ^ t) := by
  induction t with
  | zero =>
    rw [Nat.pow_zero, Nat.mul_one]
    exact h
  | succ t ih =>
    have hstep := ih.shiftRightOne (Nat.mul_pos hb (Nat.two_pow_pos t))
    rw [Nat.mul_assoc, ← Nat.pow_succ] at hstep
    exact hstep

/-- **What is rounded is the quotient.** -/
theorem Represents.roundedMantissa (hb : 0 < b) (h : Represents em a b) : em.roundedMantissa = roundHalfEven a b := by
  have hrest : a % b < b := Nat.mod_lt a hb
  obtain ⟨q, round, sticky⟩ := em
  obtain ⟨hm, hround, hsticky⟩ := h
  unfold roundHalfEven
  dsimp only at hm hround hsticky ⊢
  rw [← hm]
  cases round with
  | false =>
    have hbelow : 2 * (a % b) < b := by simpa using hround
    rw [if_pos (Or.inl hbelow)]
    cases sticky with
    | false => rfl
    | true => rfl
  | true =>
    have habove : b ≤ 2 * (a % b) := by simpa using hround
    cases sticky with
    | false =>
      have htie : 2 * (a % b) = b := by
        simp only [Bool.false_eq, decide_eq_false_iff_not] at hsticky
        omega
      change q + q % 2 = _
      rcases Nat.mod_two_eq_zero_or_one q with heven | hodd
      · rw [if_pos (Or.inr ⟨htie, heven⟩), heven, Nat.add_zero]
      · rw [if_neg (by omega), hodd]
    | true =>
      have hne : 2 * (a % b) ≠ b := by
        simp only [Bool.true_eq, decide_eq_true_eq] at hsticky
        exact hsticky.2
      rw [if_neg (by omega)]
      rfl

/-! ### Numbers of units -/

theorem le_roundHalfEven (a b : ℕ) : a / b ≤ roundHalfEven a b := by
  unfold roundHalfEven
  dsimp only
  split_ifs
  · exact Nat.le_refl _
  · exact Nat.le_succ _

theorem roundHalfEven_le (a b : ℕ) : roundHalfEven a b ≤ a / b + 1 := by
  unfold roundHalfEven
  dsimp only
  split_ifs
  · exact Nat.le_succ _
  · exact Nat.le_refl _

/-- The step at the height of `p / q` units, as an exponent of two. -/
def stepOf (p q : ℕ) : ℕ := Nat.log2 (p / q) - 52

/-- The bits of the magnitude nearest to `p / q` units. -/
def nearestUnits (p q : ℕ) : ℕ :=
  min (stepOf p q * binade + roundHalfEven p (q * 2 ^ stepOf p q)) infinityBits

theorem nearest_eq (a b : ℕ) : nearest a b = nearestUnits (a * unitsPerOne) b := rfl

theorem nearestUnits_mul_right {p q : ℕ} (hk : 0 < k) : nearestUnits (p * k) (q * k) = nearestUnits p q := by
  have hstep : stepOf (p * k) (q * k) = stepOf p q := by
    unfold stepOf
    rw [Nat.mul_div_mul_right p q hk]
  unfold nearestUnits
  rw [hstep, Nat.mul_right_comm, roundHalfEven_mul_right hk]

/-- The number of steps has 53 binary digits, or fewer where the step is the least one. -/
theorem steps_lt (p q : ℕ) : p / (q * 2 ^ stepOf p q) < 2 ^ 53 := by
  have hlog : p / q < 2 ^ (Nat.log2 (p / q) + 1) := Nat.lt_log2_self
  have hpow : 2 ^ (Nat.log2 (p / q) + 1) ≤ 2 ^ (53 + stepOf p q) := by
    unfold stepOf
    exact Nat.pow_le_pow_right Nat.two_pos (by omega)
  rw [← Nat.div_div_eq_div_mul, Nat.div_lt_iff_lt_mul (Nat.two_pow_pos _), ← Nat.pow_add]
  exact Nat.lt_of_lt_of_le hlog hpow

theorem le_steps {p q : ℕ} (h : stepOf p q ≠ 0) : 2 ^ 52 ≤ p / (q * 2 ^ stepOf p q) := by
  have hlog : Nat.log2 (p / q) = 52 + stepOf p q := by
    unfold stepOf at h ⊢
    omega
  have hne : p / q ≠ 0 := by
    intro hzero
    rw [hzero, Nat.log2_zero] at hlog
    omega
  rw [← Nat.div_div_eq_div_mul, Nat.le_div_iff_mul_le (Nat.two_pow_pos _), ← Nat.pow_add, ← hlog]
  exact Nat.log2_self_le hne

/-- Powers of two move the binary digits of a quotient, until none is left before the point. -/
theorem log2_mul_div_mul (hb : 0 < b) (h : a / b ≠ 0) (i j : ℕ) :
    Nat.log2 (a * 2 ^ i / (b * 2 ^ j)) = Nat.log2 (a / b) + i - j := by
  obtain ⟨l, hl⟩ : ∃ l, Nat.log2 (a / b) = l := ⟨_, rfl⟩
  have hlow : 2 ^ l * b ≤ a := by
    rw [← Nat.le_div_iff_mul_le hb, ← hl]
    exact Nat.log2_self_le h
  have hhigh : a < 2 ^ (l + 1) * b := by
    rw [← Nat.div_lt_iff_lt_mul hb, ← hl]
    exact Nat.lt_log2_self
  have hden : 0 < b * 2 ^ j := Nat.mul_pos hb (Nat.two_pow_pos j)
  have hlow' : 2 ^ (l + i) * b ≤ a * 2 ^ i := by
    rw [Nat.pow_add, Nat.mul_right_comm]
    exact Nat.mul_le_mul_right _ hlow
  have hhigh' : a * 2 ^ i < 2 ^ (l + i + 1) * b := by
    rw [Nat.add_right_comm, Nat.pow_add, Nat.mul_right_comm]
    exact Nat.mul_lt_mul_of_pos_right hhigh (Nat.two_pow_pos i)
  have hshift : ∀ n, 2 ^ n * (b * 2 ^ j) = 2 ^ (n + j) * b := by
    intro n
    rw [Nat.pow_add, Nat.mul_comm b, Nat.mul_assoc]
  rw [hl]
  rcases Nat.lt_or_ge (l + i) j with hj | hj
  · have hzero : a * 2 ^ i / (b * 2 ^ j) = 0 := by
      refine Nat.div_eq_of_lt (Nat.lt_of_lt_of_le hhigh' ?_)
      rw [Nat.mul_comm b]
      exact Nat.mul_le_mul_right b (Nat.pow_le_pow_right Nat.two_pos hj)
    rw [hzero, Nat.log2_zero]
    omega
  · have hfirst : 2 ^ (l + i - j) ≤ a * 2 ^ i / (b * 2 ^ j) := by
      rw [Nat.le_div_iff_mul_le hden, hshift, Nat.sub_add_cancel hj]
      exact hlow'
    have hlast : a * 2 ^ i / (b * 2 ^ j) < 2 ^ (l + i - j + 1) := by
      rw [Nat.div_lt_iff_lt_mul hden, hshift, Nat.add_right_comm, Nat.sub_add_cancel hj]
      exact hhigh'
    have hne : a * 2 ^ i / (b * 2 ^ j) ≠ 0 := Nat.ne_of_gt (Nat.lt_of_lt_of_le (Nat.two_pow_pos _) hfirst)
    exact (Nat.log2_eq_iff hne).mpr ⟨hfirst, hlast⟩

/-! ### Packing -/

theorem toNat_packComponents {spec : Float.Model.Format} (x : BitVec spec.exponentBits)
    (y : BitVec spec.mantissaBitsWithoutImplicit) :
    (packComponents spec .positive x y).toNat = x.toNat * 2 ^ spec.mantissaBitsWithoutImplicit + y.toNat := by
  unfold packComponents
  rw [BitVec.toNat_append, BitVec.toNat_append, ← Nat.shiftLeft_add_eq_or_of_lt y.isLt, Nat.shiftLeft_eq]
  congr 2
  change 0 <<< spec.exponentBits ||| x.toNat = x.toNat
  rw [Nat.zero_shiftLeft, Nat.zero_or]

theorem toNat_packComponents_ofNat (n m : ℕ) :
    (packComponents .binary64 .positive (BitVec.ofNat Format.binary64.exponentBits n)
      (BitVec.ofNat Format.binary64.mantissaBitsWithoutImplicit m)).toNat = n % 2048 * 2 ^ 52 + m % 2 ^ 52 := by
  have hexponent : (BitVec.ofNat Format.binary64.exponentBits n).toNat = n % 2048 := BitVec.toNat_ofNat n 11
  have hmantissa : (BitVec.ofNat Format.binary64.mantissaBitsWithoutImplicit m).toNat = m % 2 ^ 52 :=
    BitVec.toNat_ofNat m 52
  rw [toNat_packComponents, hexponent, hmantissa]

theorem toNat_packedInfinity : (packedInfinity .binary64 .positive).toNat = infinityBits := by
  decide

theorem toNat_biased (k : ℕ) :
    ((k : ℤ) - 1074 + Format.binary64.exponentBias + Format.binary64.mantissaBitsWithoutImplicit).toNat = k + 1 := by
  have hbias : (Format.binary64.exponentBias : ℤ) = 1023 := rfl
  have hwidth : (Format.binary64.mantissaBitsWithoutImplicit : ℤ) = 52 := rfl
  omega

/-- A mantissa is packed behind the blocks of smaller steps. -/
theorem toNat_pack_finite (hpos : 0 < m) (hm : m < 2 ^ 53) (hk : k ≠ 0 → 2 ^ 52 ≤ m) :
    (pack .binary64 (.finite .positive m ((k : ℤ) - 1074) hpos)).toNat = min (k * binade + m) infinityBits := by
  have hbinade : binade = 2 ^ 52 := rfl
  have hinf : infinityBits = 2047 * 2 ^ 52 := rfl
  rw [hbinade, hinf]
  unfold pack
  dsimp only
  rw [toNat_biased]
  split_ifs with hover hnormal
  · have hover : 2048 ≤ k + 1 + 1 := hover
    have hbig : 2 ^ 52 ≤ m := hk (by omega)
    rw [toNat_packedInfinity]
    omega
  · have hover : ¬ 2048 ≤ k + 1 + 1 := hover
    have hlog : Nat.log2 m + 1 = 53 := hnormal
    have hbig : 2 ^ 52 ≤ m := ((Nat.log2_eq_iff hpos.ne').mp (Nat.succ.inj hlog)).1
    rw [toNat_packComponents_ofNat]
    omega
  · have hlog : Nat.log2 m + 1 ≠ 53 := hnormal
    have hsmall : m < 2 ^ 52 := by
      by_contra hbig
      exact hlog (congrArg Nat.succ ((Nat.log2_eq_iff hpos.ne').mpr ⟨Nat.le_of_not_lt hbig, hm⟩))
    have hzero : k = 0 := by
      by_contra hne
      exact Nat.not_le_of_lt hsmall (hk hne)
    rw [toNat_packComponents_ofNat]
    omega

/-! ### Rounding -/

theorem stepOf_mul_pow (hb : 0 < b) (h : 52 ≤ Nat.log2 (a / b) ∨ i ≤ j) :
    stepOf (a * 2 ^ i) (b * 2 ^ j) = Nat.log2 (a / b) + i - j - 52 := by
  unfold stepOf
  by_cases hzero : a / b = 0
  · rw [hzero, Nat.log2_zero] at h ⊢
    have hij : i ≤ j := by omega
    have hlt : a * 2 ^ i < b * 2 ^ j :=
      Nat.mul_lt_mul_of_lt_of_le ((Nat.div_eq_zero_iff_lt hb).mp hzero) (Nat.pow_le_pow_right Nat.two_pos hij)
        (Nat.two_pow_pos j)
    rw [Nat.div_eq_of_lt hlt, Nat.log2_zero]
    omega
  · rw [log2_mul_div_mul hb hzero]

/-- The mantissa is shifted until the step is the one of its height. -/
theorem shiftToTargetExponent_eq (acc : Accuracy) (he : e = (i : ℤ) - j - 1074) (hk : k = Nat.log2 m + i - j - 52)
    (hle : i ≤ k + j) :
    shiftToTargetExponent .binary64 m e acc =
      (ExtendedMantissa.ofMantissaAndAccuracy m acc >>> (k + j - i), (k : ℤ) - 1074) := by
  have hmin : Format.binary64.minExponent = -1074 := rfl
  have hbits : (Format.binary64.mantissaBits : ℤ) = 53 := rfl
  have htarget : Format.binary64.targetExponent (totalExponent m e) = (k : ℤ) - 1074 := by
    unfold Format.targetExponent totalExponent
    omega
  have hshift : ((k : ℤ) - 1074 - e).toNat = k + j - i := by omega
  have hend : e + (k + j - i : ℕ) = (k : ℤ) - 1074 := by omega
  unfold shiftToTargetExponent shiftToExponent
  dsimp only
  rw [htarget, hshift, hend]

/-- What becomes of a rounded mantissa: if rounding has added a binary digit, a second shift takes it off. -/
def carried (r : ℕ) (e : ℤ) : Float.Model.UnpackedFloat :=
  let shifted := shiftToTargetExponent .binary64 r e .exact
  if h : shifted.1.mantissa = 0 then .zero .positive
  else .finite .positive shifted.1.mantissa shifted.2 (Nat.pos_of_ne_zero h)

theorem roundWithAccuracy_eq (m : ℕ) (e : ℤ) (acc : Accuracy) :
    roundWithAccuracy .binary64 .positive m e acc =
      carried (shiftToTargetExponent .binary64 m e acc).1.roundedMantissa
        (shiftToTargetExponent .binary64 m e acc).2 := rfl

theorem toNat_packedZero : (pack .binary64 (.zero .positive)).toNat = 0 := by
  decide

theorem log2_le_of_lt (h : m < 2 ^ (n + 1)) : Nat.log2 m ≤ n := by
  by_cases hzero : m = 0
  · rw [hzero, Nat.log2_zero]
    exact Nat.zero_le n
  · exact Nat.le_of_lt_succ ((Nat.log2_lt hzero).mpr h)

theorem toNat_pack_carried (hm : m ≤ 2 ^ 53) (hk : k ≠ 0 → 2 ^ 52 ≤ m) :
    (pack .binary64 (carried m ((k : ℤ) - 1074))).toNat = min (k * binade + m) infinityBits := by
  have hbinade : binade = 2 ^ 52 := rfl
  obtain ⟨t, ht⟩ : ∃ t, t = Nat.log2 m + k - 0 - 52 := ⟨_, rfl⟩
  obtain ⟨q, hq⟩ : ∃ q, m / 2 ^ (t - k) = q := ⟨_, rfl⟩
  have hcarry : (t = k ∧ q = m ∧ m < 2 ^ 53) ∨ (t = k + 1 ∧ q = 2 ^ 52 ∧ m = 2 ^ 53) := by
    rcases Nat.lt_or_eq_of_le hm with hlt | rfl
    · have hlog : Nat.log2 m ≤ 52 := log2_le_of_lt hlt
      have htk : t = k := by
        by_cases hbig : 2 ^ 52 ≤ m
        · have hlog' : 52 ≤ Nat.log2 m := (Nat.le_log2 (by omega)).mpr hbig
          omega
        · have hzero : k = 0 := by
            by_contra hne
            exact hbig (hk hne)
          omega
      rw [htk, Nat.sub_self, Nat.pow_zero, Nat.div_one] at hq
      exact Or.inl ⟨htk, hq.symm, hlt⟩
    · rw [Nat.log2_two_pow] at ht
      have htk : t = k + 1 := by omega
      rw [htk, Nat.add_sub_cancel_left] at hq
      exact Or.inr ⟨htk, by omega, rfl⟩
  have hshift := shiftToTargetExponent_eq (e := (k : ℤ) - 1074) (i := k) (j := 0) .exact (by omega) ht (by omega)
  have hlast : (shiftToTargetExponent .binary64 m ((k : ℤ) - 1074) .exact).1.mantissa = q := by
    rw [hshift, ((represents_exact m).shiftRight Nat.one_pos (t + 0 - k)).mantissa, Nat.one_mul, Nat.add_zero, hq]
  have hend : (shiftToTargetExponent .binary64 m ((k : ℤ) - 1074) .exact).2 = (t : ℤ) - 1074 := by
    rw [hshift]
  unfold carried
  simp only [hlast, hend, hbinade]
  split_ifs with hzero
  · rw [toNat_packedZero]
    omega
  · rw [toNat_pack_finite, hbinade]
    · omega
    · omega
    · omega

/-- **Rounding finds the nearest double.** -/
theorem toNat_pack_round {acc : Accuracy} (hb : 0 < b)
    (h : Represents (ExtendedMantissa.ofMantissaAndAccuracy (a / b) acc) a b) (he : e = (i : ℤ) - j - 1074)
    (hlarge : 52 ≤ Nat.log2 (a / b) ∨ i ≤ j) :
    (pack .binary64 (roundWithAccuracy .binary64 .positive (a / b) e acc)).toNat =
      nearestUnits (a * 2 ^ i) (b * 2 ^ j) := by
  obtain ⟨s, hs⟩ : ∃ s, stepOf (a * 2 ^ i) (b * 2 ^ j) = s := ⟨_, rfl⟩
  have hlog : s = Nat.log2 (a / b) + i - j - 52 := hs.symm.trans (stepOf_mul_pow hb hlarge)
  have hshift := shiftToTargetExponent_eq acc he hlog (by omega)
  have hround : (ExtendedMantissa.ofMantissaAndAccuracy (a / b) acc >>> (s + j - i)).roundedMantissa =
      roundHalfEven (a * 2 ^ i) (b * 2 ^ j * 2 ^ s) := by
    have hpow : b * 2 ^ (s + j - i) * 2 ^ i = b * 2 ^ j * 2 ^ s := by
      rw [Nat.mul_assoc, Nat.mul_assoc, ← Nat.pow_add, ← Nat.pow_add]
      congr 2
      omega
    have hshifted := h.shiftRight hb (s + j - i)
    rw [hshifted.roundedMantissa (Nat.mul_pos hb (Nat.two_pow_pos _)), ← hpow,
      roundHalfEven_mul_right (Nat.two_pow_pos i)]
  have hlt := steps_lt (a * 2 ^ i) (b * 2 ^ j)
  have hup := roundHalfEven_le (a * 2 ^ i) (b * 2 ^ j * 2 ^ s)
  have hfull : s ≠ 0 → 2 ^ 52 ≤ roundHalfEven (a * 2 ^ i) (b * 2 ^ j * 2 ^ s) := by
    intro hne
    rw [← hs] at hne ⊢
    exact (le_steps hne).trans (le_roundHalfEven _ _)
  rw [hs] at hlt
  unfold nearestUnits
  rw [roundWithAccuracy_eq, hshift]
  dsimp only
  rw [hround, hs]
  exact toNat_pack_carried (by omega) hfull

end Formula.Decimal
