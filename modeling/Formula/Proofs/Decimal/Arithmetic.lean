import Formula.Proofs.Decimal.Rounding

/-!
# Products and quotients of doubles

The product and the quotient of two doubles that are not negative are the doubles nearest to the product and the
quotient of what they stand for (`toFloat_mul`, `toFloat_div`). A natural number of at most 53 binary digits, with zeros
behind them, is a double (`nearest_of_isDouble`), so products and quotients of such numbers are rounded once
(`ofNat_mul`, `ofNat_div`).
-/

namespace Formula.Decimal

open Float.Model (Format totalExponent)
open Float.Model.UnpackedFloat

variable {w : BitVec Format.binary64.numBits} {j k m n p q : ℕ} {x y : Float}

/-! ### Unpacking -/

theorem toNat_unpackMantissa (w : BitVec Format.binary64.numBits) : (unpackMantissa w).toNat = w.toNat % 2 ^ 52 := by
  unfold unpackMantissa
  rw [BitVec.toNat_cast, BitVec.extractLsb_toNat, Nat.shiftRight_zero]
  rfl

theorem toNat_unpackSign (w : BitVec Format.binary64.numBits) : (unpackSign w).toNat = w.toNat / signBit % 2 := by
  unfold unpackSign
  rw [BitVec.toNat_cast, BitVec.extractLsb_toNat, Nat.shiftRight_eq_div_pow]
  rfl

theorem ofBitVec_unpackSign (w : BitVec Format.binary64.numBits) :
    Sign.ofBitVec (unpackSign w) = if w.toNat < signBit then .positive else .negative := by
  have hlt : w.toNat < 2 * signBit := w.isLt
  have hpos : 0 < signBit := Nat.two_pow_pos 63
  have hbit := toNat_unpackSign w
  unfold Sign.ofBitVec
  by_cases hsign : w.toNat < signBit
  · rw [Nat.div_eq_of_lt hsign, Nat.zero_mod] at hbit
    rw [if_pos hsign, if_pos (BitVec.eq_of_toNat_eq hbit)]
  · have hone : w.toNat / signBit = 1 := Nat.div_eq_of_lt_le (by omega) (by omega)
    rw [hone] at hbit
    rw [if_neg hsign, if_neg]
    intro hzero
    rw [hzero] at hbit
    cases hbit

/-- **The words of finite doubles without a sign**: zero, and mantissas that count the units in steps. -/
theorem unpack_of_lt (h : w.toNat < infinityBits) :
    (w.toNat = 0 ∧ unpack .binary64 w = .zero .positive) ∨
      ∃ (m k : ℕ) (hpos : 0 < m), unpack .binary64 w = .finite .positive m ((k : ℤ) - 1074) hpos ∧
        units w.toNat = m * 2 ^ k ∧ m < 2 ^ 53 ∧ (k ≠ 0 → 2 ^ 52 ≤ m) := by
  have hbinade : binade = 2 ^ 52 := rfl
  have hinf : infinityBits = 2047 * 2 ^ 52 := rfl
  have hsign : signBit = 2 ^ 63 := rfl
  have hfinite : unpackExponent w ≠ -1#_ := by
    rw [unpackExponent_ne_iff, Nat.mod_eq_of_lt (by omega)]
    exact h
  have hpositive : Sign.ofBitVec (unpackSign w) = .positive := by
    rw [ofBitVec_unpackSign, if_pos (by omega)]
  have hbias : (Format.binary64.exponentBias : ℤ) + Format.binary64.mantissaBitsWithoutImplicit = 1075 := rfl
  have hexponent := toNat_unpackExponent w
  have hmantissa := toNat_unpackMantissa w
  have hunits : units w.toNat = if w.toNat < 2 * 2 ^ 52 then w.toNat
      else (2 ^ 52 + w.toNat % 2 ^ 52) * 2 ^ (w.toNat / 2 ^ 52 - 1) := rfl
  unfold unpack
  dsimp only
  rw [if_neg hfinite, hpositive, hbias]
  by_cases hlow : unpackExponent w = 0#_
  · have hlow' : w.toNat / 2 ^ 52 % 2 ^ 11 = 0 := by
      rw [← hexponent, hlow]
      rfl
    rw [if_pos hlow]
    by_cases hzero : unpackMantissa w = 0#_
    · have hzero' : w.toNat % 2 ^ 52 = 0 := by
        rw [← hmantissa, hzero]
        rfl
      rw [dif_pos hzero]
      exact Or.inl ⟨by omega, rfl⟩
    · have hzero' : (unpackMantissa w).toNat ≠ 0 := fun h0 => hzero (BitVec.eq_of_toNat_eq h0)
      rw [dif_neg hzero]
      refine Or.inr ⟨_, 0, Nat.pos_of_ne_zero hzero', ?_, ?_, ?_, fun hne => absurd rfl hne⟩
      · rw [hlow]
        rfl
      · rw [hunits, if_pos (by omega), hmantissa]
        omega
      · omega
  · have hnormal : 2 ^ 52 ≤ w.toNat := by
      by_contra hlt
      rw [Nat.div_eq_of_lt (Nat.lt_of_not_le hlt), Nat.zero_mod] at hexponent
      exact hlow (BitVec.eq_of_toNat_eq hexponent)
    have hfull : (1#1 ++ unpackMantissa w).toNat = 2 ^ 52 + w.toNat % 2 ^ 52 := by
      rw [BitVec.toNat_append, ← Nat.shiftLeft_add_eq_or_of_lt (unpackMantissa w).isLt, hmantissa, Nat.shiftLeft_eq]
      rfl
    rw [if_neg hlow]
    refine Or.inr ⟨_, w.toNat / 2 ^ 52 - 1, hfull ▸ Nat.add_pos_left (Nat.two_pow_pos 52) _, ?_, ?_, ?_, ?_⟩
    · congr 1
      omega
    · rw [hunits, hfull]
      split_ifs with hsmall
      · have hfirst : w.toNat / 2 ^ 52 = 1 := by omega
        rw [hfirst, Nat.sub_self, Nat.pow_zero]
        omega
      · rfl
    · rw [hfull]
      omega
    · rw [hfull]
      exact fun _ => Nat.le_add_right _ _

/-! ### Products and quotients -/

theorem toNat_word_toFloat (h : n < infinityBits) : (word (toFloat false n).toBits).toNat = n := by
  have hinf : infinityBits = 2047 * 2 ^ 52 := rfl
  have hsign : signBit = 2 ^ 63 := rfl
  have hw : (word (UInt64.ofNat n)).toNat = n := by
    change (UInt64.ofNat n).toNat = n
    rw [UInt64.toNat_ofNat']
    exact Nat.mod_eq_of_lt (by omega)
  have hfinite : unpackExponent (word (UInt64.ofNat n)) ≠ -1#_ := by
    rw [unpackExponent_ne_iff, hw, Nat.mod_eq_of_lt (by omega)]
    exact h
  rw [toFloat, if_neg Bool.false_ne_true, toBits_ofBits hfinite, hw]

theorem eq_toFloat (h : (word x.toBits).toNat = n) : x = toFloat false n := by
  have hw : x.toBits = UInt64.ofNat n := by
    rw [← h]
    exact UInt64.ofNat_toNat.symm
  rw [toFloat, if_neg Bool.false_ne_true, ← hw]
  exact x.ofBits_toBits.symm

theorem eq_of_toNat_word (h : (word x.toBits).toNat = (word y.toBits).toNat) : x = y := by
  have hbits : x.toBits = y.toBits := UInt64.toNat_inj.mp h
  rw [← x.ofBits_toBits, hbits, y.ofBits_toBits]

theorem word_mul (x y : Float) :
    word (x * y).toBits = pack .binary64 (mul .binary64 (unpack .binary64 (word x.toBits))
      (unpack .binary64 (word y.toBits))) := rfl

theorem word_div (x y : Float) :
    word (x / y).toBits = pack .binary64 (div .binary64 (unpack .binary64 (word x.toBits))
      (unpack .binary64 (word y.toBits))) := rfl

theorem units_zero : units 0 = 0 := rfl

theorem unitsPerOne_eq : unitsPerOne = 2 ^ 1074 := by
  unfold unitsPerOne
  generalize 1074 = n
  rfl

theorem two_pow_add_units (n : ℕ) : 2 ^ (n + 1074) = 2 ^ n * unitsPerOne := by
  unfold unitsPerOne
  generalize 1074 = k
  exact Nat.pow_add 2 n k

/-- **A product of doubles is the double nearest to the product.** -/
theorem toFloat_mul (hn : n < infinityBits) (hm : m < infinityBits) :
    toFloat false n * toFloat false m = toFloat false (nearest (units n * units m) (unitsPerOne * unitsPerOne)) := by
  have hwn := toNat_word_toFloat hn
  have hwm := toNat_word_toFloat hm
  have hleft := unpack_of_lt (w := word (toFloat false n).toBits) (by omega)
  have hright := unpack_of_lt (w := word (toFloat false m).toBits) (by omega)
  rw [hwn] at hleft
  rw [hwm] at hright
  apply eq_toFloat
  rw [word_mul]
  rcases hleft with ⟨rfl, hleft⟩ | ⟨m₁, k₁, hpos₁, hleft, hunits₁, -, hk₁⟩
  · rw [hleft, units_zero, Nat.zero_mul, nearest_zero]
    rcases hright with ⟨-, hright⟩ | ⟨m₂, k₂, hpos₂, hright, -⟩
    · rw [hright]
      exact toNat_packedZero
    · rw [hright]
      exact toNat_packedZero
  · rcases hright with ⟨rfl, hright⟩ | ⟨m₂, k₂, hpos₂, hright, hunits₂, -, hk₂⟩
    · rw [hleft, hright, units_zero, Nat.mul_zero, nearest_zero]
      exact toNat_packedZero
    · have hproduct : units n * units m = m₁ * m₂ * 2 ^ (k₁ + k₂) := by
        rw [hunits₁, hunits₂, Nat.pow_add]
        ring
      have hlarge : 52 ≤ Nat.log2 (m₁ * m₂ / 1) ∨ k₁ + k₂ ≤ 1074 := by
        rw [Nat.div_one, Nat.le_log2 (Nat.mul_ne_zero hpos₁.ne' hpos₂.ne')]
        by_cases hk : k₁ = 0
        · by_cases hk' : k₂ = 0
          · exact Or.inr (by omega)
          · exact Or.inl ((hk₂ hk').trans (Nat.le_mul_of_pos_left m₂ hpos₁))
        · exact Or.inl ((hk₁ hk).trans (Nat.le_mul_of_pos_right m₁ hpos₂))
      have hrep : Represents (ExtendedMantissa.ofMantissaAndAccuracy (m₁ * m₂ / 1) .exact) (m₁ * m₂) 1 := by
        rw [Nat.div_one]
        exact represents_exact (m₁ * m₂)
      have hround := toNat_pack_round (e := (k₁ : ℤ) - 1074 + (k₂ - 1074)) Nat.one_pos hrep (by omega) hlarge
      rw [Nat.div_one, ← hproduct, Nat.one_mul, ← unitsPerOne_eq] at hround
      rw [hleft, hright, nearest_eq, nearestUnits_mul_right unitsPerOne_pos]
      exact hround

/-- Before a division the mantissa is shifted to the left as far as the height of the quotient asks for. -/
theorem divCore_eq {m₁ m₂ : ℕ} (h₁ : 0 < m₁) (h₂ : 0 < m₂) (k₁ k₂ : ℕ) :
    ∃ s : ℕ, divCore .binary64 m₁ ((k₁ : ℤ) - 1074) m₂ ((k₂ : ℤ) - 1074) =
        (m₁ * 2 ^ s / m₂, (k₁ : ℤ) - k₂ - s, accuracyOfFraction (m₁ * 2 ^ s % m₂) m₂) ∧
      (52 ≤ Nat.log2 (m₁ * 2 ^ s / m₂) ∨ k₁ + 1074 ≤ k₂ + s) := by
  have hmin : Format.binary64.minExponent = -1074 := rfl
  have hbits : (Format.binary64.mantissaBits : ℤ) = 53 := rfl
  obtain ⟨t, ht⟩ : ∃ t, min ((k₁ : ℤ) - 1074 - (k₂ - 1074)) (Format.binary64.targetExponent
      (totalExponent m₁ ((k₁ : ℤ) - 1074) - totalExponent m₂ ((k₂ : ℤ) - 1074))) = t := ⟨_, rfl⟩
  have hcore : divCore .binary64 m₁ ((k₁ : ℤ) - 1074) m₂ ((k₂ : ℤ) - 1074) =
      (m₁ <<< ((k₁ : ℤ) - 1074 - (k₂ - 1074) - t).toNat / m₂, t,
        accuracyOfFraction (m₁ <<< ((k₁ : ℤ) - 1074 - (k₂ - 1074) - t).toNat % m₂) m₂) := by
    rw [← ht]
    rfl
  unfold Format.targetExponent totalExponent at ht
  obtain ⟨s, hs⟩ : ∃ s : ℕ, ((k₁ : ℤ) - 1074 - (k₂ - 1074) - t).toNat = s := ⟨_, rfl⟩
  refine ⟨s, ?_, ?_⟩
  · have hend : t = (k₁ : ℤ) - k₂ - s := by omega
    rw [hcore, hs, hend, Nat.shiftLeft_eq]
  · by_cases hlow : t ≤ -1074
    · exact Or.inr (by omega)
    · have hshift : Nat.log2 m₂ + 53 ≤ Nat.log2 m₁ + s := by omega
      have hdividend : 2 ^ (Nat.log2 m₂ + 53) ≤ m₁ * 2 ^ s := by
        refine (Nat.pow_le_pow_right Nat.two_pos hshift).trans ?_
        rw [Nat.pow_add]
        exact Nat.mul_le_mul_right _ (Nat.log2_self_le h₁.ne')
      have hquotient : 2 ^ 52 ≤ m₁ * 2 ^ s / m₂ := by
        rw [Nat.le_div_iff_mul_le h₂]
        refine le_trans ?_ hdividend
        have hdivisor : m₂ ≤ 2 ^ (Nat.log2 m₂ + 1) := Nat.lt_log2_self.le
        calc 2 ^ 52 * m₂ ≤ 2 ^ 52 * 2 ^ (Nat.log2 m₂ + 1) := Nat.mul_le_mul_left _ hdivisor
          _ = 2 ^ (Nat.log2 m₂ + 53) := by
            rw [← Nat.pow_add]
            congr 1
            omega
      exact Or.inl ((Nat.le_log2 (Nat.ne_of_gt (lt_of_lt_of_le (Nat.two_pow_pos 52) hquotient))).mpr hquotient)

/-- **A quotient of doubles is the double nearest to the quotient.** -/
theorem toFloat_div (hn : n < infinityBits) (hm : m < infinityBits) (hm' : 0 < m) :
    toFloat false n / toFloat false m = toFloat false (nearest (units n) (units m)) := by
  have hwn := toNat_word_toFloat hn
  have hwm := toNat_word_toFloat hm
  have hleft := unpack_of_lt (w := word (toFloat false n).toBits) (by omega)
  have hright := unpack_of_lt (w := word (toFloat false m).toBits) (by omega)
  rw [hwn] at hleft
  rw [hwm] at hright
  apply eq_toFloat
  rw [word_div]
  rcases hright with ⟨hzero, -⟩ | ⟨m₂, k₂, hpos₂, hright, hunits₂, -, -⟩
  · omega
  · rcases hleft with ⟨rfl, hleft⟩ | ⟨m₁, k₁, hpos₁, hleft, hunits₁, -, -⟩
    · rw [hleft, hright, units_zero, nearest_zero]
      exact toNat_packedZero
    · obtain ⟨s, hcore, hlarge⟩ := divCore_eq hpos₁ hpos₂ k₁ k₂
      have hround := toNat_pack_round hpos₂ (represents_fraction hpos₂ (m₁ * 2 ^ s)) (e := (k₁ : ℤ) - k₂ - s)
        (by omega) hlarge
      have hquotient : m₁ * 2 ^ s * 2 ^ (k₁ + 1074) = units n * unitsPerOne * 2 ^ s := by
        rw [hunits₁, two_pow_add_units]
        ring
      have hdivisor : m₂ * 2 ^ (k₂ + s) = units m * 2 ^ s := by
        rw [hunits₂, Nat.pow_add, Nat.mul_assoc]
      rw [hquotient, hdivisor, nearestUnits_mul_right (Nat.two_pow_pos s)] at hround
      rw [hleft, hright, nearest_eq]
      unfold div
      dsimp only
      rw [hcore]
      exact hround

/-! ### Signs -/

theorem word_neg (x : Float) : word (-x).toBits = pack .binary64 (neg (unpack .binary64 (word x.toBits))) := rfl

/-- Words that differ in the sign only. -/
theorem unpack_eq_neg {v : BitVec Format.binary64.numBits} (hexponent : unpackExponent v = unpackExponent w)
    (hmantissa : unpackMantissa v = unpackMantissa w)
    (hsign : Sign.ofBitVec (unpackSign v) = -Sign.ofBitVec (unpackSign w)) :
    unpack .binary64 v = neg (unpack .binary64 w) := by
  unfold unpack
  dsimp only
  simp only [hexponent, hmantissa, hsign]
  split_ifs <;> rfl

/-- The number of a word with the other sign. -/
def flip (n : ℕ) : ℕ :=
  if n < signBit then n + signBit else n - signBit

/-- **The negative of a finite double** has the other sign. -/
theorem toNat_word_neg (hx : x.isFinite = true) : (word (-x).toBits).toNat = flip (word x.toBits).toNat := by
  have hsign : signBit = 2 ^ 63 := rfl
  have hlt : (word x.toBits).toNat < 2 ^ 64 := (word x.toBits).isLt
  obtain ⟨n, hn⟩ : ∃ n, flip (word x.toBits).toNat = n := ⟨_, rfl⟩
  obtain ⟨v, hv⟩ : ∃ v : BitVec Format.binary64.numBits, v.toNat = n := by
    refine ⟨BitVec.ofNat _ n, (BitVec.toNat_ofNat n 64).trans (Nat.mod_eq_of_lt ?_)⟩
    rw [← hn, flip, hsign]
    split_ifs <;> omega
  have hexponent : unpackExponent v = unpackExponent (word x.toBits) := by
    apply BitVec.eq_of_toNat_eq
    rw [toNat_unpackExponent, toNat_unpackExponent, hv, ← hn, flip, hsign]
    split_ifs <;> omega
  have hmantissa : unpackMantissa v = unpackMantissa (word x.toBits) := by
    apply BitVec.eq_of_toNat_eq
    rw [toNat_unpackMantissa, toNat_unpackMantissa, hv, ← hn, flip, hsign]
    split_ifs <;> omega
  have hother : Sign.ofBitVec (unpackSign v) = -Sign.ofBitVec (unpackSign (word x.toBits)) := by
    rw [ofBitVec_unpackSign, ofBitVec_unpackSign, hv, ← hn, flip]
    by_cases hneg : (word x.toBits).toNat < signBit
    · rw [if_pos hneg, if_neg (by omega), if_pos hneg]
      rfl
    · rw [if_neg hneg, if_pos (by omega), if_neg hneg]
      rfl
  have hfinite : unpackExponent v ≠ -1#_ := by
    rw [hexponent]
    exact isFinite_iff.mp hx
  rw [word_neg, ← unpack_eq_neg hexponent hmantissa hother, pack_unpack_of_ne hfinite, hv, hn]

theorem isFinite_toFloat (h : n < infinityBits) : (toFloat false n).isFinite = true := by
  have hinf : infinityBits = 2047 * 2 ^ 52 := rfl
  have hsign : signBit = 2 ^ 63 := rfl
  rw [isFinite_iff, unpackExponent_ne_iff, toNat_word_toFloat h, Nat.mod_eq_of_lt (by omega)]
  exact h

/-- The negative of a finite magnitude. -/
theorem neg_toFloat (h : n < infinityBits) :
    (-toFloat false n).isFinite = true ∧ isNegative (-toFloat false n) = true := by
  have hinf : infinityBits = 2047 * 2 ^ 52 := rfl
  have hsign : signBit = 2 ^ 63 := rfl
  have hword : (word (-toFloat false n).toBits).toNat = n + signBit := by
    rw [toNat_word_neg (isFinite_toFloat h), toNat_word_toFloat h, flip, if_pos (by omega)]
  constructor
  · rw [isFinite_iff, unpackExponent_ne_iff, hword, Nat.add_mod_right, Nat.mod_eq_of_lt (by omega)]
    exact h
  · have hle : signBit ≤ (word (-toFloat false n).toBits).toNat := by
      rw [hword]
      exact Nat.le_add_left _ _
    exact decide_eq_true hle

/-- The negative of a special value is none of the finite ones. -/
theorem isFinite_of_neg (h : (-x).isFinite = true) : x.isFinite = true := by
  have hexponent := isFinite_iff.mp h
  rw [word_neg] at hexponent
  rw [isFinite_iff, ← isFinite_unpack_iff]
  cases hx : unpack .binary64 (word x.toBits) with
  | infinity s =>
    rw [hx, neg, pack, packedInfinity, unpackExponent_packComponents] at hexponent
    exact absurd rfl hexponent
  | notANumber =>
    rw [hx, neg, pack, packedNaN, unpackExponent_packComponents] at hexponent
    exact absurd rfl hexponent
  | zero s => rfl
  | finite s m e hm => rfl

/-- **A finite double with a sign is the negative of its magnitude**, and of no other double. -/
theorem neg_eq_iff (hx : x.isFinite = true) (hneg : isNegative x = true) :
    -y = x ↔ y = toFloat false (magnitude x) := by
  have hsign : signBit = 2 ^ 63 := rfl
  have hinf : infinityBits = 2047 * 2 ^ 52 := rfl
  have hlt : (word x.toBits).toNat < 2 ^ 64 := (word x.toBits).isLt
  have hbits : magnitude x < infinityBits := isFinite_iff_magnitude_lt.mp hx
  have hle : signBit ≤ (word x.toBits).toNat := of_decide_eq_true hneg
  have hmagnitude : magnitude x = (word x.toBits).toNat - signBit := by
    change (word x.toBits).toNat % signBit = _
    rw [Nat.mod_eq_sub_mod hle, Nat.mod_eq_of_lt (by omega)]
  constructor
  · rintro rfl
    have hword := toNat_word_neg (isFinite_of_neg hx)
    have hlt' : (word y.toBits).toNat < 2 ^ 64 := (word y.toBits).isLt
    apply eq_toFloat
    rw [hmagnitude, hword, flip]
    rw [hword, flip] at hle
    split_ifs at hle ⊢ <;> omega
  · rintro rfl
    apply eq_of_toNat_word
    rw [toNat_word_neg (isFinite_toFloat hbits), toNat_word_toFloat hbits, flip, if_pos (by omega), hmagnitude]
    omega

/-! ### Whole numbers that are doubles -/

/-- The units of a magnitude that is given by its step and the number of steps; where the number of steps has one
binary digit too many, the magnitude is the first one of the next block. -/
theorem units_steps (hm : m ≤ 2 ^ 53) (hk : k ≠ 0 → 2 ^ 52 ≤ m) : units (k * binade + m) = m * 2 ^ k := by
  have hbinade : binade = 2 ^ 52 := rfl
  have hunits : units (k * binade + m) = if k * binade + m < 2 * binade then k * binade + m
      else (binade + (k * binade + m) % binade) * 2 ^ ((k * binade + m) / binade - 1) := rfl
  rw [hunits, hbinade]
  rcases Nat.lt_or_eq_of_le hm with hlt | rfl
  · by_cases hzero : k = 0
    · rw [hzero, if_pos (by omega), Nat.pow_zero, Nat.mul_one, Nat.zero_mul, Nat.zero_add]
    · have hbig := hk hzero
      have hdiv : (k * 2 ^ 52 + m) / 2 ^ 52 - 1 = k := by omega
      have hmod : 2 ^ 52 + (k * 2 ^ 52 + m) % 2 ^ 52 = m := by omega
      rw [if_neg (by omega), hdiv, hmod]
  · have hdiv : (k * 2 ^ 52 + 2 ^ 53) / 2 ^ 52 - 1 = k + 1 := by omega
    have hmod : 2 ^ 52 + (k * 2 ^ 52 + 2 ^ 53) % 2 ^ 52 = 2 ^ 52 := by omega
    have hexp : 52 + (k + 1) = 53 + k := by omega
    rw [if_neg (by omega), hdiv, hmod, ← Nat.pow_add, hexp, Nat.pow_add]

/-- A whole number of units with at most 53 binary digits before its zeros is not rounded. -/
theorem units_nearestUnits (hq : 0 < q) (hm : m < 2 ^ 53) (hj : j ≤ 2045) :
    nearestUnits (m * 2 ^ j * q) q < infinityBits ∧ units (nearestUnits (m * 2 ^ j * q) q) = m * 2 ^ j := by
  have hbinade : binade = 2 ^ 52 := rfl
  have hinf : infinityBits = 2047 * 2 ^ 52 := rfl
  obtain ⟨s, hs⟩ : ∃ s, stepOf (m * 2 ^ j * q) q = s := ⟨_, rfl⟩
  have hle : s ≤ j := by
    have hlog : Nat.log2 (m * 2 ^ j) ≤ 52 + j := by
      refine log2_le_of_lt ?_
      rw [Nat.add_right_comm, Nat.pow_add]
      exact Nat.mul_lt_mul_of_pos_right hm (Nat.two_pow_pos j)
    rw [← hs, stepOf, Nat.mul_div_cancel _ hq]
    omega
  have hwhole : m * 2 ^ j * q = m * 2 ^ (j - s) * (q * 2 ^ s) := by
    have hpow : 2 ^ j = 2 ^ (j - s) * 2 ^ s := by rw [← Nat.pow_add, Nat.sub_add_cancel hle]
    rw [hpow]
    ring
  have hden : 0 < q * 2 ^ s := Nat.mul_pos hq (Nat.two_pow_pos s)
  have hlt := steps_lt (m * 2 ^ j * q) q
  have hfull : s ≠ 0 → 2 ^ 52 ≤ m * 2 ^ (j - s) := by
    intro hne
    have hsteps := le_steps (hs.trans_ne hne)
    rwa [hs, hwhole, Nat.mul_div_cancel _ hden] at hsteps
  rw [hs, hwhole, Nat.mul_div_cancel _ hden] at hlt
  have hrange : s * binade + m * 2 ^ (j - s) < infinityBits := by
    rw [hbinade, hinf]
    omega
  have hbits : nearestUnits (m * 2 ^ j * q) q = s * binade + m * 2 ^ (j - s) := by
    unfold nearestUnits
    rw [hs, hwhole, roundHalfEven_mul_self hden]
    exact Nat.min_eq_left hrange.le
  rw [hbits]
  refine ⟨hrange, ?_⟩
  rw [units_steps hlt.le hfull, Nat.mul_assoc, ← Nat.pow_add, Nat.sub_add_cancel hle]

/-- **The natural numbers that are doubles**: at most 53 binary digits, and zeros behind them. -/
def IsDouble (n : ℕ) : Prop :=
  ∃ m j, m < 2 ^ 53 ∧ j ≤ 971 ∧ n = m * 2 ^ j

theorem isDouble_of_le (hn : n ≤ 2 ^ 53) : IsDouble n := by
  rcases Nat.lt_or_eq_of_le hn with hlt | rfl
  · exact ⟨n, 0, hlt, Nat.zero_le _, (Nat.mul_one n).symm⟩
  · exact ⟨1, 53, Nat.one_lt_two_pow (by decide), by decide, (Nat.one_mul _).symm⟩

/-- Powers of ten up to `10 ^ 22` are doubles. -/
theorem isDouble_ten_pow (hn : n ≤ 22) : IsDouble (10 ^ n) :=
  ⟨5 ^ n, n, (Nat.pow_le_pow_right (by decide) hn).trans_lt (by decide), by omega, Nat.mul_pow 5 2 n⟩

theorem nearest_of_isDouble (hn : IsDouble n) :
    nearest n 1 < infinityBits ∧ units (nearest n 1) = n * unitsPerOne := by
  obtain ⟨m, j, hm, hj, rfl⟩ := hn
  have hunits : m * 2 ^ j * unitsPerOne = m * 2 ^ (j + 1074) * 1 := by
    rw [Nat.mul_one, two_pow_add_units, Nat.mul_assoc]
  have hexact := units_nearestUnits (q := 1) Nat.one_pos hm (j := j + 1074) (by omega)
  rw [← hunits, ← nearest_eq, two_pow_add_units, ← Nat.mul_assoc] at hexact
  exact hexact

/-- **A product of natural numbers that are doubles is rounded once.** -/
theorem ofNat_mul (hm : IsDouble m) (hn : IsDouble n) : ofNat m * ofNat n = toFloat false (nearest (m * n) 1) := by
  obtain ⟨hm, hm'⟩ := nearest_of_isDouble hm
  obtain ⟨hn, hn'⟩ := nearest_of_isDouble hn
  have hproduct : m * unitsPerOne * (n * unitsPerOne) = m * n * (unitsPerOne * unitsPerOne) :=
    Nat.mul_mul_mul_comm m unitsPerOne n unitsPerOne
  have hone : nearest (m * n * (unitsPerOne * unitsPerOne)) (unitsPerOne * unitsPerOne) = nearest (m * n) 1 := by
    have hcancel := nearest_mul_right (a := m * n) (b := 1) (Nat.mul_pos unitsPerOne_pos unitsPerOne_pos)
    rwa [Nat.one_mul] at hcancel
  unfold ofNat
  rw [toFloat_mul hm hn, hm', hn', hproduct, hone]

/-- **A quotient of natural numbers that are doubles is rounded once.** -/
theorem ofNat_div (hm : IsDouble m) (hn : IsDouble n) (hpos : 0 < n) : ofNat m / ofNat n = toFloat false (nearest m n) := by
  obtain ⟨hm, hm'⟩ := nearest_of_isDouble hm
  obtain ⟨hn, hn'⟩ := nearest_of_isDouble hn
  have hpos' : 0 < nearest n 1 := by
    rw [Nat.pos_iff_ne_zero]
    intro hzero
    rw [hzero, units_zero] at hn'
    exact (Nat.mul_pos hpos unitsPerOne_pos).ne hn'
  unfold ofNat
  rw [toFloat_div hm hn hpos', hm', hn', nearest_mul_right unitsPerOne_pos]

end Formula.Decimal
