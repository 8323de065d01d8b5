import Mathlib
import Formula.Decimal.Binary64

/-!
# The bits of a finite double

A double is kept as its bits, and `Float.ofBits` unpacks a word into sign, exponent and mantissa and
packs them again. On a word whose exponent is not the greatest one this gives the word back
(`pack_unpack_of_ne`), and a word with that exponent is no finite double.

So a finite double that is not negative is numbered by its magnitude (`toFloat_magnitude`), and the
magnitudes below infinity are the finite doubles.
-/

namespace Formula.Decimal

open Float.Model (Format)
open Float.Model.UnpackedFloat

variable {b : BitVec Format.binary64.numBits}

/-! ### Words -/

theorem toNat_unpackExponent (b : BitVec Format.binary64.numBits) :
    (unpackExponent b).toNat = b.toNat / 2 ^ 52 % 2 ^ 11 := by
  unfold unpackExponent
  rw [BitVec.toNat_cast, BitVec.extractLsb_toNat, Nat.shiftRight_eq_div_pow]
  rfl

/-- **A finite word is packed as it was.** -/
theorem pack_unpack_of_ne (hb : unpackExponent b ≠ -1#_) :
    pack .binary64 (unpack .binary64 b) = b := by
  have hnan : isNaNBits b = false := decide_eq_false fun h => hb h.1
  rw [pack_unpack b, hnan, if_neg Bool.false_ne_true]

/-! ### Finite doubles -/

variable {x : Float}

/-- The exponent that is not finite. -/
theorem isFinite_unpack_iff :
    (unpack .binary64 b).isFinite = true ↔ unpackExponent b ≠ -1#_ := by
  unfold unpack
  simp only
  by_cases htop : unpackExponent b = -1#_
  · rw [if_pos htop]
    by_cases hm : unpackMantissa b = 0#_
    · rw [if_pos hm]
      exact ⟨fun h => absurd h Bool.false_ne_true, fun h => absurd htop h⟩
    · rw [if_neg hm]
      exact ⟨fun h => absurd h Bool.false_ne_true, fun h => absurd htop h⟩
  · rw [if_neg htop]
    refine ⟨fun _ => htop, fun _ => ?_⟩
    by_cases hzero : unpackExponent b = 0#_
    · rw [if_pos hzero]
      by_cases hm : unpackMantissa b = 0#_
      · rw [dif_pos hm]
        rfl
      · rw [dif_neg hm]
        rfl
    · rw [if_neg hzero]
      rfl

/-- The bits of a double, as a word of the format. -/
def word (w : UInt64) : BitVec Format.binary64.numBits :=
  w.toBitVec

theorem isFinite_iff : x.isFinite = true ↔ unpackExponent (word x.toBits) ≠ -1#_ :=
  isFinite_unpack_iff

/-- A finite double is neither of the special values. -/
theorem special_of_isFinite (h : x.isFinite = true) : x.isNaN = false ∧ x.isInf = false := by
  change (unpack .binary64 x.toBits.toBitVec).isFinite = true at h
  change (unpack .binary64 x.toBits.toBitVec).isNaN = false ∧
    (unpack .binary64 x.toBits.toBitVec).isInf = false
  cases hu : unpack .binary64 x.toBits.toBitVec with
  | infinity s => rw [hu] at h; cases h
  | notANumber => rw [hu] at h; cases h
  | zero s => exact ⟨rfl, rfl⟩
  | finite s m e hm => exact ⟨rfl, rfl⟩

/-- The exponent is the greatest one exactly from infinity on. -/
theorem unpackExponent_ne_iff (b : BitVec Format.binary64.numBits) :
    unpackExponent b ≠ -1#_ ↔ b.toNat % signBit < infinityBits := by
  have hinf : infinityBits = 2047 * 2 ^ 52 := rfl
  have hsign : signBit = 2 ^ 63 := rfl
  have htop : unpackExponent b = -1#_ ↔ (unpackExponent b).toNat = 2047 :=
    ⟨fun h => by rw [h]; rfl, fun h => BitVec.toNat_inj.mp h⟩
  rw [ne_eq, htop, toNat_unpackExponent, hinf, hsign]
  omega

/-- **The magnitudes below infinity are the finite doubles.** -/
theorem isFinite_iff_magnitude_lt : x.isFinite = true ↔ magnitude x < infinityBits :=
  isFinite_iff.trans (unpackExponent_ne_iff _)

theorem word_toBits_ofBits (w : UInt64) :
    word (Float.ofBits w).toBits = pack .binary64 (unpack .binary64 (word w)) := rfl

/-- A finite word makes a double of these bits. -/
theorem toBits_ofBits {w : UInt64} (h : unpackExponent (word w) ≠ -1#_) :
    (Float.ofBits w).toBits = w := by
  have hword := word_toBits_ofBits w
  rw [pack_unpack_of_ne h] at hword
  exact UInt64.toBitVec_inj.mp hword

/-- **A finite double that is not negative is given by its magnitude.** -/
theorem toFloat_magnitude (hneg : isNegative x = false) :
    toFloat false (magnitude x) = x := by
  have hlt : x.toBits.toNat < signBit := by
    simpa [isNegative] using hneg
  have hmag : magnitude x = x.toBits.toNat := Nat.mod_eq_of_lt hlt
  unfold toFloat
  rw [hmag, if_neg Bool.false_ne_true, UInt64.ofNat_toNat]
  exact x.ofBits_toBits

/-- Special values are made of the words with the greatest exponent. -/
theorem unpackExponent_ne_of_isFinite {w : UInt64} (h : (Float.ofBits w).isFinite = true) :
    unpackExponent (word w) ≠ -1#_ := by
  intro htop
  refine isFinite_iff.mp h ?_
  rw [word_toBits_ofBits]
  have hspecial : (unpack .binary64 (word w)).isFinite = false := by
    rw [← Bool.not_eq_true, isFinite_unpack_iff]
    exact fun hne => hne htop
  cases hu : unpack .binary64 (word w) with
  | infinity s => rw [pack, packedInfinity, unpackExponent_packComponents]
  | notANumber => rw [pack, packedNaN, unpackExponent_packComponents]
  | zero s => rw [hu] at hspecial; cases hspecial
  | finite s m e hm => rw [hu] at hspecial; cases hspecial

/-- A finite double that was made without a sign has none. -/
theorem isNegative_toFloat {n : ℕ} (hn : n < signBit) (h : (toFloat false n).isFinite = true) :
    isNegative (toFloat false n) = false := by
  have hsign : signBit = 2 ^ 63 := rfl
  have hw : (UInt64.ofNat n).toNat = n := by
    rw [UInt64.toNat_ofNat']
    exact Nat.mod_eq_of_lt (by omega)
  have hbits : (toFloat false n).toBits = UInt64.ofNat n :=
    toBits_ofBits (unpackExponent_ne_of_isFinite h)
  unfold isNegative
  rw [hbits, hw, decide_eq_false_iff_not]
  omega

/-- Nor has infinity. -/
theorem isNegative_toFloat_of_le {n : ℕ} (hn : n ≤ infinityBits) :
    isNegative (toFloat false n) = false := by
  have hinf : infinityBits = 2047 * 2 ^ 52 := rfl
  have hsign : signBit = 2 ^ 63 := rfl
  rcases Nat.lt_or_eq_of_le hn with hlt | rfl
  · have hw : (word (UInt64.ofNat n)).toNat = n := by
      change (UInt64.ofNat n).toNat = n
      rw [UInt64.toNat_ofNat']
      exact Nat.mod_eq_of_lt (by omega)
    have hfinite : unpackExponent (word (UInt64.ofNat n)) ≠ -1#_ := by
      rw [unpackExponent_ne_iff, hw, Nat.mod_eq_of_lt (by omega)]
      exact hlt
    refine isNegative_toFloat (by omega) (isFinite_iff.mpr ?_)
    rwa [toFloat, if_neg Bool.false_ne_true, toBits_ofBits hfinite]
  · decide +kernel

end Formula.Decimal
