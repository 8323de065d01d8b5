import Formula.Proofs.Decimal.Bounds
import Formula.Proofs.Json.Numbers

/-!
# Numbers as they are written and read

Each layout of the digits of a number is a number of the grammar that writes these digits with their power of ten; only
the `.0` behind a whole number is read as one more digit (`asRead`, `writes_layout`). The significand always fits into
64 bits, so what is read is the significand scaled (`float_write`).
-/

namespace Formula.Json

open Decimal (Scaled digitsOf natOfDigits shortest magnitude isNegative infinityBits)

variable {ds : List Char} {c : ℕ} {e : ℤ} {d : Scaled}

/-! ### Layouts -/

/-- The significand and the power of ten that are read from the layout of a number. -/
def asRead (d : Scaled) : Scaled :=
  if 0 ≤ d.exponent ∧ d.point ≤ 16 then ⟨d.coefficient * 10 ^ (d.exponent.toNat + 1), -1⟩ else d

/-- The layout of a number without its sign. -/
def layout (d : Scaled) : String :=
  if format.isPositional d.point then d.positional format.whole else d.exponential

theorem Whole.take {cs : List Char} {k : ℕ} (h : Whole cs) (hk : 0 < k) : Whole (cs.take k) := by
  obtain ⟨c, ds, rfl⟩ := List.exists_cons_of_ne_nil h.nonempty
  obtain ⟨j, rfl⟩ := Nat.exists_eq_add_of_lt hk
  rw [Nat.zero_add, List.take_succ_cons]
  refine ⟨⟨List.cons_ne_nil _ _, ?_⟩, ?_⟩
  · exact fun x hx => h.digits x (List.mem_of_mem_take (i := j + 1) hx)
  · intro hhead
    obtain ⟨rfl, rfl⟩ := List.cons_eq_cons.mp (h.shortest hhead)
    rw [List.take_nil]

theorem Digits.drop {cs : List Char} {k : ℕ} (h : Digits cs) (hk : k < cs.length) : Digits (cs.drop k) :=
  ⟨fun hnil => Nat.not_le_of_lt hk (List.drop_eq_nil_iff.mp hnil), fun x hx => h.digits x (List.mem_of_mem_drop hx)⟩

/-- A whole number has zeros behind its digits, and one more behind the point. -/
theorem writes_whole (he : 0 ≤ e) (hc : c = 0 → e = 0) :
    Writes (Scaled.positional ⟨c, e⟩ ".0").toList (c * 10 ^ (e.toNat + 1)) (-1) := by
  have hwhole := whole_digitsOf c
  have hdigits : Whole (digitsOf c ++ List.replicate e.toNat '0') := by
    refine ⟨⟨?_, ?_⟩, ?_⟩
    · exact fun hnil => hwhole.nonempty (List.append_eq_nil_iff.mp hnil).1
    · intro x hx
      exact (List.mem_append.mp hx).elim (hwhole.digits x) Decimal.isDigit_of_mem_zeros
    · intro hhead
      rw [List.head?_append_of_ne_nil _ hwhole.nonempty] at hhead
      have hzero : c = 0 := by
        rw [← Decimal.natOfDigits_digitsOf c, hwhole.shortest hhead]
        rfl
      rw [hc hzero, hzero]
      rfl
  have hzero : Digits ['0'] := ⟨List.cons_ne_nil _ _, List.forall_mem_singleton.mpr rfl⟩
  have hvalue : natOfDigits (digitsOf c ++ List.replicate e.toNat '0' ++ ['0']) = c * 10 ^ (e.toNat + 1) := by
    rw [List.append_assoc, ← List.replicate_succ', Decimal.natOfDigits_append_zeros, Decimal.natOfDigits_digitsOf]
    rfl
  have hwrites := Writes.mk hdigits (.some hzero) .none (by simp)
  rw [hvalue] at hwrites
  unfold Scaled.positional
  dsimp only
  rw [if_pos he, String.toList_append, String.toList_ofList]
  exact hwrites

/-- A point between two digits. -/
theorem writes_point (he : e < 0) (hpoint : 0 < Scaled.point ⟨c, e⟩) :
    Writes (Scaled.positional ⟨c, e⟩ ".0").toList c e := by
  have hwhole := whole_digitsOf c
  obtain ⟨k, hk⟩ : ∃ k : ℕ, Scaled.point ⟨c, e⟩ = k := ⟨_, (Int.toNat_of_nonneg hpoint.le).symm⟩
  have hlength : ((digitsOf c).length : ℤ) + e = k := hk
  have hfirst : Whole ((digitsOf c).take k) := hwhole.take (by omega)
  have hlast : Digits ((digitsOf c).drop k) := hwhole.toDigits.drop (by omega)
  have hwrites := Writes.mk hfirst (.some hlast) .none (by simp)
  have hexp : 0 - (((digitsOf c).drop k).length : ℤ) = e := by
    rw [List.length_drop]
    omega
  rw [List.take_append_drop, Decimal.natOfDigits_digitsOf, hexp] at hwrites
  unfold Scaled.positional
  dsimp only
  rw [if_neg (Int.not_le.mpr he), if_pos hpoint, String.toList_ofList, hk, Int.toNat_natCast]
  rwa [List.append_nil] at hwrites

/-- Zeros between the point and the digits. -/
theorem writes_zeros (he : e < 0) (hpoint : Scaled.point ⟨c, e⟩ ≤ 0) :
    Writes (Scaled.positional ⟨c, e⟩ ".0").toList c e := by
  have hwhole := whole_digitsOf c
  obtain ⟨k, hk⟩ : ∃ k : ℕ, -Scaled.point ⟨c, e⟩ = k := ⟨_, (Int.toNat_of_nonneg (by omega)).symm⟩
  have hlength : -(((digitsOf c).length : ℤ) + e) = k := hk
  have hfirst : Whole ['0'] := ⟨⟨List.cons_ne_nil _ _, List.forall_mem_singleton.mpr rfl⟩, fun _ => rfl⟩
  have hlast : Digits (List.replicate k '0' ++ digitsOf c) := by
    refine ⟨fun hnil => hwhole.nonempty (List.append_eq_nil_iff.mp hnil).2, ?_⟩
    intro x hx
    exact (List.mem_append.mp hx).elim Decimal.isDigit_of_mem_zeros (hwhole.digits x)
  have hvalue : natOfDigits (['0'] ++ (List.replicate k '0' ++ digitsOf c)) = c := by
    rw [← List.append_assoc]
    exact (Decimal.natOfDigits_zeros_append (k + 1) _).trans (Decimal.natOfDigits_digitsOf c)
  have hexp : 0 - ((List.replicate k '0' ++ digitsOf c).length : ℤ) = e := by
    rw [List.length_append, List.length_replicate]
    omega
  have hwrites := Writes.mk hfirst (.some hlast) .none (by simp)
  rw [hvalue, hexp, List.append_nil] at hwrites
  unfold Scaled.positional
  dsimp only
  rw [if_neg (Int.not_le.mpr he), if_neg (Int.not_lt.mpr hpoint), String.toList_ofList, hk, Int.toNat_natCast]
  exact hwrites

/-- The digits behind the first one, if there are any. -/
theorem fractionOf_drop (h : Digits ds) :
    FractionOf (if ds.length ≤ 1 then [] else '.' :: ds.drop 1) (ds.drop 1) := by
  by_cases hone : ds.length ≤ 1
  · rw [if_pos hone, List.drop_of_length_le hone]
    exact .none
  · rw [if_neg hone]
    exact .some (h.drop (Nat.lt_of_not_le hone))

theorem exponentOf_signed (x : ℤ) : ExponentOf ('e' :: (if x < 0 then '-' else '+') :: digitsOf x.natAbs) x := by
  have hdigits := (whole_digitsOf x.natAbs).toDigits
  have hvalue := Decimal.natOfDigits_digitsOf x.natAbs
  by_cases hx : x < 0
  · have hexp := ExponentOf.negative (.inl rfl) hdigits
    have hneg : -(x.natAbs : ℤ) = x := by omega
    rw [hvalue, hneg] at hexp
    rwa [if_pos hx]
  · have hexp := ExponentOf.positive (.inl rfl) hdigits
    have hpos : (x.natAbs : ℤ) = x := by omega
    rw [hvalue, hpos] at hexp
    rwa [if_neg hx]

/-- A point behind the first digit, and an exponent. -/
theorem writes_exponential (d : Scaled) : Writes d.exponential.toList d.coefficient d.exponent := by
  obtain ⟨c, e⟩ := d
  have hwhole := whole_digitsOf c
  have hlength : 0 < (digitsOf c).length := List.length_pos_iff.mpr hwhole.nonempty
  have hpoint : Scaled.point ⟨c, e⟩ = (digitsOf c).length + e := rfl
  have hexp : Scaled.point ⟨c, e⟩ - 1 - ((digitsOf c).drop 1).length = e := by
    rw [List.length_drop]
    omega
  have hwrites := Writes.mk (hwhole.take Nat.one_pos) (fractionOf_drop hwhole.toDigits)
    (exponentOf_signed (Scaled.point ⟨c, e⟩ - 1)) (by simp)
  rw [List.take_append_drop, Decimal.natOfDigits_digitsOf, hexp] at hwrites
  unfold Scaled.exponential
  dsimp only
  rw [String.toList_ofList, List.append_assoc]
  exact hwrites

/-- **The layout of a number is read as its digits and its power of ten.** -/
theorem writes_layout (hd : d.coefficient = 0 → d.exponent = 0) :
    Writes (layout d).toList (asRead d).coefficient (asRead d).exponent := by
  obtain ⟨c, e⟩ := d
  have hlength : 0 < (digitsOf c).length := List.length_pos_iff.mpr (whole_digitsOf c).nonempty
  have hpoint : Scaled.point ⟨c, e⟩ = (digitsOf c).length + e := rfl
  have hformat : format.isPositional (Scaled.point ⟨c, e⟩) =
      decide (-5 < Scaled.point ⟨c, e⟩ ∧ Scaled.point ⟨c, e⟩ ≤ 16) := rfl
  unfold layout asRead
  rw [hformat]
  dsimp only at hd ⊢
  by_cases hplaces : -5 < Scaled.point ⟨c, e⟩ ∧ Scaled.point ⟨c, e⟩ ≤ 16
  · rw [if_pos (decide_eq_true hplaces)]
    rcases Int.lt_or_le e 0 with he | he
    · rw [if_neg (by omega)]
      rcases Int.lt_or_le 0 (Scaled.point ⟨c, e⟩) with hpos | hpos
      · exact writes_point he hpos
      · exact writes_zeros he hpos
    · rw [if_pos (by omega)]
      exact writes_whole he hd
  · rw [if_neg (by simpa using hplaces), if_neg (by omega)]
    exact writes_exponential ⟨c, e⟩

/-- The significand of a layout fits into 64 bits. -/
theorem asRead_lt (hd : d.coefficient ≤ 10 ^ 17) : (asRead d).coefficient < 2 ^ 64 := by
  obtain ⟨c, e⟩ := d
  have hpoint : Scaled.point ⟨c, e⟩ = (digitsOf c).length + e := rfl
  have hc : c < 10 ^ (digitsOf c).length := (Nat.length_toDigits_le_iff (by decide)
    (List.length_pos_iff.mpr (whole_digitsOf c).nonempty)).mp (Nat.le_refl _)
  unfold asRead
  dsimp only at hd ⊢
  split_ifs with hplaces
  · have hpow : 10 ^ ((digitsOf c).length + (e.toNat + 1)) ≤ 10 ^ 17 :=
      Nat.pow_le_pow_right (by decide) (by omega)
    have hlt : c * 10 ^ (e.toNat + 1) < 10 ^ ((digitsOf c).length + (e.toNat + 1)) := by
      rw [Nat.pow_add 10 (digitsOf c).length]
      exact Nat.mul_lt_mul_of_pos_right hc (Nat.pow_pos (by decide))
    exact (hlt.trans_le hpow).trans (by decide)
  · exact hd.trans_lt (by decide)

/-- What is read off the layout is the same number. -/
theorem nearest_asRead (d : Scaled) : (asRead d).nearest = d.nearest := by
  obtain ⟨c, e⟩ := d
  unfold asRead
  dsimp only
  split_ifs with hplaces
  · have hmove : c * 10 ^ (e.toNat + 1) = c * 10 ^ e.toNat * 10 := by rw [Nat.pow_succ, Nat.mul_assoc]
    rw [Scaled.nearest_of_nonneg c hplaces.1, Scaled.nearest_of_neg _ (by decide), hmove]
    exact Decimal.nearest_mul_right (k := 10) (b := 1) (Nat.succ_pos 9)
  · rfl

/-- Only zero has no digits but zero, and it is written without an exponent. -/
theorem shortest_exponent_zero (tie : Decimal.Tie) {bits : ℕ} (h : bits < infinityBits)
    (hzero : (shortest tie bits).coefficient = 0) : (shortest tie bits).exponent = 0 := by
  have hnearest := Decimal.shortest_nearest tie h
  by_cases hbits : bits = 0
  · rw [hbits]
    rfl
  · generalize shortest tie bits = d at hzero hnearest
    obtain ⟨c, e⟩ := d
    obtain rfl : c = 0 := hzero
    rcases Int.lt_or_le e 0 with he | he
    · rw [Scaled.nearest_of_neg 0 he, Decimal.nearest_zero] at hnearest
      exact absurd hnearest.symm hbits
    · rw [Scaled.nearest_of_nonneg 0 he, Nat.zero_mul, Decimal.nearest_zero] at hnearest
      exact absurd hnearest.symm hbits

/-- **The number read from the text of a finite double** is its shortest decimal, scaled. -/
theorem float_writeNumber {x : Float} {rest : List Char} (hx : x.isFinite = true) (hrest : Ends rest) :
    float ((writeNumber x).toList ++ rest) =
      (scale (asRead (shortest .even (magnitude x))).coefficient (asRead (shortest .even (magnitude x))).exponent).map
        fun y => (signed (isNegative x) y, rest) := by
  have hbits : magnitude x < infinityBits := Decimal.isFinite_iff_magnitude_lt.mp hx
  have htext : (writeNumber x).toList = sign (isNegative x) ++ (layout (shortest .even (magnitude x))).toList := by
    have hwrite : writeNumber x = (if isNegative x then "-" else "") ++ layout (shortest .even (magnitude x)) :=
      if_pos hx
    rw [hwrite, String.toList_append]
    cases isNegative x <;> rfl
  rw [htext, List.append_assoc]
  exact float_of_writes (writes_layout (shortest_exponent_zero .even hbits))
    (asRead_lt (Decimal.shortest_coefficient_le .even hbits)) hrest (isNegative x)

/-! ### Scaling -/

variable {s : ℕ}

/-- A product of exact numbers is rounded once. -/
theorem ofNat_mul_powerOfTen {n : ℕ} (hs : s ≤ 2 ^ 53) (hn : n ≤ 22) :
    Decimal.ofNat s * powerOfTen n = Decimal.toFloat false (Scaled.nearest ⟨s, n⟩) := by
  rw [Scaled.nearest_of_nonneg s (Int.natCast_nonneg n), Int.toNat_natCast]
  exact Decimal.ofNat_mul (Decimal.isDouble_of_le hs) (Decimal.isDouble_ten_pow hn)

theorem ofNat_div_powerOfTen {n : ℕ} (hs : s ≤ 2 ^ 53) (hn : n ≤ 22) (hpos : 0 < n) :
    Decimal.ofNat s / powerOfTen n = Decimal.toFloat false (Scaled.nearest ⟨s, -n⟩) := by
  rw [Scaled.nearest_of_neg s (by omega), Int.neg_neg, Int.toNat_natCast]
  exact Decimal.ofNat_div (Decimal.isDouble_of_le hs) (Decimal.isDouble_ten_pow hn) (Nat.pow_pos (by decide))

/-- A finite magnitude is not infinite as a double. -/
theorem isInf_toFloat {bits : ℕ} (h : bits < infinityBits) : (Decimal.toFloat false bits).isInf = false :=
  (Decimal.special_of_isFinite (Decimal.isFinite_toFloat h)).2

/-- **A significand of 53 binary digits is scaled with one rounding** by a power of ten that is a double. -/
theorem scale_of_le (hs : s ≤ 2 ^ 53) (he : e.natAbs ≤ 22) (hlt : Scaled.nearest ⟨s, e⟩ < infinityBits) :
    scale s e = .ok (Decimal.toFloat false (Scaled.nearest ⟨s, e⟩)) := by
  unfold scale
  dsimp only
  rcases Int.lt_or_le e 0 with hneg | hpos
  · obtain ⟨n, rfl⟩ : ∃ n : ℕ, e = -n := ⟨e.natAbs, by omega⟩
    have hblocks : (n - 1) / 308 = 0 := Nat.div_eq_of_lt (by omega)
    rw [if_pos hneg, Int.neg_neg, Int.toNat_natCast, hblocks, Nat.mul_zero, Nat.sub_zero, scaleDown,
      ofNat_div_powerOfTen hs (by omega) (by omega)]
  · obtain ⟨n, rfl⟩ : ∃ n : ℕ, e = n := ⟨e.natAbs, by omega⟩
    rw [if_neg (Int.not_lt.mpr hpos), Int.toNat_natCast, ofNat_mul_powerOfTen hs (by omega), isInf_toFloat hlt,
      if_neg Bool.false_ne_true]
    split_ifs with hzero hlarge
    · rw [hzero, Scaled.nearest_of_nonneg 0 hpos, Nat.zero_mul]
      rfl
    · omega
    · rfl

/-! ### Scaling to a finite double -/

variable {bits n : ℕ}

theorem natPow_ten_le (h : n ≤ 308) : Nat.pow 10 n ≤ Nat.pow 10 308 := by
  generalize 308 = m at h ⊢
  exact Nat.pow_le_pow_right (by decide) h

/-- A quotient of a finite double by a power of ten is finite. -/
theorem div_powerOfTen (h : bits < infinityBits) (hpos : 0 < n) (hn : n ≤ 308) :
    ∃ b < infinityBits, Decimal.toFloat false bits / powerOfTen n = Decimal.toFloat false b := by
  have hten : 10 ≤ Nat.pow 10 n := Nat.le_pow hpos
  have hfinite := Decimal.nearest_lt_of_le (natPow_ten_le hn)
  have hbits : 0 < Decimal.nearest (Nat.pow 10 n) 1 := Decimal.nearest_one_pos (by omega) hfinite
  exact ⟨_, Decimal.nearest_div_lt h hten hfinite, Decimal.toFloat_div h hfinite hbits⟩

/-- Every division of a finite double leaves a finite one. -/
theorem scaleDown_finite (blocks : ℕ) (h : bits < infinityBits) (hpos : 0 < n) (hn : n ≤ 308) :
    ∃ b < infinityBits, scaleDown n blocks (Decimal.toFloat false bits) = Decimal.toFloat false b := by
  induction blocks generalizing bits with
  | zero => exact div_powerOfTen h hpos hn
  | succ blocks ih =>
    rw [scaleDown]
    split_ifs
    · exact ⟨bits, h, rfl⟩
    · obtain ⟨b, hb, hquotient⟩ := div_powerOfTen h (by decide : 0 < 308) (Nat.le_refl _)
      rw [hquotient]
      exact ih hb

/-- The powers of ten in a number that is rounded to a finite double. -/
theorem exponent_le (hs : s ≠ 0) (h : Decimal.nearest (s * Nat.pow 10 n) 1 < infinityBits) : n ≤ 308 := by
  have hten : 1 < 10 := by decide
  have hlt : Nat.pow 10 n < Nat.pow 10 309 :=
    (Nat.le_mul_of_pos_left _ (Nat.pos_of_ne_zero hs)).trans_lt (Decimal.lt_of_nearest_lt h)
  have hexp : n < 309 := by
    generalize 309 = m at hlt ⊢
    exact (Nat.pow_lt_pow_iff_right hten).mp hlt
  exact Nat.le_of_lt_succ hexp

/-- **Scaling gives a finite double** where the scaled number is not among the greatest doubles. -/
theorem scale_finite (hs : s < 2 ^ 64) (h : Scaled.nearest ⟨s, e⟩ + 4 ≤ infinityBits) :
    ∃ b < infinityBits, scale s e = .ok (Decimal.toFloat false b) := by
  have hfinite : Decimal.nearest s 1 < infinityBits := by
    have hten : 2 ^ 64 ≤ Nat.pow 10 308 := by decide +kernel
    exact Decimal.nearest_lt_of_le (hs.le.trans hten)
  unfold scale
  dsimp only
  rcases Int.lt_or_le e 0 with hneg | hpos
  · rw [if_pos hneg]
    obtain ⟨b, hb, hquotient⟩ := scaleDown_finite (n := (-e).toNat - 308 * (((-e).toNat - 1) / 308))
      (((-e).toNat - 1) / 308) hfinite (by omega) (by omega)
    exact ⟨b, hb, congrArg _ hquotient⟩
  · obtain ⟨n, rfl⟩ : ∃ n : ℕ, e = n := ⟨e.toNat, by omega⟩
    rw [Scaled.nearest_of_nonneg s hpos, Int.toNat_natCast] at h
    rw [if_neg (Int.not_lt.mpr hpos), Int.toNat_natCast]
    by_cases hzero : s = 0
    · rw [if_pos hzero]
      exact ⟨_, hfinite, rfl⟩
    · have hn : n ≤ 308 := exponent_le hzero (by omega)
      have hten := Decimal.nearest_lt_of_le (natPow_ten_le hn)
      have hpow : 0 < Nat.pow 10 n := Nat.pow_pos (by decide)
      have hproduct := Decimal.nearest_mul_lt (Nat.pos_of_ne_zero hzero) hpow hfinite hten h
      rw [if_neg hzero, if_neg (by omega), powerOfTen, Decimal.ofNat, Decimal.ofNat,
        Decimal.toFloat_mul hfinite hten, isInf_toFloat hproduct, if_neg Bool.false_ne_true]
      exact ⟨_, hproduct, rfl⟩

/-- The three greatest doubles are scaled to finite ones. -/
theorem scale_greatest (h : bits < infinityBits) (hgreat : infinityBits < bits + 4) :
    ∃ b < infinityBits, scale (asRead (shortest .even bits)).coefficient (asRead (shortest .even bits)).exponent =
      .ok (Decimal.toFloat false b) := by
  have hinf : infinityBits = 9218868437227405312 := rfl
  obtain rfl | rfl | rfl : bits = 9218868437227405311 ∨ bits = 9218868437227405310 ∨ bits = 9218868437227405309 := by
    omega
  · exact ⟨9218868437227405311, by decide +kernel⟩
  · exact ⟨9218868437227405311, by decide +kernel⟩
  · exact ⟨9218868437227405309, by decide +kernel⟩

/-- **The shortest decimal of every finite magnitude is scaled to a finite double.** -/
theorem scale_shortest (h : bits < infinityBits) :
    ∃ b < infinityBits, scale (asRead (shortest .even bits)).coefficient (asRead (shortest .even bits)).exponent =
      .ok (Decimal.toFloat false b) := by
  have hnearest : (asRead (shortest .even bits)).nearest = bits := by
    rw [nearest_asRead, Decimal.shortest_nearest .even h]
  rcases Nat.lt_or_ge infinityBits (bits + 4) with hgreat | hrest
  · exact scale_greatest h hgreat
  · refine scale_finite (asRead_lt (Decimal.shortest_coefficient_le .even h)) ?_
    exact (congrArg (· + 4) hnearest).trans_le hrest

end Formula.Json
