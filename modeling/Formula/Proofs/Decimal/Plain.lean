import Formula.Decimal.Layout
import Formula.Decimal.Numeral
import Formula.Proofs.Decimal.Shortest
import Mathlib.Data.List.TakeWhile

/-!
# Plain numerals

A *plain* numeral is written with digits, and with further digits behind a point or without; it has no
sign and no exponent. `Plain cs n` says that the characters `cs` write the numeral `n` so. A plain
numeral is read as what it writes, and the positional layout of a number is plain.

Together with the search for the shortest decimal this closes the circle: every finite double that is
not negative is written as a plain numeral, and read back from it (`read_display`).
-/

namespace Formula

variable {cs rest : List Char}

/-- What holds of the first character holds of whatever is first. -/
theorem forall_head_cons {f : Char → Prop} {c : Char} (h : f c) :
    ∀ d ∈ (c :: cs).head?, f d := by
  intro d hd
  rwa [← Option.mem_some_iff.mp hd]

/-- The longest run at the front, where the next character does not continue it. -/
theorem takeWhile_of_stop {f : Char → Bool} (hcs : ∀ c ∈ cs, f c = true)
    (hrest : ∀ d ∈ rest.head?, f d = false) : (cs ++ rest).takeWhile f = cs := by
  rw [List.takeWhile_append_of_pos hcs]
  cases rest with
  | nil => rw [List.takeWhile_nil, List.append_nil]
  | cons d rest =>
    have hd : f d = false := hrest d rfl
    rw [List.takeWhile_cons_of_neg (Bool.eq_false_iff.mp hd), List.append_nil]

theorem dropWhile_of_stop {f : Char → Bool} (hcs : ∀ c ∈ cs, f c = true)
    (hrest : ∀ d ∈ rest.head?, f d = false) : (cs ++ rest).dropWhile f = rest := by
  have hsplit := List.takeWhile_append_dropWhile (p := f) (l := cs ++ rest)
  rw [takeWhile_of_stop hcs hrest] at hsplit
  exact List.append_cancel_left hsplit

namespace Decimal

/-- **The plain numerals**, and what they write. -/
inductive Plain : List Char → Numeral → Prop where
  | whole {ds : List Char} (hne : ds ≠ []) (hds : ∀ c ∈ ds, c.isDigit = true) : Plain ds ⟨ds, 0⟩
  | fraction {ds fs : List Char} (hne : ds ≠ []) (hds : ∀ c ∈ ds, c.isDigit = true)
      (hne' : fs ≠ []) (hfs : ∀ c ∈ fs, c.isDigit = true) :
      Plain (ds ++ '.' :: fs) ⟨ds ++ fs, -fs.length⟩

variable {n : Numeral}

/-- A plain numeral begins with a digit. -/
theorem Plain.head (h : Plain cs n) : ∃ c ds, cs = c :: ds ∧ c.isDigit = true := by
  cases h with
  | whole hne hds =>
    obtain ⟨c, ds, rfl⟩ := List.exists_cons_of_ne_nil hne
    exact ⟨c, ds, rfl, hds c List.mem_cons_self⟩
  | fraction hne hds =>
    obtain ⟨c, ds, rfl⟩ := List.exists_cons_of_ne_nil hne
    exact ⟨c, _, rfl, hds c List.mem_cons_self⟩

/-! ### Reading plain numerals -/

theorem ofChars?_of_plain (h : Plain cs n) : Numeral.ofChars? cs = some n := by
  cases h with
  | whole hne hds =>
    have htake : cs.takeWhile Char.isDigit = cs := List.takeWhile_eq_self_iff.mpr hds
    have hdrop : cs.dropWhile Char.isDigit = [] := List.dropWhile_eq_nil_iff.mpr hds
    unfold Numeral.ofChars?
    simp [htake, hdrop, splitFraction, exponent?, hne]
  | @fraction ds fs hne hds hne' hfs =>
    have hpoint : ∀ d ∈ ('.' :: fs).head?, d.isDigit = false := forall_head_cons rfl
    have htake : (ds ++ '.' :: fs).takeWhile Char.isDigit = ds := takeWhile_of_stop hds hpoint
    have hdrop : (ds ++ '.' :: fs).dropWhile Char.isDigit = '.' :: fs :=
      dropWhile_of_stop hds hpoint
    have htake' : fs.takeWhile Char.isDigit = fs := List.takeWhile_eq_self_iff.mpr hfs
    have hdrop' : fs.dropWhile Char.isDigit = [] := List.dropWhile_eq_nil_iff.mpr hfs
    unfold Numeral.ofChars?
    simp [htake, hdrop, htake', hdrop', splitFraction, exponent?, hne]

theorem digit_bounds {c : Char} (h : c.isDigit = true) : 48 ≤ c.toNat ∧ c.toNat ≤ 57 := by
  simp only [Char.isDigit, Bool.and_eq_true, decide_eq_true_eq, ge_iff_le,
    UInt32.le_iff_toNat_le] at h
  exact h

/-- A digit is no letter, in whatever case. -/
theorem toLower_of_isDigit {c : Char} (h : c.isDigit = true) : c.toLower = c := by
  have hbounds := digit_bounds h
  unfold Char.toLower
  rw [dif_neg]
  simp only [ge_iff_le, UInt32.le_iff_toNat_le]
  change ¬ (65 ≤ c.toNat ∧ c.toNat ≤ 90)
  omega

/-- What begins with a digit is none of the words. -/
theorem magnitude?_of_isDigit {c : Char} {ds : List Char} (hc : c.isDigit = true)
    (h : Numeral.ofChars? (c :: ds) = some n) : magnitude? (c :: ds) = some n.nearest := by
  have hbounds := digit_bounds hc
  have hword : ∀ (d : Char) (word : List Char), 57 < d.toNat →
      (c :: ds).map Char.toLower ≠ d :: word := by
    intro d word hd heq
    have hfirst : c.toLower = d := (List.cons_eq_cons.mp heq).1
    rw [toLower_of_isDigit hc] at hfirst
    rw [← hfirst] at hd
    omega
  have hinf : (c :: ds).map Char.toLower ≠ "inf".toList := hword 'i' _ (by decide)
  have hinfinity : (c :: ds).map Char.toLower ≠ "infinity".toList := hword 'i' _ (by decide)
  have hnan : (c :: ds).map Char.toLower ≠ "nan".toList := hword 'n' _ (by decide)
  unfold magnitude?
  dsimp only
  rw [if_neg (not_or.mpr ⟨hinf, hinfinity⟩), if_neg hnan, h]
  rfl

/-- What begins with a digit has no sign. -/
theorem splitSign_of_isDigit {c : Char} (hc : c.isDigit = true) (cs : List Char) :
    splitSign (c :: cs) = (false, c :: cs) := by
  unfold splitSign
  split
  · next heq => cases heq; cases hc
  · next heq => cases heq; cases hc
  · rfl

/-- **A numeral that begins with a digit is read as the double nearest to it.** -/
theorem read?_of_isDigit {s : String} {c : Char} {ds : List Char} (hs : s.toList = c :: ds)
    (hc : c.isDigit = true) (h : Numeral.ofChars? s.toList = some n) :
    read? s = some (toFloat false n.nearest) := by
  rw [hs] at h
  unfold read?
  rw [hs, splitSign_of_isDigit hc]
  dsimp only
  rw [magnitude?_of_isDigit hc h]
  rfl

theorem read?_of_plain {s : String} (h : Plain s.toList n) :
    read? s = some (toFloat false n.nearest) := by
  obtain ⟨c, ds, hcs, hc⟩ := h.head
  exact read?_of_isDigit hcs hc (ofChars?_of_plain h)

theorem Numeral.nearest_le (n : Numeral) : n.nearest ≤ infinityBits := by
  unfold Numeral.nearest
  dsimp only
  split_ifs
  · exact Nat.zero_le _
  · exact Nat.le_refl _
  · exact Nat.zero_le _
  · exact Decimal.nearest_le _ _
  · exact Decimal.nearest_le _ _

/-! ### Plain layouts -/

theorem isDigit_of_mem_digitsOf {c : Char} {m : ℕ} (h : c ∈ digitsOf m) : c.isDigit = true :=
  Nat.isDigit_of_mem_toDigits (by decide) (by decide) h

theorem isDigit_of_mem_zeros {c : Char} {m : ℕ} (h : c ∈ List.replicate m '0') :
    c.isDigit = true := by
  rw [List.eq_of_mem_replicate h]
  rfl

theorem natOfDigits_digitsOf (m : ℕ) : natOfDigits (digitsOf m) = m :=
  Nat.ofDigitChars_ten_toDigits

theorem natOfDigits_append_zeros (ds : List Char) (m : ℕ) :
    natOfDigits (ds ++ List.replicate m '0') = natOfDigits ds * Nat.pow 10 m := by
  have happend := Nat.ofDigitChars_append (b := 10) (l := ds) (m := List.replicate m '0') 0
  rw [Nat.ofDigitChars_replicate_zero, Nat.mul_comm] at happend
  exact happend

theorem natOfDigits_zeros_append (m : ℕ) (ds : List Char) :
    natOfDigits (List.replicate m '0' ++ ds) = natOfDigits ds := by
  have happend := Nat.ofDigitChars_append (b := 10) (l := List.replicate m '0') (m := ds) 0
  rw [Nat.ofDigitChars_replicate_zero, Nat.mul_zero] at happend
  exact happend

/-- The outer cases of `Numeral.nearest` are not those of a numeral whose point stands behind one of its
digits. -/
theorem Numeral.nearest_eq {n : Numeral} (hexp : n.exponent ≤ 0)
    (hpoint : 0 < n.exponent + n.digits.length) :
    n.nearest = Scaled.nearest ⟨natOfDigits n.digits, n.exponent⟩ := by
  unfold Numeral.nearest
  dsimp only
  by_cases hzero : natOfDigits n.digits = 0
  · rw [if_pos hzero, hzero]
    rcases Int.lt_or_le n.exponent 0 with he | he
    · rw [Scaled.nearest_of_neg 0 he, nearest_zero]
    · rw [Scaled.nearest_of_nonneg 0 he, Nat.zero_mul, nearest_zero]
  · rw [if_neg hzero, if_neg (by omega), if_neg (by omega)]
    rfl

theorem digitsOf_ne_nil (c : ℕ) : digitsOf c ≠ [] :=
  Nat.toDigits_ne_nil

/-- Zeros behind the digits of a whole number. -/
theorem plain_whole (c : ℕ) {e : ℤ} (he : 0 ≤ e) :
    ∃ n, Plain (digitsOf c ++ List.replicate e.toNat '0') n ∧ n.nearest = Scaled.nearest ⟨c, e⟩ := by
  have hne := digitsOf_ne_nil c
  have hlen : 0 < (digitsOf c).length := List.length_pos_iff.mpr hne
  refine ⟨_, .whole ?_ ?_, ?_⟩
  · intro hnil
    exact hne (List.append_eq_nil_iff.mp hnil).1
  · intro x hx
    rcases List.mem_append.mp hx with hx | hx
    · exact isDigit_of_mem_digitsOf hx
    · exact isDigit_of_mem_zeros hx
  · rw [Numeral.nearest_eq (Int.le_refl 0)]
    · dsimp only
      rw [natOfDigits_append_zeros, natOfDigits_digitsOf, Scaled.nearest_of_nonneg _ he,
        Scaled.nearest_of_nonneg _ (Int.le_refl 0)]
      exact congrArg (Decimal.nearest · 1) (Nat.mul_one _)
    · dsimp only
      rw [List.length_append]
      omega

/-- The point between two digits. -/
theorem plain_point {c k : ℕ} {e : ℤ} (he : e < 0) (hk : ((digitsOf c).length : ℤ) + e = k)
    (hpos : 0 < k) : ∃ n, Plain ((digitsOf c).take k ++ '.' :: (digitsOf c).drop k) n ∧
      n.nearest = Scaled.nearest ⟨c, e⟩ := by
  have hdrop : (((digitsOf c).drop k).length : ℤ) = -e := by
    rw [List.length_drop]
    omega
  refine ⟨_, .fraction ?_ ?_ ?_ ?_, ?_⟩
  · intro hnil
    have hzero := congrArg List.length hnil
    rw [List.length_take, List.length_nil] at hzero
    omega
  · exact fun x hx => isDigit_of_mem_digitsOf (List.mem_of_mem_take hx)
  · intro hnil
    rw [hnil, List.length_nil] at hdrop
    omega
  · exact fun x hx => isDigit_of_mem_digitsOf (List.mem_of_mem_drop hx)
  · rw [Numeral.nearest_eq]
    · dsimp only
      rw [List.take_append_drop, natOfDigits_digitsOf, hdrop, Int.neg_neg]
    · dsimp only
      omega
    · dsimp only
      rw [List.take_append_drop]
      omega

/-- Zeros between the point and the digits. -/
theorem plain_zeros {c k : ℕ} {e : ℤ} (he : e < 0) (hk : -(((digitsOf c).length : ℤ) + e) = k) :
    ∃ n, Plain ('0' :: '.' :: List.replicate k '0' ++ digitsOf c) n ∧
      n.nearest = Scaled.nearest ⟨c, e⟩ := by
  have hlength : ((List.replicate k '0' ++ digitsOf c).length : ℤ) = -e := by
    rw [List.length_append, List.length_replicate]
    omega
  have hzero : ∀ x ∈ ['0'], x.isDigit = true := List.forall_mem_singleton.mpr rfl
  have hne : List.replicate k '0' ++ digitsOf c ≠ [] :=
    fun hnil => digitsOf_ne_nil c (List.append_eq_nil_iff.mp hnil).2
  have hdigits : ∀ x ∈ List.replicate k '0' ++ digitsOf c, x.isDigit = true := by
    intro x hx
    rcases List.mem_append.mp hx with hx | hx
    · exact isDigit_of_mem_zeros hx
    · exact isDigit_of_mem_digitsOf hx
  have hvalue : natOfDigits (['0'] ++ (List.replicate k '0' ++ digitsOf c)) = c := by
    rw [← List.append_assoc]
    exact (natOfDigits_zeros_append (k + 1) _).trans (natOfDigits_digitsOf c)
  have hone : ((['0'] ++ (List.replicate k '0' ++ digitsOf c)).length : ℤ) = 1 - e := by
    rw [List.length_append, List.length_singleton]
    omega
  refine ⟨⟨['0'] ++ (List.replicate k '0' ++ digitsOf c), -(List.replicate k '0' ++
    digitsOf c).length⟩, .fraction (List.cons_ne_nil '0' []) hzero hne hdigits, ?_⟩
  rw [Numeral.nearest_eq]
  · dsimp only
    rw [hvalue, hlength, Int.neg_neg]
  · dsimp only
    omega
  · dsimp only
    omega

/-- **The positional layout is plain** and writes the number. -/
theorem positional_plain (d : Scaled) :
    ∃ n, Plain (d.positional "").toList n ∧ n.nearest = d.nearest := by
  obtain ⟨c, e⟩ := d
  unfold Scaled.positional Scaled.point
  dsimp only
  rcases Int.lt_or_le e 0 with he | he
  · rw [if_neg (Int.not_le.mpr he)]
    rcases Int.lt_or_le 0 ((digitsOf c).length + e) with hpoint | hpoint
    · rw [if_pos hpoint, String.toList_ofList]
      exact plain_point he (Int.toNat_of_nonneg (Int.le_of_lt hpoint)).symm (by omega)
    · rw [if_neg (Int.not_lt.mpr hpoint), String.toList_ofList]
      exact plain_zeros he (Int.toNat_of_nonneg (by omega)).symm
  · rw [if_pos he, String.append_empty, String.toList_ofList]
    exact plain_whole c he

/-! ### Finite doubles -/

variable {x : Float}

/-- The text of a finite double that is not negative is its shortest decimal. -/
theorem display_eq (hx : x.isFinite = true) (hneg : isNegative x = false) :
    display x = (shortest .up (magnitude x)).positional "" := by
  obtain ⟨hnan, hinf⟩ := special_of_isFinite hx
  unfold display
  rw [hnan, hinf, if_neg Bool.false_ne_true, if_neg Bool.false_ne_true]
  unfold Format.write plain
  dsimp only
  rw [hneg, if_neg Bool.false_ne_true, if_pos rfl, String.empty_append]

/-- **A finite double that is not negative is written as a plain numeral and read back from it.** -/
theorem read_display (hx : x.isFinite = true) (hneg : isNegative x = false) :
    (∃ n, Plain (display x).toList n) ∧ read? (display x) = some x := by
  obtain ⟨n, hplain, hnearest⟩ := positional_plain (shortest .up (magnitude x))
  rw [← display_eq hx hneg] at hplain
  have hbits : magnitude x < infinityBits := isFinite_iff_magnitude_lt.mp hx
  rw [shortest_nearest .up hbits] at hnearest
  refine ⟨⟨n, hplain⟩, ?_⟩
  rw [read?_of_plain hplain, hnearest, toFloat_magnitude hneg]

end Decimal

end Formula
