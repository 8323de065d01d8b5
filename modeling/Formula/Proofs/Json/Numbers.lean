import Formula.Proofs.Json.Wanted

/-!
# Numbers with a fraction or an exponent

A number that is not written with digits alone writes a significand, the digits on both sides of its point, and a power
of ten, its exponent less the number of digits behind the point (`Writes`). If the significand fits into 64 bits, the
number is read as this significand scaled by this power (`unsigned_of_writes`).
-/

namespace Formula.Json

open Decimal (natOfDigits)

variable {cs ds es fs is rest w : List Char} {s : ℕ} {e x : ℤ}

/-! ### What a number writes -/

/-- A fraction, or nothing, and its digits. -/
inductive FractionOf : List Char → List Char → Prop where
  | none : FractionOf [] []
  | some {ds : List Char} (h : Digits ds) : FractionOf ('.' :: ds) ds

/-- An exponent, or nothing, and its value. -/
inductive ExponentOf : List Char → ℤ → Prop where
  | none : ExponentOf [] 0
  | plain {c : Char} {ds : List Char} (hc : c = 'e' ∨ c = 'E') (h : Digits ds) : ExponentOf (c :: ds) (natOfDigits ds)
  | positive {c : Char} {ds : List Char} (hc : c = 'e' ∨ c = 'E') (h : Digits ds) :
      ExponentOf (c :: '+' :: ds) (natOfDigits ds)
  | negative {c : Char} {ds : List Char} (hc : c = 'e' ∨ c = 'E') (h : Digits ds) :
      ExponentOf (c :: '-' :: ds) (-natOfDigits ds)

/-- **The characters write `s · 10 ^ e`**, with a fraction or an exponent. -/
inductive Writes : List Char → ℕ → ℤ → Prop where
  | mk {is fs ds es : List Char} {x : ℤ} (hi : Whole is) (hf : FractionOf fs ds) (he : ExponentOf es x)
      (hne : fs ++ es ≠ []) : Writes (is ++ (fs ++ es)) (natOfDigits (is ++ ds)) (x - ds.length)

theorem FractionOf.fraction (h : FractionOf fs ds) : Fraction fs := by
  cases h with
  | none => exact .none
  | some h => exact .some h

theorem ExponentOf.exponent (h : ExponentOf es x) : Exponent es := by
  cases h with
  | none => exact .none
  | plain hc h => exact .plain hc h
  | positive hc h => exact .signed hc (.inl rfl) h
  | negative hc h => exact .signed hc (.inr rfl) h

/-! ### How it is read -/

theorem exponent_plain (h : Digits ds) (hrest : ∀ d ∈ rest.head?, d.isDigit = false) :
    exponent (ds ++ rest) = .ok ((natOfDigits ds : ℤ), rest) := by
  have hsplit := splitDigits_append h.digits hrest
  obtain ⟨c, cs, rfl⟩ := List.exists_cons_of_ne_nil h.nonempty
  have hc := h.digits c List.mem_cons_self
  unfold exponent
  split
  next heq =>
    split at heq
    · next heq' => cases heq'; cases hc
    · next heq' => cases heq'; cases hc
    · cases heq
      rw [hsplit]
      rfl

theorem exponent_positive (h : Digits ds) (hrest : ∀ d ∈ rest.head?, d.isDigit = false) :
    exponent ('+' :: (ds ++ rest)) = .ok ((natOfDigits ds : ℤ), rest) := by
  have hsplit := splitDigits_append h.digits hrest
  obtain ⟨c, cs, rfl⟩ := List.exists_cons_of_ne_nil h.nonempty
  unfold exponent
  simp only [hsplit]
  rfl

theorem exponent_negative (h : Digits ds) (hrest : ∀ d ∈ rest.head?, d.isDigit = false) :
    exponent ('-' :: (ds ++ rest)) = .ok (-(natOfDigits ds : ℤ), rest) := by
  have hsplit := splitDigits_append h.digits hrest
  obtain ⟨c, cs, rfl⟩ := List.exists_cons_of_ne_nil h.nonempty
  unfold exponent
  simp only [hsplit]
  rfl

theorem withExponent_cons {c : Char} (hc : c = 'e' ∨ c = 'E') (cs : List Char)
    (hx : exponent (cs ++ rest) = .ok (x, rest)) (s : ℕ) (e : ℤ) :
    withExponent s e (c :: (cs ++ rest)) = (scale s (e + x)).map (·, rest) := by
  rw [withExponent, if_pos hc, hx]
  simp only [bind, Except.bind]
  cases scale s (e + x) <;> rfl

theorem withExponent_append (h : ExponentOf es x) (hrest : Ends rest) (s : ℕ) (e : ℤ) :
    withExponent s e (es ++ rest) = (scale s (e + x)).map (·, rest) := by
  have hdigit : ∀ d ∈ rest.head?, d.isDigit = false := fun d hd => (hrest.head d hd).1
  cases h with
  | none =>
    rw [List.nil_append, Int.add_zero]
    cases rest with
    | nil => rfl
    | cons c rest =>
      obtain ⟨-, -, hlower, hupper⟩ := hrest.head c rfl
      exact if_neg (not_or.mpr ⟨hlower, hupper⟩)
  | plain hc h => exact withExponent_cons hc _ (exponent_plain h hdigit) s e
  | @positive c ds hc h => exact withExponent_cons hc ('+' :: ds) (exponent_positive h hdigit) s e
  | @negative c ds hc h => exact withExponent_cons hc ('-' :: ds) (exponent_negative h hdigit) s e

theorem natOfDigits_append (is ds : List Char) : natOfDigits (is ++ ds) = Nat.ofDigitChars 10 ds (natOfDigits is) :=
  Nat.ofDigitChars_append 0

theorem withRest_append (hf : FractionOf fs ds) (he : ExponentOf es x) (hrest : Ends rest)
    (hs : Nat.ofDigitChars 10 ds s < 2 ^ 64) (e : ℤ) :
    withRest s e (fs ++ (es ++ rest)) = (scale (Nat.ofDigitChars 10 ds s) (e - ds.length + x)).map (·, rest) := by
  have hhead := he.exponent.head hrest
  cases hf with
  | none =>
    rw [List.nil_append, withRest]
    · rw [withExponent_append he hrest, List.length_nil, Int.natCast_zero, Int.sub_zero]
      rfl
    · intro cs heq
      rw [heq] at hhead
      exact (hhead '.' rfl).2 rfl
  | some h =>
    have hsplit := splitDigits_append h.digits fun c hc => (hhead c hc).1
    obtain ⟨c, ds, rfl⟩ := List.exists_cons_of_ne_nil h.nonempty
    rw [List.cons_append, withRest, withFraction, hsplit]
    dsimp only
    rw [takeDigits_of_lt hs]
    exact withExponent_append he hrest _ _

/-- **A number is read as what it writes.** -/
theorem unsigned_of_writes (h : Writes cs s e) (hs : s < 2 ^ 64) (hrest : Ends rest) :
    unsigned (cs ++ rest) = (scale s e).map fun x => (.float x, rest) := by
  cases h with
  | @mk is fs ds es x hi hf he hne =>
    rw [natOfDigits_append] at hs ⊢
    have htake : takeDigits 0 is = (natOfDigits is, is.length, []) :=
      takeDigits_of_lt ((le_ofDigitChars ds _).trans_lt hs)
    have hexp : ((0 : ℕ) : ℤ) - ds.length + x = x - ds.length := by omega
    rw [List.append_assoc, List.append_assoc, unsigned_eq hi (hf.fraction.head he.exponent hrest), htake,
      goesOn_append hf.fraction he.exponent hne, if_neg (by simp), List.length_nil, withRest_append hf he hrest hs,
      hexp]
    cases scale (Nat.ofDigitChars 10 ds (natOfDigits is)) (x - ds.length) <;> rfl

/-! ### Signs -/

/-- The sign of a double, as it is written. -/
def sign (negative : Bool) : List Char :=
  if negative then ['-'] else []

/-- A double with a sign before it. -/
def signed (negative : Bool) (x : Float) : Float :=
  if negative then -x else x

theorem Writes.head (h : Writes cs s e) : ∃ c ds, cs = c :: ds ∧ c.isDigit = true := by
  cases h with
  | @mk is fs ds es x hi hf he hne =>
    obtain ⟨c, is, rfl⟩ := List.exists_cons_of_ne_nil hi.nonempty
    exact ⟨c, _, rfl, hi.digits c List.mem_cons_self⟩

/-- **A number with its sign.** -/
theorem float_of_writes (h : Writes cs s e) (hs : s < 2 ^ 64) (hrest : Ends rest) (negative : Bool) :
    float (sign negative ++ (cs ++ rest)) = (scale s e).map fun x => (signed negative x, rest) := by
  have hread := unsigned_of_writes h hs hrest
  obtain ⟨c, ds, rfl, hc⟩ := h.head
  have hnil : Blanks [] := fun c hc => absurd hc List.not_mem_nil
  unfold float
  cases negative with
  | false =>
    have hnumber : anyNumber (sign false ++ (c :: ds ++ rest)) = unsigned (c :: ds ++ rest) := by
      rw [sign, if_neg Bool.false_ne_true, List.cons_append, anyNumber_cons hnil (marks_of_isDigit hc).1,
        if_pos (by simp [hc]), number]
      rintro cs heq
      cases heq
      cases hc
    rw [hnumber, hread]
    cases scale s e <;> rfl
  | true =>
    have hnumber : anyNumber (sign true ++ (c :: ds ++ rest)) = number ('-' :: (c :: ds ++ rest)) :=
      anyNumber_cons hnil (c := '-') rfl (c :: ds ++ rest)
    rw [hnumber, number, hread]
    cases scale s e <;> rfl

end Formula.Json
