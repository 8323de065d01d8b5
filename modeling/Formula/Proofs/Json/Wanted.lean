import Formula.Proofs.Json.Objects

/-!
# Natural numbers and truth values

Where a natural number or a truth value is wanted, every JSON value may come. It is read as the one number or truth
value that it writes, up to its end, or it is refused: a number with a sign, a point or an exponent is refused even if
it is whole, and so is one that does not fit into 64 bits.
-/

namespace Formula.Json

open Decimal (natOfDigits digitsOf)

variable {α : Type} {cs ds fs es rest w : List Char} {c : Char}

/-! ### Digits -/

theorem digitChar_toNat_sub (hc : c.isDigit = true) : Nat.digitChar (c.toNat - 48) = c := by
  have hbounds := Decimal.digit_bounds hc
  refine Char.toNat_inj.mp ?_
  rw [Nat.toNat_digitChar_of_lt_ten (by omega)]
  omega

/-- Digits behind a positive number are digits of the number that they extend it to. -/
theorem digitsOf_append (hds : ∀ c ∈ ds, c.isDigit = true) :
    ∀ {n : ℕ}, 0 < n → digitsOf n ++ ds = digitsOf (Nat.ofDigitChars 10 ds n) := by
  induction ds with
  | nil => exact fun _ => List.append_nil _
  | cons c ds ih =>
    intro n hn
    obtain ⟨hc, hds⟩ := List.forall_mem_cons.mp hds
    have hbounds := Decimal.digit_bounds hc
    have hd : c.toNat - 48 < 10 := by omega
    have hone : digitsOf n ++ [c] = digitsOf (10 * n + (c.toNat - 48)) := by
      have happend := Nat.toDigits_append_toDigits (by decide : 1 < 10) hn hd
      rwa [Nat.toDigits_of_lt_base hd, digitChar_toNat_sub hc] at happend
    calc digitsOf n ++ c :: ds = digitsOf n ++ [c] ++ ds := List.append_cons _ _ _
      _ = digitsOf (10 * n + (c.toNat - 48)) ++ ds := by rw [hone]
      _ = digitsOf (Nat.ofDigitChars 10 (c :: ds) n) := ih hds (by omega)

/-- **Digits without needless zeros are the digits of the number that they write.** -/
theorem Whole.digitsOf (h : Whole cs) : digitsOf (natOfDigits cs) = cs := by
  obtain ⟨c, ds, rfl⟩ := List.exists_cons_of_ne_nil h.nonempty
  obtain ⟨hc, hds⟩ := List.forall_mem_cons.mp h.digits
  have hbounds := Decimal.digit_bounds hc
  have hfirst : Decimal.digitsOf (c.toNat - 48) = [c] := by
    rw [Decimal.digitsOf, Nat.toDigits_of_lt_base (by omega), digitChar_toNat_sub hc]
  by_cases hzero : c = '0'
  · subst hzero
    rw [h.shortest rfl]
    rfl
  · have hpos : 0 < c.toNat - 48 := by
      have hne : c.toNat ≠ '0'.toNat := fun h => hzero (Char.toNat_inj.mp h)
      have : '0'.toNat = 48 := rfl
      omega
    have happend := digitsOf_append hds hpos
    rw [hfirst] at happend
    have hvalue : natOfDigits (c :: ds) = Nat.ofDigitChars 10 ds (c.toNat - 48) := by
      change Nat.ofDigitChars 10 ds (10 * 0 + (c.toNat - 48)) = _
      rw [Nat.mul_zero, Nat.zero_add]
    rw [hvalue, ← happend]
    rfl

theorem whole_digitsOf (n : ℕ) : Whole (Decimal.digitsOf n) := by
  refine ⟨⟨Decimal.digitsOf_ne_nil n, fun c hc => Decimal.isDigit_of_mem_digitsOf hc⟩, ?_⟩
  induction n using Nat.strongRecOn with
  | ind n ih =>
    intro hhead
    rcases Nat.lt_or_ge n 10 with hn | hn
    · rw [Decimal.digitsOf, Nat.toDigits_of_lt_base hn] at hhead ⊢
      exact congrArg (fun c => [c]) (Option.some.inj hhead)
    · have hsplit : Decimal.digitsOf n = Decimal.digitsOf (n / 10) ++ [(n % 10).digitChar] :=
        Nat.toDigits_of_base_le (by decide) hn
      rw [hsplit, List.head?_append_of_ne_nil _ (Decimal.digitsOf_ne_nil _)] at hhead
      have hten := congrArg natOfDigits (ih (n / 10) (by omega) hhead)
      rw [Decimal.natOfDigits_digitsOf] at hten
      have hzero : natOfDigits ['0'] = 0 := rfl
      omega

/-! ### Significands -/

theorem le_ofDigitChars (ds : List Char) (s : ℕ) : s ≤ Nat.ofDigitChars 10 ds s := by
  induction ds generalizing s with
  | nil => exact Nat.le_refl s
  | cons c ds ih => exact Nat.le_trans (by omega) (ih (10 * s + (c.toNat - 48)))

/-- Digits of a number below `2 ^ 64` are all taken. -/
theorem takeDigits_of_lt {s : ℕ} (h : Nat.ofDigitChars 10 ds s < 2 ^ 64) :
    takeDigits s ds = (Nat.ofDigitChars 10 ds s, ds.length, []) := by
  induction ds generalizing s with
  | nil => rfl
  | cons c ds ih =>
    have hnext : s * 10 + (c.toNat - '0'.toNat) = 10 * s + (c.toNat - '0'.toNat) := by omega
    have hle := le_ofDigitChars ds (10 * s + (c.toNat - '0'.toNat))
    have hlt := h
    rw [Nat.ofDigitChars_cons] at hlt
    rw [takeDigits, hnext]
    dsimp only
    rw [if_pos (by omega), ih hlt]
    rfl

/-- Of the digits of a greater number some are left. -/
theorem takeDigits_ne_nil {s : ℕ} (hs : s < 2 ^ 64) (h : 2 ^ 64 ≤ Nat.ofDigitChars 10 ds s) :
    (takeDigits s ds).2.2 ≠ [] := by
  induction ds generalizing s with
  | nil => exact absurd h (Nat.not_le.mpr hs)
  | cons c ds ih =>
    rw [Nat.ofDigitChars_cons] at h
    have hnext : s * 10 + (c.toNat - '0'.toNat) = 10 * s + (c.toNat - '0'.toNat) := by omega
    rw [takeDigits, hnext]
    dsimp only
    split
    · exact ih (by assumption) h
    · exact List.cons_ne_nil c ds

/-! ### Refused values -/

/-- A value of another form is refused, be it sound or not. -/
theorem mismatched_eq_error (c : Char) (cs : List Char) : ∃ e, (mismatched c cs : Except JsonError α) = .error e := by
  have hrefuse : ∀ scanned : Except JsonError Unit,
      ∃ e, (do scanned; .error .mismatch : Except JsonError α) = .error e := by
    rintro (e | _)
    · exact ⟨e, rfl⟩
    · exact ⟨.mismatch, rfl⟩
  unfold mismatched
  dsimp only
  split_ifs <;> first | exact hrefuse _ | exact ⟨_, rfl⟩

/-- **The three kinds of values**: the words, the numbers, and what begins with another mark. -/
theorem Derives.cases_value (h : Derives .value cs) :
    cs ∈ ["null".toList, "true".toList, "false".toList] ∨ IsNumber cs ∨
      ∃ c ds, cs = c :: ds ∧ c ∈ ['"', '[', '\x7b'] := by
  cases h with
  | word h => exact .inl h
  | number h => exact .inr (.inl h)
  | string h => exact .inr (.inr ⟨'"', _, rfl, by simp⟩)
  | empty b hw => exact .inr (.inr ⟨b.opening, _, rfl, by cases b <;> simp [Bracket.opening]⟩)
  | filled b h => exact .inr (.inr ⟨b.opening, _, rfl, by cases b <;> simp [Bracket.opening]⟩)

/-- A fraction or an exponent does not consist of digits. -/
theorem exists_isDigit_eq_false (hf : Fraction fs) (he : Exponent es) (hne : fs ++ es ≠ []) :
    ∃ c ∈ fs ++ es, c.isDigit = false := by
  have hhead := hf.head he (fun c hc => absurd hc (Option.not_mem_none c) : Ends [])
  rw [List.append_nil] at hhead
  obtain ⟨c, cs, hcs⟩ := List.exists_cons_of_ne_nil hne
  rw [hcs] at hhead ⊢
  exact ⟨c, List.mem_cons_self, hhead c rfl⟩

/-- A value that consists of digits has no needless zeros. -/
theorem Derives.whole (h : Derives .value cs) (hcs : ∀ c ∈ cs, c.isDigit = true) : Whole cs := by
  have hfirst : ∀ c ds, cs = c :: ds → c.isDigit = true := by
    rintro c ds rfl
    exact hcs c List.mem_cons_self
  rcases h.cases_value with hword | hnumber | ⟨c, ds, heq, hc⟩
  · simp only [List.mem_cons, List.not_mem_nil, or_false] at hword
    rcases hword with rfl | rfl | rfl <;> exact absurd (hfirst _ _ rfl) (by decide)
  · cases hnumber with
    | plain h =>
      cases h with
      | @mk is fs es hi hf he =>
        by_cases hne : fs ++ es = []
        · rwa [hne, List.append_nil]
        · obtain ⟨c, hc, hdigit⟩ := exists_isDigit_eq_false hf he hne
          exact absurd (hcs c (List.mem_append_right is hc)) (Bool.eq_false_iff.mp hdigit)
    | negative h => exact absurd (hfirst _ _ rfl) (by decide)
  · simp only [List.mem_cons, List.not_mem_nil, or_false] at hc
    rcases hc with rfl | rfl | rfl <;> exact absurd (hfirst _ _ heq) (by decide)

/-! ### Natural numbers -/

/-- The natural number that a value writes, if it does. -/
def natural? (cs : List Char) : Option ℕ :=
  if (∀ c ∈ cs, c.isDigit = true) ∧ natOfDigits cs < 2 ^ 64 then some (natOfDigits cs) else none

/-- What writes a natural number is its digits. -/
theorem natural?_eq_some_iff (h : Derives .value cs) {n : ℕ} :
    natural? cs = some n ↔ cs = (toString n).toList ∧ n < 2 ^ 64 := by
  have htext : (toString n).toList = digitsOf n := Nat.toList_repr
  rw [htext]
  constructor
  · intro hn
    rw [natural?] at hn
    split_ifs at hn with hdigits
    rw [← Option.some.inj hn]
    exact ⟨(h.whole hdigits.1).digitsOf.symm, hdigits.2⟩
  · rintro ⟨rfl, hn⟩
    have hvalue := Decimal.natOfDigits_digitsOf n
    rw [natural?, hvalue, if_pos ⟨(whole_digitsOf n).digits, hn⟩]

theorem goesOn_eq_false (hrest : Ends rest) : goesOn rest = false := by
  cases rest with
  | nil => rfl
  | cons c rest =>
    obtain ⟨-, hpoint, hlower, hupper⟩ := hrest.head c rfl
    simp [goesOn, hpoint, hlower, hupper]

/-- A fraction or an exponent is seen behind the whole digits. -/
theorem goesOn_append (hf : Fraction fs) (he : Exponent es) (hne : fs ++ es ≠ []) (rest : List Char) :
    goesOn (fs ++ (es ++ rest)) = true := by
  have hmark : ∀ c cs, c = 'e' ∨ c = 'E' → goesOn (c :: cs) = true := by
    rintro c cs (rfl | rfl) <;> rfl
  cases hf with
  | some h => rfl
  | none =>
    cases he with
    | none => exact absurd rfl hne
    | plain he h => exact hmark _ _ he
    | signed he hs h => exact hmark _ _ he

/-- The first step of reading an unsigned number. -/
theorem unsigned_eq (hi : Whole cs) (hrest : ∀ c ∈ rest.head?, c.isDigit = false) :
    unsigned (cs ++ rest) =
      if (takeDigits 0 cs).2.2.isEmpty && !goesOn rest then .ok (.natural (takeDigits 0 cs).1, rest)
      else (withRest (takeDigits 0 cs).1 (takeDigits 0 cs).2.2.length rest).bind fun r => .ok (.float r.1, r.2) := by
  rw [unsigned, splitDigits_append hi.digits hrest]
  split
  · next heq => exact absurd (congrArg Prod.fst heq) hi.nonempty
  · next heq => exact absurd (congrArg Prod.fst heq) hi.nonempty
  · next d ds _ heq =>
    have hzero : cs = '0' :: d :: ds := congrArg Prod.fst heq
    have hshort := hi.shortest (by rw [hzero]; rfl)
    rw [hzero] at hshort
    cases hshort
  · next heq =>
    cases heq
    rfl

/-- A number that is read as a double is not read as a natural one. -/
theorem ne_natural_of_float (r : Except JsonError (Float × List Char)) (n : ℕ) (rest : List Char) :
    (r.bind fun r => .ok (Number.float r.1, r.2) : Except JsonError (Number × List Char)) ≠ .ok (.natural n, rest) := by
  intro h
  cases r <;> cases h

/-- **An unsigned number is read as a natural one** if it is one, and otherwise it is not. -/
theorem unsigned_append (h : Unsigned cs) (hrest : Ends rest) :
    (∀ n, natural? cs = some n → unsigned (cs ++ rest) = .ok (.natural n, rest)) ∧
    (natural? cs = none → ∀ n rest', unsigned (cs ++ rest) ≠ .ok (.natural n, rest')) := by
  cases h with
  | @mk is fs es hi hf he =>
    rw [List.append_assoc, List.append_assoc, unsigned_eq hi (hf.head he hrest)]
    by_cases hne : fs ++ es = []
    · obtain ⟨rfl, rfl⟩ := List.append_eq_nil_iff.mp hne
      simp only [List.append_nil, List.nil_append, natural?]
      by_cases hlt : natOfDigits is < 2 ^ 64
      · have htake : takeDigits 0 is = (natOfDigits is, is.length, []) := takeDigits_of_lt hlt
        rw [if_pos ⟨hi.digits, hlt⟩, htake]
        simp [goesOn_eq_false hrest]
      · have htake : (takeDigits 0 is).2.2 ≠ [] := takeDigits_ne_nil (by decide) (Nat.not_lt.mp hlt)
        rw [if_neg fun h => hlt h.2, if_neg (by simp [htake])]
        exact ⟨fun n hn => by simp at hn, fun _ => ne_natural_of_float _⟩
    · have hdigits : ¬ ∀ c ∈ is ++ (fs ++ es), c.isDigit = true := by
        obtain ⟨c, hc, hdigit⟩ := exists_isDigit_eq_false hf he hne
        exact fun h => Bool.eq_false_iff.mp hdigit (h c (List.mem_append_right is hc))
      rw [natural?, if_neg fun h => hdigits h.1, goesOn_append hf he hne, if_neg (by simp)]
      exact ⟨fun n hn => by simp at hn, fun _ => ne_natural_of_float _⟩

/-- What is read as no natural number is refused. -/
theorem natural_eq_error {r : Except JsonError (Number × List Char)} (hr : anyNumber cs = r)
    (h : ∀ n rest, r ≠ .ok (.natural n, rest)) : ∃ e, natural cs = .error e := by
  rw [natural, hr]
  match r, h with
  | .error e, _ => exact ⟨e, rfl⟩
  | .ok (.float x, rest), _ => exact ⟨.mismatch, rfl⟩
  | .ok (.natural n, rest), h => exact absurd rfl (h n rest)

theorem anyNumber_cons (hw : Blanks w) (hc : isBlank c = false) (cs : List Char) :
    anyNumber (w ++ c :: cs) = if c = '-' || c.isDigit then number (c :: cs) else mismatched c cs := by
  rw [anyNumber, skipBlanks_append hw, skipBlanks_cons hc]

theorem scans_of_eq_error {r : Except JsonError (α × List Char)} (h : ∃ e, r = .error e) (rest : List Char) :
    Scans r none rest := by
  obtain ⟨e, rfl⟩ := h
  exact .failed e rest

/-- **A natural number is read to its end**, and any other value is refused. -/
theorem natural_append (hw : Blanks w) (h : Derives .value cs) (hrest : Ends rest) :
    Scans (natural (w ++ (cs ++ rest))) (natural? cs) rest := by
  have hother : ∀ c ds, c.isDigit = false → c ≠ '-' → isBlank c = false →
      Scans (natural (w ++ (c :: ds ++ rest))) (natural? (c :: ds)) rest := by
    intro c ds hdigit hsign hblank
    have hnone : natural? (c :: ds) = none := if_neg fun h => by simp [hdigit] at h
    obtain ⟨e, he⟩ : ∃ e, mismatched c (ds ++ rest) = .error e := mismatched_eq_error c _
    have hnumber : anyNumber (w ++ (c :: ds ++ rest)) = .error e := by
      rw [List.cons_append, anyNumber_cons hw hblank, if_neg (by simp [hdigit, hsign]), he]
    rw [hnone]
    exact scans_of_eq_error (natural_eq_error hnumber fun n rest' heq => by cases heq) rest
  rcases h.cases_value with h | h | ⟨c, ds, rfl, hc⟩
  · simp only [List.mem_cons, List.not_mem_nil, or_false] at h
    rcases h with rfl | rfl | rfl <;> exact hother _ _ (by decide) (by decide) (by decide)
  · cases h with
    | plain h =>
      obtain ⟨hsome, hnone⟩ := unsigned_append h hrest
      obtain ⟨c, ds, rfl, hc⟩ := h.head
      have hnumber : anyNumber (w ++ (c :: ds ++ rest)) = unsigned (c :: ds ++ rest) := by
        rw [List.cons_append, anyNumber_cons hw (marks_of_isDigit hc).1, if_pos (by simp [hc]), number]
        rintro cs heq
        cases heq
        cases hc
      cases hvalue : natural? (c :: ds) with
      | none => exact scans_of_eq_error (natural_eq_error hnumber (hnone hvalue)) rest
      | some n =>
        rw [natural, hnumber, hsome n hvalue]
        exact .done n rest
    | @negative cs h =>
      have hnone : natural? ('-' :: cs) = none := if_neg fun h => by simp at h
      rw [hnone]
      refine scans_of_eq_error (natural_eq_error rfl fun n rest' heq => ?_) rest
      rw [List.cons_append, anyNumber_cons hw (by decide), if_pos (by decide), number] at heq
      revert heq
      cases unsigned (cs ++ rest) <;> intro heq <;> cases heq
  · simp only [List.mem_cons, List.not_mem_nil, or_false] at hc
    rcases hc with rfl | rfl | rfl <;> exact hother _ _ (by decide) (by decide) (by decide)

/-! ### Truth values -/

/-- The truth value that a value writes, if it does. -/
def bool? (cs : List Char) : Option Bool :=
  if cs = "true".toList then some true else if cs = "false".toList then some false else none

theorem bool?_eq_some_iff {b : Bool} : bool? cs = some b ↔ cs = (if b then "true" else "false").toList := by
  rw [bool?]
  split_ifs with htrue hfalse <;> cases b <;> simp_all

/-- **A truth value is read to its end**, and any other value is refused. -/
theorem bool_append (hw : Blanks w) (h : Derives .value cs) (rest : List Char) :
    Scans (bool (w ++ (cs ++ rest))) (bool? cs) rest := by
  have hother : ∀ c ds, c ≠ 't' → c ≠ 'f' → isBlank c = false →
      Scans (bool (w ++ (c :: ds ++ rest))) (bool? (c :: ds)) rest := by
    intro c ds htrue hfalse hblank
    have hnone : bool? (c :: ds) = none := by
      have hne : ∀ d ds', c ≠ d → c :: ds ≠ d :: ds' := fun d ds' hd heq => hd (List.cons.inj heq).1
      exact (if_neg (hne 't' _ htrue)).trans (if_neg (hne 'f' _ hfalse))
    rw [hnone, List.cons_append, bool, skipBlanks_append hw, skipBlanks_cons hblank]
    dsimp only
    rw [if_neg htrue, if_neg hfalse]
    exact scans_of_eq_error (mismatched_eq_error c _) rest
  have hdigit : ∀ c d : Char, c.isDigit = true → d.isDigit = false → c ≠ d := by
    rintro c d hc hd rfl
    exact Bool.eq_false_iff.mp hd hc
  rcases h.cases_value with h | h | ⟨c, ds, rfl, hc⟩
  · simp only [List.mem_cons, List.not_mem_nil, or_false] at h
    rcases h with rfl | rfl | rfl
    · exact hother _ _ (by decide) (by decide) (by decide)
    · rw [bool, skipBlanks_append hw]
      exact .done true rest
    · rw [bool, skipBlanks_append hw]
      exact .done false rest
  · cases h with
    | plain h =>
      obtain ⟨c, ds, rfl, hc⟩ := h.head
      exact hother c ds (hdigit c 't' hc rfl) (hdigit c 'f' hc rfl) (marks_of_isDigit hc).1
    | negative h => exact hother _ _ (by decide) (by decide) (by decide)
  · simp only [List.mem_cons, List.not_mem_nil, or_false] at hc
    rcases hc with rfl | rfl | rfl <;> exact hother _ _ (by decide) (by decide) (by decide)

end Formula.Json
