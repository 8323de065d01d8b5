import Formula.Proofs.Json.Texts

/-!
# Values are skipped to their end

Each scanner is run on a phrase with an arbitrary text behind it, and leaves just that text. Behind a number the text
has to end it (`Ends`), since digits, a point or an exponent would be taken to belong to it; in a list it always
does. A list is skipped element by element, with the bound on the nesting one less for its elements; so the induction
is on the derivation, for all bounds that are not less than the length of the phrase (`skips`).
-/

namespace Formula.Json

variable {cs ds es fs ts w rest : List Char} {c : Char}

/-! ### Blanks and ends -/

theorem skipBlanks_append (hw : Blanks w) (cs : List Char) : skipBlanks (w ++ cs) = skipBlanks cs :=
  List.dropWhile_append_of_pos hw

theorem skipBlanks_cons (hc : isBlank c = false) (cs : List Char) : skipBlanks (c :: cs) = c :: cs :=
  List.dropWhile_cons_of_neg (Bool.eq_false_iff.mp hc)

theorem skipBlanks_skipBlanks (cs : List Char) : skipBlanks (skipBlanks cs) = skipBlanks cs := by
  have hsplit := List.takeWhile_append_dropWhile (p := isBlank) (l := cs)
  have htake : Blanks (cs.takeWhile isBlank) := fun c hc => List.mem_takeWhile_imp hc
  have hskip := skipBlanks_append htake (cs.dropWhile isBlank)
  rw [hsplit] at hskip
  exact hskip.symm

theorem mark_append (hw : Blanks w) (hc : isBlank c = false) : mark c (w ++ c :: rest) = .ok ((), rest) := by
  rw [mark, skipBlanks_append hw, skipBlanks_cons hc]
  exact if_pos rfl

theorem mem_blanks (hc : isBlank c = true) : c ∈ [' ', '\n', '\t', '\r'] := by
  simpa [isBlank, or_assoc] using hc

/-- What ends a value does not continue a number. -/
theorem Ends.head (h : Ends rest) : ∀ c ∈ rest.head?, c.isDigit = false ∧ c ≠ '.' ∧ c ≠ 'e' ∧ c ≠ 'E' := by
  have hmarks : ∀ c ∈ [' ', '\n', '\t', '\r'] ++ [',', ']', '\x7d'],
      c.isDigit = false ∧ c ≠ '.' ∧ c ≠ 'e' ∧ c ≠ 'E' := by simp
  intro c hc
  exact hmarks c (List.mem_append.mpr ((h c hc).imp_left mem_blanks))

theorem ends_append (hw : Blanks w) (h : Ends rest) : Ends (w ++ rest) := by
  cases w with
  | nil => exact h
  | cons c w => exact forall_head_cons (.inl (hw c List.mem_cons_self))

theorem ends_comma : Ends (',' :: rest) :=
  forall_head_cons (.inr (by decide))

theorem ends_closing (b : Bracket) : Ends (b.closing :: rest) :=
  forall_head_cons (.inr (by cases b <;> decide))

/-! ### Strings -/

theorem hexQuad_append {n : ℕ} (h : Quad cs n) (rest : List Char) : hexQuad (cs ++ rest) = .ok (n, rest) := by
  cases h with
  | mk ha hb hc hd =>
    change hexQuad (_ :: _ :: _ :: _ :: rest) = _
    rw [hexQuad, ha, hb, hc, hd]

theorem unicodeEscape_append {d : Char} (h : CodePoint cs d) (rest : List Char) :
    unicodeEscape (cs ++ rest) = .ok (d, rest) := by
  cases h with
  | single h hlow hhigh =>
    rw [unicodeEscape, hexQuad_append h]
    simp [bind, Except.bind, hlow, hhigh]
  | @pair cs ds n m h hhigh h' hlow =>
    have hfirst : isLowSurrogate n = false := by
      simp [isHighSurrogate, isLowSurrogate] at hhigh ⊢
      omega
    rw [unicodeEscape, List.append_assoc, hexQuad_append h]
    simp [bind, Except.bind, hfirst, hhigh, word, hexQuad_append h', hlow]

/-- **A string is read up to its quotation mark**, if its hexadecimal escapes are. -/
theorem stringBody_append {unicode : List Char → Char → Prop} {u : Scan Char}
    (hu : ∀ es d, unicode es d → ∀ rest, u (es ++ rest) = .ok (d, rest)) (h : Spells unicode cs ts) (rest : List Char) :
    ∀ fuel, cs.length < fuel → stringBody u fuel (cs ++ '"' :: rest) = .ok (ts, rest) := by
  induction h with
  | nil =>
    intro fuel hfuel
    obtain ⟨fuel, rfl⟩ := Nat.exists_eq_add_of_lt hfuel
    rfl
  | @plain c cs ts hmark hescape hcontrol h ih =>
    intro fuel hfuel
    obtain ⟨fuel, rfl⟩ := Nat.exists_eq_add_of_lt hfuel
    have hrest := ih (cs.length + 1 + fuel) (by omega)
    rw [List.length_cons, List.cons_append, stringBody, if_neg hmark, if_neg hescape, if_neg hcontrol, hrest]
    rfl
  | @short c d cs ts hd h ih =>
    intro fuel hfuel
    obtain ⟨fuel, rfl⟩ := Nat.exists_eq_add_of_lt hfuel
    have hrest := ih (cs.length + 2 + fuel) (by omega)
    rw [List.length_cons, List.length_cons, List.cons_append, List.cons_append, stringBody, if_neg (by decide),
      if_pos rfl, escaped, hd]
    simp [bind, Except.bind, hrest]
  | @unicode d cs ds ts hd h ih =>
    intro fuel hfuel
    rw [List.length_cons, List.length_cons, List.length_append] at hfuel
    obtain ⟨fuel, rfl⟩ := Nat.exists_eq_add_of_lt hfuel
    have hrest := ih (ds.length + cs.length + 2 + fuel) (by omega)
    rw [List.cons_append, List.cons_append, List.append_assoc, stringBody, if_neg (by decide), if_pos rfl, escaped]
    simp [bind, Except.bind, shortEscape?, hu ds d hd, hrest]

theorem string_append {text : String} (h : Denotes cs text) (rest : List Char) :
    string (cs ++ '"' :: rest) = .ok (text, rest) := by
  have hbody : stringBody unicodeEscape ((cs ++ '"' :: rest).length + 1) (cs ++ '"' :: rest) = .ok (text.toList, rest) :=
    stringBody_append (fun _ _ hd => unicodeEscape_append hd) h rest _ (by simp)
  rw [string, hbody]
  simp [bind, Except.bind]

theorem skipString_append (h : IsString cs) (rest : List Char) : skipString (cs ++ '"' :: rest) = .ok rest := by
  obtain ⟨ts, h⟩ := h
  have hundecoded : ∀ es d, Undecoded es d → ∀ rest,
      ((hexQuad (es ++ rest)).map fun r => ('u', r.2)) = .ok (d, rest) := by
    rintro es d ⟨hquad⟩ rest
    rw [hexQuad_append hquad]
    rfl
  have hbody := stringBody_append (u := fun cs => (hexQuad cs).map fun r => ('u', r.2)) hundecoded h rest
  rw [skipString, hbody _ (by simp)]
  rfl

/-! ### Numbers -/

theorem splitDigits_append (hds : ∀ c ∈ ds, c.isDigit = true) (hrest : ∀ d ∈ rest.head?, d.isDigit = false) :
    splitDigits (ds ++ rest) = (ds, rest) := by
  rw [splitDigits, takeWhile_of_stop hds hrest, dropWhile_of_stop hds hrest]

theorem skipDigits_append (h : Digits ds) (hrest : ∀ d ∈ rest.head?, d.isDigit = false) :
    skipDigits (ds ++ rest) = .ok rest := by
  rw [skipDigits, splitDigits_append h.digits hrest]
  cases ds with
  | nil => exact absurd rfl h.nonempty
  | cons d ds => rfl

/-- What follows the digits of a number is neither a digit nor a point. -/
theorem Exponent.head (h : Exponent es) (hrest : Ends rest) :
    ∀ c ∈ (es ++ rest).head?, c.isDigit = false ∧ c ≠ '.' := by
  have hmark : ∀ c, c = 'e' ∨ c = 'E' → c.isDigit = false ∧ c ≠ '.' := by
    rintro c (rfl | rfl) <;> decide
  cases h with
  | none => exact fun c hc => ⟨(hrest.head c hc).1, (hrest.head c hc).2.1⟩
  | plain he h => exact forall_head_cons (hmark _ he)
  | signed he hs h => exact forall_head_cons (hmark _ he)

theorem Fraction.head (h : Fraction fs) (he : Exponent es) (hrest : Ends rest) :
    ∀ c ∈ (fs ++ (es ++ rest)).head?, c.isDigit = false := by
  cases h with
  | none => exact fun c hc => (he.head hrest c hc).1
  | some h => exact forall_head_cons rfl

theorem skipExponent_append (h : Exponent es) (hrest : Ends rest) : skipExponent (es ++ rest) = .ok rest := by
  have hdigit : ∀ d ∈ rest.head?, d.isDigit = false := fun d hd => (hrest.head d hd).1
  cases h with
  | none =>
    rw [List.nil_append]
    cases rest with
    | nil => rfl
    | cons c rest =>
      obtain ⟨-, -, hlower, hupper⟩ := hrest.head c rfl
      exact if_neg (not_or.mpr ⟨hlower, hupper⟩)
  | @plain e cs he h =>
    obtain ⟨c, ds, rfl⟩ := List.exists_cons_of_ne_nil h.nonempty
    have hc := h.digits c List.mem_cons_self
    have hdigits := skipDigits_append h hdigit
    unfold skipExponent
    simp only [List.cons_append, if_pos he]
    split
    · next heq => cases heq; cases hc
    · next heq => cases heq; cases hc
    · exact hdigits
  | @signed e s cs he hs h =>
    have hdigits := skipDigits_append h hdigit
    unfold skipExponent
    simp only [List.cons_append, if_pos he]
    rcases hs with rfl | rfl <;> exact hdigits

theorem skipFraction_append (h : Fraction fs) (he : Exponent es) (hrest : Ends rest) :
    skipFraction (fs ++ (es ++ rest)) = .ok rest := by
  have hexponent := skipExponent_append he hrest
  have hhead := he.head hrest
  cases h with
  | none =>
    rw [List.nil_append, skipFraction]
    · exact hexponent
    · intro cs heq
      rw [heq] at hhead
      exact (hhead '.' rfl).2 rfl
  | some h =>
    rw [List.cons_append, skipFraction, skipDigits_append h fun c hc => (hhead c hc).1]
    exact hexponent

theorem skipUnsigned_append (h : Unsigned cs) (hrest : Ends rest) : skipUnsigned (cs ++ rest) = .ok rest := by
  cases h with
  | @mk is fs es hi hf he =>
    rw [List.append_assoc, List.append_assoc, skipUnsigned,
      splitDigits_append hi.digits (hf.head he hrest)]
    have hfraction := skipFraction_append hf he hrest
    split
    · next heq => exact absurd (congrArg Prod.fst heq) hi.nonempty
    · next d ds _ heq =>
      have his : is = '0' :: d :: ds := congrArg Prod.fst heq
      have hshort := hi.shortest (by rw [his]; rfl)
      rw [his] at hshort
      cases hshort
    · next heq =>
      cases heq
      exact hfraction

/-! ### Values -/

/-- The scanner of an element, for values nested at most `fuel` deep. -/
def skipElement (fuel : ℕ) : Bracket → List Char → Except JsonError (List Char)
  | .square => skipNested fuel
  | .curly => skipMember (skipNested fuel)

/-- Blanks before a value do not matter. -/
theorem skipNested_skipBlanks (fuel : ℕ) (cs : List Char) : skipNested fuel (skipBlanks cs) = skipNested fuel cs := by
  cases fuel with
  | zero => rfl
  | succ fuel => rw [skipNested, skipNested, skipBlanks_skipBlanks]

theorem skipElement_skipBlanks (fuel : ℕ) (b : Bracket) (cs : List Char) :
    skipElement fuel b (skipBlanks cs) = skipElement fuel b cs := by
  cases b with
  | square => exact skipNested_skipBlanks fuel cs
  | curly => simp only [skipElement, skipMember, mark, skipBlanks_skipBlanks]

theorem skipNested_append (hw : Blanks w) (fuel : ℕ) (cs : List Char) :
    skipNested fuel (w ++ cs) = skipNested fuel cs := by
  rw [← skipNested_skipBlanks, skipBlanks_append hw, skipNested_skipBlanks]

/-- A digit ends no value. -/
theorem marks_of_isDigit (hc : c.isDigit = true) : isBlank c = false ∧ ∀ b : Bracket, c ≠ b.closing := by
  have hends : ¬ Ends [c] := fun h => Bool.eq_false_iff.mp (h.head c rfl).1 hc
  refine ⟨Bool.eq_false_iff.mpr fun hblank => hends (forall_head_cons (.inl hblank)), fun b hb => hends ?_⟩
  rw [hb]
  exact ends_closing b

theorem Unsigned.head (h : Unsigned cs) : ∃ c ds, cs = c :: ds ∧ c.isDigit = true := by
  cases h with
  | @mk is fs es hi hf he =>
    obtain ⟨c, ds, rfl⟩ := List.exists_cons_of_ne_nil hi.nonempty
    exact ⟨c, _, rfl, hi.digits c List.mem_cons_self⟩

/-- **A phrase begins with a mark** that is neither a blank nor closes anything, perhaps behind blanks. -/
theorem Derives.head {φ : Phrase} (h : Derives φ cs) :
    ∃ w c ds, cs = w ++ c :: ds ∧ Blanks w ∧ isBlank c = false ∧ ∀ b : Bracket, c ≠ b.closing := by
  have hnil : Blanks [] := fun c hc => absurd hc List.not_mem_nil
  have hopening : ∀ b : Bracket, isBlank b.opening = false ∧ ∀ b' : Bracket, b.opening ≠ b'.closing := by
    rintro (_ | _) <;> refine ⟨by decide, ?_⟩ <;> rintro (_ | _) <;> decide
  induction h with
  | @word cs h =>
    simp only [List.mem_cons, List.not_mem_nil, or_false] at h
    rcases h with rfl | rfl | rfl <;>
      exact ⟨[], _, _, rfl, hnil, by decide, by rintro (_ | _) <;> decide⟩
  | number h =>
    cases h with
    | plain h =>
      obtain ⟨c, ds, rfl, hc⟩ := h.head
      exact ⟨[], c, ds, rfl, hnil, marks_of_isDigit hc⟩
    | negative h => exact ⟨[], '-', _, rfl, hnil, by decide, by rintro (_ | _) <;> decide⟩
  | string h => exact ⟨[], '"', _, rfl, hnil, by decide, by rintro (_ | _) <;> decide⟩
  | empty b hw => exact ⟨[], b.opening, _, rfl, hnil, hopening b⟩
  | filled b h => exact ⟨[], b.opening, _, rfl, hnil, hopening b⟩
  | @item w cs w' hw h hw' ih =>
    obtain ⟨w₁, c, ds, rfl, hw₁, hc⟩ := ih
    refine ⟨w ++ w₁, c, ds ++ w', by simp, ?_, hc⟩
    intro d hd
    exact (List.mem_append.mp hd).elim (hw d) (hw₁ d)
  | member hw hk hw' h => exact ⟨_, '"', _, rfl, hw, by decide, by rintro (_ | _) <;> decide⟩
  | last h ih => exact ih
  | @more b cs ds h h' ih =>
    obtain ⟨w, c, cs, rfl, hw, hc⟩ := ih
    exact ⟨w, c, cs ++ ',' :: ds, by simp, hw, hc⟩

theorem Derives.length_pos {φ : Phrase} (h : Derives φ cs) : 0 < cs.length := by
  obtain ⟨w, c, ds, rfl, -⟩ := h.head
  simp

theorem skipItems_skipBlanks (fuel n : ℕ) (b : Bracket) (cs : List Char) :
    skipItems b.closing (skipElement fuel b) (n + 1) (skipBlanks cs) =
      skipItems b.closing (skipElement fuel b) (n + 1) cs := by
  rw [skipItems, skipItems, skipElement_skipBlanks]

theorem skipNested_opening (fuel : ℕ) (b : Bracket) (cs : List Char) :
    skipNested (fuel + 1) (b.opening :: cs) = skipBracketed b.closing (skipElement fuel b) cs := by
  cases b <;> rfl

theorem skipNested_digit (hc : c.isDigit = true) (fuel : ℕ) (cs : List Char) :
    skipNested (fuel + 1) (c :: cs) = skipUnsigned (c :: cs) := by
  have hne : ∀ d, d.isDigit = false → c ≠ d := by
    rintro d hd rfl
    exact Bool.eq_false_iff.mp hd hc
  rw [skipNested, skipBlanks_cons (marks_of_isDigit hc).1]
  dsimp only
  rw [if_neg (hne 'n' rfl), if_neg (hne 't' rfl), if_neg (hne 'f' rfl), if_neg (hne '-' rfl), if_pos hc]

/-- What it means that a phrase is skipped. The blanks behind an element are left. -/
def Skips : Phrase → List Char → Prop
  | .value, cs => ∀ fuel rest, cs.length ≤ fuel → Ends rest → skipNested fuel (cs ++ rest) = .ok rest
  | .element b, cs => ∀ fuel rest, cs.length ≤ fuel → Ends rest →
    ∃ w, Blanks w ∧ skipElement fuel b (cs ++ rest) = .ok (w ++ rest)
  | .elements b, cs => ∀ fuel n rest, cs.length ≤ fuel → cs.length ≤ n →
    skipItems b.closing (skipElement fuel b) n (cs ++ b.closing :: rest) = .ok rest

/-- **Every phrase is skipped to its end.** -/
theorem Derives.skips {φ : Phrase} (h : Derives φ cs) : Skips φ cs := by
  induction h with
  | @word cs h =>
    intro fuel rest hfuel hrest
    simp only [List.mem_cons, List.not_mem_nil, or_false] at h
    rcases h with rfl | rfl | rfl <;>
      obtain ⟨fuel, rfl⟩ := Nat.exists_eq_add_of_le' hfuel <;> rfl
  | @number cs h =>
    intro fuel rest hfuel hrest
    obtain ⟨fuel, rfl⟩ := Nat.exists_eq_add_of_le' (Nat.le_trans (Derives.number h).length_pos hfuel)
    cases h with
    | plain h =>
      have hskip := skipUnsigned_append h hrest
      obtain ⟨c, ds, rfl, hc⟩ := h.head
      rw [List.cons_append] at hskip ⊢
      rw [skipNested_digit hc, hskip]
    | negative h => exact skipUnsigned_append h hrest
  | @string cs h =>
    intro fuel rest hfuel hrest
    obtain ⟨fuel, rfl⟩ := Nat.exists_eq_add_of_le' (Nat.le_trans (Derives.string h).length_pos hfuel)
    rw [List.cons_append, List.append_assoc]
    exact skipString_append h rest
  | @empty w b hw =>
    intro fuel rest hfuel hrest
    obtain ⟨fuel, rfl⟩ := Nat.exists_eq_add_of_le' (Nat.le_trans (Derives.empty b hw).length_pos hfuel)
    have hclosing : isBlank b.closing = false := by cases b <;> decide
    have hblanks : skipBlanks (w ++ ([b.closing] ++ rest)) = b.closing :: rest := by
      rw [skipBlanks_append hw]
      exact skipBlanks_cons hclosing rest
    rw [List.cons_append, List.append_assoc, skipNested_opening, skipBracketed, hblanks]
    exact if_pos rfl
  | @filled cs b h ih =>
    intro fuel rest hfuel hrest
    obtain ⟨fuel, rfl⟩ := Nat.exists_eq_add_of_le' (Nat.le_trans (Derives.filled b h).length_pos hfuel)
    have hitems := ih fuel ((cs ++ b.closing :: rest).length + 1) rest (by simp at hfuel; omega) (by simp; omega)
    obtain ⟨w, c, ds, hcs, hw, hc, hclosing⟩ := h.head
    have hblanks : skipBlanks (cs ++ ([b.closing] ++ rest)) = c :: (ds ++ b.closing :: rest) := by
      rw [hcs, List.append_assoc, skipBlanks_append hw, List.cons_append, skipBlanks_cons hc]
      rfl
    rw [← skipItems_skipBlanks, ← List.singleton_append, hblanks] at hitems
    rw [List.cons_append, List.append_assoc, skipNested_opening, skipBracketed, hblanks]
    exact (if_neg (hclosing b)).trans hitems
  | @item w cs w' hw h hw' ih =>
    intro fuel rest hfuel hrest
    refine ⟨w', hw', ?_⟩
    rw [List.append_assoc, List.append_assoc, skipElement, skipNested_append hw]
    exact ih fuel (w' ++ rest) (by simp at hfuel; omega) (ends_append hw' hrest)
  | @member w ds w' cs hw hk hw' h ih =>
    intro fuel rest hfuel hrest
    obtain ⟨w₁, hw₁, hvalue⟩ := ih fuel rest (by simp at hfuel; omega) hrest
    refine ⟨w₁, hw₁, ?_⟩
    rw [List.append_assoc, List.cons_append, List.append_assoc, List.cons_append, List.append_assoc, List.cons_append,
      skipElement, skipMember, mark_append hw (by decide)]
    simp only [bind, Except.bind]
    rw [skipString_append hk]
    simp only [mark_append hw' (by decide : isBlank ':' = false)]
    exact hvalue
  | @last b cs h ih =>
    intro fuel n rest hfuel hn
    obtain ⟨n, rfl⟩ := Nat.exists_eq_add_of_le' (Nat.le_trans h.length_pos hn)
    obtain ⟨w, hw, hitem⟩ := ih fuel (b.closing :: rest) hfuel (ends_closing b)
    have hclosing : isBlank b.closing = false := by cases b <;> decide
    rw [skipItems, hitem]
    simp only [bind, Except.bind]
    rw [skipBlanks_append hw, skipBlanks_cons hclosing]
    dsimp only
    rw [if_neg (by cases b <;> decide), if_pos rfl]
  | @more b cs ds h h' ih ih' =>
    intro fuel n rest hfuel hn
    rw [List.length_append, List.length_cons] at hfuel hn
    obtain ⟨n, rfl⟩ := Nat.exists_eq_add_of_le' (Nat.le_trans h.length_pos (by omega : cs.length ≤ n))
    obtain ⟨w, hw, hitem⟩ := ih fuel (',' :: (ds ++ b.closing :: rest)) (by omega) ends_comma
    rw [List.append_assoc, List.cons_append, skipItems, hitem]
    simp only [bind, Except.bind]
    rw [skipBlanks_append hw, skipBlanks_cons (by decide)]
    dsimp only
    rw [if_pos rfl]
    exact ih' fuel n rest (by omega) (by omega)

/-- **Any value is skipped**, whatever ends it. -/
theorem skipValue_append (hw : Blanks w) (h : Derives .value cs) (hrest : Ends rest) :
    skipValue (w ++ (cs ++ rest)) = .ok rest := by
  rw [skipValue, skipNested_append hw]
  exact h.skips _ rest (by simp; omega) hrest

end Formula.Json
