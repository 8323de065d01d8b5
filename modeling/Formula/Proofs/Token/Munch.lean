import Formula.Proofs.Grammar.Reported
import Formula.Proofs.Token.Spans

/-!
# Items are the longest of their class

Every class of tokens has a language, the texts that it may have in a source (`Lexeme`). The character at
which an item begins decides the class (`Begins`), and the token is the longest text of that language which
stands there (`Longest`). Where no class begins, or a bracket is opened that is never closed, the item is an
error; no other place makes one (`Decides`).

In particular the text of a number token is a numeral without a sign, so it can be read.
-/

namespace Formula.Item

open Text

variable {p skip : ℕ} {c : Char} {cs ds rest whole fraction exponent : List Char} {item : Item}

/-! ### The languages of the classes -/

/-- One digit or more. -/
structure Digits (cs : List Char) : Prop where
  ne_nil : cs ≠ []
  all_digit : ∀ c ∈ cs, c.isDigit = true

/-- Nothing, or a point and digits behind it. -/
inductive Fraction : List Char → Prop
  | none : Fraction []
  | point {ds : List Char} (h : Digits ds) : Fraction ('.' :: ds)

/-- Nothing, or a sign. -/
inductive Sign : List Char → Prop
  | none : Sign []
  | plus : Sign ['+']
  | minus : Sign ['-']

/-- Nothing, or a letter, perhaps a sign, and digits behind it. -/
inductive Exponent : List Char → Prop
  | none : Exponent []
  | mark {e : Char} {sign ds : List Char} (he : e = 'e' ∨ e = 'E') (hsign : Sign sign)
      (h : Digits ds) : Exponent (e :: (sign ++ ds))

/-- **The language of a class**: what its tokens stand for in a source. -/
inductive Lexeme : Token.Kind → List Char → Prop
  | number {whole fraction exponent : List Char} (hwhole : Digits whole)
      (hfraction : Fraction fraction) (hexponent : Exponent exponent) :
      Lexeme .number (whole ++ (fraction ++ exponent))
  | name {c : Char} {cs : List Char} (hc : isNameStart c = true)
      (hcs : ∀ d ∈ cs, isNamePart d = true) : Lexeme .name (c :: cs)
  | pair {s : String} (hs : s ∈ ["&&", "||", "==", "!=", "<=", ">="]) : Lexeme .symbol s.toList
  | single {c : Char} (hc : isPunctuation c = true) : Lexeme .symbol [c]
  | quoted {text : List Char} (h : ']' ∉ text) : Lexeme .quoted ('[' :: (text ++ [']']))

/-- **The class that a character begins.** -/
inductive Begins (c : Char) : Token.Kind → Prop
  | quoted (h : c = '[') : Begins c .quoted
  | number (h : c.isDigit = true) : Begins c .number
  | name (h : isNameStart c = true) : Begins c .name
  | symbol (h : isPunctuation c = true) (hbracket : c ≠ '[') (hline : c ≠ '_') : Begins c .symbol

/-- **The longest text of a class** at the front of some characters. -/
structure Longest (kind : Token.Kind) (cs lexeme : List Char) : Prop where
  front : lexeme <+: cs
  mem : Lexeme kind lexeme
  length_le : ∀ other, other <+: cs → Lexeme kind other → other.length ≤ lexeme.length

/-- **What the item is** that begins with the character `c` before `cs`. -/
structure Decides (c : Char) (cs : List Char) (item : Item) : Prop where
  /-- A token is the longest of the class that the character begins. -/
  token : ∀ t, item = .ok t → Begins c t.kind ∧
    ∃ lexeme, Longest t.kind (c :: cs) lexeme ∧ item.Shows (String.ofList lexeme)
  /-- A fault is one of the character itself, or of all that follows it. -/
  fault : ∀ e, item = .error e →
    e.fault = .unterminated ∧ c = '[' ∨ e.fault = .unrecognized c ∧ c ≠ '['
  /-- There is a fault exactly where a bracket is not closed or no class begins. -/
  error_iff : (∃ e, item = .error e) ↔ c = '[' ∧ ']' ∉ cs ∨ ∀ kind, ¬ Begins c kind

/-! ### Classes are apart -/

theorem punctuation_bounds (h : isPunctuation c = true) : 33 ≤ c.toNat ∧ c.toNat ≤ 47 ∨
    58 ≤ c.toNat ∧ c.toNat ≤ 64 ∨ 91 ≤ c.toNat ∧ c.toNat ≤ 96 ∨ 123 ≤ c.toNat ∧ c.toNat ≤ 126 := by
  simp only [isPunctuation, Bool.or_eq_true, Bool.and_eq_true, decide_eq_true_eq, Char.le_def,
    UInt32.le_iff_toNat_le, or_assoc] at h
  exact h

theorem not_isDigit_of_isPunctuation (h : isPunctuation c = true) : c.isDigit = false := by
  by_contra hd
  rw [Bool.not_eq_false] at hd
  have hdigit := Decimal.digit_bounds hd
  have hpunct := punctuation_bounds h
  omega

/-- The underscore is the only punctuation that begins a name. -/
theorem eq_underscore_of_isPunctuation (h : isPunctuation c = true) (hname : isNameStart c = true) :
    c = '_' := by
  have hascii := not_plainAscii_of_isNameStart hname
  have hpunct := punctuation_bounds h
  have hline : c.toNat = 95 := by
    by_contra hne
    have htrue : plainAscii.contains c = true := by
      simp only [CodePoints.contains_iff, plainAscii, List.mem_cons, List.not_mem_nil, or_false,
        exists_eq_or_imp, exists_eq_left]
      omega
    rw [htrue] at hascii
    cases hascii
  exact Char.toNat_inj.mp hline

/-- **A character begins one class at most.** -/
theorem Begins.unique {kind kind' : Token.Kind} (h : Begins c kind) (h' : Begins c kind') :
    kind = kind' := by
  have hdigit : ('[' : Char).isDigit = false := rfl
  have hname : isNameStart '[' = false := by decide
  cases h with
  | quoted h =>
    subst h
    cases h' with
    | quoted => rfl
    | number h' => rw [hdigit] at h'; cases h'
    | name h' => rw [hname] at h'; cases h'
    | symbol _ hbracket => exact absurd rfl hbracket
  | number h =>
    cases h' with
    | quoted h' => subst h'; cases h
    | number => rfl
    | name h' => rw [not_isDigit_of_isNameStart h'] at h; cases h
    | symbol h' => rw [not_isDigit_of_isPunctuation h'] at h; cases h
  | name h =>
    cases h' with
    | quoted h' => subst h'; rw [hname] at h; cases h
    | number h' => rw [not_isDigit_of_isNameStart h] at h'; cases h'
    | name => rfl
    | symbol h' _ hline => exact absurd (eq_underscore_of_isPunctuation h' h) hline
  | symbol h hbracket hline =>
    cases h' with
    | quoted h' => exact absurd h' hbracket
    | number h' => rw [not_isDigit_of_isPunctuation h] at h'; cases h'
    | name h' => exact absurd (eq_underscore_of_isPunctuation h h') hline
    | symbol => rfl

/-! ### Runs of characters -/

/-- A run at the front is no longer than the longest one. -/
theorem length_le_takeWhile {f : Char → Bool} (h : ∀ c ∈ cs, f c = true) :
    cs.length ≤ ((cs ++ rest).takeWhile f).length := by
  rw [List.takeWhile_append_of_pos h, List.length_append]
  exact Nat.le_add_right _ _

/-! ### Numbers -/

theorem digits_take (h : digitsLength cs ≠ 0) : Digits (cs.take (digitsLength cs)) := by
  have htake : cs.take (digitsLength cs) = cs.takeWhile Char.isDigit :=
    take_length_takeWhile Char.isDigit cs
  rw [htake]
  exact ⟨fun hnil => h (by rw [Item.digitsLength, hnil]; rfl), fun c hc => List.mem_takeWhile_imp hc⟩

theorem fraction_take (cs : List Char) : Fraction (cs.take (fractionLength cs)) := by
  unfold fractionLength
  split
  · next cs =>
    split
    · exact .none
    · next h =>
      rw [Nat.add_comm 1, List.take_succ_cons]
      exact .point (digits_take h)
  · exact .none

theorem sign_take (cs : List Char) : Sign (cs.take (signLength cs)) := by
  unfold signLength
  split
  · exact .plus
  · exact .minus
  · exact .none

theorem exponent_take (cs : List Char) : Exponent (cs.take (exponentLength cs)) := by
  cases cs with
  | nil => exact .none
  | cons e cs =>
    unfold exponentLength
    dsimp only
    split
    · next h =>
      rw [Nat.add_assoc, Nat.add_comm 1, List.take_succ_cons, List.take_add]
      exact .mark h.1 (sign_take cs) (digits_take h.2)
    · exact .none

/-- **The number at a digit** is one of the language. -/
theorem lexeme_take_numberLength (hc : c.isDigit = true) :
    Lexeme .number ((c :: cs).take (numberLength (c :: cs))) := by
  have hwhole : digitsLength (c :: cs) ≠ 0 := by
    rw [digitsLength, List.takeWhile_cons_of_pos hc, List.length_cons]
    exact Nat.succ_ne_zero _
  unfold numberLength
  dsimp only
  rw [Nat.add_assoc, List.take_add, List.take_add, List.drop_drop]
  exact .number (digits_take hwhole) (fraction_take _) (exponent_take _)

/-- The letter of an exponent ends the digits before it. -/
theorem exponent_head {e : Char} (he : e = 'e' ∨ e = 'E') :
    ∀ d ∈ (e :: cs).head?, d.isDigit = false ∧ d ≠ '.' := by
  rcases he with rfl | rfl
  · exact forall_head_cons ⟨rfl, by decide⟩
  · exact forall_head_cons ⟨rfl, by decide⟩

/-- An exponent at the front is no longer than the one that is read. -/
theorem Exponent.length_le (h : Exponent exponent) :
    exponent.length ≤ exponentLength (exponent ++ rest) := by
  cases h with
  | none => exact Nat.zero_le _
  | @mark e sign ds he hsign hds =>
    have hsignLength : signLength (sign ++ (ds ++ rest)) = sign.length := by
      cases hsign with
      | plus => rfl
      | minus => rfl
      | none =>
        obtain ⟨d, ds, rfl⟩ := List.exists_cons_of_ne_nil hds.ne_nil
        have hd := hds.all_digit d List.mem_cons_self
        unfold signLength
        split
        · next heq => cases heq; cases hd
        · next heq => cases heq; cases hd
        · rfl
    have hle : ds.length ≤ Item.digitsLength (ds ++ rest) := length_le_takeWhile hds.all_digit
    have hpos := List.length_pos_iff.mpr hds.ne_nil
    rw [List.cons_append, List.append_assoc, exponentLength, hsignLength, List.drop_left]
    rw [if_pos ⟨he, by omega⟩, List.length_cons, List.length_append]
    omega

/-- What stands behind a point is no digit of the number before it. -/
theorem Fraction.not_isDigit (h : Fraction fraction) (hrest : ∀ d ∈ rest.head?, d.isDigit = false) :
    ∀ d ∈ (fraction ++ rest).head?, d.isDigit = false := by
  cases h with
  | none => exact hrest
  | point => exact forall_head_cons rfl

theorem Fraction.length_le (h : Fraction fraction) :
    fraction.length ≤ fractionLength (fraction ++ rest) := by
  cases h with
  | none => exact Nat.zero_le _
  | @point ds hds =>
    have hle : ds.length ≤ digitsLength (ds ++ rest) := length_le_takeWhile hds.all_digit
    have hpos := List.length_pos_iff.mpr hds.ne_nil
    rw [List.cons_append, fractionLength, if_neg (by omega), List.length_cons]
    omega

theorem Fraction.fractionLength_eq (h : Fraction fraction)
    (hrest : ∀ d ∈ rest.head?, d.isDigit = false ∧ d ≠ '.') :
    fractionLength (fraction ++ rest) = fraction.length := by
  cases h with
  | none => exact fractionLength_of_stop fun d hd => (hrest d hd).2
  | @point ds hds =>
    have hlen := digitsLength_of_stop hds.all_digit fun d hd => (hrest d hd).1
    have hpos := List.length_pos_iff.mpr hds.ne_nil
    rw [List.cons_append, fractionLength, hlen, if_neg (by omega), List.length_cons, Nat.add_comm]

/-- **No number at the front is longer** than the one that is read. -/
theorem length_le_numberLength (hwhole : Digits whole) (hfraction : Fraction fraction)
    (hexponent : Exponent exponent) :
    (whole ++ (fraction ++ exponent)).length ≤
      numberLength (whole ++ (fraction ++ exponent) ++ rest) := by
  rw [List.append_assoc, List.append_assoc, List.length_append, List.length_append]
  unfold numberLength
  dsimp only
  have hexponentLe : exponent.length ≤ exponentLength (exponent ++ rest) := hexponent.length_le
  cases hexponent with
  | none =>
    rw [List.nil_append, List.length_nil]
    cases hfraction with
    | none =>
      have hle : whole.length ≤ digitsLength (whole ++ rest) := length_le_takeWhile hwhole.all_digit
      rw [List.nil_append, List.length_nil]
      omega
    | @point ds hds =>
      have hle : ('.' :: ds).length ≤ fractionLength ('.' :: ds ++ rest) :=
        (Fraction.point hds).length_le
      have hpoint : ∀ d ∈ ('.' :: ds ++ rest).head?, d.isDigit = false := forall_head_cons rfl
      rw [digitsLength_of_stop hwhole.all_digit hpoint, List.drop_left]
      omega
  | @mark e sign ds he hsign hds =>
    -- The letter ends the digits and the fraction, so all parts are read as they stand.
    have hstop : ∀ d ∈ (e :: (sign ++ ds) ++ rest).head?, d.isDigit = false ∧ d ≠ '.' :=
      exponent_head he
    have hlen := digitsLength_of_stop hwhole.all_digit (hfraction.not_isDigit fun d hd => (hstop d hd).1)
    rw [hlen, List.drop_left, hfraction.fractionLength_eq hstop, ← List.drop_drop, List.drop_left,
      List.drop_left]
    omega

/-- **A number is the longest at its digit.** -/
theorem longest_number (hc : c.isDigit = true) :
    Longest .number (c :: cs) ((c :: cs).take (numberLength (c :: cs))) := by
  refine ⟨List.take_prefix _ _, lexeme_take_numberLength hc, fun other hfront hother => ?_⟩
  rw [List.length_take_of_le (numberLength_le _)]
  obtain ⟨rest, hrest⟩ := hfront
  rw [← hrest]
  cases hother with
  | number hwhole hfraction hexponent => exact length_le_numberLength hwhole hfraction hexponent

/-! ### Numbers are numerals -/

theorem Exponent.exists_value (h : Exponent cs) : ∃ e, Decimal.exponent? cs = some e := by
  cases h with
  | none => exact ⟨0, rfl⟩
  | @mark e sign ds he hsign hds =>
    have hall : ds.all Char.isDigit = true := List.all_eq_true.mpr hds.all_digit
    have hsplit : ∃ negative, Decimal.splitSign (sign ++ ds) = (negative, ds) := by
      cases hsign with
      | plus => exact ⟨false, rfl⟩
      | minus => exact ⟨true, rfl⟩
      | none =>
        obtain ⟨d, ds, rfl⟩ := List.exists_cons_of_ne_nil hds.ne_nil
        exact ⟨false, Decimal.splitSign_of_isDigit (hds.all_digit d List.mem_cons_self) ds⟩
    obtain ⟨negative, hsplit⟩ := hsplit
    rw [Decimal.exponent?, hsplit]
    dsimp only
    rw [if_pos ⟨he, hds.ne_nil, hall⟩]
    exact ⟨_, rfl⟩

theorem Fraction.exists_split (h : Fraction fraction)
    (hrest : ∀ d ∈ rest.head?, d.isDigit = false ∧ d ≠ '.') :
    ∃ ds, Decimal.splitFraction (fraction ++ rest) = (ds, rest) := by
  cases h with
  | none =>
    refine ⟨[], ?_⟩
    rw [List.nil_append]
    unfold Decimal.splitFraction
    split
    · exact absurd rfl (hrest '.' rfl).2
    · rfl
  | @point ds hds =>
    have hstop : ∀ d ∈ rest.head?, d.isDigit = false := fun d hd => (hrest d hd).1
    refine ⟨ds, ?_⟩
    rw [List.cons_append, Decimal.splitFraction, takeWhile_of_stop hds.all_digit hstop,
      dropWhile_of_stop hds.all_digit hstop]

/-- **A number text is a numeral.** -/
theorem exists_ofChars? (h : Lexeme .number cs) : ∃ n, Decimal.Numeral.ofChars? cs = some n := by
  cases h with
  | @number whole fraction exponent hwhole hfraction hexponent =>
    have hstop : ∀ d ∈ exponent.head?, d.isDigit = false ∧ d ≠ '.' := by
      cases hexponent with
      | none => exact fun d hd => nomatch hd
      | mark he => exact exponent_head he
    have hpoint := hfraction.not_isDigit fun d hd => (hstop d hd).1
    obtain ⟨ds, hsplit⟩ := hfraction.exists_split hstop
    obtain ⟨e, he⟩ := hexponent.exists_value
    unfold Decimal.Numeral.ofChars?
    rw [takeWhile_of_stop hwhole.all_digit hpoint, dropWhile_of_stop hwhole.all_digit hpoint, hsplit]
    dsimp only
    rw [if_neg fun hnil => hwhole.ne_nil hnil.1, he]
    exact ⟨_, rfl⟩

/-- **A number text is read**, and no sign is read from it. -/
theorem read?_of_lexeme {s : String} (h : Lexeme .number s.toList) :
    ∃ x, Decimal.read? s = some x ∧ Decimal.isNegative x = false := by
  obtain ⟨n, hn⟩ := exists_ofChars? h
  obtain ⟨c, cs, hs, hc⟩ : ∃ c cs, s.toList = c :: cs ∧ c.isDigit = true := by
    generalize s.toList = ds at h
    cases h with
    | number hwhole =>
      obtain ⟨c, whole, rfl⟩ := List.exists_cons_of_ne_nil hwhole.ne_nil
      exact ⟨c, _, rfl, hwhole.all_digit c List.mem_cons_self⟩
  exact ⟨_, Decimal.read?_of_isDigit hs hc hn, Decimal.isNegative_toFloat_of_le n.nearest_le⟩

/-! ### Names, symbols and quoted texts -/

/-- **A name is the longest at its first character.** -/
theorem longest_name (hc : isNameStart c = true) :
    Longest .name (c :: cs) ((c :: cs).take (nameLength (c :: cs))) := by
  have htake : (c :: cs).take (nameLength (c :: cs)) = c :: cs.takeWhile isNamePart :=
    take_nameLength hc
  refine ⟨List.take_prefix _ _, ?_, fun other hfront hother => ?_⟩
  · rw [htake]
    exact .name hc fun d hd => List.mem_takeWhile_imp hd
  · rw [htake]
    cases hother with
    | name _ hparts =>
      obtain ⟨rest, hrest⟩ := hfront
      obtain ⟨-, rfl⟩ := List.cons.inj hrest
      rw [List.length_cons, List.length_cons]
      exact Nat.succ_le_succ (length_le_takeWhile hparts)

theorem pairSymbols_texts : pairSymbols.map (fun pair => String.ofList [pair.1, pair.2]) =
    ["&&", "||", "==", "!=", "<=", ">="] := by
  decide

/-- The symbols of two characters are those pairs. -/
theorem exists_pair_of_mem {s : String} (h : s ∈ ["&&", "||", "==", "!=", "<=", ">="]) :
    ∃ a b, (a, b) ∈ pairSymbols ∧ s.toList = [a, b] := by
  rw [← pairSymbols_texts] at h
  obtain ⟨⟨a, b⟩, hpair, rfl⟩ := List.mem_map.mp h
  exact ⟨a, b, hpair, String.toList_ofList⟩

theorem lexeme_pair {a b : Char} (h : (a, b) ∈ pairSymbols) : Lexeme .symbol [a, b] := by
  have hmem : String.ofList [a, b] ∈ ["&&", "||", "==", "!=", "<=", ">="] := by
    rw [← pairSymbols_texts]
    exact List.mem_map_of_mem (f := fun pair : Char × Char => String.ofList [pair.1, pair.2]) h
  have hlexeme := Lexeme.pair hmem
  rwa [String.toList_ofList] at hlexeme

/-- **A symbol is the longest at its first character.** -/
theorem longest_symbol (hc : isPunctuation c = true) :
    Longest .symbol (c :: cs) ((c :: cs).take (symbolLength (c :: cs))) := by
  refine ⟨List.take_prefix _ _, ?_, fun other hfront hother => ?_⟩
  · unfold symbolLength
    split
    · next d rest heq =>
      obtain ⟨rfl, rfl⟩ := List.cons.inj heq
      split
      · next hpair => exact lexeme_pair hpair
      · exact .single hc
    · exact .single hc
  · rw [List.length_take_of_le symbolLength_le]
    cases hother with
    | single => exact symbolLength_pos
    | @pair s hs =>
      obtain ⟨a, b, hpair, htext⟩ := exists_pair_of_mem hs
      rw [htext] at hfront ⊢
      obtain ⟨rest, hrest⟩ := hfront
      rw [← hrest, List.cons_append, List.cons_append, symbolLength, if_pos hpair]
      rfl

/-- **A quoted text is the longest at its bracket**, since one text only stands before the first bracket
that closes. -/
theorem longest_quoted {text : List Char} (h : ']' ∉ text) :
    Longest .quoted ('[' :: (text ++ ']' :: rest)) ('[' :: (text ++ [']'])) := by
  refine ⟨⟨rest, by simp⟩, .quoted h, fun other hfront hother => ?_⟩
  cases hother with
  | @quoted text' h' =>
    obtain ⟨rest', hrest⟩ := hfront
    rw [List.cons_append, List.append_assoc] at hrest
    have htext := congrArg (List.takeWhile (· ≠ ']')) (List.cons.inj hrest).2
    rw [takeWhile_of_closed h, List.singleton_append, takeWhile_of_closed h'] at htext
    rw [htext]

/-! ### Places -/

theorem decides_tokenAt {kind : Token.Kind} {n : ℕ} (hkind : kind ≠ .quoted) (hbegins : Begins c kind)
    (hlongest : Longest kind (c :: cs) ((c :: cs).take n)) :
    Decides c cs (tokenAt kind p n (c :: cs)).1 := by
  refine ⟨fun t ht => ?_, fun e he => ?_, ⟨fun ⟨e, he⟩ => ?_, fun h => ?_⟩⟩
  · cases ht
    refine ⟨hbegins, _, hlongest, ?_⟩
    rw [tokenAt, Shows, if_neg hkind]
  · cases he
  · cases he
  · rcases h with ⟨hbracket, -⟩ | hnone
    · exact absurd (hbegins.unique (.quoted hbracket)) hkind
    · exact absurd hbegins (hnone kind)

theorem decides_quotedAt : Decides '[' cs (quotedAt p cs).1 := by
  have hbegins : Begins '[' .quoted := .quoted rfl
  by_cases hclose : ']' ∈ cs
  · obtain ⟨text, rest, rfl, hfirst⟩ := List.eq_append_cons_of_mem hclose
    rw [quotedAt_of_closed hfirst]
    refine ⟨fun t ht => ?_, fun e he => ?_, ⟨fun ⟨e, he⟩ => ?_, fun h => ?_⟩⟩
    · cases ht
      refine ⟨hbegins, _, longest_quoted hfirst, ?_⟩
      rw [Shows, if_pos rfl, ofList_bracket, String.ofList_append, String.append_assoc]
    · cases he
    · cases he
    · rcases h with ⟨-, hopen⟩ | hnone
      · exact absurd hclose hopen
      · exact absurd hbegins (hnone .quoted)
  · rw [quotedAt_of_open hclose]
    refine ⟨fun t ht => ?_, fun e he => ?_, ⟨fun _ => .inl ⟨rfl, hclose⟩, fun _ => ⟨_, rfl⟩⟩⟩
    · cases ht
    · cases he
      exact .inl ⟨rfl, rfl⟩

/-- A character that begins no class is an item of its own. -/
theorem decides_unrecognized (hbracket : c ≠ '[') (h : ∀ kind, ¬ Begins c kind) :
    Decides c cs (.error ⟨p, .unrecognized c⟩) := by
  refine ⟨fun t ht => ?_, fun e he => ?_, ⟨fun _ => .inr h, fun _ => ⟨_, rfl⟩⟩⟩
  · cases ht
  · cases he
    exact .inr ⟨rfl, hbracket⟩

/-- **The character at which an item begins decides what it is.** -/
theorem decides_itemAt (p : ℕ) (c : Char) (cs : List Char) : Decides c cs (itemAt p c cs).1 := by
  unfold itemAt
  by_cases hbracket : c = '['
  · subst hbracket
    rw [if_pos rfl]
    exact decides_quotedAt
  · rw [if_neg hbracket]
    split_ifs with hdigit hname hpunct
    · exact decides_tokenAt (by decide) (.number hdigit) (longest_number hdigit)
    · exact decides_tokenAt (by decide) (.name hname) (longest_name hname)
    · have hline : c ≠ '_' := by
        rintro rfl
        exact hname (by decide)
      exact decides_tokenAt (by decide) (.symbol hpunct hbracket hline) (longest_symbol hpunct)
    · refine decides_unrecognized hbracket fun kind hbegins => ?_
      cases hbegins with
      | quoted h => exact hbracket h
      | number h => exact hdigit h
      | name h => exact hname h
      | symbol h => exact hpunct h

/-- Every item begins at a character that is no blank, and is the item at that place. -/
theorem exists_itemAt_of_mem (h : item ∈ itemsFrom skip p cs) : ∃ before c after,
    cs = before ++ c :: after ∧ blank.contains c = false ∧
      item = (itemAt (p + bytes before) c after).1 := by
  induction cs generalizing skip p with
  | nil => cases h
  | cons c cs ih =>
    have hlater : ∀ {skip : ℕ}, item ∈ itemsFrom skip (p + c.utf8Size) cs → ∃ before d after,
        c :: cs = before ++ d :: after ∧ blank.contains d = false ∧
          item = (itemAt (p + bytes before) d after).1 := by
      intro skip hmem
      obtain ⟨before, d, after, rfl, hblank, hitem⟩ := ih hmem
      rw [Nat.add_assoc, ← bytes_cons] at hitem
      exact ⟨c :: before, d, after, rfl, hblank, hitem⟩
    unfold itemsFrom at h
    cases skip with
    | succ skip => exact hlater h
    | zero =>
      dsimp only at h
      by_cases hblank : blank.contains c = true
      · rw [if_pos hblank] at h
        exact hlater h
      · rw [if_neg hblank] at h
        rcases List.mem_cons.mp h with h | h
        · exact ⟨[], c, cs, rfl, Bool.eq_false_iff.mpr hblank, h⟩
        · exact hlater h

/-! ### Sources -/

/-- **The items of a source are the longest of their classes**, each at its place. -/
structure Munches (source : String) (items : List Item) : Prop where
  /-- The character at which an item begins is no blank and decides what the item is. -/
  decided : ∀ item ∈ items, ∃ before c after, source.toList = before ++ c :: after ∧
    item.start = bytes before ∧ blank.contains c = false ∧ Decides c after item
  /-- Any other character that is no blank stands behind the beginning of an item, within it. -/
  begun : ∀ before c after, source.toList = before ++ c :: after → blank.contains c = false →
    ∃ item ∈ items, item.start ≤ bytes before ∧ bytes before < item.stop source.utf8ByteSize

theorem ofSource_munches (source : String) : Munches source (ofSource source) := by
  refine ⟨fun item hitem => ?_, fun before c after hsource hblank => ?_⟩
  · obtain ⟨before, c, after, hsource, hblank, rfl⟩ := exists_itemAt_of_mem hitem
    refine ⟨before, c, after, hsource, ?_, hblank, decides_itemAt _ c after⟩
    obtain ⟨_, _, -, -, hcovers⟩ := covers_itemAt (rfl : 0 + bytes before + bytes (c :: after) = _)
    rw [hcovers.start_eq, Nat.zero_add]
  · rcases (ofSource_tiles source).blank_or_exists hsource with hblank' | ⟨item, hitem, hstart, hstop⟩
    · rw [hblank] at hblank'
      cases hblank'
    · rw [Nat.zero_add] at hstart hstop
      exact ⟨item, hitem, hstart, Nat.lt_of_lt_of_le (Nat.lt_add_of_pos_right c.utf8Size_pos) hstop⟩

/-- The text of a number token is one of the language. -/
theorem Munches.lexeme_number {source : String} {items : List Item} {t : Token}
    (h : Munches source items) (ht : .ok t ∈ items) (hk : t.kind = .number) :
    Lexeme .number t.text.toList := by
  obtain ⟨before, c, after, -, -, -, hdecides⟩ := h.decided _ ht
  obtain ⟨-, lexeme, hlongest, hshows⟩ := hdecides.token t rfl
  have hmem := hlongest.mem
  rw [Shows, if_neg (by rw [hk]; decide)] at hshows
  rwa [← hshows, String.toList_ofList, ← hk]

/-- **Maximal munch.** The items of a source are the longest of their classes, and errors where no token
can begin; a character begins one class at most; and the number tokens are read, without a sign. So
whatever tokens of a source a parser is given and whatever was asked of it before, it never finds a
number that cannot be read. -/
theorem ofSource_longest (source : String) :
    Munches source (ofSource source) ∧
    (∀ c kind kind', Begins c kind → Begins c kind' → kind = kind') ∧
    (∀ t, .ok t ∈ ofSource source → t.kind = .number →
      ∃ x, Decimal.read? t.text = some x ∧ Decimal.isNegative x = false) ∧
    ∀ ts, (∀ t ∈ ts, .ok t ∈ ofSource source) → ∀ dialect s, Parser.Reachable ⟨ts, dialect⟩ s →
      ∀ p text, (Parser.wholeExpression ⟨ts, dialect⟩ s).result ≠ .error ⟨p, .invalidNumber text⟩ ∧
        (Parser.wholeAssignment ⟨ts, dialect⟩ s).result ≠ .error ⟨p, .invalidNumber text⟩ := by
  have hmunches := ofSource_munches source
  have hread : ∀ t, .ok t ∈ ofSource source → t.kind = .number →
      ∃ x, Decimal.read? t.text = some x ∧ Decimal.isNegative x = false :=
    fun t ht hk => read?_of_lexeme (hmunches.lexeme_number ht hk)
  refine ⟨hmunches, fun _ _ _ => Begins.unique, hread, fun ts hts dialect s hs p text => ?_⟩
  refine hs.readable (fun t ht hk hnone => ?_) p text
  obtain ⟨x, hx, -⟩ := hread t (hts t ht) hk
  rw [hx] at hnone
  cases hnone

/-- A point and a letter that no digits follow are no part of the number, and three marks are a pair
and a single one. -/
theorem ofSource_longest_lookahead :
    (ofSource "1.e+_²&&&2e-5.3[a").map (fun item => (item.start, item.stop 18)) =
        [(0, 1), (1, 2), (2, 3), (3, 4), (4, 7), (7, 9), (9, 10), (10, 14), (14, 15), (15, 16), (16, 18)] ∧
      (∃ t x, .ok t ∈ ofSource "1.e+_²&&&2e-5.3[a" ∧ t.text = "2e-5" ∧
        Decimal.read? t.text = some x ∧ Decimal.isNegative x = false) ∧
      (∃ before c after, "1.e+_²&&&2e-5.3[a".toList = before ++ c :: after ∧ bytes before = 16 ∧
        (c = '[' ∧ ']' ∉ after ∨ ∀ kind, ¬ Begins c kind)) := by
  obtain ⟨hmunches, -, hread, -⟩ := ofSource_longest "1.e+_²&&&2e-5.3[a"
  have hnumber : .ok ⟨.number, "2e-5", 10⟩ ∈ ofSource "1.e+_²&&&2e-5.3[a" := by decide +kernel
  have herror : .error ⟨16, .unterminated⟩ ∈ ofSource "1.e+_²&&&2e-5.3[a" := by decide +kernel
  obtain ⟨x, hx⟩ := hread _ hnumber rfl
  obtain ⟨before, c, after, hsource, hstart, -, hdecides⟩ := hmunches.decided _ herror
  refine ⟨by decide +kernel, ⟨_, x, hnumber, rfl, hx⟩, before, c, after, hsource, hstart.symm, ?_⟩
  exact hdecides.error_iff.mp ⟨_, rfl⟩

end Formula.Item
