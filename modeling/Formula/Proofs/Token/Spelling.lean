import Formula.Proofs.Token.Classes

/-!
# Texts that spell tokens

`Spells position cs ts rest` says that the characters `cs`, standing before `rest` at a byte offset, are
cut into the tokens `ts` and that the next item begins with `rest`. Spellings are put together from
left to right (`Spells.append`); the rest behind each of them is what decides where a token ends, and
the lemma of each class asks of it no more than that it does not lengthen the token.

A source that spells tokens up to its end has these tokens, `Spells.ofSource`.
-/

namespace Formula.Item

open Text

/-- The number of bytes of some characters. -/
def bytes (cs : List Char) : ℕ :=
  (cs.map Char.utf8Size).sum

theorem bytes_cons (c : Char) (cs : List Char) : bytes (c :: cs) = c.utf8Size + bytes cs := by
  rw [bytes, List.map_cons, List.sum_cons]
  rfl

theorem bytes_append (cs ds : List Char) : bytes (cs ++ ds) = bytes cs + bytes ds := by
  rw [bytes, List.map_append, List.sum_append]
  rfl

/-- **The characters `cs` spell the tokens `ts`** before `rest`. -/
def Spells (position : ℕ) (cs : List Char) (ts : List Token) (rest : List Char) : Prop :=
  itemsFrom 0 position (cs ++ rest) = ts.map Except.ok ++ itemsFrom 0 (position + bytes cs) rest

variable {p : ℕ} {c d : Char} {cs ds rest : List Char} {t : Token} {ts us : List Token}

/-! ### Putting spellings together -/

theorem Spells.nil : Spells p [] [] rest := rfl

theorem Spells.append (h : Spells p cs ts (ds ++ rest)) (h' : Spells (p + bytes cs) ds us rest) :
    Spells p (cs ++ ds) (ts ++ us) rest := by
  unfold Spells at h h' ⊢
  rw [List.append_assoc, h, h', bytes_append, List.map_append, List.append_assoc, Nat.add_assoc]

theorem collect_map_ok (ts : List Token) : collect (ts.map Except.ok) = .ok ts := by
  induction ts with
  | nil => rfl
  | cons t ts ih => rw [List.map_cons, collect, ih]; rfl

/-- **A source that spells tokens has these tokens.** -/
theorem Spells.ofSource {s : String} (h : Spells 0 s.toList ts []) : Token.ofSource s = .ok ts := by
  unfold Spells at h
  rw [List.append_nil, itemsFrom, List.append_nil] at h
  rw [Token.ofSource, Item.ofSource, h, collect_map_ok]

/-- The characters of an item that has begun are skipped. -/
theorem itemsFrom_length (cs : List Char) (p : ℕ) :
    itemsFrom cs.length p (cs ++ rest) = itemsFrom 0 (p + bytes cs) rest := by
  induction cs generalizing p with
  | nil => rfl
  | cons c cs ih =>
    rw [List.length_cons, List.cons_append, itemsFrom, ih, bytes_cons, Nat.add_assoc]

theorem spells_item (hc : blank.contains c = false)
    (h : itemAt p c (cs ++ rest) = (.ok t, cs.length)) : Spells p (c :: cs) [t] rest := by
  unfold Spells
  rw [List.cons_append, itemsFrom, if_neg (Bool.eq_false_iff.mp hc)]
  simp only [h]
  rw [itemsFrom_length, List.map_singleton, List.singleton_append, bytes_cons, Nat.add_assoc]

theorem spells_blank (hc : blank.contains c = true) : Spells p [c] [] rest := by
  unfold Spells
  rw [List.singleton_append, itemsFrom, if_pos hc]
  rfl

/-! ### Names -/

/-- Whether a text is a name. -/
def isIdentifier (s : String) : Bool :=
  match s.toList with
  | [] => false
  | c :: cs => isNameStart c && cs.all isNamePart

/-- A name ends before a character that does not continue it. -/
theorem spells_name {s : String} (hs : isIdentifier s = true)
    (hrest : ∀ d ∈ rest.head?, isNamePart d = false) :
    Spells p s.toList [⟨.name, s, p⟩] rest := by
  unfold isIdentifier at hs
  cases hcs : s.toList with
  | nil => rw [hcs] at hs; cases hs
  | cons c cs =>
    rw [hcs] at hs
    simp only [Bool.and_eq_true, List.all_eq_true] at hs
    obtain ⟨hstart, hparts⟩ := hs
    refine spells_item (not_blank_of_isNameStart hstart) ?_
    have hbracket : c ≠ '[' := isNameStart_ne hstart (by decide)
    have hdigit : c.isDigit = false := not_isDigit_of_isNameStart hstart
    have hall : ∀ d ∈ c :: cs, isNamePart d = true := by
      intro d hd
      rcases List.mem_cons.mp hd with rfl | hd
      · exact isNamePart_of_isNameStart hstart
      · exact hparts d hd
    have hlen : nameLength (c :: (cs ++ rest)) = (c :: cs).length := by
      rw [nameLength, ← List.cons_append, takeWhile_of_stop hall hrest]
    have htake : (c :: (cs ++ rest)).take (c :: cs).length = c :: cs := by
      rw [← List.cons_append, List.take_left]
    unfold itemAt
    rw [if_neg hbracket, if_neg (Bool.eq_false_iff.mp hdigit), if_pos hstart, tokenAt, hlen, htake,
      ← hcs, String.ofList_toList, hcs, List.length_cons, Nat.add_sub_cancel]

/-! ### Quoted segments -/

/-- The text before the first bracket that closes. -/
theorem takeWhile_of_closed (h : ']' ∉ ds) : (ds ++ ']' :: rest).takeWhile (· ≠ ']') = ds := by
  refine takeWhile_of_stop (fun c hc => ?_) (forall_head_cons rfl)
  simp only [ne_eq, decide_eq_true_eq]
  rintro rfl
  exact h hc

/-- A quoted token ends at the first bracket that closes. -/
theorem quotedAt_of_closed (h : ']' ∉ ds) :
    quotedAt p (ds ++ ']' :: rest) = (.ok ⟨.quoted, String.ofList ds, p⟩, ds.length + 1) := by
  have hlen : ds.length ≠ (ds ++ ']' :: rest).length := by
    rw [List.length_append, List.length_cons]
    omega
  unfold quotedAt
  simp only [takeWhile_of_closed h]
  rw [if_neg hlen]

/-- Where no bracket closes, the item reaches to the end. -/
theorem quotedAt_of_open (h : ']' ∉ cs) : quotedAt p cs = (.error ⟨p, .unterminated⟩, cs.length) := by
  have hall : cs.takeWhile (· ≠ ']') = cs := by
    rw [List.takeWhile_eq_self_iff]
    intro c hc
    simp only [ne_eq, decide_eq_true_eq]
    rintro rfl
    exact h hc
  unfold quotedAt
  simp only [hall]
  rw [if_pos trivial]

theorem spells_quoted {s : String} (hs : ']' ∉ s.toList) :
    Spells p ('[' :: (s.toList ++ [']'])) [⟨.quoted, s, p⟩] rest := by
  refine spells_item (by decide) ?_
  unfold itemAt
  rw [if_pos rfl, List.append_assoc, List.singleton_append, quotedAt_of_closed hs,
    String.ofList_toList, List.length_append, List.length_singleton]

/-! ### Symbols -/

/-- Whether a character begins a symbol. -/
def isMark (c : Char) : Bool :=
  !blank.contains c && c ≠ '[' && !c.isDigit && !isNameStart c && isPunctuation c

theorem itemAt_of_isMark (hc : isMark c = true) (cs : List Char) :
    blank.contains c = false ∧
      itemAt p c cs = tokenAt .symbol p (symbolLength (c :: cs)) (c :: cs) := by
  simp only [isMark, Bool.and_eq_true, Bool.not_eq_true', decide_eq_true_eq] at hc
  obtain ⟨⟨⟨⟨hblank, hbracket⟩, hdigit⟩, hname⟩, hpunct⟩ := hc
  refine ⟨hblank, ?_⟩
  unfold itemAt
  rw [if_neg hbracket, if_neg (Bool.eq_false_iff.mp hdigit), if_neg (Bool.eq_false_iff.mp hname),
    if_pos hpunct]

/-- A symbol of one character ends where it forms no pair with the next one. -/
theorem spells_mark (hc : isMark c = true) (hrest : ∀ d ∈ rest.head?, (c, d) ∉ pairSymbols) :
    Spells p [c] [⟨.symbol, String.ofList [c], p⟩] rest := by
  obtain ⟨hblank, hitem⟩ := itemAt_of_isMark (p := p) hc ([] ++ rest)
  refine spells_item hblank ?_
  have hlen : symbolLength (c :: rest) = 1 := by
    cases rest with
    | nil => rfl
    | cons d rest => rw [symbolLength, if_neg (hrest d rfl)]
  rw [hitem, List.nil_append, hlen, tokenAt]
  rfl

/-- A character that begins no pair is a symbol before anything. -/
theorem spells_single (hc : isMark c = true) (hpair : c ∉ pairSymbols.map Prod.fst) :
    Spells p [c] [⟨.symbol, String.ofList [c], p⟩] rest :=
  spells_mark hc fun _ _ hd => hpair (List.mem_map_of_mem hd)

theorem spells_pair (hc : isMark c = true) (hpair : (c, d) ∈ pairSymbols) :
    Spells p [c, d] [⟨.symbol, String.ofList [c, d], p⟩] rest := by
  obtain ⟨hblank, hitem⟩ := itemAt_of_isMark (p := p) hc ([d] ++ rest)
  refine spells_item hblank ?_
  rw [hitem, List.singleton_append, symbolLength, if_pos hpair, tokenAt]
  rfl

/-! ### Numbers -/

theorem digitsLength_of_stop (hcs : ∀ c ∈ cs, c.isDigit = true)
    (hrest : ∀ d ∈ rest.head?, d.isDigit = false) : digitsLength (cs ++ rest) = cs.length := by
  rw [digitsLength, takeWhile_of_stop hcs hrest]

theorem exponentLength_of_stop (hrest : ∀ d ∈ rest.head?, d ≠ 'e' ∧ d ≠ 'E') :
    exponentLength rest = 0 := by
  cases rest with
  | nil => rfl
  | cons d rest =>
    obtain ⟨he, hE⟩ := hrest d rfl
    rw [exponentLength]
    exact if_neg fun h => h.1.elim he hE

theorem fractionLength_of_stop (hrest : ∀ d ∈ rest.head?, d ≠ '.') : fractionLength rest = 0 := by
  unfold fractionLength
  split
  · exact absurd rfl (hrest _ rfl)
  · rfl

/-- What follows a number without lengthening it. -/
def StopsNumber (rest : List Char) : Prop :=
  ∀ d ∈ rest.head?, d.isDigit = false ∧ d ≠ '.' ∧ d ≠ 'e' ∧ d ≠ 'E'

theorem numberLength_of_plain {n : Decimal.Numeral} (hcs : Decimal.Plain cs n)
    (hrest : StopsNumber rest) :
    numberLength (cs ++ rest) = cs.length := by
  have hdigit : ∀ d ∈ rest.head?, d.isDigit = false := fun d hd => (hrest d hd).1
  have hpoint : ∀ d ∈ rest.head?, d ≠ '.' := fun d hd => (hrest d hd).2.1
  have hexp : ∀ d ∈ rest.head?, d ≠ 'e' ∧ d ≠ 'E' := fun d hd => (hrest d hd).2.2
  cases hcs with
  | whole _ hwhole =>
    have hdrop : (cs ++ rest).drop cs.length = rest := List.drop_left
    unfold numberLength
    simp only [digitsLength_of_stop hwhole hdigit, hdrop, fractionLength_of_stop hpoint,
      Nat.add_zero, exponentLength_of_stop hexp]
  | @fraction whole fraction _ hwhole hne hfraction =>
    have hlen : fraction.length ≠ 0 := fun h => hne (List.length_eq_zero_iff.mp h)
    have happend : whole ++ '.' :: fraction ++ rest = whole ++ ('.' :: (fraction ++ rest)) := by
      rw [List.append_assoc, List.cons_append]
    have hdrop : (whole ++ '.' :: fraction ++ rest).drop (whole.length + (1 + fraction.length)) =
        rest := by
      have hcount : whole.length + (1 + fraction.length) = (whole ++ '.' :: fraction).length := by
        rw [List.length_append, List.length_cons, Nat.add_comm 1]
      rw [hcount, List.drop_left]
    have hpoint' : ∀ d ∈ ('.' :: (fraction ++ rest)).head?, d.isDigit = false :=
      forall_head_cons rfl
    have hwholeLength : digitsLength (whole ++ '.' :: fraction ++ rest) = whole.length := by
      rw [happend, digitsLength_of_stop hwhole hpoint']
    have hfractionLength : fractionLength ((whole ++ '.' :: fraction ++ rest).drop whole.length) =
        1 + fraction.length := by
      rw [happend, List.drop_left, fractionLength, digitsLength_of_stop hfraction hdigit,
        if_neg hlen]
    unfold numberLength
    simp only [hwholeLength, hfractionLength, hdrop, exponentLength_of_stop hexp]
    rw [List.length_append, List.length_cons, Nat.add_zero, Nat.add_comm 1]

/-- A number ends where no digit, point or exponent follows. -/
theorem spells_number {s : String} {n : Decimal.Numeral} (hs : Decimal.Plain s.toList n)
    (hrest : StopsNumber rest) : Spells p s.toList [⟨.number, s, p⟩] rest := by
  have hlen := numberLength_of_plain hs hrest
  obtain ⟨c, cs, hcs, hdigit⟩ := hs.head
  rw [hcs, List.cons_append] at hlen
  have hbracket : c ≠ '[' := by
    rintro rfl
    cases hdigit
  have htake : (c :: (cs ++ rest)).take (c :: cs).length = c :: cs := by
    rw [← List.cons_append, List.take_left]
  rw [hcs]
  refine spells_item (not_blank_of_isDigit hdigit) ?_
  unfold itemAt
  rw [if_neg hbracket, if_pos hdigit, tokenAt, hlen, htake, ← hcs, String.ofList_toList, hcs,
    List.length_cons, Nat.add_sub_cancel]

end Formula.Item
