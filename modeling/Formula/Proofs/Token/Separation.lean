import Formula.Proofs.Token.Munch

/-!
# Blanks separate sources

Where a token ends is decided by what stands behind it, a few characters at most. So the tokens of a
source stay as they are if something follows that ends every token (`Ends`), as a blank does: then the
source spells its tokens before whatever follows (`spells_of_itemsFrom`). From there on the items are those
of a fresh source, but for their byte offsets (`itemsFrom_shift`).

A character that begins no token ends the ones before it in the same way, so it is reported whatever
follows.
-/

namespace Formula

/-! ### Shifted offsets -/

/-- The token, `k` bytes further on. -/
def Token.shift (k : ℕ) (t : Token) : Token :=
  { t with position := t.position + k }

/-- The error, `k` bytes further on. -/
def TokenError.shift (k : ℕ) (e : TokenError) : TokenError :=
  { e with position := e.position + k }

namespace Item

open Text

variable {p q k n skip : ℕ} {c d : Char} {cs ds gap body rest rest' : List Char} {t : Token}
  {ts : List Token} {e : TokenError} {item : Item} {items : List Item}

/-- The item, `k` bytes further on. -/
def shift (k : ℕ) : Item → Item
  | .ok t => .ok (t.shift k)
  | .error e => .error (e.shift k)

theorem itemAt_shift (p k : ℕ) (c : Char) (cs : List Char) :
    itemAt (p + k) c cs = ((itemAt p c cs).1.shift k, (itemAt p c cs).2) := by
  unfold itemAt
  split_ifs
  · unfold quotedAt
    dsimp only
    split_ifs
    · rfl
    · rfl
  · rfl
  · rfl
  · rfl
  · rfl

/-- **A later start shifts all items** and changes nothing else. -/
theorem itemsFrom_shift (skip p k : ℕ) (cs : List Char) :
    itemsFrom skip (p + k) cs = (itemsFrom skip p cs).map (shift k) := by
  induction cs generalizing skip p with
  | nil => rfl
  | cons c cs ih =>
    have hnext : p + k + c.utf8Size = p + c.utf8Size + k := Nat.add_right_comm p k c.utf8Size
    cases skip with
    | succ skip => rw [itemsFrom, itemsFrom, hnext, ih]
    | zero =>
      rw [itemsFrom, itemsFrom, hnext, itemAt_shift]
      dsimp only
      by_cases hblank : blank.contains c = true
      · rw [if_pos hblank, if_pos hblank, ih]
      · rw [if_neg hblank, if_neg hblank, ih, List.map_cons]

theorem map_shift_ok (k : ℕ) (ts : List Token) :
    (ts.map Except.ok).map (shift k) = (ts.map (Token.shift k)).map Except.ok := by
  rw [List.map_map, List.map_map]
  rfl

theorem Spells.shift (h : Spells p cs ts rest) (k : ℕ) :
    Spells (p + k) cs (ts.map (Token.shift k)) rest := by
  unfold Spells at h ⊢
  rw [itemsFrom_shift, h, List.map_append, map_shift_ok, ← itemsFrom_shift, Nat.add_right_comm]

/-! ### Items at the front -/

/-- Blanks spell nothing. -/
theorem spells_gap (hgap : ∀ d ∈ gap, blank.contains d = true) : Spells p gap [] rest := by
  induction gap generalizing p with
  | nil => exact .nil
  | cons d gap ih =>
    obtain ⟨hd, hgap⟩ := List.forall_mem_cons.mp hgap
    exact (spells_blank hd).append (ih hgap)

/-- **The first item** stands behind blanks, and the other items begin behind it. -/
theorem itemsFrom_eq_cons (h : itemsFrom 0 p cs = item :: items) :
    ∃ gap c body rest, cs = gap ++ c :: (body ++ rest) ∧ (∀ d ∈ gap, blank.contains d = true) ∧
      blank.contains c = false ∧ itemAt (p + bytes gap) c (body ++ rest) = (item, body.length) ∧
      items = itemsFrom 0 (p + bytes gap + bytes (c :: body)) rest := by
  induction cs generalizing p with
  | nil => cases h
  | cons c cs ih =>
    rw [itemsFrom] at h
    by_cases hblank : blank.contains c = true
    · rw [if_pos hblank] at h
      obtain ⟨gap, d, body, rest, rfl, hgap, hd, hitem, hitems⟩ := ih h
      rw [Nat.add_assoc p, ← bytes_cons] at hitem hitems
      exact ⟨c :: gap, d, body, rest, rfl, List.forall_mem_cons.mpr ⟨hblank, hgap⟩, hd, hitem, hitems⟩
    · rw [if_neg hblank] at h
      obtain ⟨body, rest, rfl, hmore, -⟩ := covers_itemAt (rfl : p + bytes (c :: cs) = _)
      simp only [hmore, List.cons.injEq] at h
      obtain ⟨hitem, hitems⟩ := h
      rw [itemsFrom_length, Nat.add_assoc, ← bytes_cons] at hitems
      exact ⟨[], c, body, rest, rfl, by simp, Bool.eq_false_iff.mpr hblank, Prod.ext hitem hmore,
        hitems.symm⟩

/-! ### Lengths of numbers -/

/-- No number takes up what begins so, whatever stands before it. A sign counts, since it may stand
behind the letter of an exponent. -/
def EndsNumber (rest : List Char) : Prop :=
  ∀ d ∈ rest.head?, d.isDigit = false ∧ d ∉ ['.', 'e', 'E', '+', '-']

theorem digitsLength_append (h : EndsNumber rest) (cs : List Char) :
    digitsLength (cs ++ rest) = digitsLength cs := by
  induction cs with
  | nil => exact digitsLength_of_stop (by simp) fun d hd => (h d hd).1
  | cons c cs ih =>
    unfold digitsLength at ih ⊢
    by_cases hc : c.isDigit = true
    · rw [List.cons_append, List.takeWhile_cons_of_pos hc, List.takeWhile_cons_of_pos hc,
        List.length_cons, List.length_cons, ih]
    · rw [List.cons_append, List.takeWhile_cons_of_neg hc, List.takeWhile_cons_of_neg hc]

theorem fractionLength_append (h : EndsNumber rest) (cs : List Char) :
    fractionLength (cs ++ rest) = fractionLength cs := by
  cases cs with
  | nil =>
    refine fractionLength_of_stop fun d hd => ?_
    rintro rfl
    exact (h _ hd).2 (by simp)
  | cons c cs =>
    by_cases hc : c = '.'
    · subst hc
      rw [List.cons_append, fractionLength, fractionLength, digitsLength_append h]
    · rw [fractionLength_of_stop (forall_head_cons hc), List.cons_append,
        fractionLength_of_stop (forall_head_cons hc)]

theorem signLength_le (cs : List Char) : signLength cs ≤ cs.length := by
  unfold signLength
  split
  · exact Nat.succ_pos _
  · exact Nat.succ_pos _
  · exact Nat.zero_le _

theorem signLength_append (h : EndsNumber rest) (cs : List Char) :
    signLength (cs ++ rest) = signLength cs := by
  cases cs with
  | nil =>
    cases rest with
    | nil => rfl
    | cons d rest =>
      have hd := (h d rfl).2
      unfold signLength
      split
      · next heq => cases heq; simp at hd
      · next heq => cases heq; simp at hd
      · rfl
  | cons c cs =>
    by_cases hplus : c = '+'
    · subst hplus
      rfl
    · by_cases hminus : c = '-'
      · subst hminus
        rfl
      · have hnone : ∀ cs, signLength (c :: cs) = 0 := by
          intro cs
          unfold signLength
          split
          · next heq => exact absurd (List.cons.inj heq).1 hplus
          · next heq => exact absurd (List.cons.inj heq).1 hminus
          · rfl
        rw [List.cons_append, hnone, hnone]

theorem exponentLength_append (h : EndsNumber rest) (cs : List Char) :
    exponentLength (cs ++ rest) = exponentLength cs := by
  cases cs with
  | nil =>
    refine exponentLength_of_stop fun d hd => ⟨?_, ?_⟩
    · rintro rfl
      exact (h _ hd).2 (by simp)
    · rintro rfl
      exact (h _ hd).2 (by simp)
  | cons c cs =>
    rw [List.cons_append, exponentLength, exponentLength, signLength_append h,
      List.drop_append_of_le_length (signLength_le cs), digitsLength_append h]

/-- **The length of a number** is not changed by what ends it. -/
theorem numberLength_append (h : EndsNumber rest) (cs : List Char) :
    numberLength (cs ++ rest) = numberLength cs := by
  have hwhole := digitsLength_le cs
  have hfraction := fractionLength_le (cs.drop (digitsLength cs))
  rw [List.length_drop] at hfraction
  unfold numberLength
  dsimp only
  rw [digitsLength_append h, List.drop_append_of_le_length hwhole, fractionLength_append h,
    List.drop_append_of_le_length (by omega), exponentLength_append h]

/-! ### Rests that end the same tokens -/

/-- **One rest for another.** What ends before `rest` also ends before `rest'`: neither is taken up by a
number, and the first character of `rest'` continues a name or a symbol only if that of `rest` does. -/
structure EndsAlike (rest rest' : List Char) : Prop where
  number : EndsNumber rest
  number' : EndsNumber rest'
  name : (∀ d ∈ rest.head?, isNamePart d = false) → ∀ d ∈ rest'.head?, isNamePart d = false
  symbol : ∀ c, (∀ d ∈ rest.head?, (c, d) ∉ pairSymbols) → ∀ d ∈ rest'.head?, (c, d) ∉ pairSymbols

/-- **What ends every token**, whichever stands before it. -/
structure Ends (rest : List Char) : Prop where
  number : EndsNumber rest
  name : ∀ d ∈ rest.head?, isNamePart d = false
  symbol : ∀ c, ∀ d ∈ rest.head?, (c, d) ∉ pairSymbols

/-- It may follow the end of a source. -/
theorem Ends.alike (h : Ends rest) : EndsAlike [] rest :=
  ⟨fun _ hd => (nomatch hd), h.number, fun _ => h.name, fun c _ => h.symbol c⟩

/-- Where something follows already, more may follow behind it. -/
theorem EndsNumber.alike (h : EndsNumber (d :: cs)) (rest : List Char) :
    EndsAlike (d :: cs) (d :: cs ++ rest) :=
  ⟨h, h, id, fun _ => id⟩

theorem EndsNumber.of_blank (hd : blank.contains d = true) : EndsNumber (d :: rest) := by
  refine forall_head_cons ⟨?_, ?_⟩
  · by_contra hdigit
    rw [Bool.not_eq_false] at hdigit
    rw [not_blank_of_isDigit hdigit] at hd
    cases hd
  · intro hmem
    have hmarks : ['.', 'e', 'E', '+', '-'].all (fun e => !blank.contains e) = true := by decide
    have hnone := List.all_eq_true.mp hmarks d hmem
    rw [hd] at hnone
    cases hnone

/-- **A blank ends every token.** -/
theorem ends_of_blank (hd : blank.contains d = true) : Ends (d :: rest) := by
  refine ⟨.of_blank hd, forall_head_cons (not_isNamePart_of_blank hd), fun c => forall_head_cons ?_⟩
  have hpairs : ∀ pair ∈ pairSymbols, blank.contains pair.2 = false := by decide
  intro hpair
  rw [hpairs _ hpair] at hd
  cases hd

/-- A character at which no token begins ends every number. -/
theorem EndsNumber.of_unrecognized (hd : ∀ kind, ¬ Begins d kind) : EndsNumber (d :: rest) := by
  refine forall_head_cons ⟨?_, fun hmem => ?_⟩
  · by_contra hdigit
    rw [Bool.not_eq_false] at hdigit
    exact hd _ (.number hdigit)
  · simp only [List.mem_cons, List.not_mem_nil, or_false] at hmem
    rcases hmem with rfl | rfl | rfl | rfl | rfl
    · exact hd _ (.symbol (by decide) (by decide) (by decide))
    · exact hd _ (.name (by decide))
    · exact hd _ (.name (by decide))
    · exact hd _ (.symbol (by decide) (by decide) (by decide))
    · exact hd _ (.symbol (by decide) (by decide) (by decide))

/-! ### Items before other rests -/

/-- A run has some characters exactly if they belong to it and the next one does not. -/
theorem length_takeWhile_eq_iff {f : Char → Bool} : ((cs ++ rest).takeWhile f).length = cs.length ↔
    (∀ c ∈ cs, f c = true) ∧ ∀ d ∈ rest.head?, f d = false := by
  refine ⟨fun h => ?_, fun ⟨hcs, hrest⟩ => by rw [takeWhile_of_stop hcs hrest]⟩
  have htake := List.prefix_iff_eq_take.mp (List.takeWhile_prefix (p := f) (l := cs ++ rest))
  rw [h, List.take_left] at htake
  have hcs : ∀ c ∈ cs, f c = true := fun c hc => List.mem_takeWhile_imp (htake ▸ hc)
  refine ⟨hcs, fun d hd => ?_⟩
  rw [List.takeWhile_append_of_pos hcs, List.append_right_eq_self] at htake
  obtain ⟨rest, rfl⟩ := List.head?_eq_some_iff.mp hd
  by_contra hfd
  rw [Bool.not_eq_false] at hfd
  rw [List.takeWhile_cons_of_pos hfd] at htake
  cases htake

/-- The first character of a rest counts only where no others stand before it. -/
theorem head_append {f : Char → Prop}
    (h : (∀ d ∈ rest.head?, f d) → ∀ d ∈ rest'.head?, f d) (ds : List Char)
    (hds : ∀ d ∈ (ds ++ rest).head?, f d) : ∀ d ∈ (ds ++ rest').head?, f d := by
  cases ds with
  | nil => exact h hds
  | cons => exact hds

theorem tokenAt_eq_iff {kind : Token.Kind} (hpos : 0 < n) :
    tokenAt kind p n (c :: (body ++ rest)) = (.ok t, body.length) ↔
      n = (c :: body).length ∧ t = ⟨kind, String.ofList (c :: body), p⟩ := by
  have htake : (c :: (body ++ rest)).take (c :: body).length = c :: body := by
    rw [← List.cons_append, List.take_left]
  unfold tokenAt
  constructor
  · intro h
    obtain ⟨ht, hlen⟩ := Prod.mk.inj h
    have hn : n = (c :: body).length := by
      rw [List.length_cons]
      omega
    rw [hn, htake] at ht
    exact ⟨hn, (Except.ok.inj ht).symm⟩
  · rintro ⟨rfl, rfl⟩
    rw [htake, List.length_cons, Nat.add_sub_cancel]

/-- A bracket that is closed is closed whatever follows. -/
theorem quotedAt_congr (h : quotedAt p (body ++ rest) = (.ok t, body.length)) (rest' : List Char) :
    quotedAt p (body ++ rest') = (.ok t, body.length) := by
  by_cases hclose : ']' ∈ body ++ rest
  · obtain ⟨text, more, hsplit, hfirst⟩ := List.eq_append_cons_of_mem hclose
    rw [hsplit, quotedAt_of_closed hfirst] at h
    obtain ⟨ht, hlen⟩ := Prod.mk.inj h
    have hbody : body = text ++ [']'] := by
      have hsplit' : body ++ rest = text ++ [']'] ++ more := by
        rw [hsplit, List.append_assoc, List.singleton_append]
      refine (List.append_inj hsplit' ?_).1
      rw [← hlen, List.length_append, List.length_singleton]
    rw [← ht, hbody, List.append_assoc, List.singleton_append, quotedAt_of_closed hfirst,
      List.length_append, List.length_singleton]
  · rw [quotedAt_of_open hclose] at h
    cases h

theorem symbolLength_congr (h : EndsAlike rest rest')
    (hlen : symbolLength (c :: (body ++ (ds ++ rest))) = (c :: body).length) :
    symbolLength (c :: (body ++ (ds ++ rest'))) = (c :: body).length := by
  have hone : ∀ cs, symbolLength (c :: cs) = 1 ↔ ∀ d ∈ cs.head?, (c, d) ∉ pairSymbols := by
    intro cs
    cases cs with
    | nil => simp [symbolLength]
    | cons d cs =>
      rw [symbolLength]
      split
      · next hpair => simp [hpair]
      · next hpair => simp [hpair]
  cases body with
  | nil => exact (hone _).mpr (head_append (h.symbol c) ds ((hone _).mp hlen))
  | cons d body => exact hlen

/-- **A token stays as it is** if the rest behind it, or behind some more characters, is exchanged. -/
theorem itemAt_congr (h : EndsAlike rest rest')
    (hitem : itemAt p c (body ++ (ds ++ rest)) = (.ok t, body.length)) :
    itemAt p c (body ++ (ds ++ rest')) = (.ok t, body.length) := by
  unfold itemAt at hitem ⊢
  by_cases hbracket : c = '['
  · rw [if_pos hbracket] at hitem ⊢
    exact quotedAt_congr hitem _
  rw [if_neg hbracket] at hitem ⊢
  by_cases hdigit : c.isDigit = true
  · -- A number looks beyond the next character, for the digits behind a point, a letter or a sign.
    rw [if_pos hdigit, tokenAt_eq_iff (numberLength_pos hdigit)] at hitem ⊢
    rw [← List.append_assoc, ← List.cons_append, numberLength_append h.number] at hitem
    rwa [← List.append_assoc, ← List.cons_append, numberLength_append h.number']
  rw [if_neg hdigit] at hitem ⊢
  by_cases hname : isNameStart c = true
  · rw [if_pos hname, tokenAt_eq_iff (nameLength_pos hname)] at hitem ⊢
    obtain ⟨hlen, ht⟩ := hitem
    refine ⟨?_, ht⟩
    rw [nameLength, ← List.cons_append, length_takeWhile_eq_iff] at hlen ⊢
    exact ⟨hlen.1, head_append h.name ds hlen.2⟩
  rw [if_neg hname] at hitem ⊢
  by_cases hpunct : isPunctuation c = true
  · rw [if_pos hpunct, tokenAt_eq_iff symbolLength_pos] at hitem ⊢
    exact ⟨symbolLength_congr h hitem.1, hitem.2⟩
  · rw [if_neg hpunct] at hitem
    cases hitem

/-- **Tokens at the front are spelled there**, and stay so before every rest that ends them as well. -/
theorem exists_spells (h : itemsFrom 0 p cs = ts.map Except.ok ++ items) :
    ∃ front rest, cs = front ++ rest ∧ itemsFrom 0 (p + bytes front) rest = items ∧
      ∀ {rest'}, EndsAlike rest rest' → Spells p front ts rest' := by
  induction ts generalizing p cs with
  | nil => exact ⟨[], cs, rfl, h, fun _ => .nil⟩
  | cons t ts ih =>
    obtain ⟨gap, c, body, behind, rfl, hgap, hc, hitem, hitems⟩ := itemsFrom_eq_cons h
    obtain ⟨front, rest, rfl, hrest, hspells⟩ := ih hitems.symm
    have hbytes : p + bytes (gap ++ (c :: body ++ front)) =
        p + bytes gap + bytes (c :: body) + bytes front := by
      rw [bytes_append, bytes_append, ← Nat.add_assoc, ← Nat.add_assoc]
    refine ⟨gap ++ (c :: body ++ front), rest, by simp, by rwa [hbytes], fun hends => ?_⟩
    -- Behind this token stand the others, and the exchange takes place behind them.
    have htoken : Spells (p + bytes gap) (c :: body) [t] (front ++ _) :=
      spells_item hc (itemAt_congr hends hitem)
    exact (spells_gap hgap).append (htoken.append (hspells hends))

/-- Without items, there are blanks only. -/
theorem blank_of_itemsFrom_eq_nil (h : itemsFrom 0 p cs = []) : ∀ c ∈ cs, blank.contains c = true := by
  cases hnext : nextFrom p cs with
  | none => exact (nextFrom_eq_none hnext).1
  | some next =>
    obtain ⟨_, _, -, -, -, -, hitems⟩ := nextFrom_eq_some hnext rfl
    rw [h] at hitems
    cases hitems

/-- **A source spells its tokens** before whatever ends them. -/
theorem spells_of_itemsFrom (h : itemsFrom 0 p cs = ts.map Except.ok) (hrest : Ends rest) :
    Spells p cs ts rest := by
  rw [← List.append_nil (ts.map Except.ok)] at h
  obtain ⟨front, gap, rfl, hnone, hspells⟩ := exists_spells h
  have hgap := blank_of_itemsFrom_eq_nil hnone
  have hends : EndsAlike gap (gap ++ rest) := by
    cases gap with
    | nil => exact hrest.alike
    | cons d gap => exact (EndsNumber.of_blank (hgap d List.mem_cons_self)).alike rest
  have happend := (hspells hends).append (spells_gap hgap)
  rwa [List.append_nil] at happend

/-- A character that begins no class is an item of its own. -/
theorem itemAt_of_not_begins (h : ∀ kind, ¬ Begins c kind) (p : ℕ) (cs : List Char) :
    itemAt p c cs = (.error ⟨p, .unrecognized c⟩, 0) := by
  have hbracket : c ≠ '[' := fun heq => h _ (.quoted heq)
  have hdigit : ¬ c.isDigit = true := fun hc => h _ (.number hc)
  have hname : ¬ isNameStart c = true := fun hc => h _ (.name hc)
  have hpunct : ¬ isPunctuation c = true := by
    intro hc
    refine h _ (.symbol hc hbracket ?_)
    rintro rfl
    exact hname (by decide)
  rw [itemAt, if_neg hbracket, if_neg hdigit, if_neg hname, if_neg hpunct]

/-- Where a character is reported, none of the classes begins. -/
theorem not_begins_of_itemAt (h : (itemAt p d cs).1 = .error ⟨q, .unrecognized c⟩) :
    ∀ kind, ¬ Begins d kind := by
  have hdecides := decides_itemAt p d cs
  rw [h] at hdecides
  rcases hdecides.error_iff.mp ⟨_, rfl⟩ with ⟨hbracket, -⟩ | hnone
  · rcases hdecides.fault _ rfl with ⟨hfault, -⟩ | ⟨-, hne⟩
    · cases hfault
    · exact absurd hbracket hne
  · exact hnone

/-- **A character at which no token begins** is reported whatever follows. -/
theorem itemsFrom_of_unrecognized
    (h : itemsFrom 0 p cs = ts.map Except.ok ++ .error ⟨q, .unrecognized c⟩ :: items)
    (rest : List Char) : ∃ more,
      itemsFrom 0 p (cs ++ rest) = ts.map Except.ok ++ .error ⟨q, .unrecognized c⟩ :: more := by
  obtain ⟨front, behind, rfl, herror, hspells⟩ := exists_spells h
  obtain ⟨gap, d, body, after, rfl, hgap, hblank, hitem, -⟩ := itemsFrom_eq_cons herror
  have hnone := not_begins_of_itemAt (congrArg Prod.fst hitem)
  rw [itemAt_of_not_begins hnone] at hitem
  have hends : EndsAlike (gap ++ d :: (body ++ after)) (gap ++ d :: (body ++ after) ++ rest) := by
    cases gap with
    | nil => exact (EndsNumber.of_unrecognized hnone).alike rest
    | cons b gap => exact (EndsNumber.of_blank (hgap b List.mem_cons_self)).alike rest
  rw [List.append_assoc, List.cons_append] at hends
  have hfront := (hspells hends).append (spells_gap hgap)
  unfold Spells at hfront
  rw [List.append_nil, itemsFrom, if_neg (Bool.eq_false_iff.mp hblank), itemAt_of_not_begins hnone,
    bytes_append, ← Nat.add_assoc] at hfront
  have herr := (Prod.mk.inj hitem).1
  have hsplit : front ++ (gap ++ d :: (body ++ after)) ++ rest =
      front ++ gap ++ d :: (body ++ after ++ rest) := by
    simp only [List.append_assoc, List.cons_append]
  rw [← herr, hsplit]
  exact ⟨_, hfront⟩

/-! ### Sources -/

theorem collect_append (ts : List Token) (items : List Item) :
    collect (ts.map Except.ok ++ items) = (collect items).map (ts ++ ·) := by
  induction ts with
  | nil =>
    rw [List.map_nil, List.nil_append]
    cases collect items with
    | error e => rfl
    | ok us => rfl
  | cons t ts ih =>
    rw [List.map_cons, List.cons_append, collect, ih]
    cases collect items with
    | error e => rfl
    | ok us => rfl

theorem collect_map_shift (k : ℕ) (items : List Item) :
    collect (items.map (shift k)) =
      ((collect items).map (List.map (Token.shift k))).mapError (TokenError.shift k) := by
  induction items with
  | nil => rfl
  | cons item items ih =>
    cases item with
    | error e => rfl
    | ok t =>
      rw [List.map_cons, shift, collect, collect, ih]
      cases collect items with
      | error e => rfl
      | ok us => rfl

/-- **The items of two sources with blanks between them** are those of the first and those of the
second, shifted. -/
theorem ofSource_append_blank {a w : String} {ts : List Token} (ha : ofSource a = ts.map Except.ok)
    (hne : w ≠ "") (hw : ∀ c ∈ w.toList, blank.contains c = true) (b : String) :
    ofSource (a ++ w ++ b) =
      ts.map Except.ok ++ (ofSource b).map (shift (a ++ w).utf8ByteSize) := by
  obtain ⟨d, gap, hgap⟩ := List.exists_cons_of_ne_nil (mt String.toList_eq_nil_iff.mp hne)
  have hends : Ends (w.toList ++ b.toList) := by
    rw [hgap] at hw ⊢
    exact ends_of_blank (hw d List.mem_cons_self)
  have hspells := (spells_of_itemsFrom ha hends).append (spells_gap hw)
  unfold Spells at hspells
  rw [List.append_nil, ← String.toList_append, ← String.toList_append, bytes_toList,
    itemsFrom_shift] at hspells
  exact hspells

end Item

/-- **Blanks separate sources.** If a source has tokens, blanks and another source behind it add the tokens
of the other, or its error, as far on as they stand. And a character at which no token begins is reported
whatever follows, with or without blanks. -/
theorem Token.ofSource_separated (a b : String) :
    (∀ ts w, Token.ofSource a = .ok ts → w ≠ "" → (∀ c ∈ w.toList, Text.blank.contains c = true) →
      (∀ us, Token.ofSource b = .ok us →
        Token.ofSource (a ++ w ++ b) = .ok (ts ++ us.map (Token.shift (a ++ w).utf8ByteSize))) ∧
      ∀ e, Token.ofSource b = .error e →
        Token.ofSource (a ++ w ++ b) = .error (e.shift (a ++ w).utf8ByteSize)) ∧
    ∀ p c, Token.ofSource a = .error ⟨p, .unrecognized c⟩ →
      Token.ofSource (a ++ b) = .error ⟨p, .unrecognized c⟩ := by
  refine ⟨fun ts w ha hne hw => ?_, fun p c ha => ?_⟩
  · have hitems := Item.ofSource_append_blank (Item.collect_eq_ok ha) hne hw b
    have hall : Token.ofSource (a ++ w ++ b) = _ := congrArg Item.collect hitems
    rw [Item.collect_append, Item.collect_map_shift] at hall
    change _ = Except.map _ (((Token.ofSource b).map _).mapError _) at hall
    refine ⟨fun us hb => ?_, fun e hb => ?_⟩
    · rw [hall, hb]
      rfl
    · rw [hall, hb]
      rfl
  · obtain ⟨ts, rest, hitems⟩ := Item.collect_eq_error_iff.mp ha
    obtain ⟨more, hmore⟩ := Item.itemsFrom_of_unrecognized hitems b.toList
    rw [← String.toList_append] at hmore
    exact Item.collect_eq_error_iff.mpr ⟨ts, more, hmore⟩

/-- Without the blank, a sign and digits would belong to the number before them. -/
theorem Token.ofSource_separated_exponent :
    Token.ofSource ("1e" ++ "\u2003" ++ "+5") =
        .ok [⟨.number, "1", 0⟩, ⟨.name, "e", 1⟩, ⟨.symbol, "+", 5⟩, ⟨.number, "5", 6⟩] ∧
      Token.ofSource "1e+5" = .ok [⟨.number, "1e+5", 0⟩] ∧
      Token.ofSource ("1e" ++ "\u2003" ++ "+[5") = .error ⟨6, .unterminated⟩ ∧
      Token.ofSource ("5&²" ++ "&&[") = .error ⟨2, .unrecognized '²'⟩ := by
  have hfirst : Token.ofSource "1e" = .ok [⟨.number, "1", 0⟩, ⟨.name, "e", 1⟩] := by decide +kernel
  have hblank : ∀ c ∈ "\u2003".toList, Text.blank.contains c = true :=
    List.forall_mem_singleton.mpr (by decide)
  have hseparated := fun b => (Token.ofSource_separated "1e" b).1 _ "\u2003" hfirst (by decide) hblank
  refine ⟨(hseparated "+5").1 [⟨.symbol, "+", 0⟩, ⟨.number, "5", 1⟩] (by decide +kernel),
    by decide +kernel, (hseparated "+[5").2 ⟨1, .unterminated⟩ (by decide +kernel), ?_⟩
  exact (Token.ofSource_separated "5&²" "&&[").2 2 '²' (by decide +kernel)

end Formula
