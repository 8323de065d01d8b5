import Formula.Proofs.Token.Spelling

/-!
# The tokens of a source

Tokens can be made by hand, with any text. Those that are cut from a source have a text of their class:
a name is an identifier, the text between brackets holds no bracket that closes, and a number begins
with a digit (`Token.isLexed`). This is so at every place of every source, whatever precedes it
(`isLexed_of_ofSource`).
-/

namespace Formula

/-- Whether the text of a token is one that a source can have there. -/
def Token.isLexed (t : Token) : Bool :=
  match t.kind with
  | .name => Item.isIdentifier t.text
  | .number => t.text.toList.head?.any Char.isDigit
  | .symbol => true
  | .quoted => !t.text.toList.contains ']'

namespace Item

open Text

variable {p n skip : ℕ} {c : Char} {cs : List Char} {t : Token} {ts : List Token}

theorem isLexed_quotedAt (h : (quotedAt p cs).1 = .ok t) : t.isLexed = true := by
  unfold quotedAt at h
  dsimp only at h
  split at h
  · cases h
  · cases h
    have hbracket : ']' ∉ cs.takeWhile (· ≠ ']') := by
      intro hmem
      have hne := List.mem_takeWhile_imp hmem
      simp at hne
    unfold Token.isLexed
    dsimp only
    rw [String.toList_ofList, List.contains_eq_mem, decide_eq_false hbracket]
    rfl

/-- The characters of a run. -/
theorem take_length_takeWhile (f : Char → Bool) (cs : List Char) :
    cs.take (cs.takeWhile f).length = cs.takeWhile f :=
  (List.prefix_iff_eq_take.mp (List.takeWhile_prefix f)).symm

/-- The characters of a name: its first one and those that continue it. -/
theorem take_nameLength (hc : isNameStart c = true) :
    (c :: cs).take (nameLength (c :: cs)) = c :: cs.takeWhile isNamePart := by
  rw [nameLength, take_length_takeWhile, List.takeWhile_cons_of_pos (isNamePart_of_isNameStart hc)]

/-- The run of name characters at a letter is a name. -/
theorem isIdentifier_take (hc : isNameStart c = true) :
    isIdentifier (String.ofList ((c :: cs).take (nameLength (c :: cs)))) = true := by
  rw [take_nameLength hc]
  unfold isIdentifier
  rw [String.toList_ofList]
  simp only [Bool.and_eq_true, List.all_eq_true]
  exact ⟨hc, fun d hd => List.mem_takeWhile_imp hd⟩

/-- A number has at least the digit at which it begins. -/
theorem numberLength_pos (hc : c.isDigit = true) : 0 < numberLength (c :: cs) := by
  have hdigits : 0 < digitsLength (c :: cs) := by
    unfold digitsLength
    rw [List.takeWhile_cons_of_pos hc, List.length_cons]
    exact Nat.succ_pos _
  unfold numberLength
  dsimp only
  omega

/-- The class of an item is decided by its first character, and so is its text. -/
theorem isLexed_itemAt (h : (itemAt p c cs).1 = .ok t) : t.isLexed = true := by
  unfold itemAt at h
  by_cases hbracket : c = '['
  · rw [if_pos hbracket] at h
    exact isLexed_quotedAt h
  · rw [if_neg hbracket] at h
    by_cases hdigit : c.isDigit = true
    · rw [if_pos hdigit] at h
      cases h
      obtain ⟨m, hm⟩ : ∃ m, numberLength (c :: cs) = m + 1 :=
        ⟨_, (Nat.succ_pred_eq_of_pos (numberLength_pos hdigit)).symm⟩
      unfold Token.isLexed
      dsimp only
      rw [String.toList_ofList, hm, List.take_succ_cons]
      exact hdigit
    · rw [if_neg hdigit] at h
      by_cases hname : isNameStart c = true
      · rw [if_pos hname] at h
        cases h
        exact isIdentifier_take hname
      · rw [if_neg hname] at h
        by_cases hpunct : isPunctuation c = true
        · rw [if_pos hpunct] at h
          cases h
          rfl
        · rw [if_neg hpunct] at h
          cases h

/-- **Every token among the items has a text of its class.** -/
theorem isLexed_itemsFrom (h : .ok t ∈ itemsFrom skip p cs) : t.isLexed = true := by
  induction cs generalizing skip p with
  | nil => cases h
  | cons c cs ih =>
    unfold itemsFrom at h
    cases skip with
    | succ skip => exact ih h
    | zero =>
      dsimp only at h
      by_cases hblank : blank.contains c = true
      · rw [if_pos hblank] at h
        exact ih h
      · rw [if_neg hblank] at h
        rcases List.mem_cons.mp h with h | h
        · exact isLexed_itemAt h.symm
        · exact ih h

theorem collect_eq_ok {items : List Item} (h : collect items = .ok ts) :
    items = ts.map Except.ok := by
  induction items generalizing ts with
  | nil =>
    cases h
    rfl
  | cons item items ih =>
    cases item with
    | error e => cases h
    | ok t =>
      unfold collect at h
      cases hcollect : collect items with
      | error e => rw [hcollect] at h; cases h
      | ok us =>
        rw [hcollect] at h
        cases h
        rw [ih hcollect]
        rfl

end Item

/-- **The tokens of a source have texts of their classes.** -/
theorem Token.isLexed_of_ofSource {source : String} {ts : List Token} {t : Token}
    (h : Token.ofSource source = .ok ts) (ht : t ∈ ts) : t.isLexed = true := by
  have hitems := Item.collect_eq_ok h
  have hmem : Except.ok t ∈ Item.ofSource source := by
    rw [hitems]
    exact List.mem_map_of_mem ht
  exact Item.isLexed_itemsFrom hmem

end Formula
