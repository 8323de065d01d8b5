import Formula.Proofs.Decimal.Plain
import Formula.Token.Items

/-!
# The classes of characters are apart

An item is classified by its first character. The tests of `Item.itemAt` come one after the other, so
a character that begins a name is not tried as punctuation; what is shown here is that the order does
not matter: no letter is a blank, a digit, a bracket or a piece of punctuation.

The letters and the blanks are tables of ranges. Two tables are *apart* if each range of one ends before
or begins behind each range of the other, and this is decided.
-/

namespace Formula

namespace Text.CodePoints

/-- No range of one table meets a range of the other. -/
def Apart (a b : CodePoints) : Prop :=
  ∀ r ∈ a.ranges, ∀ s ∈ b.ranges, r.2 < s.1 ∨ s.2 < r.1

instance (a b : CodePoints) : Decidable (Apart a b) :=
  inferInstanceAs (Decidable (∀ r ∈ a.ranges, ∀ s ∈ b.ranges, r.2 < s.1 ∨ s.2 < r.1))

theorem Apart.not_contains {a b : CodePoints} (h : Apart a b) {c : Char}
    (hc : a.contains c = true) : b.contains c = false := by
  by_contra hb
  rw [Bool.not_eq_false] at hb
  obtain ⟨r, hr, hr1, hr2⟩ := contains_iff.mp hc
  obtain ⟨s, hs, hs1, hs2⟩ := contains_iff.mp hb
  have hapart := h r hr s hs
  omega

end Text.CodePoints

namespace Item

open Text

/-- The digits, the brackets, the punctuation and the controls of the ASCII block, without the
underscore. -/
def plainAscii : CodePoints where
  ranges := [(0, 0x40), (0x5B, 0x5E), (0x60, 0x60), (0x7B, 0x7F)]
  increasing := by decide

theorem alphabetic_apart_blank : CodePoints.Apart alphabetic blank := by
  decide +kernel

theorem numeric_apart_blank : CodePoints.Apart numeric blank := by
  decide +kernel

theorem alphabetic_apart_plainAscii : CodePoints.Apart alphabetic plainAscii := by
  decide +kernel

/-- A letter or an underscore is no blank and no other ASCII character than a letter. -/
theorem not_plainAscii_of_isNameStart {c : Char} (h : isNameStart c = true) :
    plainAscii.contains c = false := by
  simp only [isNameStart, Bool.or_eq_true, decide_eq_true_eq] at h
  rcases h with h | rfl
  · exact alphabetic_apart_plainAscii.not_contains h
  · decide

theorem not_blank_of_isNameStart {c : Char} (h : isNameStart c = true) :
    blank.contains c = false := by
  simp only [isNameStart, Bool.or_eq_true, decide_eq_true_eq] at h
  rcases h with h | rfl
  · exact alphabetic_apart_blank.not_contains h
  · decide

theorem isNameStart_ne {c d : Char} (h : isNameStart c = true)
    (hd : plainAscii.contains d = true) : c ≠ d := by
  rintro rfl
  rw [not_plainAscii_of_isNameStart h] at hd
  cases hd

theorem not_isDigit_of_isNameStart {c : Char} (h : isNameStart c = true) : c.isDigit = false := by
  by_contra hd
  rw [Bool.not_eq_false] at hd
  have hbounds := Decimal.digit_bounds hd
  have hascii := not_plainAscii_of_isNameStart h
  have htrue : plainAscii.contains c = true :=
    CodePoints.contains_iff.mpr ⟨(0, 0x40), List.mem_cons_self, by omega, by omega⟩
  rw [htrue] at hascii
  cases hascii

theorem not_blank_of_isDigit {c : Char} (h : c.isDigit = true) : blank.contains c = false := by
  by_contra hb
  rw [Bool.not_eq_false] at hb
  have hbounds := Decimal.digit_bounds h
  obtain ⟨r, hr, hr1, hr2⟩ := CodePoints.contains_iff.mp hb
  have hfar : ∀ r ∈ blank.ranges, r.2 < 48 ∨ 57 < r.1 := by decide
  have hapart := hfar r hr
  omega

/-- A name goes on with what may begin one. -/
theorem isNamePart_of_isNameStart {c : Char} (h : isNameStart c = true) : isNamePart c = true := by
  simp only [isNameStart, isNamePart, Bool.or_eq_true, decide_eq_true_eq] at h ⊢
  rcases h with h | h
  · exact Or.inl (Or.inl h)
  · exact Or.inr h

/-- No blank continues a name. -/
theorem not_isNamePart_of_blank {c : Char} (h : blank.contains c = true) : isNamePart c = false := by
  by_contra hpart
  simp only [isNamePart, Bool.not_eq_false, Bool.or_eq_true, decide_eq_true_eq] at hpart
  rcases hpart with (hpart | hpart) | rfl
  · rw [alphabetic_apart_blank.not_contains hpart] at h
    cases h
  · rw [numeric_apart_blank.not_contains hpart] at h
    cases h
  · exact absurd h (by decide)

end Item

end Formula
