/-!
# Sets of code points

A set of characters is written down as the closed ranges of code points that it fills, in
increasing order.  The order lets a search stop at the first range that begins above the character
asked for, so that a character of the ASCII block is settled after a few steps even in a table of
hundreds of ranges.
-/

namespace Formula.Text

/-- Whether the ranges are in increasing order and apart, the first at `n` or above. -/
def increasingFrom (n : Nat) : List (Nat × Nat) → Bool
  | [] => true
  | (first, last) :: ranges => n ≤ first && first ≤ last && increasingFrom (last + 1) ranges

/-- A set of code points, given by closed ranges in increasing order. -/
structure CodePoints where
  /-- The first and the last code point of each range. -/
  ranges : List (Nat × Nat)
  /-- Each range ends before the next one begins. -/
  increasing : increasingFrom 0 ranges = true

namespace CodePoints

/-- Whether the code point `n` lies in one of the ranges, searched up to the first one above `n`. -/
def inRanges (n : Nat) : List (Nat × Nat) → Bool
  | [] => false
  | (first, last) :: ranges => first ≤ n && (n ≤ last || inRanges n ranges)

/-- Whether the character `c` belongs to the set. -/
def contains (s : CodePoints) (c : Char) : Bool :=
  inRanges c.toNat s.ranges

/-- No range begins below the bound. -/
theorem le_of_increasingFrom {k : Nat} {ranges : List (Nat × Nat)}
    (h : increasingFrom k ranges = true) : ∀ r ∈ ranges, k ≤ r.1 := by
  induction ranges generalizing k with
  | nil => exact fun r hr => absurd hr List.not_mem_nil
  | cons s ranges ih =>
    simp only [increasingFrom, Bool.and_eq_true, decide_eq_true_eq] at h
    obtain ⟨⟨hfirst, hlast⟩, hrest⟩ := h
    intro r hr
    rcases List.mem_cons.mp hr with rfl | hr
    · exact hfirst
    · have hbehind := ih hrest r hr
      omega

/-- The search is right on ranges in increasing order: it finds `n` exactly if a range holds it. -/
theorem inRanges_iff {k n : Nat} {ranges : List (Nat × Nat)} (h : increasingFrom k ranges = true) :
    inRanges n ranges = true ↔ ∃ r ∈ ranges, r.1 ≤ n ∧ n ≤ r.2 := by
  induction ranges generalizing k with
  | nil => simp [inRanges]
  | cons r ranges ih =>
    simp only [increasingFrom, Bool.and_eq_true, decide_eq_true_eq] at h
    obtain ⟨⟨-, hlast⟩, hrest⟩ := h
    simp only [inRanges, Bool.and_eq_true, Bool.or_eq_true, decide_eq_true_eq, ih hrest,
      List.mem_cons, exists_eq_or_imp]
    constructor
    · rintro ⟨h1, h2 | h2⟩
      · exact Or.inl ⟨h1, h2⟩
      · exact Or.inr h2
    · rintro (⟨h1, h2⟩ | ⟨s, hs, h1, h2⟩)
      · exact ⟨h1, Or.inl h2⟩
      · have hbehind := le_of_increasingFrom hrest s hs
        exact ⟨by omega, Or.inr ⟨s, hs, h1, h2⟩⟩

/-- **A set holds the characters in its ranges.** -/
theorem contains_iff {s : CodePoints} {c : Char} :
    s.contains c = true ↔ ∃ r ∈ s.ranges, r.1 ≤ c.toNat ∧ c.toNat ≤ r.2 :=
  inRanges_iff s.increasing

end CodePoints

end Formula.Text
