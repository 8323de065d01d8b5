import Mathlib.Tactic.SplitIfs

/-!
# The order of texts is the order of their bytes

Texts are compared character by character, and UTF-8 keeps this order. A character with fewer bytes has a
smaller first byte, and of two characters with equally many bytes the smaller one has the smaller byte at the
first place where they differ, since each byte holds some digits of the code point, the leading ones first
(`utf8EncodeChar_append_lt`). So a list of names in increasing order is also in increasing order of the bytes,
`utf8_lt`.
-/

namespace Formula.Text

variable {c d : Char} {v w k n b : Nat} {l m : List UInt8} {cs ds : List Char} {s t : String}

/-- The bytes of a text. -/
def utf8 (s : String) : List UInt8 :=
  s.toByteArray.data.toList

theorem utf8_ofList (cs : List Char) : utf8 (String.ofList cs) = cs.flatMap String.utf8EncodeChar :=
  List.toList_data_toByteArray

/-! ### Bytes -/

theorem byte_cons_lt (hw : w < 256) (h : v < w) : UInt8.ofNat v :: l < UInt8.ofNat w :: m := by
  refine .rel ?_
  rw [UInt8.lt_iff_toNat_lt, UInt8.toNat_ofNat', UInt8.toNat_ofNat']
  omega

/-- Of two numbers that agree in front of a digit this digit decides, or else what stands behind it. -/
theorem digit_cons_lt (hw : w / k % n + b < 256) (hle : v ≤ w)
    (hfront : v / (k * n) = w / (k * n)) (hbehind : v / k = w / k → l < m) :
    UInt8.ofNat (v / k % n + b) :: l < UInt8.ofNat (w / k % n + b) :: m := by
  rcases Nat.lt_or_eq_of_le (Nat.div_le_div_right (c := k) hle) with hlt | heq
  · refine byte_cons_lt hw ?_
    rw [← Nat.div_div_eq_div_mul, ← Nat.div_div_eq_div_mul] at hfront
    have hv := Nat.div_add_mod (v / k) n
    have hw := Nat.div_add_mod (w / k) n
    rw [hfront] at hv
    omega
  · rw [heq]
    exact List.cons_lt_cons_iff.mpr (.inr ⟨rfl, hbehind heq⟩)

theorem lastDigit_cons_lt (hw : w % n + b < 256) (hlt : v < w) (hfront : v / n = w / n) :
    UInt8.ofNat (v % n + b) :: l < UInt8.ofNat (w % n + b) :: m := by
  have h : w / 1 % n + b < 256 → v ≤ w → v / (1 * n) = w / (1 * n) → (v / 1 = w / 1 → l < m) →
      UInt8.ofNat (v / 1 % n + b) :: l < UInt8.ofNat (w / 1 % n + b) :: m := digit_cons_lt
  simp only [Nat.div_one, Nat.one_mul] at h
  exact h hw (Nat.le_of_lt hlt) hfront fun heq => absurd heq (Nat.ne_of_lt hlt)

/-! ### Characters and texts -/

/-- **The smaller of two characters has the smaller bytes**, whatever follows. -/
theorem utf8EncodeChar_append_lt (h : c < d) (l m : List UInt8) :
    String.utf8EncodeChar c ++ l < String.utf8EncodeChar d ++ m := by
  have hlt : c.val.toNat < d.val.toNat := h
  have hd : d.val.toNat < 0x110000 := by
    rcases d.valid with h | h
    · omega
    · exact h.2
  unfold String.utf8EncodeChar
  generalize c.val.toNat = v at *
  generalize d.val.toNat = w at *
  have hle := Nat.le_of_lt hlt
  dsimp only
  -- Unless both have equally many bytes, and more than one, the first byte decides.
  split_ifs <;> try first
    | omega
    | exact byte_cons_lt (by omega) (by omega)
  · exact digit_cons_lt (by omega) hle (by omega) fun h =>
      lastDigit_cons_lt (by omega) hlt h
  · exact digit_cons_lt (by omega) hle (by omega) fun h =>
      digit_cons_lt (by omega) hle h fun h =>
      lastDigit_cons_lt (by omega) hlt h
  · exact digit_cons_lt (by omega) hle (by omega) fun h =>
      digit_cons_lt (by omega) hle h fun h =>
      digit_cons_lt (by omega) hle h fun h =>
      lastDigit_cons_lt (by omega) hlt h

theorem flatMap_utf8EncodeChar_lt (h : cs < ds) :
    cs.flatMap String.utf8EncodeChar < ds.flatMap String.utf8EncodeChar := by
  induction h with
  | @nil d ds =>
    obtain ⟨b, bs, hb⟩ := List.exists_cons_of_ne_nil (String.utf8EncodeChar_ne_nil (c := d))
    rw [List.flatMap_nil, List.flatMap_cons, hb]
    exact .nil
  | cons _ ih =>
    rw [List.flatMap_cons, List.flatMap_cons]
    exact List.append_left_lt ih
  | rel h =>
    rw [List.flatMap_cons, List.flatMap_cons]
    exact utf8EncodeChar_append_lt h _ _

/-- **The order of texts is the order of their bytes.** -/
theorem utf8_lt (h : s < t) : utf8 s < utf8 t := by
  rw [← String.ofList_toList (s := s), ← String.ofList_toList (s := t), utf8_ofList, utf8_ofList]
  exact flatMap_utf8EncodeChar_lt h

end Formula.Text
