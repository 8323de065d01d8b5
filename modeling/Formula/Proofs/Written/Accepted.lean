import Formula.Engine.Source
import Formula.Proofs.Grammar.Soundness
import Formula.Proofs.Token.Lexed
import Formula.Proofs.Written.ReadBack

/-!
# What a source writes can be written

The texts of the tokens of a source are those of their classes, and so every tree that they form is
well-formed: a number that begins with a digit has no sign, a root has no bracket that closes, the
names are names, and a call without arguments is one of those that the dialect allows
(`isWellFormed_of_ofSource`).

So the written form of an accepted tree always reads back, except that its parentheses may take more
levels than the source did. Under the limit of the source it reads back exactly if these levels are
allowed (`ofSource_display_iff`): `1+1` takes two levels, and `(1 + 1)` three.
-/

namespace Formula

open Grammar Item
open Formula.Parser (levels)

variable {Z : List String}

/-! ### Numbers -/

/-- An unsigned number leaves the bit of the sign alone. -/
theorem Decimal.lt_signBit_of_magnitude? {cs : List Char} {n : ℕ} (h : magnitude? cs = some n) :
    n < signBit := by
  have hinf : infinityBits + binade / 2 < signBit := by decide
  unfold magnitude? at h
  dsimp only at h
  split at h
  · cases h
    omega
  · split at h
    · cases h
      exact hinf
    · obtain ⟨numeral, -, rfl⟩ := Option.map_eq_some_iff.mp h
      have hle := numeral.nearest_le
      omega

/-- A number token of a source that is read as a finite number is read without a sign. -/
theorem isNegative_of_isLexed {t : Token} {x : Float} (ht : t.isLexed = true)
    (hk : t.kind = .number) (hx : Decimal.read? t.text = some x) (hfin : x.isFinite = true) :
    Decimal.isNegative x = false := by
  simp only [Token.isLexed, hk] at ht
  obtain ⟨c, hc, hdigit⟩ := Option.any_eq_true _ _ |>.mp ht
  obtain ⟨cs, hcs⟩ := List.head?_eq_some_iff.mp hc
  unfold Decimal.read? at hx
  rw [hcs, Decimal.splitSign_of_isDigit hdigit] at hx
  obtain ⟨n, hn, rfl⟩ := Option.map_eq_some_iff.mp hx
  exact Decimal.isNegative_toFloat (Decimal.lt_signBit_of_magnitude? hn) hfin

/-! ### Paths -/

theorem isIdentifier_of_isLexed {t : Token} (ht : t.isLexed = true) (hk : t.kind = .name) :
    isIdentifier t.text = true := by
  simpa only [Token.isLexed, hk] using ht

/-- A name holds no bracket. -/
theorem notMem_of_isIdentifier {s : String} (h : isIdentifier s = true) : ']' ∉ s.toList := by
  unfold isIdentifier at h
  cases hs : s.toList with
  | nil => exact List.not_mem_nil
  | cons c cs =>
    rw [hs] at h
    simp only [Bool.and_eq_true, List.all_eq_true] at h
    intro hmem
    rcases List.mem_cons.mp hmem with rfl | hmem
    · exact absurd rfl (isNameStart_ne (d := ']') h.1 (by decide))
    · have hpart := h.2 _ hmem
      exact absurd hpart (by decide)

theorem root_of_isLexed {t : Token} (ht : t.isLexed = true) (hroot : t.isRoot = true) :
    t.text.toList.contains ']' = false := by
  rw [List.contains_eq_mem, decide_eq_false_iff_not]
  simp only [Token.isRoot, Bool.or_eq_true, decide_eq_true_eq] at hroot
  rcases hroot with hk | hk
  · simpa [Token.isLexed, hk] using ht
  · exact notMem_of_isIdentifier (isIdentifier_of_isLexed ht hk)

theorem Grammar.Attributes.all_isIdentifier {ts : List Token} {names : List String}
    (h : Attributes ts names) (hts : ts.all Token.isLexed = true) :
    names.all isIdentifier = true := by
  induction h with
  | nil => rfl
  | cons _ hn _ ih =>
    simp only [List.all_cons, Bool.and_eq_true] at hts
    rw [List.all_cons, isIdentifier_of_isLexed hts.2.1 hn, ih hts.2.2]
    rfl

/-! ### Trees -/

theorem Expr.areWellFormed_append (xs ys : List Expr) : Expr.areWellFormed Z (xs ++ ys) =
    (Expr.areWellFormed Z xs && Expr.areWellFormed Z ys) := by
  induction xs with
  | nil => rfl
  | cons x xs ih =>
    rw [List.cons_append, Expr.areWellFormed, Expr.areWellFormed, ih, Bool.and_assoc]

/-- What the tree of a phrase is if what it extends is well-formed. -/
def Grammar.Phrase.Keeps (Z : List String) (e : Expr) : Phrase → Prop
  | .chain _ _ x => x.isWellFormed Z = true → e.isWellFormed Z = true
  | .arguments f xs => isIdentifier f = true → xs ≠ [] → Expr.areWellFormed Z xs = true →
      e.isWellFormed Z = true
  | _ => e.isWellFormed Z = true

/-- **Trees of tokens that a source can have are well-formed.** -/
theorem Grammar.Derives.keeps {φ : Phrase} {ts : List Token} {e : Expr} {c : ℕ}
    (h : Derives Z φ ts e c) (hts : ts.all Token.isLexed = true) : φ.Keeps Z e := by
  induction h with
  | operand _ ih => exact ih hts
  | level _ _ ih ih' =>
    rw [List.all_append, Bool.and_eq_true] at hts
    exact ih' hts.2 (ih hts.1)
  | stop => exact id
  | more _ _ _ _ ih ih' =>
    simp only [List.all_cons, List.all_append, Bool.and_eq_true] at hts
    intro hx
    have hy := ih hts.2.1
    refine ih' hts.2.2 ?_
    rw [Expr.isWellFormed, hx, hy]
    rfl
  | sign _ _ ih =>
    rw [List.all_cons, Bool.and_eq_true] at hts
    exact ih hts.2
  | plain _ ih => exact ih hts
  | power _ _ _ ih ih' =>
    simp only [List.all_cons, List.all_append, Bool.and_eq_true] at hts
    have hb := ih hts.1
    have he := ih' hts.2.2
    unfold Phrase.Keeps
    rw [Expr.isWellFormed, hb, he]
    rfl
  | number ht hx hf =>
    rw [List.all_cons, Bool.and_eq_true] at hts
    unfold Phrase.Keeps
    rw [Expr.isWellFormed, hf, isNegative_of_isLexed hts.1 ht hx hf]
    rfl
  | path ht hattr =>
    rw [List.all_cons, Bool.and_eq_true] at hts
    unfold Phrase.Keeps
    rw [Expr.isWellFormed, Path.isWellFormed, root_of_isLexed hts.1 ht,
      hattr.all_isIdentifier hts.2]
    rfl
  | group _ _ _ ih =>
    simp only [List.all_cons, List.all_append, Bool.and_eq_true] at hts
    exact ih hts.2.1
  | callNone ht _ _ hz =>
    rw [List.all_cons, Bool.and_eq_true] at hts
    unfold Phrase.Keeps
    rw [Expr.isWellFormed, isIdentifier_of_isLexed hts.1 ht, List.contains_iff_mem.mpr hz]
    rfl
  | call ht _ _ _ _ ih ih' =>
    simp only [List.all_cons, List.all_append, Bool.and_eq_true] at hts
    have hx := ih hts.2.2.1.1
    refine ih' hts.2.2.1.2 (isIdentifier_of_isLexed hts.1 ht) (List.cons_ne_nil _ _) ?_
    rw [Expr.areWellFormed, hx]
    rfl
  | @last f xs =>
    intro hf hne hxs
    rw [Expr.isWellFormed, hf, hxs]
    cases xs with
    | nil => exact absurd rfl hne
    | cons => rfl
  | next _ _ _ ih ih' =>
    simp only [List.all_cons, List.all_append, Bool.and_eq_true] at hts
    intro hf hne hxs
    have hy := ih hts.2.1
    refine ih' hts.2.2 hf (fun hnil => hne (List.append_eq_nil_iff.mp hnil).1) ?_
    rw [Expr.areWellFormed_append, hxs, Expr.areWellFormed, hy]
    rfl

theorem Grammar.Forms.isWellFormed {ts : List Token} {e : Expr} (h : Forms Z ts e)
    (hts : ∀ t ∈ ts, t.isLexed = true) : e.isWellFormed Z = true := by
  obtain ⟨c, hderives⟩ := h
  exact hderives.keeps (List.all_eq_true.mpr hts)

/-- Every tree that a source writes is well-formed. -/
theorem isWellFormed_of_ofSource {source : String} {ts : List Token} {e : Expr}
    (hts : Token.ofSource source = .ok ts) (he : Forms Z ts e) : e.isWellFormed Z = true :=
  he.isWellFormed fun _ ht => Token.isLexed_of_ofSource hts ht

/-! ### Sources -/

/-- What a source writes, by way of its tokens. -/
theorem Expr.ofSource_result {dialect : Dialect} {source : String} {ts : List Token}
    (h : Token.ofSource source = .ok ts) : (Expr.ofSource dialect source).result =
      (Expr.ofTokens dialect ts).mapError .parse := by
  rw [Expr.ofSource, Token.read_bind_of_ok h]
  rfl

/-- **The written form of what a source writes** reads back under the same limit exactly if this allows
its levels; otherwise it is nested too deeply. -/
theorem ofSource_display_iff {m : ℕ} {source : String} {e : Expr}
    (h : (Expr.ofSource ⟨m, Z⟩ source).result = .ok e) :
    ((Expr.ofSource ⟨m, Z⟩ e.display).result = .ok e ↔ e.writtenDepth ≤ m) ∧
      (m < e.writtenDepth → ∃ pos,
        (Expr.ofSource ⟨m, Z⟩ e.display).result = .error (.parse ⟨pos, .tooDeep m⟩)) := by
  obtain ⟨ts, hts, hofTokens⟩ := Expr.ofSource_eq_ok_iff.mp h
  have he := isWellFormed_of_ofSource hts (forms_of_ofTokens hofTokens)
  obtain ⟨us, hus, hderives⟩ := Expr.derives_display he
  obtain ⟨hok, hdeep⟩ := hderives.ofTokens m
  have hfail : m < e.writtenDepth → ∃ pos,
      (Expr.ofSource ⟨m, Z⟩ e.display).result = .error (.parse ⟨pos, .tooDeep m⟩) := by
    intro hlt
    obtain ⟨pos, hpos⟩ := hdeep hlt
    exact ⟨pos, by rw [Expr.ofSource_result hus, hpos]; rfl⟩
  refine ⟨⟨fun hread => ?_, fun hle => ?_⟩, hfail⟩
  · by_contra hlt
    obtain ⟨pos, hpos⟩ := hfail (Nat.lt_of_not_le hlt)
    rw [hread] at hpos
    cases hpos
  · rw [Expr.ofSource_result hus, hok hle]
    rfl

/-- With three levels `1+1` reads back from `(1 + 1)`. -/
theorem ofSource_display_iff_sum :
    let e : Expr := .binary (.literal Decimal.one) .add (.literal Decimal.one)
    (Expr.ofSource ⟨3, []⟩ "1+1").result = .ok e ∧
      (Expr.ofSource ⟨3, []⟩ e.display).result = .ok e := by
  intro e
  have hsource : (Expr.ofSource ⟨3, []⟩ "1+1").result = .ok e := by decide +kernel
  exact ⟨hsource, (ofSource_display_iff hsource).1.mpr (by decide)⟩

/-- With two levels it does not. -/
theorem not_ofSource_display_sum :
    let e : Expr := .binary (.literal Decimal.one) .add (.literal Decimal.one)
    (Expr.ofSource ⟨2, []⟩ "1+1").result = .ok e ∧ e.display = "(1 + 1)" ∧
      (Expr.ofSource ⟨2, []⟩ e.display).result = .error (.parse ⟨5, .tooDeep 2⟩) := by
  decide +kernel

end Formula
