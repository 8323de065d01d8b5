import Formula.Engine.Source
import Formula.Proofs.Grammar.Layout
import Formula.Proofs.Token.Separation
import Formula.Proofs.Written.Display

/-!
# Formulas within formulas

A source that is accepted on its own may be put into another one between parentheses, as it is, whatever it
holds. A parenthesis or a comma ends its last token and changes none, so its tokens are those that it has
alone, further on (`spells_of_ofSource`); positions decide nothing, so they derive the same tree at the same
cost (`Piece.embeds_iff`); and a phrase between delimiters is read as a whole. So the tree of a source that
is put together from such pieces is put together from their trees, and the levels that it needs are those
of its pieces and one or two more (`Piece.pieces_embed`).
-/

namespace Formula

open Grammar Item
open Formula.Parser (levels)

variable {Z : List String} {rest : List Char} {s : String}

/-! ### Tokens within a source -/

theorem Closes.ends (h : Closes rest) : Ends rest := by
  refine ⟨fun d hd => ?_, h.not_isNamePart, fun c d hd => ?_⟩
  · rcases h d hd with rfl | rfl | rfl
    · exact ⟨rfl, by decide⟩
    · exact ⟨rfl, by decide⟩
    · exact ⟨rfl, by decide⟩
  · rcases h d hd with rfl | rfl | rfl
    · simp [pairSymbols]
    · simp [pairSymbols]
    · simp [pairSymbols]

/-- The tokens of a source, wherever it stands. -/
theorem spells_of_ofSource {ts : List Token} (h : Token.ofSource s = .ok ts) (hrest : Ends rest)
    (p : ℕ) : Spells p s.toList (ts.map (Token.shift p)) rest := by
  have hspells := (spells_of_itemsFrom (collect_eq_ok h) hrest).shift p
  rwa [Nat.zero_add] at hspells

theorem Token.alike_shift (k : ℕ) (ts : List Token) :
    List.Forall₂ Token.Alike ts (ts.map (Token.shift k)) := by
  rw [Token.forall₂_alike_iff, List.map_map]
  rfl

/-! ### Pieces -/

/-- A source, with the limit and the tree under which it is meant to be read. -/
structure Piece where
  source : String
  limit : ℕ
  tree : Expr

namespace Piece

/-- The source is accepted under the limit, with the tree. -/
def Accepted (Z : List String) (x : Piece) : Prop :=
  (Expr.ofSource ⟨x.limit, Z⟩ x.source).result = .ok x.tree

/-- The source between parentheses. -/
def grouped (x : Piece) : String :=
  "(" ++ x.source ++ ")"

/-- The source `(s)`. -/
def group (x : Piece) : Piece :=
  ⟨x.grouped, x.limit + 1, x.tree⟩

/-- The source `op(s)`, for a prefix operator. -/
def unary (op : UnaryOp) (x : Piece) : Piece :=
  ⟨op.symbol ++ x.grouped, x.limit + 2, .unary op x.tree⟩

/-- The source `(s)op(s')`. -/
def binary (x : Piece) (op : BinaryOp) (y : Piece) : Piece :=
  ⟨x.grouped ++ op.symbol ++ y.grouped, max (x.limit + 1) (y.limit + 2), .binary x.tree op y.tree⟩

/-- The largest limit of the pieces. -/
def largestLimit (xs : List Piece) : ℕ :=
  xs.foldr (fun x m => max x.limit m) 0

/-- The source `f(s,...,s')`. -/
def call (f : String) (xs : List Piece) : Piece :=
  ⟨f ++ "(" ++ ",".intercalate (xs.map source) ++ ")", largestLimit xs + 1, .call f (xs.map tree)⟩

/-- **The source is an expression** wherever it stands before what ends it, within its limit. -/
def Embeds (Z : List String) (x : Piece) : Prop :=
  ∀ p rest, Closes rest → ∃ ts c, Spells p x.source.toList ts rest ∧
    Derives Z (.level levels) ts x.tree c ∧ c ≤ x.limit

variable {x y : Piece} {xs : List Piece}

/-- **What is accepted may be embedded**, and what may be embedded is accepted. -/
theorem embeds_iff : x.Embeds Z ↔ x.Accepted Z := by
  constructor
  · intro h
    obtain ⟨ts, c, hspells, hc, hcost⟩ := h 0 [] closes_nil
    exact Expr.ofSource_eq_ok_iff.mpr ⟨ts, hspells.ofSource, (hc.ofTokens x.limit).1 hcost⟩
  · intro h p rest hrest
    obtain ⟨ts, hts, hread⟩ := Expr.ofSource_eq_ok_iff.mp h
    have hshifted : Expr.ofTokens ⟨x.limit, Z⟩ (ts.map (Token.shift p)) = .ok x.tree := by
      obtain ⟨i, -, hagree⟩ := (Parser.ofTokens_agree ⟨x.limit, Z⟩ (Token.alike_shift p ts)).1
      rw [hread] at hagree
      exact hagree.of_ok
    obtain ⟨c, hcost, hc⟩ := derives_of_ofTokens hshifted
    exact ⟨_, c, spells_of_ofSource hts hrest.ends p, hc, hcost⟩

/-! ### Parentheses and operators -/

theorem toList_grouped (x : Piece) : x.grouped.toList = ['('] ++ (x.source.toList ++ [')']) := by
  rw [grouped, String.toList_append, String.toList_append, List.append_assoc]
  rfl

/-- Between parentheses the source is a primary expression, whatever follows. -/
theorem Embeds.grouped (h : x.Embeds Z) (p : ℕ) (rest : List Char) : ∃ ts c,
    Spells p x.grouped.toList ts rest ∧ Derives Z .primary ts x.tree c ∧ c ≤ x.limit := by
  obtain ⟨ts, c, hspells, hc, hcost⟩ := h (p + bytes ['(']) ([')'] ++ rest)
    (closes_cons (Or.inr (Or.inl rfl)))
  have hgroup := (spells_opening p _).append (hspells.append (spells_closing _ rest))
  rw [← toList_grouped] at hgroup
  exact ⟨_, c, hgroup, .group (isSymbol_mk _ _) (isSymbol_mk _ _) hc, hcost⟩

theorem Embeds.group (h : x.Embeds Z) : x.group.Embeds Z := by
  intro p rest _
  obtain ⟨ts, c, hspells, hc, hcost⟩ := h.grouped p rest
  refine ⟨ts, 1 + c, hspells, hc.level_of_primary levels, ?_⟩
  change 1 + c ≤ x.limit + 1
  omega

theorem Embeds.unary (h : x.Embeds Z) (op : UnaryOp) : (x.unary op).Embeds Z := by
  intro p rest _
  obtain ⟨ts, c, hspells, hc, hcost⟩ := h.grouped (p + bytes op.symbol.toList) rest
  have hhead : ∀ d ∈ (x.grouped.toList ++ rest).head?, d ≠ '=' := by
    rw [toList_grouped]
    exact forall_head_cons (by decide)
  have happend := (spells_unarySymbol op hhead).append hspells
  rw [← String.toList_append] at happend
  refine ⟨_, 2 + c, happend, derives_sign (isSymbol_mk _ _) hc, ?_⟩
  change 2 + c ≤ x.limit + 2
  omega

theorem Embeds.binary (hx : x.Embeds Z) (op : BinaryOp) (hy : y.Embeds Z) :
    (x.binary op y).Embeds Z := by
  intro p rest _
  obtain ⟨us, d, hus, hd, hcost'⟩ := hy.grouped (p + bytes x.grouped.toList + bytes op.symbol.toList) rest
  have hhead : ∀ c, ∀ d ∈ (y.grouped.toList ++ rest).head?, (c, d) ∉ pairSymbols := by
    rw [toList_grouped]
    exact fun c => forall_head_cons (by simp [pairSymbols])
  have hright := (spells_binarySymbol op hhead).append hus
  obtain ⟨ts, c, hts, hc, hcost⟩ := hx.grouped p (op.symbol.toList ++ y.grouped.toList ++ rest)
  have happend := hts.append hright
  rw [← String.toList_append, ← String.toList_append, ← String.append_assoc] at happend
  refine ⟨_, max (1 + c) (2 + d), happend, derives_binary hc (isSymbol_mk _ _) hd, ?_⟩
  change max (1 + c) (2 + d) ≤ max (x.limit + 1) (y.limit + 2)
  omega

/-! ### Calls -/

/-- Further arguments, each behind a comma. -/
def moreText (xs : List Piece) : List Char :=
  xs.flatMap fun x => [','] ++ x.source.toList

/-- Behind an argument stands a comma or the parenthesis that closes the call. -/
theorem closes_moreText (xs : List Piece) (rest : List Char) :
    Closes (moreText xs ++ ([')'] ++ rest)) := by
  cases xs with
  | nil => exact closes_cons (Or.inr (Or.inl rfl))
  | cons => exact closes_cons (Or.inr (Or.inr rfl))

theorem toList_intercalate_cons (t : String) (texts : List String) :
    (",".intercalate (t :: texts)).toList = t.toList ++ texts.flatMap fun u => [','] ++ u.toList := by
  induction texts generalizing t with
  | nil => rw [String.intercalate_singleton, List.flatMap_nil, List.append_nil]
  | cons u texts ih =>
    rw [String.intercalate_cons_cons, String.toList_append, String.toList_append, ih,
      List.flatMap_cons, List.append_assoc, List.append_assoc]
    rfl

theorem toList_call (f : String) (x : Piece) (xs : List Piece) : (call f (x :: xs)).source.toList =
    f.toList ++ (['('] ++ (x.source.toList ++ moreText xs ++ [')'])) := by
  rw [call, String.toList_append, String.toList_append, String.toList_append, List.map_cons,
    toList_intercalate_cons, List.flatMap_map, List.append_assoc, List.append_assoc]
  rfl

/-- **Arguments that may be embedded** extend a call. -/
theorem spells_moreText (h : ∀ x ∈ xs, x.Embeds Z) (p : ℕ) (rest : List Char) : ∃ us d,
    Spells p (moreText xs) us ([')'] ++ rest) ∧
      (∀ f args, Derives Z (.arguments f args) us (.call f (args ++ xs.map tree)) d) ∧
      d ≤ largestLimit xs := by
  induction xs generalizing p with
  | nil =>
    refine ⟨[], 0, .nil, fun f args => ?_, Nat.zero_le _⟩
    rw [List.map_nil, List.append_nil]
    exact .last
  | cons x xs ih =>
    obtain ⟨hx, hxs⟩ := List.forall_mem_cons.mp h
    obtain ⟨ts, c, hts, hc, hcost⟩ := hx (p + bytes [',']) _ (closes_moreText xs rest)
    obtain ⟨us, d, hus, hmore, hcost'⟩ := ih hxs (p + bytes [','] + bytes x.source.toList)
    have hspells := (spells_comma p _).append (hts.append hus)
    rw [← List.append_assoc] at hspells
    refine ⟨_, max c d, hspells, fun f args => ?_, max_le_max hcost hcost'⟩
    have hnext := Derives.next (isSymbol_mk "," p) hc (hmore f (args ++ [x.tree]))
    rwa [List.append_assoc] at hnext

theorem Embeds.call {f : String} (hf : isIdentifier f = true) (hx : x.Embeds Z)
    (hxs : ∀ y ∈ xs, y.Embeds Z) : (call f (x :: xs)).Embeds Z := by
  intro p rest _
  obtain ⟨ts, c, hts, hc, hcost⟩ := hx (p + bytes f.toList + bytes ['(']) _ (closes_moreText xs rest)
  obtain ⟨us, d, hus, hmore, hcost'⟩ :=
    spells_moreText hxs (p + bytes f.toList + bytes ['('] + bytes x.source.toList) rest
  have hargs := (spells_opening (p + bytes f.toList) _).append
    ((hts.append hus).append (spells_closing _ rest))
  have hspells := (spells_name hf (opening_ends_name _)).append hargs
  rw [← toList_call] at hspells
  have hcall : ∀ q, Derives Z .primary
      (⟨.name, f, p⟩ :: ⟨.symbol, "(", p + bytes f.toList⟩ :: (ts ++ us ++ [⟨.symbol, ")", q⟩]))
      (.call f (x.tree :: xs.map tree)) (max c d) :=
    fun q => .call rfl (isSymbol_mk _ _) (isSymbol_mk _ _) hc (hmore f [x.tree])
  refine ⟨_, 1 + max c d, hspells, (hcall _).level_of_primary levels, ?_⟩
  change 1 + max c d ≤ max x.limit (largestLimit xs) + 1
  omega

/-! ### Accepted pieces -/

/-- **Accepted formulas may be embedded** between parentheses, as they are: alone, behind a prefix
operator, on either side of an operator, and as the arguments of a call. The tree of the whole is made of
their trees, and one or two levels more than theirs suffice. -/
theorem pieces_embed (Z : List String) :
    (∀ x : Piece, x.Accepted Z → x.group.Accepted Z) ∧
    (∀ (op : UnaryOp) (x : Piece), x.Accepted Z → (x.unary op).Accepted Z) ∧
    (∀ (op : BinaryOp) (x y : Piece), x.Accepted Z → y.Accepted Z → (x.binary op y).Accepted Z) ∧
    ∀ (f : String) (xs : List Piece), isIdentifier f = true → xs ≠ [] → (∀ x ∈ xs, x.Accepted Z) →
      (call f xs).Accepted Z := by
  refine ⟨fun x hx => ?_, fun op x hx => ?_, fun op x y hx hy => ?_, fun f xs hf hne hxs => ?_⟩
  · exact embeds_iff.mp (embeds_iff.mpr hx).group
  · exact embeds_iff.mp ((embeds_iff.mpr hx).unary op)
  · exact embeds_iff.mp ((embeds_iff.mpr hx).binary op (embeds_iff.mpr hy))
  · obtain ⟨x, xs, rfl⟩ := List.exists_cons_of_ne_nil hne
    obtain ⟨hx, hxs⟩ := List.forall_mem_cons.mp hxs
    exact embeds_iff.mp ((embeds_iff.mpr hx).call hf fun y hy => embeds_iff.mpr (hxs y hy))

/-- `&&` does not reach into `a||b` here, nor does `^` take the sign from `-b^f()`. -/
theorem pieces_embed_apart :
    let x : Piece := ⟨"a||b ", 2, .binary (.path ["a"]) .or (.path ["b"])⟩
    let y : Piece := ⟨"-b^f()", 3, .unary .negate (.binary (.path ["b"]) .power (.call "f" []))⟩
    x.Accepted ["f"] ∧ y.Accepted ["f"] ∧
      (x.binary .and y).source = "(a||b )&&(-b^f())" ∧ (x.binary .and y).limit = 5 ∧
      (x.binary .and y).Accepted ["f"] ∧ (y.group.binary .power x).Accepted ["f"] ∧
      (y.unary .not).source = "!(-b^f())" ∧ (y.unary .not).Accepted ["f"] ∧
      (call "g" [x, y]).source = "g(a||b ,-b^f())" ∧ (call "g" [x, y]).limit = 4 ∧
      (call "g" [x, y]).Accepted ["f"] := by
  intro x y
  have hx : x.Accepted ["f"] := by
    change (Expr.ofSource ⟨2, ["f"]⟩ "a||b ").result = _
    decide +kernel
  have hy : y.Accepted ["f"] := by
    change (Expr.ofSource ⟨3, ["f"]⟩ "-b^f()").result = _
    decide +kernel
  obtain ⟨hgroup, hunary, hbinary, hcall⟩ := pieces_embed ["f"]
  refine ⟨hx, hy, by decide +kernel, rfl, hbinary _ _ _ hx hy, hbinary _ _ _ (hgroup y hy) hx,
    by decide +kernel, hunary _ _ hy, by decide +kernel, rfl, ?_⟩
  have hall : ∀ z ∈ [x, y], z.Accepted ["f"] :=
    List.forall_mem_cons.mpr ⟨hx, List.forall_mem_singleton.mpr hy⟩
  exact hcall "g" [x, y] (by decide +kernel) (List.cons_ne_nil _ _) hall

end Piece

end Formula
