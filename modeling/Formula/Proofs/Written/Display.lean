import Formula.Proofs.Grammar.Derivation
import Formula.Proofs.Written.WellFormed

/-!
# The written form spells a derivation

The written form of a well-formed tree spells tokens, and these tokens are a primary expression with that
tree: a number, a path, a call, or an operator between parentheses. It does so at every place where a
blank, a comma or a parenthesis that closes follows, which is the case wherever a written form stands
inside another one (`Closes`).

`Written Z e` states this for a tree, together with the cost of the derivation: one less than the levels
that the written form takes. The induction is on the tree; the arguments of a call carry the tree of the
call that they extend.
-/

namespace Formula

open Grammar Item
open Formula.Parser (levels)

variable {Z : List String} {p : ℕ} {rest : List Char}

/-! ### What stands behind a written form -/

/-- No character behind it, or one that ends every token. -/
def Closes (rest : List Char) : Prop :=
  ∀ d ∈ rest.head?, d = ' ' ∨ d = ')' ∨ d = ','

theorem closes_nil : Closes [] := by
  intro d hd
  cases hd

theorem closes_cons {d : Char} (h : d = ' ' ∨ d = ')' ∨ d = ',') : Closes (d :: rest) :=
  forall_head_cons h

theorem Closes.not_isNamePart (h : Closes rest) : ∀ d ∈ rest.head?, isNamePart d = false := by
  intro d hd
  rcases h d hd with rfl | rfl | rfl
  · decide
  · decide
  · decide

theorem Closes.stopsNumber (h : Closes rest) : StopsNumber rest := by
  intro d hd
  rcases h d hd with rfl | rfl | rfl
  · decide
  · decide
  · decide

/-! ### Symbols -/

/-- A blank is the second character of no symbol. -/
theorem blank_ends_symbol (cs : List Char) (c : Char) :
    ∀ d ∈ (' ' :: cs).head?, (c, d) ∉ pairSymbols :=
  forall_head_cons (by simp [pairSymbols])

theorem spells_unarySymbol (op : UnaryOp) (hrest : ∀ d ∈ rest.head?, d ≠ '=') :
    Spells p op.symbol.toList [⟨.symbol, op.symbol, p⟩] rest := by
  cases op with
  | not =>
    change Spells p ['!'] [⟨.symbol, String.ofList ['!'], p⟩] rest
    refine spells_mark (by decide) fun d hd hpair => hrest d hd ?_
    simpa [pairSymbols] using hpair
  | negate => exact spells_single (by decide) (by decide)
  | plus => exact spells_single (by decide) (by decide)

/-- An operator before what cannot be the second character of a symbol. -/
theorem spells_binarySymbol (op : BinaryOp) (hrest : ∀ c, ∀ d ∈ rest.head?, (c, d) ∉ pairSymbols) :
    Spells p op.symbol.toList [⟨.symbol, op.symbol, p⟩] rest := by
  cases op with
  | or => exact spells_pair (by decide) (by decide)
  | and => exact spells_pair (by decide) (by decide)
  | equal => exact spells_pair (by decide) (by decide)
  | notEqual => exact spells_pair (by decide) (by decide)
  | lessEqual => exact spells_pair (by decide) (by decide)
  | greaterEqual => exact spells_pair (by decide) (by decide)
  | _ => exact spells_mark (by decide) (hrest _)

theorem spells_opening (p : ℕ) (rest : List Char) : Spells p ['('] [⟨.symbol, "(", p⟩] rest :=
  spells_single (by decide) (by decide)

theorem spells_closing (p : ℕ) (rest : List Char) : Spells p [')'] [⟨.symbol, ")", p⟩] rest :=
  spells_single (by decide) (by decide)

theorem spells_point (p : ℕ) (rest : List Char) : Spells p ['.'] [⟨.symbol, ".", p⟩] rest :=
  spells_single (by decide) (by decide)

theorem spells_comma (p : ℕ) (rest : List Char) : Spells p [','] [⟨.symbol, ",", p⟩] rest :=
  spells_single (by decide) (by decide)

theorem spells_space (p : ℕ) (rest : List Char) : Spells p [' '] [] rest :=
  spells_blank (by decide)

theorem isSymbol_mk (s : String) (p : ℕ) : Token.isSymbol ⟨.symbol, s, p⟩ s = true :=
  Token.isSymbol_iff.mpr ⟨rfl, rfl⟩

/-! ### Derivations of the written pieces -/

namespace Grammar

variable {ts us : List Token} {e x y : Expr} {c d : ℕ}

/-- Every operator but the power belongs to a level. -/
theorem exists_level {op : BinaryOp} (hop : op ≠ .power) :
    ∃ looser ops ls, levels = looser ++ ops :: ls ∧ op ∈ ops := by
  have hmem : ∃ ops ∈ levels, op ∈ ops := by
    cases op with
    | power => exact absurd rfl hop
    | _ => decide
  obtain ⟨ops, hops, hop⟩ := hmem
  obtain ⟨looser, ls, hlevels⟩ := List.append_of_mem hops
  exact ⟨looser, ops, ls, hlevels, hop⟩

/-- Two primary expressions with an operator between them. -/
theorem derives_binary {t : Token} {op : BinaryOp} (hx : Derives Z .primary ts x c)
    (ht : t.isSymbol op.symbol) (hy : Derives Z .primary us y d) :
    Derives Z (.level levels) (ts ++ t :: us) (.binary x op y) (max (1 + c) (2 + d)) := by
  by_cases hop : op = .power
  · subst hop
    have hpower := (Derives.power hx ht (.plain hy)).level_of_unary levels
    have hcost : 1 + max c (1 + d) = max (1 + c) (2 + d) := by omega
    rwa [hcost] at hpower
  · obtain ⟨looser, ops, ls, hlevels, hmem⟩ := exists_level hop
    have hchain := Derives.more (x := x) ht hmem (hy.level_of_primary ls) .stop
    have hlevel := (Derives.level (hx.level_of_primary ls) hchain).level_append looser
    have hcost : max (1 + c) (1 + max (1 + d) 0) = max (1 + c) (2 + d) := by omega
    rwa [hcost, List.append_nil, ← hlevels] at hlevel

/-- The same between parentheses. -/
theorem derives_group_binary {o t r : Token} {op : BinaryOp} (ho : o.isSymbol "(")
    (hx : Derives Z .primary ts x c) (ht : t.isSymbol op.symbol) (hy : Derives Z .primary us y d)
    (hr : r.isSymbol ")") :
    Derives Z .primary (o :: (ts ++ t :: (us ++ [r]))) (.binary x op y) (max (1 + c) (2 + d)) := by
  have hgroup := Derives.group ho hr (derives_binary hx ht hy)
  rwa [List.append_assoc] at hgroup

theorem derives_sign {t : Token} {op : UnaryOp} (ht : t.isSymbol op.symbol)
    (hx : Derives Z .primary ts x c) :
    Derives Z (.level levels) (t :: ts) (.unary op x) (2 + c) := by
  have hsign := (Derives.sign ht (.plain hx)).level_of_unary levels
  rwa [← Nat.add_assoc] at hsign

end Grammar

/-! ### Written forms -/

/-- **The written form of `e` spells a primary expression** with this tree. -/
def Written (Z : List String) (e : Expr) : Prop :=
  ∀ p rest, Closes rest → ∃ ts c, Spells p e.display.toList ts rest ∧
    Derives Z .primary ts e c ∧ e.writtenDepth = 1 + c

/-- The written forms of further arguments extend a call. -/
def WrittenMore (Z : List String) (es : List Expr) : Prop :=
  ∀ p rest, ∃ ts, Spells p (Expr.displayMore es).toList ts (')' :: rest) ∧
    ∀ f xs, Derives Z (.arguments f xs) ts (.call f (xs ++ es)) (Expr.writtenDepthAll es)

theorem written_literal {x : Float} (hx : x.isFinite = true) (hneg : Decimal.isNegative x = false) :
    Written Z (.literal x) := by
  intro p rest hrest
  obtain ⟨⟨n, hplain⟩, hread⟩ := Decimal.read_display hx hneg
  exact ⟨_, 0, spells_number hplain hrest.stopsNumber, .number rfl hread hx, rfl⟩

/-- Names behind points. -/
theorem spells_attributes : ∀ names : List String, (∀ s ∈ names, isIdentifier s = true) →
    ∀ p rest, Closes rest → ∃ ts,
      Spells p (names.flatMap fun name => '.' :: name.toList) ts rest ∧ Attributes ts names
  | [], _, _, _, _ => ⟨[], Spells.nil, .nil⟩
  | name :: names, hnames, p, rest, hrest => by
    obtain ⟨ts, hts, hattr⟩ := spells_attributes names
      (fun s hs => hnames s (List.mem_cons_of_mem _ hs)) (p + bytes ['.'] + bytes name.toList) rest
      hrest
    have hstop : ∀ d ∈ ((names.flatMap fun name => '.' :: name.toList) ++ rest).head?,
        isNamePart d = false := by
      cases names with
      | nil => exact hrest.not_isNamePart
      | cons name names => exact forall_head_cons (by decide)
    have hname := spells_name (p := p + bytes ['.']) (hnames name List.mem_cons_self) hstop
    refine ⟨_, (spells_point p _).append (hname.append hts), ?_⟩
    exact .cons (isSymbol_mk _ _) rfl hattr

/-- The written form of a path spells a root and the names behind it. -/
theorem spells_path {path : Path} (hpath : Path.isWellFormed path = true) (p : ℕ) {rest : List Char}
    (hrest : Closes rest) : ∃ t ts names, Spells p (Path.display path).toList (t :: ts) rest ∧
      t.isRoot ∧ Attributes ts names ∧ path = t.text :: names := by
  cases path with
  | nil => cases hpath
  | cons root names =>
    simp only [Path.isWellFormed, Bool.and_eq_true, Bool.not_eq_true', List.all_eq_true] at hpath
    obtain ⟨hroot, hnames⟩ := hpath
    have hbracket : ']' ∉ root.toList := by
      intro hmem
      rw [List.contains_eq_mem, decide_eq_false_iff_not] at hroot
      exact hroot hmem
    rw [Path.toList_display]
    obtain ⟨ts, hts, hattr⟩ := spells_attributes names hnames
      (p + bytes ('[' :: (root.toList ++ [']']))) rest hrest
    exact ⟨_, ts, names, (spells_quoted hbracket).append hts, rfl, hattr, rfl⟩

theorem written_path {path : Path} (hpath : Path.isWellFormed path = true) :
    Written Z (.path path) := by
  intro p rest hrest
  obtain ⟨t, ts, names, hts, hroot, hattr, rfl⟩ := spells_path hpath p hrest
  exact ⟨t :: ts, 0, hts, .path hroot hattr, rfl⟩

/-- A written form does not begin with the sign that would make a pair of the operator before it. -/
theorem ne_equals_of_head {e : Expr} (h : e.isWellFormed Z = true) (cs : List Char) :
    ∀ d ∈ (e.display.toList ++ cs).head?, d ≠ '=' := by
  have hcons : ∀ {text : List Char} {c : Char} {ds : List Char}, text = c :: ds → c ≠ '=' →
      ∀ d ∈ (text ++ cs).head?, d ≠ '=' := by
    rintro text c ds rfl hc
    exact forall_head_cons hc
  cases e with
  | literal x =>
    simp only [Expr.isWellFormed, Bool.and_eq_true, Bool.not_eq_true'] at h
    obtain ⟨⟨n, hplain⟩, -⟩ := Decimal.read_display h.1 h.2
    obtain ⟨c, ds, hcs, hdigit⟩ := hplain.head
    refine hcons hcs ?_
    rintro rfl
    cases hdigit
  | path q =>
    cases q with
    | nil => cases h
    | cons root names => exact hcons (Path.toList_display root names) (by decide)
  | unary op x => exact hcons (Expr.toList_unary op x) (by decide)
  | binary l op r => exact hcons (Expr.toList_binary l op r) (by decide)
  | call f args =>
    simp only [Expr.isWellFormed, Bool.and_eq_true] at h
    have hname : isIdentifier f = true := h.1.1
    unfold isIdentifier at hname
    cases hf : f.toList with
    | nil => rw [hf] at hname; cases hname
    | cons c ds =>
      rw [hf, Bool.and_eq_true] at hname
      have hcall := Expr.toList_call f args
      rw [hf] at hcall
      exact hcons hcall (isNameStart_ne hname.1 (by decide))

theorem written_unary {op : UnaryOp} {x : Expr} (h : x.isWellFormed Z = true)
    (hx : Written Z x) : Written Z (.unary op x) := by
  intro p rest _
  obtain ⟨ts, c, hts, hderives, hdepth⟩ := hx (p + bytes ['('] + bytes op.symbol.toList)
    ([')'] ++ rest) (closes_cons (Or.inr (Or.inl rfl)))
  have hop := spells_unarySymbol (p := p + bytes ['(']) op (ne_equals_of_head h ([')'] ++ rest))
  rw [← List.append_assoc] at hop
  have hspells := (spells_opening p _).append (hop.append (hts.append (spells_closing _ rest)))
  rw [← Expr.toList_unary] at hspells
  refine ⟨_, 2 + c, hspells, ?_, ?_⟩
  · exact .group (isSymbol_mk _ _) (isSymbol_mk _ _) (derives_sign (isSymbol_mk _ _) hderives)
  · rw [Expr.writtenDepth, hdepth]
    omega

theorem written_binary {op : BinaryOp} {l r : Expr} (hl : Written Z l) (hr : Written Z r) :
    Written Z (.binary l op r) := by
  intro p rest _
  obtain ⟨us, d, hus, hderives', hdepth'⟩ := hr (p + bytes ['('] + bytes l.display.toList +
    bytes [' '] + bytes op.symbol.toList + bytes [' ']) ([')'] ++ rest)
    (closes_cons (Or.inr (Or.inl rfl)))
  have hright := (spells_space (p + bytes ['('] + bytes l.display.toList + bytes [' '] +
    bytes op.symbol.toList) _).append (hus.append (spells_closing _ rest))
  have hmiddle := (spells_space (p + bytes ['('] + bytes l.display.toList) _).append
    ((spells_binarySymbol op (blank_ends_symbol _)).append hright)
  obtain ⟨ts, c, hts, hderives, hdepth⟩ := hl (p + bytes ['(']) _ (closes_cons (Or.inl rfl))
  have hspells := (spells_opening p _).append (hts.append hmiddle)
  rw [← Expr.toList_binary] at hspells
  refine ⟨_, max (1 + c) (2 + d), hspells, ?_, ?_⟩
  · exact derives_group_binary (isSymbol_mk _ _) hderives (isSymbol_mk _ _) hderives'
      (isSymbol_mk _ _)
  · rw [Expr.writtenDepth, hdepth, hdepth']
    omega

/-- Behind an argument stands a comma or the parenthesis that closes the call. -/
theorem closes_displayMore (es : List Expr) (rest : List Char) :
    Closes ((Expr.displayMore es).toList ++ ')' :: rest) := by
  cases es with
  | nil => exact closes_cons (Or.inr (Or.inl rfl))
  | cons x xs =>
    rw [Expr.toList_displayMore]
    exact closes_cons (Or.inr (Or.inr rfl))

theorem writtenMore_nil : WrittenMore Z [] := by
  intro p rest
  refine ⟨[], Spells.nil, fun f xs => ?_⟩
  rw [List.append_nil]
  exact .last

theorem writtenMore_cons {x : Expr} {es : List Expr} (hx : Written Z x) (hes : WrittenMore Z es) :
    WrittenMore Z (x :: es) := by
  intro p rest
  obtain ⟨ts, c, hts, hderives, hdepth⟩ := hx (p + bytes [','] + bytes [' ']) _
    (closes_displayMore es rest)
  obtain ⟨us, hus, hmore⟩ := hes (p + bytes [','] + bytes [' '] + bytes x.display.toList) rest
  have hspells := (spells_comma p _).append ((spells_space (p + bytes [',']) _).append
    (hts.append hus))
  rw [← Expr.toList_displayMore] at hspells
  refine ⟨_, hspells, fun f xs => ?_⟩
  have hnext := Derives.next (isSymbol_mk "," p) (hderives.level_of_primary levels)
    (hmore f (xs ++ [x]))
  rw [List.append_assoc, ← hdepth] at hnext
  exact hnext

theorem opening_ends_name (cs : List Char) : ∀ d ∈ ('(' :: cs).head?, isNamePart d = false :=
  forall_head_cons (by decide)

theorem written_call_nil {f : String} (hf : isIdentifier f = true) (hz : f ∈ Z) :
    Written Z (.call f []) := by
  intro p rest _
  have hargs := (spells_opening (p + bytes f.toList) _).append (spells_closing _ rest)
  have hspells := (spells_name hf (opening_ends_name _)).append hargs
  have htext : (Expr.call f []).display.toList = f.toList ++ (['('] ++ [')']) := Expr.toList_call f []
  rw [← htext] at hspells
  exact ⟨_, 0, hspells, .callNone rfl (isSymbol_mk _ _) (isSymbol_mk _ _) hz, rfl⟩

theorem written_call_cons {f : String} {x : Expr} {es : List Expr} (hf : isIdentifier f = true)
    (hx : Written Z x) (hes : WrittenMore Z es) : Written Z (.call f (x :: es)) := by
  intro p rest _
  obtain ⟨ts, c, hts, hderives, hdepth⟩ := hx (p + bytes f.toList + bytes ['(']) _
    (closes_displayMore es rest)
  obtain ⟨us, hus, hmore⟩ := hes (p + bytes f.toList + bytes ['('] + bytes x.display.toList) rest
  have hargs := (hts.append hus).append (spells_closing _ rest)
  have hcall := (spells_opening (p + bytes f.toList) _).append hargs
  have hspells := (spells_name hf (opening_ends_name _)).append hcall
  rw [← Expr.toList_displayArgs, ← Expr.toList_call] at hspells
  refine ⟨_, max (1 + c) (Expr.writtenDepthAll es), hspells, ?_, ?_⟩
  · exact .call rfl (isSymbol_mk _ _) (isSymbol_mk _ _) (hderives.level_of_primary levels)
      (hmore f [x])
  · rw [Expr.writtenDepth, Expr.writtenDepthAll, hdepth]

mutual

/-- **Every well-formed tree is written** so that its text spells a derivation of it. -/
theorem Expr.written : ∀ e : Expr, e.isWellFormed Z = true → Written Z e
  | .literal x, h => by
    simp only [isWellFormed, Bool.and_eq_true, Bool.not_eq_true'] at h
    exact written_literal h.1 h.2
  | .path q, h => written_path h
  | .unary op x, h => written_unary h (Expr.written x h)
  | .binary l op r, h => by
    simp only [isWellFormed, Bool.and_eq_true] at h
    exact written_binary (Expr.written l h.1) (Expr.written r h.2)
  | .call f [], h => by
    simp only [isWellFormed, Bool.and_eq_true, List.isEmpty_nil, Bool.not_true, Bool.false_or] at h
    exact written_call_nil h.1.1 (List.contains_iff_mem.mp h.1.2)
  | .call f (x :: es), h => by
    simp only [isWellFormed, areWellFormed, Bool.and_eq_true] at h
    exact written_call_cons h.1.1 (Expr.written x h.2.1) (Expr.writtenMore es h.2.2)

theorem Expr.writtenMore : ∀ es : List Expr, Expr.areWellFormed Z es = true → WrittenMore Z es
  | [], _ => writtenMore_nil
  | x :: es, h => by
    simp only [areWellFormed, Bool.and_eq_true] at h
    exact writtenMore_cons (Expr.written x h.1) (Expr.writtenMore es h.2)

end

end Formula
