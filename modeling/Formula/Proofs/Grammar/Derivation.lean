import Formula.Grammar.Whole
import Mathlib.Data.List.Infix

/-!
# The grammar, as a relation

`Derives Z φ ts e c` says that the tokens `ts` are a phrase of class `φ` with the tree `e`, where only
the functions in `Z` may be called without arguments. It is the documented grammar, one constructor
per production; the six levels are `Parser.levels`, and a level with the operators `ops` over the
levels `ls` is an operand followed by a *chain*, the operators and operands that extend the tree read
so far to the left.

The number `c` is the *cost* of the derivation: the levels of nesting that are open at once, at most,
while the phrase is read. A unary expression opens one level, and each operator of a chain opens one
for all that follows it in the chain. So the operand behind the `i`-th operator of a chain costs `i`
more than it does alone.

In the same way the arguments behind the first one extend a list of arguments; their tree is the whole
call.
-/

namespace Formula.Grammar

open Formula.Parser (levels)

variable {Z : List String}

/-- The classes of phrases. -/
inductive Phrase where
  /-- An expression over the given levels, the loosest first. -/
  | level (ls : List (List BinaryOp))
  /-- What follows the tree `left` in a chain of the operators `ops` over the levels `ls`. -/
  | chain (ops : List BinaryOp) (ls : List (List BinaryOp)) (left : Expr)
  /-- A unary expression. -/
  | unary
  /-- A primary expression. -/
  | primary
  /-- What follows the arguments `args` in a call of `name`. -/
  | arguments (name : String) (args : List Expr)

/-- Names behind points. -/
inductive Attributes : List Token → List String → Prop where
  | nil : Attributes [] []
  | cons {point name : Token} {ts : List Token} {names : List String}
      (hp : point.isSymbol ".") (hn : name.kind = .name) (h : Attributes ts names) :
      Attributes (point :: name :: ts) (name.text :: names)

/-- **The grammar.** -/
inductive Derives (Z : List String) : Phrase → List Token → Expr → ℕ → Prop where
  | operand {ts e c} (h : Derives Z .unary ts e c) : Derives Z (.level []) ts e c
  | level {ops ls ts us x e c d} (h : Derives Z (.level ls) ts x c)
      (h' : Derives Z (.chain ops ls x) us e d) :
      Derives Z (.level (ops :: ls)) (ts ++ us) e (max c d)
  | stop {ops ls x} : Derives Z (.chain ops ls x) [] x 0
  | more {ops ls x t op ts us y e c d} (ht : t.isSymbol (BinaryOp.symbol op)) (hop : op ∈ ops)
      (h : Derives Z (.level ls) ts y c)
      (h' : Derives Z (.chain ops ls (.binary x op y)) us e d) :
      Derives Z (.chain ops ls x) (t :: (ts ++ us)) e (1 + max c d)
  | sign {t op ts e c} (ht : t.isSymbol (UnaryOp.symbol op)) (h : Derives Z .unary ts e c) :
      Derives Z .unary (t :: ts) (.unary op e) (1 + c)
  | plain {ts e c} (h : Derives Z .primary ts e c) : Derives Z .unary ts e (1 + c)
  | power {ts t us b e c d} (h : Derives Z .primary ts b c) (ht : t.isSymbol "^")
      (h' : Derives Z .unary us e d) :
      Derives Z .unary (ts ++ t :: us) (.binary b .power e) (1 + max c d)
  | number {t x} (ht : t.kind = .number) (hx : Decimal.read? t.text = some x)
      (hf : x.isFinite = true) : Derives Z .primary [t] (.literal x) 0
  | path {t ts names} (ht : t.isRoot) (h : Attributes ts names) :
      Derives Z .primary (t :: ts) (.path (t.text :: names)) 0
  | group {l r ts e c} (hl : l.isSymbol "(") (hr : r.isSymbol ")")
      (h : Derives Z (.level levels) ts e c) : Derives Z .primary (l :: (ts ++ [r])) e c
  | callNone {t l r} (ht : t.kind = .name) (hl : l.isSymbol "(") (hr : r.isSymbol ")")
      (hz : t.text ∈ Z) : Derives Z .primary [t, l, r] (.call t.text []) 0
  | call {t l r ts us x e c d} (ht : t.kind = .name) (hl : l.isSymbol "(") (hr : r.isSymbol ")")
      (h : Derives Z (.level levels) ts x c) (h' : Derives Z (.arguments t.text [x]) us e d) :
      Derives Z .primary (t :: l :: (ts ++ us ++ [r])) e (max c d)
  | last {f xs} : Derives Z (.arguments f xs) [] (.call f xs) 0
  | next {f xs t ts us y e c d} (ht : t.isSymbol ",") (h : Derives Z (.level levels) ts y c)
      (h' : Derives Z (.arguments f (xs ++ [y])) us e d) :
      Derives Z (.arguments f xs) (t :: (ts ++ us)) e (max c d)

/-- The tokens form the expression `e`. -/
def Forms (Z : List String) (ts : List Token) (e : Expr) : Prop :=
  ∃ c, Derives Z (.level levels) ts e c

/-! ### Expressions of several levels -/

variable {ts : List Token} {e : Expr} {c : ℕ}

/-- An expression of a tight level alone is one of all looser levels. -/
theorem Derives.level_append {ls : List (List BinaryOp)} (h : Derives Z (.level ls) ts e c) :
    ∀ looser, Derives Z (.level (looser ++ ls)) ts e c
  | [] => h
  | ops :: looser => by
    have hstop : Derives Z (.chain ops (looser ++ ls) e) [] e 0 := .stop
    have hlevel := Derives.level (h.level_append looser) hstop
    rwa [List.append_nil, Nat.max_eq_left (Nat.zero_le c)] at hlevel

/-- A unary expression alone is an expression of every level. -/
theorem Derives.level_of_unary (h : Derives Z .unary ts e c) (ls : List (List BinaryOp)) :
    Derives Z (.level ls) ts e c := by
  have hlevel := (Derives.operand h).level_append ls
  rwa [List.append_nil] at hlevel

/-- A primary expression alone is an expression. -/
theorem Derives.level_of_primary (h : Derives Z .primary ts e c) (ls : List (List BinaryOp)) :
    Derives Z (.level ls) ts e (1 + c) :=
  (Derives.plain h).level_of_unary ls

/-! ### Costs -/

/-- What a phrase of a class costs at least. -/
def Phrase.least : Phrase → ℕ
  | .level _ => 1
  | .unary => 1
  | _ => 0

theorem Derives.least_le {φ : Phrase} {ts : List Token} {e : Expr} {c : ℕ}
    (h : Derives Z φ ts e c) : φ.least ≤ c := by
  induction h with
  | operand _ ih => exact ih
  | level _ _ ih _ => exact Nat.le_trans ih (Nat.le_max_left _ _)
  | sign => exact Nat.le_add_right _ _
  | plain => exact Nat.le_add_right _ _
  | power => exact Nat.le_add_right _ _
  | _ => exact Nat.zero_le _

/-- How many tokens a phrase of a class has at least, beside one for each level that it opens. -/
def Phrase.spare : Phrase → ℕ
  | .primary => 1
  | _ => 0

/-- **A phrase has at least as many tokens as it costs**; a primary expression has one more. -/
theorem Derives.cost_le {φ : Phrase} {ts : List Token} {e : Expr} {c : ℕ}
    (h : Derives Z φ ts e c) : c + φ.spare ≤ ts.length := by
  induction h with
  | operand _ ih => exact ih
  | level _ _ ih ih' =>
    simp only [Phrase.spare, List.length_append] at ih ih' ⊢; omega
  | stop => exact le_rfl
  | more _ _ _ _ ih ih' =>
    simp only [Phrase.spare, List.length_cons, List.length_append] at ih ih' ⊢; omega
  | sign _ _ ih => simp only [Phrase.spare, List.length_cons] at ih ⊢; omega
  | plain _ ih => simp only [Phrase.spare] at ih ⊢; omega
  | power _ _ _ ih ih' =>
    simp only [Phrase.spare, List.length_cons, List.length_append] at ih ih' ⊢; omega
  | number => exact le_rfl
  | path => simp [Phrase.spare]
  | group _ _ _ ih =>
    simp only [Phrase.spare, List.length_cons, List.length_append, List.length_nil] at ih ⊢; omega
  | callNone => simp [Phrase.spare]
  | call _ _ _ _ _ ih ih' =>
    simp only [Phrase.spare, List.length_cons, List.length_append, List.length_nil] at ih ih' ⊢
    omega
  | last => exact le_rfl
  | next _ _ _ ih ih' =>
    simp only [Phrase.spare, List.length_cons, List.length_append] at ih ih' ⊢; omega

theorem Derives.ne_nil {ls : List (List BinaryOp)} {ts : List Token} {e : Expr} {c : ℕ}
    (h : Derives Z (.level ls) ts e c) : ts ≠ [] := by
  rintro rfl
  have h1 : 1 ≤ c := h.least_le
  have h2 : c + 0 ≤ 0 := h.cost_le
  omega

end Formula.Grammar
