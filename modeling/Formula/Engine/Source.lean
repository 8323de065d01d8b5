import Formula.Eval.Run
import Formula.Grammar.Whole
import Formula.Token.Items

/-!
# From source text to trees

A source is cut into tokens and the tokens are parsed; either stage may fail.  Every token found
before the first error is recorded.  `Expr.parse` and `Assignment.parse` read the standard dialect
and record the source itself as well.
-/

namespace Formula

/-- Why a source cannot be read. -/
inductive SourceError where
  /-- It cannot be cut into tokens. -/
  | token (error : TokenError)
  /-- Its tokens do not form what was asked for. -/
  | parse (error : ParseError)
deriving DecidableEq, Repr

namespace SourceError

/-- The byte offset at which the error was found. -/
def position : SourceError → Nat
  | .token e => e.position
  | .parse e => e.position

/-- The error with its place. -/
def describe : SourceError → String
  | .token e => e.describe
  | .parse e => e.describe

end SourceError

/-! ### Tokens -/

/-- The records of the tokens among some items. -/
def Item.records (items : List Item) : List LogEvent :=
  items.filterMap fun
    | .ok t => some (.token t)
    | .error _ => none

/-- The tokens of a source, each recorded as it is found. -/
def Token.read (source : String) : Run SourceError (List Token) :=
  ⟨(Token.ofSource source).mapError .token, [],
    (Item.tokensBefore (Item.ofSource source)).map .token⟩

section

variable {α : Type} {source : String} {f : List Token → Run SourceError α}

/-- What is made of a source is made of its tokens. -/
theorem Token.read_bind_of_ok {ts : List Token} (h : Token.ofSource source = .ok ts) :
    (Token.read source >>= f).result = (f ts).result := by
  have hread : (Token.read source).result = .ok ts := by
    rw [Token.read, h]
    rfl
  rw [Run.bind_of_ok hread]

/-- **A source is accepted if it has tokens and these are.** -/
theorem Token.read_bind_eq_ok_iff {read : List Token → Except ParseError α} {a : α}
    (hf : ∀ ts, (f ts).result = (read ts).mapError .parse) :
    (Token.read source >>= f).result = .ok a ↔
      ∃ ts, Token.ofSource source = .ok ts ∧ read ts = .ok a := by
  cases hts : Token.ofSource source with
  | error err =>
    have hread : (Token.read source).result = .error (.token err) := by
      rw [Token.read, hts]
      rfl
    rw [Run.bind_of_error hread]
    simp
  | ok ts =>
    have hmap : (read ts).mapError SourceError.parse = .ok a ↔ read ts = .ok a := by
      cases read ts with
      | ok b => exact ⟨fun h => (by cases h; rfl), fun h => (by cases h; rfl)⟩
      | error e => exact ⟨(nomatch ·), (nomatch ·)⟩
    rw [Token.read_bind_of_ok hts, hf, hmap]
    simp

end

/-! ### Trees -/

/-- The expression that a source writes in a dialect. -/
def Expr.ofSource (dialect : Dialect) (source : String) : Run SourceError Expr := do
  let tokens ← Token.read source
  Run.ofExcept ((Expr.ofTokens dialect tokens).mapError .parse)

/-- The assignment that a source writes in a dialect. -/
def Assignment.ofSource (dialect : Dialect) (source : String) : Run SourceError Assignment := do
  let tokens ← Token.read source
  Run.ofExcept ((Assignment.ofTokens dialect tokens).mapError .parse)

theorem Expr.ofSource_eq_ok_iff {dialect : Dialect} {source : String} {e : Expr} :
    (Expr.ofSource dialect source).result = .ok e ↔
      ∃ ts, Token.ofSource source = .ok ts ∧ Expr.ofTokens dialect ts = .ok e :=
  Token.read_bind_eq_ok_iff fun _ => rfl

theorem Assignment.ofSource_eq_ok_iff {dialect : Dialect} {source : String} {a : Assignment} :
    (Assignment.ofSource dialect source).result = .ok a ↔
      ∃ ts, Token.ofSource source = .ok ts ∧ Assignment.ofTokens dialect ts = .ok a :=
  Token.read_bind_eq_ok_iff fun _ => rfl

/-- **The expression that a source writes** in the standard dialect, with a record. -/
def Expr.parse (source : String) : Run SourceError Expr := do
  let tokens ← Token.read source
  Run.record (.parsing .expression source tokens.length)
  Run.ofExcept ((Expr.ofTokens .standard tokens).mapError .parse)

/-- **The assignment that a source writes** in the standard dialect, with a record. -/
def Assignment.parse (source : String) : Run SourceError Assignment := do
  let tokens ← Token.read source
  Run.record (.parsing .assignment source tokens.length)
  Run.ofExcept ((Assignment.ofTokens .standard tokens).mapError .parse)

end Formula
