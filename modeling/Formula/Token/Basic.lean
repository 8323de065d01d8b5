/-!
# Tokens

A token is a piece of source text with its class and the byte offset at which it begins.  Names and
numbers stand for themselves, symbols are operators and punctuation, and a *quoted* token is the
text between a pair of square brackets, which do not belong to the text.
-/

namespace Formula

/-- The class of a token. -/
inductive Token.Kind where
  /-- A name: letters, numerals and underscores, not beginning with a numeral. -/
  | name
  /-- An unsigned number such as `12.3e6`. -/
  | number
  /-- An operator or a piece of punctuation. -/
  | symbol
  /-- The text between square brackets. -/
  | quoted
deriving DecidableEq, Repr

/-- A token of a formula. -/
structure Token where
  /-- The class. -/
  kind : Token.Kind
  /-- The text, without the brackets of a quoted token. -/
  text : String
  /-- The byte offset of the first character. -/
  position : Nat
deriving DecidableEq, Repr

namespace Token

/-- How messages name a class. -/
def Kind.describe : Kind → String
  | .name => "variable"
  | .number => "number"
  | .symbol => "symbol"
  | .quoted => "quoted segment"

/-- Whether the token is the symbol `s`. -/
def isSymbol (t : Token) (s : String) : Bool :=
  t.kind = .symbol && t.text = s

theorem isSymbol_iff {t : Token} {s : String} :
    t.isSymbol s = true ↔ t.kind = .symbol ∧ t.text = s := by
  simp [isSymbol]

/-- Whether the token may begin a path. -/
def isRoot (t : Token) : Bool :=
  t.kind = .quoted || t.kind = .name

/-- The token between apostrophes, as messages show it. -/
def display (t : Token) : String :=
  match t.kind with
  | .quoted => "'[" ++ t.text ++ "]'"
  | _ => "'" ++ t.text ++ "'"

/-- The byte offset just behind the token; the brackets of a quoted token count. -/
def stop (t : Token) : Nat :=
  match t.kind with
  | .quoted => t.position + t.text.utf8ByteSize + 2
  | _ => t.position + t.text.utf8ByteSize

end Token

end Formula
