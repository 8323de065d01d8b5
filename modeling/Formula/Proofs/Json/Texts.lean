import Formula.Json.Value
import Formula.Proofs.Decimal.Plain

/-!
# The grammar of JSON texts

A *value* is a word, a number, a string, or a list in brackets whose elements stand between commas; the elements of
an object are members, a key and a value with a colon between them. Blanks may stand before and behind each of the
parts. `Derives` says which characters form a value, an element or a list of elements.

The grammar of strings is told twice. Where a string is only passed over, any four hexadecimal digits may follow the
mark of a hexadecimal escape (`IsString`). A string that denotes a text (`Denotes`) needs more: a first half of a
surrogate pair has to be followed by a second half, and a second half may not stand alone.
-/

namespace Formula.Json

/-! ### Blanks and ends -/

/-- Blanks alone. -/
def Blanks (cs : List Char) : Prop :=
  ∀ c ∈ cs, isBlank c = true

/-- What may follow a value: nothing, a blank, a comma or a mark that closes. -/
def Ends (rest : List Char) : Prop :=
  ∀ c ∈ rest.head?, isBlank c = true ∨ c ∈ [',', ']', '\x7d']

/-! ### Strings -/

/-- Four hexadecimal digits, and the number that they write. -/
inductive Quad : List Char → ℕ → Prop where
  | mk {a b c d : Char} {i j k l : ℕ} (ha : hexDigit? a = some i) (hb : hexDigit? b = some j)
      (hc : hexDigit? c = some k) (hd : hexDigit? d = some l) : Quad [a, b, c, d] (((i * 16 + j) * 16 + k) * 16 + l)

/-- A hexadecimal escape behind its mark, and the character that it denotes: one that is no half of a surrogate
pair, or both halves of a pair. -/
inductive CodePoint : List Char → Char → Prop where
  | single {cs : List Char} {n : ℕ} (h : Quad cs n) (hlow : isLowSurrogate n = false) (hhigh : isHighSurrogate n = false) :
      CodePoint cs (Char.ofNat n)
  | pair {cs ds : List Char} {n m : ℕ} (h : Quad cs n) (hhigh : isHighSurrogate n = true) (h' : Quad ds m)
      (hlow : isLowSurrogate m = true) :
      CodePoint (cs ++ '\\' :: 'u' :: ds) (Char.ofNat (0x10000 + (n - 0xD800) * 0x400 + (m - 0xDC00)))

/-- A hexadecimal escape behind its mark, whatever it denotes; a letter stands in its place. -/
inductive Undecoded : List Char → Char → Prop where
  | mk {cs : List Char} {n : ℕ} (h : Quad cs n) : Undecoded cs 'u'

/-- **What stands between quotation marks**, and what it stands for, where `unicode` tells this of the hexadecimal
escapes. -/
inductive Spells (unicode : List Char → Char → Prop) : List Char → List Char → Prop where
  | nil : Spells unicode [] []
  | plain {c : Char} {cs ts : List Char} (hmark : c ≠ '"') (hescape : c ≠ '\\') (hcontrol : ¬ c < ' ')
      (h : Spells unicode cs ts) : Spells unicode (c :: cs) (c :: ts)
  | short {c d : Char} {cs ts : List Char} (hd : shortEscape? c = some d) (h : Spells unicode cs ts) :
      Spells unicode ('\\' :: c :: cs) (d :: ts)
  | unicode {d : Char} {cs ds ts : List Char} (hd : unicode ds d) (h : Spells unicode cs ts) :
      Spells unicode ('\\' :: 'u' :: (ds ++ cs)) (d :: ts)

/-- The characters between the quotation marks denote the text. -/
def Denotes (cs : List Char) (text : String) : Prop :=
  Spells CodePoint cs text.toList

/-- The characters may stand between quotation marks. -/
def IsString (cs : List Char) : Prop :=
  ∃ ts, Spells Undecoded cs ts

/-! ### Numbers -/

/-- One digit or more. -/
structure Digits (cs : List Char) : Prop where
  nonempty : cs ≠ []
  digits : ∀ c ∈ cs, c.isDigit = true

/-- One digit or more, without needless zeros. -/
structure Whole (cs : List Char) : Prop extends Digits cs where
  shortest : cs.head? = some '0' → cs = ['0']

/-- The digits behind a point, or nothing. -/
inductive Fraction : List Char → Prop where
  | none : Fraction []
  | some {cs : List Char} (h : Digits cs) : Fraction ('.' :: cs)

/-- An exponent, or nothing. -/
inductive Exponent : List Char → Prop where
  | none : Exponent []
  | plain {e : Char} {cs : List Char} (he : e = 'e' ∨ e = 'E') (h : Digits cs) : Exponent (e :: cs)
  | signed {e s : Char} {cs : List Char} (he : e = 'e' ∨ e = 'E') (hs : s = '+' ∨ s = '-') (h : Digits cs) :
      Exponent (e :: s :: cs)

/-- A number without a sign. -/
inductive Unsigned : List Char → Prop where
  | mk {is fs es : List Char} (hi : Whole is) (hf : Fraction fs) (he : Exponent es) : Unsigned (is ++ (fs ++ es))

/-- A number. -/
inductive IsNumber : List Char → Prop where
  | plain {cs : List Char} (h : Unsigned cs) : IsNumber cs
  | negative {cs : List Char} (h : Unsigned cs) : IsNumber ('-' :: cs)

/-! ### Values -/

/-- The two pairs of brackets. -/
inductive Bracket where
  | square
  | curly

/-- The bracket that opens. -/
def Bracket.opening : Bracket → Char
  | .square => '['
  | .curly => '\x7b'

/-- The bracket that closes. -/
def Bracket.closing : Bracket → Char
  | .square => ']'
  | .curly => '\x7d'

/-- The classes of phrases. -/
inductive Phrase where
  /-- A value. -/
  | value
  /-- An element of a list in these brackets, with the blanks around it. -/
  | element (b : Bracket)
  /-- The elements of a list in these brackets, at least one. -/
  | elements (b : Bracket)

/-- **The grammar.** -/
inductive Derives : Phrase → List Char → Prop where
  | word {cs} (h : cs ∈ ["null".toList, "true".toList, "false".toList]) : Derives .value cs
  | number {cs} (h : IsNumber cs) : Derives .value cs
  | string {cs} (h : IsString cs) : Derives .value ('"' :: (cs ++ ['"']))
  | empty {w} (b : Bracket) (hw : Blanks w) : Derives .value (b.opening :: (w ++ [b.closing]))
  | filled {cs} (b : Bracket) (h : Derives (.elements b) cs) : Derives .value (b.opening :: (cs ++ [b.closing]))
  | item {w cs w'} (hw : Blanks w) (h : Derives .value cs) (hw' : Blanks w') : Derives (.element .square) (w ++ (cs ++ w'))
  | member {w ds w' cs} (hw : Blanks w) (hk : IsString ds) (hw' : Blanks w') (h : Derives (.element .square) cs) :
      Derives (.element .curly) (w ++ '"' :: (ds ++ '"' :: (w' ++ ':' :: cs)))
  | last {b : Bracket} {cs} (h : Derives (.element b) cs) : Derives (.elements b) cs
  | more {b : Bracket} {cs ds} (h : Derives (.element b) cs) (h' : Derives (.elements b) ds) :
      Derives (.elements b) (cs ++ ',' :: ds)

end Formula.Json
