import Formula.Text.Classes
import Formula.Text.Quoted
import Formula.Token.Basic

/-!
# Cutting a source into tokens

The source is read from left to right.  Blanks are skipped; at any other character an *item* begins,
a token or an error, and `itemAt` says which and how many more characters belong to it.  The length
of an item is the length of the longest text of its class that begins there: `numberLength`,
`nameLength` and `symbolLength` give it for the three classes without a closing mark.

* A character that begins no token is an item of its own, and the next item begins behind it.
* An opening bracket without a closing one is an item that reaches to the end.

`Item.ofSource` lists all items of a source, and `Token.ofSource` the tokens if no item is an error.
-/

namespace Formula

/-! ### Places where no token begins -/

/-- Why no token begins where one should. -/
inductive TokenFault where
  /-- A character that begins no token. -/
  | unrecognized (c : Char)
  /-- An opening bracket with no closing one behind it. -/
  | unterminated
deriving DecidableEq, Repr

/-- The text of a fault. -/
def TokenFault.message : TokenFault → String
  | .unrecognized c => "Unrecognized character '" ++ Text.escape c ++ "'"
  | .unterminated => "Unterminated '[' quoted segment"

/-- A place in the source where no token begins. -/
structure TokenError where
  /-- The byte offset of the place. -/
  position : Nat
  /-- What is wrong there. -/
  fault : TokenFault
deriving DecidableEq, Repr

/-- The error with its place. -/
def TokenError.describe (e : TokenError) : String :=
  "Tokenize error at position " ++ toString e.position ++ ": " ++ e.fault.message

/-- A token, or the reason why none begins here. -/
abbrev Item := Except TokenError Token

namespace Item

/-! ### Classes of characters -/

/-- Whether a character may begin a name. -/
def isNameStart (c : Char) : Bool :=
  Text.alphabetic.contains c || c = '_'

/-- Whether a character may continue a name. -/
def isNamePart (c : Char) : Bool :=
  Text.alphabetic.contains c || Text.numeric.contains c || c = '_'

/-- Whether a character is punctuation of the ASCII block. -/
def isPunctuation (c : Char) : Bool :=
  ('!' ≤ c && c ≤ '/') || (':' ≤ c && c ≤ '@') || ('[' ≤ c && c ≤ '\x60') ||
    ('\x7b' ≤ c && c ≤ '~')

/-! ### Lengths of items -/

/-- The number of digits at the front. -/
def digitsLength (cs : List Char) : Nat :=
  (cs.takeWhile Char.isDigit).length

/-- The length of a point with digits behind it, or zero. -/
def fractionLength : List Char → Nat
  | '.' :: cs => if digitsLength cs = 0 then 0 else 1 + digitsLength cs
  | _ => 0

/-- The length of a sign, or zero. -/
def signLength : List Char → Nat
  | '+' :: _ => 1
  | '-' :: _ => 1
  | _ => 0

/-- The length of an exponent mark with an optional sign and digits behind it, or zero. -/
def exponentLength : List Char → Nat
  | [] => 0
  | c :: cs =>
    let sign := signLength cs
    let digits := digitsLength (cs.drop sign)
    if (c = 'e' ∨ c = 'E') ∧ digits ≠ 0 then 1 + sign + digits else 0

/-- The length of the number at the front: digits, an optional fraction, an optional exponent. -/
def numberLength (cs : List Char) : Nat :=
  let whole := digitsLength cs
  let fraction := fractionLength (cs.drop whole)
  whole + fraction + exponentLength (cs.drop (whole + fraction))

/-- The length of the run of name characters at the front. -/
def nameLength (cs : List Char) : Nat :=
  (cs.takeWhile isNamePart).length

/-- The symbols of two characters. -/
def pairSymbols : List (Char × Char) :=
  [('&', '&'), ('|', '|'), ('=', '='), ('!', '='), ('<', '='), ('>', '=')]

/-- The length of the symbol at the front: two characters if they form a symbol, else one. -/
def symbolLength : List Char → Nat
  | c :: d :: _ => if (c, d) ∈ pairSymbols then 2 else 1
  | _ => 1

/-! ### Items -/

/-- The token of class `kind` made of the first `length` characters of `cs`, and how many of them
stand behind the first one. -/
def tokenAt (kind : Token.Kind) (position length : Nat) (cs : List Char) : Item × Nat :=
  (.ok ⟨kind, String.ofList (cs.take length), position⟩, length - 1)

/-- The quoted token at an opening bracket before `cs`, or an item that reaches to the end. -/
def quotedAt (position : Nat) (cs : List Char) : Item × Nat :=
  let text := cs.takeWhile (· ≠ ']')
  if text.length = cs.length then (.error ⟨position, .unterminated⟩, cs.length)
  else (.ok ⟨.quoted, String.ofList text, position⟩, text.length + 1)

/-- The item that begins with the character `c` before `cs`, and how many characters of `cs` belong
to it.  Its class is decided by `c` alone. -/
def itemAt (position : Nat) (c : Char) (cs : List Char) : Item × Nat :=
  if c = '[' then quotedAt position cs
  else if c.isDigit then tokenAt .number position (numberLength (c :: cs)) (c :: cs)
  else if isNameStart c then tokenAt .name position (nameLength (c :: cs)) (c :: cs)
  else if isPunctuation c then tokenAt .symbol position (symbolLength (c :: cs)) (c :: cs)
  else (.error ⟨position, .unrecognized c⟩, 0)

/-- The items of the characters, the first of which stands at the byte offset `position`; the first
`skip` characters belong to an item already listed. -/
def itemsFrom (skip position : Nat) : List Char → List Item
  | [] => []
  | c :: cs =>
    match skip with
    | skip + 1 => itemsFrom skip (position + c.utf8Size) cs
    | 0 =>
      if Text.blank.contains c then itemsFrom 0 (position + c.utf8Size) cs
      else
        let (item, more) := itemAt position c cs
        item :: itemsFrom more (position + c.utf8Size) cs

/-- **All items of a source**, from left to right. -/
def ofSource (source : String) : List Item :=
  itemsFrom 0 0 source.toList

/-- The tokens before the first error. -/
def tokensBefore : List Item → List Token
  | .ok t :: items => t :: tokensBefore items
  | _ => []

/-- The tokens if there is no error, else the first error. -/
def collect : List Item → Except TokenError (List Token)
  | [] => .ok []
  | .ok t :: items => (collect items).map (t :: ·)
  | .error e :: _ => .error e

end Item

/-- **The tokens of a source**, or its first error. -/
def Token.ofSource (source : String) : Except TokenError (List Token) :=
  Item.collect (Item.ofSource source)

end Formula
