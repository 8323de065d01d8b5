/-!
# The small parts of a JSON text

A `Scan` consumes characters from the front of a text, and either answers with a value and the
characters left or fails.  Three kinds of failure are told apart: the text ends too early, it is no
JSON, or it is JSON so far but does not have the expected form.  This module holds the parts without
structure: blanks, single marks, the words `null`, `true` and `false`, and string literals.
-/

namespace Formula

/-- The kind of failure of reading a JSON text. -/
inductive JsonError where
  /-- The text ends inside a value. -/
  | truncated
  /-- The text is no JSON, or a number in it is too great. -/
  | malformed
  /-- A value is not of the expected form, or a member is missing or repeated. -/
  | mismatch
deriving DecidableEq, Repr

/-- The name of the kind. -/
def JsonError.category : JsonError → String
  | .truncated => "Eof"
  | .malformed => "Syntax"
  | .mismatch => "Data"

namespace Json

/-- Consumes part of a text: a value and the characters left, or a failure. -/
abbrev Scan (α : Type) := List Char → Except JsonError (α × List Char)

/-- Whether a character may stand between the parts of a text. -/
def isBlank (c : Char) : Bool :=
  c = ' ' || c = '\n' || c = '\t' || c = '\r'

/-- The text without the blanks in front. -/
def skipBlanks (cs : List Char) : List Char :=
  cs.dropWhile isBlank

/-- Consumes blanks and then the character `mark`. -/
def mark (c : Char) : Scan Unit := fun cs =>
  match skipBlanks cs with
  | [] => .error .truncated
  | d :: rest => if d = c then .ok ((), rest) else .error .malformed

/-- Consumes the characters of `word`. -/
def word : List Char → Scan Unit
  | [], cs => .ok ((), cs)
  | _ :: _, [] => .error .truncated
  | c :: word', d :: cs => if d = c then word word' cs else .error .malformed

/-! ### String literals -/

/-- The value of a hexadecimal digit. -/
def hexDigit? (c : Char) : Option Nat :=
  if '0' ≤ c ∧ c ≤ '9' then some (c.toNat - '0'.toNat)
  else if 'a' ≤ c ∧ c ≤ 'f' then some (c.toNat - 'a'.toNat + 10)
  else if 'A' ≤ c ∧ c ≤ 'F' then some (c.toNat - 'A'.toNat + 10)
  else none

/-- Four hexadecimal digits.  A text of less than four bytes counts as ended too early, whatever it
holds. -/
def hexQuad : Scan Nat := fun cs =>
  match cs with
  | a :: b :: c :: d :: rest =>
    match hexDigit? a, hexDigit? b, hexDigit? c, hexDigit? d with
    | some a, some b, some c, some d => .ok (((a * 16 + b) * 16 + c) * 16 + d, rest)
    | _, _, _, _ => .error .malformed
  | _ =>
    if (String.ofList cs).utf8ByteSize < 4 then .error .truncated else .error .malformed

/-- Whether a number is the first half of a surrogate pair. -/
def isHighSurrogate (n : Nat) : Bool :=
  0xD800 ≤ n && n ≤ 0xDBFF

/-- Whether a number is the second half of a surrogate pair. -/
def isLowSurrogate (n : Nat) : Bool :=
  0xDC00 ≤ n && n ≤ 0xDFFF

/-- The character that a hexadecimal escape writes, which may be a pair of two escapes; the mark
`\u` of the first has been consumed. -/
def unicodeEscape : Scan Char := fun cs => do
  let (n, cs) ← hexQuad cs
  if isLowSurrogate n then .error .malformed
  else if isHighSurrogate n then
    let ((), cs) ← word ['\\', 'u'] cs
    let (m, cs) ← hexQuad cs
    if isLowSurrogate m then
      .ok (Char.ofNat (0x10000 + (n - 0xD800) * 0x400 + (m - 0xDC00)), cs)
    else .error .malformed
  else .ok (Char.ofNat n, cs)

/-- The characters with a short escape, by the letter of the escape. -/
def shortEscape? : Char → Option Char
  | '"' => some '"'
  | '\\' => some '\\'
  | '/' => some '/'
  | 'b' => some '\x08'
  | 'f' => some '\x0c'
  | 'n' => some '\n'
  | 'r' => some '\r'
  | 't' => some '\t'
  | _ => none

/-- The character that an escape writes; the backslash has been consumed. -/
def escaped (unicode : Scan Char) : Scan Char
  | [] => .error .truncated
  | c :: cs =>
    match shortEscape? c with
    | some d => .ok (d, cs)
    | none => if c = 'u' then unicode cs else .error .malformed

/-- The characters of a string literal up to its closing quotation mark, where `unicode` reads the
hexadecimal escapes.  `fuel` bounds their number. -/
def stringBody (unicode : Scan Char) : Nat → Scan (List Char)
  | 0, _ => .error .truncated
  | _ + 1, [] => .error .truncated
  | fuel + 1, c :: cs =>
    if c = '"' then .ok ([], cs)
    else if c = '\\' then do
      let (d, cs) ← escaped unicode cs
      let (ds, cs) ← stringBody unicode fuel cs
      .ok (d :: ds, cs)
    else if c < ' ' then .error .malformed
    else do
      let (ds, cs) ← stringBody unicode fuel cs
      .ok (c :: ds, cs)

/-- A string literal whose opening quotation mark has been consumed. -/
def string : Scan String := fun cs => do
  let (text, rest) ← stringBody unicodeEscape (cs.length + 1) cs
  .ok (String.ofList text, rest)

/-- A string literal that is only skipped: hexadecimal escapes need not make characters. -/
def skipString (cs : List Char) : Except JsonError (List Char) := do
  let (_, rest) ← stringBody (fun cs => (hexQuad cs).map fun r => ('u', r.2)) (cs.length + 1) cs
  .ok rest

end Json

end Formula
