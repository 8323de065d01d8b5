import Formula.Text.Extending
import Formula.Text.Invisible

/-!
# Characters and texts as they are shown in messages

A character that cannot be seen, or that would merge with its neighbour, is shown as `\u{…}` with
its code point in hexadecimal; NUL, tab, carriage return, line feed, the quotation mark and the
backslash have short forms.  `escape` shows a single character that stands between apostrophes and
therefore escapes the apostrophe too; `quoted` shows a whole text between quotation marks, where an
apostrophe stands for itself.
-/

namespace Formula.Text

/-- Whether a character has a visible form of its own; the space counts as visible. -/
def isVisible (c : Char) : Bool :=
  c = ' ' || !invisible.contains c

/-- The code point in hexadecimal between braces. -/
def codePointEscape (c : Char) : String :=
  "\\u\x7b" ++ String.ofList (Nat.toDigits 16 c.toNat) ++ "\x7d"

/-- A character inside a quoted text. -/
def escapeQuoted (c : Char) : String :=
  match c with
  | '\x00' => "\\0"
  | '\t' => "\\t"
  | '\r' => "\\r"
  | '\n' => "\\n"
  | '\\' => "\\\\"
  | '"' => "\\\""
  | c =>
    if extending.contains c || !isVisible c then codePointEscape c else String.singleton c

/-- A character that is shown alone, between apostrophes. -/
def escape (c : Char) : String :=
  if c = '\'' then "\\'" else escapeQuoted c

/-- A text between quotation marks. -/
def quoted (s : String) : String :=
  "\"" ++ String.join (s.toList.map escapeQuoted) ++ "\""

end Formula.Text
