import Formula.Json.Number

/-!
# Values that are not wanted

A value under a key that nobody asks for is skipped, whatever it is and however deep it is nested;
it only has to be JSON.  Where a value of another form is wanted, `mismatched` says what is wrong: a
text, a number or a word is read to its end first, so a fault inside it is found, but an array or an
object is refused at its opening mark.
-/

namespace Formula.Json

/-! ### Skipping -/

/-- Consumes items separated by commas, at least one, and the mark `close` behind them.  `fuel`
bounds the number of items. -/
def skipItems (close : Char) (item : List Char → Except JsonError (List Char)) :
    Nat → List Char → Except JsonError (List Char)
  | 0, _ => .error .truncated
  | fuel + 1, cs => do
    match skipBlanks (← item cs) with
    | [] => .error .truncated
    | c :: rest =>
      if c = ',' then skipItems close item fuel rest
      else if c = close then .ok rest
      else .error .malformed

/-- Consumes items separated by commas, perhaps none, and the mark `close` behind them. -/
def skipBracketed (close : Char) (item : List Char → Except JsonError (List Char))
    (cs : List Char) : Except JsonError (List Char) :=
  match skipBlanks cs with
  | [] => .error .truncated
  | c :: rest => if c = close then .ok rest else skipItems close item (cs.length + 1) (c :: rest)

/-- Consumes a key, a colon and a value. -/
def skipMember (value : List Char → Except JsonError (List Char)) (cs : List Char) :
    Except JsonError (List Char) := do
  let ((), cs) ← mark '"' cs
  let ((), cs) ← mark ':' (← skipString cs)
  value cs

/-- Consumes a value nested at most `fuel` deep. -/
def skipNested : Nat → List Char → Except JsonError (List Char)
  | 0, _ => .error .truncated
  | fuel + 1, cs =>
    match skipBlanks cs with
    | [] => .error .truncated
    | c :: rest =>
      if c = 'n' then (word ['u', 'l', 'l'] rest).map (·.2)
      else if c = 't' then (word ['r', 'u', 'e'] rest).map (·.2)
      else if c = 'f' then (word ['a', 'l', 's', 'e'] rest).map (·.2)
      else if c = '-' then skipUnsigned rest
      else if c.isDigit then skipUnsigned (c :: rest)
      else if c = '"' then skipString rest
      else if c = '[' then skipBracketed ']' (skipNested fuel) rest
      else if c = '\x7b' then skipBracketed '\x7d' (skipMember (skipNested fuel)) rest
      else .error .malformed

/-- **Consumes any value.**  A value is nested less deep than the text is long. -/
def skipValue (cs : List Char) : Except JsonError (List Char) :=
  skipNested (cs.length + 1) cs

/-! ### Refusing -/

/-- The fault of the value that begins with `c`, where a value of another form is wanted. -/
def mismatched {α : Type} (c : Char) (rest : List Char) : Except JsonError α :=
  let refuse (scanned : Except JsonError Unit) : Except JsonError α := do
    scanned
    .error .mismatch
  if c = 'n' then refuse ((word ['u', 'l', 'l'] rest).map fun _ => ())
  else if c = 't' then refuse ((word ['r', 'u', 'e'] rest).map fun _ => ())
  else if c = 'f' then refuse ((word ['a', 'l', 's', 'e'] rest).map fun _ => ())
  else if c = '-' || c.isDigit then refuse ((number (c :: rest)).map fun _ => ())
  else if c = '"' then refuse ((string rest).map fun _ => ())
  else if c = '[' || c = '\x7b' then .error .mismatch
  else .error .malformed

/-! ### Wanted values -/

/-- A truth value. -/
def bool : Scan Bool := fun cs =>
  match skipBlanks cs with
  | [] => .error .truncated
  | c :: rest =>
    if c = 't' then (word ['r', 'u', 'e'] rest).map fun r => (true, r.2)
    else if c = 'f' then (word ['a', 'l', 's', 'e'] rest).map fun r => (false, r.2)
    else mismatched c rest

/-- Any number. -/
def anyNumber : Scan Number := fun cs =>
  match skipBlanks cs with
  | [] => .error .truncated
  | c :: rest => if c = '-' || c.isDigit then number (c :: rest) else mismatched c rest

/-- A number that is written with digits alone and lies below `2 ^ 64`. -/
def natural : Scan Nat := fun cs => do
  match ← anyNumber cs with
  | (.natural n, rest) => .ok (n, rest)
  | (.float _, _) => .error .mismatch

/-- A double. -/
def float : Scan Float := fun cs =>
  (anyNumber cs).map fun r => (r.1.toFloat, r.2)

end Formula.Json
