import Formula.Decimal.Layout
import Formula.Json.Scanner

/-!
# Numbers in a JSON text

A number is read in one pass: a *significand* of at most 64 bits takes up digits as long as they fit,
further digits only move the power of ten, and the significand is then scaled by one multiplication
or by divisions.  The result may differ from the nearest double in its last bits.  A number beyond
the finite doubles is refused.

Writing gives the shortest digits that read back correctly rounded, whole numbers with `.0`, and an
exponent outside `10 ^ (-5) ≤ |x| < 10 ^ 16`.
-/

namespace Formula.Json

/-- A number as it was written. -/
inductive Number where
  /-- Digits alone, of a value below `2 ^ 64`. -/
  | natural (n : Nat)
  /-- Anything else. -/
  | float (x : Float)

/-- The number as a double. -/
def Number.toFloat : Number → Float
  | .natural n => Decimal.ofNat n
  | .float x => x

/-! ### Scaling -/

/-- The double nearest to a power of ten. -/
def powerOfTen (e : Nat) : Float :=
  Decimal.ofNat (Nat.pow 10 e)

/-- `f / 10 ^ e` for `1 ≤ e ≤ 308`, after dividing `f` by `10 ^ 308` as often as `blocks` says.  Zero
stays zero. -/
def scaleDown (e : Nat) : Nat → Float → Float
  | 0, f => f / powerOfTen e
  | blocks + 1, f =>
    if f == Decimal.zero then f else scaleDown e blocks (f / powerOfTen 308)

/-- The significand scaled by a power of ten, if the result is finite. -/
def scale (significand : Nat) (exponent : Int) : Except JsonError Float :=
  let f := Decimal.ofNat significand
  if exponent < 0 then
    let e := (-exponent).toNat
    let blocks := (e - 1) / 308
    .ok (scaleDown (e - 308 * blocks) blocks f)
  else if significand = 0 then .ok f
  else if 308 < exponent then .error .malformed
  else
    let x := f * powerOfTen exponent.toNat
    if x.isInf then .error .malformed else .ok x

/-! ### Reading -/

/-- The significand after the digits `ds` that fit, how many did, and the digits that did not. -/
def takeDigits (significand : Nat) : List Char → Nat × Nat × List Char
  | [] => (significand, 0, [])
  | d :: ds =>
    let next := significand * 10 + (d.toNat - '0'.toNat)
    if next < 18446744073709551616 then
      let (s, n, rest) := takeDigits next ds
      (s, n + 1, rest)
    else (significand, 0, d :: ds)

/-- The digits at the front. -/
def splitDigits (cs : List Char) : List Char × List Char :=
  (cs.takeWhile Char.isDigit, cs.dropWhile Char.isDigit)

/-- The exponent behind its mark: an optional sign and at least one digit. -/
def exponent : Scan Int := fun cs =>
  let (negative, cs) : Bool × List Char :=
    match cs with
    | '-' :: cs => (true, cs)
    | '+' :: cs => (false, cs)
    | cs => (false, cs)
  match splitDigits cs with
  | ([], []) => .error .truncated
  | ([], _ :: _) => .error .malformed
  | (digits, rest) =>
    let e := (takeAll digits : Int)
    .ok (if negative then -e else e, rest)
where
  /-- The natural number that digits write. -/
  takeAll (digits : List Char) : Nat :=
    digits.foldl (fun n c => 10 * n + (c.toNat - '0'.toNat)) 0

/-- What follows the digits of a significand: an exponent, or nothing. -/
def withExponent (significand : Nat) (e : Int) : Scan Float := fun cs =>
  match cs with
  | c :: rest =>
    if c = 'e' ∨ c = 'E' then do
      let (d, rest) ← exponent rest
      let x ← scale significand (e + d)
      .ok (x, rest)
    else (scale significand e).map (·, cs)
  | [] => (scale significand e).map (·, cs)

/-- What follows the point of a number: at least one digit, then perhaps an exponent. -/
def withFraction (significand : Nat) (e : Int) : Scan Float := fun cs =>
  match splitDigits cs with
  | ([], []) => .error .truncated
  | ([], _ :: _) => .error .malformed
  | (digits, rest) =>
    let (s, n, _) := takeDigits significand digits
    withExponent s (e - n) rest

/-- What follows the whole digits: `e` of them did not fit into the significand. -/
def withRest (significand : Nat) (e : Int) : Scan Float
  | '.' :: cs => withFraction significand e cs
  | cs => withExponent significand e cs

/-- Whether a text goes on like a number that is no whole one. -/
def goesOn : List Char → Bool
  | c :: _ => c = '.' || c = 'e' || c = 'E'
  | [] => false

/-- An unsigned number. -/
def unsigned : Scan Number := fun cs =>
  match splitDigits cs with
  | ([], []) => .error .truncated
  | ([], _ :: _) => .error .malformed
  | ('0' :: _ :: _, _) => .error .malformed
  | (digits, rest) =>
    let (s, _, left) := takeDigits 0 digits
    if left.isEmpty && !goesOn rest then .ok (.natural s, rest)
    else do
      let (x, rest) ← withRest s left.length rest
      .ok (.float x, rest)

/-- **A number**, with its sign. -/
def number : Scan Number
  | '-' :: cs => do
    let (n, rest) ← unsigned cs
    .ok (.float (-n.toFloat), rest)
  | cs => unsigned cs

/-! ### Skipping -/

/-- Consumes at least one digit. -/
def skipDigits (cs : List Char) : Except JsonError (List Char) :=
  match splitDigits cs with
  | ([], _) => .error .malformed
  | (_, rest) => .ok rest

/-- Consumes an exponent, if there is one. -/
def skipExponent : List Char → Except JsonError (List Char)
  | c :: cs =>
    if c = 'e' ∨ c = 'E' then
      match cs with
      | '+' :: cs => skipDigits cs
      | '-' :: cs => skipDigits cs
      | cs => skipDigits cs
    else .ok (c :: cs)
  | [] => .ok []

/-- Consumes what follows the whole digits. -/
def skipFraction : List Char → Except JsonError (List Char)
  | '.' :: cs => do skipExponent (← skipDigits cs)
  | cs => skipExponent cs

/-- Consumes an unsigned number without computing it; here the end of the text is no special
case. -/
def skipUnsigned (cs : List Char) : Except JsonError (List Char) :=
  match splitDigits cs with
  | ([], _) => .error .malformed
  | ('0' :: _ :: _, _) => .error .malformed
  | (_, rest) => skipFraction rest

/-! ### Writing -/

/-- Numbers in JSON texts: ties go to the even digit, whole numbers end in `.0`, and the point stands
at most four zeros before and sixteen digits behind the first digit. -/
def format : Decimal.Format :=
  ⟨.even, ".0", fun point => -5 < point ∧ point ≤ 16⟩

/-- A number in a JSON text; there is no way to write one that is not finite. -/
def writeNumber (x : Float) : String :=
  if x.isFinite then format.write x else "null"

end Formula.Json
