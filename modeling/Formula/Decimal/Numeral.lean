import Formula.Decimal.Binary64

/-!
# Reading a number

A numeral is an optional sign, then digits that may hold one point, then an optional exponent: `e`
or `E`, an optional sign, digits.  At least one digit must stand before the exponent, on either side
of the point.  The words `inf`, `infinity` and `nan` are numerals too, in any mixture of cases.
Nothing may precede or follow.

The value is the double nearest to the written number, ties going to the even neighbour.
-/

namespace Formula.Decimal

/-- Digits and a power of ten: the number `digits · 10 ^ exponent`. -/
structure Numeral where
  /-- The digits, most significant first. -/
  digits : List Char
  /-- The power of ten that the digits are multiplied by. -/
  exponent : Int

/-- The natural number that decimal digits write. -/
def natOfDigits (digits : List Char) : Nat :=
  digits.foldl (fun n c => 10 * n + (c.toNat - '0'.toNat)) 0

/-- The bits of the double nearest to a numeral.  The outer cases only keep the powers of ten small:
from `10 ^ 310` on every number is nearest to infinity, and below `10 ^ (-330)` to zero. -/
def Numeral.nearest (n : Numeral) : Nat :=
  let coefficient := natOfDigits n.digits
  if coefficient = 0 then 0
  else if 310 < n.exponent then infinityBits
  else if n.exponent + n.digits.length < -330 then 0
  else if 0 ≤ n.exponent then Decimal.nearest (coefficient * Nat.pow 10 n.exponent.toNat) 1
  else Decimal.nearest coefficient (Nat.pow 10 (-n.exponent).toNat)

/-- An optional sign, and whether it is a minus. -/
def splitSign : List Char → Bool × List Char
  | '-' :: cs => (true, cs)
  | '+' :: cs => (false, cs)
  | cs => (false, cs)

/-- The exponent part, which extends to the end and may be missing. -/
def exponent? : List Char → Option Int
  | [] => some 0
  | c :: cs =>
    let (negative, digits) := splitSign cs
    if (c = 'e' ∨ c = 'E') ∧ digits ≠ [] ∧ digits.all Char.isDigit then
      some (if negative then -(natOfDigits digits : Int) else natOfDigits digits)
    else none

/-- The digits behind a point, if there is one, and what follows them. -/
def splitFraction : List Char → List Char × List Char
  | '.' :: cs => (cs.takeWhile Char.isDigit, cs.dropWhile Char.isDigit)
  | cs => ([], cs)

/-- An unsigned numeral. -/
def Numeral.ofChars? (cs : List Char) : Option Numeral :=
  let whole := cs.takeWhile Char.isDigit
  let (fraction, rest) := splitFraction (cs.dropWhile Char.isDigit)
  if whole = [] ∧ fraction = [] then none
  else (exponent? rest).map fun e => ⟨whole ++ fraction, e - fraction.length⟩

/-- The bits of an unsigned number, which may be one of the three words. -/
def magnitude? (cs : List Char) : Option Nat :=
  let word := cs.map Char.toLower
  if word = "inf".toList ∨ word = "infinity".toList then some infinityBits
  else if word = "nan".toList then some (infinityBits + binade / 2)
  else (Numeral.ofChars? cs).map Numeral.nearest

/-- **Reading a number**: the nearest double, or nothing if the text is no numeral. -/
def read? (s : String) : Option Float :=
  let (negative, cs) := splitSign s.toList
  (magnitude? cs).map (toFloat negative)

end Formula.Decimal
