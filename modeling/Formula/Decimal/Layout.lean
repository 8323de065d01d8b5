import Formula.Decimal.Shortest

/-!
# Writing a number

The digits of a number can be laid out with its point in place (`positional`) or behind the first
digit, with an exponent (`exponential`).  A `Format` collects the decisions that one kind of output
makes: where the point may stand for a positional layout, what is added to a whole number, and which
way a tie between two shortest decimals goes.
-/

namespace Formula.Decimal

/-- The decimal digits of a natural number. -/
def digitsOf (n : Nat) : List Char :=
  Nat.toDigits 10 n

/-- The place of the point, counted in digits from the first one: `0` for `0.25`, `1` for `2.5`. -/
def Scaled.point (d : Scaled) : Int :=
  (digitsOf d.coefficient).length + d.exponent

/-- The digits with the point in place; `whole` is added to a number without a fraction. -/
def Scaled.positional (d : Scaled) (whole : String) : String :=
  let digits := digitsOf d.coefficient
  if 0 ≤ d.exponent then
    String.ofList (digits ++ List.replicate d.exponent.toNat '0') ++ whole
  else if 0 < d.point then
    String.ofList (digits.take d.point.toNat ++ '.' :: digits.drop d.point.toNat)
  else
    String.ofList ('0' :: '.' :: List.replicate (-d.point).toNat '0' ++ digits)

/-- The digits with a point behind the first one, and an exponent with its sign. -/
def Scaled.exponential (d : Scaled) : String :=
  let digits := digitsOf d.coefficient
  let fraction := if digits.length ≤ 1 then [] else '.' :: digits.drop 1
  let e := d.point - 1
  String.ofList (digits.take 1 ++ fraction ++ 'e' :: (if e < 0 then '-' else '+') ::
    digitsOf e.natAbs)

/-- What one kind of output decides about its numbers. -/
structure Format where
  /-- Which of two equally near shortest decimals is written. -/
  tie : Tie
  /-- What is added to a number without a fraction. -/
  whole : String
  /-- For which places of the point a number is written positionally. -/
  isPositional : Int → Bool

/-- A finite number in a format, the sign of a negative zero included. -/
def Format.write (f : Format) (x : Float) : String :=
  let d := shortest f.tie (magnitude x)
  (if isNegative x then "-" else "") ++
    if f.isPositional d.point then d.positional f.whole else d.exponential

/-- Plain numbers: always positional, with nothing behind a whole number, ties upwards. -/
def plain : Format := ⟨.up, "", fun _ => true⟩

/-- A number as it stands in formulas and messages; the three special values are words. -/
def display (x : Float) : String :=
  if x.isNaN then "NaN"
  else if x.isInf then (if isNegative x then "-inf" else "inf")
  else plain.write x

end Formula.Decimal
