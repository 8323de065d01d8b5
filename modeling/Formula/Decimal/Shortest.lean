import Formula.Decimal.Binary64

/-!
# The shortest decimal that reads back

Among the decimals that are nearest to a given double and to no other, the shortest one is sought,
and among the shortest the one nearest to the double.  For `n = 1, 2, …, 17` digits the two
neighbours of the double on the grid of `n`-digit decimals are tried; the first grid on which one of
them reads back decides.  If both do, the nearer one is taken, and if they are equally near the
choice is a `Tie` of the caller.  A double always has an exact decimal, which stands in should no
grid answer.
-/

namespace Formula.Decimal

/-- The number `coefficient · 10 ^ exponent`. -/
structure Scaled where
  /-- The digits as a natural number. -/
  coefficient : Nat
  /-- The power of ten. -/
  exponent : Int
deriving DecidableEq

/-- Which of two equally near decimals is taken. -/
inductive Tie where
  /-- The greater one. -/
  | up
  /-- The one whose last digit is even. -/
  | even

/-- The greater of the equally near `c` and `c + 1`, or the even one. -/
def Tie.choose (tie : Tie) (c : Nat) : Nat :=
  match tie with
  | .up => c + 1
  | .even => if c % 2 = 0 then c else c + 1

/-- The bits of the double nearest to a scaled number. -/
def Scaled.nearest (d : Scaled) : Nat :=
  if 0 ≤ d.exponent then Decimal.nearest (d.coefficient * Nat.pow 10 d.exponent.toNat) 1
  else Decimal.nearest d.coefficient (Nat.pow 10 (-d.exponent).toNat)

/-- The greatest `e` with `10 ^ e ≤ v`, for the positive double `v` with the given bits.  Since
`10 ^ 324` units exceed one, `v · 10 ^ 324` has `e + 325` digits before its point. -/
def leadingExponent (bits : Nat) : Int :=
  ((Nat.toDigits 10 (units bits * Nat.pow 10 324 / unitsPerOne)).length : Int) - 325

/-- The neighbour on the grid of the multiples of `10 ^ p` that reads back as the given bits: the
nearer one if both do. -/
def onGrid (tie : Tie) (bits : Nat) (p : Int) : Option Scaled :=
  let a := if 0 ≤ p then units bits else units bits * Nat.pow 10 (-p).toNat
  let b := if 0 ≤ p then unitsPerOne * Nat.pow 10 p.toNat else unitsPerOne
  let c := a / b
  let below : Scaled := ⟨c, p⟩
  let above : Scaled := ⟨c + 1, p⟩
  if below.nearest = bits then
    if above.nearest = bits then
      if 2 * (a % b) < b then some below
      else if 2 * (a % b) = b then some ⟨tie.choose c, p⟩
      else some above
    else some below
  else if above.nearest = bits then some above
  else none

/-- The first grid that answers, among those of `n`, `n + 1`, … digits; `fuel` of them are tried. -/
def firstGrid (tie : Tie) (bits : Nat) (top : Int) : Nat → Nat → Option Scaled
  | 0, _ => none
  | fuel + 1, n =>
    match onGrid tie bits (top - n + 1) with
    | some d => some d
    | none => firstGrid tie bits top fuel (n + 1)

/-- The exact decimal of a double: `2⁻¹⁰⁷⁴ = 5¹⁰⁷⁴ · 10⁻¹⁰⁷⁴`. -/
def exact (bits : Nat) : Scaled :=
  ⟨units bits * Nat.pow 5 1074, -1074⟩

/-- Moves zeros at the end of the coefficient into the exponent, at most `fuel` of them. -/
def Scaled.trim (d : Scaled) : Nat → Scaled
  | 0 => d
  | fuel + 1 =>
    if d.coefficient ≠ 0 ∧ d.coefficient % 10 = 0 then
      Scaled.trim ⟨d.coefficient / 10, d.exponent + 1⟩ fuel
    else d

/-- **The shortest decimal** of the finite double with the given bits. -/
def shortest (tie : Tie) (bits : Nat) : Scaled :=
  if bits = 0 then ⟨0, 0⟩
  else
    let d := ((firstGrid tie bits (leadingExponent bits) 17 1).getD (exact bits))
    d.trim (Nat.toDigits 10 d.coefficient).length

end Formula.Decimal
