/-!
# Double precision numbers as whole multiples of the least one

Every finite double is a sign and a whole number of *units* of `2⁻¹⁰⁷⁴`, the least positive double.
The 63 bits below the sign bit number the magnitudes in increasing order: the first `2⁵³` of them
are the multiples `0, 1, 2, …` of the unit, and from there on each block of `2⁵²` has twice the step
of the block before.  `units` reads the number of units off the bits, and `nearest` finds the bits
of the double nearest to a quotient of naturals, a tie going to the even neighbour and everything
from half a step beyond the greatest finite double on to infinity.

All of this is arithmetic on `Nat`; only `toFloat` and `magnitude` touch the type `Float`.
-/

namespace Formula.Decimal

/-- The number of magnitudes in a block of equal step. -/
def binade : Nat := Nat.pow 2 52

/-- The number of units in one. -/
def unitsPerOne : Nat := Nat.pow 2 1074

/-- The bit of the sign. -/
def signBit : Nat := Nat.pow 2 63

/-- The bits of infinity, the first number that is no finite magnitude. -/
def infinityBits : Nat := 2047 * binade

/-- The number of units of `2⁻¹⁰⁷⁴` in the magnitude with the given bits. -/
def units (bits : Nat) : Nat :=
  if bits < 2 * binade then bits
  else (binade + bits % binade) * Nat.pow 2 (bits / binade - 1)

/-- The whole number nearest to `a / b`; of two equally near ones the even one. -/
def roundHalfEven (a b : Nat) : Nat :=
  let q := a / b
  let r := a % b
  if 2 * r < b ∨ (2 * r = b ∧ q % 2 = 0) then q else q + 1

/-- The bits of the magnitude nearest to `a / b`.  The step at this height is `2 ^ k` units; the
rounded number of steps counts on from the bits at which blocks of this step would begin. -/
def nearest (a b : Nat) : Nat :=
  let k := Nat.log2 (a * unitsPerOne / b) - 52
  min (k * binade + roundHalfEven (a * unitsPerOne) (b * Nat.pow 2 k)) infinityBits

/-- The double with the given sign and magnitude. -/
def toFloat (negative : Bool) (bits : Nat) : Float :=
  Float.ofBits (UInt64.ofNat (if negative then signBit + bits else bits))

/-- The bits of a double without its sign. -/
def magnitude (x : Float) : Nat :=
  x.toBits.toNat % signBit

/-- Whether the sign bit of a double is set. -/
def isNegative (x : Float) : Bool :=
  signBit ≤ x.toBits.toNat

/-- The double nearest to a natural number. -/
def ofNat (n : Nat) : Float :=
  toFloat false (nearest n 1)

/-- The double zero, with a positive sign. -/
def zero : Float := toFloat false 0

/-- The double one. -/
def one : Float := toFloat false (1023 * binade)

/-- The double that is no number. -/
def notANumber : Float := toFloat false (infinityBits + binade / 2)

/-- The double above all finite ones, or with a sign below them. -/
def infinity (negative : Bool) : Float := toFloat negative infinityBits

end Formula.Decimal
