import TurtleGraphics.Number.Binary64

/-!
# TurtleGraphics.Number.Decimal

Decimal numbers and the double nearest to each.

* `Decimal`          : a whole number times a power of ten.
* `Decimal.bits`     : the magnitude nearest to a decimal.
* `Decimal.toFloat`  : the double of a given sign nearest to a decimal.

An exponent can be as long as a script makes it, so exponents that settle the answer alone are
answered without raising ten to them.
-/

namespace TurtleGraphics.Number

/-- The number `digits * 10 ^ exponent`. -/
structure Decimal where
  digits : Nat
  exponent : Int
deriving Repr, DecidableEq

namespace Decimal

/-- No decimal with a higher exponent and a digit other than zero is below infinity. -/
def highestExponent : Nat := 400

/-- The magnitude nearest to a decimal, ties to even. -/
def bits : Decimal → Nat
  | ⟨0, _⟩ => 0
  | ⟨digits + 1, .ofNat e⟩ =>
    if highestExponent < e then infinityBits
    else nearestBits ((digits + 1) * power 10 e * unitsPerOne) 1
  | ⟨digits + 1, .negSucc e⟩ =>
    if highestExponent + (digits + 1).log2 < e then 0
    else nearestBits ((digits + 1) * unitsPerOne) (power 10 (e + 1))

/-- The double nearest to a decimal, with the sign given apart so that zero has one too. -/
def toFloat (negative : Bool) (d : Decimal) : Float :=
  ofMagnitude negative d.bits

end Decimal

end TurtleGraphics.Number
