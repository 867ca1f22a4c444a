/-!
# TurtleGraphics.Number.Binary64

Doubles seen as exact numbers. A finite double is a whole number of *units* of 2^-1074, the
smallest positive double, and its magnitude is the 63-bit pattern below the sign.

* `units`       : the number of units in a magnitude.
* `nearestBits` : the magnitude nearest to a quotient of units, ties to the even pattern.
* `Parts`       : a double taken apart into its sign and what is behind it.
* `whole?`      : the whole number that a double stands for, if it does.
* `half?`       : half of a whole number as a double.
-/

namespace TurtleGraphics.Number

/-- A power of a natural number. -/
def power (base exponent : Nat) : Nat := Nat.pow base exponent

/-- The weight of the lowest exponent bit in a magnitude. -/
def mantissaSpan : Nat := power 2 52

/-- The weight of the sign above a magnitude. -/
def signSpan : Nat := power 2 63

/-- The number of units in one. -/
def unitsPerOne : Nat := power 2 1074

/-- The magnitude of infinity, the first that is not finite. -/
def infinityBits : Nat := 2047 * mantissaSpan

/-- The value of a finite magnitude in units of 2^-1074. -/
def units (bits : Nat) : Nat :=
  if bits / mantissaSpan = 0 then bits % mantissaSpan
  else (bits % mantissaSpan + mantissaSpan) * power 2 (bits / mantissaSpan - 1)

/-- The whole number nearest to `num / den`; a tie goes to the even one. -/
def roundHalfEven (num den : Nat) : Nat :=
  let q := num / den
  let r := num % den
  if 2 * r < den then q
  else if den < 2 * r then q + 1
  else q + q % 2

/-- The magnitude nearest to `num / den` units, infinity if that lies beyond the finite ones. -/
def nearestBits (num den : Nat) : Nat :=
  let shift := (num / den).log2 - 52
  min (shift * mantissaSpan + roundHalfEven num (den * power 2 shift)) infinityBits

/-- A double taken apart. -/
inductive Parts where
  | finite (negative : Bool) (bits : Nat)
  | infinite (negative : Bool)
  | notANumber
deriving Repr, DecidableEq

/-- The parts of a double. -/
def Parts.of (x : Float) : Parts :=
  let n := x.toBits.toNat
  let negative := decide (signSpan ≤ n)
  let bits := n % signSpan
  if bits < infinityBits then .finite negative bits
  else if bits = infinityBits then .infinite negative
  else .notANumber

/-- The double with a given sign and magnitude. -/
def ofMagnitude (negative : Bool) (bits : Nat) : Float :=
  Float.ofBits (UInt64.ofNat (if negative then signSpan + bits else bits))

/-- Infinity, or with `negative` set its opposite. -/
def infinity (negative : Bool) : Float :=
  ofMagnitude negative infinityBits

/-- The double that is not a number. -/
def notANumber : Float :=
  ofMagnitude false (infinityBits + mantissaSpan / 2)

/-- Whether a double is neither infinite nor not a number. -/
def isFinite (x : Float) : Bool :=
  match Parts.of x with
  | .finite _ _ => true
  | .infinite _ => false
  | .notANumber => false

/-- The whole number that a double stands for; a fraction or a non-finite double has none. -/
def whole? (x : Float) : Option Int :=
  match Parts.of x with
  | .finite negative bits =>
    let n := units bits
    if n % unitsPerOne = 0 then
      some (if negative then -Int.ofNat (n / unitsPerOne) else Int.ofNat (n / unitsPerOne))
    else none
  | .infinite _ => none
  | .notANumber => none

/-- The double nearest to half of a whole number, ties to even. A half that would be rounded to
infinity has none. -/
def half? (n : Int) : Option Float :=
  let bits := nearestBits (unitsPerOne * n.natAbs) 2
  if bits < infinityBits then some (ofMagnitude (decide (n < 0)) bits) else none

end TurtleGraphics.Number
