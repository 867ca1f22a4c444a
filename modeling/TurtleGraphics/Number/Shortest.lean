import TurtleGraphics.Number.Decimal

/-!
# TurtleGraphics.Number.Shortest

The decimal that stands for a double: of the decimals that read back to it, one with the fewest
digits, and of those the nearest.

* `scaled`     : a magnitude as a quotient, in steps of a power of ten.
* `readsBack?` : the best decimal with a given last place, if one reads back.
* `shortest`   : the decimal chosen.

Whatever `readsBack?` finds has been read back, and the last resort of `shortest` is the exact
value, so the decimal chosen always denotes the double it came from.
-/

namespace TurtleGraphics.Number

/-- A finite magnitude in steps of `10 ^ exponent`, as numerator and denominator. -/
def scaled (bits : Nat) : Int → Nat × Nat
  | .ofNat e => (units bits, unitsPerOne * power 10 e)
  | .negSucc e => (units bits * power 10 (e + 1), unitsPerOne)

/-- The multiple of `10 ^ exponent` nearest to a magnitude among its two neighbours that read
back to it. -/
def readsBack? (bits : Nat) (exponent : Int) : Option Decimal :=
  let q := scaled bits exponent
  let low : Decimal := ⟨q.1 / q.2, exponent⟩
  let high : Decimal := ⟨q.1 / q.2 + 1, exponent⟩
  match low.bits == bits, high.bits == bits with
  | true, true => some ⟨roundHalfEven q.1 q.2, exponent⟩
  | true, false => some low
  | false, true => some high
  | false, false => none

/-- Whether a magnitude is below `10 ^ exponent`. -/
def isBelowPower (bits : Nat) (exponent : Int) : Bool :=
  let q := scaled bits exponent
  q.1 < q.2

/-- The least power of ten above a magnitude, searched from an estimate by the binary exponent. -/
def powerAbove (bits : Nat) : Int :=
  let estimate := Int.fdiv ((Int.ofNat (units bits).log2 - 1074) * 30103) 100000
  if isBelowPower bits estimate then estimate
  else if isBelowPower bits (estimate + 1) then estimate + 1
  else estimate + 2

/-- A finite magnitude with nothing rounded away: a unit is `5 ^ 1074 * 10 ^ -1074`. -/
def exact (bits : Nat) : Decimal :=
  ⟨units bits * power 5 1074, -1074⟩

/-- The decimal with the fewest digits that reads back to a magnitude; 17 digits always suffice. -/
def shortest (bits : Nat) : Decimal :=
  let top := powerAbove bits
  match (List.range' 1 17).findSome? (fun n => readsBack? bits (top - Int.ofNat n)) with
  | some d => d
  | none => exact bits

theorem readsBack?_bits {bits : Nat} {exponent : Int} {d : Decimal}
    (h : readsBack? bits exponent = some d) : d.bits = bits := by
  simp only [readsBack?] at h
  split at h
  · rename_i hl hh
    simp only [beq_iff_eq] at hl hh
    cases h
    simp only [roundHalfEven]
    split
    · exact hl
    · split
      · exact hh
      · rcases Nat.mod_two_eq_zero_or_one
          ((scaled bits exponent).1 / (scaled bits exponent).2) with h0 | h1
        · rw [h0]; exact hl
        · rw [h1]; exact hh
  · rename_i hl _
    cases h
    exact beq_iff_eq.mp hl
  · rename_i _ hh
    cases h
    exact beq_iff_eq.mp hh
  · cases h

end TurtleGraphics.Number
