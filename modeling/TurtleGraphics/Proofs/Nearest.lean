import Mathlib.Algebra.Group.Nat.Defs
import TurtleGraphics.Number.Shortest

/-!
# TurtleGraphics.Proofs.Nearest

The magnitude nearest to a decimal depends on the number alone and not on how it is written, and
every finite magnitude is nearest to its own value.

* `nearestBits_congr`   : equal quotients have the same nearest magnitude.
* `Decimal.bits_eq`     : the exponents that are answered without raising ten to them are answered
  as they would be otherwise.
* `Decimal.bits_shift`  : zeros at the end of the digits may go into the exponent.
* `nearestBits_units`   : the nearest magnitude to the value of a magnitude.
* `bits_shortest`       : the decimal chosen for a magnitude reads back to it.
-/

namespace TurtleGraphics.Number

theorem power_eq (base exponent : Nat) : power base exponent = base ^ exponent := rfl

/-- The place of one above the place of a unit. -/
def unitPlace : Nat := 1074

theorem unitsPerOne_eq : unitsPerOne = 2 ^ unitPlace := by
  unfold unitsPerOne
  exact power_eq 2 unitPlace

theorem unitsPerOne_pos : 0 < unitsPerOne := by
  rw [unitsPerOne_eq]
  exact Nat.two_pow_pos _

/-! ## Quotients -/

theorem roundHalfEven_mul_right {k : Nat} (hk : 0 < k) (num den : Nat) :
    roundHalfEven (num * k) (den * k) = roundHalfEven num den := by
  have hlow : 2 * (num % den * k) < den * k ↔ 2 * (num % den) < den := by
    rw [← Nat.mul_assoc]
    exact Nat.mul_lt_mul_right hk
  have hhigh : den * k < 2 * (num % den * k) ↔ den < 2 * (num % den) := by
    rw [← Nat.mul_assoc]
    exact Nat.mul_lt_mul_right hk
  simp only [roundHalfEven, Nat.mul_div_mul_right _ _ hk, Nat.mul_mod_mul_right, hlow, hhigh]

theorem roundHalfEven_mul_self {den : Nat} (hden : 0 < den) (n : Nat) :
    roundHalfEven (n * den) den = n := by
  simp [roundHalfEven, Nat.mul_div_cancel _ hden, hden]

theorem nearestBits_mul_right {k : Nat} (hk : 0 < k) (num den : Nat) :
    nearestBits (num * k) (den * k) = nearestBits num den := by
  simp only [nearestBits, Nat.mul_div_mul_right _ _ hk]
  rw [Nat.mul_right_comm, roundHalfEven_mul_right hk]

theorem nearestBits_congr {num den num' den' : Nat} (hden : 0 < den) (hden' : 0 < den')
    (h : num * den' = num' * den) : nearestBits num den = nearestBits num' den' := by
  rw [← nearestBits_mul_right hden' num den, h, Nat.mul_comm den den',
    nearestBits_mul_right hden]

/-! ## Decimals as quotients -/

namespace Decimal

/-- The numerator of a decimal in units. -/
def num (d : Decimal) : Nat := d.digits * 10 ^ d.exponent.toNat * unitsPerOne

/-- The denominator of a decimal. -/
def den (d : Decimal) : Nat := 10 ^ (-d.exponent).toNat

theorem den_pos (d : Decimal) : 0 < d.den := Nat.pow_pos (by omega)

end Decimal

theorem two_pow_le_ten_pow (e : Nat) : 2 ^ (3 * e) ≤ 10 ^ e := by
  rw [Nat.pow_mul]
  exact Nat.pow_le_pow_left (by omega) e

/-- A number with a high power of ten lies beyond the finite magnitudes. -/
theorem nearestBits_of_large {digits e : Nat} (hd : 0 < digits)
    (he : Decimal.highestExponent < e) :
    nearestBits (digits * 10 ^ e * unitsPerOne) 1 = infinityBits := by
  have hten : 2 ^ (3 * e) ≤ digits * 10 ^ e :=
    Nat.le_trans (two_pow_le_ten_pow e) (Nat.le_mul_of_pos_left _ hd)
  have hnum : 2 ^ (3 * e + unitPlace) ≤ digits * 10 ^ e * unitsPerOne := by
    rw [Nat.pow_add, ← unitsPerOne_eq]
    exact Nat.mul_le_mul_right _ hten
  have hpos : digits * 10 ^ e * unitsPerOne ≠ 0 :=
    Nat.ne_of_gt (Nat.lt_of_lt_of_le (Nat.two_pow_pos _) hnum)
  have hlog := (Nat.le_log2 hpos).mpr hnum
  simp only [nearestBits, Nat.div_one]
  refine Nat.min_eq_right ?_
  have hshift : 2047 ≤ (digits * 10 ^ e * unitsPerOne).log2 - 52 := by
    simp only [Decimal.highestExponent, unitPlace] at he hlog
    omega
  exact Nat.le_trans (Nat.mul_le_mul_right _ hshift) (Nat.le_add_right _ _)

/-- A number with a power of ten far below zero is nearer to zero than to any other magnitude. -/
theorem nearestBits_of_small {digits e : Nat} (hd : 0 < digits)
    (he : Decimal.highestExponent + digits.log2 < e) :
    nearestBits (digits * unitsPerOne) (10 ^ (e + 1)) = 0 := by
  have hdigits : digits < 2 ^ (digits.log2 + 1) := (Nat.log2_lt (by omega)).mp (by omega)
  have hnum : 2 * (digits * unitsPerOne) < 10 ^ (e + 1) :=
    calc 2 * (digits * unitsPerOne) < 2 * (2 ^ (digits.log2 + 1) * unitsPerOne) := by
            have := Nat.mul_lt_mul_of_pos_right hdigits unitsPerOne_pos
            omega
      _ = 2 ^ (digits.log2 + 1 + unitPlace + 1) := by
            rw [unitsPerOne_eq, ← Nat.pow_add, Nat.pow_succ', Nat.mul_comm]
      _ ≤ 2 ^ (3 * (e + 1)) := Nat.pow_le_pow_right (by omega) (by
            simp only [Decimal.highestExponent] at he
            simp only [unitPlace]
            omega)
      _ ≤ 10 ^ (e + 1) := two_pow_le_ten_pow _
  have hlt : digits * unitsPerOne < 10 ^ (e + 1) := by omega
  have hlog : Nat.log2 0 - 52 = 0 := by decide
  simp only [nearestBits, Nat.div_eq_of_lt hlt, hlog, Nat.zero_mul, Nat.zero_add, power_eq,
    Nat.pow_zero, Nat.mul_one, roundHalfEven, Nat.mod_eq_of_lt hlt, if_pos hnum]
  rfl

theorem roundHalfEven_zero_left {den : Nat} (hden : 0 < den) : roundHalfEven 0 den = 0 := by
  simp [roundHalfEven, hden]

theorem nearestBits_zero_left {den : Nat} (hden : 0 < den) : nearestBits 0 den = 0 := by
  have hpos : 0 < den * power 2 0 := Nat.mul_pos hden (by decide)
  simp [nearestBits, roundHalfEven_zero_left hpos]

/-- The magnitude of a decimal is the one nearest to its quotient. -/
theorem Decimal.bits_eq (d : Decimal) : d.bits = nearestBits d.num d.den := by
  obtain ⟨digits, exponent⟩ := d
  cases digits with
  | zero => simp [bits, num, nearestBits_zero_left (den_pos _)]
  | succ digits =>
    cases exponent with
    | ofNat e =>
      simp only [bits, num, den, power_eq]
      have hden : 10 ^ (-Int.ofNat e).toNat = 1 := by simp
      rw [hden, Int.ofNat_eq_natCast, Int.toNat_natCast]
      split
      · rename_i he
        exact (nearestBits_of_large (Nat.succ_pos digits) he).symm
      · rfl
    | negSucc e =>
      simp only [bits, num, den, power_eq]
      have hnum : 10 ^ (Int.negSucc e).toNat = 1 := rfl
      have hden : (-Int.negSucc e).toNat = e + 1 := rfl
      rw [hnum, hden, Nat.mul_one]
      split
      · rename_i he
        exact (nearestBits_of_small (Nat.succ_pos digits) he).symm
      · rfl

/-- Zeros at the end of the digits may be counted in the exponent. -/
theorem Decimal.bits_shift (digits zeros : Nat) (exponent : Int) :
    Decimal.bits ⟨digits * 10 ^ zeros, exponent⟩ = Decimal.bits ⟨digits, exponent + zeros⟩ := by
  rw [bits_eq, bits_eq]
  refine nearestBits_congr (den_pos _) (den_pos _) ?_
  simp only [num, den]
  generalize unitsPerOne = one
  have hexp : zeros + exponent.toNat + (-(exponent + zeros)).toNat =
      (exponent + zeros).toNat + (-exponent).toNat := by omega
  calc digits * 10 ^ zeros * 10 ^ exponent.toNat * one * 10 ^ (-(exponent + zeros)).toNat
      = digits * one * 10 ^ (zeros + exponent.toNat + (-(exponent + zeros)).toNat) := by
        rw [Nat.pow_add, Nat.pow_add]; ac_rfl
    _ = digits * one * 10 ^ ((exponent + zeros).toNat + (-exponent).toNat) := by rw [hexp]
    _ = digits * 10 ^ (exponent + zeros).toNat * one * 10 ^ (-exponent).toNat := by
        rw [Nat.pow_add]; ac_rfl

/-! ## Magnitudes as quotients -/

theorem mantissaSpan_eq : mantissaSpan = 2 ^ 52 := power_eq 2 52

/-- A finite magnitude is the one nearest to its own value. -/
theorem nearestBits_units {bits : Nat} (h : bits < infinityBits) :
    nearestBits (units bits) 1 = bits := by
  have hsplit := Nat.div_add_mod bits mantissaSpan
  have hmod : bits % mantissaSpan < 2 ^ 52 := mantissaSpan_eq ▸ Nat.mod_lt _ (by decide)
  simp only [nearestBits, units, Nat.div_one, Nat.one_mul, power_eq]
  split
  · rename_i hzero
    rw [hzero, Nat.mul_zero, Nat.zero_add] at hsplit
    rw [hsplit] at hmod ⊢
    have hlog : bits.log2 - 52 = 0 := by
      by_cases hbits : bits = 0
      · rw [hbits]; decide
      · have := (Nat.log2_lt hbits).mpr hmod
        omega
    have hround := roundHalfEven_mul_self Nat.one_pos bits
    rw [Nat.mul_one] at hround
    rw [hlog, Nat.zero_mul, Nat.zero_add, Nat.pow_zero, hround]
    exact Nat.min_eq_left (Nat.le_of_lt h)
  · rename_i hnormal
    generalize bits / mantissaSpan = e at *
    generalize bits % mantissaSpan = m at *
    have hlog : ((m + mantissaSpan) * 2 ^ (e - 1)).log2 = 52 + (e - 1) := by
      have hpow : 0 < 2 ^ (e - 1) := Nat.two_pow_pos _
      rw [mantissaSpan_eq, Nat.log2_eq_iff (Nat.mul_ne_zero (by omega) (by omega))]
      constructor
      · rw [Nat.pow_add]
        exact Nat.mul_le_mul_right _ (by omega)
      · rw [Nat.add_right_comm, Nat.pow_add _ _ (e - 1)]
        exact Nat.mul_lt_mul_of_pos_right (by omega) hpow
    rw [hlog, Nat.add_sub_cancel_left, roundHalfEven_mul_self (Nat.two_pow_pos _)]
    have hbits : (e - 1) * mantissaSpan + (m + mantissaSpan) = bits := by
      obtain ⟨k, rfl⟩ := Nat.exists_eq_succ_of_ne_zero hnormal
      rw [← hsplit, Nat.succ_sub_one, Nat.mul_comm mantissaSpan, Nat.succ_mul]
      omega
    rw [hbits]
    exact Nat.min_eq_left (Nat.le_of_lt h)

theorem bits_exact {bits : Nat} (h : bits < infinityBits) : (exact bits).bits = bits := by
  rw [Decimal.bits_eq]
  refine (nearestBits_congr (Decimal.den_pos _) Nat.one_pos ?_).trans (nearestBits_units h)
  have hnum : (exact bits).num = units bits * 5 ^ unitPlace * unitsPerOne := by
    simp only [exact, Decimal.num, power_eq, unitPlace]
    rw [show (-1074 : Int).toNat = 0 from rfl, Nat.pow_zero, Nat.mul_one]
  have hden : (exact bits).den = 10 ^ unitPlace := by
    simp only [exact, Decimal.den, unitPlace]
    rw [show (- -1074 : Int).toNat = 1074 from rfl]
  rw [hnum, hden, unitsPerOne_eq, show (10 : Nat) = 5 * 2 from rfl, Nat.mul_pow, Nat.mul_one,
    Nat.mul_assoc]

/-- The decimal that is printed for a finite magnitude reads back to it. -/
theorem bits_shortest {bits : Nat} (h : bits < infinityBits) : (shortest bits).bits = bits := by
  simp only [shortest]
  split
  · rename_i d hd
    obtain ⟨n, -, hn⟩ := List.exists_of_findSome?_eq_some hd
    exact readsBack?_bits hn
  · exact bits_exact h

end TurtleGraphics.Number
