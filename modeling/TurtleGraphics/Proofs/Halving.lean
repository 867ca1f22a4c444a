import TurtleGraphics.Program
import TurtleGraphics.Proofs.Nearest

/-!
# TurtleGraphics.Proofs.Halving

Which canvases have a centre.

* `nearestBits_mono`           : the nearest magnitude grows with the quotient.
* `half?_eq_none_iff`          : the whole numbers with a half beyond all doubles.
* `HasCentre`                  : both sizes of a canvas are below those.
* `Turtle.centred?_eq_none_iff` : only then there is a turtle at the centre.

A half is rounded before it is compared, so it is infinite from the middle between the last double
and the next power of two on. The last double is odd, and the tie in the middle goes up.
-/

namespace TurtleGraphics

namespace Number

/-! ## Rounding is monotone -/

theorem roundHalfEven_cases (num den : Nat) :
    (roundHalfEven num den = num / den ∧ 2 * (num % den) ≤ den) ∨
    (roundHalfEven num den = num / den + 1 ∧ den ≤ 2 * (num % den)) := by
  simp only [roundHalfEven]
  split
  · exact .inl ⟨rfl, by omega⟩
  · split
    · exact .inr ⟨rfl, by omega⟩
    · rcases Nat.mod_two_eq_zero_or_one (num / den) with h | h
      · exact .inl ⟨by omega, by omega⟩
      · exact .inr ⟨by omega, by omega⟩

theorem roundHalfEven_mono {num num' : Nat} (h : num ≤ num') (den : Nat) :
    roundHalfEven num den ≤ roundHalfEven num' den := by
  have hq : num / den ≤ num' / den := Nat.div_le_div_right h
  rcases Nat.lt_or_eq_of_le hq with hlt | heq
  · have hlow := roundHalfEven_cases num den
    have hhigh := roundHalfEven_cases num' den
    omega
  · -- With equal quotients the remainders are in order.
    have hsplit := Nat.div_add_mod num den
    have hsplit' := Nat.div_add_mod num' den
    have hmod : num % den ≤ num' % den := by
      rw [heq] at hsplit
      omega
    simp only [roundHalfEven, heq]
    repeat' split
    all_goals omega

/-- A quotient that is rounded to 53 bits is at most the next power of two, and it has all of these
bits unless it is one of the lowest. -/
theorem roundHalfEven_bounds (num den : Nat) {shift : Nat}
    (hshift : shift = (num / den).log2 - 52) :
    roundHalfEven num (den * 2 ^ shift) ≤ 2 ^ 53 ∧
      (0 < shift → 2 ^ 52 ≤ roundHalfEven num (den * 2 ^ shift)) := by
  have hround := roundHalfEven_cases num (den * 2 ^ shift)
  rw [← Nat.div_div_eq_div_mul] at hround
  have hhigh : num / den / 2 ^ shift < 2 ^ 53 := by
    rw [Nat.div_lt_iff_lt_mul (Nat.two_pow_pos _), ← Nat.pow_add]
    exact Nat.lt_of_lt_of_le Nat.lt_log2_self (Nat.pow_le_pow_right (by omega) (by omega))
  refine ⟨by omega, fun hpos => ?_⟩
  have hlow : 2 ^ 52 ≤ num / den / 2 ^ shift := by
    have hlog : 52 + shift = (num / den).log2 := by omega
    have hne : num / den ≠ 0 := by
      intro hzero
      rw [hzero, Nat.log2_zero] at hlog
      omega
    rw [Nat.le_div_iff_mul_le (Nat.two_pow_pos _), ← Nat.pow_add, hlog]
    exact Nat.log2_self_le hne
  omega

theorem log2_mono {m n : Nat} (h : m ≤ n) : m.log2 ≤ n.log2 := by
  by_cases hm : m = 0
  · rw [hm, Nat.log2_zero]
    exact Nat.zero_le _
  · exact (Nat.le_log2 (by omega)).mpr (Nat.le_trans (Nat.log2_self_le hm) h)

/-- The nearest magnitude grows with the quotient. -/
theorem nearestBits_mono {num num' : Nat} (h : num ≤ num') (den : Nat) :
    nearestBits num den ≤ nearestBits num' den := by
  have hq : num / den ≤ num' / den := Nat.div_le_div_right h
  have hlog := log2_mono hq
  obtain ⟨hhigh, -⟩ := roundHalfEven_bounds num den rfl
  obtain ⟨-, hlow⟩ := roundHalfEven_bounds num' den rfl
  simp only [nearestBits, power_eq, mantissaSpan_eq]
  refine Nat.le_min_of_le_of_le (Nat.le_trans (Nat.min_le_left _ _) ?_) (Nat.min_le_right _ _)
  rcases Nat.lt_or_eq_of_le (Nat.sub_le_sub_right hlog 52) with hlt | heq
  · -- The next place is worth as much as all bits of the one below.
    have := hlow (by omega)
    omega
  · rw [heq]
    exact Nat.add_le_add_left (roundHalfEven_mono h _) _

/-! ## Halves -/

/-- The first whole number whose half is rounded to infinity. -/
def halfLimit : Nat := power 2 1025 - power 2 971

/-- The magnitude of a half is infinite from the limit on. -/
theorem infinityBits_le_iff (n : Nat) :
    infinityBits ≤ nearestBits (unitsPerOne * n) 2 ↔ halfLimit ≤ n := by
  have hat : infinityBits ≤ nearestBits (unitsPerOne * halfLimit) 2 := by decide +kernel
  have hbelow : nearestBits (unitsPerOne * (halfLimit - 1)) 2 < infinityBits := by decide +kernel
  constructor
  · intro h
    refine Nat.le_of_not_lt fun hlt => ?_
    have hle : unitsPerOne * n ≤ unitsPerOne * (halfLimit - 1) :=
      Nat.mul_le_mul_left _ (Nat.le_sub_one_of_lt hlt)
    exact absurd (Nat.lt_of_le_of_lt (nearestBits_mono hle 2) hbelow) (Nat.not_lt_of_le h)
  · intro h
    exact Nat.le_trans hat (nearestBits_mono (Nat.mul_le_mul_left _ h) 2)

/-- A whole number has no half among the doubles if it is beyond the limit. -/
theorem half?_eq_none_iff (n : Int) : half? n = none ↔ halfLimit ≤ n.natAbs := by
  rw [← infinityBits_le_iff, half?]
  split
  · rename_i h
    exact ⟨nofun, fun hle => absurd h (Nat.not_lt_of_le hle)⟩
  · rename_i h
    exact ⟨fun _ => Nat.le_of_not_lt h, fun _ => rfl⟩

end Number

/-! ## Canvases -/

/-- The sizes of a canvas are those of one that has a centre. -/
def HasCentre (width height : Int) : Prop :=
  width.natAbs < Number.halfLimit ∧ height.natAbs < Number.halfLimit

instance (width height : Int) : Decidable (HasCentre width height) :=
  inferInstanceAs (Decidable (_ ∧ _))

namespace Turtle

theorem startingAt?_eq_none_iff (x? y? : Option Float) :
    startingAt? x? y? = none ↔ x? = none ∨ y? = none := by
  cases x? <;> cases y? <;> simp [startingAt?]

theorem eq_startingAt_of_startingAt? {x? y? : Option Float} {turtle : Turtle}
    (h : startingAt? x? y? = some turtle) : ∃ x y, turtle = .startingAt x y := by
  unfold startingAt? at h
  split at h
  · rename_i x y
    cases h
    exact ⟨x, y, rfl⟩
  · cases h

/-- A canvas without a centre has no turtle there, and no other canvas. -/
theorem centred?_eq_none_iff (width height : Int) :
    centred? width height = none ↔ ¬ HasCentre width height := by
  rw [centred?, startingAt?_eq_none_iff, Number.half?_eq_none_iff, Number.half?_eq_none_iff]
  unfold HasCentre
  omega

theorem exists_centred? {width height : Int} (h : HasCentre width height) :
    ∃ turtle, centred? width height = some turtle :=
  Option.ne_none_iff_exists'.mp fun hnone => (centred?_eq_none_iff width height).mp hnone h

end Turtle

end TurtleGraphics
