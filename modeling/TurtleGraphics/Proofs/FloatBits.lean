import Mathlib
import TurtleGraphics.Number.Binary64

/-!
# TurtleGraphics.Proofs.FloatBits

A double is its pattern of bits, and taking one apart loses nothing.

That the pattern of a double gives the double back is `Float.ofBits_toBits`, which only the library
as a whole has. From there it is arithmetic that `ofMagnitude` undoes `Parts.of`.
-/

namespace TurtleGraphics.Number

theorem signSpan_eq : signSpan = 2 ^ 63 := by decide

/-- The sign and the magnitude of a finite double make up the double. -/
theorem ofMagnitude_of_parts {x : Float} {negative : Bool} {bits : Nat}
    (h : Parts.of x = .finite negative bits) :
    ofMagnitude negative bits = x ∧ bits < infinityBits := by
  have hlt : x.toBits.toNat < 2 ^ 64 := x.toBits.toNat_lt
  simp only [Parts.of] at h
  split at h
  · rename_i hfin
    cases h
    refine ⟨?_, hfin⟩
    have hn : (if decide (signSpan ≤ x.toBits.toNat) = true then
        signSpan + x.toBits.toNat % signSpan else x.toBits.toNat % signSpan) =
        x.toBits.toNat := by
      rw [signSpan_eq]
      split
      · simp_all
        omega
      · simp_all
    rw [ofMagnitude, hn, UInt64.ofNat_toNat, Float.ofBits_toBits]
  · split at h <;> cases h

end TurtleGraphics.Number
