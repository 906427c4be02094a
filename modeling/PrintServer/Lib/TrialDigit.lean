import Mathlib.Algebra.Order.Ring.Nat
import Mathlib.Tactic.Ring

/-!
# The trial digit of a long division

A digit of a quotient is estimated from the leading part `U` of the dividend `w` and from a
reciprocal `R` of the leading part `D` of the divisor `M`.  A reciprocal that is rounded up never
gives too small a digit.
-/

namespace Lib

variable {b c k w D M P R S U : Nat}

/-- `k` is at most the quotient. -/
theorem trialDigit_lower (hM : D * S * c ≤ M) (hR : P ≤ R * D) (hpos : 0 < R)
    (hw : w < (U + 1) * (b * c)) (hk : k * M ≤ w) : k * S * P < R * ((U + 1) * b) := by
  have hc : 0 < c := by
    rcases Nat.eq_zero_or_pos c with rfl | hc
    · simp at hw
    · exact hc
  have hlt : k * (D * S) * c < (U + 1) * b * c := calc
    k * (D * S) * c = k * (D * S * c) := by ring
    _ ≤ k * M := Nat.mul_le_mul_left k hM
    _ ≤ w := hk
    _ < (U + 1) * (b * c) := hw
    _ = (U + 1) * b * c := by ring
  have hdigit : k * (D * S) < (U + 1) * b := Nat.lt_of_mul_lt_mul_right hlt
  calc k * S * P ≤ k * S * (R * D) := Nat.mul_le_mul_left _ hR
    _ = R * (k * (D * S)) := by ring
    _ < R * ((U + 1) * b) := Nat.mul_lt_mul_of_pos_left hdigit hpos

/-- `k` is at least the quotient. -/
theorem trialDigit_upper (hM : M < (D + 1) * S * c) (hR : R * D ≤ P + D) (hpos : 0 < R)
    (hw : U * (b * c) ≤ w) (hk : w < (k + 1) * M) : R * (U * b) < (k + 1) * S * (P + D + R) := by
  have hlt : U * b * c < (k + 1) * ((D + 1) * S) * c := calc
    U * b * c = U * (b * c) := by ring
    _ ≤ w := hw
    _ < (k + 1) * M := hk
    _ ≤ (k + 1) * ((D + 1) * S * c) := Nat.mul_le_mul_left _ hM.le
    _ = (k + 1) * ((D + 1) * S) * c := by ring
  have hdigit : U * b < (k + 1) * ((D + 1) * S) := Nat.lt_of_mul_lt_mul_right hlt
  calc R * (U * b) < R * ((k + 1) * ((D + 1) * S)) := Nat.mul_lt_mul_of_pos_left hdigit hpos
    _ = (k + 1) * S * (R * D + R) := by ring
    _ ≤ (k + 1) * S * (P + D + R) := Nat.mul_le_mul_left _ (Nat.add_le_add_right hR R)

end Lib
