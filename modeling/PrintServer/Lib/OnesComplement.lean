import Mathlib.Data.Nat.ModEq
import Mathlib.Tactic.Ring

/-!
# Sums with the carry brought around

A sum of 16-bit words whose carries are added back keeps a number modulo 65535, and it is zero only
for zero.  There two representations of a class are left, 0 and 65535, so that the 16 bits are
determined.
-/

namespace Lib

/-- `x` has the 16 bits of `s` with the carries added back. -/
def SameSum (x s : Nat) : Prop := x ≡ s [MOD 65535] ∧ (x = 0 ↔ s = 0)

variable {x y s t : Nat}

theorem SameSum.refl (x : Nat) : SameSum x x := ⟨Nat.ModEq.refl x, Iff.rfl⟩

theorem SameSum.symm (h : SameSum x s) : SameSum s x := ⟨h.1.symm, h.2.symm⟩

theorem SameSum.trans (h : SameSum x y) (h' : SameSum y s) : SameSum x s :=
  ⟨h.1.trans h'.1, h.2.trans h'.2⟩

theorem SameSum.add (h : SameSum x s) (h' : SameSum y t) : SameSum (x + y) (s + t) := by
  refine ⟨h.1.add h'.1, ?_⟩
  rw [Nat.add_eq_zero_iff, Nat.add_eq_zero_iff, h.2, h'.2]

theorem SameSum.mul_left (h : SameSum x s) (k : Nat) : SameSum (k * x) (k * s) := by
  refine ⟨h.1.mul_left k, ?_⟩
  rw [Nat.mul_eq_zero, Nat.mul_eq_zero, h.2]

/-- Bringing the carry around once. -/
theorem SameSum.carry (x : Nat) : SameSum (x % 65536 + x / 65536) x := by
  refine ⟨?_, by omega⟩
  show (x % 65536 + x / 65536) % 65535 = x % 65535
  omega

/-- Exchanging the bytes of a word multiplies by 256. -/
theorem SameSum.swap (h : x ≤ 65535) : SameSum (x % 256 * 256 + x / 256) (256 * x) := by
  refine ⟨?_, by omega⟩
  show (x % 256 * 256 + x / 256) % 65535 = 256 * x % 65535
  omega

theorem SameSum.pow_even (k x : Nat) : SameSum (256 ^ (2 * k) * x) x := by
  constructor
  · have hone : 256 ^ (2 * k) ≡ 1 [MOD 65535] := by
      have hpow : (65536 : Nat) ^ k ≡ 1 ^ k [MOD 65535] :=
        Nat.ModEq.pow k (show 65536 % 65535 = 1 % 65535 from rfl)
      rwa [Nat.one_pow, show 65536 = 256 ^ 2 from rfl, ← pow_mul] at hpow
    have hmul := hone.mul_right x
    rwa [Nat.one_mul] at hmul
  · have hpos : 256 ^ (2 * k) ≠ 0 := (Nat.pow_pos (by decide)).ne'
    rw [Nat.mul_eq_zero, or_iff_right hpos]

/-- Sixteen bits are determined. -/
theorem SameSum.eq (h : SameSum x y) (hx : x ≤ 65535) (hy : y ≤ 65535) : x = y := by
  obtain ⟨hmod, hzero⟩ := h
  change x % 65535 = y % 65535 at hmod
  omega

end Lib
