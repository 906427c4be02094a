import Mathlib.Data.List.Count
import Mathlib.Logic.Function.Basic

/-!
# Counting threads

The number of the first `n` threads whose program counter satisfies a test, and how it changes
when one thread moves.
-/

namespace Lib

variable {α : Type*} {test : α → Bool} {pc : Nat → α} {a : α} {n t : Nat}

def countAt (test : α → Bool) (pc : Nat → α) (n : Nat) : Nat :=
  (List.range n).countP fun t ↦ test (pc t)

theorem countAt_succ :
    countAt test pc (n + 1) = countAt test pc n + if test (pc n) then 1 else 0 := by
  unfold countAt
  rw [List.range_succ, List.countP_append, List.countP_singleton]

theorem countAt_le (test : α → Bool) (pc : Nat → α) (n : Nat) : countAt test pc n ≤ n := by
  have h : countAt test pc n ≤ (List.range n).length := List.countP_le_length
  rwa [List.length_range] at h

/-- A thread outside the count does not matter. -/
theorem countAt_update_of_le (h : n ≤ t) :
    countAt test (Function.update pc t a) n = countAt test pc n := by
  induction n with
  | zero => rfl
  | succ n ih =>
      have hn : n ≠ t := by omega
      rw [countAt_succ, countAt_succ, ih (by omega), Function.update_of_ne hn]

/-- One thread moves: it is counted where it was before, or where it is now. -/
theorem countAt_update (test : α → Bool) (pc : Nat → α) (a : α) (h : t < n) :
    countAt test (Function.update pc t a) n + (if test (pc t) then 1 else 0) =
      countAt test pc n + if test a then 1 else 0 := by
  induction n with
  | zero => omega
  | succ n ih =>
      rw [countAt_succ, countAt_succ]
      by_cases hn : t = n
      · subst hn
        rw [countAt_update_of_le (Nat.le_refl t), Function.update_self]
        omega
      · have hlt := ih (by omega)
        rw [Function.update_of_ne (Ne.symm hn)]
        omega

theorem countAt_update_of_eq (h : test a = test (pc t)) :
    countAt test (Function.update pc t a) n = countAt test pc n := by
  by_cases ht : t < n
  · have hc := countAt_update test pc a ht
    rw [h] at hc
    omega
  · exact countAt_update_of_le (by omega)

theorem countAt_move (test : α → Bool) (pc : Nat → α) (a : α) (h : t < n) :
    countAt test (Function.update pc t a) n + (test (pc t)).toNat =
      countAt test pc n + (test a).toNat := by
  have hmove := countAt_update test pc a h
  cases hold : test (pc t) <;> cases hnew : test a <;> rw [hold, hnew] at hmove <;> exact hmove

theorem countAt_congr {pc' : Nat → α} (h : ∀ t, test (pc' t) = test (pc t)) :
    countAt test pc' n = countAt test pc n := by
  unfold countAt
  congr 1
  funext t
  exact h t

/-- What holds of every thread still holds after one of them has moved, if it does of that one. -/
theorem forall_lt_update {P : Nat → α → Prop} (h : ∀ t' < n, P t' (pc t')) (ha : P t a) :
    ∀ t' < n, P t' (Function.update pc t a t') := by
  intro t' ht'
  by_cases heq : t' = t
  · subst heq
    rw [Function.update_self]
    exact ha
  · rw [Function.update_of_ne heq]
    exact h t' ht'

theorem countAt_pos (h : t < n) (ht : test (pc t) = true) : 0 < countAt test pc n :=
  List.countP_pos_iff.mpr ⟨t, List.mem_range.mpr h, ht⟩

theorem exists_of_countAt_pos (h : 0 < countAt test pc n) : ∃ t < n, test (pc t) = true := by
  obtain ⟨t, ht, htest⟩ := List.countP_pos_iff.mp h
  exact ⟨t, List.mem_range.mp ht, htest⟩

end Lib
