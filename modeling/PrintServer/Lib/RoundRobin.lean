import Mathlib.Data.List.Rotate

/-!
# Round robin

A turn serves the head of a queue and puts it at the back.  Without duplicates every other element
of the queue has its turn between two turns of one element.
-/

namespace Lib

variable {α : Type*}

/-- From the queue `q`, the turns of `served` leave the queue `q'`. -/
inductive RoundRobin (q : List α) : List α → List α → Prop
  | start : RoundRobin q [] q
  | turn {served q' : List α} {a : α} (h : RoundRobin q served (a :: q')) :
      RoundRobin q (served ++ [a]) (q' ++ [a])

/-- Between two turns of one element each of `all` has a turn. -/
def InTurn (all served : List α) : Prop :=
  ∀ (i j : Nat) (a b : α), i < j → served[i]? = some a → served[j]? = some a → b ∈ all → b ≠ a →
    ∃ k, i < k ∧ k < j ∧ served[k]? = some b

namespace RoundRobin

variable {q q' served : List α} {a : α} {i : Nat}

theorem eq_rotate (h : RoundRobin q served q') : q' = q.rotate served.length := by
  induction h with
  | start => exact (List.rotate_zero q).symm
  | turn h ih =>
      rw [List.length_append, List.length_singleton, ← List.rotate_rotate, ← ih,
        List.rotate_cons_succ, List.rotate_zero]

/-- The turns go round the queue. -/
theorem getElem?_served (h : RoundRobin q served q') (hi : i < served.length) :
    served[i]? = q[i % q.length]? := by
  induction h with
  | start => cases hi
  | turn h ih =>
      rename_i served q' a
      by_cases hlast : i < served.length
      · rw [List.getElem?_append_left hlast]
        exact ih hlast
      · have heq : i = served.length := by
          rw [List.length_append, List.length_singleton] at hi
          omega
        have hrotate := h.eq_rotate
        have hpos : 0 < q.length := by
          have hlen := congrArg List.length hrotate
          rw [List.length_rotate, List.length_cons] at hlen
          omega
        have hhead : (a :: q')[0]? = q[(0 + served.length) % q.length]? := by
          rw [hrotate]
          exact List.getElem?_rotate hpos
        rw [heq, List.getElem?_concat_length, ← Nat.zero_add served.length, ← hhead]
        rfl

/-- The next turn of the element at `m` comes before the round behind turn `i` is over. -/
theorem next_turn {n m : Nat} (hm : m < n) (hne : m ≠ i % n) :
    ∃ k, i < k ∧ k < i + n ∧ k % n = m := by
  have hdiv := Nat.div_add_mod i n
  have hmod : i % n < n := Nat.mod_lt i (by omega)
  by_cases h : i % n < m
  · refine ⟨n * (i / n) + m, by omega, by omega, ?_⟩
    rw [Nat.mul_add_mod, Nat.mod_eq_of_lt hm]
  · refine ⟨n * (i / n + 1) + m, ?_, ?_, ?_⟩
    · rw [Nat.mul_add]
      omega
    · rw [Nat.mul_add]
      omega
    · rw [Nat.mul_add_mod, Nat.mod_eq_of_lt hm]

theorem inTurn (h : RoundRobin q served q') (hq : q.Nodup) : InTurn q served := by
  intro i j a b hij hi hj hb hne
  obtain ⟨hjlen, -⟩ := List.getElem?_eq_some_iff.mp hj
  rw [h.getElem?_served (by omega)] at hi
  rw [h.getElem?_served hjlen] at hj
  have hpos : 0 < q.length := List.length_pos_of_mem hb
  have hmod : i % q.length = j % q.length := by
    obtain ⟨hi', hi⟩ := List.getElem?_eq_some_iff.mp hi
    obtain ⟨hj', hj⟩ := List.getElem?_eq_some_iff.mp hj
    exact (hq.getElem_inj_iff).mp (hi.trans hj.symm)
  obtain ⟨m, hm, hbm⟩ := List.getElem_of_mem hb
  have hdiff : m ≠ i % q.length := by
    intro heq
    apply hne
    rw [← heq] at hi
    rw [← hbm]
    exact (List.getElem?_eq_some_iff.mp hi).2
  obtain ⟨k, hik, hki, hk⟩ := next_turn hm hdiff
  -- the two turns are a round apart
  have hround : i + q.length ≤ j := by
    have hsub : (j - i) % q.length = 0 := Nat.sub_mod_eq_zero_of_mod_eq hmod.symm
    have := Nat.le_of_dvd (by omega) (Nat.dvd_of_mod_eq_zero hsub)
    omega
  refine ⟨k, hik, by omega, ?_⟩
  rw [h.getElem?_served (by omega), hk]
  exact List.getElem?_eq_some_iff.mpr ⟨hm, hbm⟩

/-- A round serves the whole queue. -/
theorem mem_served (h : RoundRobin q served q') (hlen : q.length ≤ served.length) (ha : a ∈ q) :
    a ∈ served := by
  obtain ⟨m, hm, ham⟩ := List.getElem_of_mem ha
  have hserved := h.getElem?_served (show m < served.length by omega)
  rw [Nat.mod_eq_of_lt hm, List.getElem?_eq_getElem hm, ham] at hserved
  exact List.mem_of_getElem? hserved

end RoundRobin

end Lib
