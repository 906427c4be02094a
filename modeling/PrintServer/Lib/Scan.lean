import Mathlib.Data.List.Basic

/-!
# Scans of memory

A scan looks at one item behind the other until one stops it, and at that one too.
-/

namespace Lib

variable {α : Type*} {p : α → Bool} {s t : List α} {pos limit : Nat}

/-- The indices that a scan looks at which begins at `pos` and goes on behind what is `p`. -/
def scanned (p : α → Bool) (pos : Nat) (s : List α) : List Nat :=
  List.range' pos ((s.takeWhile p).length + 1)

theorem scanned_lt_iff :
    (∀ i ∈ scanned p pos s, i < limit) ↔ pos + (s.takeWhile p).length < limit := by
  simp only [scanned, List.mem_range'_1]
  constructor
  · intro h
    exact h _ ⟨Nat.le_add_right _ _, by omega⟩
  · intro h i hi
    omega

theorem length_takeWhile_lt_iff : (s.takeWhile p).length < s.length ↔ s.dropWhile p ≠ [] := by
  have hsplit := congrArg List.length (List.takeWhile_append_dropWhile (p := p) (l := s))
  rw [List.length_append] at hsplit
  rw [← List.length_pos_iff]
  omega

/-- A scan that stops inside the front part is one of the front part. -/
theorem scan_append (h : s.dropWhile p ≠ []) (t : List α) :
    (s ++ t).takeWhile p = s.takeWhile p ∧ (s ++ t).dropWhile p = s.dropWhile p ++ t := by
  constructor
  · rw [List.takeWhile_append, if_neg (Nat.ne_of_lt (length_takeWhile_lt_iff.mpr h))]
  · rw [List.dropWhile_append, if_neg (by simpa using h)]

/-- It stops there, or goes on behind the front part. -/
theorem stops_inside_iff : ((s ++ t).takeWhile p).length < s.length ↔ s.dropWhile p ≠ [] := by
  constructor
  · intro h hnil
    have hwhole : (s.takeWhile p).length = s.length := by
      have hle := (List.takeWhile_sublist p (l := s)).length_le
      have hnot := mt length_takeWhile_lt_iff.mp (not_not.mpr hnil)
      omega
    rw [List.takeWhile_append, if_pos hwhole, List.length_append] at h
    omega
  · intro h
    rw [(scan_append h t).1]
    exact length_takeWhile_lt_iff.mpr h

end Lib
