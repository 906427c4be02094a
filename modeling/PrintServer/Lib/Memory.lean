import Mathlib.Data.List.GetD

/-!
# Byte memory

Memory is a function from addresses.  `writeMem` overwrites a stretch of it and `readMem` lists
one; a stretch that was saved and is written back hides what was written over it.
-/

namespace Lib

variable {α : Type*}

def writeMem (mem : Nat → α) (o : Nat) (bs : List α) : Nat → α :=
  fun i ↦ if i < o then mem i else bs.getD (i - o) (mem i)

def readMem (mem : Nat → α) (o n : Nat) : List α := (List.range n).map fun j ↦ mem (o + j)

variable {mem mem' : Nat → α} {o i n : Nat} {bs : List α}

@[simp] theorem length_readMem : (readMem mem o n).length = n := by simp [readMem]

@[simp] theorem readMem_zero : readMem mem o 0 = [] := rfl

theorem readMem_add (m n : Nat) :
    readMem mem o (m + n) = readMem mem o m ++ readMem mem (o + m) n := by
  simp only [readMem, List.range_add, List.map_append, List.map_map]
  congr 1
  apply List.map_congr_left
  intro j _
  simp only [Function.comp_apply, Nat.add_assoc]

theorem readMem_window {N : Nat} (h : i + n ≤ N) :
    ((readMem mem o N).drop i).take n = readMem mem (o + i) n := by
  obtain ⟨k, rfl⟩ := Nat.exists_eq_add_of_le h
  rw [Nat.add_assoc, readMem_add, List.drop_left' length_readMem, readMem_add,
    List.take_left' length_readMem]

theorem readMem_congr (h : ∀ i, o ≤ i → i < o + n → mem i = mem' i) :
    readMem mem o n = readMem mem' o n := by
  apply List.map_congr_left
  intro j hj
  rw [List.mem_range] at hj
  exact h (o + j) (by omega) (by omega)

/-- What a reading says about one address. -/
theorem getElem?_readMem (hi : i < n) : (readMem mem o n)[i]? = some (mem (o + i)) := by
  simp [readMem, hi]

theorem getElem?_of_readMem (h : readMem mem o n = bs) (hi : i < n) :
    bs[i]? = some (mem (o + i)) := by
  rw [← h, getElem?_readMem hi]

theorem mem_of_readMem (h : readMem mem o bs.length = bs) (hi : i < bs.length) :
    mem (o + i) = bs[i] := by
  have hget := @getElem?_readMem _ mem o i bs.length hi
  rw [h, List.getElem?_eq_getElem hi] at hget
  exact (Option.some.inj hget).symm

theorem writeMem_of_lt (h : i < o) : writeMem mem o bs i = mem i := if_pos h

theorem writeMem_of_ge (h : o + bs.length ≤ i) : writeMem mem o bs i = mem i := by
  rw [writeMem, if_neg (by omega)]
  simp [List.getD_eq_getElem?_getD, List.getElem?_eq_none (show bs.length ≤ i - o by omega)]

theorem writeMem_add (hi : i < bs.length) : writeMem mem o bs (o + i) = bs[i] := by
  rw [writeMem, if_neg (by omega)]
  simp [List.getD_eq_getElem?_getD, List.getElem?_eq_getElem hi]

@[simp] theorem writeMem_nil : writeMem mem o [] = mem := by
  funext i
  unfold writeMem
  split
  · rfl
  · exact List.getD_nil

theorem writeMem_append (xs ys : List α) :
    writeMem (writeMem mem o xs) (o + xs.length) ys = writeMem mem o (xs ++ ys) := by
  funext i
  by_cases h : i < o + xs.length
  · rw [writeMem_of_lt h]
    unfold writeMem
    split
    · rfl
    · rw [List.getD_append _ _ _ _ (by omega)]
  · have hmem : writeMem mem o xs i = mem i := writeMem_of_ge (by omega)
    have hr : writeMem mem o (xs ++ ys) i = ys.getD (i - (o + xs.length)) (mem i) := by
      rw [writeMem, if_neg (by omega), List.getD_append_right _ _ _ _ (by omega), Nat.sub_sub]
    rw [hr, writeMem, if_neg h, hmem]

theorem readMem_writeMem : readMem (writeMem mem o bs) o bs.length = bs := by
  apply List.ext_getElem
  · exact length_readMem
  · intro i _ hi
    simp only [readMem, List.getElem_map, List.getElem_range]
    exact writeMem_add hi

/-- A stretch that already reads so is overwritten by itself. -/
theorem writeMem_eq_self_iff : writeMem mem o bs = mem ↔ readMem mem o bs.length = bs := by
  constructor
  · intro h
    have hread := @readMem_writeMem _ mem o bs
    rwa [h] at hread
  · intro h
    funext i
    by_cases hlt : i < o
    · exact writeMem_of_lt hlt
    by_cases hge : o + bs.length ≤ i
    · exact writeMem_of_ge hge
    · obtain ⟨j, rfl⟩ := Nat.exists_eq_add_of_le (Nat.le_of_not_lt hlt)
      have hj : j < bs.length := by omega
      rw [writeMem_add hj, mem_of_readMem h hj]

theorem readMem_writeMem_take (h : n ≤ bs.length) :
    readMem (writeMem mem o bs) o n = bs.take n := by
  have hsplit := @readMem_add _ (writeMem mem o bs) o n (bs.length - n)
  rw [Nat.add_sub_cancel' h, readMem_writeMem] at hsplit
  have htake := congrArg (List.take n) hsplit
  rw [List.take_left' length_readMem] at htake
  exact htake.symm

theorem readMem_writeMem_drop (h : i + n ≤ bs.length) :
    readMem (writeMem mem o bs) (o + i) n = (bs.drop i).take n := by
  apply List.ext_getElem
  · rw [length_readMem, List.length_take, List.length_drop]
    omega
  · intro j hj _
    rw [length_readMem] at hj
    simp only [readMem, List.getElem_map, List.getElem_range, List.getElem_take, List.getElem_drop,
      Nat.add_assoc]
    exact writeMem_add (by omega)

theorem readMem_writeMem_of_le (h : i + n ≤ o) :
    readMem (writeMem mem o bs) i n = readMem mem i n :=
  readMem_congr fun _ _ hj ↦ writeMem_of_lt (by omega)

theorem writeMem_writeMem {xs : List α} (h : xs.length ≤ bs.length) :
    writeMem (writeMem mem o xs) o bs = writeMem mem o bs := by
  funext i
  by_cases hlt : i < o
  · rw [writeMem_of_lt hlt, writeMem_of_lt hlt, writeMem_of_lt hlt]
  by_cases hge : o + bs.length ≤ i
  · rw [writeMem_of_ge hge, writeMem_of_ge hge, writeMem_of_ge (by omega)]
  · obtain ⟨j, rfl⟩ := Nat.exists_eq_add_of_le (Nat.le_of_not_lt hlt)
    have hj : j < bs.length := by omega
    rw [writeMem_add hj, writeMem_add hj]

end Lib
