import Mathlib.Data.List.Chain
import Mathlib.Logic.Function.Basic

/-!
# Rings through a next function

`Follows next l` says that `next` leads from each node of `l` to the one behind it, so that a ring
of the nodes `l` with the entry `b` is `Follows next (l ++ [b])`.  A node is linked in or taken out
by changing the links of its neighbours only.  `Ring` is such a ring with a pointer to its first
node, which is `nil` when there is none.
-/

namespace Lib

variable {ι : Type*} {next next' : ι → ι} {a b c p x : ι} {u v w : List ι}

def Follows (next : ι → ι) (l : List ι) : Prop := l.IsChain fun x y ↦ next x = y

theorem follows_split :
    Follows next (u ++ x :: v) ↔ Follows next (u ++ [x]) ∧ Follows next (x :: v) :=
  List.isChain_split

theorem follows_cons_cons : Follows next (a :: b :: v) ↔ next a = b ∧ Follows next (b :: v) :=
  List.isChain_cons_cons

namespace Follows

/-- The node behind the first one can be reached from another. -/
theorem cons_congr (h : Follows next (p :: w)) (ha : next' a = next p) (hw : Follows next' w) :
    Follows next' (a :: w) := by
  cases w with
  | nil => exact List.isChain_singleton a
  | cons b w => exact follows_cons_cons.mpr ⟨ha.trans (follows_cons_cons.mp h).1, hw⟩

theorem tail (h : Follows next (p :: w)) : Follows next w := List.IsChain.tail h

/-- Links outside the list may change, and so may the link of the last node. -/
theorem congr (h : Follows next (u ++ [b])) (hn : ∀ y ∈ u, next' y = next y) :
    Follows next' (u ++ [b]) := by
  induction u with
  | nil => exact List.isChain_singleton b
  | cons a u ih =>
    apply cons_congr h (hn a List.mem_cons_self)
    exact ih h.tail fun y hy ↦ hn y (List.mem_cons_of_mem a hy)

/-- What stands in front of `p` is kept when the links behind it change. -/
theorem relink (h : Follows next (u ++ p :: w)) (hu : ∀ y ∈ u, next' y = next y)
    (hp : Follows next' (p :: v)) : Follows next' (u ++ p :: v) :=
  follows_split.mpr ⟨(follows_split.mp h).1.congr hu, hp⟩

/-- One more node behind the last one. -/
theorem snoc (h : Follows next (u ++ [p])) (hp : next p = a) : Follows next (u ++ [p] ++ [a]) := by
  rw [List.append_assoc]
  exact follows_split.mpr ⟨h, follows_cons_cons.mpr ⟨hp, List.isChain_singleton a⟩⟩

/-- A node is taken out. -/
theorem unlink (h : Follows next (u ++ p :: c :: (v ++ [b]))) (hp : next' p = next c)
    (hn : ∀ y ∈ u ++ v, next' y = next y) : Follows next' (u ++ p :: (v ++ [b])) := by
  have hc := (follows_split.mp h).2.tail
  apply relink h fun y hy ↦ hn y (List.mem_append_left v hy)
  apply hc.cons_congr hp
  exact hc.tail.congr fun y hy ↦ hn y (List.mem_append_right u hy)

/-- Two ways from one node agree until the longer one is back at `b`. -/
theorem exists_append (h : Follows next (a :: (u ++ [b]))) (hw : Follows next (a :: w))
    (hb : b ∉ w) : ∃ v, u = w ++ v := by
  induction w generalizing a u with
  | nil => exact ⟨u, rfl⟩
  | cons x w ih =>
    have hx := (follows_cons_cons.mp hw).1
    cases u with
    | nil =>
      have hab := (follows_cons_cons.mp h).1
      exact absurd (List.mem_cons.mpr (Or.inl (hab.symm.trans hx))) hb
    | cons y u =>
      have hy := (follows_cons_cons.mp h).1
      obtain rfl : y = x := hy.symm.trans hx
      obtain ⟨v, rfl⟩ := ih h.tail hw.tail fun hmem ↦ hb (List.mem_cons_of_mem y hmem)
      exact ⟨v, rfl⟩

end Follows

/-- The nodes of a ring, from the one that the pointer `b` leads to. -/
def Ring (next : ι → ι) (nil b : ι) : List ι → Prop
  | [] => b = nil
  | x :: l => b = x ∧ nil ∉ x :: l ∧ (x :: l).Nodup ∧ Follows next (x :: (l ++ [x]))

/-- The walk from `x` to the node whose link is `b`. -/
def predecessor [DecidableEq ι] (next : ι → ι) (b : ι) : Nat → ι → Option ι
  | 0, _ => none
  | fuel + 1, x => if next x = b then some x else predecessor next b fuel (next x)

namespace Ring

variable {nil : ι} {l : List ι}

theorem nodup (h : Ring next nil b l) : l.Nodup := by
  cases l with
  | nil => exact List.nodup_nil
  | cons x l => exact h.2.2.1

theorem nil_notMem (h : Ring next nil b l) : nil ∉ l := by
  cases l with
  | nil => exact List.not_mem_nil
  | cons x l => exact h.2.1

/-- Links outside the ring may change. -/
theorem congr (h : Ring next nil b l) (hn : ∀ y ∈ l, next' y = next y) : Ring next' nil b l := by
  cases l with
  | nil => exact h
  | cons x l =>
      obtain ⟨rfl, hnil, hnodup, hf⟩ := h
      exact ⟨rfl, hnil, hnodup, Follows.congr (u := b :: l) hf hn⟩

/-- The node behind the first one is where a ring goes on. -/
theorem next_head (h : Ring next nil b (x :: l)) : (l ++ [x]).head? = some (next x) := by
  cases l with
  | nil => exact congrArg some (follows_cons_cons.mp h.2.2.2).1.symm
  | cons y l => exact congrArg some (follows_cons_cons.mp h.2.2.2).1.symm

/-- The pointer moves on by one node. -/
theorem rotate (h : Ring next nil b (x :: l)) : Ring next nil (next x) (l ++ [x]) := by
  have hhead := h.next_head
  obtain ⟨rfl, hnil, hnodup, hf⟩ := h
  have hperm : (l ++ [b]).Perm (b :: l) := List.perm_append_singleton b l
  have hmem : nil ∉ l ++ [b] := fun hm ↦ hnil (hperm.mem_iff.mp hm)
  have hnd : (l ++ [b]).Nodup := hperm.nodup_iff.mpr hnodup
  cases l with
  | nil =>
      obtain ⟨hb, -⟩ := follows_cons_cons.mp hf
      exact ⟨hb, hmem, hnd, hf⟩
  | cons y l =>
      obtain ⟨hy, hrest⟩ := follows_cons_cons.mp hf
      refine ⟨hy, hmem, hnd, ?_⟩
      exact Follows.snoc (u := y :: l) hrest hy

/-- A node is linked in behind the first one and becomes the first one. -/
theorem insert (h : Ring next nil b l) (hc : c ∉ l) (hnil : c ≠ nil)
    (hb : ∀ y ∈ l.head?, next' y = c ∧ next' c = next y) (hself : l = [] → next' c = c)
    (hn : ∀ y ∈ l.tail, next' y = next y) :
    Ring next' nil c (c :: (l.tail ++ l.head?.toList)) := by
  cases l with
  | nil =>
      refine ⟨rfl, ?_, List.nodup_cons.mpr ⟨List.not_mem_nil, List.nodup_nil⟩, ?_⟩
      · rintro (_ | _)
        · exact hnil rfl
        · contradiction
      · exact follows_cons_cons.mpr ⟨hself rfl, List.isChain_singleton c⟩
  | cons x l =>
      obtain ⟨rfl, hnl, hnodup, hf⟩ := h
      obtain ⟨hbc, hcb⟩ := hb b rfl
      have hperm : (c :: (l ++ [b])).Perm (c :: b :: l) :=
        (List.perm_append_singleton b l).cons c
      refine ⟨rfl, fun hm ↦ ?_, ?_, ?_⟩
      · rcases List.mem_cons.mp (hperm.mem_iff.mp hm) with rfl | hm
        · exact hnil rfl
        · exact hnl hm
      · exact hperm.nodup_iff.mpr (List.nodup_cons.mpr ⟨hc, hnodup⟩)
      · -- from `c` on it is the old way round to `b`, which leads to `c` now
        have htail : Follows next' (l ++ [b]) := hf.tail.congr hn
        have hfront : Follows next' (c :: (l ++ [b])) := hf.cons_congr hcb htail
        exact Follows.snoc (u := c :: l) hfront hbc

/-- The walk round the ring ends at the last node. -/
theorem predecessor_eq [DecidableEq ι] (h : Ring next nil b (x :: l)) {fuel : Nat}
    (hfuel : l.length < fuel) :
    predecessor next b fuel b = (x :: l).getLast? := by
  obtain ⟨rfl, -, hnodup, hf⟩ := h
  have hall : ∀ (v : List ι) (y : ι) (n : Nat), v.length < n → b ∉ v →
      Follows next (y :: (v ++ [b])) → predecessor next b n y = (y :: v).getLast? := by
    intro v
    induction v with
    | nil =>
        intro y n hn _ hy
        obtain ⟨m, rfl⟩ := Nat.exists_eq_succ_of_ne_zero (Nat.ne_of_gt hn)
        exact if_pos (follows_cons_cons.mp hy).1
    | cons z v ih =>
        intro y n hn hb hy
        obtain ⟨m, rfl⟩ := Nat.exists_eq_succ_of_ne_zero (Nat.ne_of_gt (Nat.zero_lt_of_lt hn))
        obtain ⟨hz, hrest⟩ := follows_cons_cons.mp hy
        have hne : next y ≠ b := fun heq ↦ hb (by rw [← heq, hz]; exact List.mem_cons_self)
        rw [predecessor, if_neg hne, hz, List.getLast?_cons_cons]
        exact ih z m (Nat.lt_of_succ_lt_succ hn) (fun hm ↦ hb (List.mem_cons_of_mem z hm)) hrest
  exact hall l b fuel hfuel (List.nodup_cons.mp hnodup).1 hf

/-- The first node is taken out by the link of the last one. -/
theorem remove (h : Ring next nil c (x :: (u ++ [p]))) (hp : next' p = next x)
    (hn : ∀ y ∈ u, next' y = next y) : Ring next' nil (next x) (u ++ [p]) := by
  have hhead := h.next_head
  obtain ⟨rfl, hnil, hnodup, hf⟩ := h
  obtain ⟨hc, hnd⟩ := List.nodup_cons.mp hnodup
  have hnil' : nil ∉ u ++ [p] := fun hm ↦ hnil (List.mem_cons_of_mem c hm)
  have htail : Follows next' (u ++ [p]) := by
    have hold : Follows next (u ++ p :: [c]) := by simpa using hf.tail
    exact (follows_split.mp hold).1.congr hn
  cases u with
  | nil =>
      have hpc : next c = p := by simpa using hhead.symm
      exact ⟨hpc, hnil', hnd, follows_cons_cons.mpr ⟨hp.trans hpc, List.isChain_singleton p⟩⟩
  | cons y u =>
      have hy : next c = y := by simpa using hhead.symm
      refine ⟨hy, hnil', hnd, ?_⟩
      exact Follows.snoc (u := y :: u) htail (hp.trans hy)

end Ring

end Lib
