import PrintServer.Kernel.Kmalloc
import Mathlib.Algebra.GroupWithZero.Nat
import Mathlib.Data.List.Perm.Basic
import Mathlib.Data.List.Pairwise

/-!
# Units and what they cover

Chunks that are cut or joined have as many units as before and cover the same memory.
-/

namespace PrintServer.Kernel

def units (h : Heap) (l : List Nat) : Nat := (l.map h.mcbSize).sum

/-- The address `x` is in one of the chunks. -/
def Covers (h : Heap) (l : List Nat) (x : Nat) : Prop := ∃ a ∈ l, a ≤ x ∧ x < h.ends a

/-- The chunks `l'` of `h'` are the chunks `l` of `h`, cut or joined. -/
structure Conserves (h : Heap) (l : List Nat) (h' : Heap) (l' : List Nat) : Prop where
  units : units h' l' = units h l
  covers : ∀ x, Covers h' l' x ↔ Covers h l x

variable {h h' h'' : Heap} {l l' l'' : List Nat} {a b x lo hi : Nat}

theorem ends_congr (ha : h'.mcbSize a = h.mcbSize a) : h'.ends a = h.ends a := by
  unfold Heap.ends
  rw [ha]

@[simp] theorem units_cons : units h (a :: l) = h.mcbSize a + units h l := rfl

theorem units_congr (hs : ∀ a ∈ l, h'.mcbSize a = h.mcbSize a) : units h' l = units h l :=
  congrArg List.sum (List.map_congr_left hs)

@[simp] theorem covers_cons :
    Covers h (a :: l) x ↔ (a ≤ x ∧ x < h.ends a) ∨ Covers h l x := by
  rw [Covers, List.exists_mem_cons_iff]
  rfl

theorem covers_append : Covers h (l ++ l') x ↔ Covers h l x ∨ Covers h l' x := by
  constructor
  · rintro ⟨a, ha, hx⟩
    exact (List.mem_append.mp ha).imp (fun ha ↦ ⟨a, ha, hx⟩) fun ha ↦ ⟨a, ha, hx⟩
  · rintro (⟨a, ha, hx⟩ | ⟨a, ha, hx⟩)
    · exact ⟨a, List.mem_append_left _ ha, hx⟩
    · exact ⟨a, List.mem_append_right _ ha, hx⟩

theorem covers_congr (hs : ∀ a ∈ l, h'.mcbSize a = h.mcbSize a) :
    Covers h' l x ↔ Covers h l x := by
  refine exists_congr fun a ↦ and_congr_right fun ha ↦ ?_
  rw [ends_congr (hs a ha)]

namespace Conserves

theorem trans (h1 : Conserves h l h' l') (h2 : Conserves h' l' h'' l'') :
    Conserves h l h'' l'' :=
  ⟨h2.units.trans h1.units, fun x ↦ (h2.covers x).trans (h1.covers x)⟩

theorem symm (h1 : Conserves h l h' l') : Conserves h' l' h l :=
  ⟨h1.units.symm, fun x ↦ (h1.covers x).symm⟩

/-- The same chunks in another order. -/
theorem of_perm (hperm : l'.Perm l) (hs : ∀ a ∈ l, h'.mcbSize a = h.mcbSize a) :
    Conserves h l h' l' := by
  constructor
  · exact (hperm.map h'.mcbSize).sum_nat.trans (units_congr hs)
  · intro x
    rw [← covers_congr hs]
    exact ⟨fun ⟨a, ha, hx⟩ ↦ ⟨a, hperm.mem_iff.mp ha, hx⟩,
      fun ⟨a, ha, hx⟩ ↦ ⟨a, hperm.mem_iff.mpr ha, hx⟩⟩

/-- A chunk takes over the one behind it. -/
theorem join (hab : h.ends a = b) (hends : h'.ends a = h.ends b)
    (hs : ∀ x ∈ l, h'.mcbSize x = h.mcbSize x) : Conserves h (a :: b :: l) h' (a :: l) := by
  have hendsa : h.ends a = a + 12 * h.mcbSize a := rfl
  have hendsb : h.ends b = b + 12 * h.mcbSize b := rfl
  have hends' : h'.ends a = a + 12 * h'.mcbSize a := rfl
  constructor
  · rw [units_cons, units_cons, units_cons, units_congr hs]
    omega
  · intro x
    rw [covers_cons, covers_cons, covers_cons, covers_congr hs, ← or_assoc]
    apply or_congr_left
    omega

end Conserves

/-- Chunks in address order, with room between them, have no more units than their range. -/
theorem units_le (hlo : ∀ a ∈ l, lo ≤ a) (hhi : ∀ a ∈ l, h.ends a ≤ hi) (hle : lo ≤ hi)
    (hbelow : l.Pairwise fun a b ↦ h.ends a < b) : lo + 12 * units h l ≤ hi := by
  induction l generalizing lo with
  | nil => exact hle
  | cons a l ih =>
    obtain ⟨habove, hrest⟩ := List.pairwise_cons.mp hbelow
    have hfirst := hlo a List.mem_cons_self
    have hends : h.ends a = a + 12 * h.mcbSize a := rfl
    have hend := ih (fun b hb ↦ Nat.le_of_lt (habove b hb))
      (fun b hb ↦ hhi b (List.mem_cons_of_mem a hb)) (hhi a List.mem_cons_self) hrest
    rw [units_cons]
    omega

end PrintServer.Kernel
