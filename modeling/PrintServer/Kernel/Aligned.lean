import PrintServer.Flash.Image
import PrintServer.Kernel.Kmalloc
import Mathlib.Data.Nat.Bitwise

/-!
# Aligned blocks

`kmalloc.c`: `kaligned_alloc` and `kaligned_free`.  The pointer that `kmalloc` returned is kept in
the four bytes in front of the aligned one.  The bytes are kept beside the headers: what is stored
beyond the end of a block does not change a header here.
-/

namespace PrintServer.Kernel

open Lib Flash

structure Ram where
  heap : Heap
  bytes : Memory

/-- The alignment in force. -/
def alignment (align : UInt32) : UInt32 := if align < 4 then 4 else align

def kalignedAlloc (fuel : Nat) (nb align : UInt32) (s : Ram) : Option (Nat × Ram) :=
  let align := alignment align - 1
  (kmalloc fuel (nb + 4 + align) false s.heap).map fun (p, heap) ↦
    if p = 0 then (0, { s with heap := heap })
    else
      let bytes := writeMem s.bytes p (List.replicate (nb + 4 + align).toNat 0)
      let cp := ((UInt32.ofNat p + 4 + align) &&& ~~~align).toNat
      (cp, ⟨heap, writeMem bytes (cp - 4) (le32 (UInt32.ofNat p))⟩)

def kalignedFree (fuel block : Nat) (s : Ram) : Option Ram :=
  if block = 0 then some s
  else
    let p := (nget32 s.bytes (block - 4)).toNat
    (kfree fuel p false s.heap).map fun heap ↦ { s with heap := heap }

/-- The pointer `r` is aligned, and so are its `nb` bytes and the four bytes before it in the block
at `p`; as long as these four bytes stay, `r` is freed as `p`. -/
structure WellAligned (nb align : UInt32) (s' : Ram) (p r : Nat) : Prop where
  multiple : (alignment align).toNat ∣ r
  front : p + 4 ≤ r
  inside : r + nb.toNat ≤ s'.heap.ends (header p)
  freed : ∀ fuel t, readMem t.bytes (r - 4) 4 = readMem s'.bytes (r - 4) 4 →
    kalignedFree fuel r t = (kfree fuel p false t.heap).map fun heap ↦ { t with heap := heap }

/-- The block at `p` and its header are in the memory that the heap is laid out in. -/
def InRam (h : Heap) (p : Nat) : Prop :=
  sizeofMCB ≤ p ∧ h.ends (header p) ≤ kFarHeap kmemBlocks

variable {h h' : Heap} {s s' : Ram} {nb align m x : UInt32} {k nu p r c fuel pre cur : Nat}

/-! ## The size of a block -/

/-- The links are addresses. -/
def Words (h : Heap) : Prop := ∀ a, h.next a < 2 ^ 32

theorem Words.setNext (hw : Words h) (hp : p < 2 ^ 32) : Words (h.setNext c p) := by
  intro a
  rw [Heap.next_setNext]
  split
  · exact hp
  · exact hw a

theorem Words.linkBlocks (hw : Words h) {n : Nat} (hn : n ≤ kmemBlocks) :
    Words (linkBlocks h n).1 := by
  induction n with
  | zero => exact hw
  | succ n ih =>
    have hstep : Kernel.linkBlocks h (n + 1) = linkBlock (Kernel.linkBlocks h n) n := by
      unfold Kernel.linkBlocks
      rw [List.range_succ, List.foldl_append]
      rfl
    rw [hstep]
    have hfar : kFarHeap n < 2 ^ 32 := by
      unfold kFarHeap kFarHeapBase
      change n + 1 ≤ 32 at hn
      omega
    exact (ih (by omega)).setNext hfar

theorem next_kmallocinit (h : Heap) : (kmallocinit h).next =
    ((linkBlocks { h.setSize kBase 1 with kAllocp := kBase } kmemBlocks).1.setNext kPktBase
      kBase).next := by
  unfold kmallocinit
  rfl

theorem Words.kmallocinit (hw : Words h) : Words (kmallocinit h) := by
  have hlink := @Words.linkBlocks { h.setSize kBase 1 with kAllocp := kBase } hw _
    (Nat.le_refl kmemBlocks)
  have hbase : kBase < 2 ^ 32 := by decide
  intro a
  rw [next_kmallocinit]
  exact hlink.setNext hbase a

theorem mcbAdd_lt (a n : Nat) : mcbAdd a n < 2 ^ 32 := Nat.mod_lt _ (by decide)

/-- The chunk in front of a pointer that was handed out is as large as it was asked for. -/
theorem room_handOut (hc : cur < 2 ^ 32) (hfit : nu ≤ h.mcbSize cur)
    (hp : sizeofMCB ≤ (handOut false nu pre cur h).1) :
    nu ≤ (handOut false nu pre cur h).2.mcbSize (header (handOut false nu pre cur h).1) := by
  have hheader : ∀ {a}, a < 2 ^ 32 → sizeofMCB ≤ mcbAdd a 1 → header (mcbAdd a 1) = a := by
    intro a ha hle
    unfold header mcbAdd sizeofMCB at *
    omega
  unfold handOut at hp ⊢
  by_cases hwhole : h.mcbSize cur ≤ nu + 1
  · simp only [if_pos hwhole, Bool.false_eq_true, if_false] at hp ⊢
    rw [hheader hc hp]
    exact hfit
  · simp only [if_neg hwhole, Bool.false_eq_true, if_false] at hp ⊢
    rw [hheader (mcbAdd_lt _ _) hp]
    exact Nat.le_of_eq Heap.mcbSize_setSize_self.symm

theorem room_search (hw : Words h) (hc : cur < 2 ^ 32)
    (hcall : search false nu h fuel pre cur = some (p, h')) (hp : sizeofMCB ≤ p) :
    nu ≤ h'.mcbSize (header p) := by
  induction fuel generalizing pre cur with
  | zero => cases hcall
  | succ fuel ih =>
    unfold search at hcall
    by_cases hfit : nu ≤ h.mcbSize cur
    · rw [if_pos hfit] at hcall
      have hroom := @room_handOut h nu pre cur hc hfit
      cases hcall
      exact hroom hp
    · rw [if_neg hfit] at hcall
      by_cases hstop : cur = h.kAllocp ∨ cur = h.kPktAllocp
      · rw [if_pos hstop] at hcall
        cases hcall
        exact absurd hp (by decide)
      · rw [if_neg hstop] at hcall
        exact ih (hw cur) hcall

theorem room_kmalloc (hw : Words h) (hcall : kmalloc fuel nb false h = some (p, h'))
    (hp : sizeofMCB ≤ p) : btou nb ≤ h'.mcbSize (header p) := by
  unfold kmalloc at hcall
  by_cases hnb : nb = 0
  · rw [if_pos hnb] at hcall
    cases hcall
    exact absurd hp (by decide)
  · have hw' : Words (if h.kAllocp = 0 then kmallocinit h else h) := by
      split
      · exact hw.kmallocinit
      · exact hw
    rw [if_neg hnb] at hcall
    exact room_search hw' (hw' _) hcall hp

/-! ## The aligned pointer -/

/-- The mask rounds down to a multiple of the power of two. -/
theorem toNat_and_not (hm : m.toNat = 2 ^ k - 1) :
    (x &&& ~~~m).toNat = x.toNat / 2 ^ k * 2 ^ k := by
  have hnot : (~~~m).toNat = 2 ^ 32 - (m.toNat + 1) := by
    rw [UInt32.toNat_not]
    change 2 ^ 32 - 1 - m.toNat = _
    omega
  apply Nat.eq_of_testBit_eq
  intro i
  rw [UInt32.toNat_and, Nat.testBit_and, hnot, Nat.testBit_two_pow_sub_succ m.toNat_lt, hm,
    Nat.testBit_two_pow_sub_one, Nat.testBit_mul_two_pow, Nat.testBit_div_two_pow]
  by_cases hi : i < k
  · simp [hi]
  · have hle : k ≤ i := by omega
    by_cases hlt : i < 32
    · simp [hi, hle, hlt]
    · have hx : x.toNat.testBit i = false := by
        apply Nat.testBit_lt_two_pow
        exact Nat.lt_of_lt_of_le x.toNat_lt (Nat.pow_le_pow_right (by decide) (by omega))
      simp [hle, hx]

/-- The alignment in force is a power of two from 4 on. -/
theorem alignment_eq (halign : align.toNat = 2 ^ k) :
    ∃ j, 2 ≤ j ∧ (alignment align).toNat = 2 ^ j := by
  unfold alignment
  by_cases hsmall : align < 4
  · rw [if_pos hsmall]
    exact ⟨2, Nat.le_refl 2, rfl⟩
  · rw [if_neg hsmall]
    refine ⟨k, Nat.le_of_not_lt fun hk ↦ hsmall ?_, halign⟩
    rw [UInt32.lt_iff_toNat_lt, halign]
    have hpow : 2 ^ k ≤ 2 ^ 1 := Nat.pow_le_pow_right (by decide) (by omega)
    change 2 ^ k < 4
    omega

/-- Rounding down what is a header word and the mask above leaves room for the header word. -/
theorem round_down {A : Nat} (hA : 0 < A) (p : Nat) :
    p + 4 ≤ (p + 4 + (A - 1)) / A * A ∧ (p + 4 + (A - 1)) / A * A ≤ p + 4 + (A - 1) := by
  have hmod := Nat.mod_lt (p + 4 + (A - 1)) hA
  have hdiv := Nat.div_add_mod' (p + 4 + (A - 1)) A
  omega

/-- The back pointer is read as it was stored. -/
theorem kalignedFree_eq {fuel : Nat} {t : Ram} {mem : Memory} (hr : r ≠ 0) (hp : p < 2 ^ 32)
    (hkept : readMem t.bytes (r - 4) 4 =
      readMem (writeMem mem (r - 4) (le32 (UInt32.ofNat p))) (r - 4) 4) :
    kalignedFree fuel r t = (kfree fuel p false t.heap).map fun heap ↦ { t with heap := heap } := by
  have hback : readMem t.bytes (r - 4) 4 = le32 (UInt32.ofNat p) :=
    hkept.trans (@readMem_writeMem _ mem (r - 4) (le32 (UInt32.ofNat p)))
  have hword : nget32 t.bytes (r - 4) = UInt32.ofNat p := by
    apply nget32_of_bytes
    intro i hi
    exact mem_of_readMem hback hi
  unfold kalignedFree
  rw [if_neg hr, hword, UInt32.toNat_ofNat_of_lt' hp]

/-- A block that is not `NULL` is aligned as it should be if and only if its size with the room for
the alignment does not wrap around. -/
theorem well_aligned_iff (hw : Words s.heap) (halign : align.toNat = 2 ^ k)
    (hcall : kalignedAlloc fuel nb align s = some (r, s')) (hr : r ≠ 0)
    (hram : ∀ p h', kmalloc fuel (nb + 4 + (alignment align - 1)) false s.heap = some (p, h') →
      p ≠ 0 → InRam h' p) :
    (∃ p, kmalloc fuel (nb + 4 + (alignment align - 1)) false s.heap = some (p, s'.heap) ∧
      WellAligned nb align s' p r) ↔ nb.toNat + (alignment align).toNat + 14 < 2 ^ 32 := by
  obtain ⟨j, hj, hA⟩ := alignment_eq halign
  have hlow : 4 ≤ 2 ^ j := Nat.pow_le_pow_right (by decide : 0 < 2) hj
  have hhigh : 2 ^ j ≤ 2 ^ 31 := by
    have hlt := (alignment align).toNat_lt
    rw [hA, Nat.pow_lt_pow_iff_right (by decide)] at hlt
    exact Nat.pow_le_pow_right (by decide) (by omega)
  have hmask : (alignment align - 1).toNat = 2 ^ j - 1 := by
    rw [UInt32.toNat_sub, hA]
    change (2 ^ 32 - 1 + 2 ^ j) % 2 ^ 32 = 2 ^ j - 1
    omega
  unfold kalignedAlloc at hcall
  obtain ⟨⟨p, heap⟩, hkmalloc, hres⟩ := Option.map_eq_some_iff.mp hcall
  by_cases hnull : p = 0
  · simp only [if_pos hnull] at hres
    cases hres
    exact absurd rfl hr
  simp only [if_neg hnull] at hres
  obtain ⟨hp, hends⟩ := hram p heap hkmalloc hnull
  have htop : kFarHeap kmemBlocks = 0x800000 := rfl
  rw [hA]
  cases hres
  constructor
  · rintro ⟨q, hq, hright⟩
    have hpq : p = q := by
      rw [hkmalloc] at hq
      cases hq
      rfl
    have hinside := hright.inside
    rw [← hpq] at hinside
    change _ ≤ heap.ends (header p) at hinside
    omega
  · intro hfits
    have htotal : (nb + 4 + (alignment align - 1)).toNat = nb.toNat + 4 + (2 ^ j - 1) := by
      rw [UInt32.toNat_add, UInt32.toNat_add, hmask]
      change ((nb.toNat + 4) % 2 ^ 32 + (2 ^ j - 1)) % 2 ^ 32 = _
      omega
    have hroom := room_kmalloc hw hkmalloc hp
    rw [btou_eq, htotal] at hroom
    have hblock : heap.ends (header p) = p - 12 + 12 * heap.mcbSize (header p) := rfl
    change 12 ≤ p at hp
    have hword : p < 2 ^ 32 := by omega
    have hcp : (UInt32.ofNat p + 4 + (alignment align - 1)).toNat = p + 4 + (2 ^ j - 1) := by
      rw [UInt32.toNat_add, UInt32.toNat_add, hmask, UInt32.toNat_ofNat_of_lt' hword]
      change ((p + 4) % 2 ^ 32 + (2 ^ j - 1)) % 2 ^ 32 = _
      omega
    obtain ⟨hfront, hback⟩ := @round_down (2 ^ j) (by omega) p
    have hr' := @toNat_and_not _ (UInt32.ofNat p + 4 + (alignment align - 1)) j hmask
    rw [hcp] at hr'
    refine ⟨p, hkmalloc, ?_, ?_, ?_, fun fuel t hkept ↦ kalignedFree_eq hr hword hkept⟩
    · rw [hr', hA]
      exact Nat.dvd_mul_left _ _
    · rw [hr']
      exact hfront
    · rw [hr']
      change _ ≤ heap.ends (header p)
      omega

/-- A free list of one block. -/
def oneBlock : Heap :=
  let h : Heap := ⟨fun _ ↦ 0, fun _ ↦ 1, kBase, kPktBase, 5461, 0, 5461⟩
  ((h.setNext kBase (kFarHeap 0)).setNext (kFarHeap 0) kBase).setSize (kFarHeap 0) 5461

theorem words_oneBlock : Words oneBlock := by
  have hnone : Words ⟨fun _ ↦ 0, fun _ ↦ 1, kBase, kPktBase, 5461, 0, 5461⟩ :=
    fun _ ↦ Nat.two_pow_pos 32
  have hfar : kFarHeap 0 < 2 ^ 32 := by decide
  have hbase : kBase < 2 ^ 32 := by decide
  exact (hnone.setNext hfar).setNext hbase

theorem well_aligned_hundred : ∃ s' p,
    kalignedAlloc 1 100 16 ⟨oneBlock, fun _ ↦ 0⟩ = some (6356880, s') ∧
      kmalloc 1 119 false oneBlock = some (p, s'.heap) ∧ WellAligned 100 16 s' p 6356880 := by
  have hcall : ∃ s', kalignedAlloc 1 100 16 ⟨oneBlock, fun _ ↦ 0⟩ = some (6356880, s') := ⟨_, rfl⟩
  obtain ⟨s', hs'⟩ := hcall
  have hright := (@well_aligned_iff ⟨oneBlock, fun _ ↦ 0⟩ s' 100 16 4 6356880 1 words_oneBlock rfl
    hs' (by decide) (fun p h' hkmalloc _ ↦ by cases hkmalloc; unfold InRam; decide)).mpr (by decide)
  obtain ⟨p, hp⟩ := hright
  exact ⟨s', p, hs', hp⟩

/-- The size with the room for the alignment is 3: the block is far too small. -/
theorem aligned_wraps : ∃ s',
    kalignedAlloc 1 0xFFFFFFF0 16 ⟨oneBlock, fun _ ↦ 0⟩ = some (6356992, s') ∧
      ¬ ∃ p, kmalloc 1 (0xFFFFFFF0 + 4 + 15) false oneBlock = some (p, s'.heap) ∧
        WellAligned 0xFFFFFFF0 16 s' p 6356992 := by
  refine ⟨_, rfl, ?_⟩
  rintro ⟨p, hp, hright⟩
  have hinside := hright.inside
  cases hp
  revert hinside
  decide

end PrintServer.Kernel
