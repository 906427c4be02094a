import Mathlib.Algebra.Group.Nat.Defs
import Mathlib.Data.List.Range
import Mathlib.Logic.Function.Basic

/-!
# The kernel heap

`kmalloc.c`: `kmallocinit`, `kmalloc` and `kfree`.  A header is kept under its address, and the
address of a chunk is that of its header.
-/

namespace PrintServer.Kernel

/-! ## Headers -/

/-- The headers in memory and the variables of the module. -/
structure Heap where
  next : Nat → Nat
  mcbSize : Nat → Nat
  kAllocp : Nat
  kPktAllocp : Nat
  kAvailmem : UInt32
  kPktAvailmem : UInt32
  kminiAvailmem : UInt32

def sizeofMCB : Nat := 12

/-- Pointer arithmetic on headers. -/
def mcbAdd (p n : Nat) : Nat := (p + sizeofMCB * n) % 2 ^ 32

def btou (nb : UInt32) : Nat := ((nb + 12 - 1) / 12 + 1).toNat

/-- The size asked for is rounded up modulo `2 ^ 32`. -/
theorem btou_eq (nb : UInt32) : btou nb = (nb.toNat + 11) % 2 ^ 32 / 12 + 1 := by
  have hsum : (nb + 12 - 1).toNat = (nb.toNat + 11) % 2 ^ 32 := by
    rw [UInt32.toNat_sub, UInt32.toNat_add]
    change (2 ^ 32 - 1 + (nb.toNat + 12) % 2 ^ 32) % 2 ^ 32 = _
    omega
  unfold btou
  rw [UInt32.toNat_add, UInt32.toNat_div, hsum]
  change ((nb.toNat + 11) % 2 ^ 32 / 12 + 1) % 2 ^ 32 = _
  omega

/-- The addresses of the two static headers. -/
def kBase : Nat := 0x0037BACC

def kPktBase : Nat := 0x0037BADC

def kHWRAM : Nat := 31

def kmemBlocks : Nat := (kHWRAM + 1) * 64 / 64

def kFarHeapBase : Nat := 0x00600000

def kFarHeap (i : Nat) : Nat := kFarHeapBase + i * 0x10000

def block2Size : Nat := 0x10000

namespace Heap

def setNext (h : Heap) (p v : Nat) : Heap := { h with next := Function.update h.next p v }

def setSize (h : Heap) (p n : Nat) : Heap := { h with mcbSize := Function.update h.mcbSize p n }

/-- The end of the chunk at `a`. -/
def ends (h : Heap) (a : Nat) : Nat := a + sizeofMCB * h.mcbSize a

variable {h : Heap} {p v n x : Nat}

theorem next_setNext : (h.setNext p v).next x = if x = p then v else h.next x :=
  Function.update_apply h.next p v x

@[simp] theorem next_setNext_self : (h.setNext p v).next p = v := Function.update_self ..

theorem next_setNext_of_ne (hx : x ≠ p) : (h.setNext p v).next x = h.next x :=
  Function.update_of_ne hx ..

@[simp] theorem mcbSize_setNext : (h.setNext p v).mcbSize = h.mcbSize := rfl

@[simp] theorem mcbSize_setSize_self : (h.setSize p n).mcbSize p = n := Function.update_self ..

theorem mcbSize_setSize_of_ne (hx : x ≠ p) : (h.setSize p n).mcbSize x = h.mcbSize x :=
  Function.update_of_ne hx ..

@[simp] theorem next_setSize : (h.setSize p n).next = h.next := rfl

@[simp] theorem kAllocp_setNext : (h.setNext p v).kAllocp = h.kAllocp := rfl

@[simp] theorem kPktAllocp_setNext : (h.setNext p v).kPktAllocp = h.kPktAllocp := rfl

@[simp] theorem kAllocp_setSize : (h.setSize p n).kAllocp = h.kAllocp := rfl

@[simp] theorem kPktAllocp_setSize : (h.setSize p n).kPktAllocp = h.kPktAllocp := rfl

end Heap

/-! ## kmallocinit -/

/-- One round of the loop over the blocks, with `CurBlock`. -/
def linkBlock (s : Heap × Nat) (i : Nat) : Heap × Nat :=
  let nu := (block2Size - 1) / sizeofMCB
  let h := (s.1.setNext s.2 (kFarHeap i)).setSize (kFarHeap i) nu
  ({ h with kAvailmem := h.kAvailmem + UInt32.ofNat nu }, kFarHeap i)

def linkBlocks (h : Heap) (n : Nat) : Heap × Nat := (List.range n).foldl linkBlock (h, kBase)

def kmallocinit (h : Heap) : Heap :=
  let h := { h.setSize kBase 1 with kAllocp := kBase }
  let h := (linkBlocks h kmemBlocks).1
  -- `CurBlock` is `&kPktBase` when the ring is to be closed
  let h := { h with kPktAllocp := kPktBase }
  let h := h.setNext kPktBase kBase
  { h with kminiAvailmem := h.kAvailmem }

/-! ## kmalloc -/

/-- The chunk at `cur` is handed out, `pre` is in front of it. -/
def handOut (pkt : Bool) (nu pre cur : Nat) (h : Heap) : Nat × Heap :=
  let (cur, h) :=
    if h.mcbSize cur ≤ nu + 1 then (cur, h.setNext pre (h.next cur))
    else
      let h := h.setSize cur (h.mcbSize cur - nu)
      let cur := mcbAdd cur (h.mcbSize cur)
      (cur, h.setSize cur nu)
  let h := h.setNext cur cur
  let size := UInt32.ofNat (h.mcbSize cur)
  let h :=
    if pkt then { h with kPktAvailmem := h.kPktAvailmem - size }
    else
      let avail := h.kAvailmem - size
      { h with
        kAvailmem := avail
        kminiAvailmem := if avail < h.kminiAvailmem then avail else h.kminiAvailmem }
  (mcbAdd cur 1, h)

def search (pkt : Bool) (nu : Nat) (h : Heap) : Nat → Nat → Nat → Option (Nat × Heap)
  | 0, _, _ => none
  | fuel + 1, pre, cur =>
    if nu ≤ h.mcbSize cur then some (handOut pkt nu pre cur h)
    else if cur = h.kAllocp ∨ cur = h.kPktAllocp then some (0, h)
    else search pkt nu h fuel cur (h.next cur)

/-- `kmalloc` with the pointer it returns; `none` when the search takes more than `fuel` rounds. -/
def kmalloc (fuel : Nat) (nb : UInt32) (pkt : Bool) (h : Heap) : Option (Nat × Heap) :=
  if nb = 0 then some (0, h)
  else
    let h := if h.kAllocp = 0 then kmallocinit h else h
    let pre := if pkt then h.kPktAllocp else h.kAllocp
    search pkt (btou nb) h fuel pre (h.next pre)

/-! ## kfree -/

/-- The place on the list for the chunk at `cur`. -/
def findPlace (h : Heap) (cur : Nat) : Nat → Nat → Option Nat
  | 0, _ => none
  | fuel + 1, free =>
    if cur > free ∧ cur < h.next free then some free
    else if free ≥ h.next free ∧ (cur > free ∨ cur < h.next free) then some free
    else findPlace h cur fuel (h.next free)

/-- The chunk at `cur` is joined with the one behind `free`, or linked in front of it. -/
def joinFront (cur free : Nat) (h : Heap) : Heap :=
  if mcbAdd cur (h.mcbSize cur) = h.next free then
    let h := h.setSize cur ((h.mcbSize cur + h.mcbSize (h.next free)) % 2 ^ 32)
    h.setNext cur (h.next (h.next free))
  else h.setNext cur (h.next free)

/-- The chunk at `cur` is joined with the one at `free`, or linked behind it. -/
def joinEnd (cur free : Nat) (h : Heap) : Heap :=
  if mcbAdd free (h.mcbSize free) = cur then
    let h := h.setSize free ((h.mcbSize free + h.mcbSize cur) % 2 ^ 32)
    h.setNext free (h.next cur)
  else h.setNext free cur

/-- The header of a pointer that `kmalloc` returned. -/
def header (block : Nat) : Nat := block - sizeofMCB

def kfree (fuel : Nat) (block : Nat) (pkt : Bool) (h : Heap) : Option Heap :=
  if block = 0 then some h
  else
    let cur := header block
    -- the audit check
    if h.next cur ≠ cur then some h
    else
      let size := UInt32.ofNat (h.mcbSize cur)
      let h :=
        if pkt then { h with kPktAvailmem := h.kPktAvailmem + size }
        else { h with kAvailmem := h.kAvailmem + size }
      let start := if pkt then h.kPktAllocp else h.kAllocp
      (findPlace h cur fuel start).map fun free ↦ joinEnd cur free (joinFront cur free h)

/-! ## The heap in use -/

/-- What the owner of the chunk at `c` stores behind its header can change the header at `x`. -/
def Touches (h : Heap) (c x : Nat) : Prop := c < x ∧ x < h.ends c

/-- The heaps that calls with flag 0 and sizes as in `sizes` lead to from `kmallocinit`, with the
pointers that were returned and not yet freed.  Between the calls the owners store into their
blocks. -/
inductive Asking (sizes : UInt32 → Prop) (ram : Heap) : Heap → List Nat → Prop
  | init : Asking sizes ram (kmallocinit ram) []
  | alloc {h h' : Heap} {live : List Nat} {fuel : Nat} {nb : UInt32} {block : Nat} :
      Asking sizes ram h live → sizes nb → kmalloc fuel nb false h = some (block, h') →
        Asking sizes ram h' (if block = 0 then live else block :: live)
  | free {h h' : Heap} {live : List Nat} {fuel block : Nat} :
      Asking sizes ram h live → block ∈ live → kfree fuel block false h = some h' →
        Asking sizes ram h' (live.erase block)
  | store {h : Heap} {live : List Nat} {next mcbSize : Nat → Nat} :
      Asking sizes ram h live →
        (∀ x, (∀ block ∈ live, ¬ Touches h (header block) x) →
          next x = h.next x ∧ mcbSize x = h.mcbSize x) →
        Asking sizes ram { h with next := next, mcbSize := mcbSize } live

/-- The calls ask for any size. -/
abbrev Reaches (ram : Heap) : Heap → List Nat → Prop := Asking (fun _ ↦ True) ram

end PrintServer.Kernel
