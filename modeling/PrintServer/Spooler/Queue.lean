import Mathlib.Data.List.Perm.Basic
import Mathlib.Logic.Function.Basic
import PrintServer.Lib.LinkedList

/-!
# The spool queue

`PrinterList[PrnPort]` of prnqueue.c with its two lists threaded through one `Nextbuf` field, and
the operations on it.  Each runs between `dirps` and `restore`, so it is one step.  A `PrnBuf *`
is the index of the buffer in `buf`, which is how the code turns it into a `uint8`.
-/

namespace PrintServer.Spooler

open Lib

def nullByte : UInt8 := 0xFF
def prnQueueLen : Nat := 10
def numOfPrnPort : Nat := 1
def blockSize : Nat := 1460 * 7
def printQueueAddress : Nat := 0x00530000

def prnNoUsed : UInt8 := 0x00
def prnAbortUsed : UInt8 := 0x01
def prnQNormal : UInt8 := 0
def prnQEof : UInt8 := 1
def prnQAbort : UInt8 := 2

structure PrnBuf where
  size : Int
  data : Nat
  flags : UInt8
  nextbuf : UInt8
deriving DecidableEq

/-- `PrinterList[PrnPort]`, with `pNoUseBuf[PrnPort]`, which the source keeps in an array beside
it. -/
structure PrintStatus where
  buf : UInt8 → PrnBuf
  inUse : UInt8
  outQueueHead : UInt8
  outQueueTail : UInt8
  inQueue : UInt8
  availQueueNO : UInt8
  pNoUseBuf : Option UInt8

abbrev PrinterList := Nat → PrintStatus

def setBuf (buf : UInt8 → PrnBuf) (i : UInt8) (b : PrnBuf) : UInt8 → PrnBuf :=
  fun j ↦ if j = i then b else buf j

/-- Static storage before the start code has run. -/
def zeroPrinterList : PrinterList := fun _ ↦
  { buf := fun _ ↦ ⟨0, 0, 0, 0⟩, inUse := 0, outQueueHead := 0, outQueueTail := 0, inQueue := 0,
    availQueueNO := 0, pNoUseBuf := none }

def prnQueueInit (l : PrinterList) : PrinterList := fun prnPort ↦
  if prnPort < numOfPrnPort then
    { l prnPort with
      buf := fun j ↦
        if j.toNat < prnQueueLen then
          { (l prnPort).buf j with
            data := printQueueAddress + (prnPort * prnQueueLen + j.toNat) * (blockSize + 20) }
        else (l prnPort).buf j }
  else l prnPort

def prnPrinterInit (l : PrinterList) : PrinterList := fun prnPort ↦
  if prnPort < numOfPrnPort then
    { l prnPort with
      outQueueHead := nullByte
      outQueueTail := nullByte
      inUse := prnNoUsed
      availQueueNO := UInt8.ofNat prnQueueLen
      inQueue := 0
      pNoUseBuf := none
      buf := fun i ↦
        if i.toNat < prnQueueLen - 1 then { (l prnPort).buf i with nextbuf := i + 1 }
        else if i.toNat = prnQueueLen - 1 then { (l prnPort).buf i with nextbuf := nullByte }
        else (l prnPort).buf i }
  else l prnPort

def prnGetInQueueBuf (p : PrintStatus) : Option UInt8 × PrintStatus :=
  if p.inQueue = nullByte then (none, p)
  else
    (some p.inQueue,
      { p with
        availQueueNO := p.availQueueNO - 1
        inQueue := (p.buf p.inQueue).nextbuf })

def prnPutOutQueueBuf (p : PrintStatus) (b flags : UInt8) : PrintStatus :=
  let buf := setBuf p.buf b { p.buf b with nextbuf := nullByte, flags := flags }
  if p.outQueueTail = nullByte then
    { p with buf := buf, outQueueTail := b, outQueueHead := b }
  else
    { p with
      buf := setBuf buf p.outQueueTail { buf p.outQueueTail with nextbuf := b }
      outQueueTail := b }

def prnGetOutQueueBuf (p : PrintStatus) : Option UInt8 × PrintStatus :=
  if p.outQueueHead = nullByte then (none, p)
  else
    let head := (p.buf p.outQueueHead).nextbuf
    (some p.outQueueHead,
      { p with
        outQueueHead := head
        outQueueTail := if head = nullByte then nullByte else p.outQueueTail })

def prnPutInQueueBuf (p : PrintStatus) (b : UInt8) : PrintStatus :=
  { p with
    inQueue := b
    buf := setBuf p.buf b { p.buf b with nextbuf := p.inQueue }
    availQueueNO := p.availQueueNO + 1 }

/-- The first line of `DMAPrinting`: the buffer of the call before goes back. -/
def releaseNoUse (p : PrintStatus) : PrintStatus :=
  match p.pNoUseBuf with
  | some b => prnPutInQueueBuf p b
  | none => p

/-- The queue side of `DMAPrinting`; the buffer it returns is the one handed to `StartDMAIO`, and
none is the return value 0. -/
def dmaPrinting (p : PrintStatus) : Option UInt8 × PrintStatus :=
  match prnGetOutQueueBuf (releaseNoUse p) with
  | (none, p) => (none, { p with pNoUseBuf := none })
  | (some b, p) =>
      if (p.buf b).size = 0 then (none, { prnPutInQueueBuf p b with pNoUseBuf := none })
      else (some b, { p with pNoUseBuf := some b })

/-- What a caller does to a buffer it holds before it puts it back. -/
def writePrnBuf (p : PrintStatus) (b : UInt8) (size : Int) : PrintStatus :=
  { p with buf := setBuf p.buf b { p.buf b with size := size } }

@[simp] theorem setBuf_self (buf : UInt8 → PrnBuf) (i : UInt8) (b : PrnBuf) :
    setBuf buf i b i = b := if_pos rfl

@[simp] theorem setBuf_of_ne {buf : UInt8 → PrnBuf} {i j : UInt8} {b : PrnBuf} (h : j ≠ i) :
    setBuf buf i b j = buf j := if_neg h

/-! ## The queue as lists -/

def PrintStatus.next (p : PrintStatus) (i : UInt8) : UInt8 := (p.buf i).nextbuf

def allBufs : List UInt8 := (List.range prnQueueLen).map UInt8.ofNat

/-- The abstract queue: `free` and `out` are what the links of the two lists visit, `rest` is
every buffer that is on neither. -/
structure QueueLists (p : PrintStatus) (free out rest : List UInt8) : Prop where
  freeChain : Linked p.next nullByte p.inQueue free
  outChain : Linked p.next nullByte p.outQueueHead out
  tail : p.outQueueTail = out.getLast?.getD nullByte
  avail : p.availQueueNO.toNat = free.length
  partition : (free ++ out ++ rest).Perm allBufs

theorem allBufs_nodup : allBufs.Nodup := by decide

theorem nullByte_notMem_allBufs : nullByte ∉ allBufs := by decide

namespace QueueLists

variable {p p' : PrintStatus} {free out rest : List UInt8} {b flags : UInt8}

theorem nodup (h : QueueLists p free out rest) : (free ++ out ++ rest).Nodup :=
  h.partition.nodup_iff.mpr allBufs_nodup

theorem ne_nullByte (h : QueueLists p free out rest) (hb : b ∈ free ++ out ++ rest) :
    b ≠ nullByte := by
  rintro rfl
  exact nullByte_notMem_allBufs (h.partition.mem_iff.mp hb)

theorem rest_ne_nullByte (h : QueueLists p free out rest) (hb : b ∈ rest) : b ≠ nullByte :=
  h.ne_nullByte (List.mem_append_right _ hb)

theorem notMem_free (h : QueueLists p free out rest) (hb : b ∈ rest) : b ∉ free := by
  have hd := (List.nodup_append.mp h.nodup).2.2
  exact fun hf ↦ hd b (List.mem_append_left _ hf) b hb rfl

theorem notMem_out (h : QueueLists p free out rest) (hb : b ∈ rest) : b ∉ out := by
  have hd := (List.nodup_append.mp h.nodup).2.2
  exact fun hf ↦ hd b (List.mem_append_right _ hf) b hb rfl

theorem free_out_disjoint (h : QueueLists p free out rest) (hb : b ∈ out) : b ∉ free := by
  have hd := (List.nodup_append.mp (List.nodup_append.mp h.nodup).1).2.2
  exact fun hf ↦ hd b hf b hb rfl

theorem length_free_add_rest (h : QueueLists p free out rest) :
    free.length + out.length + rest.length = prnQueueLen := by
  have hl := h.partition.length_eq
  simp only [List.length_append, allBufs, List.length_map, List.length_range] at hl
  exact hl

theorem rest_perm (h : QueueLists p free out rest) {rest' : List UInt8}
    (hr : rest'.Perm rest) : QueueLists p free out rest' :=
  { h with partition := (hr.append_left _).trans h.partition }

theorem tail_eq_nullByte_iff (h : QueueLists p free out rest) :
    p.outQueueTail = nullByte ↔ out = [] := by
  rw [h.tail]
  cases hl : out.getLast? with
  | none => simpa using hl
  | some b =>
      have hb : b ∈ out := List.mem_of_getLast? hl
      refine iff_of_false (h.ne_nullByte (by simp [hb])) ?_
      rintro rfl
      simp at hl

/-- The lists only depend on the links, the heads, the tail and the counter. -/
theorem of_eq (h : QueueLists p free out rest) (hn : ∀ i, p'.next i = p.next i)
    (hin : p'.inQueue = p.inQueue) (hhead : p'.outQueueHead = p.outQueueHead)
    (htail : p'.outQueueTail = p.outQueueTail) (havail : p'.availQueueNO = p.availQueueNO) :
    QueueLists p' free out rest where
  freeChain := hin ▸ h.freeChain.congr (fun x _ ↦ hn x)
  outChain := hhead ▸ h.outChain.congr (fun x _ ↦ hn x)
  tail := htail ▸ h.tail
  avail := havail ▸ h.avail
  partition := h.partition

end QueueLists

end PrintServer.Spooler
