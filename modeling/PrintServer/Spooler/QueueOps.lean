import PrintServer.Lib.Machine
import PrintServer.Spooler.Queue

/-!
# What the queue operations do to the lists

One lemma for each operation of prnqueue.c, and from them the partition of the buffers along
every sequence of calls.
-/

namespace PrintServer.Spooler

open Lib

namespace QueueLists

variable {p : PrintStatus} {free out rest : List UInt8} {b x flags : UInt8}

theorem next_writePrnBuf (size : Int) (i : UInt8) : (writePrnBuf p b size).next i = p.next i := by
  unfold PrintStatus.next writePrnBuf
  by_cases h : i = b
  · subst h; simp
  · simp [h]

theorem writePrnBuf (h : QueueLists p free out rest) (size : Int) :
    QueueLists (writePrnBuf p b size) free out rest :=
  h.of_eq (next_writePrnBuf size) rfl rfl rfl rfl

theorem getIn (h : QueueLists p (x :: free) out rest) :
    (prnGetInQueueBuf p).1 = some x ∧
      QueueLists (prnGetInQueueBuf p).2 free out (x :: rest) := by
  obtain ⟨hx, hnil, hchain⟩ := h.freeChain
  have hne : p.inQueue ≠ nullByte := hx ▸ hnil
  rw [prnGetInQueueBuf, if_neg hne]
  refine ⟨congrArg some hx, ?_⟩
  have hav : (p.availQueueNO - 1).toNat = free.length := by
    have ha : p.availQueueNO.toNat = free.length + 1 := h.avail
    have hle : (1 : UInt8) ≤ p.availQueueNO := by
      rw [UInt8.le_iff_toNat_le, ha]; exact Nat.le_add_left 1 _
    rw [UInt8.toNat_sub_of_le _ _ hle, ha]
    rfl
  exact
    { freeChain := by
        change Linked p.next nullByte (p.next p.inQueue) free
        rw [hx]
        exact hchain
      outChain := h.outChain
      tail := h.tail
      avail := hav
      partition := by
        refine List.Perm.trans ?_ h.partition
        exact List.perm_middle }

theorem putIn (h : QueueLists p free out rest) (hb : b ∈ rest) :
    QueueLists (prnPutInQueueBuf p b) (b :: free) out (rest.erase b) := by
  have hnext : ∀ y, y ≠ b → (prnPutInQueueBuf p b).next y = p.next y := fun y hy ↦ by
    simp [PrintStatus.next, prnPutInQueueBuf, hy]
  have hself : (prnPutInQueueBuf p b).next b = p.inQueue := by
    simp [PrintStatus.next, prnPutInQueueBuf]
  have hfree : ∀ y ∈ free, y ≠ b := fun y hy hyb ↦ h.notMem_free hb (hyb ▸ hy)
  have hout : ∀ y ∈ out, y ≠ b := fun y hy hyb ↦ h.notMem_out hb (hyb ▸ hy)
  have hav : (p.availQueueNO + 1).toNat = free.length + 1 := by
    have hl := h.length_free_add_rest
    have ha := h.avail
    simp only [prnQueueLen] at hl
    rw [UInt8.toNat_add, ha, UInt8.toNat_one]
    omega
  exact
    { freeChain := h.freeChain.push (h.rest_ne_nullByte hb) hself (fun y hy ↦ hnext y (hfree y hy))
      outChain := h.outChain.congr (fun y hy ↦ hnext y (hout y hy))
      tail := h.tail
      avail := hav
      partition := by
        refine List.Perm.trans ?_ h.partition
        rw [List.cons_append, List.cons_append]
        refine List.Perm.trans List.perm_middle.symm ?_
        exact (List.perm_cons_erase hb).symm.append_left _ }

theorem putOut (h : QueueLists p free out rest) (hb : b ∈ rest) :
    QueueLists (prnPutOutQueueBuf p b flags) free (out ++ [b]) (rest.erase b) := by
  have hbnil := h.rest_ne_nullByte hb
  have hfree : ∀ y ∈ free, y ≠ b := fun y hy hyb ↦ h.notMem_free hb (hyb ▸ hy)
  have hout : ∀ y ∈ out, y ≠ b := fun y hy hyb ↦ h.notMem_out hb (hyb ▸ hy)
  have hpart : (free ++ (out ++ [b]) ++ rest.erase b).Perm allBufs := by
    refine List.Perm.trans ?_ h.partition
    rw [← List.append_assoc, List.append_assoc _ [b]]
    exact (List.perm_cons_erase hb).symm.append_left _
  cases hlast : out.getLast? with
  | none =>
      -- the list is empty: the buffer becomes its head and its tail
      obtain rfl : out = [] := by simpa using hlast
      have htail : p.outQueueTail = nullByte := h.tail_eq_nullByte_iff.mpr rfl
      have hnext : ∀ y, y ≠ b → (prnPutOutQueueBuf p b flags).next y = p.next y := fun y hy ↦ by
        simp [PrintStatus.next, prnPutOutQueueBuf, htail, hy]
      exact
        { freeChain := by
            rw [prnPutOutQueueBuf, if_pos htail] at hnext ⊢
            exact h.freeChain.congr (fun y hy ↦ hnext y (hfree y hy))
          outChain := by
            simp [prnPutOutQueueBuf, htail, PrintStatus.next, hbnil]
          tail := by simp [prnPutOutQueueBuf, htail]
          avail := by
            rw [prnPutOutQueueBuf, if_pos htail]
            exact h.avail
          partition := hpart }
  | some y =>
      have hy : p.outQueueTail = y := by rw [h.tail, hlast]; rfl
      have hymem : y ∈ out := List.mem_of_getLast? hlast
      have hynil : y ≠ nullByte := h.ne_nullByte (by simp [hymem])
      have htail : p.outQueueTail ≠ nullByte := hy ▸ hynil
      have hyb : y ≠ b := hout y hymem
      have hnext : ∀ z, z ≠ b → z ≠ y →
          (prnPutOutQueueBuf p b flags).next z = p.next z := fun z hz hzy ↦ by
        simp [PrintStatus.next, prnPutOutQueueBuf, hy, hynil, hz, hzy]
      have hnexty : (prnPutOutQueueBuf p b flags).next y = b := by
        simp [PrintStatus.next, prnPutOutQueueBuf, hy, hynil]
      have hnextb : (prnPutOutQueueBuf p b flags).next b = nullByte := by
        simp [PrintStatus.next, prnPutOutQueueBuf, hy, hynil, Ne.symm hyb]
      have hyfree : ∀ z ∈ free, z ≠ y := fun z hz hzy ↦
        h.free_out_disjoint hymem (hzy ▸ hz)
      rw [prnPutOutQueueBuf, if_neg htail] at hnext hnexty hnextb ⊢
      exact
        { freeChain := h.freeChain.congr (fun z hz ↦ hnext z (hfree z hz) (hyfree z hz))
          outChain := h.outChain.snoc hlast hbnil hnexty hnextb
            (fun z hz hzy ↦ hnext z (hout z hz) hzy)
          tail := by simp
          avail := h.avail
          partition := hpart }

theorem getOut_nil (h : QueueLists p free [] rest) : prnGetOutQueueBuf p = (none, p) := by
  have hnil : p.outQueueHead = nullByte := h.outChain
  rw [prnGetOutQueueBuf, if_pos hnil]

theorem getOut (h : QueueLists p free (x :: out) rest) :
    (prnGetOutQueueBuf p).1 = some x ∧
      QueueLists (prnGetOutQueueBuf p).2 free out (x :: rest) := by
  obtain ⟨hx, hnil, hchain⟩ := h.outChain
  have hne : p.outQueueHead ≠ nullByte := hx ▸ hnil
  rw [prnGetOutQueueBuf, if_neg hne]
  refine ⟨congrArg some hx, ?_⟩
  have hhead : (p.buf p.outQueueHead).nextbuf = p.next x := by rw [hx]; rfl
  exact
    { freeChain := h.freeChain
      outChain := by
        change Linked p.next nullByte (p.buf p.outQueueHead).nextbuf out
        rw [hhead]
        exact hchain
      tail := by
        change (if (p.buf p.outQueueHead).nextbuf = nullByte then nullByte else p.outQueueTail) = _
        rw [hhead]
        cases out with
        | nil =>
            have hlast : p.next x = nullByte := hchain
            rw [if_pos hlast]
            rfl
        | cons y ys =>
            have hyn : p.next x ≠ nullByte := by rw [hchain.1]; exact hchain.2.1
            rw [if_neg hyn]
            simpa using h.tail
      avail := h.avail
      partition := by
        refine List.Perm.trans ?_ h.partition
        rw [List.append_assoc, List.append_assoc, List.cons_append]
        exact List.perm_middle.append_left free }

theorem setNoUse (h : QueueLists p free out rest) (u : Option UInt8) :
    QueueLists { p with pNoUseBuf := u } free out rest :=
  h.of_eq (fun _ ↦ rfl) rfl rfl rfl rfl

theorem releaseNoUse (h : QueueLists p free out (rest ++ p.pNoUseBuf.toList)) :
    ∃ free', QueueLists (releaseNoUse p) free' out rest := by
  unfold Spooler.releaseNoUse
  cases hu : p.pNoUseBuf with
  | none => exact ⟨free, by simpa [hu] using h⟩
  | some b =>
      rw [hu] at h
      refine ⟨b :: free, (h.putIn (by simp)).rest_perm ?_⟩
      refine (List.perm_cons b).mp (List.Perm.trans ?_ (List.perm_cons_erase (by simp)))
      exact (List.perm_append_singleton b rest).symm

/-- A whole `DMAPrinting`: the buffer of the call before goes to the free list, and the head of
the output list takes its place unless it is missing or empty. -/
theorem dmaPrinting (h : QueueLists p free out (rest ++ p.pNoUseBuf.toList)) :
    ∃ free' out', QueueLists (dmaPrinting p).2 free' out'
      (rest ++ (dmaPrinting p).2.pNoUseBuf.toList) := by
  obtain ⟨free₁, h₁⟩ := h.releaseNoUse
  unfold Spooler.dmaPrinting
  cases out with
  | nil =>
      rw [h₁.getOut_nil]
      exact ⟨free₁, [], by simpa using h₁.setNoUse none⟩
  | cons x out =>
      obtain ⟨hx, h₂⟩ := h₁.getOut
      generalize prnGetOutQueueBuf (Spooler.releaseNoUse p) = r at hx h₂ ⊢
      obtain ⟨o, q⟩ := r
      obtain rfl : o = some x := hx
      by_cases hsize : (q.buf x).size = 0
      · refine ⟨x :: free₁, out, ?_⟩
        simpa [hsize] using (h₂.putIn List.mem_cons_self).setNoUse none
      · refine ⟨free₁, out, ?_⟩
        simp only [hsize, if_false]
        exact (h₂.setNoUse (some x)).rest_perm (List.perm_append_singleton x rest)

end QueueLists

/-! ## Every sequence of calls -/

/-- The calls of the spooler and of the producers on one port; `writeSize` is a producer filling
a buffer it holds. -/
inductive QueueOp
  | getIn
  | putOut (b flags : UInt8)
  | putIn (b : UInt8)
  | dma
  | writeSize (b : UInt8) (size : Int)
deriving DecidableEq

/-- The printer list and, for each port, the buffers that producers hold. -/
structure QueueSys where
  list : PrinterList
  held : Nat → List UInt8

def queueStart : QueueSys :=
  { list := prnPrinterInit (prnQueueInit zeroPrinterList), held := fun _ ↦ [] }

def QueueSys.set (s : QueueSys) (prnPort : Nat) (p : PrintStatus) (held : List UInt8) : QueueSys :=
  { list := Function.update s.list prnPort p, held := Function.update s.held prnPort held }

/-- A caller only passes a buffer that it holds, and then holds it no longer. -/
def queueStep (s : QueueSys) : Nat × QueueOp → Option QueueSys
  | (prnPort, .getIn) =>
      let r := prnGetInQueueBuf (s.list prnPort)
      some (s.set prnPort r.2 (r.1.toList ++ s.held prnPort))
  | (prnPort, .putOut b flags) =>
      if b ∈ s.held prnPort then
        some (s.set prnPort (prnPutOutQueueBuf (s.list prnPort) b flags)
          ((s.held prnPort).erase b))
      else none
  | (prnPort, .putIn b) =>
      if b ∈ s.held prnPort then
        some (s.set prnPort (prnPutInQueueBuf (s.list prnPort) b) ((s.held prnPort).erase b))
      else none
  | (prnPort, .dma) =>
      some (s.set prnPort (Spooler.dmaPrinting (s.list prnPort)).2 (s.held prnPort))
  | (prnPort, .writeSize b size) =>
      if b ∈ s.held prnPort then
        some (s.set prnPort (Spooler.writePrnBuf (s.list prnPort) b size) (s.held prnPort))
      else none

def queueMachine : Machine QueueSys (Nat × QueueOp) := ⟨queueStart, queueStep⟩

/-- The buffers of one port are partitioned, and heads, tail and counter agree with the lists. -/
structure QueueInv (p : PrintStatus) (held free out : List UInt8) : Prop where
  freeChain : Linked p.next nullByte p.inQueue free
  outChain : Linked p.next nullByte p.outQueueHead out
  free_nodup : free.Nodup
  out_nodup : out.Nodup
  partition : (free ++ out ++ held ++ p.pNoUseBuf.toList).Perm allBufs
  tail_last : ∀ b, out.getLast? = some b → p.outQueueTail = b
  tail_null : p.outQueueTail = nullByte ↔ out = []
  avail : p.availQueueNO.toNat = free.length

theorem QueueLists.inv {p : PrintStatus} {held free out : List UInt8}
    (h : QueueLists p free out (held ++ p.pNoUseBuf.toList)) : QueueInv p held free out where
  freeChain := h.freeChain
  outChain := h.outChain
  free_nodup := h.freeChain.nodup
  out_nodup := h.outChain.nodup
  partition := by simpa using h.partition
  tail_last := fun b hb ↦ by rw [h.tail, hb]; rfl
  tail_null := h.tail_eq_nullByte_iff
  avail := h.avail

/-- `QueueLists` of one port, where `rest` is what producers and `pNoUseBuf` have. -/
def Partitioned (p : PrintStatus) (held : List UInt8) : Prop :=
  ∃ free out, QueueLists p free out (held ++ p.pNoUseBuf.toList)

theorem prnPrinterInit_partitioned (l : PrinterList) {prnPort : Nat}
    (hport : prnPort < numOfPrnPort) : Partitioned (prnPrinterInit l prnPort) [] := by
  refine ⟨allBufs, [], ?_⟩
  rw [prnPrinterInit, if_pos hport]
  exact
    { freeChain := by
        simp [allBufs, prnQueueLen, List.range_succ, PrintStatus.next, nullByte]
      outChain := rfl
      tail := rfl
      avail := rfl
      partition := by simp }

namespace Partitioned

variable {p : PrintStatus} {held : List UInt8} {b flags : UInt8}

theorem getIn (h : Partitioned p held) :
    Partitioned (prnGetInQueueBuf p).2 ((prnGetInQueueBuf p).1.toList ++ held) := by
  obtain ⟨free, out, h⟩ := h
  cases free with
  | nil =>
      have hnone : prnGetInQueueBuf p = (none, p) := if_pos h.freeChain
      rw [hnone]
      exact ⟨[], out, h⟩
  | cons x free =>
      obtain ⟨hx, h'⟩ := h.getIn
      have huse : (prnGetInQueueBuf p).2.pNoUseBuf = p.pNoUseBuf := by
        unfold prnGetInQueueBuf; split <;> rfl
      rw [hx]
      exact ⟨free, out, by rw [huse]; exact h'⟩

theorem perm_erase (hb : b ∈ held) (u : List UInt8) :
    (held.erase b ++ u).Perm ((held ++ u).erase b) := by
  rw [List.erase_append_left _ hb]

theorem putOut (h : Partitioned p held) (hb : b ∈ held) :
    Partitioned (prnPutOutQueueBuf p b flags) (held.erase b) := by
  obtain ⟨free, out, h⟩ := h
  have huse : (prnPutOutQueueBuf p b flags).pNoUseBuf = p.pNoUseBuf := by
    unfold prnPutOutQueueBuf; split <;> rfl
  refine ⟨free, out ++ [b], ?_⟩
  rw [huse]
  exact (h.putOut (List.mem_append_left _ hb)).rest_perm (perm_erase hb _)

theorem putIn (h : Partitioned p held) (hb : b ∈ held) :
    Partitioned (prnPutInQueueBuf p b) (held.erase b) := by
  obtain ⟨free, out, h⟩ := h
  exact ⟨b :: free, out, (h.putIn (List.mem_append_left _ hb)).rest_perm (perm_erase hb _)⟩

theorem dmaPrinting (h : Partitioned p held) : Partitioned (dmaPrinting p).2 held := by
  obtain ⟨free, out, h⟩ := h
  exact h.dmaPrinting

theorem writePrnBuf (h : Partitioned p held) (size : Int) :
    Partitioned (writePrnBuf p b size) held := by
  obtain ⟨free, out, h⟩ := h
  exact ⟨free, out, h.writePrnBuf size⟩

end Partitioned

def PortsPartitioned (s : QueueSys) : Prop :=
  ∀ prnPort < numOfPrnPort, Partitioned (s.list prnPort) (s.held prnPort)

/-- A call on one port leaves every other port as it is. -/
theorem PortsPartitioned.set {s : QueueSys} (hs : PortsPartitioned s) {prnPort : Nat}
    {p : PrintStatus} {held : List UInt8} (hp : prnPort < numOfPrnPort → Partitioned p held) :
    PortsPartitioned (s.set prnPort p held) := by
  intro i hi
  by_cases h : i = prnPort
  · subst h
    simpa [QueueSys.set] using hp hi
  · simpa [QueueSys.set, h] using hs i hi

theorem queueStep_partitioned {s t : QueueSys} {a : Nat × QueueOp} (hs : PortsPartitioned s)
    (hstep : queueStep s a = some t) : PortsPartitioned t := by
  obtain ⟨prnPort, op⟩ := a
  cases op with
  | getIn =>
      obtain rfl := Option.some.inj hstep
      exact hs.set fun hport ↦ (hs prnPort hport).getIn
  | putOut b flags =>
      obtain ⟨hb, hst⟩ := Option.ite_none_right_eq_some.mp hstep
      obtain rfl := Option.some.inj hst
      exact hs.set fun hport ↦ (hs prnPort hport).putOut hb
  | putIn b =>
      obtain ⟨hb, hst⟩ := Option.ite_none_right_eq_some.mp hstep
      obtain rfl := Option.some.inj hst
      exact hs.set fun hport ↦ (hs prnPort hport).putIn hb
  | dma =>
      obtain rfl := Option.some.inj hstep
      exact hs.set fun hport ↦ (hs prnPort hport).dmaPrinting
  | writeSize b size =>
      obtain ⟨-, hst⟩ := Option.ite_none_right_eq_some.mp hstep
      obtain rfl := Option.some.inj hst
      exact hs.set fun hport ↦ (hs prnPort hport).writePrnBuf size

theorem queueStart_partitioned : PortsPartitioned queueStart := fun _ hport ↦
  prnPrinterInit_partitioned _ hport

/-- After every sequence of calls each buffer of a port is in exactly one place. -/
theorem queue_partition_invariant (acts : List (Nat × QueueOp)) {s : QueueSys}
    (hrun : queueMachine.run acts = some s) {prnPort : Nat} (hport : prnPort < numOfPrnPort) :
    ∃ free out, QueueInv (s.list prnPort) (s.held prnPort) free out := by
  have hs : PortsPartitioned s := Machine.reachable_invariant queueStart_partitioned
    (fun _ _ _ ↦ queueStep_partitioned) ⟨acts, hrun⟩
  obtain ⟨free, out, h⟩ := hs prnPort hport
  exact ⟨free, out, h.inv⟩

/-- Two buffers queued, the first one printed and the second one in flight. -/
theorem queue_partition_invariant_in_flight :
    ∃ s, queueMachine.run [(0, .getIn), (0, .writeSize 0 512), (0, .putOut 0 0), (0, .getIn),
        (0, .writeSize 1 7), (0, .putOut 1 1), (0, .dma), (0, .getIn), (0, .dma)] = some s ∧
      (s.list 0).pNoUseBuf = some 1 ∧ s.held 0 = [2] ∧
      ∃ free out, QueueInv (s.list 0) (s.held 0) free out :=
  ⟨_, rfl, rfl, rfl, queue_partition_invariant [(0, .getIn), (0, .writeSize 0 512),
    (0, .putOut 0 0), (0, .getIn), (0, .writeSize 1 7), (0, .putOut 1 1), (0, .dma), (0, .getIn),
    (0, .dma)] rfl (by decide)⟩

end PrintServer.Spooler
