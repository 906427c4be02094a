import PrintServer.Nt.SharedBuffer

/-!
# What the shared buffer holds

The buffer that a command applies holds its own blocks as long as each block but the first follows
the one before it at once, and a record is begun only where the other command has left no bytes.
-/

namespace PrintServer.Nt.Ipx

open Lib
open Flash (Memory)

/-- The buffer holds one copy of each of the blocks `1..total` of the command, in order. -/
def Applied.Reassembled (a : Applied) : Prop :=
  ∃ copies : List (List UInt8), copies.length = a.totalBlock ∧
    (∀ i (h : i < copies.length), (⟨i + 1, copies[i]⟩ : Block) ∈ a.transfer) ∧
    copies.flatten.length ≤ recBufferSize ∧
    readMem a.buffer 0 copies.flatten.length = copies.flatten

/-- What a block has to be like where it is accepted: not the same again unless it is the first,
behind a block of its own command unless it is the first, as long as it says, with room in the
buffer, and at the start of the buffer if it is the first of a record. -/
def State.Fits (node : List UInt8) (len : Nat) (s : State) (c : Cmd) : Prop :=
  s.Accepts node c →
    (s.blockNo = s.counter c → s.blockNo = 1) ∧
    (s.blockNo ≠ 1 → s.latest = some c) ∧
    16 + s.blockSize.toNat ≤ len ∧
    (c = .cmd2D → s.blockNo = 1 → s.tTran = 0) ∧
    (if c = .cmd21 ∧ s.blockNo = 1 then 0 else s.tTran.toNat) + s.blockSize.toNat ≤ recBufferSize

instance (node : List UInt8) (len : Nat) (s : State) (c : Cmd) : Decidable (s.Fits node len c) :=
  inferInstanceAs (Decidable (_ → _))

def Orderly (node : List UInt8) (s : State) (a : Arrival) : Prop :=
  ∀ c ∈ (s.receive a.packet).cmd,
    (s.receive a.packet).Fits node (a.packet.take utilityRecSize).length c

instance (node : List UInt8) (s : State) (a : Arrival) : Decidable (Orderly node s a) :=
  inferInstanceAs (Decidable (∀ c ∈ _, State.Fits _ _ _ c))

/-- The bytes accepted for a command since its last block 1. -/
def State.collected (s : State) (c : Cmd) : List UInt8 := ((s.transfer c).map Block.bytes).flatten

/-- The blocks `1..n` of a command have come, in order and once each, and the buffer holds them. -/
structure Collected (c : Cmd) (n : Nat) (s : State) : Prop where
  nos : (s.transfer c).map Block.no = (List.range n).map (· + 1)
  offset : s.tTran.toNat = (s.collected c).length
  room : (s.collected c).length ≤ recBufferSize
  held : readMem s.recBuffer 0 (s.collected c).length = s.collected c

/-- The next block of a command can be block `n + 1`. -/
def Ready (c : Cmd) (n : Nat) (s : State) : Prop := n = 0 ∧ s.tTran = 0 ∨ n ≠ 0 ∧ Collected c n s

/-- `recBuffer` is the memory at the start. -/
structure Inv (recBuffer : Memory) (s : State) : Prop where
  collected : ∀ c, s.latest = some c → s.counter c ≠ 0 → Collected c (s.counter c).toNat s
  applied : ∀ a ∈ s.applied, a.Reassembled
  outside : ∀ i, recBufferSize ≤ i → s.recBuffer i = recBuffer i

variable {node : List UInt8} {psModel : UInt8} {util recBuffer : Memory} {s t : State} {c : Cmd}
  {a : Arrival} {block : Block} {n k : Nat}

/-! ## A block comes in -/

theorem held_append {mem : Memory} {bs xs : List UInt8} (h : readMem mem 0 bs.length = bs) :
    readMem (writeMem mem bs.length xs) 0 (bs ++ xs).length = bs ++ xs := by
  have hfront : readMem (writeMem mem bs.length xs) 0 bs.length = readMem mem 0 bs.length :=
    readMem_congr fun i _ hi ↦ writeMem_of_lt (by omega)
  rw [List.length_append, readMem_add, hfront, h, Nat.zero_add, readMem_writeMem]

theorem Collected.length (h : Collected c n s) : (s.transfer c).length = n := by
  have hlen := congrArg List.length h.nos
  simpa only [List.length_map, List.length_range] using hlen

theorem Collected.reassembled (h : Collected c n s) :
    (⟨c, n, s.transfer c, s.recBuffer⟩ : Applied).Reassembled := by
  refine ⟨(s.transfer c).map Block.bytes, by rw [List.length_map, h.length], ?_, h.room, h.held⟩
  intro i hi
  have hi' : i < (s.transfer c).length := by rwa [List.length_map] at hi
  have hno : (s.transfer c)[i].no = i + 1 := by
    have hget := List.getElem_of_eq h.nos (i := i) (by rwa [List.length_map])
    simpa only [List.getElem_map, List.getElem_range] using hget
  have hblock : (⟨i + 1, ((s.transfer c).map Block.bytes)[i]⟩ : Block) = (s.transfer c)[i] := by
    rw [← hno, List.getElem_map]
  rw [hblock]
  exact List.getElem_mem hi'

/-- What the buffer holds before the next block. -/
theorem Ready.before (h : Ready c n s) : ∃ bs : List Block, bs.map Block.no = (List.range n).map
    (· + 1) ∧ s.tTran.toNat = (bs.map Block.bytes).flatten.length ∧
      readMem s.recBuffer 0 (bs.map Block.bytes).flatten.length = (bs.map Block.bytes).flatten ∧
        ∀ b : Block, b.no = n + 1 → (if b.no = 1 then [b] else s.transfer c ++ [b]) = bs ++ [b] := by
  cases h with
  | inl h =>
      refine ⟨[], by rw [h.1]; rfl, by rw [h.2]; rfl, rfl, fun b hb ↦ ?_⟩
      rw [if_pos (by omega), List.nil_append]
  | inr h =>
      refine ⟨s.transfer c, h.2.nos, h.2.offset, h.2.held, fun b hb ↦ ?_⟩
      rw [if_neg (by omega)]

/-- The next block is put behind the others. -/
theorem Ready.append (h : Ready c n s) (hno : block.no = n + 1)
    (hbytes : block.bytes = readMem s.util 16 s.blockSize.toNat)
    (hroom : s.tTran.toNat + s.blockSize.toNat ≤ recBufferSize) :
    Collected c (n + 1) ((s.append k).record c block) := by
  obtain ⟨bs, hnos, hoffset, hheld, hlog⟩ := h.before
  have hlen : block.bytes.length = s.blockSize.toNat := by rw [hbytes, length_readMem]
  have htransfer : ((s.append k).record c block).transfer c = bs ++ [block] := by
    show (if c = c then _ else _) = _
    rw [if_pos rfl]
    exact hlog block hno
  have hflat : ((s.append k).record c block).collected c =
      (bs.map Block.bytes).flatten ++ block.bytes := by
    rw [State.collected, htransfer, List.map_append, List.flatten_append, List.map_singleton,
      List.flatten_singleton]
  have htotal : ((bs.map Block.bytes).flatten ++ block.bytes).length =
      s.tTran.toNat + s.blockSize.toNat := by
    rw [List.length_append, hlen, hoffset]
  refine ⟨?_, ?_, ?_, ?_⟩
  · rw [htransfer, List.map_append, hnos, List.map_singleton, hno, List.range_succ,
      List.map_append, List.map_singleton]
  · rw [hflat, htotal]
    show (s.tTran + s.blockSize).toNat = _
    -- the offset does not pass the end of the buffer, so it does not wrap
    rw [UInt16.toNat_add, Nat.mod_eq_of_lt]
    unfold recBufferSize maxPsReadLen at hroom
    omega
  · rw [hflat, htotal]
    exact hroom
  · rw [hflat]
    show readMem (writeMem s.recBuffer s.tTran.toNat (readMem s.util 16 s.blockSize.toNat)) 0 _ = _
    rw [← hbytes, hoffset]
    exact held_append hheld

theorem append_outside (hroom : s.tTran.toNat + s.blockSize.toNat ≤ recBufferSize)
    (hout : ∀ i, recBufferSize ≤ i → s.recBuffer i = recBuffer i) :
    ∀ i, recBufferSize ≤ i → ((s.append k).record c block).recBuffer i = recBuffer i := by
  intro i hi
  show writeMem s.recBuffer s.tTran.toNat _ i = _
  rw [writeMem_of_ge (by rw [length_readMem]; omega), hout i hi]

/-- A block that is accepted is the first one or the next one. -/
theorem Inv.ready (hi : Inv recBuffer s) (hacc : s.Accepts node c)
    (hnew : s.blockNo = s.counter c → s.blockNo = 1) (hown : s.blockNo ≠ 1 → s.latest = some c)
    (hone : s.blockNo ≠ 1) :
    ∃ n, n ≠ 0 ∧ s.blockNo.toNat = n + 1 ∧ Collected c n s := by
  have hle := hacc.2.1
  have hne : s.blockNo ≠ s.counter c := fun heq ↦ hone (hnew heq)
  have hlt : (s.counter c).toNat < s.blockNo.toNat :=
    Nat.lt_of_le_of_ne (UInt8.le_iff_toNat_le.mp hacc.2.2) fun heq ↦
      hne (UInt8.toNat_inj.mp heq.symm)
  have hnext : s.blockNo.toNat = (s.counter c).toNat + 1 := by omega
  have hpos : (s.counter c).toNat ≠ 0 := by
    intro hz
    rw [hz] at hnext
    exact hone (UInt8.toNat_inj.mp hnext)
  refine ⟨_, hpos, hnext, hi.collected c (hown hone) fun hz ↦ hpos ?_⟩
  rw [hz]
  rfl

theorem Inv.receive (hi : Inv recBuffer s) (packet : List UInt8) :
    Inv recBuffer (s.receive packet) where
  collected c hlatest hne :=
    have h := hi.collected c hlatest hne
    ⟨h.nos, h.offset, h.room, h.held⟩
  applied := hi.applied
  outside := hi.outside

/-! ## The two commands -/

/-- `r` is `s` before the `memcpy` of an accepted block `n + 1`. -/
structure Entered (recBuffer : Memory) (c : Cmd) (n : Nat) (s r : State) : Prop where
  no : s.blockNo.toNat = n + 1
  ready : Ready c n r
  size : r.blockSize = s.blockSize
  util : r.util = s.util
  room : r.tTran.toNat + r.blockSize.toNat ≤ recBufferSize
  outside : ∀ i, recBufferSize ≤ i → r.recBuffer i = recBuffer i
  applied : r.applied = s.applied
  counter : r.counter c = s.blockNo

namespace Entered

variable {r u : State}

theorem collected (h : Entered recBuffer c n s r) (hno : block.no = s.blockNo.toNat)
    (hbytes : block.bytes = readMem s.util 16 s.blockSize.toNat) :
    Collected c (n + 1) ((r.append k).record c block) := by
  apply h.ready.append (hno.trans h.no)
  · rw [h.size, h.util]
    exact hbytes
  · exact h.room

/-- A block that is not the last. -/
theorem inv (h : Entered recBuffer c n s r) (hi : Inv recBuffer s)
    (hno : block.no = s.blockNo.toNat)
    (hbytes : block.bytes = readMem s.util 16 s.blockSize.toNat) :
    Inv recBuffer ((r.append k).record c block) := by
  refine ⟨fun d hd _ ↦ ?_, fun a ha ↦ hi.applied a (h.applied ▸ ha),
    append_outside h.room h.outside⟩
  have hd' : c = d := Option.some.inj hd
  have hcounter : (((r.append k).record c block).counter c).toNat = n + 1 := by
    have hsame : ((r.append k).record c block).counter c = r.counter c := by
      cases c with
      | cmd21 => rfl
      | cmd2D => rfl
    rw [hsame, h.counter, h.no]
  rw [← hd', hcounter]
  exact h.collected hno hbytes

/-- The last block: the buffer may be applied, and the counter starts again. -/
theorem inv_last (h : Entered recBuffer c n s r) (hi : Inv recBuffer s)
    (hno : block.no = s.blockNo.toNat)
    (hbytes : block.bytes = readMem s.util 16 s.blockSize.toNat)
    (hlast : s.blockNo = s.totalBlock) (hlatest : u.latest = some c) (hcounter : u.counter c = 0)
    (hbuffer : u.recBuffer = ((r.append k).record c block).recBuffer)
    (happlied : u.applied = ((r.append k).record c block).applied ∨
      u.applied = (((r.append k).record c block).apply c s.totalBlock).applied) :
    Inv recBuffer u := by
  refine ⟨fun d hd hne ↦ ?_, fun a ha ↦ ?_, ?_⟩
  · rw [hlatest] at hd
    rw [← Option.some.inj hd] at hne
    exact absurd hcounter hne
  · have hold : a ∈ ((r.append k).record c block).applied → a.Reassembled := fun ha ↦
      hi.applied a (h.applied ▸ ha)
    cases happlied with
    | inl heq => exact hold (heq ▸ ha)
    | inr heq =>
        rw [heq] at ha
        cases List.mem_append.mp ha with
        | inl ha => exact hold ha
        | inr ha =>
            rw [List.mem_singleton.mp ha, ← hlast, h.no]
            exact (h.collected hno hbytes).reassembled
  · rw [hbuffer]
    exact append_outside h.room h.outside

end Entered

/-- `CMD21` begins at the start of the buffer with block 1. -/
theorem Inv.entered21 (hi : Inv recBuffer s) {len : Nat} (hfits : s.Fits node len .cmd21)
    (hacc : s.Accepts node .cmd21) :
    ∃ n, Entered recBuffer .cmd21 n s
      { (if s.blockNo = 1 then
          { s with tTran := 0, recBuffer := zeroMem s.recBuffer 0 datasize } else s) with
        previousIpx := s.blockNo } := by
  obtain ⟨hnew, hown, hlen, -, hroom⟩ := hfits hacc
  by_cases hone : s.blockNo = 1
  · rw [if_pos hone]
    rw [if_pos ⟨rfl, hone⟩] at hroom
    refine ⟨0, by rw [hone]; rfl, Or.inl ⟨rfl, rfl⟩, rfl, rfl, hroom, fun i hi' ↦ ?_, rfl, rfl⟩
    show zeroMem s.recBuffer 0 datasize i = _
    rw [zeroMem, if_neg, hi.outside i hi']
    unfold recBufferSize maxPsReadLen at hi'
    unfold datasize sizeofListView sizeofListViewExt
    omega
  · rw [if_neg hone]
    rw [if_neg fun h ↦ hone h.2] at hroom
    obtain ⟨n, hpos, hnext, hcollected⟩ := hi.ready hacc hnew hown hone
    exact ⟨n, hnext, Or.inr ⟨hpos, hcollected.nos, hcollected.offset, hcollected.room,
      hcollected.held⟩, rfl, rfl, hroom, hi.outside, rfl, rfl⟩

/-- `CMD2D` begins where the offset is. -/
theorem Inv.entered2D (hi : Inv recBuffer s) {len : Nat} (hfits : s.Fits node len .cmd2D)
    (hacc : s.Accepts node .cmd2D) :
    ∃ n, Entered recBuffer .cmd2D n s { s with previous := s.blockNo } := by
  obtain ⟨hnew, hown, hlen, hstart, hroom⟩ := hfits hacc
  rw [if_neg fun h ↦ by cases h.1] at hroom
  by_cases hone : s.blockNo = 1
  · exact ⟨0, by rw [hone]; rfl, Or.inl ⟨rfl, hstart rfl hone⟩, rfl, rfl, hroom, hi.outside, rfl,
      rfl⟩
  · obtain ⟨n, hpos, hnext, hcollected⟩ := hi.ready hacc hnew hown hone
    exact ⟨n, hnext, Or.inr ⟨hpos, hcollected.nos, hcollected.offset, hcollected.room,
      hcollected.held⟩, rfl, rfl, hroom, hi.outside, rfl, rfl⟩

theorem Inv.utilConfigBoxAdv (hi : Inv recBuffer s) (hno : block.no = s.blockNo.toNat)
    {len : Nat} (hfits : s.Fits node len .cmd21)
    (hbytes : 16 + s.blockSize.toNat ≤ len →
      block.bytes = readMem s.util 16 s.blockSize.toNat) (written : Bool) :
    Inv recBuffer (s.utilConfigBoxAdv node block written) := by
  simp only [State.utilConfigBoxAdv]
  by_cases hacc : s.Accepts node .cmd21
  · rw [if_pos hacc]
    obtain ⟨n, hentered⟩ := hi.entered21 hfits hacc
    have hbytes := hbytes (hfits hacc).2.2.1
    split
    · exact hentered.inv_last hi hno hbytes ‹_› rfl rfl rfl (Or.inr rfl)
    · exact hentered.inv hi hno hbytes
  · rw [if_neg hacc]
    exact hi

theorem Inv.utilRecvEEPROMAdv (hi : Inv recBuffer s) (hno : block.no = s.blockNo.toNat)
    {len : Nat} (hfits : s.Fits node len .cmd2D)
    (hbytes : 16 + s.blockSize.toNat ≤ len →
      block.bytes = readMem s.util 16 s.blockSize.toNat) (written : Bool) :
    Inv recBuffer (s.utilRecvEEPROMAdv node psModel block written) := by
  simp only [State.utilRecvEEPROMAdv]
  by_cases hacc : s.Accepts node .cmd2D
  · rw [if_pos hacc]
    obtain ⟨n, hentered⟩ := hi.entered2D hfits hacc
    have hbytes := hbytes (hfits hacc).2.2.1
    by_cases hlast : s.blockNo = s.totalBlock
    · rw [if_pos hlast]
      split
      · exact hentered.inv_last hi hno hbytes hlast rfl rfl rfl (Or.inr rfl)
      · exact hentered.inv_last (k := maxPsReadLen) hi hno hbytes hlast rfl rfl rfl (Or.inl rfl)
    · rw [if_neg hlast]
      exact hentered.inv hi hno hbytes
  · rw [if_neg hacc]
    exact hi

/-! ## Runs -/

theorem Inv.boot : Inv recBuffer (boot util recBuffer) :=
  ⟨fun _ h _ ↦ (by cases h), nofun, fun _ _ ↦ rfl⟩

theorem readMem_receive (packet : List UInt8)
    (h : 16 + n ≤ (packet.take utilityRecSize).length) :
    ((packet.take utilityRecSize).drop 16).take n = readMem (s.receive packet).util 16 n := by
  have hread := @readMem_writeMem_drop _ s.util 0 _ _ _ h
  rw [Nat.zero_add] at hread
  exact hread.symm

theorem Inv.step (hi : Inv recBuffer s) (hok : Orderly node s a)
    (hstep : (utilityESR node psModel util recBuffer).step s a = some t) : Inv recBuffer t := by
  have hr := hi.receive a.packet
  simp only [utilityESR] at hstep
  cases hcmd : (s.receive a.packet).cmd with
  | none =>
      rw [hcmd] at hstep
      cases hstep
  | some c =>
      have hfits := hok c (by rw [hcmd]; exact Option.mem_some_self c)
      rw [hcmd] at hstep
      cases c with
      | cmd21 =>
          rw [← Option.some.inj hstep]
          exact hr.utilConfigBoxAdv rfl hfits (readMem_receive a.packet) a.written
      | cmd2D =>
          rw [← Option.some.inj hstep]
          exact hr.utilRecvEEPROMAdv rfl hfits (readMem_receive a.packet) a.written

/-- In a run of orderly packets the buffer is not overrun, and a command applies its own blocks
only, in order and once each. -/
theorem shared_buffer_safe (node : List UInt8) (psModel : UInt8) (util recBuffer : Memory)
    (as : List Arrival) (s : State)
    (hok : (utilityESR node psModel util recBuffer).Along (Orderly node) (boot util recBuffer) as)
    (hrun : (utilityESR node psModel util recBuffer).run as = some s) :
    (∀ a ∈ s.applied, a.Reassembled) ∧ ∀ i, recBufferSize ≤ i → s.recBuffer i = recBuffer i := by
  have hi : Inv recBuffer s :=
    Machine.run_invariant Inv.boot (fun _ _ _ h ha hstep ↦ h.step ha hstep) hok hrun
  exact ⟨hi.applied, hi.outside⟩

/-! ## Runs that mix -/

def boxNode : List UInt8 := [0x00, 0x40, 0x01, 0x02, 0x03, 0x04]

/-- A packet to that box. -/
def packet (cmd no total : UInt8) (size : UInt16) (block : List UInt8) : Arrival :=
  ⟨[0x4E, 0x45, 0x54, 0x60, cmd, 0, no, total, size.toUInt8, (size >>> 8).toUInt8] ++ boxNode ++
    block, true⟩

def box : Machine State Arrival := utilityESR boxNode 33 (fun _ ↦ 0) (fun _ ↦ 0)

/-- Settings in two blocks, then a record in one. -/
def oneByOne : List Arrival :=
  [packet 0x21 1 2 1 [1], packet 0x21 1 2 1 [1], packet 0x21 2 2 1 [2],
    packet 0x2D 1 1 14 [0x5A, 0x4F, 0x54, 0, 0, 0, 0, 0, 0, 0, 0, 0, 0, 33]]

theorem shared_buffer_safe_apart :
    ∃ s, box.run oneByOne = some s ∧ s.applied.length = 2 ∧ ∀ a ∈ s.applied, a.Reassembled := by
  have hok : box.Along (Orderly boxNode) (boot (fun _ ↦ 0) (fun _ ↦ 0)) oneByOne := by
    decide
  have hlen : (box.run oneByOne).map (fun s ↦ s.applied.length) = some 2 := by decide
  obtain ⟨s, hrun, happlied⟩ := Option.map_eq_some_iff.mp hlen
  exact ⟨s, hrun, happlied,
    (shared_buffer_safe boxNode 33 (fun _ ↦ 0) (fun _ ↦ 0) oneByOne s hok hrun).1⟩

/-- A block of a record comes between two blocks of settings. -/
def between : List Arrival :=
  [packet 0x21 1 2 1 [1], packet 0x2D 1 3 1 [9], packet 0x21 2 2 1 [2]]

/-- One packet that announces more bytes than the buffer has. -/
def tooLong : List Arrival := [packet 0x21 1 2 4231 []]

theorem shared_buffer_mixed :
    (∃ s, box.run between = some s ∧ ∃ a ∈ s.applied, ¬a.Reassembled) ∧
    ∃ s, (utilityESR boxNode 33 (fun _ ↦ 7) (fun _ ↦ 0)).run tooLong = some s ∧
      s.recBuffer recBufferSize = 7 := by
  constructor
  · have heval : (box.run between).map (fun s ↦
        s.applied.map fun a ↦ (a.totalBlock, a.transfer, a.buffer 1)) =
        some [(2, [⟨1, [1]⟩, ⟨2, [2]⟩], 9)] := by decide
    obtain ⟨s, hrun, happlied⟩ := Option.map_eq_some_iff.mp heval
    obtain ⟨a, ha, hfields⟩ := List.map_eq_singleton_iff.mp happlied
    refine ⟨s, hrun, a, by rw [ha]; exact List.mem_singleton_self a, ?_⟩
    obtain ⟨htotal, htransfer, hbuffer⟩ : a.totalBlock = 2 ∧
        a.transfer = [⟨1, [1]⟩, ⟨2, [2]⟩] ∧ a.buffer 1 = 9 := by
      simpa using hfields
    intro ⟨copies, hlen, hmem, _, hheld⟩
    rw [htotal] at hlen
    rw [htransfer] at hmem
    obtain ⟨x, y, rfl⟩ := List.length_eq_two.mp hlen
    have hx : x = [1] := by simpa using hmem 0 (by simp)
    have hy : y = [2] := by simpa using hmem 1 (by simp)
    rw [hx, hy] at hheld
    -- the second byte of the settings comes from the record
    have hsecond : a.buffer 1 = 2 := by
      have hget := @mem_of_readMem _ a.buffer 0 1 [1, 2] hheld (by decide)
      exact hget
    rw [hbuffer] at hsecond
    exact absurd hsecond (by decide)
  · have heval : ((utilityESR boxNode 33 (fun _ ↦ 7) (fun _ ↦ 0)).run tooLong).map
        (fun s ↦ s.recBuffer recBufferSize) = some 7 := by decide +kernel
    obtain ⟨s, hrun, hbyte⟩ := Option.map_eq_some_iff.mp heval
    exact ⟨s, hrun, hbyte⟩

end PrintServer.Nt.Ipx
