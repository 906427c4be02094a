import PrintServer.Nt.ConfigBlocks

/-!
# The record put together from blocks

`UtilConfigBoxUDP_Adv` passes on the blocks of a transfer in order and once each as long as no block
but the first comes twice in a row, none has the number 0, and each brings the bytes it announces
and leaves room for them.
-/

namespace PrintServer.Nt

open Lib

/-- `rec_buffer_udp` starts with `bs` and is zero behind it. -/
def Filled (mem : Nat → UInt8) (bs : List UInt8) : Prop :=
  bs.length ≤ recBufferSize ∧ ∀ i < recBufferSize, mem i = bs.getD i 0

/-- The buffer passed to `UtilGetListViewData` holds one copy of each of the blocks `1..total`. -/
def ViewCall.Reassembled (c : ViewCall) : Prop :=
  ∃ copies : List (List UInt8), copies.length = c.totalBlock ∧
    (∀ i (h : i < copies.length), (⟨i + 1, copies[i]⟩ : Block) ∈ c.transfer) ∧
    Filled c.buffer copies.flatten

/-- What a datagram has to be like where it is accepted.  Without a transfer the last block counts
as number 0. -/
def Orderly (node : List UInt8) (s : Reassembly) (a : Arrival) : Prop :=
  (s.receive a.datagram).Accepts node →
    ((s.receive a.datagram).blockNo = s.previous → s.previous = 1) ∧
    16 + (s.receive a.datagram).blockSize.toNat ≤ (a.datagram.take utilityRecSize).length ∧
    (if (s.receive a.datagram).blockNo = 1 then 0 else s.tTran.toNat) +
      (s.receive a.datagram).blockSize.toNat ≤ recBufferSize

instance (node : List UInt8) : ∀ s a, Decidable (Orderly node s a) :=
  fun _ _ ↦ inferInstanceAs (Decidable (_ → _))

/-! ## Filling the buffer -/

theorem zeroMem_of_lt {mem : Nat → UInt8} {n i : Nat} (h : i < n) : zeroMem mem 0 n i = 0 := by
  rw [zeroMem, if_pos ⟨Nat.zero_le i, by omega⟩]

theorem zeroMem_of_ge {mem : Nat → UInt8} {o n i : Nat} (h : o + n ≤ i) :
    zeroMem mem o n i = mem i := by
  rw [zeroMem, if_neg (by omega)]

theorem filled_zero (mem : Nat → UInt8) : Filled (zeroMem mem 0 recBufferSize) [] := by
  refine ⟨Nat.zero_le _, fun i hi ↦ ?_⟩
  rw [zeroMem_of_lt hi, List.getD_nil]

theorem Filled.append {mem : Nat → UInt8} {bs xs : List UInt8} (h : Filled mem bs)
    (hroom : bs.length + xs.length ≤ recBufferSize) :
    Filled (writeMem mem bs.length xs) (bs ++ xs) := by
  refine ⟨by rwa [List.length_append], fun i hi ↦ ?_⟩
  by_cases hlt : i < bs.length
  · rw [writeMem_of_lt hlt, h.2 i hi, List.getD_append _ _ _ _ hlt]
  · -- at the block itself or behind it
    have hmem : mem i = 0 := by
      rw [h.2 i hi, List.getD_eq_default _ _ (by omega)]
    rw [writeMem, if_neg hlt, hmem, List.getD_append_right _ _ _ _ (by omega)]

theorem Filled.readMem_eq {mem : Nat → UInt8} {bs : List UInt8} (h : Filled mem bs) :
    readMem mem 0 bs.length = bs := by
  apply List.ext_getElem
  · exact length_readMem
  · intro i _ hi
    simp only [readMem, List.getElem_map, List.getElem_range, Nat.zero_add]
    rw [h.2 i (by have hle := h.1; omega), List.getD_eq_getElem _ _ hi]

/-! ## One datagram -/

/-- The blocks `1..n` have come, in order and once each. -/
structure Collected (n : Nat) (s : Reassembly) : Prop where
  nos : s.transfer.map Block.no = (List.range n).map (· + 1)
  offset : s.tTran.toNat = (s.transfer.map Block.bytes).flatten.length
  filled : Filled s.recBuffer (s.transfer.map Block.bytes).flatten

namespace Collected

variable {n : Nat} {s : Reassembly} {block : Block}

theorem length (h : Collected n s) : s.transfer.length = n := by
  have hlen := congrArg List.length h.nos
  simpa only [List.length_map, List.length_range] using hlen

theorem reassembled (h : Collected n s) :
    (⟨n, s.transfer, s.recBuffer⟩ : ViewCall).Reassembled := by
  refine ⟨s.transfer.map Block.bytes, by rw [List.length_map, h.length], ?_, h.filled⟩
  intro i hi
  have hi' : i < s.transfer.length := by rwa [List.length_map] at hi
  have hno : s.transfer[i].no = i + 1 := by
    have hget := List.getElem_of_eq h.nos (i := i) (by rwa [List.length_map])
    simpa only [List.getElem_map, List.getElem_range] using hget
  have hblock : (⟨i + 1, (s.transfer.map Block.bytes)[i]⟩ : Block) = s.transfer[i] := by
    rw [← hno, List.getElem_map]
  rw [hblock]
  exact List.getElem_mem hi'

theorem append (h : Collected n s) (hno : block.no = n + 1)
    (hbytes : block.bytes = readMem s.util 16 s.blockSize.toNat)
    (hroom : s.tTran.toNat + s.blockSize.toNat ≤ recBufferSize) :
    Collected (n + 1) (s.append block) := by
  have hlen : block.bytes.length = s.blockSize.toNat := by rw [hbytes, length_readMem]
  have hflat : ((s.append block).transfer.map Block.bytes).flatten =
      (s.transfer.map Block.bytes).flatten ++ block.bytes := by
    change ((s.transfer ++ [block]).map Block.bytes).flatten = _
    rw [List.map_append, List.flatten_append, List.map_singleton, List.flatten_singleton]
  refine ⟨?_, ?_, ?_⟩
  · change (s.transfer ++ [block]).map Block.no = _
    rw [List.map_append, h.nos, List.map_singleton, hno, List.range_succ, List.map_append,
      List.map_singleton]
  · rw [hflat, List.length_append, hlen, ← h.offset]
    change (s.tTran + s.blockSize).toNat = _
    -- the offset does not pass the end of the buffer, so it does not wrap
    rw [UInt16.toNat_add, Nat.mod_eq_of_lt]
    unfold recBufferSize sizeofListView sizeofListViewExt at hroom
    omega
  · rw [hflat]
    change Filled (writeMem s.recBuffer s.tTran.toNat (readMem s.util 16 s.blockSize.toNat)) _
    rw [← hbytes, h.offset]
    exact h.filled.append (by rw [hlen, ← h.offset]; exact hroom)

end Collected

namespace Reassembly

variable {node d : List UInt8} {written : Bool} {s : Reassembly}

@[simp] theorem enter_util : s.enter.util = s.util := by
  unfold enter
  split <;> rfl

@[simp] theorem enter_blockSize : s.enter.blockSize = s.blockSize := by
  unfold blockSize data
  rw [enter_util]

@[simp] theorem enter_calls : s.enter.calls = s.calls := by
  unfold enter
  split <;> rfl

@[simp] theorem enter_previous : s.enter.previous = s.blockNo := by
  unfold enter
  split <;> rfl

theorem enter_tTran : s.enter.tTran.toNat = if s.blockNo = 1 then 0 else s.tTran.toNat := by
  unfold enter
  split <;> rfl

theorem enter_outside {i : Nat} (hi : recBufferSize ≤ i) : s.enter.recBuffer i = s.recBuffer i := by
  unfold enter
  split
  · exact zeroMem_of_ge (by omega)
  · rfl

/-- Block 1 starts again, whatever came before. -/
theorem enter_first (hone : s.blockNo = 1) : s.enter.transfer = [] ∧ Collected 0 s.enter := by
  unfold enter
  rw [if_pos hone]
  exact ⟨rfl, rfl, rfl, filled_zero _⟩

theorem enter_next (hone : s.blockNo ≠ 1) {n : Nat} (h : Collected n s) :
    s.enter.transfer = s.transfer ∧ Collected n s.enter := by
  unfold enter
  rw [if_neg hone]
  exact ⟨rfl, h.nos, h.offset, h.filled⟩

/-- A block that is no repetition is block 1 or the next one. -/
theorem Accepts.next (hacc : s.Accepts node) (hnew : s.blockNo = s.previous → s.previous = 1)
    (hone : s.blockNo ≠ 1) : s.previous ≠ 0 ∧ s.blockNo.toNat = s.previous.toNat + 1 := by
  obtain ⟨-, hle, hge⟩ := hacc
  have hne : s.blockNo ≠ s.previous := fun heq ↦ hone (heq.trans (hnew heq))
  have hnext : s.blockNo.toNat = s.previous.toNat + 1 := by
    have hlt : s.previous.toNat < s.blockNo.toNat :=
      Nat.lt_of_le_of_ne (UInt8.le_iff_toNat_le.mp hge) fun heq ↦
        hne (UInt8.toNat_inj.mp heq.symm)
    omega
  refine ⟨fun hz ↦ hone (UInt8.toNat_inj.mp ?_), hnext⟩
  rw [hnext, hz]
  rfl

/-- After the first tests all blocks before the datagram's have come. -/
theorem enter_collected (hacc : s.Accepts node) (hnew : s.blockNo = s.previous → s.previous = 1)
    (h : s.previous ≠ 0 → Collected s.previous.toNat s) :
    ∃ n, s.blockNo.toNat = n + 1 ∧ Collected n s.enter := by
  by_cases hone : s.blockNo = 1
  · exact ⟨0, congrArg UInt8.toNat hone, (enter_first hone).2⟩
  · obtain ⟨hprev, hnext⟩ := hacc.next hnew hone
    exact ⟨_, hnext, (enter_next hone (h hprev)).2⟩

theorem readMem_receive {n : Nat} (h : 16 + n ≤ (d.take utilityRecSize).length) :
    readMem (s.receive d).util 16 n = ((d.take utilityRecSize).drop 16).take n := by
  have hread := @readMem_writeMem_drop _ s.util 0 _ _ _ h
  rwa [Nat.zero_add] at hread

end Reassembly

/-! ## Runs -/

/-- `recBuffer` is the memory at the start. -/
structure Inv (recBuffer : Nat → UInt8) (s : Reassembly) : Prop where
  collected : s.previous ≠ 0 → Collected s.previous.toNat s
  calls : ∀ c ∈ s.calls, c.Reassembled
  outside : ∀ i, recBufferSize ≤ i → s.recBuffer i = recBuffer i

variable {node : List UInt8} {util recBuffer : Nat → UInt8} {s t : Reassembly} {a : Arrival}

theorem Inv.receive (h : Inv recBuffer s) (d : List UInt8) : Inv recBuffer (s.receive d) :=
  ⟨fun hp ↦ ⟨(h.collected hp).nos, (h.collected hp).offset, (h.collected hp).filled⟩, h.calls,
    h.outside⟩

theorem inv_step (h : Inv recBuffer s) (hok : Orderly node s a)
    (hstep : (configBox node util recBuffer).step s a = some t) : Inv recBuffer t := by
  obtain ⟨-, rfl⟩ := Option.ite_none_right_eq_some.mp hstep |>.imp_right Option.some.inj
  have hr := h.receive a.datagram
  have hread := @Reassembly.readMem_receive a.datagram s (s.receive a.datagram).blockSize.toNat
  -- from here on only the state after `recvfrom` matters
  unfold Orderly at hok
  have htran : (s.receive a.datagram).tTran = s.tTran := rfl
  have hprev : (s.receive a.datagram).previous = s.previous := rfl
  rw [← htran, ← hprev] at hok
  generalize s.receive a.datagram = r at *
  unfold Reassembly.utilConfigBoxUDPAdv
  by_cases hacc : r.Accepts node
  · rw [if_pos hacc]
    obtain ⟨hnew, hsize, hroom⟩ := hok hacc
    have hcollected : Collected r.blockNo.toNat (r.enter.append (r.blockOf a.datagram)) := by
      obtain ⟨n, hno, hn⟩ := Reassembly.enter_collected hacc hnew hr.collected
      rw [hno]
      apply hn.append hno
      · rw [Reassembly.enter_util, Reassembly.enter_blockSize, hread hsize]
        rfl
      · rw [Reassembly.enter_blockSize, Reassembly.enter_tTran]
        exact hroom
    have houtside : ∀ i, recBufferSize ≤ i →
        (r.enter.append (r.blockOf a.datagram)).recBuffer i = recBuffer i := by
      intro i hi
      change writeMem r.enter.recBuffer r.enter.tTran.toNat _ i = _
      rw [writeMem_of_ge, Reassembly.enter_outside hi, hr.outside i hi]
      rw [length_readMem, Reassembly.enter_blockSize, Reassembly.enter_tTran]
      omega
    have hcalls : (r.enter.append (r.blockOf a.datagram)).calls = r.calls := Reassembly.enter_calls
    dsimp only
    split
    · rename_i hlast
      refine ⟨fun hp ↦ absurd rfl hp, fun c hc ↦ ?_, houtside⟩
      rcases List.mem_append.mp hc with hc | hc
      · rw [hcalls] at hc
        exact hr.calls c hc
      · rw [List.mem_singleton.mp hc, ← hlast]
        exact hcollected.reassembled
    · refine ⟨fun _ ↦ ?_, by rw [hcalls]; exact hr.calls, houtside⟩
      have hp : (r.enter.append (r.blockOf a.datagram)).previous = r.blockNo :=
        Reassembly.enter_previous
      rwa [hp]
  · rw [if_neg hacc]
    exact hr

theorem inv_boot : Inv recBuffer (boot util recBuffer) :=
  ⟨fun h ↦ absurd rfl h, nofun, fun _ _ ↦ rfl⟩

theorem inv_run {as : List Arrival}
    (hok : (configBox node util recBuffer).Along (Orderly node) (boot util recBuffer) as)
    (hrun : (configBox node util recBuffer).run as = some s) : Inv recBuffer s :=
  Machine.run_invariant inv_boot (fun _ _ _ hs ha hstep ↦ inv_step hs ha hstep) hok hrun

/-! ## A record cut up and fed back -/

/-- The blocks in order, each one or more times. -/
inductive Feeds : List (List UInt8) → List Arrival → Prop
  | nil : Feeds [] []
  | cons {d ds rest type mode written as} (hrest : rest = d :: ds ∨ rest = ds)
      (h : Feeds rest as) : Feeds (d :: ds) (⟨cmd21 type mode d, written⟩ :: as)

section Fed

variable {size : Nat} {block : List UInt8}

/-- The datagram of a block as it stands in `NTUDPUtilData`. -/
structure Received (r : Reassembly) (no total : UInt8) (node block : List UInt8) : Prop where
  cmd : IsCmd21 r
  node : readMem r.util 10 6 = node
  no : r.blockNo = no
  total : r.totalBlock = total
  size : r.blockSize.toNat = block.length
  block : readMem r.util 16 block.length = block

variable (s : Reassembly) (type mode : UInt8) (no total : Nat)

theorem cmd21_blockData : cmd21 type mode (blockData no total size node block) =
    [0x4E, 0x45, 0x54, type, 0x21, mode, UInt8.ofNat no, UInt8.ofNat total, UInt8.ofNat size,
      UInt8.ofNat (size / 256)] ++ (node ++ block) := by
  simp [cmd21, blockData]

theorem length_cmd21 (hnode : node.length = 6) :
    (cmd21 type mode (blockData no total size node block)).length = 16 + block.length := by
  rw [cmd21_blockData, List.length_append, List.length_append, hnode]
  simp only [List.length_cons, List.length_nil]
  omega

variable {s} in
theorem receive_util {d : List UInt8} (hd : d.length ≤ utilityRecSize) :
    (s.receive d).util = writeMem s.util 0 d := by
  change writeMem s.util 0 (d.take utilityRecSize) = _
  rw [List.take_of_length_le hd]

variable {s} in
theorem receive_read {d : List UInt8} {i n : Nat} (hd : d.length ≤ utilityRecSize)
    (hin : i + n ≤ d.length) : readMem (s.receive d).util i n = (d.drop i).take n := by
  have h := @readMem_writeMem_drop _ s.util 0 _ _ _ hin
  rwa [Nat.zero_add, ← receive_util hd] at h

theorem toNat_size {size : Nat} (h : size < 65536) :
    (UInt16.ofNat ((UInt8.ofNat size).toNat + 256 * (UInt8.ofNat (size / 256)).toNat)).toNat =
      size := by
  simp only [UInt8.toNat_ofNat', UInt16.toNat_ofNat', Nat.reducePow]
  omega

theorem received_cmd21 (hnode : node.length = 6) (hsize : block.length ≤ packsize) :
    Received (s.receive (cmd21 type mode (blockData no total block.length node block)))
      (UInt8.ofNat no) (UInt8.ofNat total) node block := by
  have hpack : packsize = 1014 := rfl
  have hlen := @length_cmd21 node block.length block type mode no total hnode
  have hlist := @cmd21_blockData node block.length block type mode no total
  generalize cmd21 type mode (blockData no total block.length node block) = d at hlen hlist ⊢
  have hd : d.length ≤ utilityRecSize := by
    rw [hlen]
    unfold utilityRecSize
    omega
  have hget : ∀ i, i < 10 → (s.receive d).util i = d.getD i 0 := by
    intro i hi
    rw [receive_util hd, writeMem, if_neg (Nat.not_lt_zero i), Nat.sub_zero,
      List.getD_eq_getElem _ _ (by omega), List.getD_eq_getElem _ _ (by omega)]
  have hdrop10 : d.drop 10 = node ++ block := by
    rw [hlist]
    rfl
  have hdrop16 : d.drop 16 = block := by
    have hdrop := congrArg (List.drop 6) hdrop10
    rwa [List.drop_drop, List.drop_left' hnode] at hdrop
  refine ⟨⟨?_, ?_⟩, ?_, ?_, ?_, ?_, ?_⟩
  · rw [receive_read hd (by omega), hlist]
    rfl
  · rw [hget 4 (by omega), hlist]
    rfl
  · rw [receive_read hd (by omega), hdrop10, List.take_left' hnode]
  · change (s.receive d).util 6 = _
    rw [hget 6 (by omega), hlist]
    rfl
  · change (s.receive d).util 7 = _
    rw [hget 7 (by omega), hlist]
    rfl
  · change (UInt16.ofNat (((s.receive d).util 8).toNat +
      256 * ((s.receive d).util 9).toNat)).toNat = _
    rw [hget 8 (by omega), hget 9 (by omega), hlist]
    exact toNat_size (by omega)
  · rw [receive_read hd (by omega), hdrop16, List.take_length]

theorem blockOf_cmd21 (hnode : node.length = 6) (hsize : block.length ≤ packsize) :
    (s.receive (cmd21 type mode (blockData no total block.length node block))).blockOf
      (cmd21 type mode (blockData no total block.length node block)) =
      ⟨(UInt8.ofNat no).toNat, block⟩ := by
  have hr := received_cmd21 s type mode no total hnode hsize
  have hlen := @length_cmd21 node block.length block type mode no total hnode
  have hfit : 16 + block.length ≤
      ((cmd21 type mode (blockData no total block.length node block)).take
        utilityRecSize).length := by
    have hpack : packsize = 1014 := rfl
    rw [List.length_take, hlen]
    unfold utilityRecSize
    omega
  unfold Reassembly.blockOf
  rw [hr.no, hr.size, ← Reassembly.readMem_receive (s := s) hfit, hr.block]

theorem cmd21_ne_nil (data : List UInt8) : cmd21 type mode data ≠ [] := List.cons_ne_nil _ _

variable (written : Bool) (util recBuffer : Nat → UInt8)

variable {s} in
theorem step_config {d : List UInt8} (hd : d ≠ []) (h : IsCmd21 (s.receive d)) :
    (configBox node util recBuffer).step s ⟨d, written⟩ =
      some ((s.receive d).utilConfigBoxUDPAdv node d written) := by
  simp only [configBox, ne_eq, hd, not_false_eq_true, h, and_self, if_true]

/-- The step that a block of the utility leads to. -/
theorem step_cmd21 (hnode : node.length = 6) (hsize : block.length ≤ packsize)
    (hle : (UInt8.ofNat no).toNat ≤ s.previous.toNat + 1) (hge : s.previous ≤ UInt8.ofNat no) :
    ∃ r, Received r (UInt8.ofNat no) (UInt8.ofNat total) node block ∧
      r.previous = s.previous ∧ r.calls = s.calls ∧ r.transfer = s.transfer ∧
      (∀ n, Collected n s → Collected n r) ∧
      (configBox node util recBuffer).step s
          ⟨cmd21 type mode (blockData no total block.length node block), written⟩ =
        some (if UInt8.ofNat no = UInt8.ofNat total then
          (r.enter.append ⟨(UInt8.ofNat no).toNat, block⟩).configure (UInt8.ofNat no)
            (UInt8.ofNat total) written
        else r.enter.append ⟨(UInt8.ofNat no).toNat, block⟩) := by
  have hr := received_cmd21 s type mode no total hnode hsize
  refine ⟨_, hr, rfl, rfl, rfl, fun n h ↦ ⟨h.nos, h.offset, h.filled⟩, ?_⟩
  have hacc : (s.receive (cmd21 type mode
      (blockData no total block.length node block))).Accepts node := by
    refine ⟨hr.node, ?_, ?_⟩
    · rw [hr.no]
      exact hle
    · rw [hr.no]
      exact hge
  rw [step_config _ _ _ (cmd21_ne_nil _ _ _) hr.cmd]
  unfold Reassembly.utilConfigBoxUDPAdv
  rw [if_pos hacc, hr.no, hr.total, blockOf_cmd21 _ _ _ _ _ hnode hsize]

theorem step_first (hnode : node.length = 6) (hsize : block.length ≤ packsize)
    (hprev : s.previous ≤ 1) : ∃ t, (configBox node util recBuffer).step s
        ⟨cmd21 type mode (blockData 1 2 block.length node block), written⟩ = some t ∧
      t.previous = 1 ∧ t.calls = s.calls ∧ t.transfer = [⟨1, block⟩] ∧ Collected 1 t := by
  obtain ⟨r, hr, -, hcalls, -, -, hstep⟩ := step_cmd21 s type mode 1 2 written util
    recBuffer hnode hsize (Nat.le_add_left 1 _) hprev
  obtain ⟨htransfer, hzero⟩ := Reassembly.enter_first hr.no
  refine ⟨_, hstep, ?_, ?_, ?_, ?_⟩
  · exact Reassembly.enter_previous.trans hr.no
  · exact Reassembly.enter_calls.trans hcalls
  · change r.enter.transfer ++ [_] = _
    rw [htransfer]
    rfl
  · apply hzero.append rfl
    · rw [Reassembly.enter_util, Reassembly.enter_blockSize, hr.size, hr.block]
    · have hone : r.blockNo = 1 := hr.no
      rw [Reassembly.enter_blockSize, Reassembly.enter_tTran, if_pos hone, hr.size]
      have hpack : packsize = 1014 := rfl
      unfold recBufferSize sizeofListView sizeofListViewExt
      omega

theorem step_last {first : List UInt8} (hnode : node.length = 6) (hsize : block.length ≤ packsize)
    (hroom : first.length + block.length ≤ recBufferSize) (hprev : s.previous = 1)
    (htransfer : s.transfer = [⟨1, first⟩]) (h : Collected 1 s) :
    ∃ t c, (configBox node util recBuffer).step s
        ⟨cmd21 type mode (blockData 2 2 block.length node block), written⟩ = some t ∧
      t.previous = 0 ∧ t.calls = s.calls ++ [c] ∧ Filled c.buffer (first ++ block) := by
  obtain ⟨r, hr, -, hcalls, hrt, hkeep, hstep⟩ := step_cmd21 s type mode 2 2 written util
    recBuffer hnode hsize (by rw [hprev]; decide) (by rw [hprev]; decide)
  have hone : r.blockNo ≠ 1 := by
    rw [hr.no]
    decide
  obtain ⟨het, hcollected⟩ := Reassembly.enter_next hone (hkeep 1 h)
  have hflat : (r.enter.transfer.map Block.bytes).flatten = first := by
    rw [het, hrt, htransfer]
    exact List.append_nil first
  have hfilled := hcollected.filled
  have hoffset := hcollected.offset
  rw [hflat] at hfilled hoffset
  refine ⟨_, _, hstep, rfl, congrArg (· ++ [_]) (Reassembly.enter_calls.trans hcalls), ?_⟩
  change Filled (writeMem r.enter.recBuffer r.enter.tTran.toNat
    (readMem r.enter.util 16 r.enter.blockSize.toNat)) _
  rw [Reassembly.enter_util, Reassembly.enter_blockSize, hr.size, hr.block, hoffset]
  exact hfilled.append hroom

/-- The last block once more. -/
theorem step_late (hnode : node.length = 6) (hsize : block.length ≤ packsize)
    (hprev : s.previous = 0) : ∃ t, (configBox node util recBuffer).step s
        ⟨cmd21 type mode (blockData 2 2 block.length node block), written⟩ = some t ∧
      t.previous = 0 ∧ t.calls = s.calls := by
  have hr := received_cmd21 s type mode 2 2 hnode hsize
  refine ⟨s.receive (cmd21 type mode (blockData 2 2 block.length node block)), ?_, hprev, rfl⟩
  rw [step_config _ _ _ (cmd21_ne_nil _ _ _) hr.cmd]
  unfold Reassembly.utilConfigBoxUDPAdv
  rw [if_neg]
  rintro ⟨-, hle, -⟩
  rw [hr.no] at hle
  have hp : (s.receive (cmd21 type mode (blockData 2 2 block.length node block))).previous = 0 :=
    hprev
  rw [hp] at hle
  exact absurd hle (by decide)

/-! The three stages of a transfer, each with its repetitions. -/

variable {first second : List UInt8} {as : List Arrival} {ds : List (List UInt8)}

theorem feeds_late (hnode : node.length = 6) (hsize : second.length ≤ packsize)
    (h : Feeds ds as) (hds : ds = [blockData 2 2 second.length node second] ∨ ds = [])
    (hprev : s.previous = 0) :
    ∃ t, (configBox node util recBuffer).runFrom s as = some t ∧ t.calls = s.calls := by
  induction h generalizing s with
  | nil => exact ⟨s, rfl, rfl⟩
  | @cons d ds rest type mode written as hrest _ ih =>
      obtain ⟨rfl, rfl⟩ : d = blockData 2 2 second.length node second ∧ ds = [] := by
        simpa using hds
      obtain ⟨t, hstep, htp, htc⟩ := step_late s type mode written util recBuffer hnode
        hsize hprev
      obtain ⟨u, hrun, huc⟩ := ih t hrest htp
      exact ⟨u, Machine.runFrom_cons_some.mpr ⟨t, hstep, hrun⟩, huc.trans htc⟩

theorem feeds_last (hnode : node.length = 6) (hsize : second.length ≤ packsize)
    (hroom : first.length + second.length ≤ recBufferSize)
    (h : Feeds [blockData 2 2 second.length node second] as) (hprev : s.previous = 1)
    (htransfer : s.transfer = [⟨1, first⟩]) (hs : Collected 1 s) :
    ∃ t c, (configBox node util recBuffer).runFrom s as = some t ∧ t.calls = s.calls ++ [c] ∧
      Filled c.buffer (first ++ second) := by
  cases h with
  | @cons _ _ rest type mode written as hrest h =>
      obtain ⟨t, c, hstep, htp, htc, hfilled⟩ := step_last s type mode written util recBuffer
        hnode hsize hroom hprev htransfer hs
      obtain ⟨u, hrun, huc⟩ := feeds_late t util recBuffer hnode hsize h hrest htp
      exact ⟨u, c, Machine.runFrom_cons_some.mpr ⟨t, hstep, hrun⟩, huc.trans htc, hfilled⟩

theorem feeds_record (hnode : node.length = 6) (hfirst : first.length ≤ packsize)
    (hsecond : second.length ≤ packsize) (hroom : first.length + second.length ≤ recBufferSize)
    (h : Feeds ds as) (hds : ds = [blockData 1 2 first.length node first,
      blockData 2 2 second.length node second]) (hprev : s.previous ≤ 1) :
    ∃ t c, (configBox node util recBuffer).runFrom s as = some t ∧ t.calls = s.calls ++ [c] ∧
      Filled c.buffer (first ++ second) := by
  induction h generalizing s with
  | nil => cases hds
  | @cons d ds rest type mode written as hrest h ih =>
      obtain ⟨rfl, rfl⟩ := List.cons.inj hds
      obtain ⟨t, hstep, htp, htc, htransfer, hcollected⟩ := step_first s type mode written util
        recBuffer hnode hfirst hprev
      rcases hrest with rfl | rfl
      · -- block 1 again: the receiver starts over
        obtain ⟨u, c, hrun, huc, hfilled⟩ := ih t rfl (by rw [htp]; decide)
        exact ⟨u, c, Machine.runFrom_cons_some.mpr ⟨t, hstep, hrun⟩, by rw [huc, htc], hfilled⟩
      · obtain ⟨u, c, hrun, huc, hfilled⟩ :=
          feeds_last t util recBuffer hnode hsecond hroom h htp htransfer hcollected
        exact ⟨u, c, Machine.runFrom_cons_some.mpr ⟨t, hstep, hrun⟩, by rw [huc, htc], hfilled⟩

end Fed

theorem viewBlocks {record : List UInt8} (hrecord : record.length = datasize) :
    utilViewBoxUDPAdv record 1 =
      [blockData 1 2 (record.take packsize).length (record.take 6) (record.take packsize),
        blockData 2 2 (record.drop packsize).length (record.take 6) (record.drop packsize)] := by
  have hpack : packsize = 1014 := rfl
  have hdata : datasize = 1529 := rfl
  have hone : viewBlockSize 1 = packsize := rfl
  have htwo : viewBlockSize 2 = 515 := rfl
  have hfirst : (record.take packsize).length = packsize := by
    rw [List.length_take]
    omega
  have hsecond : (record.drop packsize).length = 515 := by
    rw [List.length_drop]
    omega
  rw [utilViewBoxUDPAdv, if_pos (by decide), utilViewBoxUDPAdv, if_pos (by decide),
    utilViewBoxUDPAdv, if_neg (by decide), hone, htwo, hfirst, hsecond]
  have hrest : (record.drop ((2 - 1) * packsize)).take 515 = record.drop packsize := by
    rw [Nat.add_one_sub_one, Nat.one_mul]
    exact List.take_of_length_le (Nat.le_of_eq hsecond)
  rw [hrest]
  rfl

/-- A run of orderly datagrams passes on whole transfers only and stays inside the buffer; and the
blocks of a record, however often each is repeated, are put together to the record again. -/
theorem config_blocks (node : List UInt8) (util recBuffer : Nat → UInt8) :
    (∀ as s, (configBox node util recBuffer).Along (Orderly node) (boot util recBuffer) as →
      (configBox node util recBuffer).run as = some s →
        (∀ c ∈ s.calls, c.Reassembled) ∧ ∀ i, recBufferSize ≤ i → s.recBuffer i = recBuffer i) ∧
    (∀ (record : List UInt8), record.length = datasize → ∀ (s : Reassembly), s.previous ≤ 1 →
      ∀ as, Feeds (utilViewBoxUDPAdv record 1) as →
        ∃ t c, (configBox (record.take 6) util recBuffer).runFrom s as = some t ∧
          t.calls = s.calls ++ [c] ∧ readMem c.buffer 0 datasize = record) := by
  constructor
  · intro as s hok hrun
    have h := inv_run hok hrun
    exact ⟨h.calls, h.outside⟩
  · intro record hrecord s hprev as hfeeds
    have hdata : datasize = 1529 := rfl
    have hpack : packsize = 1014 := rfl
    have hbuffer : recBufferSize = 1535 := rfl
    have hroom : (record.take packsize).length + (record.drop packsize).length ≤ recBufferSize := by
      rw [← List.length_append, List.take_append_drop]
      omega
    obtain ⟨t, c, hrun, hcalls, hfilled⟩ := feeds_record s util recBuffer
      (by rw [List.length_take]; omega) (by rw [List.length_take]; omega)
      (by rw [List.length_drop]; omega) hroom hfeeds (viewBlocks hrecord) hprev
    rw [List.take_append_drop] at hfilled
    exact ⟨t, c, hrun, hcalls, hrecord ▸ hfilled.readMem_eq⟩

def boxNode : List UInt8 := [0x00, 0x40, 0x01, 0x02, 0x03, 0x04]

/-- A block of a transfer to that box. -/
def blockAt (no total : Nat) (block : List UInt8) : Arrival :=
  ⟨cmd21 0x60 0 (blockData no total block.length boxNode block), true⟩

/-- Two blocks, the first one sent twice. -/
def inOrder : List Arrival := [blockAt 1 2 [1], blockAt 1 2 [1], blockAt 2 2 [2]]

theorem config_blocks_two : ∃ s, (configBox boxNode (fun _ ↦ 0) (fun _ ↦ 0)).run inOrder = some s ∧
    s.calls.length = 1 ∧ ∀ c ∈ s.calls, c.Reassembled := by
  have hok : (configBox boxNode (fun _ ↦ 0) (fun _ ↦ 0)).Along (Orderly boxNode)
      (boot (fun _ ↦ 0) (fun _ ↦ 0)) inOrder := by decide
  have hlen : ((configBox boxNode (fun _ ↦ 0) (fun _ ↦ 0)).run inOrder).map
      (fun s ↦ s.calls.length) = some 1 := by decide
  obtain ⟨s, hrun, hcalls⟩ := Option.map_eq_some_iff.mp hlen
  exact ⟨s, hrun, hcalls, ((config_blocks boxNode _ _).1 inOrder s hok hrun).1⟩

/-- Three blocks, the second one sent twice. -/
def secondTwice : List Arrival :=
  [blockAt 1 3 [1], blockAt 2 3 [2], blockAt 2 3 [2], blockAt 3 3 [3]]

/-- Two full blocks are more than the buffer holds. -/
def tooLong : List Arrival :=
  [blockAt 1 3 (List.replicate packsize 0x41), blockAt 2 3 (List.replicate packsize 0x41)]

theorem config_blocks_broken :
    (∃ s, (configBox boxNode (fun _ ↦ 0) (fun _ ↦ 0)).run secondTwice = some s ∧
      ∃ c ∈ s.calls, ¬ c.Reassembled) ∧
    ∃ s, (configBox boxNode (fun _ ↦ 0) (fun _ ↦ 0)).run tooLong = some s ∧
      s.recBuffer recBufferSize = 0x41 := by
  constructor
  · have heval : ((configBox boxNode (fun _ ↦ 0) (fun _ ↦ 0)).run secondTwice).map (fun s ↦
        s.calls.map fun c ↦ (c.totalBlock, c.transfer, c.buffer 2)) =
        some [(3, [⟨1, [1]⟩, ⟨2, [2]⟩, ⟨2, [2]⟩, ⟨3, [3]⟩], 2)] := by decide
    obtain ⟨s, hrun, hcalls⟩ := Option.map_eq_some_iff.mp heval
    obtain ⟨c, hc, hfields⟩ := List.map_eq_singleton_iff.mp hcalls
    refine ⟨s, hrun, c, by rw [hc]; exact List.mem_singleton_self c, ?_⟩
    obtain ⟨htotal, htransfer, hbuffer⟩ : c.totalBlock = 3 ∧
        c.transfer = [⟨1, [1]⟩, ⟨2, [2]⟩, ⟨2, [2]⟩, ⟨3, [3]⟩] ∧ c.buffer 2 = 2 := by
      simpa using hfields
    rintro ⟨copies, hlen, hmem, -, hfilled⟩
    rw [htotal] at hlen
    rw [htransfer] at hmem
    obtain ⟨x, y, z, rfl⟩ := List.length_eq_three.mp hlen
    have hx : x = [1] := by simpa using hmem 0 (by simp)
    have hy : y = [2] := by simpa using hmem 1 (by simp)
    have hz : z = [3] := by simpa using hmem 2 (by simp)
    -- the third byte is the second copy of block 2
    have hthird := hfilled 2 (by decide)
    rw [hbuffer, hx, hy, hz] at hthird
    exact absurd hthird (by decide)
  · have heval : ((configBox boxNode (fun _ ↦ 0) (fun _ ↦ 0)).run tooLong).map
        (fun s ↦ s.recBuffer recBufferSize) = some 0x41 := by decide +kernel
    obtain ⟨s, hrun, hbyte⟩ := Option.map_eq_some_iff.mp heval
    exact ⟨s, hrun, hbyte⟩

end PrintServer.Nt
