import PrintServer.Ipx.Upgrade

/-!
# The file that is assembled over IPX
-/

namespace PrintServer.Ipx

open Lib

variable {ram : Nat → UInt8} {s t : UpgradeSys} {p : List UInt8} {i n : Nat}

/-- When a label does what it is for.

The block count 0xFFFF becomes 0 by the addition of 1, and the firmware is written without any
block; more than 832 blocks do not end in front of `kFarHeap_base`; the receive routine may refill
the buffer between the test of the block number and the end of the copy; and a packet that is
shorter than a record leaves what an earlier one had there, block number or data, in the buffer. -/
def UpgradeOk (s : UpgradeSys) : UpgradeAct → Prop
  | .start word alloc => s.waiting = true → alloc = true → word ≠ 0xFFFF
  | .packet p =>
      match s.pc with
      | .copy i =>
          readMem (s.fill p).recv dataOffset upgradeBlockSize =
              readMem s.recv dataOffset upgradeBlockSize ∨
            i = 0 ∧ Carries p s.requestBlock
      | _ => True
  | .thread _ =>
      match s.pc with
      | .test =>
          s.noTimeout = true → blockNumber s.recv = s.requestBlock →
            ∃ p ∈ s.record, upgradeRecSize ≤ p.length
      | .copy _ =>
          s.requestBlock.toNat < (kFarHeapBase - upgradeTempAddress) / upgradeBlockSize
      | _ => True

instance (p : List UInt8) (k : UInt16) : Decidable (Numbered p k) :=
  inferInstanceAs (Decidable (_ ∧ _))

instance (p : List UInt8) (k : UInt16) : Decidable (Carries p k) :=
  inferInstanceAs (Decidable (_ ∧ _))

instance (s : UpgradeSys) (a : UpgradeAct) : Decidable (UpgradeOk s a) := by
  unfold UpgradeOk
  split
  · infer_instance
  · split <;> infer_instance
  · split <;> infer_instance

/-! ## The buffer -/

theorem payload_length : (payload p).length ≤ upgradeBlockSize := List.length_take_le ..

/-- The payload of a whole record has the size of a block. -/
theorem length_payload (hp : upgradeRecSize ≤ p.length) :
    (payload p).length = upgradeBlockSize := by
  unfold upgradeRecSize at hp
  simp only [payload, List.length_take, List.length_drop]
  omega

theorem payload_getD {j : Nat} (hj : j < (payload p).length) :
    (payload p).getD j 0 = p.getD (dataOffset + j) 0 := by
  have hblock := Nat.lt_of_lt_of_le hj payload_length
  simp only [payload, List.getD_eq_getElem?_getD, List.getElem?_take, if_pos hblock,
    List.getElem?_drop]

theorem payload_lt {j : Nat} (hj : j < (payload p).length) : dataOffset + j < p.length := by
  simp only [payload, List.length_take, List.length_drop] at hj
  omega

/-- What a packet is long enough for is in the buffer. -/
theorem recv_fill {j : Nat} (hj : j < p.length) (hsize : j < upgradeRecSize) :
    (s.fill p).recv j = p.getD j 0 := by
  have hlen : j < (p.take upgradeRecSize).length := by
    rw [List.length_take]
    omega
  have hwrite := @writeMem_add _ s.recv 0 j (p.take upgradeRecSize) hlen
  rw [Nat.zero_add] at hwrite
  refine hwrite.trans ?_
  rw [List.getElem_take, List.getD_eq_getElem?_getD, List.getElem?_eq_getElem hj, Option.getD_some]

/-- The rest is from before. -/
theorem recv_fill_of_ge {j : Nat} (hj : p.length ≤ j) : (s.fill p).recv j = s.recv j := by
  show writeMem s.recv 0 (p.take upgradeRecSize) j = s.recv j
  apply writeMem_of_ge
  rw [List.length_take]
  omega

theorem blockNumber_congr {m m' : Nat → UInt8} (h₀ : m blockNumberOffset = m' blockNumberOffset)
    (h₁ : m (blockNumberOffset + 1) = m' (blockNumberOffset + 1)) :
    blockNumber m = blockNumber m' := by
  unfold blockNumber
  rw [h₀, h₁]

/-- The number and the data of the buffer are those of the packet that is remembered. -/
structure RecordOk (s : UpgradeSys) (p : List UInt8) : Prop where
  mem : p ∈ s.packets
  number : Numbered p (blockNumber s.recv)
  data : ∀ j < (payload p).length, s.recv (dataOffset + j) = (payload p).getD j 0

theorem recordOk_fill (hs : ∀ q, s.record = some q → RecordOk s q) {q : List UInt8}
    (hq : (s.fill p).record = some q) : RecordOk (s.fill p) q := by
  change (if p.length ≤ blockNumberOffset then s.record
    else if p.length < dataOffset then none else some p) = some q at hq
  split at hq
  · -- the packet ends in front of the number
    rename_i hshort
    obtain ⟨hmem, ⟨hlen, hnum⟩, hdata⟩ := hs q hq
    have hsame : ∀ j, blockNumberOffset ≤ j → (s.fill p).recv j = s.recv j :=
      fun j hj ↦ recv_fill_of_ge (Nat.le_trans hshort hj)
    refine ⟨List.mem_append_left _ hmem, ⟨hlen, hnum.trans ?_⟩, fun j hj ↦ ?_⟩
    · exact blockNumber_congr (hsame _ (Nat.le_refl _)).symm (hsame _ (Nat.le_succ _)).symm
    · rw [hsame _ (by unfold blockNumberOffset dataOffset; omega)]
      exact hdata j hj
  · split at hq
    · cases hq
    · rename_i hlong
      obtain rfl := Option.some.inj hq
      have hlen : dataOffset ≤ p.length := Nat.le_of_not_lt hlong
      unfold dataOffset at hlen
      refine ⟨List.mem_append_right _ List.mem_cons_self, ⟨Nat.le_of_not_lt hlong, ?_⟩,
        fun j hj ↦ ?_⟩
      · apply blockNumber_congr
        · exact (recv_fill (show 6 < p.length by omega) (by decide)).symm
        · exact (recv_fill (show 7 < p.length by omega) (by decide)).symm
      · have hblock := Nat.lt_of_lt_of_le hj payload_length
        rw [recv_fill (payload_lt hj) (by unfold upgradeRecSize; omega), payload_getD hj]

/-! ## The invariant -/

/-- In the loop, with `rest` blocks that are neither counted nor copied. -/
structure InLoop (s : UpgradeSys) (rest : Nat) : Prop where
  request : s.requestBlock = UInt16.ofNat s.copied.length
  cur : s.curTempAddress = upgradeTempAddress + s.copied.length * upgradeBlockSize
  bsize : s.bsize = s.copied.length * upgradeBlockSize
  count : s.totalUpgradeBlock.toNat + s.copied.length + rest = s.announced
  announced : 0 < s.announced ∧ s.announced < 65536

theorem InLoop.congr (h : InLoop s n) (hrequest : t.requestBlock = s.requestBlock)
    (hcur : t.curTempAddress = s.curTempAddress) (hbsize : t.bsize = s.bsize)
    (htotal : t.totalUpgradeBlock = s.totalUpgradeBlock) (hannounced : t.announced = s.announced)
    (hcopied : t.copied = s.copied) : InLoop t n := by
  obtain ⟨h₁, h₂, h₃, h₄, h₅⟩ := h
  rw [← hcopied] at h₁ h₂ h₃ h₄
  rw [← hannounced] at h₄ h₅
  exact ⟨hrequest.trans h₁, hcur.trans h₂, hbsize.trans h₃, htotal ▸ h₄, h₅⟩

/-- The bytes that are copied, with those that are still to be copied, are a packet's. -/
def Holding (s : UpgradeSys) (i : Nat) : Prop :=
  ∃ p ∈ s.packets, Carries p s.requestBlock ∧
    ∀ j < (payload p).length,
      (if j < i then s.ram (s.curTempAddress + j) else s.recv (dataOffset + j)) =
        (payload p).getD j 0

def PcOk (s : UpgradeSys) : ThreadPc → Prop
  | .start => s.copied = [] ∧ s.totalUpgradeBlock.toNat = s.announced ∧ 0 < s.announced
  | .loop => InLoop s 0 ∧ s.noTimeout = true
  | .request | .wait | .test => InLoop s 1
  | .copy i => InLoop s 1 ∧ s.noTimeout = true ∧ i < upgradeBlockSize ∧ Holding s i
  | .behindLoop =>
      s.noTimeout = true → s.totalUpgradeBlock = 0xFFFF →
        s.copied.length = s.announced ∧ 0 < s.announced ∧
          s.bsize = s.announced * upgradeBlockSize
  | _ => True

structure UpgradeInv (ram : Nat → UInt8) (s : UpgradeSys) : Prop where
  assembled : Assembled ram s
  held : s.upgradeUsed = false → s.pc = .none
  record : ∀ p, s.record = some p → RecordOk s p
  pcOk : PcOk s s.pc

theorem upgradeStart_inv (ram : Nat → UInt8) : UpgradeInv ram (upgradeStart ram) where
  assembled := ⟨rfl, fun _ hk ↦ absurd hk (Nat.not_lt_zero _), nofun, fun _ _ ↦ rfl⟩
  held := fun _ ↦ rfl
  record := nofun
  pcOk := trivial

/-- What is copied or received stays; the thread goes on. -/
structure Kept (s t : UpgradeSys) : Prop where
  ram : t.ram = s.ram
  copied : t.copied = s.copied
  calls : t.calls = s.calls
  packets : t.packets = s.packets
  recv : t.recv = s.recv
  record : t.record = s.record

theorem Assembled.kept (hs : Assembled ram s) (h : Kept s t) : Assembled ram t where
  inOrder := by
    rw [h.copied]
    exact hs.inOrder
  payloads := by
    rw [h.copied, h.packets, h.ram]
    exact hs.payloads
  complete := by
    rw [h.calls]
    exact hs.complete
  inBounds := by
    rw [h.ram]
    exact hs.inBounds

theorem UpgradeInv.goOn (hs : UpgradeInv ram s) (h : Kept s t)
    (hheld : t.upgradeUsed = false → t.pc = .none) (hpc : PcOk t t.pc) : UpgradeInv ram t where
  assembled := hs.assembled.kept h
  held := hheld
  record := by
    intro p hp
    rw [h.record] at hp
    obtain ⟨hmem, hnum, hdata⟩ := hs.record p hp
    exact ⟨h.packets ▸ hmem, h.recv ▸ hnum, h.recv ▸ hdata⟩
  pcOk := hpc

/-! ## A start command and a packet -/

theorem utilStartUpgrade_inv {word : UInt16} {alloc : Bool} (hs : UpgradeInv ram s)
    (hok : UpgradeOk s (.start word alloc)) : UpgradeInv ram (s.utilStartUpgrade word alloc) := by
  unfold UpgradeSys.utilStartUpgrade
  split
  · rename_i hgo
    have hword := hok hgo.1 hgo.2
    have hlt := word.toNat_lt
    have hne : word.toNat ≠ 65535 := fun h ↦ hword (UInt16.toNat_inj.mp h)
    refine ⟨⟨rfl, fun _ hk ↦ absurd hk (Nat.not_lt_zero _), hs.assembled.complete, ?_⟩, nofun,
      fun p hp ↦ ?_, rfl, ?_, Nat.succ_pos _⟩
    · intro a ha
      rw [← hs.assembled.inBounds a ha]
      -- the cleared sectors are at the front of the memory
      rcases ha with ha | ha
      · exact writeMem_of_lt ha
      · apply writeMem_of_ge
        rw [List.length_replicate]
        unfold upgradeTempAddress programCode2KSize
        unfold kFarHeapBase at ha
        omega
    · obtain ⟨hmem, hnum, hdata⟩ := hs.record p hp
      exact ⟨hmem, hnum, hdata⟩
    · show (word + 1).toNat = word.toNat + 1
      rw [UInt16.toNat_add, UInt16.toNat_one]
      omega
  · exact hs

/-- The service routine posts, or does nothing. -/
theorem utilUpgradeESR_cases (s : UpgradeSys) :
    ∃ a b, s.utilUpgradeESR = { s with semData := a, semFinish := b } := by
  unfold UpgradeSys.utilUpgradeESR
  split
  · split
    · exact ⟨_, _, rfl⟩
    · split <;> exact ⟨_, _, rfl⟩
  · exact ⟨_, _, rfl⟩

theorem pcOk_semaphores {a b : Nat} {pc : ThreadPc} (h : PcOk s pc) :
    PcOk { s with semData := a, semFinish := b } pc := by
  have hloop {n : Nat} (hn : InLoop s n) : InLoop { s with semData := a, semFinish := b } n :=
    hn.congr rfl rfl rfl rfl rfl rfl
  cases pc with
  | start | behindLoop => exact h
  | loop => exact ⟨hloop h.1, h.2⟩
  | request | wait | test => exact hloop h
  | copy i => exact ⟨hloop h.1, h.2⟩
  | _ => trivial

theorem fill_inv (hs : UpgradeInv ram s) (hok : UpgradeOk s (.packet p)) :
    UpgradeInv ram (s.fill p) := by
  have hloop {n : Nat} (hn : InLoop s n) : InLoop (s.fill p) n :=
    hn.congr rfl rfl rfl rfl rfl rfl
  have hpc := hs.pcOk
  refine ⟨⟨hs.assembled.inOrder, fun k hk ↦ ?_, hs.assembled.complete, hs.assembled.inBounds⟩,
    hs.held, fun q hq ↦ recordOk_fill hs.record hq, ?_⟩
  · obtain ⟨q, hq, hcopied⟩ := hs.assembled.payloads k hk
    exact ⟨q, List.mem_append_left _ hq, hcopied⟩
  · show PcOk (s.fill p) s.pc
    cases hat : s.pc with
    | start | behindLoop =>
        rw [hat] at hpc
        exact hpc
    | loop =>
        rw [hat] at hpc
        exact ⟨hloop hpc.1, hpc.2⟩
    | request | wait | test =>
        rw [hat] at hpc
        exact hloop hpc
    | copy i =>
        rw [hat] at hpc
        obtain ⟨hin, hgot, hi, q, hq, hnum, hdata⟩ := hpc
        refine ⟨hloop hin, hgot, hi, ?_⟩
        simp only [UpgradeOk, hat] at hok
        rcases hok with hsame | ⟨rfl, hown⟩
        · -- the data are the same as before
          refine ⟨q, List.mem_append_left _ hq, hnum, fun j hj ↦ ?_⟩
          have hblock := Nat.lt_of_lt_of_le hj payload_length
          have hat := congrArg (·[j]?) hsame
          simp only [getElem?_readMem hblock] at hat
          rw [Option.some.inj hat]
          exact hdata j hj
        · -- nothing is copied yet, and the new packet has the number too
          refine ⟨p, List.mem_append_right _ List.mem_cons_self, hown, fun j hj ↦ ?_⟩
          have hblock := Nat.lt_of_lt_of_le hj payload_length
          rw [if_neg (Nat.not_lt_zero j), payload_getD hj]
          exact recv_fill (payload_lt hj) (by unfold upgradeRecSize; omega)
    | _ => trivial

theorem packet_inv (hs : UpgradeInv ram s) (hok : UpgradeOk s (.packet p)) :
    UpgradeInv ram (s.fill p).utilUpgradeESR := by
  have hfill := fill_inv hs hok
  obtain ⟨a, b, hesr⟩ := utilUpgradeESR_cases (s.fill p)
  rw [hesr]
  exact hfill.goOn ⟨rfl, rfl, rfl, rfl, rfl, rfl⟩ hfill.held (pcOk_semaphores hfill.pcOk)

/-! ## The thread -/

/-- More bytes of a block are copied. -/
theorem holding_copy (hs : Holding s i) :
    Holding { s with
      ram := writeMem s.ram (s.curTempAddress + i) (readMem s.recv (dataOffset + i) n) }
      (i + n) := by
  obtain ⟨p, hp, hnum, hdata⟩ := hs
  refine ⟨p, hp, hnum, fun j hj ↦ ?_⟩
  rw [← hdata j hj]
  have hlen : (readMem s.recv (dataOffset + i) n).length = n := length_readMem
  dsimp only
  by_cases hold : j < i
  · rw [if_pos (by omega), if_pos hold, writeMem_of_lt (by omega)]
  · rw [if_neg hold]
    split
    · obtain ⟨k, rfl⟩ := Nat.exists_eq_add_of_le (Nat.le_of_not_lt hold)
      rw [← Nat.add_assoc, writeMem_add (by rw [hlen]; omega)]
      simp [readMem, Nat.add_assoc]
    · rfl

/-- A whole block in the memory is a packet's payload. -/
theorem Holding.read (hs : Holding s upgradeBlockSize) :
    ∃ p ∈ s.packets, Carries p s.requestBlock ∧
      readMem s.ram s.curTempAddress upgradeBlockSize = payload p := by
  obtain ⟨p, hp, hnum, hdata⟩ := hs
  have hlen : (readMem s.ram s.curTempAddress upgradeBlockSize).length = (payload p).length :=
    length_readMem.trans (length_payload hnum.1).symm
  refine ⟨p, hp, hnum, List.ext_getElem hlen fun j hj hj' ↦ ?_⟩
  have hat := hdata j hj'
  rw [if_pos (Nat.lt_of_lt_of_le hj' payload_length), List.getD_eq_getElem?_getD,
    List.getElem?_eq_getElem hj', Option.getD_some] at hat
  simp [readMem, hat]

/-- The blocks in front and what is outside the memory stay when a piece of the next one is
copied. -/
theorem assembled_copy {bs : List UInt8} (hs : Assembled ram s) (hin : InLoop s 1)
    (hroom : s.copied.length < (kFarHeapBase - upgradeTempAddress) / upgradeBlockSize)
    (hi : i + bs.length ≤ upgradeBlockSize) :
    Assembled ram { s with ram := writeMem s.ram (s.curTempAddress + i) bs } where
  inOrder := hs.inOrder
  payloads := by
    intro k hk
    obtain ⟨p, hp, hnum, hdata⟩ := hs.payloads k hk
    refine ⟨p, hp, hnum, ?_⟩
    change k < s.copied.length at hk
    show readMem (writeMem s.ram (s.curTempAddress + i) bs) _ _ = _
    rw [readMem_writeMem_of_le, hdata]
    rw [hin.cur]
    unfold upgradeBlockSize at *
    omega
  complete := hs.complete
  inBounds := by
    intro a ha
    rw [← hs.inBounds a ha]
    show writeMem s.ram (s.curTempAddress + i) bs a = s.ram a
    rw [hin.cur]
    unfold kFarHeapBase upgradeTempAddress upgradeBlockSize at *
    rcases ha with ha | ha
    · exact writeMem_of_lt (by omega)
    · exact writeMem_of_ge (by omega)

/-- A block is finished: it is the next one, with the payload of its packet. -/
theorem finish_inv (hs : Assembled ram s) (hrecord : ∀ p, s.record = some p → RecordOk s p)
    (hheld : s.upgradeUsed ≠ false) (hin : InLoop s 1) (hgot : s.noTimeout = true)
    (hhold : Holding s upgradeBlockSize) :
    UpgradeInv ram { s with
      copied := s.copied ++ [(s.requestBlock, s.curTempAddress)]
      bsize := s.bsize + upgradeBlockSize
      curTempAddress := s.curTempAddress + upgradeBlockSize
      requestBlock := s.requestBlock + 1
      pc := .loop } := by
  obtain ⟨hrequest, hcur, hbsize, hcount, hannounced⟩ := hin
  have hlen (x : UInt16 × Nat) : (s.copied ++ [x]).length = s.copied.length + 1 :=
    List.length_append
  refine ⟨⟨?_, ?_, hs.complete, hs.inBounds⟩, fun h ↦ absurd h hheld, fun p hp ↦ ?_,
    ⟨⟨?_, ?_, ?_, ?_, hannounced⟩, hgot⟩⟩
  · show s.copied ++ [_] = (List.range (s.copied ++ [_]).length).map _
    rw [hlen, List.range_succ, List.map_append, ← hs.inOrder, List.map_singleton,
      hrequest, hcur]
  · intro k hk
    change k < (s.copied ++ [_]).length at hk
    rw [hlen] at hk
    rcases Nat.lt_succ_iff_lt_or_eq.mp hk with hk | rfl
    · exact hs.payloads k hk
    -- what was copied while the packet was held is its whole payload
    · obtain ⟨p, hp, hnum, hread⟩ := hhold.read
      rw [hrequest] at hnum
      rw [hcur] at hread
      exact ⟨p, hp, hnum, hread⟩
  · obtain ⟨hmem, hnum, hdata⟩ := hrecord p hp
    exact ⟨hmem, hnum, hdata⟩
  · show s.requestBlock + 1 = UInt16.ofNat (s.copied ++ [_]).length
    rw [hlen, hrequest, UInt16.ofNat_add, UInt16.ofNat_one]
  · show s.curTempAddress + upgradeBlockSize = _ + (s.copied ++ [_]).length * _
    rw [hlen, hcur, Nat.add_mul, Nat.one_mul, Nat.add_assoc]
  · show s.bsize + upgradeBlockSize = (s.copied ++ [_]).length * _
    rw [hlen, hbsize, Nat.add_mul, Nat.one_mul]
  · show s.totalUpgradeBlock.toNat + (s.copied ++ [_]).length + 0 = s.announced
    rw [hlen]
    omega

theorem copy_inv {c : ThreadChoice} (hs : UpgradeInv ram s) (hat : s.pc = .copy i)
    (hok : UpgradeOk s (.thread c)) (hstep : ipxUpgrade s (.copy i) c = some t) :
    UpgradeInv ram t := by
  have hpc := hs.pcOk
  rw [hat] at hpc
  obtain ⟨hin, hgot, -, hhold⟩ := hpc
  simp only [UpgradeOk, hat] at hok
  -- the condition is on the number as a `uint16`, which does not wrap below the announced count
  have hroom : s.copied.length < (kFarHeapBase - upgradeTempAddress) / upgradeBlockSize := by
    have hcount := hin.count
    have hannounced := hin.announced.2
    rwa [hin.request, UInt16.toNat_ofNat', Nat.mod_eq_of_lt (by omega)] at hok
  have hheld : s.upgradeUsed ≠ false := by
    intro h
    rw [hs.held h] at hat
    cases hat
  cases c with
  | bytes n =>
      obtain ⟨⟨-, hle⟩, hnext⟩ := Option.ite_none_right_eq_some.mp hstep
      have hlen : (readMem s.recv (dataOffset + i) n).length = n := length_readMem
      have hassembled := assembled_copy hs.assembled hin hroom (hlen.symm ▸ hle)
      have hmore := holding_copy (n := n) hhold
      have hloop : InLoop { s with
          ram := writeMem s.ram (s.curTempAddress + i) (readMem s.recv (dataOffset + i) n) } 1 :=
        hin.congr rfl rfl rfl rfl rfl rfl
      have hrecord : ∀ p, s.record = some p → RecordOk { s with
          ram := writeMem s.ram (s.curTempAddress + i) (readMem s.recv (dataOffset + i) n) } p := by
        intro p hp
        obtain ⟨hmem, hnum, hdata⟩ := hs.record p hp
        exact ⟨hmem, hnum, hdata⟩
      dsimp only at hnext
      split at hnext
      · rename_i hlt
        obtain rfl := Option.some.inj hnext
        refine ⟨hassembled.kept ⟨rfl, rfl, rfl, rfl, rfl, rfl⟩, fun h ↦ absurd h hheld,
          fun p hp ↦ ?_, hloop.congr rfl rfl rfl rfl rfl rfl, hgot, hlt, hmore⟩
        obtain ⟨hmem, hnum, hdata⟩ := hrecord p hp
        exact ⟨hmem, hnum, hdata⟩
      -- the last byte: the block is finished
      · rename_i hend
        obtain rfl := Option.some.inj hnext
        rw [Nat.le_antisymm hle (Nat.le_of_not_lt hend)] at hmore
        exact finish_inv hassembled hrecord hheld hloop hgot hmore
  | _ => cases hstep

/-- The thread sets its variables: nothing is copied, and the loop starts at block 0. -/
theorem start_inv {c : ThreadChoice} (hs : UpgradeInv ram s) (hat : s.pc = .start)
    (hheld : s.upgradeUsed ≠ false) (hstep : ipxUpgrade s .start c = some t) :
    UpgradeInv ram t := by
  have hpc := hs.pcOk
  rw [hat] at hpc
  obtain ⟨hnil, htotal, hpos⟩ := hpc
  cases c with
  | go =>
      obtain rfl := Option.some.inj hstep
      have hlt := s.totalUpgradeBlock.toNat_lt
      refine hs.goOn ⟨rfl, rfl, rfl, rfl, rfl, rfl⟩ (fun h ↦ absurd h hheld)
        ⟨⟨?_, ?_, ?_, ?_, hpos, ?_⟩, rfl⟩
      · show 0 = UInt16.ofNat s.copied.length
        rw [hnil]
        rfl
      · show upgradeTempAddress = upgradeTempAddress + s.copied.length * upgradeBlockSize
        rw [hnil]
        rfl
      · show 0 = s.copied.length * upgradeBlockSize
        rw [hnil]
        rfl
      · show s.totalUpgradeBlock.toNat + s.copied.length + 0 = s.announced
        rw [hnil, htotal]
        rfl
      · exact htotal ▸ hlt
  | _ => cases hstep

/-- `while( TotalUpgradeBlock-- )` counts a block, or all of them are copied. -/
theorem loop_inv {c : ThreadChoice} (hs : UpgradeInv ram s) (hat : s.pc = .loop)
    (hheld : s.upgradeUsed ≠ false) (hstep : ipxUpgrade s .loop c = some t) :
    UpgradeInv ram t := by
  have hpc := hs.pcOk
  rw [hat] at hpc
  obtain ⟨⟨hrequest, hcur, hbsize, hcount, hannounced⟩, hgot⟩ := hpc
  cases c with
  | go =>
      simp only [ipxUpgrade] at hstep
      split at hstep
      · rename_i hne
        obtain rfl := Option.some.inj hstep
        refine hs.goOn ⟨rfl, rfl, rfl, rfl, rfl, rfl⟩ (fun h ↦ absurd h hheld)
          ⟨hrequest, hcur, hbsize, ?_, hannounced⟩
        have hpos : 1 ≤ s.totalUpgradeBlock.toNat := by
          apply Nat.one_le_iff_ne_zero.mpr
          exact fun h ↦ hne (UInt16.toNat_inj.mp h)
        show (s.totalUpgradeBlock - 1).toNat + s.copied.length + 1 = s.announced
        rw [UInt16.toNat_sub_of_le _ 1 (UInt16.le_iff_toNat_le.mpr hpos), UInt16.toNat_one]
        omega
      · rename_i hzero
        obtain rfl := Option.some.inj hstep
        refine hs.goOn ⟨rfl, rfl, rfl, rfl, rfl, rfl⟩ (fun h ↦ absurd h hheld) fun _ _ ↦ ?_
        rw [not_not.mp hzero] at hcount
        have hall : s.copied.length = s.announced := by
          simpa using hcount
        exact ⟨hall, hannounced.1, hall ▸ hbsize⟩
  | _ => cases hstep

/-- The test of the block number, with the condition of the inner loop. -/
theorem test_inv {c : ThreadChoice} (hs : UpgradeInv ram s) (hat : s.pc = .test)
    (hheld : s.upgradeUsed ≠ false) (hok : UpgradeOk s (.thread c))
    (hstep : ipxUpgrade s .test c = some t) : UpgradeInv ram t := by
  have hpc := hs.pcOk
  rw [hat] at hpc
  simp only [UpgradeOk, hat] at hok
  have hin : InLoop s 1 := hpc
  cases c with
  | go =>
      simp only [ipxUpgrade] at hstep
      split at hstep
      · rename_i hpass
        obtain rfl := Option.some.inj hstep
        refine hs.goOn ⟨rfl, rfl, rfl, rfl, rfl, rfl⟩ (fun h ↦ absurd h hheld)
          ⟨hin.congr rfl rfl rfl rfl rfl rfl, hpass.1, by decide, ?_⟩
        obtain ⟨p, hp, hwhole⟩ := hok hpass.1 hpass.2
        obtain ⟨hmem, hnum, hdata⟩ := hs.record p hp
        rw [hpass.2] at hnum
        exact ⟨p, hmem, ⟨hwhole, hnum⟩, fun j hj ↦ hdata j hj⟩
      · split at hstep
        · obtain rfl := Option.some.inj hstep
          exact hs.goOn ⟨rfl, rfl, rfl, rfl, rfl, rfl⟩ (fun h ↦ absurd h hheld)
            (hin.congr rfl rfl rfl rfl rfl rfl)
        · obtain rfl := Option.some.inj hstep
          exact hs.goOn ⟨rfl, rfl, rfl, rfl, rfl, rfl⟩ (fun h ↦ absurd h hheld)
            (fun h ↦ Bool.noConfusion h)
  | _ => cases hstep

/-- Behind the loop: the call is made when no block failed. -/
theorem behindLoop_inv {c : ThreadChoice} (hs : UpgradeInv ram s) (hat : s.pc = .behindLoop)
    (hheld : s.upgradeUsed ≠ false) (hstep : ipxUpgrade s .behindLoop c = some t) :
    UpgradeInv ram t := by
  have hpc := hs.pcOk
  rw [hat] at hpc
  cases c with
  | go =>
      simp only [ipxUpgrade] at hstep
      split at hstep
      · rename_i hgot
        split at hstep
        · rename_i htotal
          obtain ⟨hall, hpos, hbsize⟩ := hpc hgot htotal
          obtain rfl := Option.some.inj hstep
          refine ⟨⟨hs.assembled.inOrder, hs.assembled.payloads, fun c hc ↦ ?_,
            hs.assembled.inBounds⟩, fun h ↦ absurd h hheld, fun p hp ↦ ?_, trivial⟩
          · rcases List.mem_append.mp hc with hc | hc
            · exact hs.assembled.complete c hc
            · rw [List.mem_singleton.mp hc]
              exact ⟨hall, hpos, rfl, hbsize⟩
          · obtain ⟨hmem, hnum, hdata⟩ := hs.record p hp
            exact ⟨hmem, hnum, hdata⟩
        · obtain rfl := Option.some.inj hstep
          exact hs.goOn ⟨rfl, rfl, rfl, rfl, rfl, rfl⟩ (fun h ↦ absurd h hheld) trivial
      · obtain rfl := Option.some.inj hstep
        exact hs.goOn ⟨rfl, rfl, rfl, rfl, rfl, rfl⟩ (fun h ↦ absurd h hheld) trivial
  | _ => cases hstep

/-- One statement of the thread. -/
theorem thread_inv {c : ThreadChoice} (hs : UpgradeInv ram s) (hok : UpgradeOk s (.thread c))
    (hstep : ipxUpgrade s s.pc c = some t) : UpgradeInv ram t := by
  have hheld : s.pc ≠ .none → s.upgradeUsed ≠ false := fun hne h ↦ hne (hs.held h)
  have hpc := hs.pcOk
  cases hat : s.pc with
  | none =>
      rw [hat] at hstep
      cases hstep
  | loop => exact loop_inv hs hat (hheld (by rw [hat]; exact ThreadPc.noConfusion)) (hat ▸ hstep)
  | test =>
      exact test_inv hs hat (hheld (by rw [hat]; exact ThreadPc.noConfusion)) hok (hat ▸ hstep)
  | behindLoop =>
      exact behindLoop_inv hs hat (hheld (by rw [hat]; exact ThreadPc.noConfusion)) (hat ▸ hstep)
  | copy i => exact copy_inv hs hat hok (hat ▸ hstep)
  | start => exact start_inv hs hat (hheld (by rw [hat]; exact ThreadPc.noConfusion)) (hat ▸ hstep)
  | request =>
      rw [hat] at hstep hpc hheld
      have hin : InLoop s 1 := hpc
      cases c with
      | go =>
          obtain rfl := Option.some.inj hstep
          exact hs.goOn ⟨rfl, rfl, rfl, rfl, rfl, rfl⟩
            (fun h ↦ absurd h (hheld ThreadPc.noConfusion)) (hin.congr rfl rfl rfl rfl rfl rfl)
      | _ => cases hstep
  | wait =>
      rw [hat] at hstep hpc hheld
      have hin : InLoop s 1 := hpc
      cases c with
      | go | timeOut =>
          -- the semaphore or its timeout; the loop tests again after either
          obtain ⟨-, hnext⟩ := Option.ite_none_right_eq_some.mp hstep
          obtain rfl := Option.some.inj hnext
          exact hs.goOn ⟨rfl, rfl, rfl, rfl, rfl, rfl⟩
            (fun h ↦ absurd h (hheld ThreadPc.noConfusion)) (hin.congr rfl rfl rfl rfl rfl rfl)
      | _ => cases hstep
  | apUpgradeFirmware =>
      rw [hat] at hstep hheld
      cases c with
      | upgraded ok =>
          obtain rfl := Option.some.inj hstep
          refine hs.goOn ⟨rfl, rfl, rfl, rfl, rfl, rfl⟩
            (fun h ↦ absurd h (hheld ThreadPc.noConfusion)) ?_
          cases ok <;> trivial
      | _ => cases hstep
  | sendFinish | sendFail =>
      rw [hat] at hstep hheld
      cases c with
      | go =>
          obtain rfl := Option.some.inj hstep
          exact hs.goOn ⟨rfl, rfl, rfl, rfl, rfl, rfl⟩
            (fun h ↦ absurd h (hheld ThreadPc.noConfusion)) trivial
      | _ => cases hstep
  | waitFinish | waitFail =>
      rw [hat] at hstep hheld
      cases c with
      | go | timeOut =>
          obtain ⟨-, hnext⟩ := Option.ite_none_right_eq_some.mp hstep
          obtain rfl := Option.some.inj hnext
          refine hs.goOn ⟨rfl, rfl, rfl, rfl, rfl, rfl⟩
            (fun h ↦ absurd h (hheld ThreadPc.noConfusion)) ?_
          dsimp only
          first
            | trivial
            | split <;> trivial
      | _ => cases hstep
  | reset =>
      rw [hat] at hstep
      cases c <;> cases hstep
  | leave =>
      rw [hat] at hstep
      cases c with
      | go =>
          obtain rfl := Option.some.inj hstep
          -- the flag is given back
          exact hs.goOn ⟨rfl, rfl, rfl, rfl, rfl, rfl⟩ (fun _ ↦ rfl) trivial
      | _ => cases hstep

/-! ## Runs -/

theorem upgradeStep_inv {a : UpgradeAct} (hs : UpgradeInv ram s) (hok : UpgradeOk s a)
    (hstep : upgradeStep s a = some t) : UpgradeInv ram t := by
  cases a with
  | start word alloc =>
      obtain ⟨-, hnext⟩ := Option.ite_none_right_eq_some.mp hstep
      obtain rfl := Option.some.inj hnext
      exact utilStartUpgrade_inv hs hok
  | packet p =>
      obtain rfl := Option.some.inj hstep
      exact packet_inv hs hok
  | thread c => exact thread_inv hs hok hstep

/-- In every run without the steps that go wrong, whatever packets come and whenever they come, the
blocks are assembled in order and in bounds, and the firmware is written only when it is whole. -/
theorem upgrade_assembled_of_upgradeOk (ram : Nat → UInt8) (acts : List UpgradeAct)
    (s : UpgradeSys) (hok : (upgradeMachine ram).Along UpgradeOk (upgradeStart ram) acts)
    (hrun : (upgradeMachine ram).run acts = some s) : Assembled ram s := by
  have hstep : ∀ s act s', UpgradeInv ram s → UpgradeOk s act →
      (upgradeMachine ram).step s act = some s' → UpgradeInv ram s' :=
    fun _ _ _ hs ho h ↦ upgradeStep_inv hs ho h
  have hinv : UpgradeInv ram s :=
    Machine.run_invariant (upgradeStart_inv ram) hstep hok hrun
  exact hinv.assembled

/-- A block packet whose data are one byte again and again. -/
def blockPacket (block data : UInt8) : List UInt8 :=
  ntCheckMark2 ++ [0, cmd06, 0, block, 0] ++ List.replicate upgradeBlockSize data

/-- One block is announced; its packet comes after a packet for another block, which is refused. -/
theorem upgrade_assembled_one_block :
    ∃ s, (upgradeMachine fun _ ↦ 0).run [.start 0 true, .thread .go, .thread .go, .thread .go,
        .packet (blockPacket 7 1), .thread .go, .thread .go, .thread .go, .packet (blockPacket 0 9),
        .thread .go, .thread .go, .thread (.bytes 1000), .thread (.bytes 24), .thread .go,
        .thread .go] = some s ∧ s.calls = [⟨upgradeTempAddress, 1024, 1, 1⟩] ∧
      Assembled (fun _ ↦ 0) s :=
  ⟨_, rfl, rfl, upgrade_assembled_of_upgradeOk _ [.start 0 true, .thread .go, .thread .go,
    .thread .go, .packet (blockPacket 7 1), .thread .go, .thread .go, .thread .go,
    .packet (blockPacket 0 9), .thread .go, .thread .go, .thread (.bytes 1000),
    .thread (.bytes 24), .thread .go, .thread .go] _ (by decide +kernel)
    rfl⟩

/-- A packet for another block comes between the test of the number and the copy. -/
theorem refilled_buffer_copied :
    ¬ ∀ (ram : Nat → UInt8) (acts : List UpgradeAct) (s : UpgradeSys),
        (upgradeMachine ram).run acts = some s → Assembled ram s := by
  intro h
  have hs := h (fun _ ↦ 0) [.start 0 true, .thread .go, .thread .go, .thread .go,
    .packet (blockPacket 0 9), .thread .go, .thread .go, .packet (blockPacket 7 1),
    .thread (.bytes 1024)] _ rfl
  obtain ⟨p, hp, hnum, hread⟩ := hs.payloads 0 (by decide)
  rcases List.mem_cons.mp hp with rfl | hp
  · -- the first byte of the block is that of the other packet
    have hfirst := getElem?_of_readMem hread (show 0 < upgradeBlockSize by decide)
    exact absurd hfirst (by decide +kernel)
  · rw [List.mem_singleton.mp hp] at hnum
    exact absurd hnum.2.2 (by decide)

/-- The block count 0xFFFF: the firmware is written without a block. -/
example : ((upgradeMachine fun _ ↦ 0).run [.start 0xFFFF true, .thread .go, .thread .go,
    .thread .go]).map UpgradeSys.calls = some [⟨upgradeTempAddress, 0, 65536, 0⟩] := rfl

end PrintServer.Ipx
