import PrintServer.Nt.Request

/-!
# Print Monitor data in order

What is on the output queue and what the current call of `NTRequestUDP` has collected are together
the blocks accepted so far.  An acknowledgement is sent while the call has collected nothing, so
the blocks before the one it asks for are on the queue.
-/

namespace PrintServer.Nt

open Lib Spooler

namespace PrintJob

variable {job : PrintJob} {n : Nat}

theorem length_datagram : (job.datagram n).length = ntReqCmdHeader + (job.block n).length := by
  simp only [datagram, List.length_append, job.length_mark, List.length_cons, List.length_nil,
    ntReqCmdHeader]

theorem length_block_le : (job.block n).length ≤ ntMaxRecvLen := by
  unfold block
  rw [List.getD_eq_getElem?_getD]
  cases hb : job.blocks[n]? with
  | none => exact Nat.zero_le _
  | some b => exact job.length_block b (List.mem_of_getElem? hb)

/-- The five fields behind the command. -/
theorem getElem?_datagram {k : Nat} (hk : k < 5) :
    (job.datagram n)[6 + k]? =
      [1, UInt8.ofNat n, job.mode, UInt8.ofNat (dataLengthOf (job.block n).length),
        UInt8.ofNat (dataLengthOf (job.block n).length / 256)][k]? := by
  unfold datagram
  rw [List.append_assoc, List.getElem?_append_right (by rw [job.length_mark]; omega),
    job.length_mark, Nat.add_sub_cancel_left, List.getElem?_append_left (by simpa using hk)]

theorem take_succ_flatten (hn : n < job.blocks.length) :
    (job.blocks.take (n + 1)).flatten = (job.blocks.take n).flatten ++ job.block n := by
  rw [List.take_add_one, List.flatten_append]
  simp [block, hn]

theorem take_flatten_prefix : (job.blocks.take n).flatten <+: job.blocks.flatten := by
  conv => rhs; rw [← List.take_append_drop n job.blocks]
  rw [List.flatten_append]
  exact List.prefix_append _ _

end PrintJob

theorem recvLen_dataLengthOf {n : Nat} (hn : n ≤ ntMaxRecvLen) :
    (recvLen (UInt16.ofNat (PrintJob.dataLengthOf n))).toNat = n := by
  unfold ntMaxRecvLen at hn
  unfold recvLen PrintJob.dataLengthOf
  have hlow : ∀ x, (UInt16.ofNat x).toUInt8 = 0 ↔ x % 256 = 0 := by
    intro x
    rw [← UInt8.toNat_inj, UInt16.toNat_toUInt8, UInt16.toNat_ofNat']
    change x % 65536 % 256 = 0 ↔ _
    omega
  have hnat : ∀ x, x < 65536 → (UInt16.ofNat x).toNat = x := by
    intro x hx
    rw [UInt16.toNat_ofNat']
    exact Nat.mod_eq_of_lt hx
  by_cases hz : n % 256 = 0
  · rw [if_pos hz, if_neg (not_not.mpr ((hlow n).mpr hz)), hnat n (by omega)]
  · have hne : (UInt16.ofNat (n + 0x100)).toUInt8 ≠ 0 := by
      rw [Ne, hlow]
      omega
    have hle : (0x100 : UInt16) ≤ UInt16.ofNat (n + 0x100) := by
      rw [UInt16.le_iff_toNat_le, hnat (n + 0x100) (by omega)]
      exact Nat.le_add_left _ _
    rw [if_neg hz, if_pos hne, UInt16.toNat_sub_of_le _ _ hle, hnat (n + 0x100) (by omega)]
    exact Nat.add_sub_cancel n 0x100

/-! ## The invariant -/

/-- What the current call has collected; in its loop the saved bytes still have to go back. -/
def callData (s : ReqSys) : List UInt8 :=
  match s.pc with
  | .getBuf _ | .timeTest | .queryAck | .finished => []
  | .forTest | .testEmpty | .returned _ => readMem s.mem ntReqCmdHeader s.dataLength.toNat
  | .recvfrom | .testEnd _ | .testRetry _ | .testHeader | .accept =>
      readMem (restored s) ntReqCmdHeader s.dataLength.toNat

structure InLoop (s : ReqSys) : Prop where
  recvbuf : s.recvbuf = s.dataLength.toNat
  tempbuf : s.tempbuf.length = ntReqCmdHeader

section Job

variable (job : PrintJob)

/-- The datagram of block `n` is in the buffer, behind the data collected. -/
structure Took (s : ReqSys) (n : Nat) : Prop where
  lt : n < job.blocks.length
  near : s.accepted < n + 256 ∧ n < s.accepted + 256
  mem : readMem s.mem s.recvbuf (job.datagram n).length = job.datagram n
  fits : s.recvbuf + (job.block n).length ≤ blockSize

def AtPc (s : ReqSys) : Prop :=
  match s.pc with
  | .getBuf _ | .timeTest | .finished => True
  | .queryAck => s.dataLength = 0 ∧ s.recvbuf = 0
  | .forTest | .testEmpty => s.recvbuf = s.dataLength.toNat
  | .recvfrom => InLoop s
  | .testEnd received | .testRetry received =>
      InLoop s ∧ (received = true → ∃ n, Took job s n)
  | .testHeader => InLoop s ∧ ∃ n, Took job s n
  | .accept => InLoop s ∧ Took job s s.accepted
  | .returned recvFlag => recvFlag = prnQAbort ∨ recvFlag = prnQHold → s.dataLength = 0

structure ReqInv (s : ReqSys) : Prop where
  blockNumber : s.blockNumber = UInt8.ofNat s.accepted
  accepted_le : s.accepted ≤ job.blocks.length
  account : s.out ++ callData s = (job.blocks.take s.accepted).flatten
  acks : ∀ r ∈ s.acks, r ≤ s.accepted ∧ (job.blocks.take r).flatten <+: s.out
  clientAcks : ∀ r ∈ s.clientAcks, r ∈ s.acks
  sent : ∀ n ∈ s.sent, n < job.blocks.length ∧ n < s.accepted + 256
  ended : s.isNTEndPrint ≠ 0 → s.out = job.blocks.flatten
  atPc : AtPc job s

end Job

variable {job : PrintJob} {s t : ReqSys} {n : Nat}

namespace ReqInv

theorem out_prefix (h : ReqInv job s) : s.out <+: job.blocks.flatten :=
  List.IsPrefix.trans (h.account ▸ List.prefix_append _ _) PrintJob.take_flatten_prefix

/-- When all is on the queue the current call has collected nothing. -/
theorem callData_eq_nil (h : ReqInv job s) (hout : s.out = job.blocks.flatten) :
    callData s = [] := by
  have hp : s.out ++ callData s <+: s.out := by
    rw [h.account, hout]
    exact PrintJob.take_flatten_prefix
  have hl := hp.length_le
  rw [List.length_append] at hl
  exact List.eq_nil_of_length_eq_zero (by omega)

/-- A step that neither accepts nor puts out. -/
theorem move (h : ReqInv job s) (hblock : t.blockNumber = s.blockNumber)
    (hacc : t.accepted = s.accepted) (hout : t.out = s.out) (hacks : t.acks = s.acks)
    (hclient : t.clientAcks = s.clientAcks) (hsent : t.sent = s.sent)
    (hend : t.isNTEndPrint = s.isNTEndPrint) (hdata : callData t = callData s)
    (hpc : AtPc job t) : ReqInv job t where
  blockNumber := by rw [hblock, hacc, h.blockNumber]
  accepted_le := hacc ▸ h.accepted_le
  account := by rw [hout, hdata, hacc, h.account]
  acks := by rw [hacks, hacc, hout]; exact h.acks
  clientAcks := by rw [hclient, hacks]; exact h.clientAcks
  sent := by rw [hsent, hacc]; exact h.sent
  ended := by rw [hend, hout]; exact h.ended
  atPc := hpc

end ReqInv

theorem Took.of_eq (h : Took job s n) (hmem : t.mem = s.mem) (hbuf : t.recvbuf = s.recvbuf)
    (hacc : t.accepted = s.accepted) : Took job t n :=
  ⟨h.lt, hacc ▸ h.near, hmem ▸ hbuf ▸ h.mem, hbuf ▸ h.fits⟩

/-- The client does not touch what `NTRequestUDP` works on. -/
theorem AtPc.of_client (h : AtPc job s) (r m : List Nat) (e : UInt8) :
    AtPc job { s with clientAcks := r, sent := m, isNTEndPrint := e } := by
  unfold AtPc at h ⊢
  cases hpc : s.pc with
  | getBuf | timeTest | finished => trivial
  | queryAck | forTest | testEmpty | returned =>
      simp only [hpc] at h ⊢
      exact h
  | recvfrom =>
      simp only [hpc] at h ⊢
      exact ⟨h.recvbuf, h.tempbuf⟩
  | testEnd | testRetry =>
      simp only [hpc] at h ⊢
      refine ⟨⟨h.1.recvbuf, h.1.tempbuf⟩, fun hr ↦ ?_⟩
      obtain ⟨n, hn⟩ := h.2 hr
      exact ⟨n, hn.of_eq rfl rfl rfl⟩
  | testHeader =>
      simp only [hpc] at h ⊢
      obtain ⟨hl, n, hn⟩ := h
      exact ⟨⟨hl.recvbuf, hl.tempbuf⟩, n, hn.of_eq rfl rfl rfl⟩
  | accept =>
      simp only [hpc] at h ⊢
      exact ⟨⟨h.1.recvbuf, h.1.tempbuf⟩, h.2.of_eq rfl rfl rfl⟩

/-! ## The header in the buffer -/

namespace Took

theorem header (h : Took job s n) {k : Nat} (hk : k < 5) :
    some (s.mem (s.recvbuf + (6 + k))) =
      [1, UInt8.ofNat n, job.mode, UInt8.ofNat (PrintJob.dataLengthOf (job.block n).length),
        UInt8.ofNat (PrintJob.dataLengthOf (job.block n).length / 256)][k]? := by
  have hlt : 6 + k < (job.datagram n).length := by
    rw [PrintJob.length_datagram]
    unfold ntReqCmdHeader
    omega
  rw [← PrintJob.getElem?_datagram hk, mem_of_readMem h.mem hlt, List.getElem?_eq_getElem hlt]

theorem blockNumber (h : Took job s n) : s.mem (s.recvbuf + 7) = UInt8.ofNat n :=
  Option.some.inj (h.header (k := 1) (by decide))

theorem headerLength (h : Took job s n) :
    headerLength s = UInt16.ofNat (PrintJob.dataLengthOf (job.block n).length) := by
  have h9 : s.mem (s.recvbuf + 9) = _ := Option.some.inj (h.header (k := 3) (by decide))
  have h10 : s.mem (s.recvbuf + 10) = _ := Option.some.inj (h.header (k := 4) (by decide))
  have hle := @PrintJob.length_block_le job n
  have hlen : PrintJob.dataLengthOf (job.block n).length < 65536 := by
    unfold ntMaxRecvLen at hle
    unfold PrintJob.dataLengthOf
    split <;> omega
  unfold Nt.headerLength
  rw [h9, h10, UInt8.toNat_ofNat', UInt8.toNat_ofNat']
  congr 1
  change _ % 256 + 256 * (_ / 256 % 256) = _
  omega

theorem recvLen (h : Took job s n) : (recvLen (Nt.headerLength s)).toNat = (job.block n).length := by
  rw [h.headerLength]
  exact recvLen_dataLengthOf PrintJob.length_block_le

theorem data (h : Took job s n) :
    readMem s.mem (s.recvbuf + ntReqCmdHeader) (job.block n).length = job.block n := by
  have hm := h.mem
  rw [PrintJob.length_datagram, readMem_add] at hm
  refine (List.append_inj hm ?_).2
  simp [job.length_mark, ntReqCmdHeader]

/-- No datagram is 256 blocks away, so a block with the number of the next one is the next one. -/
theorem eq_accepted (h : Took job s n) (hs : s.blockNumber = UInt8.ofNat s.accepted)
    (hm : s.mem (s.recvbuf + 7) = s.blockNumber) : n = s.accepted := by
  rw [h.blockNumber, hs, ← UInt8.toNat_inj, UInt8.toNat_ofNat', UInt8.toNat_ofNat'] at hm
  have hmod : n % 256 = s.accepted % 256 := hm
  have hnear := h.near
  omega

end Took

theorem readMem_restored_add (h : InLoop s) (ht : Took job s n) :
    readMem (restored s) ntReqCmdHeader (s.dataLength.toNat + (job.block n).length) =
      readMem (restored s) ntReqCmdHeader s.dataLength.toNat ++ job.block n := by
  rw [readMem_add]
  congr 1
  refine Eq.trans (readMem_congr fun i hi _ ↦ ?_)
    (Eq.trans (congrArg (readMem s.mem · _) ?_) ht.data)
  · refine writeMem_of_ge ?_
    rw [h.tempbuf, h.recvbuf]
    omega
  · rw [h.recvbuf]
    exact Nat.add_comm _ _

/-- The datagram covers only the saved bytes and what follows them. -/
theorem readMem_restored_writeMem (h : InLoop s) (bs : List UInt8) :
    readMem (writeMem (writeMem s.mem s.recvbuf bs) s.recvbuf s.tempbuf) ntReqCmdHeader
        s.dataLength.toNat =
      readMem (restored s) ntReqCmdHeader s.dataLength.toNat := by
  refine readMem_congr fun i _ hi ↦ ?_
  rw [← h.recvbuf] at hi
  unfold restored
  by_cases hlt : i < s.recvbuf
  · rw [writeMem_of_lt hlt, writeMem_of_lt hlt, writeMem_of_lt hlt]
  · obtain ⟨j, rfl⟩ := Nat.exists_eq_add_of_le (Nat.le_of_not_lt hlt)
    have hj : j < s.tempbuf.length := by
      rw [h.tempbuf]
      omega
    rw [writeMem_add hj, writeMem_add hj]

/-! ## The steps -/

section Step

variable {prnMonMaxPacket : UInt8} {nTimeOutRetryCount : Int} {answer : ReqAnswer}

/-- The saved bytes are those that are there when the loop is entered. -/
theorem readMem_restored_self (hbuf : s.recvbuf = s.dataLength.toNat) :
    readMem (writeMem s.mem s.recvbuf (readMem s.mem s.recvbuf ntReqCmdHeader)) ntReqCmdHeader
        s.dataLength.toNat =
      readMem s.mem ntReqCmdHeader s.dataLength.toNat := by
  refine readMem_congr fun i _ hi ↦ ?_
  by_cases hlt : i < s.recvbuf
  · exact writeMem_of_lt hlt
  · obtain ⟨j, rfl⟩ := Nat.exists_eq_add_of_le (Nat.le_of_not_lt hlt)
    have hj : j < ntReqCmdHeader := by omega
    rw [writeMem_add (by rw [length_readMem]; exact hj)]
    simp [readMem]

/-- Block `accepted` joins the data collected. -/
theorem accept_inv (h : ReqInv job s) (hpc : s.pc = .accept)
    (hstep : reqStep job prnMonMaxPacket nTimeOutRetryCount s answer = some t) :
    ReqInv job t := by
  have hat := h.atPc
  unfold AtPc at hat
  simp only [hpc] at hat
  obtain ⟨hl, ht⟩ := hat
  have hlen := ht.recvLen
  have hadd : (s.dataLength + recvLen (headerLength s)).toNat =
      s.dataLength.toNat + (job.block s.accepted).length := by
    have hfit := ht.fits
    rw [hl.recvbuf] at hfit
    unfold blockSize at hfit
    rw [UInt16.toNat_add, hlen]
    exact Nat.mod_eq_of_lt (by omega)
  unfold reqStep at hstep
  simp only [hpc] at hstep
  obtain rfl := Option.some.inj hstep
  refine ⟨?_, ht.lt, ?_, ?_, h.clientAcks, ?_, h.ended, ?_⟩
  · rw [h.blockNumber]
    exact (UInt8.ofNat_add s.accepted 1).symm
  · have hdata := readMem_restored_add hl ht
    have haccount := h.account
    unfold callData at haccount ⊢
    simp only [hpc] at haccount ⊢
    rw [hadd, hdata, ← List.append_assoc, haccount, PrintJob.take_succ_flatten ht.lt]
  · intro r hr
    exact ⟨Nat.le_succ_of_le (h.acks r hr).1, (h.acks r hr).2⟩
  · intro m hm
    have hlt := (h.sent m hm).2
    exact ⟨(h.sent m hm).1, by dsimp only; omega⟩
  · change s.recvbuf + (recvLen (headerLength s)).toNat =
      (s.dataLength + recvLen (headerLength s)).toNat
    rw [hadd, hlen, hl.recvbuf]

theorem returned_inv {recvFlag : UInt8} (h : ReqInv job s) (hpc : s.pc = .returned recvFlag)
    (hstep : reqStep job prnMonMaxPacket nTimeOutRetryCount s answer = some t) :
    ReqInv job t := by
  have hat := h.atPc
  unfold AtPc at hat
  simp only [hpc] at hat
  have hdata : callData s = readMem s.mem ntReqCmdHeader s.dataLength.toNat := by
    unfold callData
    simp only [hpc]
  have hempty : s.dataLength = 0 → callData s = [] := by
    intro hz
    rw [hdata, hz]
    rfl
  unfold reqStep at hstep
  simp only [hpc] at hstep
  by_cases habort : recvFlag = prnQAbort
  · rw [if_pos habort] at hstep
    obtain rfl := Option.some.inj hstep
    exact h.move rfl rfl rfl rfl rfl rfl rfl (hempty (hat (.inl habort))).symm trivial
  · rw [if_neg habort] at hstep
    by_cases hhold : recvFlag = prnQHold
    · rw [if_pos hhold] at hstep
      cases answer with
      | hold tooLong =>
          obtain rfl := Option.some.inj hstep
          exact h.move rfl rfl rfl rfl rfl rfl rfl (hempty (hat (.inr hhold))).symm trivial
      | none | buf | timeout | deliver => cases hstep
    · -- the buffer goes to the output queue
      rw [if_neg hhold] at hstep
      obtain rfl := Option.some.inj hstep
      have haccount := h.account
      rw [hdata] at haccount
      refine ⟨h.blockNumber, h.accepted_le, ?_, ?_, h.clientAcks, h.sent, ?_, ?_⟩
      · have hnil : ∀ pc, pc = ReqPc.finished ∨ pc = .getBuf false →
            callData { s with pc := pc } = [] := by
          intro pc hpc'
          rcases hpc' with rfl | rfl <;> rfl
        have hcall := hnil (if recvFlag = prnQEof then .finished else .getBuf false)
          (by split <;> simp)
        exact (congrArg (_ ++ ·) hcall).trans ((List.append_nil _).trans haccount)
      · intro r hr
        exact ⟨(h.acks r hr).1, (h.acks r hr).2.trans (List.prefix_append _ _)⟩
      · intro he
        have hout := h.ended he
        have hnil := h.callData_eq_nil hout
        rw [hdata] at hnil
        dsimp only
        rw [hnil, List.append_nil, hout]
      · by_cases heof : recvFlag = prnQEof
        · simp only [if_pos heof]
          trivial
        · simp only [if_neg heof]
          trivial

theorem request_inv (h : ReqInv job s) (hok : ClientOk job prnMonMaxPacket s (.nt3 answer))
    (hfit : Fits job s (.nt3 answer))
    (hstep : reqStep job prnMonMaxPacket nTimeOutRetryCount s answer = some t) :
    ReqInv job t := by
  have hat := h.atPc
  unfold AtPc at hat
  cases hpc : s.pc with
  | accept => exact accept_inv h hpc hstep
  | returned recvFlag => exact returned_inv h hpc hstep
  | getBuf held =>
      have hdata : callData s = [] := by
        unfold callData
        simp only [hpc]
      unfold reqStep at hstep
      simp only [hpc] at hstep
      split at hstep
      · obtain rfl := Option.some.inj hstep
        exact h.move rfl rfl rfl rfl rfl rfl rfl hdata.symm trivial
      · cases answer with
        | buf mem =>
            obtain rfl := Option.some.inj hstep
            exact h.move rfl rfl rfl rfl rfl rfl rfl hdata.symm trivial
        | none | timeout | deliver | hold =>
            obtain rfl := Option.some.inj hstep
            -- no buffer was given: the thread ends with the job, or asks again
            by_cases he : s.isNTEndPrint ≠ 0
            · simp only [if_pos he]
              exact h.move rfl rfl rfl rfl rfl rfl rfl hdata.symm trivial
            · simp only [if_neg he]
              exact h.move rfl rfl rfl rfl rfl rfl rfl hdata.symm trivial
  | timeTest =>
      have hdata : callData s = [] := by
        unfold callData
        simp only [hpc]
      unfold reqStep at hstep
      simp only [hpc] at hstep
      split at hstep
      · obtain rfl := Option.some.inj hstep
        exact h.move rfl rfl rfl rfl rfl rfl rfl hdata.symm trivial
      · obtain rfl := Option.some.inj hstep
        exact h.move rfl rfl rfl rfl rfl rfl rfl hdata.symm ⟨rfl, rfl⟩
  | queryAck =>
      simp only [hpc] at hat
      obtain ⟨hz, hbuf⟩ := hat
      have hdata : callData s = [] := by
        unfold callData
        simp only [hpc]
      unfold reqStep at hstep
      simp only [hpc] at hstep
      obtain rfl := Option.some.inj hstep
      have haccount := h.account
      rw [hdata, List.append_nil] at haccount
      -- with nothing collected, all that was accepted is on the queue, as the acknowledgement says
      refine ⟨h.blockNumber, h.accepted_le, ?_, ?_, ?_, h.sent, h.ended, ?_⟩
      · change s.out ++ readMem s.mem ntReqCmdHeader s.dataLength.toNat = _
        rw [hz, haccount]
        exact List.append_nil _
      · intro r hr
        rcases List.mem_append.mp hr with hr | hr
        · exact h.acks r hr
        · obtain rfl := List.mem_singleton.mp hr
          exact ⟨Nat.le_refl _, haccount ▸ List.prefix_rfl⟩
      · intro r hr
        exact List.mem_append_left _ (h.clientAcks r hr)
      · change s.recvbuf = s.dataLength.toNat
        rw [hz, hbuf]
        rfl
  | forTest =>
      simp only [hpc] at hat
      have hdata : callData s = readMem s.mem ntReqCmdHeader s.dataLength.toNat := by
        unfold callData
        simp only [hpc]
      unfold reqStep at hstep
      simp only [hpc] at hstep
      split at hstep
      · obtain rfl := Option.some.inj hstep
        -- the octets saved are those in place, so putting them back changes nothing
        refine h.move rfl rfl rfl rfl rfl rfl rfl ?_ ⟨hat, length_readMem⟩
        rw [hdata]
        exact readMem_restored_self hat
      · obtain rfl := Option.some.inj hstep
        exact h.move rfl rfl rfl rfl rfl rfl rfl hdata.symm hat
  | recvfrom =>
      simp only [hpc] at hat
      have hdata : callData s = readMem (restored s) ntReqCmdHeader s.dataLength.toNat := by
        unfold callData
        simp only [hpc]
      unfold reqStep at hstep
      simp only [hpc] at hstep
      cases answer with
      | deliver n =>
          -- the datagram goes over the saved octets and what follows, never over the data collected
          obtain ⟨hn, hst⟩ := Option.ite_none_right_eq_some.mp hstep
          obtain rfl := Option.some.inj hst
          refine h.move rfl rfl rfl rfl rfl rfl rfl ?_
            ⟨⟨hat.recvbuf, hat.tempbuf⟩, fun _ ↦ ⟨n, (h.sent n hn).1, ⟨hok, (h.sent n hn).2⟩,
              readMem_writeMem, hfit⟩⟩
          rw [hdata]
          exact readMem_restored_writeMem hat _
      | timeout =>
          obtain rfl := Option.some.inj hstep
          exact h.move rfl rfl rfl rfl rfl rfl rfl hdata.symm
            ⟨⟨hat.recvbuf, hat.tempbuf⟩, fun hr ↦ Bool.noConfusion hr⟩
      | none | buf | hold => cases hstep
  | testEnd received =>
      simp only [hpc] at hat
      have hdata : callData s = readMem (restored s) ntReqCmdHeader s.dataLength.toNat := by
        unfold callData
        simp only [hpc]
      unfold reqStep at hstep
      simp only [hpc] at hstep
      split at hstep
      · -- the job is over, and the call has nothing to lose
        rename_i he
        obtain rfl := Option.some.inj hstep
        exact h.move rfl rfl rfl rfl rfl rfl rfl (h.callData_eq_nil (h.ended he)).symm
          (fun _ ↦ rfl)
      · obtain rfl := Option.some.inj hstep
        refine h.move rfl rfl rfl rfl rfl rfl rfl hdata.symm
          ⟨⟨hat.1.recvbuf, hat.1.tempbuf⟩, fun hr ↦ ?_⟩
        obtain ⟨n, hn⟩ := hat.2 hr
        exact ⟨n, hn.of_eq rfl rfl rfl⟩
  | testRetry received =>
      simp only [hpc] at hat
      have hdata : callData s = readMem (restored s) ntReqCmdHeader s.dataLength.toNat := by
        unfold callData
        simp only [hpc]
      unfold reqStep at hstep
      simp only [hpc] at hstep
      split at hstep
      · obtain rfl := Option.some.inj hstep
        -- the call gives up, as `PRNQ_ABORT` only where it has collected nothing
        refine h.move rfl rfl rfl rfl rfl rfl rfl hdata.symm (fun hflag ↦ ?_)
        dsimp only
        by_contra hz
        rw [if_pos hz] at hflag
        exact absurd hflag (by decide)
      · rename_i hnot
        obtain rfl := Option.some.inj hstep
        have hr : received = true := by
          cases received with
          | true => rfl
          | false => exact absurd (.inl Bool.false_ne_true) hnot
        obtain ⟨n, hn⟩ := hat.2 hr
        exact h.move rfl rfl rfl rfl rfl rfl rfl hdata.symm
          ⟨⟨hat.1.recvbuf, hat.1.tempbuf⟩, n, hn.of_eq rfl rfl rfl⟩
  | testHeader =>
      simp only [hpc] at hat
      obtain ⟨hl, n, hn⟩ := hat
      have hdata : callData s = readMem (restored s) ntReqCmdHeader s.dataLength.toNat := by
        unfold callData
        simp only [hpc]
      unfold reqStep at hstep
      simp only [hpc] at hstep
      split at hstep
      · obtain rfl := Option.some.inj hstep
        exact h.move rfl rfl rfl rfl rfl rfl rfl hdata.symm ⟨hl.recvbuf, hl.tempbuf⟩
      · rename_i hmatch
        obtain rfl := Option.some.inj hstep
        -- fewer than 256 blocks away, the one-octet number names the block
        obtain rfl := hn.eq_accepted h.blockNumber (not_not.mp (not_or.mp hmatch).1)
        exact h.move rfl rfl rfl rfl rfl rfl rfl hdata.symm
          ⟨⟨hl.recvbuf, hl.tempbuf⟩, hn.of_eq rfl rfl rfl⟩
  | testEmpty =>
      simp only [hpc] at hat
      have hdata : callData s = readMem s.mem ntReqCmdHeader s.dataLength.toNat := by
        unfold callData
        simp only [hpc]
      unfold reqStep at hstep
      simp only [hpc] at hstep
      split at hstep
      · rename_i hz
        obtain rfl := Option.some.inj hstep
        -- an empty turn: another acknowledgement, or `PRNQ_HOLD` after twenty
        by_cases hcount : s.emptyDataCount + 1 > 20
        · simp only [if_pos hcount]
          exact h.move rfl rfl rfl rfl rfl rfl rfl hdata.symm (fun _ ↦ hz)
        · simp only [if_neg hcount]
          refine h.move rfl rfl rfl rfl rfl rfl rfl ?_ ⟨hz, hat.trans (by rw [hz]; rfl)⟩
          rw [hdata, hz]
          rfl
      · obtain rfl := Option.some.inj hstep
        exact h.move rfl rfl rfl rfl rfl rfl rfl hdata.symm (fun hflag ↦ absurd hflag (by decide))
  | finished =>
      unfold reqStep at hstep
      simp only [hpc] at hstep
      cases hstep

end Step

/-! ## Every run -/

section Run

variable {prnMonMaxPacket : UInt8} {nTimeOutRetryCount : Int}

theorem reqSysStep_inv {a : ReqAct} (h : ReqInv job s)
    (hok : ClientOk job prnMonMaxPacket s a ∧ Fits job s a)
    (hstep : reqSysStep job prnMonMaxPacket nTimeOutRetryCount s a = some t) : ReqInv job t := by
  cases a with
  | nt3 answer => exact request_inv h hok.1 hok.2 hstep
  | recvAck r =>
      obtain ⟨hr, hst⟩ := Option.ite_none_right_eq_some.mp hstep
      obtain rfl := Option.some.inj hst
      refine ⟨h.blockNumber, h.accepted_le, h.account, h.acks, ?_, h.sent, h.ended,
        h.atPc.of_client _ _ _⟩
      intro x hx
      rcases List.mem_cons.mp hx with rfl | hx
      · exact hr
      · exact h.clientAcks x hx
  | send n =>
      obtain ⟨hn, hst⟩ := Option.ite_none_right_eq_some.mp hstep
      obtain rfl := Option.some.inj hst
      refine ⟨h.blockNumber, h.accepted_le, h.account, h.acks, h.clientAcks, ?_, h.ended,
        h.atPc.of_client _ _ _⟩
      intro x hx
      rcases List.mem_cons.mp hx with rfl | hx
      · obtain ⟨r, hr, hlt⟩ := hok.1
        have hacked := (h.acks r (h.clientAcks r hr)).1
        have hwindow := (recvPackets job prnMonMaxPacket).toNat_lt
        exact ⟨hn, by dsimp only; omega⟩
      · exact h.sent x hx
  | endPrint =>
      obtain rfl := Option.some.inj hstep
      refine ⟨h.blockNumber, h.accepted_le, h.account, h.acks, h.clientAcks, h.sent, ?_,
        h.atPc.of_client _ _ _⟩
      intro _
      -- the last block was acknowledged, so all blocks are on the queue
      obtain ⟨r, hr, hlen⟩ := hok.1
      have hout := (h.acks r (h.clientAcks r hr)).2
      rw [List.take_of_length_le hlen] at hout
      exact h.out_prefix.eq_of_length (Nat.le_antisymm h.out_prefix.length_le hout.length_le)

theorem reqStart_inv : ReqInv job reqStart :=
  ⟨rfl, Nat.zero_le _, rfl, fun _ hr ↦ absurd hr List.not_mem_nil,
    fun _ hr ↦ absurd hr List.not_mem_nil, fun _ hn ↦ absurd hn List.not_mem_nil,
    fun he ↦ absurd rfl he, trivial⟩

/-- Whatever the network does, as long as what is received fits in the print buffer. -/
theorem data_in_order_of_fits (job : PrintJob) (prnMonMaxPacket : UInt8)
    (nTimeOutRetryCount : Int) (acts : List ReqAct)
    (hok : (reqMachine job prnMonMaxPacket nTimeOutRetryCount).Along
      (fun s a ↦ ClientOk job prnMonMaxPacket s a ∧ Fits job s a) reqStart acts) {s : ReqSys}
    (hrun : (reqMachine job prnMonMaxPacket nTimeOutRetryCount).run acts = some s) :
    InOrder job s := by
  have h : ReqInv job s := Machine.run_invariant reqStart_inv (fun _ _ _ ↦ reqSysStep_inv) hok hrun
  exact ⟨h.out_prefix, h.ended⟩

end Run

instance (job : PrintJob) (prnMonMaxPacket : UInt8) (s : ReqSys) (a : ReqAct) :
    Decidable (ClientOk job prnMonMaxPacket s a) := by
  unfold ClientOk
  split <;> infer_instance

instance (job : PrintJob) (s : ReqSys) (a : ReqAct) : Decidable (Fits job s a) := by
  unfold Fits
  split <;> infer_instance

instance (job : PrintJob) (s : ReqSys) : Decidable (InOrder job s) := by
  unfold InOrder
  infer_instance

/-- `NT3main` takes a buffer and acknowledges. -/
def takeBuffer (r : Nat) : List ReqAct :=
  [.nt3 (.buf fun _ ↦ 0), .nt3 .none, .nt3 .none, .recvAck r]

/-- Block `n` is sent and accepted. -/
def acceptBlock (n : Nat) : List ReqAct :=
  [.send n, .nt3 .none, .nt3 (.deliver n), .nt3 .none, .nt3 .none, .nt3 .none, .nt3 .none]

/-- Two blocks, the first one received a second time before the other. -/
def twoBlocks : PrintJob where
  maxPackets := 5
  mark := [78, 69, 84, 0, 11, 0]
  mode := 0
  blocks := [[1, 2], [3]]
  length_mark := rfl
  length_block := by decide

def printTwoBlocks : List ReqAct :=
  takeBuffer 0 ++ acceptBlock 0 ++
    [.send 1, .nt3 .none, .nt3 (.deliver 0), .nt3 .none, .nt3 .none, .nt3 .none,
      .nt3 (.deliver 1), .nt3 .none, .nt3 .none, .nt3 .none, .nt3 .none,
      .nt3 .none, .nt3 .timeout, .nt3 .none, .nt3 .none, .nt3 .none] ++
    takeBuffer 2 ++ [.endPrint, .nt3 .none, .nt3 .timeout, .nt3 .none, .nt3 .none]

theorem data_in_order_two_blocks :
    ∃ s, (reqMachine twoBlocks 6 20).run printTwoBlocks = some s ∧ s.pc = .finished ∧
      s.out = [1, 2, 3] ∧ InOrder twoBlocks s := by
  have hrun : ((reqMachine twoBlocks 6 20).run printTwoBlocks).map (fun s ↦ (s.pc, s.out)) =
      some (.finished, [1, 2, 3]) := by decide
  obtain ⟨s, hs, he⟩ := Option.map_eq_some_iff.mp hrun
  obtain ⟨hpc, hout⟩ := Prod.mk.inj he
  exact ⟨s, hs, hpc, hout, data_in_order_of_fits twoBlocks 6 20 printTwoBlocks (by decide) hs⟩

/-- A client that may send 46 datagrams of 1450 bytes a call. -/
def wideJob : PrintJob where
  maxPackets := 46
  mark := [78, 69, 84, 0, 11, 0]
  mode := 0
  blocks := List.replicate 46 (List.replicate 1450 0)
  length_mark := rfl
  length_block := by
    intro b hb
    rw [List.eq_of_mem_replicate hb, List.length_replicate]
    exact Nat.le_refl _

def printWideJob : List ReqAct :=
  takeBuffer 0 ++ (List.range 46).flatMap acceptBlock ++ [.nt3 .none, .nt3 .none, .nt3 .none] ++
    takeBuffer 46 ++ [.endPrint]

/-- With `PrnMonMaxPacket` 45 the datagrams run over the end of the buffer and the length over the
end of its 16 bits: 1164 of 66700 bytes are put out. -/
theorem wide_window_loses_data :
    ∃ s, (reqMachine wideJob 45 20).run printWideJob = some s ∧
      (reqMachine wideJob 45 20).Along (ClientOk wideJob 45) reqStart printWideJob ∧
      s.out.length = 1164 ∧ ¬ InOrder wideJob s := by
  have hrun : ((reqMachine wideJob 45 20).run printWideJob).map
      (fun s ↦ (s.isNTEndPrint, s.out.length)) = some (1, 1164) := by decide +kernel
  obtain ⟨s, hs, he⟩ := Option.map_eq_some_iff.mp hrun
  obtain ⟨hend, hout⟩ := Prod.mk.inj he
  refine ⟨s, hs, by decide +kernel, hout, fun h ↦ ?_⟩
  have hall := congrArg List.length (h.2 (by rw [hend]; decide))
  have hdata : wideJob.blocks.flatten.length = 66700 := by
    rw [wideJob, List.length_flatten, List.map_replicate, List.length_replicate,
      List.sum_replicate_nat]
  rw [hout, hdata] at hall
  exact absurd hall (by decide)

end PrintServer.Nt
