import PrintServer.Nt.Request

/-!
# Where the datagrams of a job are received

One call of `NTRequestUDP` (ntudp.c), whatever its client sends.  A datagram is received in place:
its header is laid over the last bytes of the payload before it, which are saved first and put back
afterwards.  Addresses count from 11 bytes before the buffer, where the first header is laid.
-/

namespace PrintServer.Nt

open Lib Spooler Http

/-- `sizeof(NTRequestData)`. -/
def ntRequestData : Nat := ntReqCmdHeader + ntMaxRecvLen

inductive RecvPc
  | queryAck
  | forTest
  | recvfrom
  | testEnd (received : Bool)
  | testRetry (received : Bool)
  | testHeader
  | accept
  | testEmpty
  | returned (recvFlag : UInt8)
deriving DecidableEq

/-- `dataLength` holds the bits of the `int16`.  The last fields are records: the last datagram,
where the datagrams were received with their lengths, and the payloads that were accepted. -/
structure Reception where
  blockNumber : UInt8
  isNTEndPrint : UInt8
  pc : RecvPc
  mem : Nat → UInt8
  recvbuf : Nat
  tempbuf : List UInt8
  dataLength : UInt16
  i : UInt8
  recvRetryCount : UInt8
  emptyDataCount : Nat
  datagram : List UInt8
  places : List (Nat × Nat)
  accepted : List UInt8

namespace Reception

/-- The call, with the buffer and the bytes before it, and the block that is expected. -/
def start (mem : Nat → UInt8) (blockNumber isNTEndPrint : UInt8) : Reception :=
  { blockNumber := blockNumber, isNTEndPrint := isNTEndPrint, pc := .queryAck, mem := mem,
    recvbuf := 0, tempbuf := [], dataLength := 0, i := 0, recvRetryCount := 0, emptyDataCount := 0,
    datagram := [], places := [], accepted := [] }

variable (recvPackets : UInt8) (s : Reception)

/-- `NTReqcmdheader->DataLength`, decoded. -/
def decodedLength : UInt16 :=
  recvLen (UInt16.ofNat
    ((s.mem (s.recvbuf + 9)).toNat + 256 * (s.mem (s.recvbuf + 10)).toNat))

/-- The `memcpy` that puts the saved bytes back. -/
def restored : Nat → UInt8 := writeMem s.mem s.recvbuf s.tempbuf

/-- The payload that the header announces. -/
def payload : List UInt8 := (s.datagram.drop ntReqCmdHeader).take s.decodedLength.toNat

/-- One statement; `answer` is what `recvfrom` receives, none when the time is out. -/
def step (answer : Option (List UInt8)) : Option Reception :=
  match s.pc with
  | .queryAck => some { s with i := 0, pc := .forTest }
  | .forTest =>
      if s.i < recvPackets then
        some { s with
          recvRetryCount := 0
          tempbuf := readMem s.mem s.recvbuf ntReqCmdHeader
          pc := .recvfrom }
      else some { s with pc := .testEmpty }
  | .recvfrom =>
      match answer with
      | some d =>
          let d := d.take ntRequestData
          some { s with
            mem := writeMem s.mem s.recvbuf d
            datagram := d
            places := (s.recvbuf, d.length) :: s.places
            pc := .testEnd true }
      | none => some { s with pc := .testEnd false }
  | .testEnd received =>
      if s.isNTEndPrint ≠ 0 then
        some { s with dataLength := 0, mem := s.restored, pc := .returned prnQEof }
      else some { s with pc := .testRetry received }
  | .testRetry received =>
      if ¬ received ∨ s.recvRetryCount + 1 > ntudpRetryCount then
        some { s with
          mem := s.restored
          pc := .returned (if s.dataLength ≠ 0 then prnQNormal else prnQAbort) }
      else some { s with recvRetryCount := s.recvRetryCount + 1, pc := .testHeader }
  | .testHeader =>
      if s.mem (s.recvbuf + 7) ≠ s.blockNumber ∨ s.mem (s.recvbuf + 6) ≠ 1 then
        some { s with pc := .recvfrom }
      else some { s with pc := .accept }
  | .accept =>
      some { s with
        dataLength := s.dataLength + s.decodedLength
        mem := s.restored
        recvbuf := s.recvbuf + s.decodedLength.toNat
        blockNumber := s.blockNumber + 1
        i := s.i + 1
        accepted := s.accepted ++ s.payload
        pc := .forTest }
  | .testEmpty =>
      if s.dataLength = 0 then
        some { s with
          emptyDataCount := s.emptyDataCount + 1
          pc := if s.emptyDataCount + 1 > 20 then .returned prnQHold else .queryAck }
      else some { s with pc := .returned prnQNormal }
  | .returned _ => none

end Reception

/-- `endPrint` is `NTEndPrintUDP` on an end command, between two statements. -/
inductive RecvAct
  | next (answer : Option (List UInt8))
  | endPrint
deriving DecidableEq

def recvStep (recvPackets : UInt8) (s : Reception) : RecvAct → Option Reception
  | .next answer => s.step recvPackets answer
  | .endPrint => some { s with isNTEndPrint := 1 }

/-- `RecvPackets`; only version 4 asks for more than one packet. -/
def recvPacketsOf (version maxPackets prnMonMaxPacket : UInt8) : UInt8 :=
  if version = 2 then maxRecvPackets maxPackets prnMonMaxPacket else 1

/-- A call for a client that asked for `maxPackets`, with `PrnMonMaxPacket` of the EEPROM. -/
def ntRequestUDP (version maxPackets prnMonMaxPacket : UInt8) (mem : Nat → UInt8)
    (blockNumber isNTEndPrint : UInt8) : Machine Reception RecvAct :=
  ⟨Reception.start mem blockNumber isNTEndPrint,
    recvStep (recvPacketsOf version maxPackets prnMonMaxPacket)⟩

namespace Reception

variable {recvPackets : UInt8} {s t : Reception} {mem : Nat → UInt8} {a : RecvAct}

/-- A datagram fits behind the payloads that are in the buffer. -/
def HasRoom (s : Reception) : RecvAct → Prop
  | .next answer => s.pc = .recvfrom → ∀ d ∈ answer,
      s.accepted.length + (d.take ntRequestData).length ≤ ntReqCmdHeader + blockSize
  | .endPrint => True

/-- A datagram that is accepted brought the payload that its header announces, and the job is not
ended over payloads that were accepted. -/
def IsHonest (s : Reception) : RecvAct → Prop
  | .next _ =>
      (s.pc = .accept → ntReqCmdHeader + s.decodedLength.toNat ≤ s.datagram.length) ∧
      ∀ received, s.pc = .testEnd received → s.isNTEndPrint ≠ 0 → s.accepted = []
  | .endPrint => True

instance (s : Reception) (a : RecvAct) : Decidable (HasRoom s a) := by
  cases a <;> unfold HasRoom <;> infer_instance

instance (s : Reception) (a : RecvAct) : Decidable (IsHonest s a) := by
  cases a <;> unfold IsHonest <;> infer_instance

/-- `*DataLength` stays within the buffer, every datagram is received there or over the bytes
before it, and at the end these are as before and the payloads behind them. -/
structure InBuffer (mem : Nat → UInt8) (s : Reception) : Prop where
  length : 0 ≤ s.dataLength.toInt16.toInt ∧ s.dataLength.toInt16.toInt ≤ blockSize
  inside : ∀ place ∈ s.places, place.1 + place.2 ≤ ntReqCmdHeader + blockSize
  content : ∀ recvFlag, s.pc = .returned recvFlag →
    readMem s.mem 0 (ntReqCmdHeader + s.dataLength.toNat) =
      readMem mem 0 ntReqCmdHeader ++ s.accepted

/-! ## The memory -/

/-- A header is laid over the buffer. -/
def busy : RecvPc → Bool
  | .recvfrom | .testEnd _ | .testRetry _ | .testHeader | .accept => true
  | _ => false

/-- A datagram has been received since the last bytes were saved. -/
def held : RecvPc → Bool
  | .testEnd true | .testRetry true | .testHeader | .accept => true
  | _ => false

/-- The memory once the saved bytes are put back. -/
def settled (s : Reception) : Nat → UInt8 := if busy s.pc then s.restored else s.mem

/-- What is put back hides what was received in its place. -/
theorem writeMem_over {m : Nat → UInt8} {o i : Nat} {xs ys : List UInt8}
    (h : i < o + ys.length) : writeMem (writeMem m o xs) o ys i = writeMem m o ys i := by
  by_cases hi : i < o
  · rw [writeMem_of_lt hi, writeMem_of_lt hi, writeMem_of_lt hi]
  · obtain ⟨j, rfl⟩ := Nat.exists_eq_add_of_le (Nat.le_of_not_lt hi)
    have hj : j < ys.length := by omega
    rw [writeMem_add hj, writeMem_add hj]

/-! ## The invariant -/

structure Inv (mem : Nat → UInt8) (s : Reception) : Prop where
  length : s.dataLength.toNat = s.accepted.length
  bound : s.accepted.length ≤ blockSize
  place : s.recvbuf = s.accepted.length
  saved : busy s.pc = true → s.tempbuf.length = ntReqCmdHeader
  inside : ∀ place ∈ s.places, place.1 + place.2 ≤ ntReqCmdHeader + blockSize
  received : held s.pc = true → readMem s.mem s.recvbuf s.datagram.length = s.datagram ∧
    s.accepted.length + s.datagram.length ≤ ntReqCmdHeader + blockSize
  content : readMem s.settled 0 (ntReqCmdHeader + s.accepted.length) =
    readMem mem 0 ntReqCmdHeader ++ s.accepted

theorem start_inv (blockNumber isNTEndPrint : UInt8) :
    (start mem blockNumber isNTEndPrint).Inv mem where
  length := rfl
  bound := Nat.zero_le _
  place := rfl
  saved := fun h ↦ nomatch h
  inside := fun _ h ↦ nomatch h
  received := fun h ↦ nomatch h
  content := (List.append_nil _).symm

namespace Inv

/-- Saving the bytes and putting them back is nothing. -/
theorem save (hs : s.Inv mem) (hpc : s.pc = .forTest) :
    Inv mem { s with
      recvRetryCount := 0
      tempbuf := readMem s.mem s.recvbuf ntReqCmdHeader
      pc := .recvfrom } where
  length := hs.length
  bound := hs.bound
  place := hs.place
  saved := fun _ ↦ length_readMem
  inside := hs.inside
  received := fun h ↦ nomatch h
  content := by
    have hcontent := hs.content
    have hback : writeMem s.mem s.recvbuf (readMem s.mem s.recvbuf ntReqCmdHeader) = s.mem := by
      apply writeMem_eq_self_iff.mpr
      rw [length_readMem]
    -- the bytes under the header that is to come are those that were read
    rw [settled, hpc] at hcontent
    show readMem (writeMem s.mem s.recvbuf (readMem s.mem s.recvbuf ntReqCmdHeader)) 0 _ = _
    rw [hback]
    exact hcontent

/-- A datagram that fits is received. -/
theorem deliver (hs : s.Inv mem) (hpc : s.pc = .recvfrom) {d : List UInt8}
    (hfits : s.accepted.length + d.length ≤ ntReqCmdHeader + blockSize) :
    Inv mem { s with
      mem := writeMem s.mem s.recvbuf d, datagram := d,
      places := (s.recvbuf, d.length) :: s.places, pc := .testEnd true } where
  length := hs.length
  bound := hs.bound
  place := hs.place
  saved := fun _ ↦ hs.saved (by rw [hpc]; rfl)
  inside := by
    intro place hplace
    rcases List.mem_cons.mp hplace with hnew | hold
    · rw [hnew, hs.place]
      exact hfits
    · exact hs.inside place hold
  received := fun _ ↦ ⟨readMem_writeMem, hfits⟩
  content := by
    have hcontent := hs.content
    have hlen := hs.saved (by rw [hpc]; rfl)
    have hplace := hs.place
    rw [settled, hpc] at hcontent
    rw [← hcontent]
    show readMem (writeMem (writeMem s.mem s.recvbuf d) s.recvbuf s.tempbuf) 0 _ = _
    apply readMem_congr
    intro i _ hi
    have hlt : i < 0 + (ntReqCmdHeader + s.accepted.length) := hi
    -- below the end of the saved bytes nothing of the datagram is left to see
    apply writeMem_over
    omega

/-- Where no memory is written the parts are as before. -/
theorem move (hs : s.Inv mem) {pc : RecvPc} (n i ended : UInt8) (count : Nat)
    (hbusy : busy pc = busy s.pc) (hheld : held pc = true → held s.pc = true) :
    Inv mem { s with
      isNTEndPrint := ended, pc := pc, i := i, recvRetryCount := n, emptyDataCount := count } where
  length := hs.length
  bound := hs.bound
  place := hs.place
  saved := fun h ↦ hs.saved (hbusy.symm.trans h)
  inside := hs.inside
  received := fun h ↦ hs.received (hheld h)
  content := by
    have hcontent := hs.content
    rw [settled, ← hbusy] at hcontent
    exact hcontent

/-- The saved bytes are put back. -/
theorem restore (hs : s.Inv mem) (hbusy : busy s.pc = true) (recvFlag : UInt8) :
    Inv mem { s with mem := s.restored, pc := .returned recvFlag } where
  length := hs.length
  bound := hs.bound
  place := hs.place
  saved := fun h ↦ nomatch h
  inside := hs.inside
  received := fun h ↦ nomatch h
  content := by
    have hcontent := hs.content
    rw [settled, if_pos hbusy] at hcontent
    exact hcontent

/-- The payload that is accepted stands behind the others. -/
theorem accept (hs : s.Inv mem) (hpc : s.pc = .accept)
    (hfits : ntReqCmdHeader + s.decodedLength.toNat ≤ s.datagram.length) :
    Inv mem { s with
      dataLength := s.dataLength + s.decodedLength, mem := s.restored,
      recvbuf := s.recvbuf + s.decodedLength.toNat, blockNumber := s.blockNumber + 1,
      i := s.i + 1, accepted := s.accepted ++ s.payload, pc := .forTest } := by
  obtain ⟨hread, hroom⟩ := hs.received (by rw [hpc]; rfl)
  have hpayload : s.payload = readMem s.mem (s.recvbuf + ntReqCmdHeader) s.decodedLength.toNat := by
    rw [payload, ← readMem_window hfits, hread]
  have hlength : s.payload.length = s.decodedLength.toNat := by rw [hpayload, length_readMem]
  have hbound : s.accepted.length + s.decodedLength.toNat ≤ blockSize := by omega
  have hsum : (s.accepted ++ s.payload).length = s.accepted.length + s.decodedLength.toNat := by
    rw [List.length_append, hlength]
  have hsaved := hs.saved (by rw [hpc]; rfl)
  exact
    { length := by
        show (s.dataLength + s.decodedLength).toNat = (s.accepted ++ s.payload).length
        rw [hsum, UInt16.toNat_add, hs.length]
        apply Nat.mod_eq_of_lt
        unfold blockSize at hbound
        omega
      bound := by
        rw [hsum]
        exact hbound
      place := by
        rw [hsum]
        show s.recvbuf + _ = _
        rw [hs.place]
      saved := fun h ↦ nomatch h
      inside := hs.inside
      received := fun h ↦ nomatch h
      content := by
        have hcontent := hs.content
        rw [settled, hpc] at hcontent
        have hbehind : readMem s.restored (0 + (ntReqCmdHeader + s.accepted.length))
            s.decodedLength.toNat = s.payload := by
          rw [hpayload, hs.place]
          have hstart : 0 + (ntReqCmdHeader + s.accepted.length) =
              s.accepted.length + ntReqCmdHeader := by omega
          rw [hstart]
          apply readMem_congr
          intro i hi _
          apply writeMem_of_ge
          rw [hs.place, hsaved]
          exact hi
        rw [hsum]
        show readMem s.restored 0 _ = _
        rw [← Nat.add_assoc, readMem_add, hbehind, ← List.append_assoc]
        exact congrArg (· ++ s.payload) hcontent }

/-- An end of the job that comes before any payload leaves the length at 0. -/
theorem ended (hs : s.Inv mem) (hbusy : busy s.pc = true) (hnone : s.accepted = []) :
    Inv mem { s with dataLength := 0, mem := s.restored, pc := .returned prnQEof } := by
  have hzero : s.dataLength = 0 := by
    apply UInt16.toNat_inj.mp
    rw [hs.length, hnone]
    rfl
  have hrestored := hs.restore hbusy prnQEof
  rw [hzero] at hrestored
  exact hrestored

theorem step (hs : s.Inv mem) {answer : Option (List UInt8)} (hroom : s.HasRoom (.next answer))
    (hhonest : s.IsHonest (.next answer)) (hstep : s.step recvPackets answer = some t) :
    t.Inv mem := by
  obtain ⟨hlength, hend⟩ := hhonest
  unfold Reception.step at hstep
  cases hpc : s.pc with
  | queryAck =>
      rw [hpc] at hstep
      rw [← Option.some.inj hstep]
      exact hs.move _ _ _ _ (by rw [hpc]; rfl) (fun h ↦ nomatch h)
  | forTest =>
      rw [hpc] at hstep
      dsimp only at hstep
      split at hstep
      · rw [← Option.some.inj hstep]
        exact hs.save hpc
      · rw [← Option.some.inj hstep]
        exact hs.move _ _ _ _ (by rw [hpc]; rfl) (fun h ↦ nomatch h)
  | recvfrom =>
      rw [hpc] at hstep
      cases answer with
      | none =>
          rw [← Option.some.inj hstep]
          exact hs.move _ _ _ _ (by rw [hpc]; rfl) (fun h ↦ nomatch h)
      | some d =>
          rw [← Option.some.inj hstep]
          exact hs.deliver hpc (hroom hpc d rfl)
  | testEnd received =>
      rw [hpc] at hstep
      dsimp only at hstep
      split at hstep
      · next hended =>
          rw [← Option.some.inj hstep]
          exact hs.ended (by rw [hpc]; rfl) (hend received hpc hended)
      · rw [← Option.some.inj hstep]
        refine hs.move _ _ _ _ (by rw [hpc]; rfl) fun h ↦ ?_
        rw [hpc]
        cases received with
        | false => cases h
        | true => rfl
  | testRetry received =>
      rw [hpc] at hstep
      dsimp only at hstep
      split at hstep
      · rw [← Option.some.inj hstep]
        exact hs.restore (by rw [hpc]; rfl) _
      · next hretry =>
          rw [← Option.some.inj hstep]
          refine hs.move _ _ _ _ (by rw [hpc]; rfl) fun _ ↦ ?_
          rw [hpc]
          cases received with
          | false => exact absurd (.inl Bool.false_ne_true) hretry
          | true => rfl
  | testHeader =>
      rw [hpc] at hstep
      dsimp only at hstep
      split at hstep
      · rw [← Option.some.inj hstep]
        exact hs.move _ _ _ _ (by rw [hpc]; rfl) (fun h ↦ nomatch h)
      · rw [← Option.some.inj hstep]
        exact hs.move _ _ _ _ (by rw [hpc]; rfl) fun _ ↦ (by rw [hpc]; rfl)
  | accept =>
      rw [hpc] at hstep
      rw [← Option.some.inj hstep]
      exact hs.accept hpc (hlength hpc)
  | testEmpty =>
      rw [hpc] at hstep
      dsimp only at hstep
      split at hstep
      · rw [← Option.some.inj hstep]
        split
        · exact hs.move _ _ _ _ (by rw [hpc]; rfl) (fun h ↦ nomatch h)
        · exact hs.move _ _ _ _ (by rw [hpc]; rfl) (fun h ↦ nomatch h)
      · rw [← Option.some.inj hstep]
        exact hs.move _ _ _ _ (by rw [hpc]; rfl) (fun h ↦ nomatch h)
  | returned recvFlag =>
      rw [hpc] at hstep
      cases hstep

theorem recvStep (hs : s.Inv mem) (hroom : s.HasRoom a) (hhonest : s.IsHonest a)
    (hstep : recvStep recvPackets s a = some t) : t.Inv mem := by
  cases a with
  | next answer => exact hs.step hroom hhonest hstep
  | endPrint =>
      rw [← Option.some.inj hstep]
      exact hs.move _ _ _ _ rfl id

theorem inBuffer (hs : s.Inv mem) : s.InBuffer mem where
  length := by
    have hbound := hs.bound
    have hlength := hs.length
    unfold blockSize at hbound ⊢
    have hnat : s.dataLength.toInt16.toInt = (s.dataLength.toNat : Int) :=
      BitVec.toInt_eq_toNat_of_lt (show 2 * s.dataLength.toNat < 2 ^ 16 by omega)
    omega
  inside := hs.inside
  content := by
    intro recvFlag hpc
    have hcontent := hs.content
    rw [settled, hpc] at hcontent
    rw [hs.length]
    exact hcontent

end Inv

/-! ## Seven packets -/

/-- No more payloads of at most `NT_MAX_RECV_LEN` bytes than packets. -/
structure Paced (recvPackets : UInt8) (s : Reception) : Prop where
  fresh : s.pc = .queryAck → s.accepted = []
  few : s.pc ≠ .queryAck → s.accepted.length ≤ s.i.toNat * ntMaxRecvLen
  inLoop : busy s.pc = true → s.i < recvPackets
  short : held s.pc = true → s.datagram.length ≤ ntRequestData

namespace Paced

theorem start (mem : Nat → UInt8) (blockNumber isNTEndPrint : UInt8) :
    (Reception.start mem blockNumber isNTEndPrint).Paced recvPackets where
  fresh := fun _ ↦ rfl
  few := fun h ↦ absurd rfl h
  inLoop := fun h ↦ nomatch h
  short := fun h ↦ nomatch h

/-- A step that accepts nothing and stays in the round. -/
theorem keep (hs : s.Paced recvPackets) (hpc : s.pc ≠ .queryAck)
    (haccepted : t.accepted = s.accepted) (hi : t.i = s.i) (hpct : t.pc ≠ .queryAck)
    (hbusy : busy t.pc = true → s.i < recvPackets)
    (hshort : held t.pc = true → t.datagram.length ≤ ntRequestData) : t.Paced recvPackets where
  fresh := fun h ↦ absurd h hpct
  few := fun _ ↦ by
    rw [haccepted, hi]
    exact hs.few hpc
  inLoop := fun h ↦ by
    rw [hi]
    exact hbusy h
  short := hshort

theorem accept (hs : s.Paced recvPackets) (hpc : s.pc = .accept) :
    Paced recvPackets { s with
      dataLength := s.dataLength + s.decodedLength, mem := s.restored,
      recvbuf := s.recvbuf + s.decodedLength.toNat, blockNumber := s.blockNumber + 1,
      i := s.i + 1, accepted := s.accepted ++ s.payload, pc := .forTest } where
  fresh := fun h ↦ nomatch h
  few := by
    intro _
    have hfew := hs.few (by rw [hpc]; exact RecvPc.noConfusion)
    have hlt := UInt8.lt_iff_toNat_lt.mp (hs.inLoop (by rw [hpc]; rfl))
    have hshort := hs.short (by rw [hpc]; rfl)
    have hmax := recvPackets.toNat_lt
    have hpayload : s.payload.length ≤ ntMaxRecvLen := by
      unfold ntRequestData at hshort
      unfold payload
      rw [List.length_take, List.length_drop]
      omega
    have hi : (s.i + 1).toNat = s.i.toNat + 1 := by
      rw [UInt8.toNat_add, UInt8.toNat_one]
      exact Nat.mod_eq_of_lt (by omega)
    show (s.accepted ++ s.payload).length ≤ (s.i + 1).toNat * ntMaxRecvLen
    rw [hi, List.length_append, Nat.add_one_mul]
    omega
  inLoop := fun h ↦ nomatch h
  short := fun h ↦ nomatch h

theorem step (hs : s.Paced recvPackets) (hinv : s.Inv mem) {answer : Option (List UInt8)}
    (hstep : s.step recvPackets answer = some t) : t.Paced recvPackets := by
  unfold Reception.step at hstep
  cases hpc : s.pc with
  | queryAck =>
      rw [hpc] at hstep
      rw [← Option.some.inj hstep]
      refine ⟨(fun h ↦ nomatch h), fun _ ↦ ?_, (fun h ↦ nomatch h), (fun h ↦ nomatch h)⟩
      show s.accepted.length ≤ _
      rw [hs.fresh hpc]
      exact Nat.zero_le _
  | accept =>
      rw [hpc] at hstep
      rw [← Option.some.inj hstep]
      exact hs.accept hpc
  | returned recvFlag =>
      rw [hpc] at hstep
      cases hstep
  | testEmpty =>
      have hround : s.pc ≠ .queryAck := by rw [hpc]; exact RecvPc.noConfusion
      rw [hpc] at hstep
      dsimp only at hstep
      split at hstep
      · next hzero =>
          have hnone : s.accepted = [] := by
            rw [← List.length_eq_zero_iff, ← hinv.length, hzero]
            rfl
          rw [← Option.some.inj hstep]
          refine ⟨fun _ ↦ hnone, fun _ ↦ hs.few hround, ?_, ?_⟩
          · dsimp only
            split
            · exact fun h ↦ nomatch h
            · exact fun h ↦ nomatch h
          · dsimp only
            split
            · exact fun h ↦ nomatch h
            · exact fun h ↦ nomatch h
      · rw [← Option.some.inj hstep]
        exact hs.keep hround rfl rfl RecvPc.noConfusion (fun h ↦ nomatch h) (fun h ↦ nomatch h)
  | forTest =>
      have hround : s.pc ≠ .queryAck := by rw [hpc]; exact RecvPc.noConfusion
      rw [hpc] at hstep
      dsimp only at hstep
      split at hstep
      · next hlt =>
          rw [← Option.some.inj hstep]
          exact hs.keep hround rfl rfl RecvPc.noConfusion (fun _ ↦ hlt) (fun h ↦ nomatch h)
      · rw [← Option.some.inj hstep]
        exact hs.keep hround rfl rfl RecvPc.noConfusion (fun h ↦ nomatch h) (fun h ↦ nomatch h)
  | recvfrom =>
      have hround : s.pc ≠ .queryAck := by rw [hpc]; exact RecvPc.noConfusion
      have hlt := hs.inLoop (by rw [hpc]; rfl)
      rw [hpc] at hstep
      cases answer with
      | none =>
          rw [← Option.some.inj hstep]
          exact hs.keep hround rfl rfl RecvPc.noConfusion (fun _ ↦ hlt) (fun h ↦ nomatch h)
      | some d =>
          rw [← Option.some.inj hstep]
          exact hs.keep hround rfl rfl RecvPc.noConfusion (fun _ ↦ hlt)
            fun _ ↦ List.length_take_le _ _
  | testEnd received =>
      have hround : s.pc ≠ .queryAck := by rw [hpc]; exact RecvPc.noConfusion
      have hlt := hs.inLoop (by rw [hpc]; rfl)
      rw [hpc] at hstep
      dsimp only at hstep
      split at hstep
      · rw [← Option.some.inj hstep]
        exact hs.keep hround rfl rfl RecvPc.noConfusion (fun h ↦ nomatch h) (fun h ↦ nomatch h)
      · rw [← Option.some.inj hstep]
        refine hs.keep hround rfl rfl RecvPc.noConfusion (fun _ ↦ hlt) fun h ↦ hs.short ?_
        rw [hpc]
        cases received with
        | false => cases h
        | true => rfl
  | testRetry received =>
      have hround : s.pc ≠ .queryAck := by rw [hpc]; exact RecvPc.noConfusion
      have hlt := hs.inLoop (by rw [hpc]; rfl)
      rw [hpc] at hstep
      dsimp only at hstep
      split at hstep
      · rw [← Option.some.inj hstep]
        exact hs.keep hround rfl rfl RecvPc.noConfusion (fun h ↦ nomatch h) (fun h ↦ nomatch h)
      · next hretry =>
          rw [← Option.some.inj hstep]
          refine hs.keep hround rfl rfl RecvPc.noConfusion (fun _ ↦ hlt) fun _ ↦ hs.short ?_
          rw [hpc]
          cases received with
          | false => exact absurd (.inl Bool.false_ne_true) hretry
          | true => rfl
  | testHeader =>
      have hround : s.pc ≠ .queryAck := by rw [hpc]; exact RecvPc.noConfusion
      have hlt := hs.inLoop (by rw [hpc]; rfl)
      have hshort := hs.short (by rw [hpc]; rfl)
      rw [hpc] at hstep
      dsimp only at hstep
      split at hstep
      · rw [← Option.some.inj hstep]
        exact hs.keep hround rfl rfl RecvPc.noConfusion (fun _ ↦ hlt) (fun h ↦ nomatch h)
      · rw [← Option.some.inj hstep]
        exact hs.keep hround rfl rfl RecvPc.noConfusion (fun _ ↦ hlt) (fun _ ↦ hshort)

/-- Up to seven packets always fit. -/
theorem hasRoom (hs : s.Paced recvPackets) (hseven : recvPackets.toNat ≤ 7) : s.HasRoom a := by
  cases a with
  | endPrint => trivial
  | next answer =>
      intro hpc d _
      have hfew := hs.few (by rw [hpc]; exact RecvPc.noConfusion)
      have hlt := UInt8.lt_iff_toNat_lt.mp (hs.inLoop (by rw [hpc]; rfl))
      have htake : (d.take ntRequestData).length ≤ ntRequestData := List.length_take_le _ _
      unfold ntRequestData ntMaxRecvLen at *
      unfold blockSize
      omega

end Paced

section Run

variable (version maxPackets prnMonMaxPacket : UInt8) (mem : Nat → UInt8)
  (blockNumber isNTEndPrint : UInt8) (acts : List RecvAct)

/-- Whatever version, packets and setting: as long as the datagrams fit and the client is honest,
the call stays within the buffer and leaves the payloads there. -/
theorem inBuffer_of_fits {s : Reception}
    (hok : (ntRequestUDP version maxPackets prnMonMaxPacket mem blockNumber isNTEndPrint).Along
      (fun s a ↦ s.HasRoom a ∧ s.IsHonest a) (start mem blockNumber isNTEndPrint) acts)
    (hrun : (ntRequestUDP version maxPackets prnMonMaxPacket mem blockNumber isNTEndPrint).run
      acts = some s) : s.InBuffer mem := by
  have hinv : s.Inv mem := by
    refine Machine.run_invariant (start_inv blockNumber isNTEndPrint) ?_ hok hrun
    exact fun _ _ _ hs hfits hstep ↦ hs.recvStep hfits.1 hfits.2 hstep
  exact hinv.inBuffer

/-- With a setting of up to seven packets an honest client is enough. -/
theorem inBuffer_of_seven {s : Reception}
    (hseven : (recvPacketsOf version maxPackets prnMonMaxPacket).toNat ≤ 7)
    (hok : (ntRequestUDP version maxPackets prnMonMaxPacket mem blockNumber isNTEndPrint).Along
      IsHonest (start mem blockNumber isNTEndPrint) acts)
    (hrun : (ntRequestUDP version maxPackets prnMonMaxPacket mem blockNumber isNTEndPrint).run
      acts = some s) : s.InBuffer mem := by
  have hinv : s.Inv mem ∧ s.Paced (recvPacketsOf version maxPackets prnMonMaxPacket) := by
    refine @Machine.run_invariant _ _
      (ntRequestUDP version maxPackets prnMonMaxPacket mem blockNumber isNTEndPrint) IsHonest
      (fun s ↦ s.Inv mem ∧ s.Paced (recvPacketsOf version maxPackets prnMonMaxPacket))
      ⟨start_inv blockNumber isNTEndPrint, Paced.start mem blockNumber isNTEndPrint⟩ ?_ _ _ hok hrun
    intro s a t hs hhonest hstep
    refine ⟨hs.1.recvStep (hs.2.hasRoom hseven) hhonest hstep, ?_⟩
    cases a with
    | next answer => exact hs.2.step hs.1 hstep
    | endPrint =>
        rw [← Option.some.inj hstep]
        exact ⟨hs.2.fresh, hs.2.few, hs.2.inLoop, hs.2.short⟩
  exact hinv.1.inBuffer

end Run

/-- One packet with the payload `A`. -/
def onePacket : List RecvAct :=
  [.next none, .next none, .next (some [0x4e, 0x45, 0x54, 0x60, 0x0b, 0, 1, 0, 0, 1, 1, 0x41]),
    .next none, .next none, .next none, .next none, .next none, .next none]

theorem onePacket_inBuffer :
    ∃ s, (ntRequestUDP 2 1 6 (fun _ ↦ 0) 0 0).run onePacket = some s ∧
      s.pc = .returned prnQNormal ∧ s.InBuffer (fun _ ↦ 0) :=
  ⟨_, rfl, rfl, inBuffer_of_fits 2 1 6 (fun _ ↦ 0) 0 0 onePacket (by decide) rfl⟩

/-- The header says 1, which stands for 255 bytes less than none. -/
theorem dataLength_negative :
    ∃ s, (ntRequestUDP 2 1 6 (fun _ ↦ 0) 0 0).run
        [.next none, .next none, .next (some [0x4e, 0x45, 0x54, 0x60, 0x0b, 0, 1, 0, 0, 1, 0]),
          .next none, .next none, .next none, .next none] = some s ∧
      s.dataLength.toInt16.toInt = -255 ∧ ¬s.InBuffer (fun _ ↦ 0) := by
  refine ⟨_, rfl, by decide, fun h ↦ ?_⟩
  exact absurd h.length.1 (by decide)

end Reception

end PrintServer.Nt
