import PrintServer.Lib.Memory
import PrintServer.Lib.Machine
import PrintServer.Http.CString
import PrintServer.Spooler.Queue

/-!
# The data of a Print Monitor job

One version-4 job of `NT3main` (ntps.c) with `NTRequestUDP` and `NTQueryAckUDP` (ntudp.c), the
client behind the network, and the end command.  A print buffer is the memory from the 11 bytes
before its data on, where `recvbuf` starts.
-/

namespace PrintServer.Nt

open Lib Spooler

def ntMaxRecvLen : Nat := 1450
def ntudpRetryCount : UInt8 := 4
def prnQHold : UInt8 := 3

/-- `sizeof(NTReqCmdHeader)`. -/
def ntReqCmdHeader : Nat := 11

/-- A client and the blocks it prints: `maxPackets` is `Cmd[1]` of its start request, `mark` the
fields `Mark`, `Type` and `Cmd` of its data datagrams. -/
structure PrintJob where
  maxPackets : UInt8
  mark : List UInt8
  mode : UInt8
  blocks : List (List UInt8)
  length_mark : mark.length = 6
  length_block : ∀ b ∈ blocks, b.length ≤ ntMaxRecvLen

namespace PrintJob

def block (job : PrintJob) (n : Nat) : List UInt8 := job.blocks.getD n []

/-- `DataLength` counts begun pages of 256 bytes in its high byte. -/
def dataLengthOf (n : Nat) : Nat := if n % 256 = 0 then n else n + 0x100

/-- The datagram of block `n`. -/
def datagram (job : PrintJob) (n : Nat) : List UInt8 :=
  job.mark ++ [1, UInt8.ofNat n, job.mode, UInt8.ofNat (dataLengthOf (job.block n).length),
    UInt8.ofNat (dataLengthOf (job.block n).length / 256)] ++ job.block n

end PrintJob

/-- `MaxRecvPackets` after `NTStartPrintUDP` and `NTSendAckStartPrintUDP`; `NTMaxRecvPacket` is
`PrnMonMaxPacket` plus one. -/
def maxRecvPackets (maxPackets prnMonMaxPacket : UInt8) : UInt8 :=
  let asked := if maxPackets = 0 then 5 else maxPackets
  if asked > prnMonMaxPacket + 1 then prnMonMaxPacket + 1 else asked

inductive ReqPc
  | getBuf (held : Bool)
  | timeTest
  | queryAck
  | forTest
  | recvfrom
  | testEnd (received : Bool)
  | testRetry (received : Bool)
  | testHeader
  | accept
  | testEmpty
  | returned (recvFlag : UInt8)
  | finished
deriving DecidableEq

/-- `dataLength` is the half of `PrintBuffer->size` that `*DataLength` writes, `out` the bytes of
the buffers passed to `PrnPutOutQueueBuf`.  The last fields are records: the blocks accepted, the
block that each acknowledgement asked for, which of them the client has received, and the blocks
it has sent. -/
structure ReqSys where
  blockNumber : UInt8
  isNTEndPrint : UInt8
  pc : ReqPc
  mem : Nat → UInt8
  recvbuf : Nat
  tempbuf : List UInt8
  dataLength : UInt16
  i : UInt8
  recvRetryCount : UInt8
  emptyDataCount : Nat
  nTimeOutCount : UInt8
  holdLongAbort : Bool
  out : List UInt8
  accepted : Nat
  acks : List Nat
  clientAcks : List Nat
  sent : List Nat

/-- After `cyg_semaphore_wait` of the job. -/
def reqStart : ReqSys :=
  { blockNumber := 0, isNTEndPrint := 0, pc := .getBuf false, mem := fun _ ↦ 0, recvbuf := 0,
    tempbuf := [], dataLength := 0, i := 0, recvRetryCount := 0, emptyDataCount := 0,
    nTimeOutCount := 0, holdLongAbort := false, out := [], accepted := 0, acks := [],
    clientAcks := [], sent := [] }

/-- What a statement of `NT3main` depends on: the buffer that `PrnGetInQueueBuf` returns with what
is in its memory, what `recvfrom` receives, and that the hold has lasted too long. -/
inductive ReqAnswer
  | none
  | buf (mem : Nat → UInt8)
  | timeout
  | deliver (n : Nat)
  | hold (tooLong : Bool)

def recvLen (dataLength : UInt16) : UInt16 :=
  if dataLength.toUInt8 ≠ 0 then dataLength - 0x100 else dataLength

/-- `NTReqcmdheader->DataLength`. -/
def headerLength (s : ReqSys) : UInt16 :=
  UInt16.ofNat ((s.mem (s.recvbuf + 9)).toNat + 256 * (s.mem (s.recvbuf + 10)).toNat)

/-- The `memcpy` that puts the saved bytes back. -/
def restored (s : ReqSys) : Nat → UInt8 := writeMem s.mem s.recvbuf s.tempbuf

section Step

variable (job : PrintJob) (prnMonMaxPacket : UInt8) (nTimeOutRetryCount : Int)

def recvPackets : UInt8 := maxRecvPackets job.maxPackets prnMonMaxPacket

/-- One statement of `NTRequestUDP` or, at `getBuf`, `timeTest` and `returned`, of `NT3main`. -/
def reqStep (s : ReqSys) (answer : ReqAnswer) : Option ReqSys :=
  match s.pc with
  | .getBuf held =>
      if held then some { s with pc := .timeTest }
      else
        match answer with
        | .buf mem => some { s with mem := mem, pc := .timeTest }
        | _ => some { s with pc := if s.isNTEndPrint ≠ 0 then .finished else .getBuf false }
  | .timeTest =>
      if nTimeOutRetryCount < s.nTimeOutCount.toNat ∨ s.holdLongAbort then
        -- `PrnAbortSpooler` puts the buffer out with size 0
        some { s with holdLongAbort := false, nTimeOutCount := 0, pc := .finished }
      else
        some { s with dataLength := 0, recvbuf := 0, emptyDataCount := 0, pc := .queryAck }
  | .queryAck => some { s with acks := s.acks ++ [s.accepted], i := 0, pc := .forTest }
  | .forTest =>
      if s.i < recvPackets job prnMonMaxPacket then
        some { s with
          recvRetryCount := 0
          tempbuf := readMem s.mem s.recvbuf ntReqCmdHeader
          pc := .recvfrom }
      else some { s with pc := .testEmpty }
  | .recvfrom =>
      match answer with
      | .deliver n =>
          if n ∈ s.sent then
            some { s with
              mem := writeMem s.mem s.recvbuf (job.datagram n), pc := .testEnd true }
          else none
      | .timeout => some { s with pc := .testEnd false }
      | _ => none
  | .testEnd received =>
      if s.isNTEndPrint ≠ 0 then
        some { s with dataLength := 0, mem := restored s, pc := .returned prnQEof }
      else some { s with pc := .testRetry received }
  | .testRetry received =>
      if ¬ received ∨ s.recvRetryCount + 1 > ntudpRetryCount then
        some { s with
          mem := restored s
          pc := .returned (if s.dataLength ≠ 0 then prnQNormal else prnQAbort) }
      else some { s with recvRetryCount := s.recvRetryCount + 1, pc := .testHeader }
  | .testHeader =>
      if s.mem (s.recvbuf + 7) ≠ s.blockNumber ∨ s.mem (s.recvbuf + 6) ≠ 1 then
        some { s with pc := .recvfrom }
      else some { s with pc := .accept }
  | .accept =>
      some { s with
        dataLength := s.dataLength + recvLen (headerLength s)
        mem := restored s
        recvbuf := s.recvbuf + (recvLen (headerLength s)).toNat
        blockNumber := s.blockNumber + 1
        i := s.i + 1
        accepted := s.accepted + 1
        pc := .forTest }
  | .testEmpty =>
      if s.dataLength = 0 then
        some { s with
          emptyDataCount := s.emptyDataCount + 1
          pc := if s.emptyDataCount + 1 > 20 then .returned prnQHold else .queryAck }
      else some { s with pc := .returned prnQNormal }
  | .returned recvFlag =>
      if recvFlag = prnQAbort then
        some { s with nTimeOutCount := s.nTimeOutCount + 1, pc := .getBuf true }
      else if recvFlag = prnQHold then
        match answer with
        | .hold tooLong =>
            some { s with holdLongAbort := s.holdLongAbort || tooLong, pc := .getBuf true }
        | _ => none
      else
        some { s with
          nTimeOutCount := 0
          out := s.out ++ readMem s.mem ntReqCmdHeader s.dataLength.toNat
          pc := if recvFlag = prnQEof then .finished else .getBuf false }
  | .finished => none

/-- `recvAck` and `send` are the client, `endPrint` is `NTEndPrintUDP` on its end command. -/
inductive ReqAct
  | nt3 (answer : ReqAnswer)
  | recvAck (r : Nat)
  | send (n : Nat)
  | endPrint

def reqSysStep (s : ReqSys) : ReqAct → Option ReqSys
  | .nt3 answer => reqStep job prnMonMaxPacket nTimeOutRetryCount s answer
  | .recvAck r => if r ∈ s.acks then some { s with clientAcks := r :: s.clientAcks } else none
  | .send n => if n < job.blocks.length then some { s with sent := n :: s.sent } else none
  | .endPrint => some { s with isNTEndPrint := 1 }

def reqMachine : Machine ReqSys ReqAct :=
  ⟨reqStart, reqSysStep job prnMonMaxPacket nTimeOutRetryCount⟩

/-- The client sends a block that an acknowledgement it has received asks for, or an earlier one,
and the end command after its last block was acknowledged; no datagram is 256 blocks late. -/
def ClientOk (s : ReqSys) : ReqAct → Prop
  | .nt3 (.deliver n) => s.accepted < n + 256
  | .send n => ∃ r ∈ s.clientAcks, n < r + (recvPackets job prnMonMaxPacket).toNat
  | .endPrint => ∃ r ∈ s.clientAcks, job.blocks.length ≤ r
  | _ => True

/-- What is received fits behind the blocks that are in the buffer. -/
def Fits (s : ReqSys) : ReqAct → Prop
  | .nt3 (.deliver n) => s.recvbuf + (job.block n).length ≤ blockSize
  | _ => True

/-- The buffers hold the first bytes of the job, each once and in order, and all of them when the
job has been ended. -/
def InOrder (s : ReqSys) : Prop :=
  s.out <+: job.blocks.flatten ∧ (s.isNTEndPrint ≠ 0 → s.out = job.blocks.flatten)

end Step

end PrintServer.Nt
