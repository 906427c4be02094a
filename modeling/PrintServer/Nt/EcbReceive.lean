import PrintServer.Http.CString
import PrintServer.Lib.Machine

/-!
# Receiving a job from the Print Monitor over IPX

`NTReceiveData` (ntipxbeui.c), the service routine of `NTReceivePsECB`, queues each packet with an
`ipx_mbuf` of its own and puts a new buffer into the ECB.  The thread of the port takes the packets
with `ipx_recvfrom`, under `NTRequestECB`.  Blocks of memory are numbered in the order in which they
are allocated.
-/

namespace PrintServer.NtEcb

open Lib
open Http (bytes)

def ntMaxRecvLen : Nat := 1450
def ntRequestDataSize : Nat := 4 + 7 + ntMaxRecvLen
def blockSize : Nat := 1460 * 7
def numOfPrnPort : Nat := 1

inductive Version
  | version2
  | version4
deriving DecidableEq

/-! ## Packets -/

/-- What `IPXInput` copies to a buffer that was cleared. -/
structure Packet where
  frameType : UInt16
  received : List UInt8
  received_le : received.length ≤ ntRequestDataSize
deriving DecidableEq

namespace Packet

variable (p : Packet)

def byte (k : Nat) : UInt8 := p.received.getD k 0

/-- The check mark, with the version it stands for. -/
def version : Option Version :=
  if [p.byte 0, p.byte 1, p.byte 2] = bytes "NET" then some .version4
  else if [p.byte 0, p.byte 1] = bytes "ZO" then some .version2
  else none

/-- Where `Cmd` is, by the version. -/
def cmdOffset : Version → Nat
  | .version2 => 2
  | .version4 => 4

def cmd (v : Version) : UInt8 := p.byte (cmdOffset v)

def printerID (v : Version) : UInt8 := p.byte (cmdOffset v + 2)

/-- `ipx_recvfrom` reads each packet as one of the new version. -/
def blockNumber : UInt8 := p.byte 7

/-- The length that is coded in `DataLength`, by its lower octet. -/
def codedLength : Int :=
  let dataLength : Int := (p.byte 9).toNat + 256 * (p.byte 10).toNat
  if p.byte 9 ≠ 0 then dataLength - 0x100 else dataLength

/-- The octets from `Data` on that were received. -/
def dataReceived : Nat := p.received.length - 11

end Packet

/-! ## State -/

structure PortBlock where
  blockNumber : UInt8
  frameType : UInt16
  version : Version
  maxRecvPackets : UInt8
deriving DecidableEq

/-- An `ipx_mbuf` with its packet. -/
structure IpxMbuf where
  mbuf : Nat
  data : Nat
  packet : Packet
deriving DecidableEq

/-- The ECB listens with its buffer, or without one when none was to be had; or its routine runs. -/
inductive RoutinePc
  | listening (data : Option Nat)
  | enter (data : Option Nat) (p : Packet)
  | check (data mbuf : Nat) (p : Packet)
  | freeMbuf (data mbuf : Nat)
  | freeData (data : Nat)
  | post
  | waitForData
deriving DecidableEq

/-- Where `NTRequestECB` is, with its counts of packets; the number in `result` is what
`ipx_recvfrom` returns. -/
inductive RequestPc
  | idle
  | turn (i : Nat)
  | wait (i : Nat)
  | taken (i : Nat) (m : IpxMbuf)
  | freeData (i : Nat) (m : IpxMbuf) (result : Int)
  | freeMbuf (i : Nat) (m : IpxMbuf) (result : Int)
  | result (i : Nat) (result : Int)
  | wild
deriving DecidableEq

/-- A copy of `ipx_recvfrom`. -/
structure DataCopy where
  len : Int
  dataReceived : Nat
deriving DecidableEq

structure Reception where
  allocated : Nat
  freed : List Nat
  routine : RoutinePc
  rcvq : List IpxMbuf
  pc : RequestPc
  port : PortBlock
  receivePacket : Nat
  emptyDataCount : Nat
  dataLength : Int
  copies : List DataCopy
deriving DecidableEq

/-- `malloc`: `none` when there is no memory. -/
def Reception.malloc (s : Reception) (ok : Bool) : Reception × Option Nat :=
  if ok then ({ s with allocated := s.allocated + 1 }, some s.allocated) else (s, none)

def Reception.free (s : Reception) (block : Nat) : Reception :=
  { s with freed := s.freed ++ [block] }

/-! ## The receive routine -/

/-- The packet is for the port and of its job. -/
def accepts (port : PortBlock) (p : Packet) : Bool :=
  match p.version with
  | none => false
  | some v =>
      ((p.printerID v - 1).toNat < numOfPrnPort ∧ p.frameType = port.frameType ∧
        v = port.version ∧ p.cmd v = 0x0B)

/-- A step of `NTReceiveData` or `NTWaitforDataECB`; `ok` is for the calls of `malloc`. -/
def routineStep (s : Reception) (ok : Bool) : Option Reception :=
  match s.routine with
  | .listening _ => none
  | .enter none _ => some { s with routine := .waitForData }
  | .enter (some data) p =>
      match s.malloc ok with
      | (s, none) => some { s with routine := .freeData data }
      | (s, some mbuf) => some { s with routine := .check data mbuf p }
  | .check data mbuf p =>
      if accepts s.port p then
        some { s with rcvq := s.rcvq ++ [⟨mbuf, data, p⟩], routine := .post }
      else some { s with routine := .freeMbuf data mbuf }
  | .freeMbuf data mbuf => some { s.free mbuf with routine := .freeData data }
  | .freeData data => some { s.free data with routine := .waitForData }
  | .post => some { s with routine := .waitForData }
  | .waitForData =>
      match s.malloc ok with
      | (s, data) => some { s with routine := .listening data }

/-! ## The thread of the port -/

/-- What the step of the thread depends on. -/
inductive Wake
  | go
  | timeout
  | endPrint
deriving DecidableEq

/-- The end of the turns of `NTRequestECB`: without any data, all over again. -/
def endTurns (s : Reception) : Reception :=
  if s.dataLength = 0 then
    if s.emptyDataCount + 1 > 20 then { s with pc := .idle }
    else { s with emptyDataCount := s.emptyDataCount + 1, pc := .turn 0 }
  else { s with pc := .idle }

/-- A step of `NTRequestECB` or `ipx_recvfrom`. -/
def requestStep (s : Reception) (w : Wake) : Option Reception :=
  match s.pc with
  | .idle => none
  | .wild => none
  | .turn i =>
      if i < s.receivePacket then
        match s.rcvq with
        | [] => some { s with pc := .wait i }
        | m :: rcvq => some { s with rcvq, pc := .taken i m }
      else some (endTurns s)
  | .wait i => some { s with pc := if w = .timeout then .result i (-1) else .turn i }
  | .taken i m =>
      if m.packet.blockNumber ≠ s.port.blockNumber then some { s with pc := .freeData i m (-2) }
      else
        let len := m.packet.codedLength
        some { s with
          copies := s.copies ++ [⟨len, m.packet.dataReceived⟩]
          -- a negative length is a copy over all of memory
          pc := if len < 0 then .wild else .freeData i m len }
  | .freeData i m result => some { s.free m.data with pc := .freeMbuf i m result }
  | .freeMbuf i m result => some { s.free m.mbuf with pc := .result i result }
  | .result i result =>
      if w = .endPrint then some { s with pc := .idle }
      else if result = -1 then some { s with pc := .idle }
      else if result < 0 then some { s with pc := .turn i }
      else some { s with
        port := { s.port with blockNumber := s.port.blockNumber + 1 }
        -- `BlockSize` is a `WORD`
        dataLength := s.dataLength + result % 65536
        pc := .turn (i + 1) }

/-! ## The machine -/

/-- What `NTSendAckStartPrintECB` grants of what `NTStartPrint` was asked for. -/
def grant (version : Version) (maxPackets ntMaxRecvPacket : UInt8) (ipxbeui : Bool) : UInt8 :=
  match version with
  | .version2 => 1
  | .version4 =>
      let maxPackets := if maxPackets = 0 then 5 else maxPackets
      let maxPackets := if ipxbeui then 3 else maxPackets
      if maxPackets > ntMaxRecvPacket then ntMaxRecvPacket else maxPackets

inductive RecvAct
  | startPrint (version : Version) (frameType : UInt16) (maxPackets ntMaxRecvPacket : UInt8)
      (ipxbeui : Bool)
  | input (p : Packet)
  | routine (ok : Bool)
  | request
  | thread (w : Wake)

def recvStep (s : Reception) : RecvAct → Option Reception
  | .startPrint version frameType maxPackets ntMaxRecvPacket ipxbeui =>
      some { s with port :=
        ⟨0, frameType, version, grant version maxPackets ntMaxRecvPacket ipxbeui⟩ }
  | .input p =>
      match s.routine with
      | .listening data => some { s with routine := .enter data p }
      | _ => none
  | .routine ok => routineStep s ok
  | .request =>
      if s.pc = .idle then
        some { s with
          receivePacket := if s.port.version = .version4 then s.port.maxRecvPackets.toNat else 1
          emptyDataCount := 0
          dataLength := 0
          pc := .turn 0 }
      else none
  | .thread w => requestStep s w

/-- `IPXReceiveInit` is at its `NTWaitforDataECB`. -/
def recvStart (port : PortBlock) : Reception :=
  { allocated := 0, freed := [], routine := .waitForData, rcvq := [], pc := .idle, port
    receivePacket := 0, emptyDataCount := 0, dataLength := 0, copies := [] }

def recvMachine (port : PortBlock) : Machine Reception RecvAct := ⟨recvStart port, recvStep⟩

end PrintServer.NtEcb
