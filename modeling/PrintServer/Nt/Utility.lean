import PrintServer.Nt.ConfigBlocks
import PrintServer.Nt.DeviceInfo
import PrintServer.Nt.Request
import PrintServer.Nt.StartPrint
import Mathlib.Algebra.Group.Nat.Defs

/-!
# The printer number of a utility datagram

The handlers of `NTDoCommandUDP` (ntudp.c) that take a printer number from the datagram, with
`PrnPrintPattern` (prnqueue.c) behind one of them.  A handler stops at the first index that its
table does not have and at the first copy that leaves a buffer: what the program does from there on
is not in the source.
-/

namespace PrintServer.Nt

open Lib Http Spooler Port

def ntVersion4 : UInt8 := 2

def cmd0A : UInt8 := 0x0A
def cmd0C : UInt8 := 0x0C
def cmd10 : UInt8 := 0x10
def cmd11 : UInt8 := 0x11
def cmd12 : UInt8 := 0x12

def portReady : UInt8 := 0x00
def portPaperOut : UInt8 := 0x01
def portOffLine : UInt8 := 0x02

def parportStatusError : UInt8 := 0x8
def parportControlSelect : UInt8 := 0x8
def parportStatusPaperOut : UInt8 := 0x20
def parportStatusAck : UInt8 := 0x40
def parportStatusBusy : UInt8 := 0x80

/-- The space that `PrnQueueInit` leaves from one spool buffer to the next. -/
def spoolBufferSize : Nat := Spooler.blockSize + 20

/-- The tables with one entry for each port. -/
inductive PortTable
  | ntPortInfo
  | isNTEndPrint
  | portIo
  | printerList
  | jobLog
deriving DecidableEq

inductive Fault
  | index (table : PortTable) (i : Int)
  | request (o n : Nat)
  | spool (n : Nat)
deriving DecidableEq

abbrev PortNo := Fin Spooler.numOfPrnPort

def portIndex (table : PortTable) (i : Int) : Except Fault PortNo :=
  if h : 0 ≤ i ∧ i.toNat < Spooler.numOfPrnPort then .ok ⟨i.toNat, h.2⟩ else .error (.index table i)

/-- A copy of `n` bytes from or to the offset `o` of `NTUDPUtilData`. -/
def requestCopy (o n : Nat) : Except Fault Unit :=
  if o + n ≤ utilityRecSize then .ok () else .error (.request o n)

def spoolCopy (n : Nat) : Except Fault Unit :=
  if n ≤ spoolBufferSize then .ok () else .error (.spool n)

inductive LogEntry
  | putList (port : UInt8) (person : List UInt8)
  | endList (port status : UInt8)
deriving DecidableEq

/-- `utilData` is the memory from `NTUDPUtilData` on.  Bits of `G_PortReady` stand for ports that
exist.  `dma` is what `StartDMAIO` was given last, `jobLog` the calls of the job log. -/
structure UtilSys where
  utilData : Nat → UInt8
  ntPortInfo : PortNo → NtPortBlock
  isNTEndPrint : PortNo → UInt8
  portIo : PortNo → ParPort
  inUse : PortNo → UInt8
  availQueueNO : PortNo → UInt8
  gPortReady : UInt8
  ready_lt : gPortReady.toNat < 2 ^ Spooler.numOfPrnPort
  dma : PortNo → List UInt8
  jobLog : List LogEntry
  signal : Nat

/-- What a handler meets: the client, the answers of `usbprn_read_status` and of `socket`, and
`NTMaxRecvPacket`. -/
structure UtilEnv where
  fromsock : SockAddr
  usbStatus : UInt8
  opened : Bool
  ntMaxRecvPacket : UInt8

namespace UtilSys

variable (env : UtilEnv) (s : UtilSys)

/-- `Cmd` and `Data` stand behind the mark, which is one byte shorter in `Nt1` and has no type. -/
def cmdOffset (version : UInt8) : Nat := if version = ntVersion4 then 4 else 2
def dataOffset (version : UInt8) : Nat := if version = ntVersion4 then 6 else 4

def put (o : Nat) (bs : List UInt8) : UtilSys := { s with utilData := writeMem s.utilData o bs }

/-- `NGET16` of `Nt2.Data[1]`. -/
def dataSize : UInt16 :=
  UInt16.ofNat ((s.utilData 7).toNat + 256 * (s.utilData 8).toNat)

def nset16 (n : UInt16) : List UInt8 := [UInt8.ofNat n.toNat, UInt8.ofNat (n.toNat / 256)]

/-- `1 << n` in an `int`, which is 0 on this processor where the language leaves it open. -/
def shifted (n : UInt8) : Nat := if n.toNat < 32 then 2 ^ n.toNat else 0

def isReady (n : UInt8) : Bool := s.gPortReady.toNat &&& shifted n ≠ 0

def prnOutQueueIsEmpty (port : PortNo) : Bool :=
  s.inUse port = prnNoUsed ∧ (s.availQueueNO port).toNat = prnQueueLen

/-- The strings are freed only for a port that is no USB port, and there is none. -/
def prnReadPortStatus (port : PortNo) : UInt8 :=
  let ready := s.isReady (UInt8.ofNat port) ∧ s.prnOutQueueIsEmpty port
  let status := env.usbStatus
  let rc :=
    if status = 0x7F then portOffLine
    else if status &&& parportStatusPaperOut ≠ 0 then portPaperOut
    else if status &&& parportStatusError ≠ 0 then
      if status &&& parportStatusBusy ≠ 0 then
        if status &&& parportControlSelect ≠ 0 ∧ status &&& parportStatusAck ≠ 0 ∧ ready then
          portReady
        else portPrinting
      else portPrinting
    else portOffLine
  if rc = portPrinting ∧ ready then portReady else rc

def readPortStatus (port : UInt8) : Except Fault UInt8 := do
  let p ← portIndex .portIo port.toNat
  return if (s.portIo p).hasGetDeviceID ≠ 0 then s.prnReadPortStatus env p else portOffLine

/-- `sendto` sends the record as it is left. -/
def ntSendAckStartPrintUDP (version printerID status : UInt8) : Except Fault UtilSys := do
  if version = ntVersion4 then
    let p ← portIndex .ntPortInfo (printerID.toNat - 1)
    let info := s.ntPortInfo p
    let maxRecvPackets :=
      if env.ntMaxRecvPacket < info.maxRecvPackets then env.ntMaxRecvPacket else info.maxRecvPackets
    let s := { s with
      ntPortInfo := Function.update s.ntPortInfo p { info with maxRecvPackets := maxRecvPackets } }
    return (s.put 4 [0x8A, 0x00]).put 6
      ([printerID, status, 0] ++ nset16 (UInt16.ofNat ntMaxRecvLen) ++ [maxRecvPackets])
  else return (s.put 2 [0x8A, 0x00]).put 4 [printerID, status, 0]

/-- `!strcmp`; the strings end inside the record. -/
def isString (o : Nat) (text : Str) : Bool := readMem s.utilData o (text.length + 1) = text ++ [0]

/-- The port is free: what is noted of the new job. -/
def acquire (version maxPackets portNumber : UInt8) : Except Fault UtilSys := do
  let p ← portIndex .ntPortInfo portNumber.toNat
  let e ← portIndex .isNTEndPrint portNumber.toNat
  let j ← portIndex .jobLog portNumber.toNat
  requestCopy (6 + 33) 32
  return { s with
    inUse := Function.update s.inUse p ntUsed
    ntPortInfo := Function.update s.ntPortInfo p { s.ntPortInfo p with
      blockNumber := 0
      remoteSocket := env.fromsock
      maxRecvPackets :=
        if version = ntVersion4 then if maxPackets = 0 then 5 else maxPackets else 1
      haveRecvPacket := 0 }
    isNTEndPrint := Function.update s.isNTEndPrint e 0
    jobLog := s.jobLog ++ [.putList (UInt8.ofNat j) (readMem s.utilData (6 + 33) 32)] }

/-- The acknowledgement, and the post for a port that is ready. -/
def answerStart (version portNumber status : UInt8) : Except Fault UtilSys := do
  let s ← s.ntSendAckStartPrintUDP env version (portNumber + 1) status
  return if status = prnNoUsed then { s with signal := s.signal + 1 } else s

def ntStartPrintUDP (version maxPackets : UInt8) : Except Fault UtilSys := do
  -- a byte: 0 becomes 255
  let portNumber := s.utilData (dataOffset version) - 1
  let portStatus ←
    if version = ntVersion4 then do
      let status ← s.readPortStatus env portNumber
      pure (if status = portPrinting then 0 else status)
    else pure 0
  if Spooler.numOfPrnPort ≤ portNumber.toNat then return s
  let p ← portIndex .printerList portNumber.toNat
  if portStatus ≠ 0 then
    s.answerStart env version portNumber
      ((if s.inUse p = prnNoUsed then 0x00 else 0x10) ||| portStatus)
  else if s.inUse p = prnNoUsed then
    let s ← s.acquire env version maxPackets portNumber
    if env.opened then s.answerStart env version portNumber 0x00 else return s
  else if s.inUse p = ntUsed then
    let q ← portIndex .ntPortInfo portNumber.toNat
    let info := s.ntPortInfo q
    if info.haveRecvPacket = 0 ∧ info.remoteSocket = env.fromsock ∧
        s.isString (dataOffset version + 1) info.portName then
      s.answerStart env version portNumber 0x00
    else s.answerStart env version portNumber 0x10
  else s.answerStart env version portNumber 0x10

def ntSendAckEndPrintUDP (version printerID : UInt8) : UtilSys :=
  (s.put (cmdOffset version) [0x8C, 0x00]).put (dataOffset version) [printerID]

def ntEndPrintUDP (version : UInt8) : Except Fault UtilSys := do
  let printerID := s.utilData (dataOffset version)
  -- 0 passes, and is the index -1
  if Spooler.numOfPrnPort < printerID.toNat then return s
  let p ← portIndex .ntPortInfo (printerID.toNat - 1)
  if (s.ntPortInfo p).remoteSocket.sinAddr ≠ env.fromsock.sinAddr then return s
  let s ←
    if s.isString (dataOffset version + 1) ntEndPrint then do
      let e ← portIndex .isNTEndPrint (printerID.toNat - 1)
      let s := { s with
        ntPortInfo := Function.update s.ntPortInfo p { s.ntPortInfo p with haveRecvPacket := 1 }
        isNTEndPrint := Function.update s.isNTEndPrint e 1 }
      pure (s.ntSendAckEndPrintUDP version printerID)
    else pure s
  let j ← portIndex .jobLog (printerID.toNat - 1)
  return { s with jobLog := s.jobLog ++ [.endList (UInt8.ofNat j) 0] }

/-- A string is sent if it begins with a character that prints. -/
def deviceText : Option Str → Str
  | some (c :: cs) => if isprint c then c :: cs else []
  | _ => []

/-- One string of the reply, with its NUL, and the place behind it. -/
def copyText (text : Str) (o : Nat) : Except Fault (UtilSys × Nat) := do
  requestCopy o (text.length + 1)
  return (s.put o (text ++ [0]), o + text.length + 1)

def copyInfo (info : DeviceInfo) : Except Fault UtilSys := do
  let (s, o) ← s.copyText (deviceText info.manufacture) 7
  let (s, o) ← s.copyText (deviceText info.model) o
  let (s, o) ← s.copyText (deviceText info.commandSet) o
  requestCopy o 1
  return s.put o [0]

def utilSendDeviceInfoUDP (printerID : UInt8) : Except Fault UtilSys := do
  let s := ((s.put 4 [0x90, 0x00]).put 6 [printerID]).put 7 (List.replicate 10 0)
  if Spooler.numOfPrnPort < printerID.toNat then return s
  let p ← portIndex .portIo (printerID.toNat - 1)
  s.copyInfo (s.portIo p).info

def utilReadPrinterDataUDP (printerID : UInt8) : Except Fault UtilSys := do
  let prnPort := printerID - 1
  let result : UInt8 ←
    if s.isReady prnPort then do
      let p ← portIndex .printerList prnPort.toNat
      if (s.availQueueNO p).toNat = prnQueueLen then do
        let _ ← portIndex .portIo prnPort.toNat
        pure (if env.usbStatus = 0xDF then 0x00 else 0x01)
      else pure 0x01
    else pure 0x01
  return (s.put 4 [0x91, result]).put 6 (printerID :: nset16 0)

theorem ready_cleared (mask : UInt8) :
    (s.gPortReady &&& ~~~ mask).toNat < 2 ^ Spooler.numOfPrnPort := by
  rw [UInt8.toNat_and]
  exact Nat.lt_of_le_of_lt Nat.and_le_left s.ready_lt

/-- The buffer that the pattern passes through comes from the free list and goes back there. -/
def prnPrintPattern (prnPort : UInt8) (o : Nat) (wSize : UInt16) :
    Except Fault (UInt8 × UtilSys) := do
  -- the mask of a number over 7 is 0, and its port is not ready
  let portMask := UInt8.ofNat (shifted prnPort)
  if s.gPortReady &&& portMask = 0 then return (0xFF, s)
  let p ← portIndex .printerList prnPort.toNat
  if s.inUse p ≠ prnNoUsed ∨ (s.availQueueNO p).toNat < 1 then return (0xFF, s)
  requestCopy o wSize.toNat
  spoolCopy wSize.toNat
  let q ← portIndex .portIo prnPort.toNat
  return (0, { s with
    gPortReady := s.gPortReady &&& ~~~ portMask
    ready_lt := s.ready_cleared portMask
    dma := Function.update s.dma q (readMem s.utilData o wSize.toNat) })

def utilWritePrinterDataUDP (printerID : UInt8) (dataSize : UInt16) : Except Fault UtilSys := do
  let (result, s) ← s.prnPrintPattern (printerID - 1) (6 + 3) dataSize
  let writeSize := if result = 0 then dataSize else 0
  return (s.put 4 [0x92, result]).put 6 (printerID :: nset16 writeSize)

/-- The handlers of the other commands take no printer number. -/
def ntDoCommandUDP : Except Fault UtilSys :=
  let cmd := s.utilData 4
  let printerID := s.utilData 6
  if cmd = cmd0A then s.ntStartPrintUDP env ntVersion4 (s.utilData 5)
  else if cmd = cmd0C then s.ntEndPrintUDP env ntVersion4
  else if cmd = cmd10 then s.utilSendDeviceInfoUDP printerID
  else if cmd = cmd11 then s.utilReadPrinterDataUDP env printerID
  else if cmd = cmd12 then s.utilWritePrinterDataUDP printerID s.dataSize
  else .ok s

end UtilSys

end PrintServer.Nt
