import PrintServer.Http.CString
import PrintServer.Port.Servers

/-!
# The jobs of the Print Monitor

`NTStartPrintUDP` and `NTEndPrintUDP` (ntudp.c) of the utility thread, for port 0 and the version-4
datagrams that `NTDoCommandUDP` passes on, beside `NT3main` (ntps.c) and the `SendEOF` it calls
after a time-out.  A step is one statement, or one section under the scheduler lock.
-/

namespace PrintServer.Nt

open Lib Spooler Port Http

def portPrinting : UInt8 := 0x03
def ntEndPrint : Str := bytes "End Of Printer Job"

structure SockAddr where
  sinAddr : UInt32
  sinPort : UInt16
deriving DecidableEq

/-- A datagram of command 0A or 0C: `Data[0]`, the string at `Data[1]` and `Cmd[1]`. -/
structure Datagram where
  fromsock : SockAddr
  printerID : UInt8
  text : Str
  maxPackets : UInt8
deriving DecidableEq

/-- `NT_PORT_BLOCK`.  With `SUPPORT_JOB_LOG` nothing writes `PortName`. -/
structure NtPortBlock where
  blockNumber : UInt8
  portName : Str
  haveRecvPacket : UInt8
  remoteSocket : SockAddr
  maxRecvPackets : UInt8
deriving DecidableEq

inductive UtilPc
  | recvfrom
  | startPrint (d : Datagram) (portStatus : UInt8)
  | openDataPort
  | sendAck (ntudpStatus : UInt8)
  | post
  | endPrint (d : Datagram)
  | setEndPrint
deriving DecidableEq

inductive Nt3Pc
  | wait
  | getBuf (held : Bool)
  | timeTest
  | abortSpooler
  | sendEOF (pc : EofPc)
  | request
  | putOut (eof : Bool)
  | setNoUse
  | setHaveRecv
deriving DecidableEq

/-- `released` holds the `InUse` that `PrnSetNoUse` of `NT3main` overwrites. -/
inductive NtEvent
  | acquired
  | posted
  | jobStarted
  | released (inUse : UInt8)
deriving DecidableEq

/-- The last two fields are records: the events, and the `InUse` that a failed
`NTUDPOpenDataPort` leaves. -/
structure NtSys where
  inUse : UInt8
  ntPortInfo : NtPortBlock
  isNTEndPrint : UInt8
  signal : Nat
  nTimeOutCount : UInt8
  holdLongAbort : Bool
  util : UtilPc
  nt3 : Nt3Pc
  log : List NtEvent
  openFailed : List UInt8

def ntStart : NtSys :=
  { inUse := prnNoUsed
    ntPortInfo := { blockNumber := 0, portName := [], haveRecvPacket := 0, remoteSocket := ⟨0, 0⟩,
                    maxRecvPackets := 0 }
    isNTEndPrint := 0, signal := 0, nTimeOutCount := 0, holdLongAbort := false, util := .recvfrom,
    nt3 := .wait, log := [], openFailed := [] }

/-- The request of a client whose acknowledgement was lost. -/
def isRetry (p : NtPortBlock) (d : Datagram) : Bool :=
  p.haveRecvPacket = 0 ∧ p.remoteSocket.sinPort = d.fromsock.sinPort ∧
    p.remoteSocket.sinAddr = d.fromsock.sinAddr ∧ p.portName = d.text

/-- What `NTStartPrintUDP` does under the lock, and the reply it has decided on. -/
def startLocked (s : NtSys) (d : Datagram) (portStatus : UInt8) : NtSys :=
  if portStatus = 0 then
    if s.inUse = prnNoUsed then
      { s with
        inUse := ntUsed
        ntPortInfo := { s.ntPortInfo with
          blockNumber := 0
          remoteSocket := d.fromsock
          maxRecvPackets := if d.maxPackets = 0 then 5 else d.maxPackets
          haveRecvPacket := 0 }
        isNTEndPrint := 0
        util := .openDataPort
        log := s.log ++ [.acquired] }
    else if s.inUse = ntUsed ∧ isRetry s.ntPortInfo d then { s with util := .sendAck 0x00 }
    else { s with util := .sendAck 0x10 }
  else { s with util := .sendAck ((if s.inUse = prnNoUsed then 0x00 else 0x10) ||| portStatus) }

/-- `ok` answers the `socket` of `NTUDPOpenDataPort`. -/
def utilStep (s : NtSys) (ok : Bool) : Option NtSys :=
  match s.util with
  | .recvfrom => none
  | .startPrint d portStatus => some (startLocked s d portStatus)
  | .openDataPort =>
      if ok then some { s with util := .sendAck 0x00 }
      else some { s with util := .recvfrom, openFailed := s.openFailed ++ [s.inUse] }
  | .sendAck ntudpStatus =>
      some { s with util := if ntudpStatus = prnNoUsed then .post else .recvfrom }
  | .post =>
      some { s with signal := s.signal + 1, util := .recvfrom, log := s.log ++ [.posted] }
  | .endPrint d =>
      -- `PrinterID` 0 reads and writes the record before the array, which is no variable here
      if d.printerID = 1 ∧ s.ntPortInfo.remoteSocket.sinAddr = d.fromsock.sinAddr ∧
          d.text = ntEndPrint then
        some { s with ntPortInfo := { s.ntPortInfo with haveRecvPacket := 1 }, util := .setEndPrint }
      else some { s with util := .recvfrom }
  | .setEndPrint => some { s with isNTEndPrint := 1, util := .recvfrom }

/-- One statement of `SendEOF`: the value of `InUse` after it and the next statement, or none when
it returns.  `answer` is that the printer is off line, or that `malloc` succeeds. -/
def sendEOF (inUse : UInt8) (answer : Bool) : EofPc → UInt8 × Option EofPc
  | .status => (inUse, if answer then none else some .getBuf)
  | .getBuf => (inUse, some .test)
  | .test => (inUse, some (if inUse = prnNoUsed then .setInUse else .malloc))
  | .setInUse => (testPageUsed, some .malloc)
  | .malloc => (inUse, if answer then some .put else none)
  | .put => (inUse, some .testUse)
  | .testUse => (inUse, if inUse = testPageUsed then some .setNoUse else none)
  | .setNoUse => (prnNoUsed, none)

/-- What a statement of `NT3main` depends on: `yes` and `no` answer for the free list and for
`SendEOF`; the others are rounds of `NTRequestUDP`, which takes a block, passes over a datagram, or
returns. -/
inductive Nt3Answer
  | yes
  | no
  | block
  | skip
  | normal
  | abort
  | hold (tooLong : Bool)
deriving DecidableEq

/-- After each `recvfrom` `NTRequestUDP` returns `PRN_Q_EOF` if the job has been ended. -/
def requestStep (s : NtSys) (answer : Nt3Answer) : Option NtSys :=
  if s.isNTEndPrint ≠ 0 then some { s with nt3 := .putOut true }
  else
    match answer with
    | .block => some { s with ntPortInfo := { s.ntPortInfo with haveRecvPacket := 1 } }
    | .skip => some s
    | .normal => some { s with nt3 := .putOut false }
    | .abort => some { s with nTimeOutCount := s.nTimeOutCount + 1, nt3 := .getBuf true }
    | .hold tooLong =>
        some { s with holdLongAbort := s.holdLongAbort || tooLong, nt3 := .getBuf true }
    | _ => none

def nt3Step (nTimeOutRetryCount : Int) (s : NtSys) (answer : Nt3Answer) : Option NtSys :=
  match s.nt3 with
  | .wait =>
      if s.signal = 0 then none
      else
        some { s with
          signal := s.signal - 1
          nTimeOutCount := 0
          nt3 := .getBuf false
          log := s.log ++ [.jobStarted] }
  | .getBuf held =>
      if held ∨ answer = .yes then some { s with nt3 := .timeTest }
      else some { s with nt3 := if s.isNTEndPrint ≠ 0 then .setNoUse else .getBuf false }
  | .timeTest =>
      some { s with
        nt3 := if nTimeOutRetryCount < s.nTimeOutCount.toNat ∨ s.holdLongAbort then .abortSpooler
          else .request }
  | .abortSpooler =>
      some { s with holdLongAbort := false, nTimeOutCount := 0, nt3 := .sendEOF .status }
  | .sendEOF pc =>
      match sendEOF s.inUse (answer = .yes) pc with
      | (inUse, some pc) => some { s with inUse := inUse, nt3 := .sendEOF pc }
      | (inUse, none) => some { s with inUse := inUse, nt3 := .setNoUse }
  | .request => requestStep s answer
  | .putOut eof =>
      some { s with nTimeOutCount := 0, nt3 := if eof then .setNoUse else .getBuf false }
  | .setNoUse =>
      some { s with
        inUse := prnNoUsed, nt3 := .setHaveRecv, log := s.log ++ [.released s.inUse] }
  | .setHaveRecv =>
      some { s with ntPortInfo := { s.ntPortInfo with haveRecvPacket := 1 }, nt3 := .wait }

/-- `acquire` and `release` are the other protocols, which take a free port and give back a port
that is theirs. -/
inductive NtAct
  | startPrint (d : Datagram) (portStatus : UInt8)
  | endPrint (d : Datagram)
  | util (ok : Bool)
  | nt3 (answer : Nt3Answer)
  | acquire (code : UInt8)
  | release
deriving DecidableEq

def ntStep (nTimeOutRetryCount : Int) (s : NtSys) : NtAct → Option NtSys
  | .startPrint d portStatus =>
      if s.util = .recvfrom then
        if d.printerID - 1 < 1 then
          some { s with
            util := .startPrint d (if portStatus = portPrinting then 0 else portStatus) }
        else some s
      else none
  | .endPrint d =>
      if s.util = .recvfrom then some { s with util := .endPrint d } else none
  | .util ok => utilStep s ok
  | .nt3 answer => nt3Step nTimeOutRetryCount s answer
  | .acquire code =>
      if s.inUse = prnNoUsed ∧ code ≠ prnNoUsed ∧ code ≠ ntUsed then some { s with inUse := code }
      else none
  | .release =>
      if s.inUse ≠ prnNoUsed ∧ s.inUse ≠ ntUsed then some { s with inUse := prnNoUsed } else none

def ntMachine (nTimeOutRetryCount : Int) : Machine NtSys NtAct :=
  ⟨ntStart, ntStep nTimeOutRetryCount⟩

/-- One print job. -/
def ntRound : List NtEvent := [.acquired, .posted, .jobStarted, .released ntUsed]

/-- Jobs one to one with acquisitions.  `rounds` also says that `NT3main` releases only a port
that is held by NT; `started` that the job of an acquisition will start. -/
structure OneToOne (s : NtSys) : Prop where
  posts : s.util = .recvfrom → s.log.count .posted = s.log.count .acquired
  rounds : ∃ n, s.log <+: (List.replicate n ntRound).flatten
  started : s.util = .recvfrom → s.nt3 = .wait → s.inUse = ntUsed → s.signal ≠ 0
  openFailed : ∀ u ∈ s.openFailed, u = prnNoUsed

end PrintServer.Nt
