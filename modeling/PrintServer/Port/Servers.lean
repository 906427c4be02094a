import PrintServer.Spooler.Queue
import PrintServer.Lib.Machine

/-!
# The servers that print on one port

`receive_job` with `hold_job` and `abort_job` (lpd.c), `ippProcessJob` (ippd.c), `rawtcpd`
(rawtcpd.c) and the `SendEOF` that each of them calls after a time-out (nps3.c), as programs that
read and write `InUse` of port 0.  What the network, the printer and the job list answer is a
`Choice`; a `Move` is the next statement with the effect of this one.
-/

namespace PrintServer.Port

open Lib Spooler

def ntUsed : UInt8 := 0x02
def netwareUsed : UInt8 := 0x03
def unixUsed : UInt8 := 0x04
def ippUsed : UInt8 := 0x06
def rawTcpUsed : UInt8 := 0x08
def testPageUsed : UInt8 := 0x0B

/-- The results of `ReadPortStatus`. -/
inductive PortStatus
  | ready
  | paperOut
  | offLine
  | printing
deriving DecidableEq

inductive LpdCommand
  | disconnect
  | controlFileFails
  | controlFile
  | abort
  | dataFile
deriving DecidableEq

inductive Received
  | block
  | finished
  | failed
  | timedOut
deriving DecidableEq

/-- What the environment answers to a statement; `go` is no answer, `answer` is that of a test of
data outside this model (a hold flag, the number of jobs, `malloc`). -/
inductive Choice
  | go
  | status (s : PortStatus)
  | command (c : LpdCommand)
  | received (r : Received)
  | answer (b : Bool)
deriving DecidableEq

inductive AbortPc
  | read
  | set
deriving DecidableEq

/-- `numOfFile` counts the data files of the connection. -/
inductive LpdPc
  | command (numOfFile : Nat)
  | abortJob (numOfFile : Nat) (pc : AbortPc)
  | holdLock
  | holdTest
  | holdUnlock
  | holdRelock
  | holdAbortTest
  | holdAbortUnlock
  | setInUse
  | setUnlock
  | abortTest (numOfFile : Nat)
  | receive (numOfFile : Nat)
  | setNoUse (timedOut : Bool)
deriving DecidableEq

inductive IppPc
  | lock
  | loop
  | test
  | unlock
  | relock
  | setInUse
  | setUnlock
  | process
  | setNoUse (cancel : Bool)
  | popLock
  | popUnlock
  | exitLock
  | exitUnlock
deriving DecidableEq

inductive RawPc
  | accept
  | statusTest
  | lock
  | test
  | testPrinting
  | unlock
  | relock
  | setInUse
  | setUnlock
  | receive
  | setNoUse (timedOut : Bool)
  | offLineUnlock
deriving DecidableEq

inductive EofPc
  | status
  | getBuf
  | test
  | setInUse
  | malloc
  | put
  | testUse
  | setNoUse
deriving DecidableEq

/-- The function that calls `SendEOF`. -/
inductive Caller
  | receiveJob
  | ippProcessJob
  | rawtcpd
deriving DecidableEq

inductive Pc
  | lpd (pc : LpdPc)
  | ipp (pc : IppPc)
  | raw (pc : RawPc)
  | eof (caller : Caller) (pc : EofPc)
  | abort (pc : AbortPc)
  | exited
deriving DecidableEq

/-- What a statement does to the port: `testFree` is a test that found it free, `put` a
`PrnPutOutQueueBuf` with data. -/
inductive Effect
  | none
  | lock
  | unlock
  | testFree
  | acquire (code : UInt8)
  | put
  | release
  | abortUse
deriving DecidableEq

structure Move where
  pc : Pc
  effect : Effect

def goto (pc : Pc) : Option Move := some ⟨pc, .none⟩

/-- `abort_job` for `PrnStatus = inUse`; it ends at `cont`. -/
def abortJob (inUse : UInt8) (here : AbortPc → Pc) (cont : Pc) : AbortPc → Choice → Option Move
  | .read, .answer unixHold =>
      if unixHold then goto cont
      else if inUse = prnNoUsed ∨ inUse = prnAbortUsed ∨ inUse = netwareUsed ∨ inUse = ntUsed then
        goto cont
      else goto (here .set)
  | .set, .go => some ⟨cont, .abortUse⟩
  | _, _ => none

def afterSendEOF : Caller → Pc
  | .receiveJob => .exited
  | .ippProcessJob => .ipp .popLock
  | .rawtcpd => .raw .accept

def sendEOF (inUse : UInt8) (caller : Caller) : EofPc → Choice → Option Move
  | .status, .status s => goto (if s = .offLine then afterSendEOF caller else .eof caller .getBuf)
  | .getBuf, .go => goto (.eof caller .test)
  | .test, .go =>
      if inUse = prnNoUsed then some ⟨.eof caller .setInUse, .testFree⟩
      else goto (.eof caller .malloc)
  | .setInUse, .go => some ⟨.eof caller .malloc, .acquire testPageUsed⟩
  | .malloc, .answer ok => goto (if ok then .eof caller .put else afterSendEOF caller)
  | .put, .go => some ⟨.eof caller .testUse, .put⟩
  | .testUse, .go =>
      goto (if inUse = testPageUsed then .eof caller .setNoUse else afterSendEOF caller)
  | .setNoUse, .go => some ⟨afterSendEOF caller, .release⟩
  | _, _ => none

def receiveJob (inUse : UInt8) : LpdPc → Choice → Option Move
  | .command _, .command .disconnect => goto (.lpd (.setNoUse false))
  | .command _, .command .controlFileFails => goto (.lpd (.setNoUse false))
  | .command n, .command .controlFile => goto (.lpd (.command n))
  | .command n, .command .abort => goto (.lpd (.abortJob n .read))
  -- `hold_job` returns at once for every data file but the first
  | .command n, .command .dataFile => goto (.lpd (if n = 0 then .holdLock else .abortTest n))
  | .abortJob n pc, c => abortJob inUse (fun pc ↦ .lpd (.abortJob n pc)) (.lpd (.command n)) pc c
  | .holdLock, .go => some ⟨.lpd .holdTest, .lock⟩
  | .holdTest, .status s =>
      if s = .ready ∧ inUse = prnNoUsed then some ⟨.lpd .setInUse, .testFree⟩
      else goto (.lpd .holdUnlock)
  | .holdUnlock, .go => some ⟨.lpd .holdRelock, .unlock⟩
  | .holdRelock, .go => some ⟨.lpd .holdAbortTest, .lock⟩
  | .holdAbortTest, .answer holdAbort =>
      goto (.lpd (if holdAbort then .holdAbortUnlock else .holdTest))
  | .holdAbortUnlock, .go => some ⟨.lpd (.abortTest 0), .unlock⟩
  | .setInUse, .go => some ⟨.lpd .setUnlock, .acquire unixUsed⟩
  | .setUnlock, .go => some ⟨.lpd (.abortTest 0), .unlock⟩
  | .abortTest n, .answer holdAbort =>
      goto (.lpd (if holdAbort then .setNoUse false else .receive n))
  | .receive n, .received .block => some ⟨.lpd (.receive n), .put⟩
  | .receive n, .received .finished => goto (.lpd (.command (n + 1)))
  | .receive _, .received .failed => goto (.lpd (.setNoUse false))
  | .receive _, .received .timedOut => goto (.lpd (.setNoUse true))
  | .setNoUse timedOut, .go =>
      some ⟨if timedOut then .eof .receiveJob .status else .exited, .release⟩
  | _, _ => none

def ippProcessJob (inUse : UInt8) : IppPc → Choice → Option Move
  | .lock, .go => some ⟨.ipp .loop, .lock⟩
  | .loop, .answer jobs => goto (.ipp (if jobs then .test else .exitLock))
  | .test, .status s =>
      if s = .ready ∧ inUse = prnNoUsed then some ⟨.ipp .setInUse, .testFree⟩
      else goto (.ipp .unlock)
  | .unlock, .go => some ⟨.ipp .relock, .unlock⟩
  | .relock, .go => some ⟨.ipp .loop, .lock⟩
  | .setInUse, .go => some ⟨.ipp .setUnlock, .acquire ippUsed⟩
  | .setUnlock, .go => some ⟨.ipp .process, .unlock⟩
  | .process, .received .block => some ⟨.ipp .process, .put⟩
  | .process, .received .finished => goto (.ipp (.setNoUse false))
  | .process, .received .failed => goto (.ipp (.setNoUse false))
  | .process, .received .timedOut => goto (.ipp (.setNoUse true))
  | .setNoUse cancel, .go =>
      some ⟨if cancel then .eof .ippProcessJob .status else .ipp .popLock, .release⟩
  | .popLock, .go => some ⟨.ipp .popUnlock, .lock⟩
  -- the loop goes on without the lock
  | .popUnlock, .go => some ⟨.ipp .loop, .unlock⟩
  | .exitLock, .go => some ⟨.ipp .exitUnlock, .lock⟩
  | .exitUnlock, .go => some ⟨.exited, .unlock⟩
  | _, _ => none

def rawtcpd (inUse : UInt8) : RawPc → Choice → Option Move
  | .accept, .go => goto (.raw .statusTest)
  | .statusTest, .status s => goto (.raw (if s = .offLine then .offLineUnlock else .lock))
  | .lock, .go => some ⟨.raw .test, .lock⟩
  | .test, .status s =>
      if inUse = prnNoUsed ∧ s = .ready then some ⟨.raw .setInUse, .testFree⟩
      else goto (.raw .testPrinting)
  | .testPrinting, .status s =>
      if s = .printing ∧ inUse = prnNoUsed then some ⟨.raw .setInUse, .testFree⟩
      else goto (.raw .unlock)
  | .unlock, .go => some ⟨.raw .relock, .unlock⟩
  | .relock, .go => some ⟨.raw .test, .lock⟩
  | .setInUse, .go => some ⟨.raw .setUnlock, .acquire rawTcpUsed⟩
  | .setUnlock, .go => some ⟨.raw .receive, .unlock⟩
  | .receive, .received .block => some ⟨.raw .receive, .put⟩
  | .receive, .received .finished => goto (.raw (.setNoUse false))
  | .receive, .received .failed => goto (.raw (.setNoUse false))
  | .receive, .received .timedOut => goto (.raw (.setNoUse true))
  | .setNoUse timedOut, .go =>
      some ⟨if timedOut then .eof .rawtcpd .status else .raw .accept, .release⟩
  -- no lock was taken on this path
  | .offLineUnlock, .go => some ⟨.raw .accept, .unlock⟩
  | _, _ => none

def serverMove (inUse : UInt8) : Pc → Choice → Option Move
  | .lpd pc, c => receiveJob inUse pc c
  | .ipp pc, c => ippProcessJob inUse pc c
  | .raw pc, c => rawtcpd inUse pc c
  | .eof caller pc, c => sendEOF inUse caller pc c
  | .abort pc, c => abortJob inUse .abort .exited pc c
  | .exited, _ => none

/-! ## The threads of the servers -/

/-- A thread, with the number of the job it is at and whether that job has acquired the port and
not released it; the last two are no variables of the program. -/
structure Thread where
  pc : Pc
  job : Nat
  owns : Bool
deriving DecidableEq

structure InUseWrite where
  tid : Nat
  old : UInt8
  new : UInt8
deriving DecidableEq

/-- `schedLock` is the counter of `cyg_scheduler_lock`, `current` the thread that ran last.
`log` records the writes to `InUse` and `puts` the job of each data buffer on the output queue;
`guarded` says whether a thread made its last test that found the port free with the scheduler
locked.  These three are no variables of the program. -/
structure ServerSys where
  n : Nat
  thread : Nat → Thread
  inUse : UInt8
  schedLock : UInt32
  current : Nat
  log : List InUseWrite
  puts : List (Nat × Nat)
  guarded : Nat → Bool

def serverStart : ServerSys :=
  { n := 0, thread := fun _ ↦ ⟨.exited, 0, false⟩, inUse := prnNoUsed, schedLock := 0,
    current := 0, log := [], puts := [], guarded := fun _ ↦ false }

def ServerSys.setThread (s : ServerSys) (t : Nat) (th : Thread) : ServerSys :=
  { s with thread := Function.update s.thread t th, current := t }

def applyMove (s : ServerSys) (t : Nat) (m : Move) : ServerSys :=
  let th := s.thread t
  match m.effect with
  | .none => s.setThread t { th with pc := m.pc }
  | .testFree =>
      { s.setThread t { th with pc := m.pc } with
        guarded := Function.update s.guarded t (decide (s.schedLock ≠ 0)) }
  | .lock => { s.setThread t { th with pc := m.pc } with schedLock := s.schedLock + 1 }
  | .unlock => { s.setThread t { th with pc := m.pc } with schedLock := s.schedLock - 1 }
  | .acquire code =>
      { s.setThread t ⟨m.pc, th.job + 1, true⟩ with
        inUse := code
        log := s.log ++ [⟨t, s.inUse, code⟩] }
  | .put =>
      -- a page put by a thread that does not hold the port is a job of its own
      { s.setThread t ⟨m.pc, if th.owns then th.job else th.job + 1, th.owns⟩ with
        puts := s.puts ++ [(t, th.job)] }
  | .release =>
      { s.setThread t ⟨m.pc, th.job + 1, false⟩ with
        inUse := prnNoUsed
        log := s.log ++ [⟨t, s.inUse, prnNoUsed⟩] }
  | .abortUse =>
      { s.setThread t { th with pc := m.pc } with
        inUse := prnAbortUsed
        log := s.log ++ [⟨t, s.inUse, prnAbortUsed⟩] }

/-- The statements at which a thread may wait and so give up the processor with the scheduler
locked. -/
def Pc.waits : Pc → Bool
  | .lpd (.command _) | .lpd (.receive _) | .ipp .process | .raw .accept | .raw .receive
  | .exited => true
  | _ => false

/-- With the counter of the scheduler lock not at 0 only the thread that ran last runs on. -/
def ServerSys.mayRun (s : ServerSys) (t : Nat) : Prop :=
  s.schedLock = 0 ∨ s.current = t ∨ (s.thread s.current).pc.waits

instance (s : ServerSys) (t : Nat) : Decidable (s.mayRun t) := by
  unfold ServerSys.mayRun
  infer_instance

/-- The threads: one for each LPD connection, each worker of ippd and each rawtcpd, and the
`abort_job` that a remove-jobs command runs. -/
inductive Server
  | receiveJob
  | ippProcessJob
  | rawtcpd
  | removeJobs
deriving DecidableEq

def Server.entry : Server → Pc
  | .receiveJob => .lpd (.command 0)
  | .ippProcessJob => .ipp .lock
  | .rawtcpd => .raw .accept
  | .removeJobs => .abort .read

inductive ServerAct
  | start (srv : Server)
  | step (t : Nat) (c : Choice)
deriving DecidableEq

def serverStep (s : ServerSys) : ServerAct → Option ServerSys
  | .start srv =>
      some { s with
        n := s.n + 1
        thread := Function.update s.thread s.n ⟨srv.entry, 0, false⟩ }
  | .step t c =>
      if t < s.n ∧ s.mayRun t then (serverMove s.inUse (s.thread t).pc c).map (applyMove s t)
      else none

def serverMachine : Machine ServerSys ServerAct := ⟨serverStart, serverStep⟩

end PrintServer.Port
