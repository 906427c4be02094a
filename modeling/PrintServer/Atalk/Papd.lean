import PrintServer.Port.Servers

/-!
# The sessions of papd

`papd` (papd.c) answers the open requests of AppleTalk clients, takes the port and starts a thread
of `pap_session` (session.c) in one of six slots, which gives the port back.  A step is one
statement that touches what the threads share, or a section under the scheduler lock.
-/

namespace PrintServer.Papd

open Lib Port Spooler

/-- `PAP_SOCKSUM` -/
def papSockSum : Nat := 6

def atalkUsed : UInt8 := 0x05

/-- `struct pap_sock` -/
structure PapSock where
  flag : Bool
  needrelase : Bool
deriving DecidableEq

/-- The statements of `papd`.  `refused` says that the reply at hand has a result of 0xFFFF, `i` is
the slot of the two loops. -/
inductive PapdPc
  | accept
  | test
  | openAtp (refused : Bool)
  | reply (refused : Bool)
  | checkErr
  | lock
  | reap (i : Nat)
  | delete (i : Nat)
  | clear (i : Nat)
  | semInit
  | search (i : Nat)
  | take (i : Nat)
  | create (i : Nat)
  | resume (i : Nat)
  | wait
deriving DecidableEq

/-- The statements of `pap_session`: `returned` is the end of a thread that found no memory for
`outbuf`, `deleted` that of one that `cyg_thread_delete` ended. -/
inductive SessionPc
  | suspended
  | start
  | post
  | malloc
  | loop
  | sendEOF
  | endSession
  | setNoUse
  | freeOutbuf
  | clearFlag
  | setNeedrelase
  | exit
  | exited
  | returned
  | deleted
deriving DecidableEq

@[simp] def SessionPc.ended : SessionPc → Bool
  | .exited | .returned | .deleted => true
  | _ => false

/-- A thread of `pap_session` with `data = slot`.  `atp` and `connid` are what it read of `pr`,
`held` says that `infile.pbuf[0]` is set and `pfPrint` that `PF_PRINT` is.  The others are records:
the open request it was created for, whether it has put data on the output queue behind its last
buffer with an end flag, and how often it has come to `PrnSetNoUse`. -/
structure Session where
  pc : SessionPc
  slot : Nat
  atp : Option Nat
  connid : UInt8
  held : Bool
  pfPrint : Bool
  request : Nat
  jobOpen : Bool
  released : Nat
deriving DecidableEq

/-- The record of an open request: the result it was answered with, how often the port was taken
for it and how many threads were created. -/
structure OpenRequest where
  connid : UInt8
  replied : Option Bool
  acquired : Nat
  sessions : Nat
deriving DecidableEq

/-- `curAtp` and `connid` are those of `pr[0]`, an ATP handle being known by the request it was
opened for, and `handle` is `PAPConn1_TaskHdl`.  `reused` and `deletedAt` record where the threads
stood whose stack was given to a new one, and those that were deleted. -/
structure PapSys where
  papd : PapdPc
  err : Nat
  connid : UInt8
  curAtp : Option Nat
  inUse : UInt8
  sock : Nat → PapSock
  handle : Nat → Nat
  semaphore : Nat
  thread : Nat → Session
  created : Nat
  request : Nat → OpenRequest
  requests : Nat
  reused : List SessionPc
  deletedAt : List SessionPc

def noSession : Session :=
  { pc := .exited, slot := 0, atp := none, connid := 0, held := false, pfPrint := false,
    request := 0, jobOpen := false, released := 0 }

def papStart : PapSys :=
  { papd := .accept, err := 0, connid := 0, curAtp := none, inUse := prnNoUsed,
    sock := fun _ ↦ ⟨false, false⟩, handle := fun _ ↦ 0, semaphore := 0,
    thread := fun _ ↦ noSession, created := 0, request := fun _ ↦ ⟨0, none, 0, 0⟩, requests := 0,
    reused := [], deletedAt := [] }

/-- What the network, the printer and the memory answer to a statement of `papd`. -/
inductive PapdInput
  | go
  | openRequest (connid : UInt8)
  | otherRequest
  | status (s : PortStatus)
  | opened (ok : Bool)
  | sent (ok : Bool)
deriving DecidableEq

/-- The same for a session: `print` is a call of `paprint` for what `PostScript` makes of the data
of the client, whose last buffer has an end flag if `last`, `reply` the reply behind which
`infile.pf_state` starts anew, and `quit` an error or a PAP_CLOSE. -/
inductive SessionInput
  | go
  | malloc (ok : Bool)
  | getBufs
  | print (last : Bool)
  | reply
  | timeOut
  | quit
deriving DecidableEq

inductive PapAct
  | papd (c : PapdInput)
  | session (t : Nat) (c : SessionInput)
  -- another server takes the port or gives it back
  | other (inUse : UInt8)
deriving DecidableEq

namespace PapSys

/-- The open request that `papd` is at. -/
def current (s : PapSys) : Nat := s.requests - 1

def setSock (s : PapSys) (i : Nat) (sock : PapSock) : PapSys :=
  { s with sock := Function.update s.sock i sock }

def setThread (s : PapSys) (t : Nat) (th : Session) : PapSys :=
  { s with thread := Function.update s.thread t th }

def setRequest (s : PapSys) (r : OpenRequest) : PapSys :=
  { s with request := Function.update s.request s.current r }

/-- The request is given up: `atp_close` and `continue`. -/
def giveUp (s : PapSys) : PapSys := { s with papd := .accept, curAtp := none }

/-- Where the threads stand that were started in slot `i`. -/
def onStack (s : PapSys) (i : Nat) : List SessionPc :=
  ((List.range s.created).filter fun t ↦ (s.thread t).slot = i).map fun t ↦ (s.thread t).pc

/-- `cyg_thread_create` on the stack of slot `i`. -/
def startIn (s : PapSys) (i : Nat) : PapSys :=
  let r := s.request s.current
  { s with
    thread := Function.update s.thread s.created
      { noSession with pc := .suspended, slot := i, request := s.current }
    created := s.created + 1
    handle := Function.update s.handle i s.created
    request := Function.update s.request s.current { r with sessions := r.sessions + 1 }
    reused := s.reused ++ s.onStack i }

end PapSys

/-- The pass of the first loop behind the one for slot `i`. -/
def nextReap (i : Nat) : PapdPc := if i + 1 < papSockSum then .reap (i + 1) else .semInit

/-- One statement of `papd`. -/
def papdStep (s : PapSys) : PapdInput → Option PapSys
  | .openRequest connid =>
      if s.papd = .accept then
        some { s with
          papd := .test
          connid := connid
          request := Function.update s.request s.requests ⟨connid, none, 0, 0⟩
          requests := s.requests + 1 }
      else none
  | .otherRequest => if s.papd = .accept then some s else none
  | .status st =>
      if s.papd = .test then
        let refused : Bool := s.inUse ≠ prnNoUsed ∨ st ≠ .ready
        some { s with papd := .openAtp refused, err := if refused then 1 else s.err }
      else none
  | .opened ok =>
      match s.papd with
      | .openAtp refused =>
          if ok then some { s with papd := .reply refused, curAtp := some s.current }
          else some { s with papd := .reply true, curAtp := none, err := 2 }
      | _ => none
  | .sent ok =>
      match s.papd with
      | .reply refused =>
          if ok then
            some { s.setRequest { s.request s.current with replied := some (!refused) } with
              papd := .checkErr }
          -- the refusal stays in `err`
          else some s.giveUp
      | _ => none
  | .go =>
      match s.papd with
      | .checkErr =>
          if s.err ≠ 0 then some { s.giveUp with err := 0 } else some { s with papd := .lock }
      | .lock =>
          if s.inUse ≠ prnNoUsed then some { s.giveUp with err := 0 }
          else
            let r := s.request s.current
            some { s.setRequest { r with acquired := r.acquired + 1 } with
              inUse := atalkUsed, papd := .reap 0 }
      | .reap i =>
          some { s with papd := if (s.sock i).needrelase then .delete i else nextReap i }
      | .delete i =>
          let th := s.thread (s.handle i)
          some { s.setThread (s.handle i) { th with pc := .deleted } with
            papd := .clear i, deletedAt := s.deletedAt ++ [th.pc] }
      | .clear i =>
          some { s.setSock i { s.sock i with needrelase := false } with papd := nextReap i }
      | .semInit => some { s with semaphore := 0, papd := .search 0 }
      | .search i =>
          some { s with
            papd := if (s.sock i).flag = false then .take i
              else if i + 1 < papSockSum then .search (i + 1) else .accept }
      | .take i => some { s.setSock i { s.sock i with flag := true } with papd := .create i }
      | .create i => some { s.startIn i with papd := .resume i }
      | .resume i =>
          some { s.setThread (s.handle i) { s.thread (s.handle i) with pc := .start } with
            papd := .wait }
      | .wait =>
          if 0 < s.semaphore then some { s with semaphore := s.semaphore - 1, papd := .accept }
          else none
      | _ => none

/-- One statement of the thread `t`. -/
def sessionStep (s : PapSys) (t : Nat) (c : SessionInput) : Option PapSys :=
  let th := s.thread t
  match th.pc, c with
  | .start, .go => some (s.setThread t { th with pc := .post, atp := s.curAtp, connid := s.connid })
  | .post, .go => some { s.setThread t { th with pc := .malloc } with semaphore := s.semaphore + 1 }
  | .malloc, .malloc ok => some (s.setThread t { th with pc := if ok then .loop else .returned })
  | .loop, .getBufs => some (s.setThread t { th with held := true })
  | .loop, .print last =>
      if th.held then
        some (s.setThread t { th with held := false, pfPrint := true, jobOpen := !last })
      else none
  | .loop, .reply => some (s.setThread t { th with pfPrint := false })
  | .loop, .timeOut =>
      if th.pfPrint ∧ th.held then
        -- the job is ended with a buffer that has the flag PRN_Q_ABORT
        some (s.setThread t { th with pc := .sendEOF, held := false, jobOpen := false })
      else some (s.setThread t { th with pc := .endSession })
  | .loop, .quit => some (s.setThread t { th with pc := .endSession })
  -- the page of `SendEOF` is none of the job
  | .sendEOF, .go => some (s.setThread t { th with pc := .endSession })
  | .endSession, .go => some (s.setThread t { th with pc := .setNoUse, held := false })
  | .setNoUse, .go =>
      some { s.setThread t { th with pc := .freeOutbuf, released := th.released + 1 } with
        inUse := prnNoUsed }
  | .freeOutbuf, .go => some (s.setThread t { th with pc := .clearFlag })
  | .clearFlag, .go =>
      some ((s.setThread t { th with pc := .setNeedrelase }).setSock th.slot
        { s.sock th.slot with flag := false })
  | .setNeedrelase, .go =>
      some ((s.setThread t { th with pc := .exit }).setSock th.slot
        { s.sock th.slot with needrelase := true })
  | .exit, .go => some (s.setThread t { th with pc := .exited })
  | _, _ => none

def papStep (s : PapSys) : PapAct → Option PapSys
  | .papd c => papdStep s c
  | .session t c => if t < s.created then sessionStep s t c else none
  | .other inUse => if inUse = atalkUsed then none else some { s with inUse := inUse }

def papMachine : Machine PapSys PapAct := { init := papStart, step := papStep }

/-! ## The property -/

/-- `papd` is no longer at the request. -/
def PapSys.Done (s : PapSys) (r : Nat) : Prop := r < s.requests ∧ (r < s.current ∨ s.papd = .accept)

/-- Each time that the port is taken is for one session, which gives it back once and ends its job
before; a client is told that its session is open when one is started, and no thread is deleted
and no stack given away that is still in use. -/
structure OneToOne (s : PapSys) : Prop where
  acquired : ∀ r, s.Done r → (s.request r).acquired ≤ 1 ∧
    (s.request r).sessions = (s.request r).acquired
  answered : ∀ r, s.Done r → ((s.request r).replied = some true ↔ (s.request r).sessions = 1)
  served : ∀ t < s.created, (s.thread t).pc ≠ .suspended → (s.thread t).pc ≠ .start →
    (s.thread t).atp = some (s.thread t).request ∧
      (s.thread t).connid = (s.request (s.thread t).request).connid
  released : ∀ t < s.created, (s.thread t).released ≤ 1 ∧
    ((s.thread t).pc.ended = true → (s.thread t).released = 1)
  jobs : ∀ t < s.created, 0 < (s.thread t).released → (s.thread t).jobOpen = false
  stackEnds : ∀ pc ∈ s.reused ++ s.deletedAt, pc.ended = true

/-- No thread of slot `i` is between its clear of `flag` and its end. -/
def PapSys.NoneLeaving (s : PapSys) (i : Nat) : Prop :=
  ∀ t < s.created, (s.thread t).slot = i →
    (s.thread t).pc ≠ .setNeedrelase ∧ (s.thread t).pc ≠ .exit

instance (s : PapSys) (i : Nat) : Decidable (s.NoneLeaving i) := by
  unfold PapSys.NoneLeaving
  infer_instance

/-- The statements of `papd` that go wrong: another server has the port again; the first loop finds
`needrelase`, or the second one a slot without `flag`, whose thread is still on its way out, or has
set `needrelase` behind the first loop; and no slot is free. -/
def SlotsOrderly (s : PapSys) : PapdPc → Prop
  | .lock => s.inUse = prnNoUsed
  | .reap i => (s.sock i).needrelase = true → s.NoneLeaving i
  | .search i =>
      ((s.sock i).flag = false → s.NoneLeaving i ∧ (s.sock i).needrelase = false) ∧
        (papSockSum ≤ i + 1 → (s.sock i).flag = false)
  | _ => True

instance (s : PapSys) (pc : PapdPc) : Decidable (SlotsOrderly s pc) := by
  unfold SlotsOrderly
  split <;> infer_instance

/-- No open request is accepted while `err` is left from one whose refusal could not be sent; the
port is still free when `papd` takes it, and it finds a slot whose last thread has ended; the memory
for `outbuf` is there; and a session ends with no job open, or with a time-out that finds a buffer
for its end. -/
def Orderly (s : PapSys) : PapAct → Prop
  | .papd (.sent true) => s.papd = .reply false → s.err = 0
  | .papd .go => SlotsOrderly s s.papd
  | .session _ (.malloc ok) => ok = true
  | .session t .quit => (s.thread t).jobOpen = false
  | .session t .timeOut => (s.thread t).jobOpen = true → (s.thread t).pfPrint ∧ (s.thread t).held
  | _ => True

instance (s : PapSys) (a : PapAct) : Decidable (Orderly s a) := by
  unfold Orderly
  split <;> infer_instance

end PrintServer.Papd
