import PrintServer.Lib.Machine
import PrintServer.Novell.Bindery

/-!
# Serving the NetWare queues

`NPS3main` (nps3.c) asks one queue a call.  Its place is in `QCount` of the PCBs, in the current PCB
of each mode and in the mode.
-/

namespace PrintServer.Novell

open Lib

/-! ## Constants -/

def psNetwareMode : UInt8 := 0x01
def psNdsMode : UInt8 := 0x10
def serviceNextPS : UInt8 := 0x10
def serviceAgain : UInt8 := 0x33
def serviceData : UInt8 := 0x55
def serviceNextQueue : UInt8 := 0x77
def noQueueJob : UInt8 := 0xD5

/-! ## State -/

/-- A queue of a PCB that was asked for a job. -/
structure Visit where
  nds : Bool
  pcb : UInt8
  queue : Nat
deriving DecidableEq

/-- `visits` remembers the queues that were asked. -/
structure Service where
  bindery : Tables
  nds : Tables
  curServiceMode : UInt8
  visits : List Visit

namespace Service

variable (s : Service)

/-- `_IsBmode` -/
def isBmode : Bool := s.curServiceMode &&& psNetwareMode ≠ 0

/-- `_IsDSmode` -/
def isDSmode : Bool := s.curServiceMode &&& psNdsMode ≠ 0

/-- `_ModeToggle` -/
def modeToggle : Service :=
  { s with curServiceMode := s.curServiceMode ^^^ (psNetwareMode ||| psNdsMode) }

/-- The tables of a mode. -/
def tables : Bool → Tables
  | false => s.bindery
  | true => s.nds

def setTables (nds : Bool) (t : Tables) : Service :=
  match nds with
  | false => { s with bindery := t }
  | true => { s with nds := t }

end Service

/-! ## A call -/

/-- What a call meets: the connect flags, the port, the clock, and what the process routine returns
once it talks to the server. -/
structure Meets where
  connected : Bool
  busy : Bool
  availQueueNO : Nat
  elapsed : Nat
  pollingTime : Nat
  answer : UInt8

/-- `ServiceNetWareQueue`, with whether it reaches its request. -/
def serviceNetWareQueue (m : Meets) : UInt8 × Bool :=
  if m.busy then (0, false)
  else if m.availQueueNO < 2 then (0, false)
  else if m.elapsed < m.pollingTime then (serviceAgain, false)
  else (m.answer, true)

/-- The current PCB is at its last queue and the last one of its list. -/
def Tables.atEnd (t : Tables) (nPort : Nat) : Bool :=
  let x := t.pcb nPort (t.curPort nPort).toNat
  x.qCount + 1 ≥ x.totalQueue ∧ x.nextPortPCB = nullByte

/-- The switch of `NPS3main` on what the routine returned; `none` is a PCB without a file server. -/
def switchRetCode (nPort : Nat) (s : Service) (nds : Bool) (retCode : UInt8) :
    Option (Service × UInt8) :=
  let t := s.tables nds
  let cur := t.curPort nPort
  let x := t.pcb nPort cur.toNat
  if retCode = 0 then some (s, 0)
  else if retCode = serviceData then
    some (s.setTables nds (t.setPCB nPort cur { x with processRoutine := some .queueToPort }),
      serviceData)
  else if retCode = serviceNextQueue ∨ retCode = noQueueJob then
    let s' := s.setTables nds (t.nextQueue nPort)
    some (if t.atEnd nPort then s'.modeToggle else s', serviceNextPS)
  else if retCode = serviceAgain then some (s, serviceNextPS)
  else
    -- the server is lost
    x.pFSInfo.map fun fs ↦ (s.setTables nds (t.moveToFreePort fs).1, 0)

/-- The part of `NPS3main` behind the tests of the modes. -/
def callRoutine (nPort : Nat) (s : Service) (m : Meets) : Option (Service × UInt8) :=
  let nds := !s.isBmode
  let t := s.tables nds
  let cur := t.curPort nPort
  let x := t.pcb nPort cur.toNat
  match x.processRoutine with
  | none => none
  | some .serviceNetWareQueue =>
      let (retCode, asked) := serviceNetWareQueue m
      let visits := if asked then s.visits ++ [⟨nds, cur, x.qCount.toNat⟩] else s.visits
      switchRetCode nPort { s with visits } nds retCode
  | some .queueToPort => switchRetCode nPort s nds m.answer

/-- `NPS3main` -/
def nps3main (nPort : Nat) (s : Service) (m : Meets) : Option (Service × UInt8) :=
  if ¬m.connected then some (s, serviceNextPS)
  else
    let s := if s.isBmode ∧ s.bindery.curPort nPort = nullByte then s.modeToggle else s
    if s.isDSmode ∧ s.nds.curPort nPort = nullByte then some (s.modeToggle, serviceNextPS)
    else callRoutine nPort s m

/-- Successive calls. -/
def serviceMachine (nPort : Nat) (init : Service) : Machine Service Meets :=
  ⟨init, fun s m ↦ (nps3main nPort s m).map (·.1)⟩

end PrintServer.Novell
