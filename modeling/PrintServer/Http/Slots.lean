import PrintServer.Lib.Machine
import PrintServer.Lib.Threads

/-!
# The connection slots of httpd.c

The two threads of `httpstart` and the `httpd` threads they start, as far as they touch `Usedsock`,
`HttpUsers` and their sockets.  A section under the scheduler lock is one step.
-/

namespace PrintServer.Http

open Lib

/-- `SOCKSUM`, which is `HTTP_MAX_USER`. -/
def sockSum : Nat := 24

/-- The statements of `httpd`; `returned` is the end of a thread that found no memory. -/
inductive ConnPc
  | none
  | fdopen
  | malloc
  | serve
  | fclose
  | fcloseEarly
  | release
  | exiting
  | exited
  | returned
deriving DecidableEq

inductive ListenPc
  | accept
  | reap (csd : Nat)
  | testUsers (csd : Nat)
  | close (csd : Nat)
  | allocate (csd : Nat)
deriving DecidableEq

structure USock where
  num : Nat
  flag : Bool
  needrelase : Bool
deriving DecidableEq

/-- The thread on `Httpd_Stack[i]`, with the socket `s` it was started for. -/
structure ConnThread where
  pc : ConnPc
  s : Nat
deriving DecidableEq

/-- Who will close an open socket. -/
inductive SockOwner
  | closed
  | listener (l : Nat)
  | thread (i : Nat)
  | ipp
  | nobody
deriving DecidableEq

/-- `owner`, `deleted` and `cleared` are records: where the threads deleted by `httpstart` stood, and
for each finished thread the slot that it cleared. -/
structure SlotSys where
  usedsock : Nat → USock
  thread : Nat → ConnThread
  httpUsers : Int
  listen : Nat → ListenPc
  owner : Nat → SockOwner
  deleted : List ConnPc
  cleared : List (Nat × Option Nat)

def slotStart : SlotSys :=
  { usedsock := fun _ ↦ ⟨0, false, false⟩, thread := fun _ ↦ ⟨.none, 0⟩, httpUsers := 0,
    listen := fun _ ↦ .accept, owner := fun _ ↦ .closed, deleted := [], cleared := [] }

namespace SlotSys

def setListen (s : SlotSys) (l : Nat) (pc : ListenPc) : SlotSys :=
  { s with listen := Function.update s.listen l pc }

def setThread (s : SlotSys) (i : Nat) (pc : ConnPc) : SlotSys :=
  { s with thread := Function.update s.thread i { s.thread i with pc := pc } }

def setOwner (s : SlotSys) (sock : Nat) (o : SockOwner) : SlotSys :=
  { s with owner := Function.update s.owner sock o }

/-- The first slot with `flag` 0. -/
def freeSlot (s : SlotSys) : Option Nat :=
  (List.range sockSum).find? fun i ↦ ¬ (s.usedsock i).flag

/-- The first slot with the socket number. -/
def findNum (s : SlotSys) (num : Nat) : Option Nat :=
  (List.range sockSum).find? fun i ↦ (s.usedsock i).num = num

/-- The loop of `httpstart` that deletes the ended threads. -/
def reaped (s : SlotSys) : SlotSys :=
  { s with
    usedsock := fun i ↦ if i < sockSum then { s.usedsock i with needrelase := false }
      else s.usedsock i
    thread := fun i ↦
      if i < sockSum ∧ (s.usedsock i).needrelase then { s.thread i with pc := .none }
      else s.thread i
    deleted := s.deleted ++
      ((List.range sockSum).filter fun i ↦ (s.usedsock i).needrelase).map fun i ↦ (s.thread i).pc }

/-- The slot is taken and its thread started. -/
def started (s : SlotSys) (i csd : Nat) : SlotSys :=
  { s with
    httpUsers := s.httpUsers + 1
    usedsock := Function.update s.usedsock i { s.usedsock i with num := csd, flag := true }
    thread := Function.update s.thread i ⟨.fdopen, csd⟩ }

/-- The slot found under the number of the socket is cleared. -/
def released (s : SlotSys) (num : Nat) : SlotSys :=
  match s.findNum num with
  | some i =>
      { s with
        usedsock := Function.update s.usedsock i ⟨0, false, true⟩, httpUsers := s.httpUsers - 1 }
  | none => { s with httpUsers := s.httpUsers - 1 }

end SlotSys

def listenStep (s : SlotSys) (l : Nat) : Option SlotSys :=
  match s.listen l with
  | .accept => none
  | .reap csd => some (s.reaped.setListen l (.testUsers csd))
  | .testUsers csd =>
      some (s.setListen l (if (sockSum : Int) ≤ s.httpUsers then .close csd else .allocate csd))
  | .close csd => some ((s.setOwner csd .closed).setListen l .accept)
  | .allocate csd =>
      match s.freeSlot with
      | some i => some (((s.started i csd).setOwner csd (.thread i)).setListen l .accept)
      -- the connection is left alone
      | none => some ((s.setOwner csd .nobody).setListen l .accept)

/-- One statement of `httpd` in slot `i`.  `ok` answers `fdopen` and `malloc`; at `serve` it says
that the request is no print job, so that `httpd` closes the connection itself. -/
def connStep (s : SlotSys) (i : Nat) (ok : Bool) : Option SlotSys :=
  match (s.thread i).pc with
  | .none | .exited | .returned => none
  -- without a `FILE` nothing is closed
  | .fdopen =>
      if ok then some (s.setThread i .malloc)
      else some ((s.setOwner (s.thread i).s .nobody).setThread i .release)
  | .malloc => some (s.setThread i (if ok then .serve else .fcloseEarly))
  | .fcloseEarly => some ((s.setOwner (s.thread i).s .closed).setThread i .returned)
  | .serve =>
      if ok then some (s.setThread i .fclose)
      else some ((s.setOwner (s.thread i).s .ipp).setThread i .release)
  | .fclose => some ((s.setOwner (s.thread i).s .closed).setThread i .release)
  | .release =>
      some { (s.released (s.thread i).s).setThread i .exiting with
        cleared := s.cleared ++ [(i, s.findNum (s.thread i).s)] }
  | .exiting => some (s.setThread i .exited)

/-- `ippClose` is the worker of ippd, which closes the connection of a print job. -/
inductive SlotAct
  | accept (l csd : Nat)
  | listener (l : Nat)
  | thread (i : Nat) (ok : Bool)
  | ippClose (sock : Nat)
deriving DecidableEq

def slotStep (s : SlotSys) : SlotAct → Option SlotSys
  | .accept l csd =>
      if l < 2 ∧ s.listen l = .accept ∧ s.owner csd = .closed then
        some ((s.setOwner csd (.listener l)).setListen l (.reap csd))
      else none
  | .listener l => if l < 2 then listenStep s l else none
  | .thread i ok => if i < sockSum then connStep s i ok else none
  | .ippClose sock => if s.owner sock = .ipp then some (s.setOwner sock .closed) else none

def slotMachine : Machine SlotSys SlotAct := ⟨slotStart, slotStep⟩

/-! ## The property -/

/-- The thread is alive and has not released its slot. -/
def ConnPc.serving : ConnPc → Bool
  | .fdopen | .malloc | .serve | .fclose | .fcloseEarly | .release => true
  | _ => false

/-- The socket is still that of the thread. -/
def ConnPc.connected : ConnPc → Bool
  | .fdopen | .malloc | .serve | .fclose | .fcloseEarly => true
  | _ => false

structure SlotsOwned (s : SlotSys) : Prop where
  owner : ∀ i < sockSum, (s.usedsock i).flag = true →
    (s.thread i).pc.serving = true ∧ (s.usedsock i).num = (s.thread i).s
  single : ∀ i < sockSum, ∀ j < sockSum, (s.thread i).pc.connected = true →
    (s.thread j).pc.connected = true → (s.thread i).s = (s.thread j).s → i = j
  noRelease : ∀ i < sockSum, (s.usedsock i).flag = true → (s.usedsock i).needrelase = false
  deleted : ∀ pc ∈ s.deleted, pc = .exiting ∨ pc = .exited
  cleared : ∀ c ∈ s.cleared, c.2 = some c.1
  users : s.httpUsers = countAt USock.flag s.usedsock sockSum

/-- There is memory for a connection; the slot that a listener takes has no thread that is still to
be deleted; and a thread that ends finds its own slot first under the number of its socket. -/
def SlotOk (s : SlotSys) : SlotAct → Prop
  | .listener l =>
      match s.listen l with
      | .allocate _ => ∀ i ∈ s.freeSlot, (s.usedsock i).needrelase = false
      | _ => True
  | .thread i ok =>
      match (s.thread i).pc with
      | .malloc => ok = true
      | .release => s.findNum (s.thread i).s = some i
      | _ => True
  | _ => True

instance (s : SlotSys) (a : SlotAct) : Decidable (SlotOk s a) := by
  unfold SlotOk
  split
  · split <;> infer_instance
  · split <;> infer_instance
  · infer_instance

end PrintServer.Http
