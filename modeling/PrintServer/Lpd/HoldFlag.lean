import Mathlib.Logic.Function.Basic
import PrintServer.Lib.Machine

/-!
# The hold flag of lpd.c

`lpdstart` with `CheckServiceMode`, and its receive tasks, as far as they touch `UnixHold`,
`LPRTaskInUse` and their sockets.  What the network, the memory and the port answer is the choice
of a label.  `PrnSetUnixHold` and `PrnSetUnixHoldAbort` are a load and a store;
`PrnSetUnixUnHold` stores 0 whatever it loads.
-/

namespace PrintServer.Lpd

open Lib

def lprTask : Nat := 2
def unixHolded : UInt8 := 0x01
def unixHoldAbort : UInt8 := 0x02

/-- `abort_job` as far as `UnixHold` is concerned. -/
inductive AbortPc
  | readHold
  | load
  | store (unixHold : UInt8)
deriving DecidableEq

/-- The statements of `receive_job`; `numOfFile` counts the data files. -/
inductive TaskPc
  | none
  | command (numOfFile : Nat)
  | abortJob (numOfFile : Nat) (pc : AbortPc)
  | holdTest
  | holdAbortTest
  | abortTest (numOfFile : Nat)
  | unHold
  | receive (numOfFile : Nat)
  | setNoUse
  | fclose
  | findSlot
  | clearFlag (i : Nat)
  | setNeedRelease (i : Nat)
  | exited
deriving DecidableEq

/-- `LPRTaskInUse[i]`, with the thread of the slot and the socket it was given. -/
structure Slot where
  num : Nat
  flag : Bool
  needRelease : Bool
  task : TaskPc
  remote : Nat
deriving DecidableEq

inductive ListenerPc
  | accept
  | checkServiceMode (s : Nat)
  | loadHold (s : Nat)
  | storeHold (s : Nat) (unixHold : UInt8)
  | abortJob (s : Nat) (pc : AbortPc)
  | availmem (s : Nat)
  | deleteTasks (s i : Nat)
  | findFree (s i : Nat)
deriving DecidableEq

structure HoldSys where
  unixHold : UInt8
  slot : Nat → Slot
  openSockets : List Nat
  listener : ListenerPc

def holdStart : HoldSys :=
  { unixHold := 0, slot := fun _ ↦ ⟨0, false, false, .none, 0⟩, openSockets := [],
    listener := .accept }

namespace HoldSys

def holded (s : HoldSys) : Bool := s.unixHold &&& unixHolded ≠ 0
def holdAbort (s : HoldSys) : Bool := s.unixHold &&& unixHoldAbort ≠ 0

def setSlot (s : HoldSys) (i : Nat) (x : Slot) : HoldSys :=
  { s with slot := Function.update s.slot i x }

def setTask (s : HoldSys) (i : Nat) (pc : TaskPc) : HoldSys :=
  s.setSlot i { s.slot i with task := pc }

def close (s : HoldSys) (sock : Nat) : HoldSys :=
  { s with openSockets := s.openSockets.erase sock }

end HoldSys

/-- One statement of `abort_job`: the state, and the next statement unless it has returned. -/
def abortStep (s : HoldSys) : AbortPc → HoldSys × Option AbortPc
  | .readHold => (s, if s.holded then some .load else none)
  | .load => (s, some (.store s.unixHold))
  | .store v => ({ s with unixHold := v ||| unixHoldAbort }, none)

inductive ListenerChoice
  | go
  | accepted (s : Nat)
  | refuse
  | receiveCommand
  | queueCommand
  | removeCommand
  | lowMemory (b : Bool)
deriving DecidableEq

def listenerStep (s : HoldSys) : ListenerPc → ListenerChoice → Option HoldSys
  | .accept, .accepted sock =>
      if sock ∉ s.openSockets then
        some { s with openSockets := sock :: s.openSockets, listener := .checkServiceMode sock }
      else none
  | .checkServiceMode sock, .refuse => some { s.close sock with listener := .accept }
  | .checkServiceMode sock, .queueCommand => some { s.close sock with listener := .accept }
  | .checkServiceMode sock, .removeCommand => some { s with listener := .abortJob sock .readHold }
  | .checkServiceMode sock, .receiveCommand =>
      if s.holded then some { s.close sock with listener := .accept }
      else some { s with listener := .loadHold sock }
  | .loadHold sock, .go => some { s with listener := .storeHold sock s.unixHold }
  | .storeHold sock v, .go =>
      some { s with unixHold := v ||| unixHolded, listener := .availmem sock }
  | .abortJob sock pc, .go =>
      match abortStep s pc with
      | (s, some pc) => some { s with listener := .abortJob sock pc }
      | (s, none) => some { s.close sock with listener := .accept }
  -- for low memory the connection is closed, and the flag stays set
  | .availmem sock, .lowMemory b =>
      if b then some { s.close sock with listener := .accept }
      else some { s with listener := .deleteTasks sock 0 }
  -- `cyg_thread_delete` stops the thread wherever it is
  | .deleteTasks sock i, .go =>
      if i < lprTask then
        let s := if (s.slot i).needRelease then
          s.setSlot i { s.slot i with needRelease := false, task := .none } else s
        some { s with listener := .deleteTasks sock (i + 1) }
      else some { s with listener := .findFree sock 0 }
  | .findFree sock i, .go =>
      if i < lprTask then
        if (s.slot i).flag then some { s with listener := .findFree sock (i + 1) }
        else
          some { s.setSlot i { s.slot i with
              num := sock, flag := true, task := .command 0, remote := sock } with
            listener := .accept }
      -- no slot is free: the connection is left alone
      else some { s with listener := .accept }
  | _, _ => none

inductive TaskChoice
  | go
  | disconnect
  | controlFile
  | abortCommand
  | dataFile
  | portFree (b : Bool)
  | received (ok : Bool)
deriving DecidableEq

/-- The first slot with the socket number, in the loop at the end of `receive_job`. -/
def findSlot (s : HoldSys) (num : Nat) : Option Nat :=
  (List.range lprTask).find? fun i ↦ (s.slot i).num = num

/-- One statement of the task in slot `t`. -/
def taskStep (s : HoldSys) (t : Nat) : TaskPc → TaskChoice → Option HoldSys
  -- a disconnect, or a control file that cannot be received
  | .command _, .disconnect => some (s.setTask t .setNoUse)
  | .command n, .controlFile => some (s.setTask t (.command n))
  | .command n, .abortCommand => some (s.setTask t (.abortJob n .readHold))
  | .command n, .dataFile => some (s.setTask t (if n = 0 then .holdTest else .abortTest n))
  | .abortJob n pc, .go =>
      match abortStep s pc with
      | (s, some pc) => some (s.setTask t (.abortJob n pc))
      | (s, none) => some (s.setTask t (.command n))
  -- under the scheduler lock: `hold_job` takes the port and clears the flag
  | .holdTest, .portFree b =>
      if b then some { s.setTask t (.abortTest 0) with unixHold := 0 }
      else some (s.setTask t .holdAbortTest)
  -- locked again, with the test of the abort flag before the next turn of the loop
  | .holdAbortTest, .portFree b =>
      if s.holdAbort then some (s.setTask t (.abortTest 0))
      else if b then some { s.setTask t (.abortTest 0) with unixHold := 0 }
      else some (s.setTask t .holdAbortTest)
  | .abortTest n, .go => some (s.setTask t (if s.holdAbort then .unHold else .receive n))
  | .unHold, .go => some { s.setTask t .setNoUse with unixHold := 0 }
  | .receive n, .received ok => some (s.setTask t (if ok then .command (n + 1) else .setNoUse))
  | .setNoUse, .go => some (s.setTask t .fclose)
  | .fclose, .go => some ((s.close (s.slot t).remote).setTask t .findSlot)
  | .findSlot, .go =>
      match findSlot s (s.slot t).remote with
      | some i =>
          some ((s.setSlot i { s.slot i with num := 0 }).setTask t (.clearFlag i))
      | none => some (s.setTask t .exited)
  | .clearFlag i, .go =>
      some ((s.setSlot i { s.slot i with flag := false }).setTask t (.setNeedRelease i))
  | .setNeedRelease i, .go =>
      some ((s.setSlot i { s.slot i with needRelease := true }).setTask t .exited)
  | _, _ => none

inductive HoldAct
  | listener (c : ListenerChoice)
  | task (t : Nat) (c : TaskChoice)
deriving DecidableEq

def holdStep (s : HoldSys) : HoldAct → Option HoldSys
  | .listener c => listenerStep s s.listener c
  | .task t c => if t < lprTask then taskStep s t (s.slot t).task c else none

def holdMachine : Machine HoldSys HoldAct := ⟨holdStart, holdStep⟩

/-! ## The property -/

/-- A live task that has not yet left `hold_job`. -/
def TaskPc.holding : TaskPc → Bool
  | .command n | .abortJob n _ => n = 0
  | .holdTest | .holdAbortTest => true
  | _ => false

/-- `lpdstart` between `CheckServiceMode` and the start of the task. -/
def ListenerPc.starting : ListenerPc → Bool
  | .availmem _ | .deleteTasks _ _ | .findFree _ _ => true
  | _ => false

def HoldFlagOwned (s : HoldSys) : Prop :=
  s.holded = true → s.listener.starting = true ∨ ∃ t < lprTask, (s.slot t).task.holding = true

/-- The store of `abort_job` writes the hold bit back only while it is still set. -/
def AbortPc.Fresh (s : HoldSys) : AbortPc → Prop
  | .store v => v &&& unixHolded ≠ 0 → s.holded = true
  | _ => True

def ListenerOk (s : HoldSys) : ListenerPc → ListenerChoice → Prop
  | .availmem _, .lowMemory b => b = false
  | .findFree _ i, .go => i < lprTask ∧ ((s.slot i).flag = false → (s.slot i).task = .none)
  | .abortJob _ a, .go => a.Fresh s
  | _, _ => True

def TaskOk (s : HoldSys) (t : Nat) : TaskPc → TaskChoice → Prop
  | .command n, .disconnect => n ≠ 0
  | .holdAbortTest, .portFree _ => s.holdAbort = false
  | .findSlot, .go => findSlot s (s.slot t).remote = some t
  | .abortJob _ a, .go => a.Fresh s
  | _, _ => True

/-- The branches of the listener and the tasks that lose the flag are not taken: a connection is
refused for low memory or finds no free slot; a slot is taken whose old task is not deleted yet; a
client leaves before its first data file; a hold is aborted; a task frees the slot of another one
that has its socket number; and `abort_job` writes `UnixHolded` back after it was cleared. -/
def HoldOk (s : HoldSys) : HoldAct → Prop
  | .listener c => ListenerOk s s.listener c
  | .task t c => TaskOk s t (s.slot t).task c

instance (s : HoldSys) (a : AbortPc) : Decidable (a.Fresh s) := by
  cases a <;> unfold AbortPc.Fresh <;> infer_instance

instance (s : HoldSys) (pc : ListenerPc) (c : ListenerChoice) : Decidable (ListenerOk s pc c) := by
  cases pc <;> cases c <;> unfold ListenerOk <;> infer_instance

instance (s : HoldSys) (t : Nat) (pc : TaskPc) (c : TaskChoice) : Decidable (TaskOk s t pc c) := by
  cases pc <;> cases c <;> unfold TaskOk <;> infer_instance

instance (s : HoldSys) (a : HoldAct) : Decidable (HoldOk s a) := by
  cases a <;> unfold HoldOk <;> infer_instance

end PrintServer.Lpd
