import PrintServer.Lib.DoublyLinked
import PrintServer.Lib.Machine
import Mathlib.Logic.Function.Basic

/-!
# The AARP table

The addresses of the nodes on the network are in ten chains (aarp.c).  An entry is asked for with
the first datagram to its node and keeps the datagram meanwhile; its alarm frees it when no answer
has come or when it has not been used for a minute.  All that touches the table does so with the
interrupts off, so that one step is one datagram, one packet or one alarm.
-/

namespace PrintServer.Aarp

open Lib

def aarptabSize : Nat := 10

/-- `s_net` is in the order of the network. -/
structure AtAddr where
  net : UInt16
  node : UInt8
deriving DecidableEq

/-- `AARPTAB_HASH` -/
def aarptabHash (a : AtAddr) : Nat := (a.net.toNat * 256 + a.node.toNat) % aarptabSize

abbrev HwAddr := Vector UInt8 6

inductive AtStatus
  | probing
  | reset
  | stable
deriving DecidableEq

/-- `at_iface`, and `MyPhysNodeAddress`. -/
structure AtIface where
  my : AtAddr
  status : AtStatus
  first : UInt16
  last : UInt16
  gate : AtAddr
  physNode : HwAddr

def ntohs (n : UInt16) : UInt16 := n <<< 8 ||| n >>> 8

namespace AtIface

variable (i : AtIface)

/-- `netrange` -/
def InRange (a : AtAddr) : Prop := i.first ≤ ntohs a.net ∧ ntohs a.net ≤ i.last

instance (a : AtAddr) : Decidable (i.InRange a) := inferInstanceAs (Decidable (_ ∧ _))

/-- What `at_gateway` makes of an address. -/
def atGateway (dest : AtAddr) : AtAddr :=
  if dest.net = 0 then dest
  else if i.InRange dest then dest
  else if i.gate.net ≠ 0 ∨ i.gate.node ≠ 0 then i.gate
  else dest

def atBroadcast (a : AtAddr) : Bool := a.node = 0xFF ∧ (a.net = 0 ∨ i.InRange a)

end AtIface

inductive AarpOp
  | request
  | response
  | probe
  | other (op : UInt16)
deriving DecidableEq

/-- `struct ether_aarp` -/
structure EtherAarp where
  op : AarpOp
  sha : HwAddr
  spa : AtAddr
  tpa : AtAddr

/-- `aat_timerAlarm`: without a handle, not enabled, or set. -/
inductive Alarm
  | none
  | disabled
  | enabled
deriving DecidableEq

inductive AarpState
  | pending
  | valid
deriving DecidableEq

/-- `struct aarptab`; datagrams are numbered as they come. -/
structure Entry where
  next : Nat
  prev : Nat
  alarm : Alarm
  pending : List Nat
  addr : AtAddr
  enaddr : HwAddr
  state : AarpState

/-- An entry behind `memset`. -/
def Entry.clear : Entry where
  next := 0
  prev := 0
  alarm := .none
  pending := []
  addr := ⟨0, 0⟩
  enaddr := Vector.replicate 6 0
  state := .pending

/-- The entries are numbered from 1 as they are allocated, and 0 is `NULL`. -/
structure State where
  aarptab : Nat → Nat
  entry : Nat → Entry
  entries : Nat
  freed : List Nat
  iface : AtIface
  /-- What `aarp_input` has let through to the table. -/
  input : Option EtherAarp
  datagrams : Nat
  sent : List Nat
  dropped : List Nat

namespace State

variable (s : State)

def setEntry (p : Nat) (e : Entry) : State := { s with entry := Function.update s.entry p e }

def send (bp : Nat) : State := { s with sent := s.sent ++ [bp] }

/-- `free_p` -/
def freeP (bp : Nat) : State := { s with dropped := s.dropped ++ [bp] }

/-- `free_q` on the datagrams of an entry. -/
def freeQ (p : Nat) : State :=
  { s.setEntry p { s.entry p with pending := [] } with
    dropped := s.dropped ++ (s.entry p).pending }

/-- `enqueue2` -/
def enqueue (p bp : Nat) : State :=
  s.setEntry p { s.entry p with pending := (s.entry p).pending ++ [bp] }

/-- `aarp_lookup`; a chain has no more nodes than there are entries. -/
def aarpLookup (addr : AtAddr) : Nat :=
  ((walk (fun p ↦ (s.entry p).next) 0 s.entries (s.aarptab (aarptabHash addr))).find?
    fun p ↦ (s.entry p).addr = addr).getD 0

/-- `aat->next->prev = aat->prev` -/
def unlinkNext (aat : Entry) : State :=
  if aat.next ≠ 0 then s.setEntry aat.next { s.entry aat.next with prev := aat.prev } else s

/-- `aat->prev->next = aat->next`, or the head of the chain. -/
def unlinkPrev (aat : Entry) : State :=
  if aat.prev ≠ 0 then s.setEntry aat.prev { s.entry aat.prev with next := aat.next }
  else { s with aarptab := Function.update s.aarptab (aarptabHash aat.addr) aat.next }

def unlink (p : Nat) : State := (s.unlinkNext (s.entry p)).unlinkPrev (s.entry p)

def aarptfree (p : Nat) : State :=
  if s.aarpLookup (s.entry p).addr ≠ p then s
  else
    let s := s.unlink p
    let s := s.setEntry p { s.entry p with alarm := .none }
    let s := s.freeQ p
    { s with freed := s.freed ++ [p] }

/-- The first half of `aarptadd`: a new entry in front of its chain. -/
def link (addr : AtAddr) : State :=
  let aat := s.entries + 1
  let next := s.aarptab (aarptabHash addr)
  let s := { s.setEntry aat { Entry.clear with next, addr } with
    aarptab := Function.update s.aarptab (aarptabHash addr) aat
    entries := aat }
  if next ≠ 0 then s.setEntry next { s.entry next with prev := aat } else s

/-- `aarp_update` without a hardware address. -/
def updatePending (p : Nat) : State :=
  s.setEntry p { s.entry p with state := .pending, alarm := .enabled }

/-- `aarpresolve`, and whether the datagram may go out; `mem` is for a new entry. -/
def aarpresolve (bp : Nat) (addr : AtAddr) (mem : Bool) : State × Bool :=
  if s.iface.atBroadcast addr then (s, true)
  else
    let aat := s.aarpLookup addr
    if aat = 0 then
      if mem then
        let s := (s.link addr).updatePending (s.entries + 1)
        (s.enqueue s.entries bp, false)
      else (s.freeP bp, false)
    else
      match (s.entry aat).state with
      | .valid =>
          if (s.entry aat).alarm = .enabled then (s, true)
          else ((s.freeQ aat).freeP bp, false)
      | .pending => ((s.freeQ aat).enqueue aat bp, false)

/-- `ddp_output` behind `at_gateway`. -/
def resolved (bp : Nat) (dest : AtAddr) (mem : Bool) : State :=
  let r := s.aarpresolve bp dest mem
  if r.2 then r.1.send bp else r.1

/-- `ddp_output` to an address of the caller; `frame` is the memory for the packet. -/
def ddpOutput (bp : Nat) (dest : AtAddr) (frame mem : Bool) : State :=
  if frame then s.resolved bp (s.iface.atGateway dest) mem else s.freeP bp

/-- `ddp_output` to the address in an entry, which `at_gateway` changes there. -/
def ddpOutputEntry (bp p : Nat) (frame mem : Bool) : State :=
  if frame then
    let addr := s.iface.atGateway (s.entry p).addr
    (s.setEntry p { s.entry p with addr }).resolved bp addr mem
  else s.freeP bp

/-- The loop of `aarp_update` over the datagrams of an entry, with the memory for each packet and
each entry. -/
def flush (p : Nat) (mem : Nat → Bool × Bool) : Nat → State → State
  | 0, s => s
  | n + 1, s =>
      match (s.entry p).pending with
      | [] => s
      | bp :: pending =>
          let s := s.setEntry p { s.entry p with pending }
          flush p (fun k ↦ mem (k + 1)) n (s.ddpOutputEntry bp p (mem 0).1 (mem 0).2)

/-- `aarp_update` with a hardware address. -/
def updateValid (p : Nat) (hwAddr : HwAddr) (mem : Nat → Bool × Bool) : State :=
  let s := s.setEntry p { s.entry p with state := .valid }
  let s :=
    match (s.entry p).alarm with
    | .enabled => s
    | .disabled => s.freeQ p
    | .none => s.setEntry p { s.entry p with alarm := .enabled }
  let s := s.setEntry p { s.entry p with enaddr := hwAddr }
  flush p mem (s.entry p).pending.length s

/-- The tests of `aarp_input` before the table is looked at. -/
def arrive (ea : EtherAarp) : State :=
  if ea.sha = s.iface.physNode ∨ (ea.sha[0] = 0xFF ∧ ea.sha[1] = 0xFF ∧ ea.sha[2] = 0xFF ∧
      ea.sha[3] = 0xFF) then s
  else if ea.spa = s.iface.my ∧ s.iface.status = .probing then
    { s with iface := { s.iface with status := .reset } }
  else if ea.spa = s.iface.my ∧ ea.op ≠ .probe then s
  else { s with input := some ea }

/-- What `aarp_input` does to the table. -/
def aarpInput (ea : EtherAarp) (mem : Nat → Bool × Bool) : State :=
  let aat := s.aarpLookup ea.spa
  if aat ≠ 0 then
    if ea.op = .probe then
      (s.setEntry aat { s.entry aat with alarm := .disabled }).aarptfree aat
    else s.updateValid aat ea.sha mem
  else if ea.tpa = s.iface.my ∧ ea.op ≠ .probe ∧ (mem 0).2 then
    (s.link ea.spa).updateValid (s.entries + 1) ea.sha mem
  else s

end State

/-- A datagram to send, the two halves of `aarp_input`, an alarm, and what `zip_getnetinfo` and
`aarp_probe` write to `at_iface`. -/
inductive Act
  | ddpOutput (dest : AtAddr) (frame mem : Bool)
  | arrive (ea : EtherAarp)
  | aarpInput (mem : Nat → Bool × Bool)
  | alarm (p : Nat)
  | iface (i : AtIface)

def step (s : State) : Act → Option State
  | .ddpOutput dest frame mem =>
      some ({ s with datagrams := s.datagrams + 1 }.ddpOutput s.datagrams dest frame mem)
  | .arrive ea => if s.input.isNone then some (s.arrive ea) else none
  | .aarpInput mem =>
      match s.input with
      | none => none
      | some ea => some ({ s with input := none }.aarpInput ea mem)
  | .alarm p =>
      -- an alarm without an interval is no longer enabled when its routine is called
      if (s.entry p).alarm = .enabled then
        some ((s.setEntry p { s.entry p with alarm := .disabled }).aarptfree p)
      else none
  | .iface i => some { s with iface := { i with physNode := s.iface.physNode } }

def start (i : AtIface) : State where
  aarptab _ := 0
  entry _ := Entry.clear
  entries := 0
  freed := []
  iface := i
  input := none
  datagrams := 0
  sent := []
  dropped := []

def aarp (i : AtIface) : Machine State Act := ⟨start i, step⟩

end PrintServer.Aarp
