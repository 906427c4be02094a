import Mathlib.Logic.Function.Basic
import PrintServer.Lib.Machine

/-!
# Datagrams of AppleTalk sockets

`ddp_input` (ddp.c) puts each datagram on the queue of the control block of its port, with the
socket of its sender in front, and posts the semaphore of the socket.  `so_ddp_recv` (ddpsock.c)
takes it from there.  A buffer (`ambuf`) is the list of its octets.
-/

namespace PrintServer.Atalk

open Lib

def amBufSize : Nat := 2000
def sizeofDdpehdr : Nat := 12
def sizeofAtSocket : Nat := 4
def ataddrBcast : UInt8 := 0xFF

/-! ## Buffers -/

/-- What `pullup2` returns, hands out and leaves; `none` is a buffer that was freed. -/
structure PullUp where
  n : Nat
  taken : List UInt8
  bp : Option (List UInt8)

def pullup2 (bp : List UInt8) (cnt : Nat) : PullUp :=
  if cnt = 0 then ⟨0, [], some bp⟩
  else if cnt > amBufSize ∨ bp.length > amBufSize then ⟨0, [], some bp⟩
  else
    let n := min cnt bp.length
    ⟨n, bp.take n, if bp.length - n = 0 then none else some (bp.drop n)⟩

/-- `pushdown2`: what it returns and leaves.  It reads the count of the buffer before it asks whether
there is one: `none` is a read through NULL. -/
def pushdown2 (bp : Option (List UInt8)) (buf : List UInt8) : Option (Nat × Option (List UInt8)) :=
  if buf.length = 0 ∨ buf.length > amBufSize then some (1, bp)
  else
    match bp with
    | none => none
    | some b =>
        if b.length > amBufSize ∨ b.length + buf.length > amBufSize then some (1, some b)
        else some (0, some (buf ++ b))

/-- `trim_mbuf2`: `none` is a return of -1, with the buffer freed. -/
def trimMbuf2 (bp : List UInt8) (length : Nat) : Option (List UInt8) :=
  if length = 0 ∨ length > amBufSize then none else some (bp.take length)

/-! ## Sockets -/

/-- `at_socket`, with the octets of the network as they lie in memory. -/
structure AtSocket where
  net₀ : UInt8
  net₁ : UInt8
  node : UInt8
  port : UInt8
deriving DecidableEq

def AtSocket.octets (a : AtSocket) : List UInt8 := [a.net₀, a.net₁, a.node, a.port]

def AtSocket.ofOctets (l : List UInt8) : AtSocket :=
  ⟨l.getD 0 0, l.getD 1 0, l.getD 2 0, l.getD 3 0⟩

structure Datagram where
  sender : AtSocket
  data : List UInt8
deriving DecidableEq

inductive RcvMode
  | block
  | noblock
  | timeout
deriving DecidableEq

/-- Where the thread of a socket is in `so_ddp_recv`. -/
inductive Reader
  | idle
  | count
  | dequeue
  | empty
  | wait
  | waiting
deriving DecidableEq

/-- `ddp_cb`, with the semaphore, the mode and the thread of its `usock`. -/
structure DdpCb where
  atport : UInt8
  rcvq : List (List UInt8)
  rcvcnt : Int
  sem : Nat
  mode : RcvMode
  reader : Reader
deriving DecidableEq

/-- `cyg_semaphore_post` -/
def DdpCb.post (up : DdpCb) : DdpCb :=
  if up.reader = .waiting then { up with reader := .count } else { up with sem := up.sem + 1 }

def DdpCb.enqueue (up : DdpCb) (bp : List UInt8) : DdpCb :=
  { up with rcvcnt := up.rcvcnt + 1, rcvq := up.rcvq ++ [bp] }

/-- `ddp_lookup`: the control block, which goes to the head of the list, and the others. -/
def ddpLookup (atport : UInt8) : List DdpCb → Option (DdpCb × List DdpCb)
  | [] => none
  | up :: ups =>
      if atport = up.atport then some (up, ups)
      else (ddpLookup atport ups).map fun (found, others) ↦ (found, up :: others)

/-! ## Input -/

/-- The address of the interface, with the octets of its network as they lie in memory. -/
structure AtAddr where
  net₀ : UInt8
  net₁ : UInt8
  node : UInt8
deriving DecidableEq

section Header

variable (frame : List UInt8)

/-- `deh_len`, 10 bits -/
def dehLen : Nat := (frame.getD 0 0).toNat % 4 * 256 + (frame.getD 1 0).toNat

def dehDport : UInt8 := frame.getD 10 0

def dehSource : AtSocket :=
  ⟨frame.getD 6 0, frame.getD 7 0, frame.getD 9 0, frame.getD 11 0⟩

def atIsMyAddr (my : AtAddr) : Bool :=
  (my.node = frame.getD 8 0 ∨ frame.getD 8 0 = ataddrBcast) ∧
    ((frame.getD 4 0 = 0 ∧ frame.getD 5 0 = 0) ∨
      (frame.getD 4 0 = my.net₀ ∧ frame.getD 5 0 = my.net₁))

end Header

/-- `ddp_input`: `none` is a read through NULL. -/
def ddpInput (my : AtAddr) (ddps : List DdpCb) (frame : List UInt8) : Option (List DdpCb) :=
  if frame.length > amBufSize then some ddps
  else if frame.length < sizeofDdpehdr then some ddps
  else if ¬atIsMyAddr frame my then some ddps
  else if frame.length < dehLen frame then some ddps
  else
    match ddpLookup (dehDport frame) ddps with
    | none => some ddps
    | some (up, others) =>
        let trimmed :=
          if frame.length > dehLen frame then trimMbuf2 frame (dehLen frame) else some frame
        match trimmed with
        | none => some (up :: others)
        | some bp =>
            let pulled := pullup2 bp sizeofDdpehdr
            if pulled.n = 0 then some (up :: others)
            else
              match pushdown2 pulled.bp (dehSource frame).octets with
              | none => none
              | some (0, some bp) =>
                  some ((up.enqueue bp).post :: others)
              | some _ => some (up :: others)

/-! ## Receiving -/

/-- A step of `so_ddp_recv`, with the datagram it returns; `expired` is a wait that timed out, and
`none` a thread that does not move. -/
def recvStep (up : DdpCb) (expired : Bool) : Option (DdpCb × Option Datagram) :=
  match up.reader with
  | .idle => some ({ up with reader := .count }, none)
  | .count => some ({ up with reader := if up.rcvcnt = 0 then .empty else .dequeue }, none)
  | .dequeue =>
      match up.rcvq with
      | [] => some ({ up with reader := .empty }, none)
      | buf :: rcvq =>
          let up := { up with rcvcnt := up.rcvcnt - 1, rcvq }
          let pulled := pullup2 buf sizeofAtSocket
          if pulled.n = 0 then some ({ up with reader := .empty }, none)
          else
            match pulled.bp with
            | none => some ({ up with reader := .empty }, none)
            | some data =>
                some ({ up with reader := .idle }, some ⟨AtSocket.ofOctets pulled.taken, data⟩)
  | .empty =>
      if up.mode = .noblock then some ({ up with reader := .idle }, none)
      else some ({ up with sem := 0, reader := .wait }, none)
  | .wait =>
      if up.sem = 0 then some ({ up with reader := .waiting }, none)
      else some ({ up with sem := up.sem - 1, reader := .count }, none)
  | .waiting =>
      if up.mode = .timeout ∧ expired then some ({ up with reader := .idle }, none) else none

/-- The loop of `del_ddp` over the queue: `none` is a read through NULL. -/
def freeQueue : Nat → List (List UInt8) → Option (List (List UInt8))
  | 0, rcvq => some rcvq
  | _ + 1, [] => none
  | n + 1, _ :: rcvq => freeQueue n rcvq

/-! ## The machine -/

/-- `arrived` and `returned` remember, for each port since it was opened, the datagrams with data
that came for it and those that `so_ddp_recv` returned.  `wild` is a use of NULL or of memory that
was freed. -/
structure Ddp where
  my : AtAddr
  ddps : List DdpCb
  arrived : UInt8 → List Datagram
  returned : UInt8 → List Datagram
  wild : Bool

inductive DdpAct
  | address (my : AtAddr)
  | openDdp (atport : UInt8) (mode : RcvMode)
  | setsockopt (atport : UInt8) (mode : RcvMode)
  | input (frame : List UInt8)
  | recv (atport : UInt8) (expired : Bool)
  | delDdp (atport : UInt8)

/-- The datagram of a frame that is for this node and carries data. -/
def carried (my : AtAddr) (frame : List UInt8) : Option Datagram :=
  if sizeofDdpehdr ≤ frame.length ∧ frame.length ≤ amBufSize ∧ atIsMyAddr frame my ∧
      sizeofDdpehdr < dehLen frame ∧ dehLen frame ≤ frame.length then
    some ⟨dehSource frame, (frame.take (dehLen frame)).drop sizeofDdpehdr⟩
  else none

def addAt (f : UInt8 → List Datagram) (atport : UInt8) (d : Option Datagram) :
    UInt8 → List Datagram :=
  Function.update f atport (f atport ++ d.toList)

def ddpStep (s : Ddp) : DdpAct → Option Ddp
  | .address my => some { s with my }
  | .openDdp atport mode =>
      match ddpLookup atport s.ddps with
      | some (up, others) => some { s with ddps := up :: others }
      | none =>
          some { s with
            ddps := ⟨atport, [], 0, 0, mode, .idle⟩ :: s.ddps
            arrived := Function.update s.arrived atport []
            returned := Function.update s.returned atport [] }
  | .setsockopt atport mode =>
      some { s with
        ddps := s.ddps.map fun up ↦ if up.atport = atport then { up with mode } else up }
  | .input frame =>
      let arrived := addAt s.arrived (dehDport frame) (carried s.my frame)
      match ddpInput s.my s.ddps frame with
      | none => some { s with arrived, wild := true }
      | some ddps => some { s with arrived, ddps }
  | .recv atport expired =>
      match ddpLookup atport s.ddps with
      | none => none
      | some (up, _) =>
          (recvStep up expired).map fun (up', d) ↦
            { s with
              ddps := s.ddps.map fun cb ↦ if cb.atport = atport then up' else cb
              returned := addAt s.returned atport d }
  | .delDdp atport =>
      match ddpLookup atport s.ddps with
      | none => some s
      | some (up, others) =>
          -- the thread of the socket still uses what is freed here
          if up.reader ≠ .idle then some { s with ddps := others, wild := true }
          else
            match freeQueue up.rcvcnt.toNat up.rcvq with
            | none => some { s with wild := true }
            | some _ => some { s with ddps := others }

def ddpStart (my : AtAddr) : Ddp := ⟨my, [], fun _ ↦ [], fun _ ↦ [], false⟩

def ddpMachine (my : AtAddr) : Machine Ddp DdpAct := ⟨ddpStart my, ddpStep⟩

end PrintServer.Atalk
