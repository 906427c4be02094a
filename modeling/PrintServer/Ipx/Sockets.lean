import Mathlib.Logic.Function.Basic
import PrintServer.Lib.LinkedList
import PrintServer.Lib.Machine

/-!
# The socket table of ipx.c

`IPXOpenSocket`, `IPXListenForPacket`, `IPXInput` and `IPXCancelEvent` over the table of sockets
and the ECBs that their callers own.  An ECB is named by its address and 0 is NULL.  Numbers are
as the code holds them (`high-low`: the first byte on the wire is the low one).
-/

namespace PrintServer.Ipx

open Lib

def socketTableLength : Nat := 15
def shortLived : UInt8 := 0x00
def anyNumber : UInt16 := 0x0000
def okay : UInt8 := 0x00
def receiving : UInt8 := 0xFE
def successful : UInt8 := 0x00
def socketNotOpen : UInt8 := 0xFF
def socketTableFull : UInt8 := 0xFE
def socketAlreadyOpen : UInt8 := 0xFF

/-- `NGET16`: two bytes as they lie in memory. -/
def nget16 (b : UInt8 × UInt8) : UInt16 := UInt16.ofNat (b.1.toNat + 256 * b.2.toNat)

/-- `WordSwap`. -/
def wordSwap (n : UInt16) : UInt16 := UInt16.ofNat (n.toNat % 256 * 256 + n.toNat / 256)

abbrev Ptr := Nat

/-- `ECBFragment`; `none` is a NULL address. -/
structure ECBFragment where
  address : Option (List UInt8)
  size : Nat
  recvSize : Nat
deriving DecidableEq

/-- `ECB`, with the `fragmentCount` descriptors in use. -/
structure ECB where
  linkAddress : Ptr
  inUseFlag : UInt8
  completionCode : UInt8
  socketNumber : UInt16
  frameType : UInt16
  immediateAddress : List UInt8
  fragments : List ECBFragment
deriving DecidableEq

/-- `SocketNumberTable`. -/
structure Socket where
  socketNumber : UInt16
  socketType : UInt8
  ecbLinkList : Ptr
deriving DecidableEq

/-- The entries in front of `socketTablePointer` and the ECBs.  `listened` remembers which ECBs
were neither filled nor cancelled since their last listen; no operation reads it. -/
structure Layer where
  socketTable : List Socket
  startSocket : UInt16
  ecb : Ptr → ECB
  listened : Ptr → Bool

/-- `IPXInitialize`; the ECBs are as their owners left them. -/
def ipxInitialize (ecb : Ptr → ECB) : Layer :=
  { socketTable := [], startSocket := 0x4000, ecb := ecb, listened := fun _ ↦ false }

namespace Layer

variable (s : Layer)

def numbers : List UInt16 := s.socketTable.map (·.socketNumber)

def setECB (e : Ptr) (x : ECB) : Layer := { s with ecb := Function.update s.ecb e x }

def setListened (e : Ptr) (b : Bool) : Layer :=
  { s with listened := Function.update s.listened e b }

/-- Neither completed nor cancelled since its last listen. -/
def outstanding (e : Ptr) : Prop := (s.ecb e).inUseFlag = receiving ∧ s.listened e = true

instance (e : Ptr) : Decidable (s.outstanding e) := inferInstanceAs (Decidable (_ ∧ _))

end Layer

/-! ## Opening a socket -/

/-- The search for a free number: the scan looks at the entries from `i` on, and one that has the
number sends it on with the next number.  `i = 0` in the body is followed by `i++` in the head of
the loop, so that every scan but the first begins behind entry 0. -/
def freeNumber (numbers : List UInt16) : Nat → UInt16 → Nat → Option UInt16
  | 0, _, _ => none
  | fuel + 1, start, i =>
      if wordSwap start ∈ numbers.drop i then freeNumber numbers fuel (start + 1) 1
      else some start

/-- What `IPXOpenSocket` returns and leaves in the two bytes of the caller. -/
structure Opened where
  ccode : UInt8
  socketNumber : UInt8 × UInt8
deriving DecidableEq

/-- Each restart of the search passes a number of the table by, so that one more than there are
entries is enough fuel (`freeNumber_isSome`). -/
def ipxOpenSocket (s : Layer) (socketNumber : UInt8 × UInt8) (socketType : UInt8) :
    Option (Layer × Opened) :=
  if s.socketTable.length ≥ socketTableLength then
    some (s, ⟨socketTableFull, socketNumber⟩)
  else if nget16 socketNumber = anyNumber then
    (freeNumber s.numbers (s.socketTable.length + 1) s.startSocket 0).map fun start ↦
      -- `*socketNumber` is a byte: the second one keeps what the caller had there
      ({ s with startSocket := start
                socketTable := s.socketTable ++ [⟨wordSwap start, shortLived, 0⟩] },
        ⟨successful, ((wordSwap start).toUInt8, socketNumber.2)⟩)
  else if nget16 socketNumber ∈ s.numbers then
    some (s, ⟨socketAlreadyOpen, socketNumber⟩)
  else
    some ({ s with socketTable := s.socketTable ++ [⟨nget16 socketNumber, socketType, 0⟩] },
      ⟨successful, socketNumber⟩)

/-! ## Listening, cancelling and receiving -/

/-- The first entry with a number becomes `f` of it. -/
def updateSocket (n : UInt16) (f : Socket → Socket) : List Socket → List Socket
  | [] => []
  | k :: ks => if k.socketNumber = n then f k :: ks else k :: updateSocket n f ks

def lookup (n : UInt16) (table : List Socket) : Option Socket :=
  table.find? (·.socketNumber = n)

def ipxListenForPacket (s : Layer) (e : Ptr) : Layer :=
  let listenECB := s.ecb e
  let found :=
    if s.socketTable.length < socketTableLength then lookup listenECB.socketNumber s.socketTable
    else none
  match found with
  | none => (s.setECB e { listenECB with completionCode := socketNotOpen }).setListened e true
  | some k =>
      if listenECB.inUseFlag = receiving then s.setListened e true
      else
        { s with
          socketTable :=
            updateSocket listenECB.socketNumber (fun k ↦ { k with ecbLinkList := e }) s.socketTable
          ecb := Function.update s.ecb e
            { listenECB with linkAddress := k.ecbLinkList, inUseFlag := receiving }
          listened := Function.update s.listened e true }

def ipxCancelEvent (s : Layer) (e : Ptr) : Layer × UInt8 :=
  let listenECB := s.ecb e
  match lookup listenECB.socketNumber s.socketTable with
  | none => (s.setListened e false, socketNotOpen)
  | some _ =>
      ({ s with
          socketTable := updateSocket listenECB.socketNumber
            (fun k ↦ { k with ecbLinkList := listenECB.linkAddress }) s.socketTable
          listened := Function.update s.listened e false },
        successful)

/-- The copy loop of `IPXInput` over the fragments, `data` being what is left of the packet. -/
def fillFragments : List ECBFragment → List UInt8 → List ECBFragment
  | [], _ => []
  | f :: fs, [] => f :: fs
  | f :: fs, data =>
      match f.address with
      | some buffer =>
          if f.size ≠ 0 then
            let copyLen := min data.length f.size
            { f with address := some (data.take copyLen ++ buffer.drop copyLen)
                     recvSize := copyLen } :: fillFragments fs (data.drop f.size)
          else f :: fillFragments fs data
      | none => f :: fillFragments fs data

structure Packet where
  frameType : UInt16
  srcAddress : List UInt8
  destination : UInt8 × UInt8
  data : List UInt8
deriving DecidableEq

def ECB.fill (x : ECB) (p : Packet) : ECB :=
  { x with immediateAddress := p.srcAddress
           fragments := fillFragments x.fragments p.data
           inUseFlag := okay
           completionCode := okay
           frameType := p.frameType }

/-- `IPXInput`.  The service routine of the ECB runs when the list and the ECB are done: what it
calls comes as the operations behind this one. -/
def ipxInput (s : Layer) (p : Packet) : Layer :=
  match lookup (nget16 p.destination) s.socketTable with
  | none => s
  | some k =>
      if k.ecbLinkList = 0 then s
      else
        let e := k.ecbLinkList
        let s' := { s with
          socketTable := updateSocket (nget16 p.destination)
            (fun k ↦ { k with ecbLinkList := (s.ecb e).linkAddress }) s.socketTable }
        if (s.ecb e).inUseFlag = receiving then
          (s'.setECB e ((s.ecb e).fill p)).setListened e false
        else s'

/-! ## Runs -/

/-- `setup` and `reset` are what the owner of an ECB writes before it listens. -/
inductive Op
  | openSocket (socketNumber : UInt8 × UInt8) (socketType : UInt8)
  | setup (e : Ptr) (socketNumber : UInt16) (fragments : List ECBFragment)
  | reset (e : Ptr)
  | listen (e : Ptr)
  | cancel (e : Ptr)
  | input (p : Packet)
deriving DecidableEq

/-- An ECB is reused (written by its owner, or listened with) only when it is not outstanding. -/
def step (s : Layer) : Op → Option Layer
  | .openSocket n t => (ipxOpenSocket s n t).map (·.1)
  | .setup e n fs =>
      if e ≠ 0 ∧ ¬s.outstanding e then
        some (s.setECB e { s.ecb e with socketNumber := n, fragments := fs })
      else none
  | .reset e =>
      if e ≠ 0 ∧ ¬s.outstanding e then some (s.setECB e { s.ecb e with inUseFlag := okay })
      else none
  | .listen e => if e ≠ 0 ∧ ¬s.outstanding e then some (ipxListenForPacket s e) else none
  | .cancel e => if e ≠ 0 then some (ipxCancelEvent s e).1 else none
  | .input p => some (ipxInput s p)

def sockets (ecb : Ptr → ECB) : Machine Layer Op := ⟨ipxInitialize ecb, step⟩

end PrintServer.Ipx
