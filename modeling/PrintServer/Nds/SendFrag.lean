import Mathlib.Algebra.Order.Ring.Int
import Mathlib.Data.List.Basic

/-!
# `NDSNCPSendFrag`

A request to the directory goes out in fragments and its reply comes back in fragments
(ndslogin.c).  A reply is what `NCPRequest` left in the receive buffer, of which the first
`received` octets came with the packet; the lengths in it are 32 bits wide, and `fragLen` has 16.
-/

namespace PrintServer.Nds

def maxDataSize : Nat := 522

def ndsRequesterError : Nat := 0x8800
def ndsBufferOverflow : Int := 0x880E
def ndsNcpPacketLength : Int := 0x8816
def ndsServerError : Nat := 0x8900
def ndsServerFailure : Int := 0x89FF

@[irreducible] def nget32 (b : List UInt8) (k : Nat) : Nat :=
  (b.getD k 0).toNat + 256 * (b.getD (k + 1) 0).toNat + 65536 * (b.getD (k + 2) 0).toNat +
    16777216 * (b.getD (k + 3) 0).toNat

def nset32 (n : Nat) : List UInt8 :=
  [UInt8.ofNat n, UInt8.ofNat (n / 256), UInt8.ofNat (n / 65536), UInt8.ofNat (n / 16777216)]

/-- What is left of a number in an `int16` and in an `int32`. -/
@[irreducible] def toInt16 (n : Int) : Int := n.bmod 65536

@[irreducible] def toInt32 (n : Int) : Int := n.bmod 4294967296

/-- A code of the server or of the requester in an error of NDS. -/
@[irreducible] def ndsError (group code : Nat) : Int := Int.ofNat (group ||| code)

/-- The receive buffer behind the header of the NCP reply. -/
structure Reply where
  data : List UInt8
  received : Nat
deriving DecidableEq

/-- What `NDSNCPRequest` returns. -/
inductive Answer
  | error (result : UInt8)
  | reply (r : Reply)
deriving DecidableEq

namespace Reply

variable (r : Reply)

/-- The first value of `fragLen`. -/
def fragLen : Int := toInt16 (nget32 r.data 0)

/-- The next `fraghnd`; `none` for -1. -/
def fraghnd : Option Nat := if nget32 r.data 4 = 0xFFFFFFFF then none else some (nget32 r.data 4)

def replyCode : Int := toInt32 (nget32 r.data 8)

end Reply

/-- A fragment of the request: `FragHand`, the `NCPSize` it is sent with, and what is behind
`FragHand`. -/
structure Fragment where
  fragHand : Option Nat
  ncpSize : Nat
  payload : List UInt8
deriving DecidableEq

/-- A copy to `outbuf`. -/
structure Copy where
  hdr : Nat
  len : Int
  received : Nat
deriving DecidableEq

/-- The parameters; `outbuf` and `outbuflen` are not `NULL`. -/
structure SendParams where
  verb : Nat
  request : List UInt8
  outbufsize : Nat
  outbufsize_lt : outbufsize < 2 ^ 15

structure SendState where
  first : Bool
  firstReply : Bool
  fraghnd : Option Nat
  inbuf : List UInt8
  replyLen : Int
  ndsReplyCode : Int
  outbuf : List UInt8
  sent : List Fragment
  copies : List Copy
deriving DecidableEq

/-- `done` has the result and `*outbuflen`; after a copy of a negative length nothing is left. -/
inductive SendStatus
  | waiting
  | wild
  | done (rc : Int) (outbuflen : Int)
deriving DecidableEq

def sendStart (p : SendParams) : SendState :=
  { first := true, firstReply := true, fraghnd := none, inbuf := p.request, replyLen := 0,
    ndsReplyCode := -399, outbuf := [], sent := [], copies := [] }

/-- The fields of the first fragment up to `NDSReqData`, with which the length of the request is
sent. -/
def verbHeader (p : SendParams) : List UInt8 :=
  nset32 (maxDataSize - 8) ++ nset32 (p.request.length + 12) ++ nset32 0 ++ nset32 p.verb ++
    nset32 p.outbufsize

/-- The first half of a turn of the loop: a fragment is sent.  The octets of a later one are moved to
the front, which they have left by then. -/
def sendFragment (p : SendParams) (s : SendState) : SendState :=
  let sizeleft := if s.first then maxDataSize - 25 else maxDataSize - 5
  let header := if s.first then verbHeader p else []
  let i := min sizeleft s.inbuf.length
  { s with
    first := false
    inbuf := s.inbuf.drop i
    sent := s.sent ++ [⟨s.fraghnd, 12 + header.length + i, header ++ s.inbuf.take i⟩] }

/-- Behind the loop. -/
def sendEnd (s : SendState) : SendStatus :=
  if s.inbuf ≠ [] ∨ s.firstReply then .done ndsServerFailure 0
  else if s.ndsReplyCode = 0 then .done 0 s.replyLen
  else if s.ndsReplyCode < 0 ∧ s.ndsReplyCode > -256 then
    .done (ndsError ndsServerError (- s.ndsReplyCode).toNat) s.replyLen
  else .done s.ndsReplyCode s.replyLen

/-- The turn of a reply without data: without more to send there must not be a next one. -/
def emptyTurn (s : SendState) : SendState × Option SendStatus :=
  (s, if s.fraghnd = none then some (sendEnd s)
    else if s.inbuf = [] then some (.done ndsServerFailure 0) else none)

/-- `fragLen` as it is tested, with the header that is passed over. -/
def Reply.copy (r : Reply) (firstReply : Bool) : Copy :=
  if firstReply then ⟨12, r.fragLen - 4 - 4, r.received⟩ else ⟨8, r.fragLen - 4, r.received⟩

def seeReply (s : SendState) (r : Reply) : SendState :=
  { s with
    firstReply := false
    ndsReplyCode := if s.firstReply then r.replyCode else s.ndsReplyCode }

def copyReply (s : SendState) (r : Reply) (c : Copy) : SendState :=
  { s with
    copies := s.copies ++ [c]
    outbuf := s.outbuf ++ (r.data.drop c.hdr).take c.len.toNat
    replyLen := toInt16 (s.replyLen + c.len) }

/-- The turn of a reply with data: the bound is the whole of `outbuf`, whatever is in it. -/
def dataTurn (p : SendParams) (s : SendState) (r : Reply) : SendState × Option SendStatus :=
  let c := r.copy s.firstReply
  let s := seeReply s r
  if c.len > p.outbufsize then (s, some (.done ndsBufferOverflow 0))
  else if c.len < 0 then (copyReply s r c, some .wild)
  else (copyReply s r c, if s.fraghnd = none then some (sendEnd (copyReply s r c)) else none)

/-- The second half of a turn, with a status where the loop is left. -/
def replyTurn (p : SendParams) (s : SendState) (r : Reply) : SendState × Option SendStatus :=
  if r.fragLen < 4 then (s, some (.done ndsNcpPacketLength 0))
  else if r.fragLen - 4 = 0 then emptyTurn { s with fraghnd := r.fraghnd }
  else dataTurn p { s with fraghnd := r.fraghnd } r

/-- The next turn, unless the loop is left. -/
def afterTurn (next : SendState → SendState × SendStatus) :
    SendState × Option SendStatus → SendState × SendStatus
  | (s, some status) => (s, status)
  | (s, none) => next s

/-- The loop, over what its requests get for an answer. -/
def sendFragLoop (p : SendParams) (s : SendState) : List Answer → SendState × SendStatus
  | [] => (sendFragment p s, .waiting)
  | .error result :: _ => (sendFragment p s, .done (ndsError ndsRequesterError result.toNat) 0)
  | .reply r :: answers =>
      afterTurn (sendFragLoop p · answers) (replyTurn p (sendFragment p s) r)

def sendFrag (p : SendParams) (answers : List Answer) : SendState × SendStatus :=
  sendFragLoop p (sendStart p) answers

end PrintServer.Nds
