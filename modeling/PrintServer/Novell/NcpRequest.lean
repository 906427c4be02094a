import PrintServer.Ipx.Sockets

/-!
# A request to a NetWare server

`NCPRequest` (nps3.c) sends a request and waits for its reply with `ReceivePsECB`, whose two
fragments are `ReceivePsIPXHeader` and `ReceivePsIPXData`.  `IPXInput` fills the ECB at any time.
-/

namespace PrintServer.Ncp

open Lib
open Ipx (ECB ECBFragment Layer Packet Ptr ipxCancelEvent ipxInput ipxListenForPacket nget16 okay
  receiving successful)

/-! ## Constants -/

def timeOut : UInt8 := 0xFF
def codeFree : UInt8 := 0x00
def ncpRequestType : UInt8 := 0x11
def ncpReply : UInt16 := 0x3333
def ncpAbortConnection : UInt16 := 0x5555
def ncpFileServerBusy : UInt16 := 0x9999
def ncpStatusDisconnect : UInt8 := 0x01
def serverOk : UInt8 := 0x0
def serverBusy : UInt8 := 0x1
def serverAbort : UInt8 := 0x2
def serverListenNext : UInt8 := 0x3
def maxRetryCount : UInt8 := 4

/-- A second, in ticks. -/
def ncpRetryTime : UInt8 := 100

def sizeOfIPXHeader : Nat := 30
def sizeOfReceivePsIPXData : Nat := 1500

/-! ## The reply -/

/-- What `NCPRequest` uses of an `FSInfo`: the network, node and socket of the server are the 4, 6
and 2 octets of `networkNumber`. -/
structure FSInfo where
  networkNumber : Vector UInt8 12
  sequenceNumber : UInt8

/-- `ReceivePsIPXHeader` and `ReceivePsIPXData`. -/
structure Received where
  header : List UInt8
  data : List UInt8
deriving DecidableEq

namespace Received

variable (r : Received)

def packetType : UInt8 := r.header.getD 5 0
def node (i : Nat) : UInt8 := r.header.getD (22 + i) 0
def socket : UInt8 × UInt8 := (r.header.getD 28 0, r.header.getD 29 0)
def replyType : UInt16 := nget16 (r.data.getD 0 0, r.data.getD 1 0)
def sequenceNumber : UInt8 := r.data.getD 2 0
def completionCode : UInt8 := r.data.getD 6 0
def completionStatus : UInt8 := r.data.getD 7 0

/-- The code that `NCPRequest` takes from a reply. -/
def code : UInt8 :=
  if r.completionStatus ≠ successful ∧ r.completionStatus ≠ 0x40 then r.completionStatus
  else r.completionCode

end Received

/-- `CheckConnection`. -/
def checkConnection (fsInfo : FSInfo) (r : Received) : UInt8 :=
  let nodeMatch := ∀ i : Fin 6, r.node i = fsInfo.networkNumber[i.val + 4]
  if nodeMatch ∧ r.packetType = ncpRequestType ∧
      nget16 r.socket = nget16 (fsInfo.networkNumber[10], fsInfo.networkNumber[11]) then
    if r.replyType = ncpFileServerBusy then serverBusy
    else if r.replyType = ncpAbortConnection then serverAbort
    else if r.replyType = ncpReply ∧ r.sequenceNumber = fsInfo.sequenceNumber then serverOk
    else serverListenNext
  else serverListenNext

theorem checkConnection_serverOk {fsInfo : FSInfo} {r : Received}
    (h : checkConnection fsInfo r = serverOk) :
    (∀ i : Fin 6, r.node i = fsInfo.networkNumber[i.val + 4]) ∧ r.packetType = ncpRequestType ∧
      nget16 r.socket = nget16 (fsInfo.networkNumber[10], fsInfo.networkNumber[11]) ∧
      r.replyType = ncpReply ∧ r.sequenceNumber = fsInfo.sequenceNumber := by
  simp only [checkConnection] at h
  split at h
  · next hmatch =>
    split at h
    · cases h
    split at h
    · cases h
    split at h
    · next hreply => exact ⟨hmatch.1, hmatch.2.1, hmatch.2.2, hreply.1, hreply.2⟩
    · cases h
  · cases h

/-- What the two fragments of an ECB hold. -/
def received (x : ECB) : Received :=
  ⟨(x.fragments.map (·.address)).getD 0 none |>.getD [],
    (x.fragments.map (·.address)).getD 1 none |>.getD []⟩

/-! ## The request -/

/-- `listen` is the entry of `NCPRequest`, with what the buffers hold then; `judged` is behind
`CheckConnection`. -/
inductive NcpPc
  | listen (r : Received)
  | retry
  | send
  | checkInUseFlag
  | free
  | judged
  | again
  | count
  | finish
  | returned
deriving DecidableEq

/-- `packets` remembers the packets that filled the ECB since the call. -/
structure NcpCall where
  layer : Layer
  pc : NcpPc
  fsInfo : FSInfo
  ccode : UInt8
  retryCount : UInt8
  serverResponse : UInt8
  waitResponseTime : UInt8
  packets : List Packet

/-- `elapsed` is what `CheckInUseFlag` reads of the clock, `sending` the `inUseFlag` of `SendPsECB`
after `IPXSendPacket`. -/
inductive NcpAct
  | input (p : Packet)
  | thread (elapsed : Nat) (sending : Bool)

/-- `ListenPsECB`. -/
def listenPsECB (s : Layer) (receivePsECB : Ptr) (sockNumber : UInt16) (r : Received)
    (receiveSize : Nat) : Layer :=
  ipxListenForPacket
    (s.setECB receivePsECB { s.ecb receivePsECB with
      inUseFlag := okay
      socketNumber := sockNumber
      fragments := [⟨some r.header, sizeOfIPXHeader, 0⟩, ⟨some r.data, receiveSize, 0⟩] })
    receivePsECB

/-- The switch on the answer of `CheckConnection`. -/
def switchResponse (receivePsECB : Ptr) (s : NcpCall) : NcpCall :=
  if s.serverResponse = serverOk then
    { s with ccode := (received (s.layer.ecb receivePsECB)).code, pc := .again }
  else if s.serverResponse = serverBusy then
    { s with
      retryCount := if s.retryCount ≠ 0 then s.retryCount - 1 else s.retryCount
      waitResponseTime := s.waitResponseTime + 1
      serverResponse := serverListenNext
      layer := ipxListenForPacket s.layer receivePsECB
      pc := .again }
  else if s.serverResponse = serverListenNext then
    { s with layer := ipxListenForPacket s.layer receivePsECB, pc := .again }
  else if s.serverResponse = serverAbort then
    { s with ccode := ncpStatusDisconnect, pc := .again }
  else { s with pc := .again }

/-- A step of the thread in `NCPRequest`. -/
def ncpStep (receivePsECB : Ptr) (socket : UInt16) (s : NcpCall) (elapsed : Nat) (sending : Bool) :
    Option NcpCall :=
  match s.pc with
  | .listen r =>
      some { s with
        layer := listenPsECB s.layer receivePsECB socket r sizeOfReceivePsIPXData
        retryCount := 0
        serverResponse := timeOut
        pc := .retry }
  | .retry =>
      some { s with
        pc := if s.serverResponse = timeOut ∧ s.retryCount < maxRetryCount then .send else .finish }
  | .send => some { s with pc := if sending then .send else .checkInUseFlag }
  | .checkInUseFlag =>
      if (s.layer.ecb receivePsECB).inUseFlag = 0 then
        some { s with serverResponse := codeFree, pc := .free }
      else if elapsed > s.waitResponseTime.toNat then
        some { s with serverResponse := timeOut, ccode := timeOut, pc := .count }
      else some s
  | .free =>
      if (s.layer.ecb receivePsECB).completionCode = successful then
        some { s with
          serverResponse := checkConnection s.fsInfo (received (s.layer.ecb receivePsECB))
          pc := .judged }
      else some { s with ccode := timeOut, pc := .count }
  | .judged => some (switchResponse receivePsECB s)
  | .again =>
      some { s with pc := if s.serverResponse = serverListenNext then .checkInUseFlag else .count }
  | .count => some { s with retryCount := s.retryCount + 1, pc := .retry }
  | .finish =>
      some { s with
        layer := if s.ccode = timeOut then (ipxCancelEvent s.layer receivePsECB).1 else s.layer
        fsInfo := { s.fsInfo with sequenceNumber := s.fsInfo.sequenceNumber + 1 }
        pc := .returned }
  | .returned => none

/-- `IPXInput` runs. -/
def NcpCall.input (receivePsECB : Ptr) (s : NcpCall) (p : Packet) : NcpCall :=
  let layer := ipxInput s.layer p
  { s with
    layer
    packets :=
      if s.layer.outstanding receivePsECB ∧ ¬layer.outstanding receivePsECB then s.packets ++ [p]
      else s.packets }

def ncpActStep (receivePsECB : Ptr) (socket : UInt16) (s : NcpCall) : NcpAct → Option NcpCall
  | .input p => some (s.input receivePsECB p)
  | .thread elapsed sending => ncpStep receivePsECB socket s elapsed sending

def ncpCalled (layer : Layer) (fsInfo : FSInfo) (r : Received) : NcpCall where
  layer
  pc := .listen r
  fsInfo
  ccode := okay
  retryCount := 0
  serverResponse := timeOut
  waitResponseTime := ncpRetryTime
  packets := []

def ncpMachine (receivePsECB : Ptr) (socket : UInt16) (layer : Layer) (fsInfo : FSInfo)
    (r : Received) : Machine NcpCall NcpAct :=
  ⟨ncpCalled layer fsInfo r, ncpActStep receivePsECB socket⟩

end PrintServer.Ncp
