import PrintServer.Novell.NcpSocket

/-!
# What a request returns

Short packets aside, a request returns OKAY only with the reply of its server in the buffers.
-/

namespace PrintServer.Ncp

open Lib
open Ipx (ECB Layer Packet Ptr SocketsOk ipxCancelEvent ipxInput ipxListenForPacket nget16 okay
  receiving successful)

variable {e : Ptr} {socket : UInt16} {fsInfo : FSInfo} {r : Received} {s t : NcpCall}

/-! ## What should hold -/

/-- A reply that was received on the socket since the call is in the buffers, and its code is
returned. -/
def Replied (e : Ptr) (socket : UInt16) (fsInfo : FSInfo) (s : NcpCall) : Prop :=
  ∃ p ∈ s.packets, nget16 p.destination = socket ∧ NcpReply fsInfo p ∧ s.ccode = replyCode p ∧
    (p.data.drop sizeOfIPXHeader).take sizeOfReceivePsIPXData <+:
      (received (s.layer.ecb e)).data

structure RightAnswer (e : Ptr) (socket : UInt16) (fsInfo : FSInfo) (s : NcpCall) : Prop where
  code : s.ccode = timeOut ∨ s.ccode = ncpStatusDisconnect ∨ Replied e socket fsInfo s
  okay : s.ccode = okay → ∃ p ∈ s.packets, nget16 p.destination = socket ∧ NcpReply fsInfo p ∧
    p.data.getD 36 0 = 0 ∧ (p.data.drop sizeOfIPXHeader).take sizeOfReceivePsIPXData <+:
      (received (s.layer.ecb e)).data
  unlisted : ∀ n xs, s.layer.Listed n xs → e ∉ xs
  sequence : s.fsInfo.sequenceNumber = fsInfo.sequenceNumber + 1

/-- A packet that ends in front of the completion status is not taken for the reply, with what the
buffers held before. -/
def NcpOk (e : Ptr) (s : NcpCall) : NcpAct → Prop
  | .input p =>
      s.layer.outstanding e → ¬(ipxInput s.layer p).outstanding e → p.data.length < 38 →
        checkConnection s.fsInfo (received ((ipxInput s.layer p).ecb e)) ≠ serverOk
  | .thread _ _ => True

instance (e : Ptr) (s : NcpCall) (a : NcpAct) : Decidable (NcpOk e s a) := by
  cases a <;> unfold NcpOk <;> infer_instance

/-! ## The invariant -/

structure During (e : Ptr) (socket : UInt16) (fsInfo : FSInfo) (s : NcpCall) : Prop where
  alone : Alone e socket s.layer
  buffers : ∃ r, Buffers (s.layer.ecb e) r
  called : s.fsInfo = fsInfo
  heard : ¬s.layer.outstanding e → ∃ p ∈ s.packets, nget16 p.destination = socket ∧
    ∃ r : Received, received (s.layer.ecb e) = r.filled p ∧
      (checkConnection fsInfo (received (s.layer.ecb e)) = serverOk → 38 ≤ p.data.length)

/-- The code is the one to be returned. -/
def Settled (e : Ptr) (socket : UInt16) (fsInfo : FSInfo) (s : NcpCall) : Prop :=
  s.ccode = timeOut ∨
    ¬s.layer.outstanding e ∧ (s.ccode = ncpStatusDisconnect ∨ Replied e socket fsInfo s)

/-- What is known at each place of the two loops. -/
def Stage (e : Ptr) (socket : UInt16) (fsInfo : FSInfo) (s : NcpCall) : NcpPc → Prop
  | .retry => s.serverResponse = timeOut ∧ s.retryCount = 0 ∨ Settled e socket fsInfo s
  | .free => ¬s.layer.outstanding e
  | .judged => ¬s.layer.outstanding e ∧
      s.serverResponse = checkConnection fsInfo (received (s.layer.ecb e))
  | .again => s.serverResponse = serverListenNext ∨ Settled e socket fsInfo s
  | .count => Settled e socket fsInfo s
  | .finish => Settled e socket fsInfo s
  | _ => True

def NcpInv (e : Ptr) (socket : UInt16) (fsInfo : FSInfo) (s : NcpCall) : Prop :=
  match s.pc with
  | .listen r => Ready e socket s.layer ∧ s.fsInfo = fsInfo ∧
      r.header.length = sizeOfIPXHeader ∧ r.data.length = sizeOfReceivePsIPXData
  | .returned => RightAnswer e socket fsInfo s ∧ SocketsOk s.layer ∧ ¬s.layer.outstanding e
  | pc => During e socket fsInfo s ∧ Stage e socket fsInfo s pc

/-! ## Packets -/

theorem packets_input {p : Packet} (hidle : ¬s.layer.outstanding e) :
    (s.input e p).packets = s.packets := if_neg fun h ↦ hidle h.1

theorem Replied.input {p : Packet} (hs : SocketsOk s.layer) (hidle : ¬s.layer.outstanding e)
    (hreplied : Replied e socket fsInfo s) : Replied e socket fsInfo (s.input e p) := by
  obtain ⟨q, hq, hdest, hreply, hcode, hdata⟩ := hreplied
  have hecb : (s.input e p).layer.ecb e = s.layer.ecb e := (untouched hs hidle p).1
  refine ⟨q, ?_, hdest, hreply, hcode, ?_⟩
  · rw [packets_input hidle]
    exact hq
  · rw [hecb]
    exact hdata

theorem Settled.input {p : Packet} (hs : SocketsOk s.layer) (hsettled : Settled e socket fsInfo s) :
    Settled e socket fsInfo (s.input e p) := by
  obtain htime | ⟨hidle, hdisconnect | hreplied⟩ := hsettled
  · exact Or.inl htime
  · exact Or.inr ⟨(untouched hs hidle p).2, Or.inl hdisconnect⟩
  · exact Or.inr ⟨(untouched hs hidle p).2, Or.inr (hreplied.input hs hidle)⟩

theorem Stage.input {p : Packet} {pc : NcpPc} (hs : SocketsOk s.layer)
    (hstage : Stage e socket fsInfo s pc) : Stage e socket fsInfo (s.input e p) pc := by
  cases pc with
  | retry =>
    obtain hfirst | hsettled := hstage
    · exact Or.inl hfirst
    · exact Or.inr (hsettled.input hs)
  | free => exact (untouched hs hstage p).2
  | judged =>
    obtain ⟨hidle, hresponse⟩ := hstage
    obtain ⟨hecb, hidle'⟩ := untouched hs hidle p
    refine ⟨hidle', ?_⟩
    show s.serverResponse = checkConnection fsInfo (received ((ipxInput s.layer p).ecb e))
    rw [hecb]
    exact hresponse
  | again =>
    obtain hnext | hsettled := hstage
    · exact Or.inl hnext
    · exact Or.inr (hsettled.input hs)
  | count => exact Settled.input hs hstage
  | finish => exact Settled.input hs hstage
  | _ => trivial

theorem During.input {p : Packet} (hs : During e socket fsInfo s) (hok : NcpOk e s (.input p)) :
    During e socket fsInfo (s.input e p) := by
  obtain ⟨halone, htouched⟩ := hs.alone.input p
  obtain ⟨r, hr⟩ := hs.buffers
  have hlayer : (s.input e p).layer = ipxInput s.layer p := rfl
  obtain ⟨hecb, hiff⟩ | ⟨hnow, hgone, hfill, hdest⟩ := htouched
  · constructor
    · exact halone
    · refine ⟨r, ?_⟩
      rw [hlayer, hecb]
      exact hr
    · exact hs.called
    · intro hidle
      have hidle' : ¬s.layer.outstanding e := fun h ↦ hidle (hiff.mpr h)
      rw [packets_input hidle', hlayer, hecb]
      exact hs.heard hidle'
  · -- the packet is in the buffers now
    have hbuffers := hr.fill p
    have hreceived : received ((ipxInput s.layer p).ecb e) = r.filled p := by
      rw [hfill]
      exact hbuffers.received
    constructor
    · exact halone
    · refine ⟨r.filled p, ?_⟩
      rw [hlayer, hfill]
      exact hbuffers
    · exact hs.called
    · intro _
      have hpackets : (s.input e p).packets = s.packets ++ [p] := if_pos ⟨hnow, hgone⟩
      refine ⟨p, ?_, hdest, r, hreceived, ?_⟩
      · rw [hpackets]
        exact List.mem_append_right _ (List.mem_singleton_self p)
      · intro hserver
        by_contra hshort
        apply hok hnow hgone (by omega)
        rw [hs.called]
        exact hserver

theorem ncpInput_inv {p : Packet} (hs : NcpInv e socket fsInfo s) (hok : NcpOk e s (.input p)) :
    NcpInv e socket fsInfo (s.input e p) := by
  have hpc : (s.input e p).pc = s.pc := rfl
  rw [NcpInv, hpc]
  rw [NcpInv] at hs
  cases h : s.pc with
  | listen r =>
    rw [h] at hs
    exact ⟨hs.1.input p, hs.2⟩
  | returned =>
    rw [h] at hs
    obtain ⟨hanswer, hsockets, hidle⟩ := hs
    obtain ⟨hecb, hidle'⟩ := untouched hsockets hidle p
    have hecb : (s.input e p).layer.ecb e = s.layer.ecb e := hecb
    have hsockets' : SocketsOk (s.input e p).layer := Ipx.input_spec hsockets p
    refine ⟨?_, hsockets', hidle'⟩
    constructor
    · obtain htime | hdisconnect | hreplied := hanswer.code
      · exact Or.inl htime
      · exact Or.inr (Or.inl hdisconnect)
      · exact Or.inr (Or.inr (hreplied.input hsockets hidle))
    · rw [packets_input hidle, hecb]
      exact hanswer.okay
    · exact fun n xs hl ↦ hsockets'.notMem hidle' hl
    · exact hanswer.sequence
  | _ =>
    rw [h] at hs
    exact ⟨hs.1.input hok, hs.2.input hs.1.alone.sockets⟩

/-! ## The thread -/

/-- The thread leaves the ECB alone. -/
theorem During.same (hs : During e socket fsInfo s) (hlayer : t.layer = s.layer)
    (hpackets : t.packets = s.packets) (hcalled : t.fsInfo = s.fsInfo) :
    During e socket fsInfo t where
  alone := hlayer ▸ hs.alone
  buffers := hlayer ▸ hs.buffers
  called := hcalled.trans hs.called
  heard := by
    rw [hlayer, hpackets]
    exact hs.heard

theorem During.relisten (hs : During e socket fsInfo s) (hidle : ¬s.layer.outstanding e)
    (hlayer : t.layer = ipxListenForPacket s.layer e) (hcalled : t.fsInfo = s.fsInfo) :
    During e socket fsInfo t := by
  obtain ⟨halone, hnow, hfragments⟩ := hs.alone.listens hidle
  obtain ⟨r, ⟨hshape, hheader, hdata⟩⟩ := hs.buffers
  constructor
  · rw [hlayer]
    exact halone
  · refine ⟨r, ?_, hheader, hdata⟩
    rw [hlayer, hfragments]
    exact hshape
  · exact hcalled.trans hs.called
  · intro h
    rw [hlayer] at h
    exact absurd hnow h

/-- A packet that is taken for the reply is the reply. -/
theorem During.replied (hs : During e socket fsInfo s) (hidle : ¬s.layer.outstanding e)
    (hserver : checkConnection fsInfo (received (s.layer.ecb e)) = serverOk)
    (hlayer : t.layer = s.layer) (hpackets : t.packets = s.packets)
    (hcode : t.ccode = (received (s.layer.ecb e)).code) : Replied e socket fsInfo t := by
  obtain ⟨p, hp, hdest, r, hr, hwhole⟩ := hs.heard hidle
  have hlen := hwhole hserver
  rw [hr] at hserver hcode
  refine ⟨p, hpackets ▸ hp, hdest, ncpReply_of_filled hlen hserver, ?_, ?_⟩
  · rw [hcode]
    exact code_filled hlen
  · rw [hlayer, hr]
    exact List.prefix_append _ _

theorem switchResponse_inv (hs : During e socket fsInfo s)
    (hstage : Stage e socket fsInfo s .judged) :
    During e socket fsInfo (switchResponse e s) ∧
      Stage e socket fsInfo (switchResponse e s) .again ∧ (switchResponse e s).pc = .again := by
  obtain ⟨hidle, hresponse⟩ := hstage
  have hanswers : s.serverResponse = serverOk ∨ s.serverResponse = serverBusy ∨
      s.serverResponse = serverListenNext ∨ s.serverResponse = serverAbort := by
    rw [hresponse, checkConnection]
    split
    · split
      · exact Or.inr (Or.inl rfl)
      split
      · exact Or.inr (Or.inr (Or.inr rfl))
      split
      · exact Or.inl rfl
      · exact Or.inr (Or.inr (Or.inl rfl))
    · exact Or.inr (Or.inr (Or.inl rfl))
  rw [switchResponse]
  split
  · next hserver =>
    rw [hresponse] at hserver
    refine ⟨hs.same rfl rfl rfl, Or.inr (Or.inr ⟨hidle, Or.inr ?_⟩), rfl⟩
    exact hs.replied hidle hserver rfl rfl rfl
  split
  · exact ⟨hs.relisten hidle rfl rfl, Or.inl rfl, rfl⟩
  split
  · next hnext => exact ⟨hs.relisten hidle rfl rfl, Or.inl hnext, rfl⟩
  split
  · exact ⟨hs.same rfl rfl rfl, Or.inr (Or.inr ⟨hidle, Or.inl rfl⟩), rfl⟩
  · next hok hbusy hnext habort =>
    obtain h | h | h | h := hanswers
    · exact absurd h hok
    · exact absurd h hbusy
    · exact absurd h hnext
    · exact absurd h habort

theorem replyCode_okay {p : Packet} (h : replyCode p = okay) : p.data.getD 36 0 = 0 := by
  rw [replyCode] at h
  split at h
  · exact h
  · next hstatus => exact absurd (Or.inl h) hstatus

/-- The last step: a request that timed out takes the ECB back. -/
theorem finish_inv (hs : During e socket fsInfo s) (hsettled : Settled e socket fsInfo s)
    (hlayer : t.layer =
      if s.ccode = timeOut then (ipxCancelEvent s.layer e).1 else s.layer)
    (hcode : t.ccode = s.ccode) (hpackets : t.packets = s.packets)
    (hsequence : t.fsInfo.sequenceNumber = s.fsInfo.sequenceNumber + 1) :
    RightAnswer e socket fsInfo t ∧ SocketsOk t.layer ∧ ¬t.layer.outstanding e := by
  have hdone : SocketsOk t.layer ∧ ¬t.layer.outstanding e ∧ t.layer.ecb = s.layer.ecb := by
    rw [hlayer]
    split
    · exact hs.alone.cancel
    · next hother =>
      obtain htime | ⟨hidle, -⟩ := hsettled
      · exact absurd htime hother
      · exact ⟨hs.alone.sockets, hidle, rfl⟩
  obtain ⟨hsockets, hgone, hecb⟩ := hdone
  have hresult : t.ccode = timeOut ∨ t.ccode = ncpStatusDisconnect ∨ Replied e socket fsInfo t := by
    obtain htime | ⟨-, hdisconnect | hreplied⟩ := hsettled
    · exact Or.inl (hcode.trans htime)
    · exact Or.inr (Or.inl (hcode.trans hdisconnect))
    · apply Or.inr
      apply Or.inr
      rw [Replied, hpackets, hcode, hecb]
      exact hreplied
  refine ⟨?_, hsockets, hgone⟩
  constructor
  · exact hresult
  · intro hokay
    rw [hokay] at hresult
    obtain h | h | ⟨p, hp, hdest, hreply, hpcode, hdata⟩ := hresult
    · cases h
    · cases h
    · exact ⟨p, hp, hdest, hreply, replyCode_okay (hpcode.symm.trans hokay), hdata⟩
  · exact fun n xs hl ↦ hsockets.notMem hgone hl
  · rw [hsequence, hs.called]

theorem ncpStep_inv {elapsed : Nat} {sending : Bool} (hs : NcpInv e socket fsInfo s)
    (hstep : ncpStep e socket s elapsed sending = some t) : NcpInv e socket fsInfo t := by
  rw [NcpInv] at hs
  rw [ncpStep] at hstep
  cases hpc : s.pc with
  | listen r =>
    rw [hpc] at hs hstep
    obtain ⟨hready, hcalled, hheader, hdata⟩ := hs
    obtain rfl := Option.some.inj hstep
    -- from here on one control block listens, with the buffers of this call
    obtain ⟨halone, hnow, hbuffers⟩ := hready.listens hheader hdata
    exact ⟨⟨halone, ⟨r, hbuffers⟩, hcalled, fun h ↦ absurd hnow h⟩, Or.inl ⟨rfl, rfl⟩⟩
  | retry =>
    rw [hpc] at hs hstep
    obtain rfl := Option.some.inj hstep
    by_cases hagain : s.serverResponse = timeOut ∧ s.retryCount < maxRetryCount
    · rw [NcpInv]
      simp only [if_pos hagain]
      exact ⟨hs.1.same rfl rfl rfl, trivial⟩
    · rw [NcpInv]
      simp only [if_neg hagain]
      refine ⟨hs.1.same rfl rfl rfl, ?_⟩
      obtain ⟨hresponse, hcount⟩ | hsettled := hs.2
      · -- the first turn is not skipped
        exact absurd ⟨hresponse, hcount ▸ by decide⟩ hagain
      · exact hsettled
  | send =>
    rw [hpc] at hs hstep
    obtain rfl := Option.some.inj hstep
    cases sending with
    | true => exact ⟨hs.1.same rfl rfl rfl, trivial⟩
    | false => exact ⟨hs.1.same rfl rfl rfl, trivial⟩
  | checkInUseFlag =>
    rw [hpc] at hs hstep
    dsimp only at hstep
    split at hstep
    · next hflag =>
      obtain rfl := Option.some.inj hstep
      -- the flag is 0, so the control block receives no more
      refine ⟨hs.1.same rfl rfl rfl, ?_⟩
      intro hnow
      have hreceiving : (0 : UInt8) = receiving := hflag.symm.trans hnow.1
      exact absurd hreceiving (by decide)
    split at hstep
    · obtain rfl := Option.some.inj hstep
      exact ⟨hs.1.same rfl rfl rfl, Or.inl rfl⟩
    · obtain rfl := Option.some.inj hstep
      rw [NcpInv, hpc]
      exact hs
  | free =>
    rw [hpc] at hs hstep
    dsimp only at hstep
    split at hstep
    · obtain rfl := Option.some.inj hstep
      refine ⟨hs.1.same rfl rfl rfl, hs.2, ?_⟩
      show checkConnection s.fsInfo _ = _
      rw [hs.1.called]
    · obtain rfl := Option.some.inj hstep
      exact ⟨hs.1.same rfl rfl rfl, Or.inl rfl⟩
  | judged =>
    rw [hpc] at hs hstep
    obtain rfl := Option.some.inj hstep
    obtain ⟨hduring, hstage, hagain⟩ := switchResponse_inv hs.1 hs.2
    rw [NcpInv, hagain]
    exact ⟨hduring, hstage⟩
  | again =>
    rw [hpc] at hs hstep
    obtain rfl := Option.some.inj hstep
    by_cases hnext : s.serverResponse = serverListenNext
    · rw [NcpInv]
      simp only [if_pos hnext]
      exact ⟨hs.1.same rfl rfl rfl, trivial⟩
    · rw [NcpInv]
      simp only [if_neg hnext]
      obtain h | hsettled := hs.2
      · exact absurd h hnext
      · exact ⟨hs.1.same rfl rfl rfl, hsettled⟩
  | count =>
    rw [hpc] at hs hstep
    obtain rfl := Option.some.inj hstep
    exact ⟨hs.1.same rfl rfl rfl, Or.inr hs.2⟩
  | finish =>
    rw [hpc] at hs hstep
    obtain rfl := Option.some.inj hstep
    exact finish_inv hs.1 hs.2 rfl rfl rfl rfl
  | returned =>
    rw [hpc] at hstep
    cases hstep

/-! ## Over a run -/

/-- Every run of a request that returns, on a socket of its own, whatever is received and lost. -/
theorem rightAnswer (layer : Layer) (r : Received) (acts : List NcpAct)
    (hready : Ready e socket layer) (hheader : r.header.length = sizeOfIPXHeader)
    (hdata : r.data.length = sizeOfReceivePsIPXData)
    (hok : (ncpMachine e socket layer fsInfo r).Along (NcpOk e) (ncpCalled layer fsInfo r) acts)
    (hrun : (ncpMachine e socket layer fsInfo r).run acts = some s) (hpc : s.pc = .returned) :
    RightAnswer e socket fsInfo s := by
  have hs : NcpInv e socket fsInfo s := by
    apply Machine.run_invariant _ _ hok hrun
    · exact ⟨hready, rfl, hheader, hdata⟩
    · intro s a t hs ha hstep
      cases a with
      | input p =>
        obtain rfl := Option.some.inj hstep
        exact ncpInput_inv hs ha
      | thread elapsed sending => exact ncpStep_inv hs hstep
  rw [NcpInv, hpc] at hs
  exact hs.1

/-! ## A short packet -/

/-- One open socket, on which nothing listens. -/
def openLayer : Layer where
  socketTable := [⟨0x40, 0, 0⟩]
  startSocket := 0x4000
  ecb := fun _ ↦ ⟨0, Ipx.okay, Ipx.okay, 0, 0, [], []⟩
  listened := fun _ ↦ false

theorem openLayer_ready : Ready 1 0x40 openLayer where
  sockets := by
    refine Ipx.opened_spec (k := ⟨0x40, 0, 0⟩) (Ipx.ipxInitialize_ok openLayer.ecb) ?_ rfl rfl
      rfl rfl
    exact List.not_mem_nil
  room := by decide
  ne_zero := by decide
  idle := by decide
  empty := ⟨⟨0x40, 0, 0⟩, List.mem_cons_self, rfl, rfl⟩

def server : FSInfo := ⟨#v[0, 0, 0, 1, 0, 0, 0, 0, 0, 2, 4, 0x51], 7⟩

def emptyBuffers : Received := ⟨List.replicate 30 0, List.replicate 1500 0⟩

/-- The IPX header of a packet from a node to the socket `0x40`. -/
def ncpHeader (node : UInt8) : List UInt8 :=
  [0xFF, 0xFF, 0, 38, 0, 0x11, 0, 0, 0, 1, 0, 0, 0, 0, 0, 9, 0x40, 0,
    0, 0, 0, 1, 0, 0, 0, 0, 0, node, 4, 0x51]

/-- Sequence number 7, completion code 0. -/
def ncpReplyData : List UInt8 := [0x33, 0x33, 7, 1, 0, 0, 0, 0]

/-- The ECB takes a packet and `NCPRequest` judges it. -/
def heardPacket (data : List UInt8) : List NcpAct :=
  [.input ⟨0, [], (0x40, 0), data⟩, .thread 0 false, .thread 0 false, .thread 0 false,
    .thread 0 false]

def sentRequest : List NcpAct := [.thread 0 false, .thread 0 false, .thread 0 false]

def ncpReturn : List NcpAct := [.thread 0 false, .thread 0 false, .thread 0 false]

def ncpRun (acts : List NcpAct) : Option NcpCall :=
  (ncpMachine 1 0x40 openLayer server emptyBuffers).run acts

/-- A foreign packet is passed over, then the reply arrives. -/
theorem rightAnswer_foreignThenReply :
    ∃ s, ncpRun (sentRequest ++ heardPacket (ncpHeader 3 ++ ncpReplyData) ++
        heardPacket (ncpHeader 2 ++ ncpReplyData) ++ ncpReturn) = some s ∧
      s.ccode = okay ∧ RightAnswer 1 0x40 server s := by
  have hok : (ncpMachine 1 0x40 openLayer server emptyBuffers).Along (NcpOk 1)
      (ncpCalled openLayer server emptyBuffers) (sentRequest ++
        heardPacket (ncpHeader 3 ++ ncpReplyData) ++ heardPacket (ncpHeader 2 ++ ncpReplyData) ++
          ncpReturn) := by decide
  have hrun : ((ncpRun (sentRequest ++ heardPacket (ncpHeader 3 ++ ncpReplyData) ++
      heardPacket (ncpHeader 2 ++ ncpReplyData) ++ ncpReturn)).map
        fun s ↦ (s.pc, s.ccode)) = some (.returned, okay) := by decide
  obtain ⟨s, hs, hend⟩ := Option.map_eq_some_iff.mp hrun
  obtain ⟨hpc, hcode⟩ := Prod.mk.inj hend
  exact ⟨s, hs, hcode, rightAnswer openLayer emptyBuffers _ openLayer_ready List.length_replicate
    List.length_replicate hok hs hpc⟩

/-- A foreign packet is passed over, then the server sends nothing but a header: it is judged by
what the foreign packet left. -/
theorem bareHeader_taken :
    ∃ s, ncpRun (sentRequest ++ heardPacket (ncpHeader 3 ++ ncpReplyData) ++
        heardPacket (ncpHeader 2) ++ ncpReturn) = some s ∧
      s.pc = .returned ∧ s.ccode = okay ∧ ¬RightAnswer 1 0x40 server s := by
  have hrun : ((ncpRun (sentRequest ++ heardPacket (ncpHeader 3 ++ ncpReplyData) ++
      heardPacket (ncpHeader 2) ++ ncpReturn)).map fun s ↦ (s.pc, s.ccode, s.packets)) =
        some (.returned, okay, [⟨0, [], (0x40, 0), ncpHeader 3 ++ ncpReplyData⟩,
          ⟨0, [], (0x40, 0), ncpHeader 2⟩]) := by decide
  obtain ⟨s, hs, hend⟩ := Option.map_eq_some_iff.mp hrun
  obtain ⟨hpc, hend⟩ := Prod.mk.inj hend
  obtain ⟨hcode, hpackets⟩ := Prod.mk.inj hend
  refine ⟨s, hs, hpc, hcode, ?_⟩
  intro h
  obtain ⟨p, hp, -, hreply, -⟩ := h.okay hcode
  rw [hpackets, List.mem_cons, List.mem_singleton] at hp
  cases hp with
  | inl hforeign =>
    -- the wrong node
    have hnode := hreply.node 5
    rw [hforeign] at hnode
    exact absurd hnode (by decide)
  | inr hshort =>
    have hwhole := hreply.whole
    rw [hshort] at hwhole
    exact absurd hwhole (by decide)

end PrintServer.Ncp
