import Mathlib.Data.List.GetD
import PrintServer.Ipx.SocketsInv
import PrintServer.Novell.NcpRequest

/-!
# The reply to a request

`ReceivePsECB` alone listens on the socket of the request.  What `NCPRequest` judges are two buffers
that keep what earlier packets left behind the end of a short one.
-/

namespace PrintServer.Ncp

open Lib
open Ipx (ECB ECBFragment Layer Packet Ptr SocketsOk SocketOk ipxCancelEvent ipxInput
  ipxListenForPacket nget16 okay receiving successful socketTableLength)

variable {e : Ptr} {socket : UInt16} {s t : Layer} {fsInfo : FSInfo} {r : Received} {p : Packet}

/-! ## What a packet leaves in the buffers -/

def Received.filled (r : Received) (p : Packet) : Received where
  header := p.data.take sizeOfIPXHeader ++ r.header.drop p.data.length
  data := (p.data.drop sizeOfIPXHeader).take sizeOfReceivePsIPXData ++
    r.data.drop (p.data.length - sizeOfIPXHeader)

/-- The fragments that `ListenPsECB` sets up. -/
structure Buffers (x : ECB) (r : Received) : Prop where
  fragments : ∃ n m, x.fragments =
    [⟨some r.header, sizeOfIPXHeader, n⟩, ⟨some r.data, sizeOfReceivePsIPXData, m⟩]
  header : r.header.length = sizeOfIPXHeader
  data : r.data.length = sizeOfReceivePsIPXData

theorem Buffers.received {x : ECB} (hx : Buffers x r) : received x = r := by
  obtain ⟨n, m, hfragments⟩ := hx.fragments
  rw [Ncp.received, hfragments]
  rfl

/-- A copy of at most the size of a buffer, in front of what it held. -/
theorem copy_eq {data buffer : List UInt8} {size : Nat} (hsize : buffer.length = size) :
    data.take (min data.length size) ++ buffer.drop (min data.length size) =
      data.take size ++ buffer.drop data.length := by
  by_cases h : data.length ≤ size
  · rw [Nat.min_eq_left h, List.take_length, List.take_of_length_le h]
  · rw [Nat.min_eq_right (by omega), List.drop_of_length_le (by omega),
      List.drop_of_length_le (by omega)]

theorem fillFragments_nil (fs : List ECBFragment) : Ipx.fillFragments fs [] = fs := by
  cases fs with
  | nil => rfl
  | cons f fs => rfl

theorem fillFragments_cons {buffer : List UInt8} {size n : Nat} (fs : List ECBFragment)
    (data : List UInt8) (hsize : buffer.length = size) (hpos : size ≠ 0) :
    ∃ n', Ipx.fillFragments (⟨some buffer, size, n⟩ :: fs) data =
      ⟨some (data.take size ++ buffer.drop data.length), size, n'⟩ ::
        Ipx.fillFragments fs (data.drop size) := by
  cases data with
  | nil =>
    refine ⟨n, ?_⟩
    rw [fillFragments_nil, List.drop_nil, fillFragments_nil, List.take_nil]
    rfl
  | cons a as =>
    refine ⟨min (a :: as).length size, ?_⟩
    rw [← copy_eq hsize]
    show (if size ≠ 0 then _ else _) = _
    rw [if_pos hpos]

theorem Buffers.fill {x : ECB} (hx : Buffers x r) (p : Packet) :
    Buffers (x.fill p) (r.filled p) := by
  obtain ⟨n, m, hfragments⟩ := hx.fragments
  have hheader := hx.header
  have hdata := hx.data
  constructor
  · obtain ⟨n', hfirst⟩ := fillFragments_cons (n := n)
      [⟨some r.data, sizeOfReceivePsIPXData, m⟩] p.data hheader (by decide)
    obtain ⟨m', hsecond⟩ := fillFragments_cons (n := m) [] (p.data.drop sizeOfIPXHeader) hdata
      (by decide)
    refine ⟨n', m', ?_⟩
    show Ipx.fillFragments x.fragments p.data = _
    rw [hfragments, hfirst, hsecond, List.length_drop]
    rfl
  · show (p.data.take sizeOfIPXHeader ++ r.header.drop p.data.length).length = sizeOfIPXHeader
    rw [List.length_append, List.length_take, List.length_drop, hheader]
    omega
  · show ((p.data.drop sizeOfIPXHeader).take sizeOfReceivePsIPXData ++
      r.data.drop (p.data.length - sizeOfIPXHeader)).length = sizeOfReceivePsIPXData
    rw [List.length_append, List.length_take, List.length_drop, List.length_drop, hdata]
    omega

/-! ## A reply -/

/-- An NCP reply of the server with the sequence number of the request: the header ends behind
octet 29. -/
structure NcpReply (fsInfo : FSInfo) (p : Packet) : Prop where
  whole : 38 ≤ p.data.length
  packetType : p.data.getD 5 0 = 0x11
  node : ∀ i : Fin 6, p.data.getD (22 + i) 0 = fsInfo.networkNumber[i.val + 4]
  socket : ∀ i : Fin 2, p.data.getD (28 + i) 0 = fsInfo.networkNumber[i.val + 10]
  replyType : p.data.getD 30 0 = 0x33 ∧ p.data.getD 31 0 = 0x33
  sequenceNumber : p.data.getD 32 0 = fsInfo.sequenceNumber

/-- The status of the connection where it is bad, else the completion code. -/
def replyCode (p : Packet) : UInt8 :=
  if p.data.getD 37 0 = 0 ∨ p.data.getD 37 0 = 0x40 then p.data.getD 36 0 else p.data.getD 37 0

theorem nget16_injective {b c : UInt8 × UInt8} (h : nget16 b = nget16 c) : b = c := by
  have hn := congrArg UInt16.toNat h
  have hbounds := And.intro (And.intro b.1.toNat_lt b.2.toNat_lt)
    (And.intro c.1.toNat_lt c.2.toNat_lt)
  simp only [nget16, UInt16.toNat_ofNat'] at hn
  ext
  · omega
  · omega

theorem header_filled (hlen : 38 ≤ p.data.length) {i : Nat} (hi : i < 30) :
    (r.filled p).header.getD i 0 = p.data.getD i 0 := by
  show (p.data.take 30 ++ r.header.drop p.data.length).getD i 0 = _
  rw [List.getD_append _ _ _ _ (by rw [List.length_take]; omega)]
  simp only [List.getD_eq_getElem?_getD, List.getElem?_take_of_lt hi]

theorem data_filled (hlen : 38 ≤ p.data.length) {i : Nat} (hi : i < 8) :
    (r.filled p).data.getD i 0 = p.data.getD (30 + i) 0 := by
  show ((p.data.drop 30).take 1500 ++ r.data.drop (p.data.length - 30)).getD i 0 = _
  rw [List.getD_append _ _ _ _ (by rw [List.length_take, List.length_drop]; omega)]
  simp only [List.getD_eq_getElem?_getD, List.getElem?_take_of_lt (show i < 1500 by omega),
    List.getElem?_drop]

theorem code_filled (hlen : 38 ≤ p.data.length) : (r.filled p).code = replyCode p := by
  have hstatus : (r.filled p).completionStatus = p.data.getD 37 0 := data_filled hlen (by omega)
  have hcode : (r.filled p).completionCode = p.data.getD 36 0 := data_filled hlen (by omega)
  rw [Received.code, replyCode, hstatus, hcode]
  show (if p.data.getD 37 0 ≠ 0 ∧ p.data.getD 37 0 ≠ 0x40 then _ else _) = _
  split <;> split <;> simp_all

/-- A packet that is long enough is judged by its own octets. -/
theorem ncpReply_of_filled (hlen : 38 ≤ p.data.length)
    (h : checkConnection fsInfo (r.filled p) = serverOk) : NcpReply fsInfo p := by
  obtain ⟨hnode, htype, hsocket, hreply, hsequence⟩ := checkConnection_serverOk h
  have hpair : (r.filled p).socket = (fsInfo.networkNumber[10], fsInfo.networkNumber[11]) :=
    nget16_injective hsocket
  have hthrees : ((r.filled p).data.getD 0 0, (r.filled p).data.getD 1 0) =
      ((0x33 : UInt8), (0x33 : UInt8)) := nget16_injective (hreply.trans (by decide))
  constructor
  · exact hlen
  · rw [← header_filled (r := r) hlen (by omega)]
    exact htype
  · intro i
    rw [← header_filled (r := r) hlen (by omega)]
    exact hnode i
  · intro i
    rw [← header_filled (r := r) hlen (by omega)]
    cases i using Fin.cases with
    | zero => exact congrArg Prod.fst hpair
    | succ i =>
      obtain rfl : i = 0 := Subsingleton.elim _ _
      exact congrArg Prod.snd hpair
  · rw [← data_filled (r := r) hlen (by omega : 0 < 8),
      ← data_filled (r := r) hlen (by omega : 1 < 8)]
    exact ⟨congrArg Prod.fst hthrees, congrArg Prod.snd hthrees⟩
  · rw [← data_filled (r := r) hlen (by omega : 2 < 8)]
    exact hsequence

end PrintServer.Ncp
