import PrintServer.Novell.NcpReply

/-!
# The socket of a request

While `NCPRequest` runs, `ReceivePsECB` is the one ECB on its socket, listening or filled by the
last packet.
-/

namespace PrintServer.Ncp

open Lib
open Ipx (ECB Layer Packet Ptr SocketsOk SocketOk Socket ipxCancelEvent ipxInput ipxListenForPacket
  nget16 okay receiving successful socketTableLength)

variable {e : Ptr} {socket : UInt16} {s t : Layer} {fsInfo : FSInfo} {r : Received} {p : Packet}

/-! ## The socket of the request -/

/-- The state of the sockets that the callers provide: one socket for requests, nothing listens on
it, and the table is not full. -/
structure Ready (e : Ptr) (socket : UInt16) (s : Layer) : Prop where
  sockets : SocketsOk s
  room : s.socketTable.length < socketTableLength
  ne_zero : e ≠ 0
  idle : ¬s.outstanding e
  empty : s.Listed socket []

/-- `ReceivePsECB` is the list of the socket, or the list is empty. -/
structure Alone (e : Ptr) (socket : UInt16) (s : Layer) : Prop where
  sockets : SocketsOk s
  room : s.socketTable.length < socketTableLength
  ne_zero : e ≠ 0
  number : (s.ecb e).socketNumber = socket
  link : s.link e = 0
  flag : ¬s.outstanding e → (s.ecb e).inUseFlag = okay
  listed : s.Listed socket (if s.outstanding e then [e] else [])

theorem length_of_numbers (hnumbers : t.numbers = s.numbers) :
    t.socketTable.length = s.socketTable.length := by
  have hlen := congrArg List.length hnumbers
  rw [Layer.numbers, Layer.numbers, List.length_map, List.length_map] at hlen
  exact hlen

/-- An ECB that does not listen stays as it is. -/
theorem untouched (hs : SocketsOk s) (hidle : ¬s.outstanding e) (p : Packet) :
    (ipxInput s p).ecb e = s.ecb e ∧ ¬(ipxInput s p).outstanding e := by
  obtain heq | ⟨h, ho, -, -, hecb, -, hlistened, -, -⟩ := Ipx.input_cases hs p
  · rw [heq]
    exact ⟨rfl, hidle⟩
  · have hne : e ≠ h := fun heh ↦ hidle (heh ▸ ho)
    have hsame : (ipxInput s p).ecb e = s.ecb e := by rw [hecb, Function.update_of_ne hne]
    refine ⟨hsame, ?_⟩
    rw [Layer.outstanding, hsame, hlistened e hne]
    exact hidle

theorem Ready.input (hs : Ready e socket s) (p : Packet) : Ready e socket (ipxInput s p) := by
  obtain heq | ⟨h, -, -, hnumbers, -, -, -, hok, hlists⟩ := Ipx.input_cases hs.sockets p
  · rw [heq]
    exact hs
  · constructor
    · exact hok
    · rw [length_of_numbers hnumbers]
      exact hs.room
    · exact hs.ne_zero
    · exact (untouched hs.sockets hs.idle p).2
    · exact hlists socket [] hs.empty

/-- A packet fills the ECB, or does not touch it. -/
theorem Alone.input (hs : Alone e socket s) (p : Packet) :
    Alone e socket (ipxInput s p) ∧
      (((ipxInput s p).ecb e = s.ecb e ∧ ((ipxInput s p).outstanding e ↔ s.outstanding e)) ∨
        (s.outstanding e ∧ ¬(ipxInput s p).outstanding e ∧
          (ipxInput s p).ecb e = (s.ecb e).fill p ∧ nget16 p.destination = socket)) := by
  obtain heq | ⟨h, ho, hdest, hnumbers, hecb, hgone, hlistened, hok, hlists⟩ :=
    Ipx.input_cases hs.sockets p
  · rw [heq]
    exact ⟨hs, Or.inl ⟨rfl, Iff.rfl⟩⟩
  have hroom : (ipxInput s p).socketTable.length < socketTableLength := by
    rw [length_of_numbers hnumbers]
    exact hs.room
  have hlist := hlists socket _ hs.listed
  by_cases heh : e = h
  · subst heh
    have hfill : (ipxInput s p).ecb e = (s.ecb e).fill p := by rw [hecb, Function.update_self]
    refine ⟨?_, Or.inr ⟨ho, hgone, hfill, hdest.symm.trans hs.number⟩⟩
    constructor
    · exact hok
    · exact hroom
    · exact hs.ne_zero
    · rw [hfill]
      exact hs.number
    · rw [Layer.link, hfill]
      exact hs.link
    · intro _
      rw [hfill]
      rfl
    · rw [if_pos ho, List.erase_cons_head] at hlist
      rw [if_neg hgone]
      exact hlist
  · have hsame : (ipxInput s p).ecb e = s.ecb e := by rw [hecb, Function.update_of_ne heh]
    have hiff : (ipxInput s p).outstanding e ↔ s.outstanding e := by
      rw [Layer.outstanding, hsame, hlistened e heh]
      rfl
    refine ⟨?_, Or.inl ⟨hsame, hiff⟩⟩
    constructor
    · exact hok
    · exact hroom
    · exact hs.ne_zero
    · rw [hsame]
      exact hs.number
    · rw [Layer.link, hsame]
      exact hs.link
    · intro hnow
      rw [hsame]
      exact hs.flag (fun h ↦ hnow (hiff.mpr h))
    · rw [List.erase_of_not_mem] at hlist
      · simp only [hiff]
        exact hlist
      · split
        · exact fun hmem ↦ heh (List.mem_singleton.mp hmem).symm
        · exact List.not_mem_nil

/-- The ECB listens on its empty socket. -/
theorem listens (hs : SocketsOk s) (hroom : s.socketTable.length < socketTableLength)
    (hne : e ≠ 0) (hidle : ¬s.outstanding e) (hflag : (s.ecb e).inUseFlag = okay)
    (hnumber : (s.ecb e).socketNumber = socket) (hempty : s.Listed socket []) :
    Alone e socket (ipxListenForPacket s e) ∧ (ipxListenForPacket s e).outstanding e ∧
      ((ipxListenForPacket s e).ecb e).fragments = (s.ecb e).fragments := by
  have hnot : (s.ecb e).inUseFlag ≠ receiving := by
    rw [hflag]
    decide
  cases hk : Ipx.lookup (s.ecb e).socketNumber s.socketTable with
  | none => exact absurd (hnumber ▸ hempty.mem_numbers) (Ipx.lookup_eq_none.mp hk)
  | some k =>
    obtain ⟨hok, hserves⟩ := Ipx.listen_open hs hne hidle hnot hroom hk
    have hlist := hserves socket [] hempty
    rw [if_pos hnumber] at hlist
    have hhead : k.ecbLinkList = 0 := hempty.of_lookup hs.distinct (hnumber ▸ hk)
    have heq : ipxListenForPacket s e =
        { s with
          socketTable := Ipx.updateSocket (s.ecb e).socketNumber
            (fun k ↦ { k with ecbLinkList := e }) s.socketTable
          ecb := Function.update s.ecb e
            { s.ecb e with linkAddress := k.ecbLinkList, inUseFlag := receiving }
          listened := Function.update s.listened e true } := by
      simp only [ipxListenForPacket, if_pos hroom, hk, if_neg hnot]
    have hecb : (ipxListenForPacket s e).ecb e =
        { s.ecb e with linkAddress := k.ecbLinkList, inUseFlag := receiving } := by
      rw [heq]
      exact Function.update_self ..
    have hnow : (ipxListenForPacket s e).outstanding e := by
      constructor
      · rw [hecb]
      · rw [heq]
        exact Function.update_self ..
    refine ⟨?_, hnow, ?_⟩
    · constructor
      · exact hok
      · have hnumbers : (ipxListenForPacket s e).numbers = s.numbers := by
          rw [heq]
          exact Ipx.numbers_of_head rfl
        rw [length_of_numbers hnumbers]
        exact hroom
      · exact hne
      · rw [hecb]
        exact hnumber
      · rw [Layer.link, hecb]
        exact hhead
      · exact fun h ↦ absurd hnow h
      · rw [if_pos hnow]
        exact hlist
    · rw [hecb]

theorem Alone.listens (hs : Alone e socket s) (hidle : ¬s.outstanding e) :
    Alone e socket (ipxListenForPacket s e) ∧ (ipxListenForPacket s e).outstanding e ∧
      ((ipxListenForPacket s e).ecb e).fragments = (s.ecb e).fragments := by
  have hempty := hs.listed
  rw [if_neg hidle] at hempty
  exact Ncp.listens hs.sockets hs.room hs.ne_zero hidle (hs.flag hidle) hs.number hempty

theorem Ready.listens (hs : Ready e socket s) (hheader : r.header.length = sizeOfIPXHeader)
    (hdata : r.data.length = sizeOfReceivePsIPXData) :
    Alone e socket (listenPsECB s e socket r sizeOfReceivePsIPXData) ∧
      (listenPsECB s e socket r sizeOfReceivePsIPXData).outstanding e ∧
      Buffers ((listenPsECB s e socket r sizeOfReceivePsIPXData).ecb e) r := by
  rw [listenPsECB]
  generalize hx : { s.ecb e with
    inUseFlag := okay
    socketNumber := socket
    fragments :=
      [⟨some r.header, sizeOfIPXHeader, 0⟩, ⟨some r.data, sizeOfReceivePsIPXData, 0⟩] } = x
  have hecb : (s.setECB e x).ecb e = x := Function.update_self ..
  have hidle : ¬(s.setECB e x).outstanding e := by
    intro h
    have hflag := h.1
    rw [hecb, ← hx] at hflag
    have hne : okay ≠ receiving := by decide
    exact hne hflag
  have hsockets : SocketsOk (s.setECB e x) := by
    refine hs.sockets.frame rfl hs.idle hidle ?_
    intro y hy
    exact ⟨Function.update_of_ne hy .., rfl⟩
  have hempty : (s.setECB e x).Listed socket [] := by
    apply hs.empty.same rfl
    intro y hy
    cases hy
  obtain ⟨halone, hnow, hfragments⟩ := Ncp.listens hsockets hs.room hs.ne_zero hidle
    (by rw [hecb, ← hx]) (by rw [hecb, ← hx]) hempty
  refine ⟨halone, hnow, ?_, hheader, hdata⟩
  refine ⟨0, 0, ?_⟩
  rw [hfragments, hecb, ← hx]

theorem Alone.cancel (hs : Alone e socket s) :
    SocketsOk (ipxCancelEvent s e).1 ∧ ¬(ipxCancelEvent s e).1.outstanding e ∧
      (ipxCancelEvent s e).1.ecb = s.ecb := by
  have hok : SocketOk s (.cancel e) := by
    intro k hk
    have hlinked := hs.listed.of_lookup hs.sockets.distinct (hs.number ▸ hk)
    split at hlinked
    · next ho =>
      rw [if_pos ho]
      exact hlinked.1
    · next ho =>
      rw [if_neg ho, hs.link]
      exact hlinked
  refine ⟨(Ipx.cancel_spec hs.sockets hs.ne_zero hok).1, ?_, ?_⟩
  · intro h
    have hlistened : (ipxCancelEvent s e).1.listened e = false := by
      rw [ipxCancelEvent]
      split
      · exact Function.update_self ..
      · exact Function.update_self ..
    exact Bool.false_ne_true (hlistened.symm.trans h.2)
  · rw [ipxCancelEvent]
    split <;> rfl

end PrintServer.Ncp
