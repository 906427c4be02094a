import Mathlib.Data.List.Count
import Mathlib.Data.List.Perm.Basic
import PrintServer.Nt.EcbReceive

/-!
# Lengths and ownership of received packets

Each block of memory is in one hand until it is freed, whatever allocation fails.  The lengths are
those of the packets, and nothing but the packets bounds them.
-/

namespace PrintServer.NtEcb

open Lib
open Http (bytes)

variable {s t : Reception} {port : PortBlock}

/-! ## What should hold -/

def RoutinePc.blocks : RoutinePc → List Nat
  | .listening data => data.toList
  | .enter data _ => data.toList
  | .check data mbuf _ => [mbuf, data]
  | .freeMbuf data mbuf => [mbuf, data]
  | .freeData data => [data]
  | .post => []
  | .waitForData => []

def IpxMbuf.blocks (m : IpxMbuf) : List Nat := [m.mbuf, m.data]

def RequestPc.blocks : RequestPc → List Nat
  | .taken _ m => m.blocks
  | .freeData _ m _ => m.blocks
  | .freeMbuf _ m _ => [m.mbuf]
  | _ => []

/-- The blocks in the hands of the ECB or its routine, of the queue and of the thread. -/
def Reception.owned (s : Reception) : List Nat :=
  s.routine.blocks ++ s.rcvq.flatMap (·.blocks) ++ s.pc.blocks

/-- Each copy is of octets that were received, they fit a block, and each block that was allocated
was freed once or is in one hand. -/
structure SafeReception (s : Reception) : Prop where
  copies : ∀ c ∈ s.copies, 0 ≤ c.len ∧ c.len ≤ c.dataReceived
  room : s.dataLength ≤ blockSize
  once : (s.freed ++ s.owned).Perm (List.range s.allocated)

/-- A packet of the expected block number has a length that was received, and that is left of the
block. -/
def RecvOk (s : Reception) : RecvAct → Prop
  | .thread _ =>
      match s.pc with
      | .taken _ m => m.packet.blockNumber = s.port.blockNumber →
          0 ≤ m.packet.codedLength ∧ m.packet.codedLength ≤ m.packet.dataReceived ∧
            s.dataLength + m.packet.codedLength ≤ blockSize
      | _ => True
  | _ => True

instance (s : Reception) (a : RecvAct) : Decidable (RecvOk s a) := by
  unfold RecvOk
  split
  · split <;> infer_instance
  · infer_instance

/-! ## What a step keeps -/

/-- The length that is still to be added fits. -/
def RequestPc.Fits (dataLength : Int) : RequestPc → Prop
  | .freeData _ _ n => dataLength + n ≤ blockSize
  | .freeMbuf _ _ n => dataLength + n ≤ blockSize
  | .result _ n => dataLength + n ≤ blockSize
  | _ => True

structure RecvInv (s : Reception) : Prop extends SafeReception s where
  fits : s.pc.Fits s.dataLength

theorem recvStart_inv (port : PortBlock) : RecvInv (recvStart port) where
  copies := fun _ hc ↦ by contradiction
  room := by
    show (0 : Int) ≤ blockSize
    decide
  once := List.Perm.refl _
  fits := by
    rw [recvStart]
    trivial

/-- The blocks, counted: a step moves them. -/
theorem once_of_count (h : (s.freed ++ s.owned).Perm (List.range s.allocated))
    (hcount : ∀ b, (t.freed ++ t.owned).count b + (List.range s.allocated).count b =
      (s.freed ++ s.owned).count b + (List.range t.allocated).count b) :
    (t.freed ++ t.owned).Perm (List.range t.allocated) := by
  rw [List.perm_iff_count]
  intro b
  have hb := hcount b
  have hs := List.perm_iff_count.mp h b
  omega

/-- A step of the routine touches neither the thread nor its counts. -/
theorem RecvInv.routine (hs : RecvInv s) (hcopies : t.copies = s.copies)
    (hlength : t.dataLength = s.dataLength) (hpc : t.pc = s.pc)
    (hcount : ∀ b, (t.freed ++ t.owned).count b + (List.range s.allocated).count b =
      (s.freed ++ s.owned).count b + (List.range t.allocated).count b) : RecvInv t where
  copies := hcopies ▸ hs.copies
  room := hlength ▸ hs.room
  once := once_of_count hs.once hcount
  fits := by
    rw [hlength, hpc]
    exact hs.fits

theorem routineStep_inv {ok : Bool} (hs : RecvInv s) (hstep : routineStep s ok = some t) :
    RecvInv t := by
  rw [routineStep] at hstep
  cases hr : s.routine with
  | listening data =>
    rw [hr] at hstep
    contradiction
  | enter data p =>
    rw [hr] at hstep
    cases data with
    | none =>
      obtain rfl := Option.some.inj hstep
      refine hs.routine rfl rfl rfl ?_
      intro b
      simp only [Reception.owned, hr, RoutinePc.blocks, Option.toList_none]
    | some data =>
      cases ok with
      | false =>
        obtain rfl := Option.some.inj hstep
        refine hs.routine rfl rfl rfl ?_
        intro b
        simp only [Reception.owned, hr, RoutinePc.blocks, Option.toList_some]
      | true =>
        obtain rfl := Option.some.inj hstep
        -- the `mbuf` that goes with the data is a new block
        refine hs.routine rfl rfl rfl ?_
        intro b
        simp only [Reception.owned, hr, RoutinePc.blocks, Option.toList_some, List.range_succ,
          List.count_append, List.count_cons, List.count_nil]
        omega
  | check data mbuf p =>
    rw [hr] at hstep
    dsimp only at hstep
    split at hstep
    · obtain rfl := Option.some.inj hstep
      -- the packet goes from the routine to the queue
      refine hs.routine rfl rfl rfl ?_
      intro b
      simp only [Reception.owned, hr, RoutinePc.blocks, List.flatMap_append, List.flatMap_singleton,
        IpxMbuf.blocks, List.count_append, List.count_cons, List.count_nil]
      omega
    · obtain rfl := Option.some.inj hstep
      refine hs.routine rfl rfl rfl ?_
      intro b
      simp only [Reception.owned, hr, RoutinePc.blocks]
  | freeMbuf data mbuf =>
    rw [hr] at hstep
    obtain rfl := Option.some.inj hstep
    refine hs.routine rfl rfl rfl ?_
    intro b
    simp only [Reception.free, Reception.owned, hr, RoutinePc.blocks, List.count_append,
      List.count_cons, List.count_nil]
    omega
  | freeData data =>
    rw [hr] at hstep
    obtain rfl := Option.some.inj hstep
    refine hs.routine rfl rfl rfl ?_
    intro b
    simp only [Reception.free, Reception.owned, hr, RoutinePc.blocks, List.count_append,
      List.count_cons, List.count_nil]
    omega
  | post =>
    rw [hr] at hstep
    obtain rfl := Option.some.inj hstep
    refine hs.routine rfl rfl rfl ?_
    intro b
    simp only [Reception.owned, hr, RoutinePc.blocks]
  | waitForData =>
    rw [hr] at hstep
    cases ok with
    | false =>
      obtain rfl := Option.some.inj hstep
      refine hs.routine rfl rfl rfl ?_
      intro b
      simp only [Reception.owned, hr, RoutinePc.blocks, Option.toList_none]
    | true =>
      obtain rfl := Option.some.inj hstep
      -- a new block for the next packet
      refine hs.routine rfl rfl rfl ?_
      intro b
      simp only [Reception.owned, hr, RoutinePc.blocks, Option.toList_some, List.range_succ,
        List.count_append, List.count_cons, List.count_nil]
      omega

/-! ## The thread -/

/-- A step of the thread that copies nothing and allocates nothing. -/
theorem RecvInv.thread (hs : RecvInv s) (hcopies : t.copies = s.copies)
    (halloc : t.allocated = s.allocated) (hroom : t.dataLength ≤ blockSize)
    (hfits : t.pc.Fits t.dataLength)
    (hcount : ∀ b, (t.freed ++ t.owned).count b = (s.freed ++ s.owned).count b) : RecvInv t where
  copies := hcopies ▸ hs.copies
  room := hroom
  once := by
    apply once_of_count hs.once
    intro b
    rw [hcount b, halloc]
  fits := hfits

/-- Nothing is in the hands of the thread, before and after. -/
theorem count_owned_of_empty (hpc : s.pc.blocks = []) :
    ∀ b (pc : RequestPc), pc.blocks = [] → (s.freed ++ (s.routine.blocks ++
      s.rcvq.flatMap (·.blocks) ++ pc.blocks)).count b = (s.freed ++ s.owned).count b := by
  intro b pc hblocks
  rw [hblocks, Reception.owned, hpc]

theorem endTurns_inv {i : Nat} (hs : RecvInv s) (hpc : s.pc = .turn i) : RecvInv (endTurns s) := by
  have hcount := count_owned_of_empty (s := s) (hpc ▸ rfl)
  rw [endTurns]
  split
  · split
    · exact hs.thread rfl rfl hs.room trivial (fun b ↦ hcount b .idle rfl)
    · exact hs.thread rfl rfl hs.room trivial (fun b ↦ hcount b (.turn 0) rfl)
  · exact hs.thread rfl rfl hs.room trivial (fun b ↦ hcount b .idle rfl)

/-- A copy is within the octets received, and the block has room for it. -/
theorem copy_inv {i : Nat} {m : IpxMbuf} (hs : RecvInv s) (hpc : s.pc = .taken i m)
    (hlow : 0 ≤ m.packet.codedLength) (hhigh : m.packet.codedLength ≤ m.packet.dataReceived)
    (hroom : s.dataLength + m.packet.codedLength ≤ blockSize) :
    RecvInv { s with
      copies := s.copies ++ [⟨m.packet.codedLength, m.packet.dataReceived⟩]
      pc := .freeData i m m.packet.codedLength } where
  copies := by
    intro c hc
    cases List.mem_append.mp hc with
    | inl hc => exact hs.copies c hc
    | inr hc =>
      rw [List.mem_singleton.mp hc]
      exact ⟨hlow, hhigh⟩
  room := hs.room
  once := by
    have hs := hs.once
    rw [Reception.owned, hpc] at hs
    exact hs
  fits := hroom

theorem requestStep_inv {w : Wake} (hs : RecvInv s) (hok : RecvOk s (.thread w))
    (hstep : requestStep s w = some t) : RecvInv t := by
  have hfits := hs.fits
  have hroom := hs.room
  rw [requestStep] at hstep
  cases hpc : s.pc with
  | idle =>
    rw [hpc] at hstep
    contradiction
  | wild =>
    rw [hpc] at hstep
    contradiction
  | turn i =>
    rw [hpc] at hstep
    dsimp only at hstep
    split at hstep
    · cases hq : s.rcvq with
      | nil =>
        rw [hq] at hstep
        obtain rfl := Option.some.inj hstep
        refine hs.thread rfl rfl hroom trivial ?_
        intro b
        simp only [Reception.owned, hpc, hq, RequestPc.blocks]
      | cons m rcvq =>
        -- the packet goes from the queue to the thread
        rw [hq] at hstep
        obtain rfl := Option.some.inj hstep
        refine hs.thread rfl rfl hroom trivial ?_
        intro b
        simp only [Reception.owned, hpc, hq, RequestPc.blocks, List.flatMap_cons, List.count_append,
          List.count_nil]
        omega
    · obtain rfl := Option.some.inj hstep
      exact endTurns_inv hs hpc
  | wait i =>
    rw [hpc] at hstep
    obtain rfl := Option.some.inj hstep
    by_cases hw : w = .timeout
    · -- the time is over, and the length is -1
      refine hs.thread rfl rfl hroom ?_ ?_
      · rw [if_pos hw]
        show s.dataLength + -1 ≤ blockSize
        omega
      · intro b
        simp only [Reception.owned, hpc, if_pos hw, RequestPc.blocks]
    · refine hs.thread rfl rfl hroom ?_ ?_
      · rw [if_neg hw]
        trivial
      · intro b
        simp only [Reception.owned, hpc, if_neg hw, RequestPc.blocks]
  | taken i m =>
    rw [RecvOk, hpc] at hok
    rw [hpc] at hstep
    dsimp only at hstep
    split at hstep
    · -- a packet of another block is dropped
      obtain rfl := Option.some.inj hstep
      refine hs.thread rfl rfl hroom ?_ ?_
      · show s.dataLength + -2 ≤ blockSize
        omega
      · intro b
        simp only [Reception.owned, hpc, RequestPc.blocks]
    · next hnumber =>
      -- the packet asked for is copied, and there is room for it
      obtain ⟨hlow, hhigh, hleft⟩ := hok (not_not.mp hnumber)
      rw [if_neg (by omega)] at hstep
      obtain rfl := Option.some.inj hstep
      exact copy_inv hs hpc hlow hhigh hleft
  | freeData i m n =>
    rw [hpc] at hstep hfits
    obtain rfl := Option.some.inj hstep
    refine hs.thread rfl rfl hroom hfits ?_
    intro b
    simp only [Reception.free, Reception.owned, hpc, RequestPc.blocks, IpxMbuf.blocks,
      List.count_append, List.count_cons, List.count_nil]
    omega
  | freeMbuf i m n =>
    rw [hpc] at hstep hfits
    obtain rfl := Option.some.inj hstep
    refine hs.thread rfl rfl hroom hfits ?_
    intro b
    simp only [Reception.free, Reception.owned, hpc, RequestPc.blocks, List.count_append,
      List.count_cons, List.count_nil]
    omega
  | result i n =>
    -- the thread holds no packet between two turns
    have hcount := count_owned_of_empty (s := s) (hpc ▸ rfl)
    rw [hpc] at hstep hfits
    dsimp only at hstep
    split at hstep
    · obtain rfl := Option.some.inj hstep
      exact hs.thread rfl rfl hroom trivial (fun b ↦ hcount b .idle rfl)
    split at hstep
    · obtain rfl := Option.some.inj hstep
      exact hs.thread rfl rfl hroom trivial (fun b ↦ hcount b .idle rfl)
    split at hstep
    · obtain rfl := Option.some.inj hstep
      exact hs.thread rfl rfl hroom trivial (fun b ↦ hcount b (.turn i) rfl)
    · next hn =>
      obtain rfl := Option.some.inj hstep
      refine hs.thread rfl rfl ?_ trivial (fun b ↦ hcount b (.turn (i + 1)) rfl)
      show s.dataLength + n % 65536 ≤ blockSize
      have hleft : s.dataLength + n ≤ blockSize := hfits
      omega

/-! ## Over a run -/

theorem recvStep_inv {a : RecvAct} (hs : RecvInv s) (hok : RecvOk s a)
    (hstep : recvStep s a = some t) : RecvInv t := by
  cases a with
  | startPrint version frameType maxPackets ntMaxRecvPacket ipxbeui =>
    obtain rfl := Option.some.inj hstep
    exact hs.thread rfl rfl hs.room hs.fits (fun _ ↦ rfl)
  | input p =>
    rw [recvStep] at hstep
    cases hr : s.routine with
    | listening data =>
      rw [hr] at hstep
      obtain rfl := Option.some.inj hstep
      refine hs.routine rfl rfl rfl ?_
      intro b
      simp only [Reception.owned, hr, RoutinePc.blocks]
    | _ =>
      rw [hr] at hstep
      contradiction
  | routine ok => exact routineStep_inv hs hstep
  | request =>
    rw [recvStep] at hstep
    split at hstep
    · next hpc =>
      obtain rfl := Option.some.inj hstep
      refine hs.thread rfl rfl ?_ trivial ?_
      · show (0 : Int) ≤ blockSize
        decide
      · intro b
        simp only [Reception.owned, hpc, RequestPc.blocks]
    · contradiction
  | thread w => exact requestStep_inv hs hok hstep

/-- Whatever is granted and whatever allocation fails, reception is safe as long as the packets of
the expected block numbers have lengths that were received and fit the block. -/
theorem reception_safe (port : PortBlock) (acts : List RecvAct)
    (hok : (recvMachine port).Along RecvOk (recvStart port) acts)
    (hrun : (recvMachine port).run acts = some s) : SafeReception s := by
  have hs : RecvInv s := by
    apply Machine.run_invariant (recvStart_inv port) _ hok hrun
    intro s a t hs ha hstep
    exact recvStep_inv hs ha hstep
  exact hs.toSafeReception

/-- Data of block 0 for port 1; the length is coded by two octets. -/
def dataPacket (low high : UInt8) : Packet where
  frameType := 0
  received := bytes "NET" ++ [4, 0x0B, 0, 1, 0, 0, low, high, 0x1B]
  received_le := by
    have hmark : (bytes "NET").length = 3 := by decide
    rw [List.length_append, hmark]
    show 12 ≤ 1461
    omega

/-- The ECB takes a packet, with all the memory it asks for, and the thread reads it. -/
def receiveOne (p : Packet) : List RecvAct :=
  [.routine true, .input p, .routine true, .routine true, .routine true, .routine false, .request,
    .thread .go, .thread .go]

/-- The length is 1, coded as `0x0101`. -/
theorem reception_safe_one : (recvMachine ⟨0, 0, .version4, 1⟩).Along RecvOk
      (recvStart ⟨0, 0, .version4, 1⟩) (receiveOne (dataPacket 1 1)) ∧
    ∃ s, (recvMachine ⟨0, 0, .version4, 1⟩).run (receiveOne (dataPacket 1 1)) = some s ∧
      s.copies = [⟨1, 1⟩] ∧ SafeReception s := by
  have hok : (recvMachine ⟨0, 0, .version4, 1⟩).Along RecvOk
      (recvStart ⟨0, 0, .version4, 1⟩) (receiveOne (dataPacket 1 1)) := by decide
  have hrun : ((recvMachine ⟨0, 0, .version4, 1⟩).run (receiveOne (dataPacket 1 1))).isSome := by
    decide
  obtain ⟨s, hs⟩ := Option.isSome_iff_exists.mp hrun
  have hcopies : ((recvMachine ⟨0, 0, .version4, 1⟩).run (receiveOne (dataPacket 1 1))).map
      (·.copies) = some [⟨1, 1⟩] := by decide
  rw [hs] at hcopies
  exact ⟨hok, s, hs, Option.some.inj hcopies, reception_safe _ _ hok hs⟩

/-- `DataLength` is 1 as it stands: the length is taken for -255. -/
theorem plainLength_unsafe :
    ∃ s, (recvMachine ⟨0, 0, .version4, 1⟩).run (receiveOne (dataPacket 1 0)) = some s ∧
      ¬SafeReception s := by
  have hrun : ((recvMachine ⟨0, 0, .version4, 1⟩).run (receiveOne (dataPacket 1 0))).isSome := by
    decide
  obtain ⟨s, hs⟩ := Option.isSome_iff_exists.mp hrun
  have hcopies : ((recvMachine ⟨0, 0, .version4, 1⟩).run (receiveOne (dataPacket 1 0))).map
      (·.copies) = some [⟨-255, 1⟩] := by decide
  rw [hs] at hcopies
  refine ⟨s, hs, ?_⟩
  intro hsafe
  have hlast : s.copies = [⟨-255, 1⟩] := Option.some.inj hcopies
  have hcopy := hsafe.copies ⟨-255, 1⟩ (hlast ▸ List.mem_singleton_self _)
  have hlen : (0 : Int) ≤ -255 := hcopy.1
  omega

end PrintServer.NtEcb
