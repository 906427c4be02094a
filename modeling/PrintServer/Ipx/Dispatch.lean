import PrintServer.Ipx.Sockets
import PrintServer.Ipx.Upgrade
import PrintServer.Lib.Memory

/-!
# Frames to the protocols

`ProcessOtherPckt` (pkdriver.c) tells the four encapsulations of IPX, AppleTalk and NetBEUI apart
and hands the rest of the frame to `IPXInput` (ipx.c) or `NT_NETBEUItoIPXInput` (netbeui.c).  Each
function is modelled by what it touches of the frame, in order; `mem` is the memory from the frame
on, which goes on behind the frame.
-/

namespace PrintServer.Ipx

open Lib

def ipx8023 : UInt16 := 0xFFFF
def ipx8022 : UInt16 := 0xE0E0
def ipxSNAP : UInt16 := 0xAAAA
def ipxENII : UInt16 := 0x8137
def ipxBEUI : UInt16 := 0xF0F0
def ethertypeAARP : UInt16 := 0x80F3
def ethertypeAT : UInt16 := 0x809B

def netbeuiListViewSocket : UInt16 := 0x7070
def utilitySocket : UInt16 := 0x5050
def netbeuiMulticast : List UInt8 := [0x03, 0x00, 0x00, 0x00, 0x00, 0x01]

/-- `sizeof(NETBEUIHeader)` -/
def netbeuiHeaderSize : Nat := 44

abbrev Memory := Nat → UInt8

/-- What a function does to the frame: `n` bytes at `o` are read or written, or copied to a fragment
of an ECB. -/
inductive Access
  | read (o n : Nat)
  | write (o n : Nat)
  | copy (o n size : Nat)
deriving DecidableEq

/-- The access stays in a frame of the length, and a copy in its fragment. -/
def Access.Inside (len : Nat) : Access → Prop
  | .read o n => o + n ≤ len
  | .write o n => o + n ≤ len
  | .copy o n size => n ≤ size ∧ o + n ≤ len

instance (len : Nat) : ∀ a : Access, Decidable (a.Inside len)
  | .read _ _ => inferInstanceAs (Decidable (_ ≤ _))
  | .write _ _ => inferInstanceAs (Decidable (_ ≤ _))
  | .copy _ _ _ => inferInstanceAs (Decidable (_ ∧ _))

/-- The conversion to `int16`. -/
def int16 (n : Int) : Int := n.bmod 65536

/-- `NGET16` -/
def ngetAt (mem : Memory) (o : Nat) : UInt16 := nget16 (mem o, mem (o + 1))

/-! ## `IPXInput` -/

/-- The copy loop of `IPXInput` with `PKTDataPoint` at `o`. -/
def ipxCopies : List ECBFragment → Nat → Int → List Access
  | [], _, _ => []
  | f :: fs, o, dataLen =>
      if dataLen ≤ 0 then []
      else if f.size ≠ 0 ∧ f.address ≠ none then
        let copyLen := min dataLen f.size
        .copy o copyLen.toNat f.size :: ipxCopies fs (o + f.size) (dataLen - copyLen)
      else ipxCopies fs o dataLen

/-- The search of `IPXInput`, with the header at `p`. -/
def ipxSearch (ecb : Ptr → ECB) (mem : Memory) (p : Nat) (dataLen : Int) :
    List Socket → List Access
  | [] => []
  | k :: ks =>
      .read (p + 16) 2 ::
        if ngetAt mem (p + 16) = k.socketNumber then
          if k.ecbLinkList = 0 then []
          else if (ecb k.ecbLinkList).inUseFlag = receiving then
            .read 6 6 :: ipxCopies (ecb k.ecbLinkList).fragments p dataLen
          else []
        else ipxSearch ecb mem p dataLen ks

def ipxInputAccesses (s : Layer) (mem : Memory) (p : Nat) (dataLen : Int) : List Access :=
  ipxSearch s.ecb mem p dataLen s.socketTable

/-! ## `NT_NETBEUItoIPXInput` -/

/-- The copy loop of `NT_NETBEUItoIPXInput` over the fragments behind the first. -/
def netbeuiCopies : List ECBFragment → Nat → Int → List Access
  | [], _, _ => []
  | f :: fs, o, dataLen =>
      if dataLen ≤ 0 then []
      else
        let copyLen := min dataLen f.size
        .copy o copyLen.toNat f.size :: netbeuiCopies fs (o + f.size) (dataLen - copyLen)

def netbeuiSearch (ecb : Ptr → ECB) (p : Nat) (dataLen : Int) (socket : UInt16) :
    List Socket → List Access
  | [] => []
  | k :: ks =>
      if socket = k.socketNumber then
        if k.ecbLinkList = 0 then []
        else if (ecb k.ecbLinkList).inUseFlag = receiving then
          .read 6 6 :: .read (p + 28) 16 ::
            netbeuiCopies ((ecb k.ecbLinkList).fragments.drop 1) (p + netbeuiHeaderSize)
              (int16 (dataLen - netbeuiHeaderSize))
        else []
      else netbeuiSearch ecb p dataLen socket ks

/-- The packet has the mark of the newer protocol behind its header. -/
def Marked (mem : Memory) (p : Nat) : Prop :=
  [mem (p + netbeuiHeaderSize), mem (p + netbeuiHeaderSize + 1),
    mem (p + netbeuiHeaderSize + 2)] = ntCheckMark2

instance (mem : Memory) (p : Nat) : Decidable (Marked mem p) := inferInstanceAs (Decidable (_ = _))

/-- `NETBEUISocket`, and the accesses on the way to it. -/
def netbeuiSocket (mem : Memory) (p : Nat) : UInt16 × List Access :=
  if Marked mem p then
    (nget16 (mem (p + netbeuiHeaderSize + 3), mem (p + netbeuiHeaderSize + 3)),
      [.read (p + netbeuiHeaderSize + 3) 1])
  else
    (ngetAt mem (p + netbeuiHeaderSize),
      [.read (p + netbeuiHeaderSize) 2, .write (p + netbeuiHeaderSize) 2])

/-- `name` is `MyNetBEUIName`, of which 14 characters are compared. -/
def netbeuiInputAccesses (s : Layer) (name : List UInt8) (mem : Memory) (p : Nat) (dataLen : Int) :
    List Access :=
  let found := netbeuiSocket mem p
  .read (p + netbeuiHeaderSize) 3 :: found.2 ++
    if found.1 = netbeuiListViewSocket then
      netbeuiSearch s.ecb p dataLen utilitySocket s.socketTable
    else
      .read (p + 12) 14 ::
        if readMem mem (p + 12) 14 = name.take 14 then
          netbeuiSearch s.ecb p dataLen found.1 s.socketTable
        else []

/-! ## `ProcessOtherPckt` -/

/-- `ntohs(eth->type)` -/
def etherType (mem : Memory) : UInt16 := nget16 (mem 13, mem 12)

/-- `FrameType` at the `switch`. -/
def frameType (mem : Memory) : UInt16 := if etherType mem = ipxENII then ipxENII else ngetAt mem 14

/-- `FrameType` of a SNAP frame. -/
def snapType (mem : Memory) : UInt16 := nget16 (mem 21, mem 20)

/-- What `ProcessOtherPckt` returns, and what it and the functions for IPX and NetBEUI touch. -/
def processOtherPckt (s : Layer) (name : List UInt8) (mem : Memory) (lenFrame : Nat) :
    Int × List Access :=
  let types := .read 12 2 :: if etherType mem = ipxENII then [] else [.read 14 2]
  let ipx (p : Nat) :=
    if p < lenFrame then ipxInputAccesses s mem p (int16 (lenFrame - p)) else []
  if frameType mem = ipx8023 ∨ frameType mem = ipxENII then (0, types ++ ipx 14)
  else if frameType mem = ipx8022 then (0, types ++ ipx 17)
  else if frameType mem = ipxSNAP then
    let types := types ++ [.read 20 1, .read 21 1]
    if snapType mem = ipxENII then (0, types ++ ipx 22)
    -- these go on to AppleTalk
    else if snapType mem = ethertypeAARP ∨ snapType mem = ethertypeAT then (0, types)
    else (-1, types)
  else if frameType mem = ipxBEUI then
    let types := types ++ [.read 0 6]
    if readMem mem 0 6 = netbeuiMulticast then
      (0, types ++ if 17 < lenFrame then
        netbeuiInputAccesses s name mem 17 (int16 (lenFrame - 17)) else [])
    else (-1, types)
  else (-1, types)

/-! ## Frames that are long enough -/

/-- The fields that are looked at for the type of the frame are all there.  The length tests of the
source let shorter frames through. -/
def LongEnough (s : Layer) (mem : Memory) (lenFrame : Nat) : Prop :=
  14 ≤ lenFrame ∧ (etherType mem ≠ ipxENII → 16 ≤ lenFrame) ∧
  (frameType mem = ipx8023 ∨ frameType mem = ipxENII →
    14 < lenFrame → s.socketTable ≠ [] → 32 ≤ lenFrame) ∧
  (frameType mem = ipx8022 → 17 < lenFrame → s.socketTable ≠ [] → 35 ≤ lenFrame) ∧
  (frameType mem = ipxSNAP → 22 ≤ lenFrame ∧
    (snapType mem = ipxENII → 22 < lenFrame → s.socketTable ≠ [] → 40 ≤ lenFrame)) ∧
  (frameType mem = ipxBEUI → readMem mem 0 6 = netbeuiMulticast → 17 < lenFrame →
    64 ≤ lenFrame ∧ (Marked mem 17 → 65 ≤ lenFrame))

section

variable {s : Layer} {mem : Memory} {lenFrame len p o : Nat} {dataLen : Int} {name : List UInt8}
  {socket : UInt16} {as bs : List Access} {fs : List ECBFragment} {ks : List Socket}
  {ecb : Ptr → ECB}

/-- All accesses stay inside. -/
def AllInside (len : Nat) (as : List Access) : Prop := ∀ a ∈ as, a.Inside len

@[simp] theorem allInside_nil : AllInside len [] := fun _ h ↦ by cases h

@[simp] theorem allInside_cons {a : Access} :
    AllInside len (a :: as) ↔ a.Inside len ∧ AllInside len as := List.forall_mem_cons

@[simp] theorem allInside_append : AllInside len (as ++ bs) ↔ AllInside len as ∧ AllInside len bs :=
  List.forall_mem_append

@[simp] theorem read_inside {n : Nat} : (Access.read o n).Inside len ↔ o + n ≤ len := Iff.rfl

@[simp] theorem write_inside {n : Nat} : (Access.write o n).Inside len ↔ o + n ≤ len := Iff.rfl

/-- The conversion does not make a length longer. -/
theorem int16_le {n : Int} (h : 0 < int16 n) (hn : -32768 ≤ n) : int16 n ≤ n := by
  unfold int16 at *
  rw [Int.bmod_def] at *
  split at h
  · rw [if_pos ‹_›]
    omega
  · rw [if_neg ‹_›]
    omega

/-- Each copy is cut to the fragment, and what is left of the frame shrinks with it. -/
theorem ipxCopies_inside (h : 0 < dataLen → o + dataLen ≤ len) :
    AllInside len (ipxCopies fs o dataLen) := by
  induction fs generalizing o dataLen with
  | nil => exact allInside_nil
  | cons f fs ih =>
      rw [ipxCopies]
      split
      · exact allInside_nil
      · split
        · apply allInside_cons.mpr
          constructor
          · show (min dataLen f.size).toNat ≤ f.size ∧ o + (min dataLen f.size).toNat ≤ len
            omega
          · apply ih
            intro hpos
            push_cast
            omega
        · exact ih h

theorem netbeuiCopies_inside (h : 0 < dataLen → o + dataLen ≤ len) :
    AllInside len (netbeuiCopies fs o dataLen) := by
  induction fs generalizing o dataLen with
  | nil => exact allInside_nil
  | cons f fs ih =>
      rw [netbeuiCopies]
      split
      · exact allInside_nil
      · apply allInside_cons.mpr
        constructor
        · show (min dataLen f.size).toNat ≤ f.size ∧ o + (min dataLen f.size).toNat ≤ len
          omega
        · apply ih
          intro hpos
          push_cast
          omega

theorem ipxSearch_inside (hdest : p + 18 ≤ len) (hsrc : 12 ≤ len)
    (h : 0 < dataLen → p + dataLen ≤ len) : AllInside len (ipxSearch ecb mem p dataLen ks) := by
  induction ks with
  | nil => exact allInside_nil
  | cons k ks ih =>
      rw [ipxSearch]
      refine allInside_cons.mpr ⟨by show p + 16 + 2 ≤ len; omega, ?_⟩
      split
      · split
        · exact allInside_nil
        · split
          · exact allInside_cons.mpr ⟨hsrc, ipxCopies_inside h⟩
          · exact allInside_nil
      · exact ih

/-- `IPXInput` stays in the frame if the socket of the destination does. -/
theorem ipxInput_inside (hp : 12 ≤ p) (hlen : p < len) :
    AllInside len (ipxInputAccesses s mem p (int16 (len - p))) ↔
      (s.socketTable ≠ [] → p + 18 ≤ len) := by
  have hle (hpos : 0 < int16 (len - p)) : p + int16 (len - p) ≤ len := by
    have h := int16_le hpos (by omega)
    omega
  rw [ipxInputAccesses]
  constructor
  · intro h hne
    cases htable : s.socketTable with
    | nil => exact absurd htable hne
    | cons k ks =>
        rw [htable, ipxSearch] at h
        exact (allInside_cons.mp h).1
  · intro h
    by_cases htable : s.socketTable = []
    · rw [htable]
      exact allInside_nil
    · exact ipxSearch_inside (h htable) (by omega) hle

theorem netbeuiSearch_inside (hhead : p + netbeuiHeaderSize ≤ len) (hsrc : 12 ≤ len)
    (h : 0 < int16 (dataLen - netbeuiHeaderSize) →
      ((p + netbeuiHeaderSize : Nat) : Int) + int16 (dataLen - netbeuiHeaderSize) ≤ len) :
    AllInside len (netbeuiSearch ecb p dataLen socket ks) := by
  induction ks with
  | nil => exact allInside_nil
  | cons k ks ih =>
      rw [netbeuiSearch]
      split
      · split
        · exact allInside_nil
        · split
          · refine allInside_cons.mpr ⟨hsrc, allInside_cons.mpr ⟨?_, netbeuiCopies_inside h⟩⟩
            show p + 28 + 16 ≤ len
            unfold netbeuiHeaderSize at hhead
            omega
          · exact allInside_nil
      · exact ih

/-- The two conversions of the length come to one. -/
theorem int16_int16_sub (n m : Int) : int16 (int16 n - m) = int16 (n - m) := by
  unfold int16
  exact Int.bmod_sub_bmod

/-- `NT_NETBEUItoIPXInput` stays in the frame if what it takes the socket from does. -/
theorem netbeuiInput_inside :
    AllInside len (netbeuiInputAccesses s name mem 17 (int16 (len - 17))) ↔
      64 ≤ len ∧ (Marked mem 17 → 65 ≤ len) := by
  have hsearch (h : 64 ≤ len) (socket : UInt16) :
      AllInside len (netbeuiSearch s.ecb 17 (int16 (len - 17)) socket s.socketTable) := by
    apply netbeuiSearch_inside
    · unfold netbeuiHeaderSize
      omega
    · omega
    · rw [int16_int16_sub]
      intro hpos
      unfold netbeuiHeaderSize at *
      have h := int16_le hpos (by omega)
      omega
  have hfound : AllInside len (netbeuiSocket mem 17).2 ↔
      if Marked mem 17 then 65 ≤ len else 63 ≤ len := by
    unfold netbeuiSocket netbeuiHeaderSize
    split
    · simp only [allInside_cons, allInside_nil, read_inside, and_true]
    · simp only [allInside_cons, allInside_nil, read_inside, write_inside, and_true, and_self]
  simp only [netbeuiInputAccesses]
  rw [allInside_append, allInside_cons, hfound]
  constructor
  · intro h
    have h64 : 17 + 44 + 3 ≤ len := h.1.1
    refine ⟨h64, fun hmarked ↦ ?_⟩
    have hsock := h.1.2
    rwa [if_pos hmarked] at hsock
  · intro h
    refine ⟨⟨h.1, ?_⟩, ?_⟩
    · split
      · exact h.2 ‹_›
      · omega
    · split
      · exact hsearch h.1 _
      · refine allInside_cons.mpr ⟨by show 17 + 12 + 14 ≤ len; omega, ?_⟩
        split
        · exact hsearch h.1 _
        · exact allInside_nil

/-- The accesses of `ProcessOtherPckt` to the two type fields. -/
theorem types_inside :
    AllInside len (.read 12 2 :: if etherType mem = ipxENII then [] else [.read 14 2]) ↔
      14 ≤ len ∧ (etherType mem ≠ ipxENII → 16 ≤ len) := by
  rw [allInside_cons, read_inside]
  by_cases h : etherType mem = ipxENII
  · rw [if_pos h]
    exact and_congr_right fun _ ↦ iff_of_true allInside_nil fun hne ↦ absurd h hne
  · rw [if_neg h, allInside_cons, read_inside]
    exact and_congr_right fun _ ↦ ⟨fun hle _ ↦ hle.1, fun hle ↦ ⟨hle h, allInside_nil⟩⟩

theorem ipx_inside (hp : 12 ≤ p) :
    AllInside len (if p < len then ipxInputAccesses s mem p (int16 (len - p)) else []) ↔
      (p < len → s.socketTable ≠ [] → p + 18 ≤ len) := by
  by_cases h : p < len
  · rw [if_pos h, ipxInput_inside hp h]
    exact ⟨fun hle _ ↦ hle, fun hle ↦ hle h⟩
  · rw [if_neg h]
    exact iff_of_true allInside_nil fun hlt ↦ absurd hlt h

theorem snap_inside :
    AllInside len [.read 20 1, .read 21 1] ↔ 22 ≤ len := by
  rw [allInside_cons, allInside_cons, read_inside, read_inside]
  exact ⟨fun h ↦ h.2.1, fun h ↦ ⟨by omega, h, allInside_nil⟩⟩

end

/-- The dispatch stays in the frame just when the frame has the fields of its type. -/
theorem dispatch_inside_iff (s : Layer) (name : List UInt8) (mem : Memory) (lenFrame : Nat) :
    (∀ a ∈ (processOtherPckt s name mem lenFrame).2, a.Inside lenFrame) ↔
      LongEnough s mem lenFrame := by
  show AllInside lenFrame _ ↔ _
  have h8022 : ipxSNAP ≠ ipx8022 ∧ ipxBEUI ≠ ipx8022 := by decide
  have hSNAP : ipxBEUI ≠ ipxSNAP := by decide
  simp only [processOtherPckt, LongEnough]
  rw [← and_assoc, ← types_inside]
  -- one encapsulation after the other, as in the `switch`
  by_cases hipx : frameType mem = ipx8023 ∨ frameType mem = ipxENII
  · have hother : frameType mem ≠ ipx8022 ∧ frameType mem ≠ ipxSNAP ∧ frameType mem ≠ ipxBEUI := by
      cases hipx with
      | inl h => exact h ▸ (by decide)
      | inr h => exact h ▸ (by decide)
    rw [if_pos hipx, allInside_append, ipx_inside (by decide)]
    exact and_congr_right fun _ ↦ ⟨fun h ↦ ⟨fun _ ↦ h, fun h' ↦ absurd h' hother.1,
      fun h' ↦ absurd h' hother.2.1, fun h' ↦ absurd h' hother.2.2⟩, fun h ↦ h.1 hipx⟩
  rw [if_neg hipx]
  by_cases h1 : frameType mem = ipx8022
  · rw [if_pos h1, allInside_append, ipx_inside (by decide)]
    refine and_congr_right fun _ ↦ ⟨fun h ↦ ⟨fun h' ↦ absurd h' hipx, fun _ ↦ h, fun h' ↦ ?_,
      fun h' ↦ ?_⟩, fun h ↦ h.2.1 h1⟩
    · exact absurd (h'.symm.trans h1) h8022.1
    · exact absurd (h'.symm.trans h1) h8022.2
  rw [if_neg h1]
  by_cases h2 : frameType mem = ipxSNAP
  · have hbeui : frameType mem ≠ ipxBEUI := fun h' ↦ hSNAP (h'.symm.trans h2)
    have hrest {b : Prop} : (22 ≤ lenFrame ∧ b) ↔
        ((frameType mem = ipx8023 ∨ frameType mem = ipxENII → 14 < lenFrame →
            s.socketTable ≠ [] → 32 ≤ lenFrame) ∧
          (frameType mem = ipx8022 → 17 < lenFrame → s.socketTable ≠ [] → 35 ≤ lenFrame) ∧
          (frameType mem = ipxSNAP → 22 ≤ lenFrame ∧ b) ∧
          (frameType mem = ipxBEUI → readMem mem 0 6 = netbeuiMulticast → 17 < lenFrame →
            64 ≤ lenFrame ∧ (Marked mem 17 → 65 ≤ lenFrame))) :=
      ⟨fun h ↦ ⟨fun h' ↦ absurd h' hipx, fun h' ↦ absurd h' h1, fun _ ↦ h,
        fun h' ↦ absurd h' hbeui⟩, fun h ↦ h.2.2.1 h2⟩
    rw [if_pos h2, ← hrest]
    by_cases h3 : snapType mem = ipxENII
    · rw [if_pos h3, allInside_append, allInside_append, snap_inside, ipx_inside (by decide),
        and_assoc]
      exact and_congr_right fun _ ↦ and_congr_right fun _ ↦ ⟨fun h _ ↦ h, fun h ↦ h h3⟩
    · rw [if_neg h3]
      have hshort : AllInside lenFrame
          ((.read 12 2 :: if etherType mem = ipxENII then [] else [.read 14 2]) ++
            [.read 20 1, .read 21 1]) ↔ AllInside lenFrame
          (.read 12 2 :: if etherType mem = ipxENII then [] else [.read 14 2]) ∧ 22 ≤ lenFrame ∧
            (snapType mem = ipxENII → 22 < lenFrame → s.socketTable ≠ [] → 40 ≤ lenFrame) := by
        rw [allInside_append, snap_inside]
        exact and_congr_right fun _ ↦ ⟨fun h ↦ ⟨h, fun h' ↦ absurd h' h3⟩, fun h ↦ h.1⟩
      split
      · exact hshort
      · exact hshort
  rw [if_neg h2]
  have hrest {b : Prop} : (frameType mem = ipxBEUI → b) ↔
      ((frameType mem = ipx8023 ∨ frameType mem = ipxENII → 14 < lenFrame →
          s.socketTable ≠ [] → 32 ≤ lenFrame) ∧
        (frameType mem = ipx8022 → 17 < lenFrame → s.socketTable ≠ [] → 35 ≤ lenFrame) ∧
        (frameType mem = ipxSNAP → 22 ≤ lenFrame ∧
          (snapType mem = ipxENII → 22 < lenFrame → s.socketTable ≠ [] → 40 ≤ lenFrame)) ∧
        (frameType mem = ipxBEUI → b)) :=
    ⟨fun h ↦ ⟨fun h' ↦ absurd h' hipx, fun h' ↦ absurd h' h1, fun h' ↦ absurd h' h2, h⟩,
      fun h ↦ h.2.2.2⟩
  rw [← hrest]
  by_cases h3 : frameType mem = ipxBEUI
  · rw [if_pos h3]
    have hdest : AllInside lenFrame [.read 0 6] ↔ 6 ≤ lenFrame := by
      rw [allInside_cons, read_inside]
      exact ⟨fun h ↦ h.1, fun h ↦ ⟨h, allInside_nil⟩⟩
    by_cases h4 : readMem mem 0 6 = netbeuiMulticast
    · rw [if_pos h4, allInside_append, allInside_append, hdest, and_assoc]
      refine and_congr_right fun htypes ↦ ?_
      have h14 : 14 ≤ lenFrame := (types_inside.mp htypes).1
      by_cases hlt : 17 < lenFrame
      · rw [if_pos hlt, netbeuiInput_inside]
        exact ⟨fun h _ _ _ ↦ h.2, fun h ↦ ⟨by omega, h h3 h4 hlt⟩⟩
      · rw [if_neg hlt]
        exact ⟨fun _ _ _ h ↦ absurd h hlt, fun _ ↦ ⟨by omega, allInside_nil⟩⟩
    · rw [if_neg h4, allInside_append, hdest]
      refine and_congr_right fun htypes ↦ ?_
      have h14 : 14 ≤ lenFrame := (types_inside.mp htypes).1
      exact ⟨fun _ _ h ↦ absurd h h4, fun _ ↦ by omega⟩
  · rw [if_neg h3]
    exact ⟨fun h ↦ ⟨h, fun h' ↦ absurd h' h3⟩, fun h ↦ h.1⟩

/-- A NetBEUI frame of 60 bytes, the least an Ethernet has. -/
def shortNetbeui : Memory := fun i ↦
  (netbeuiMulticast ++ [0x00, 0x40, 0x01, 0x02, 0x03, 0x04, 0x00, 0x2E, 0xF0, 0xF0]).getD i 0

theorem shortNetbeui_outside :
    ¬∀ (s : Layer) (name : List UInt8) (mem : Memory) (lenFrame : Nat),
      ∀ a ∈ (processOtherPckt s name mem lenFrame).2, a.Inside lenFrame := by
  intro hall
  have hread : Access.read 61 3 ∈
      (processOtherPckt (ipxInitialize fun _ ↦ ⟨0, 0, 0, 0, 0, [], []⟩) [] shortNetbeui 60).2 := by
    decide
  exact absurd (hall _ _ _ _ _ hread) (by decide)

end PrintServer.Ipx
