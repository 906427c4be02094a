import PrintServer.Lib.Machine
import PrintServer.Lib.Memory

/-!
# Configuration in blocks

The utility writes the record of a box in several datagrams: `UtilConfigBoxUDP_Adv` (ntudp.c) behind
the receive loop of `NTUtilityUDP`, and the block loop of `UtilViewBoxUDP_Adv` that cuts such a
record up.
-/

namespace PrintServer.Nt

open Lib

def sizeofListView : Nat := 999
def sizeofListViewExt : Nat := 531
def datasize : Nat := sizeofListView + sizeofListViewExt - 1
def packsize : Nat := 1024 - 4 - 6

/-- `sizeof(rec_buffer_udp)` -/
def recBufferSize : Nat := sizeofListView + sizeofListViewExt - 1 + 6

/-- `sizeof(NTUDPUtilData)`; the datagrams sent are a `NEW_NT_Utility_Rec`. -/
def utilityRecSize : Nat := 1416
def newUtilityRecSize : Nat := 1030

/-- The number of an accepted datagram and the bytes of its block that it brought. -/
structure Block where
  no : Nat
  bytes : List UInt8
deriving DecidableEq

/-- A call of `UtilGetListViewData`: the last block's total, the datagrams accepted since the last
block 1, and the memory from `rec_buffer_udp` on. -/
structure ViewCall where
  totalBlock : Nat
  transfer : List Block
  buffer : Nat → UInt8

/-- `util` is the memory from `NTUDPUtilData` on, `recBuffer` that from `rec_buffer_udp` on.  The
last two fields are records and no variables of the program. -/
structure Reassembly where
  previous : UInt8
  tTran : UInt16
  util : Nat → UInt8
  recBuffer : Nat → UInt8
  sent : List (List UInt8)
  transfer : List Block
  calls : List ViewCall

/-- What `recvfrom` brings, and whether `WriteToEEPROM` returns 0 where it is called. -/
structure Arrival where
  datagram : List UInt8
  written : Bool

def boot (util recBuffer : Nat → UInt8) : Reassembly :=
  { previous := 0, tTran := 0, util := util, recBuffer := recBuffer, sent := [], transfer := [],
    calls := [] }

/-- `memset` -/
def zeroMem (mem : Nat → UInt8) (o n : Nat) : Nat → UInt8 :=
  fun i ↦ if o ≤ i ∧ i < o + n then 0 else mem i

namespace Reassembly

/-- `NTUDPUtilData.Nt2.Data[i]` -/
def data (s : Reassembly) (i : Nat) : UInt8 := s.util (6 + i)

def blockNo (s : Reassembly) : UInt8 := s.data 0
def totalBlock (s : Reassembly) : UInt8 := s.data 1
def blockSize (s : Reassembly) : UInt16 :=
  UInt16.ofNat ((s.data 2).toNat + 256 * (s.data 3).toNat)

/-- `recvfrom` of `NTUtilityUDP`; what lies behind a short datagram stays. -/
def receive (s : Reassembly) (d : List UInt8) : Reassembly :=
  { s with util := writeMem s.util 0 (d.take utilityRecSize) }

/-- The two tests at the start of `UtilConfigBoxUDP_Adv`. -/
def Accepts (node : List UInt8) (s : Reassembly) : Prop :=
  readMem s.util 10 6 = node ∧ s.blockNo.toNat ≤ s.previous.toNat + 1 ∧ s.previous ≤ s.blockNo

instance (node : List UInt8) (s : Reassembly) : Decidable (s.Accepts node) :=
  inferInstanceAs (Decidable (_ ∧ _))

/-- Up to `Previous_BNo_UDP = Block_No`. -/
def enter (s : Reassembly) : Reassembly :=
  if s.blockNo = 1 then
    { s with
      previous := s.blockNo
      tTran := 0
      recBuffer := zeroMem s.recBuffer 0 recBufferSize
      transfer := [] }
  else { s with previous := s.blockNo }

/-- The `memcpy`, the offset and the `memset` of the packet. -/
def append (s : Reassembly) (block : Block) : Reassembly :=
  { s with
    recBuffer := writeMem s.recBuffer s.tTran.toNat (readMem s.util 16 s.blockSize.toNat)
    tTran := s.tTran + s.blockSize
    util := zeroMem s.util 6 1024
    transfer := s.transfer ++ [block] }

/-- The packet that goes back. -/
def reply (s : Reassembly) (blockNo totalBlock : UInt8) (written : Bool) : Nat → UInt8 :=
  writeMem s.util 4 [0xA1, if written then 0x00 else 0xFF, blockNo, totalBlock]

/-- The calls and the answer after the last block. -/
def configure (s : Reassembly) (blockNo totalBlock : UInt8) (written : Bool) : Reassembly :=
  { s with
    previous := 0
    tTran := 0
    util := s.reply blockNo totalBlock written
    sent := s.sent ++ [readMem (s.reply blockNo totalBlock written) 0 newUtilityRecSize]
    calls := s.calls ++ [⟨totalBlock.toNat, s.transfer, s.recBuffer⟩] }

/-- The block that the datagram `d` brings to the state that has received it. -/
def blockOf (s : Reassembly) (d : List UInt8) : Block :=
  ⟨s.blockNo.toNat, ((d.take utilityRecSize).drop 16).take s.blockSize.toNat⟩

/-- `d` is the datagram in `s.util`, for the record only. -/
def utilConfigBoxUDPAdv (node d : List UInt8) (written : Bool) (s : Reassembly) : Reassembly :=
  if s.Accepts node then
    let t := s.enter.append (s.blockOf d)
    if s.blockNo = s.totalBlock then t.configure s.blockNo s.totalBlock written else t
  else s

end Reassembly

/-- The datagrams that `NTUtilityUDP` and `NTDoCommandUDP` hand to `UtilConfigBoxUDP_Adv`: the mark
`NET` and `CMD21`. -/
def IsCmd21 (s : Reassembly) : Prop := readMem s.util 0 3 = [0x4E, 0x45, 0x54] ∧ s.util 4 = 0x21

instance (s : Reassembly) : Decidable (IsCmd21 s) := inferInstanceAs (Decidable (_ ∧ _))

/-- The box with the node address `node`, over its `CMD21` datagrams. -/
def configBox (node : List UInt8) (util recBuffer : Nat → UInt8) :
    Machine Reassembly Arrival where
  init := boot util recBuffer
  step s a :=
    if a.datagram ≠ [] ∧ IsCmd21 (s.receive a.datagram) then
      some ((s.receive a.datagram).utilConfigBoxUDPAdv node a.datagram a.written)
    else none

/-! ## What the utility sends back -/

def viewTotal : Nat :=
  if datasize % packsize ≠ 0 then datasize / packsize + 1 else datasize / packsize

def viewBlockSize (blockNo : Nat) : Nat :=
  if blockNo = viewTotal then
    if datasize % packsize = 0 then packsize else datasize % packsize
  else packsize

/-- `Data` of a datagram, up to the end of the block. -/
def blockData (blockNo total size : Nat) (node block : List UInt8) : List UInt8 :=
  [UInt8.ofNat blockNo, UInt8.ofNat total, UInt8.ofNat size, UInt8.ofNat (size / 256)] ++
    node ++ block

/-- The loop of `UtilViewBoxUDP_Adv` over the record at `init_p`, as the `Data` of each datagram
that it sends. -/
def utilViewBoxUDPAdv (record : List UInt8) (blockNo : Nat) : List (List UInt8) :=
  if blockNo ≤ viewTotal then
    blockData blockNo viewTotal (viewBlockSize blockNo) (record.take 6)
        ((record.drop ((blockNo - 1) * packsize)).take (viewBlockSize blockNo)) ::
      utilViewBoxUDPAdv record (blockNo + 1)
  else []
termination_by viewTotal + 1 - blockNo

/-- The datagram of the utility with the `Type` and the second byte of `Cmd` it likes. -/
def cmd21 (type mode : UInt8) (data : List UInt8) : List UInt8 :=
  [0x4E, 0x45, 0x54, type, 0x21, mode] ++ data

end PrintServer.Nt
