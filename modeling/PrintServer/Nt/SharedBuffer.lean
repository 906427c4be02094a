import PrintServer.Flash.Eeprom
import PrintServer.Nt.ConfigBlocks

/-!
# Two commands with one buffer

`UtilConfigBox_Adv` takes the settings of a box in blocks and `UtilRecvEEPROM_Adv` a whole record
(ntipxbeui.c).  Each has a block counter of its own, but `rec_buffer_ipx` and the offset in it
belong to both.  `UtilityESR` handles one packet after the other.
-/

namespace PrintServer.Nt.Ipx

open Lib
open Flash (Memory)

def maxPsReadLen : Nat := 1410

/-- `sizeof(rec_buffer_ipx)` -/
def recBufferSize : Nat := 3 * maxPsReadLen

inductive Cmd
  | cmd21
  | cmd2D
deriving DecidableEq

/-- The buffer is applied: the last block's total, the blocks accepted for the command since its
last block 1, and the memory from `rec_buffer_ipx` on. -/
structure Applied where
  cmd : Cmd
  totalBlock : Nat
  transfer : List Block
  buffer : Memory

/-- `SendUtilData` as far as a handler fills it. -/
structure Reply where
  cmd : UInt8
  result : UInt8
  blockNo : UInt8
  totalBlock : UInt8
deriving DecidableEq

/-- `util` is the memory from `ReceiveUtilData` on, `recBuffer` that from `rec_buffer_ipx` on.  The
last three fields are records and no variables of the program: the blocks accepted for a command
since its last block 1, the command of the last accepted block, and what was applied. -/
structure State where
  /-- `Previous_BNo_IPX` -/
  previousIpx : UInt8
  /-- `Previous_BNo` -/
  previous : UInt8
  tTran : UInt16
  util : Memory
  recBuffer : Memory
  sent : List Reply
  transfer : Cmd → List Block
  latest : Option Cmd
  applied : List Applied

/-- A packet as the ECB gets it, and whether the flash is written without an error. -/
structure Arrival where
  packet : List UInt8
  written : Bool

namespace State

variable (s : State)

/-- `ReceiveUtilData.Nt2.Data[i]`, the same as `ReceiveUtilData.Nt4.Data[i]` -/
def data (i : Nat) : UInt8 := s.util (6 + i)

def blockNo : UInt8 := s.data 0
def totalBlock : UInt8 := s.data 1
def blockSize : UInt16 := UInt16.ofNat ((s.data 2).toNat + 256 * (s.data 3).toNat)

/-- `ReceiveUtilECB` is filled; what lies behind a short packet stays. -/
def receive (packet : List UInt8) : State :=
  { s with util := writeMem s.util 0 (packet.take utilityRecSize) }

/-- The counter that a command looks at. -/
def counter : Cmd → UInt8
  | .cmd21 => s.previousIpx
  | .cmd2D => s.previous

/-- The tests at the start of both handlers. -/
def Accepts (node : List UInt8) (c : Cmd) : Prop :=
  readMem s.util 10 6 = node ∧ s.blockNo.toNat ≤ (s.counter c).toNat + 1 ∧ s.counter c ≤ s.blockNo

instance (node : List UInt8) (c : Cmd) : Decidable (s.Accepts node c) :=
  inferInstanceAs (Decidable (_ ∧ _))

/-- The `memcpy`, the offset and the `memset` of the `Data` with `size` bytes. -/
def append (size : Nat) : State :=
  { s with
    recBuffer := writeMem s.recBuffer s.tTran.toNat (readMem s.util 16 s.blockSize.toNat)
    tTran := s.tTran + s.blockSize
    util := zeroMem s.util 6 size }

/-- Records only. -/
def record (c : Cmd) (block : Block) : State :=
  { s with
    transfer := fun d ↦
      if d = c then (if block.no = 1 then [block] else s.transfer c ++ [block]) else s.transfer d
    latest := some c }

/-- Records only. -/
def apply (c : Cmd) (totalBlock : UInt8) : State :=
  { s with applied := s.applied ++ [⟨c, totalBlock.toNat, s.transfer c, s.recBuffer⟩] }

/-- The answer to the last block. -/
def sendUtilityPacket (reply : Reply) : State := { s with sent := s.sent ++ [reply] }

/-- `block` is what the packet brought, for the record only. -/
def utilConfigBoxAdv (node : List UInt8) (block : Block) (written : Bool) : State :=
  let blockNo := s.blockNo
  let totalBlock := s.totalBlock
  if s.Accepts node .cmd21 then
    let s :=
      if blockNo = 1 then
        { s with tTran := 0, recBuffer := zeroMem s.recBuffer 0 datasize }
      else s
    let s := ({ s with previousIpx := blockNo }.append 1024).record .cmd21 block
    if blockNo = totalBlock then
      let s := { s.apply .cmd21 totalBlock with tTran := 0, previousIpx := 0 }
      s.sendUtilityPacket ⟨0xA1, if written then 0x00 else 0xFF, blockNo, totalBlock⟩
    else s
  else s

/-- `ZOT_Mark` and `Model` of the record in the buffer. -/
def Marked (psModel : UInt8) : Prop :=
  readMem s.recBuffer Flash.Eeprom.zotMark.offset 4 = [0x5A, 0x4F, 0x54, 0] ∧
    s.recBuffer Flash.Eeprom.model.offset = psModel

instance (psModel : UInt8) : Decidable (s.Marked psModel) := inferInstanceAs (Decidable (_ ∧ _))

/-- `psModel` is `CURRENT_PS_MODEL`, and `block` what the packet brought, for the record only. -/
def utilRecvEEPROMAdv (node : List UInt8) (psModel : UInt8) (block : Block) (written : Bool) :
    State :=
  let blockNo := s.blockNo
  let totalBlock := s.totalBlock
  if s.Accepts node .cmd2D then
    let s := ({ s with previous := blockNo }.append maxPsReadLen).record .cmd2D block
    if blockNo = totalBlock then
      let result := if s.Marked psModel ∧ written = true then 0x00 else 0xFF
      let s := if s.Marked psModel then s.apply .cmd2D totalBlock else s
      let s := { s with tTran := 0, previous := 0 }
      s.sendUtilityPacket ⟨0xAD, result, blockNo, totalBlock⟩
    else s
  else s

/-- The block that a packet brings to the state that has received it. -/
def blockOf (packet : List UInt8) : Block :=
  ⟨s.blockNo.toNat, ((packet.take utilityRecSize).drop 16).take s.blockSize.toNat⟩

/-- The command of a packet with the mark `NET`, if it is one of the two. -/
def cmd : Option Cmd :=
  if readMem s.util 0 3 = [0x4E, 0x45, 0x54] then
    if s.util 4 = 0x21 then some .cmd21
    else if s.util 4 = 0x2D then some .cmd2D
    else none
  else none

end State

def boot (util recBuffer : Memory) : State where
  previousIpx := 0
  previous := 0
  tTran := 0
  util := util
  recBuffer := recBuffer
  sent := []
  transfer _ := []
  latest := none
  applied := []

/-- The box with the node address `node`, over its packets with one of the two commands. -/
def utilityESR (node : List UInt8) (psModel : UInt8) (util recBuffer : Memory) :
    Machine State Arrival where
  init := boot util recBuffer
  step s a :=
    let r := s.receive a.packet
    match r.cmd with
    | none => none
    | some .cmd21 => some (r.utilConfigBoxAdv node (r.blockOf a.packet) a.written)
    | some .cmd2D => some (r.utilRecvEEPROMAdv node psModel (r.blockOf a.packet) a.written)

end PrintServer.Nt.Ipx
