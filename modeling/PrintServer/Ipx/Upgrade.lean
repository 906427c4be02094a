import PrintServer.Lib.Machine
import PrintServer.Lib.Memory

/-!
# Firmware over IPX

`UtilStartUpgrade`, the thread `IPXUpgrade` and the service routine `UtilUpgradeESR` of
ntipxbeui.c, up to the result of `ApUpgradeFirmware`.  A label is a start command, a packet for
the upgrade socket, or a step of the thread; packets may come between any two of its statements
and between any two bytes of its `memcpy`.
-/

namespace PrintServer.Ipx

open Lib

def upgradeTempAddress : Nat := 0x00530000
def kFarHeapBase : Nat := 0x00600000
def upgradeBlockSize : Nat := 1024
def upgradeMaxRetryTimes : Nat := 4
def programCode2KSize : Nat := 4
def ntCheckMark2 : List UInt8 := [0x4E, 0x45, 0x54]
def cmd06 : UInt8 := 0x06
def cmd07 : UInt8 := 0x07

/-- `IPX_Upgrade_Rec`: the mark, the type and the command in front of the block number. -/
def blockNumberOffset : Nat := 6
def dataOffset : Nat := 8
def upgradeRecSize : Nat := dataOffset + upgradeBlockSize

/-- The block number at `m`, as the code loads it. -/
def blockNumber (m : Nat → UInt8) : UInt16 :=
  UInt16.ofNat ((m blockNumberOffset).toNat + 256 * (m (blockNumberOffset + 1)).toNat)

inductive ThreadPc
  | none
  | start
  -- `while( TotalUpgradeBlock-- )`
  | loop
  | request
  | wait
  | test
  -- the first `i` bytes of the block are copied
  | copy (i : Nat)
  | behindLoop
  | apUpgradeFirmware
  | sendFinish
  | waitFinish
  | sendFail
  | waitFail
  | reset
  | leave
deriving DecidableEq

/-- `SendUpgradeCmd(Cmd, Status, BlockNumber)` -/
structure Sent where
  cmd : UInt8
  status : UInt8
  blockNumber : UInt16
deriving DecidableEq

/-- A call of `ApUpgradeFirmware`, with the number of blocks that were announced and of those that
were copied before it. -/
structure FirmwareCall where
  address : Nat
  bsize : Nat
  announced : Nat
  copied : Nat
deriving DecidableEq

/-- `recv` is `RecvUtilUpgradeData`.  The last four fields are no variables of the program: the
number of blocks that the start command announced, the request number and the place of each block
that was copied, the packets received, and the packet that number and data of `recv` came with. -/
structure UpgradeSys where
  waiting : Bool
  upgradeUsed : Bool
  totalUpgradeBlock : UInt16
  recv : Nat → UInt8
  semData : Nat
  semFinish : Nat
  ram : Nat → UInt8
  pc : ThreadPc
  requestBlock : UInt16
  curTempAddress : Nat
  retry : Nat
  noTimeout : Bool
  bsize : Nat
  sent : List Sent
  calls : List FirmwareCall
  announced : Nat
  copied : List (UInt16 × Nat)
  packets : List (List UInt8)
  record : Option (List UInt8)

/-- Before the first command; the receive buffer is cleared memory. -/
def upgradeStart (ram : Nat → UInt8) : UpgradeSys :=
  { waiting := true, upgradeUsed := false, totalUpgradeBlock := 0, recv := fun _ ↦ 0, semData := 0,
    semFinish := 0, ram := ram, pc := .none, requestBlock := 0, curTempAddress := 0, retry := 0,
    noTimeout := true, bsize := 0, sent := [], calls := [], announced := 0, copied := [],
    packets := [], record := none }

namespace UpgradeSys

variable (s : UpgradeSys)

/-- `UtilStartUpgrade`; `alloc` is the result of `vAllocCode2Memory`, which clears the first
sectors and takes the port. -/
def utilStartUpgrade (word : UInt16) (alloc : Bool) : UpgradeSys :=
  if s.waiting ∧ alloc then
    { s with
      upgradeUsed := true
      ram := writeMem s.ram upgradeTempAddress (List.replicate (programCode2KSize * 1024) 0)
      totalUpgradeBlock := word + 1
      announced := word.toNat + 1
      copied := []
      pc := .start }
  else s

/-- The packet in the buffer of the listening ECB: as much of it as there is.  A packet that ends
inside the block number leaves a number that no packet has. -/
def fill (p : List UInt8) : UpgradeSys :=
  { s with
    recv := writeMem s.recv 0 (p.take upgradeRecSize)
    packets := s.packets ++ [p]
    record :=
      if p.length ≤ blockNumberOffset then s.record
      else if p.length < dataOffset then none
      else some p }

/-- `UtilUpgradeESR` -/
def utilUpgradeESR : UpgradeSys :=
  if readMem s.recv 0 3 = ntCheckMark2 then
    if s.recv 4 = cmd06 then { s with semData := s.semData + 1 }
    else if s.recv 4 = cmd07 then { s with semFinish := s.semFinish + 1 }
    else s
  else s

def sendUpgradeCmd (cmd status : UInt8) (block : UInt16) : UpgradeSys :=
  { s with sent := s.sent ++ [⟨cmd, status, block⟩] }

end UpgradeSys

/-- How a statement of the thread goes on: `timeOut` ends a wait whose semaphore is not posted,
`bytes n` is as much of the `memcpy` as is done before something else may happen. -/
inductive ThreadChoice
  | go
  | timeOut
  | bytes (n : Nat)
  | upgraded (ok : Bool)
deriving DecidableEq

/-- One statement of `IPXUpgrade`. -/
def ipxUpgrade (s : UpgradeSys) : ThreadPc → ThreadChoice → Option UpgradeSys
  | .start, .go =>
      some { s with
        waiting := false
        requestBlock := 0
        curTempAddress := upgradeTempAddress
        noTimeout := true
        bsize := 0
        pc := .loop }
  | .loop, .go =>
      let t := { s with totalUpgradeBlock := s.totalUpgradeBlock - 1 }
      if s.totalUpgradeBlock ≠ 0 then some { t with retry := 0, pc := .request }
      else some { t with pc := .behindLoop }
  | .request, .go =>
      some ({ s with semData := 0, pc := .wait }.sendUpgradeCmd 0x86 0x00 s.requestBlock)
  | .wait, .go =>
      if 0 < s.semData then
        some { s with semData := s.semData - 1, noTimeout := true, pc := .test }
      else none
  | .wait, .timeOut =>
      if s.semData = 0 then some { s with noTimeout := false, pc := .test } else none
  | .test, .go =>
      if s.noTimeout ∧ blockNumber s.recv = s.requestBlock then some { s with pc := .copy 0 }
      else if s.retry + 1 < upgradeMaxRetryTimes then
        some { s with noTimeout := false, retry := s.retry + 1, pc := .request }
      else some { s with noTimeout := false, retry := s.retry + 1, pc := .behindLoop }
  | .copy i, .bytes n =>
      if 0 < n ∧ i + n ≤ upgradeBlockSize then
        let t := { s with
          ram := writeMem s.ram (s.curTempAddress + i) (readMem s.recv (dataOffset + i) n) }
        if i + n < upgradeBlockSize then some { t with pc := .copy (i + n) }
        else
          some { t with
            copied := s.copied ++ [(s.requestBlock, s.curTempAddress)]
            bsize := s.bsize + upgradeBlockSize
            curTempAddress := s.curTempAddress + upgradeBlockSize
            requestBlock := s.requestBlock + 1
            pc := .loop }
      else none
  | .behindLoop, .go =>
      if s.noTimeout then
        if s.totalUpgradeBlock = 0xFFFF then
          some { s with
            calls := s.calls ++ [⟨upgradeTempAddress, s.bsize, s.announced, s.copied.length⟩]
            pc := .apUpgradeFirmware }
        else some { s with retry := 0, pc := .sendFail }
      else some { s with pc := .leave }
  | .apUpgradeFirmware, .upgraded ok =>
      some { s with retry := 0, pc := if ok then .sendFinish else .sendFail }
  | .sendFinish, .go =>
      some ({ s with semFinish := 0, pc := .waitFinish }.sendUpgradeCmd 0x87 0x00 0)
  | .waitFinish, .go =>
      if 0 < s.semFinish then
        some { s with
          semFinish := s.semFinish - 1
          retry := s.retry + 1
          pc := if s.retry + 1 < upgradeMaxRetryTimes then .sendFinish else .reset }
      else none
  | .waitFinish, .timeOut =>
      if s.semFinish = 0 then some { s with noTimeout := false, pc := .reset } else none
  | .sendFail, .go =>
      some ({ s with semData := 0, pc := .waitFail }.sendUpgradeCmd 0x86 0xFF s.requestBlock)
  | .waitFail, .go =>
      if 0 < s.semData then
        some { s with
          semData := s.semData - 1
          retry := s.retry + 1
          pc := if s.retry + 1 < upgradeMaxRetryTimes then .sendFail else .leave }
      else none
  | .waitFail, .timeOut =>
      if s.semData = 0 then some { s with noTimeout := false, pc := .leave } else none
  -- `vReleaseCode2Memory`, the mode and the end of the thread
  | .leave, .go => some { s with upgradeUsed := false, waiting := true, pc := .none }
  | _, _ => none

inductive UpgradeAct
  | start (word : UInt16) (alloc : Bool)
  | packet (bytes : List UInt8)
  | thread (c : ThreadChoice)
deriving DecidableEq

/-- `vAllocCode2Memory` refuses a port that an upgrade has. -/
def upgradeStep (s : UpgradeSys) : UpgradeAct → Option UpgradeSys
  | .start word alloc =>
      if alloc = true → s.upgradeUsed = false then some (s.utilStartUpgrade word alloc) else none
  | .packet p => some (s.fill p).utilUpgradeESR
  | .thread c => ipxUpgrade s s.pc c

def upgradeMachine (ram : Nat → UInt8) : Machine UpgradeSys UpgradeAct :=
  ⟨upgradeStart ram, upgradeStep⟩

/-! ## The file that is assembled -/

/-- The payload of a packet. -/
def payload (p : List UInt8) : List UInt8 := (p.drop dataOffset).take upgradeBlockSize

/-- The packet has a block number, and it is `k`. -/
def Numbered (p : List UInt8) (k : UInt16) : Prop :=
  dataOffset ≤ p.length ∧ blockNumber (fun i ↦ p.getD i 0) = k

/-- The packet is a whole `IPX_Upgrade_Rec`, with the block `k`. -/
def Carries (p : List UInt8) (k : UInt16) : Prop := upgradeRecSize ≤ p.length ∧ Numbered p k

/-- The blocks that were copied stand in order, each where it belongs and with the whole payload of
a packet that has its number; the firmware is written only when all announced blocks were copied;
and only the memory between the two addresses was written. -/
structure Assembled (ram : Nat → UInt8) (s : UpgradeSys) : Prop where
  inOrder : s.copied = (List.range s.copied.length).map fun k ↦
    (UInt16.ofNat k, upgradeTempAddress + k * upgradeBlockSize)
  payloads : ∀ k < s.copied.length, ∃ p ∈ s.packets, Carries p (UInt16.ofNat k) ∧
    readMem s.ram (upgradeTempAddress + k * upgradeBlockSize) upgradeBlockSize = payload p
  complete : ∀ c ∈ s.calls, c.copied = c.announced ∧ 0 < c.announced ∧
    c.address = upgradeTempAddress ∧ c.bsize = c.announced * upgradeBlockSize
  inBounds : ∀ a, a < upgradeTempAddress ∨ kFarHeapBase ≤ a → s.ram a = ram a

end PrintServer.Ipx
