import PrintServer.Flash.Store

/-!
# The configuration at power-up

`EEPROMInit` of eeprom.c for the 716U2W: it settles the current and the default record from the
three areas of the flash, and writes those back that it changed.  What it sets up from the current
record for the other modules is left out.
-/

namespace PrintServer.Flash

open Lib

variable {σ : Type}

/-! ## Factory settings -/

/-- `strcpy` of a text. -/
def ascii (s : String) : List UInt8 := s.toList.map (fun c ↦ UInt8.ofNat c.toNat) ++ [0]

/-- What `ReadFromFactory` stores into a record of zeroes, in its order. -/
def factorySettings : List (Nat × List UInt8) :=
  let dword (x : UInt32) := le32 x
  let word (x : Nat) := [UInt8.ofNat x, UInt8.ofNat (x / 256)]
  open Eeprom in
  [ (zotMark.offset, ascii "ZOT"), (eepromVersion.offset, [0x0B]),
    (ethernetID.offset, [0x00, 0x40, 0x01, 0xFF, 0xFF, 0xFF]),
    (version.offset, [0x00, 0x06]), (model.offset, [0x32]),
    (boxName.offset, ascii "1P_PrintServ"), (numOfPort.offset, [0x01]),
    (printServerMode.offset, [0x6E]),
    (printServerName.offset, ascii "DEFAULT_PS_NAME"), (pollingTime.offset, [0x03]),
    (fileServerNames.offset, ascii "DEFAULT_FS_NAME"),
    (boxIPAddress.offset, [0xC0, 0xA8, 0x64, 0x05]),
    (subNetMask.offset, [0xFF, 0xFF, 0xFF, 0x00]),
    (getwayAddress.offset, [0xC0, 0xA8, 0x64, 0x01]),
    (snmpCommunityAuthName.offset, ascii "public"),
    (snmpCommunityAuthName.offset + 13, ascii "public"),
    -- `SnmpAuthenTrap` 2, both access modes 1
    (snmpAccessFlag.offset, [0x2C]),
    (atNet.offset, word 0), (atNode.offset, [0x00]), (atPortName.offset, ascii "ATALK_PS"),
    (atPortType.offset, ascii "LaserWriter"), (atPortType.offset + 21, ascii "LaserWriter"),
    (atPortType.offset + 42, ascii "LaserWriter"), (atDataFormat.offset, [0x01, 0x01, 0x01]),
    (printerSpeed.offset, [0x00]), (bidirectional.offset, [0x00, 0x00, 0x00]),
    (ieee1284Mode.offset, [0x01, 0x01, 0x01]),
    (timeOutValue.offset, [0x5A]), (prnMonMaxPacket.offset, [0x06]), (prnTestMode.offset, [0x00]),
    (eepromWriteCount.offset, dword 0), (printServerMode2.offset, [0x03]),
    (workGroupName.offset, ascii "WORKGROUP"), (serviceName.offset, ascii "LP1"),
    (serviceName.offset + 13, ascii "LP2"), (serviceName.offset + 26, ascii "LP3"),
    (specialOEM.offset, [0x00]), (alertEnabled.offset, [0x00]), (ipLoadDef.offset, [0x00]),
    (portDesc.offset, [0x02]), (portTail.offset, [0x01]),
    (lprQueueName.offset, ascii "lp1"), (lprQueueName.offset + 13, ascii "lp2"),
    (lprQueueName.offset + 26, ascii "lp3"), (renvEnable.offset, [0x00]),
    (apptlkEn.offset, [0x01]), (ipxDisable.offset, [0x00]),
    (wlWPAType.offset, [0x00]), (wlTxMode.offset, [0x03]), (wlBeaconinterval.offset, word 100),
    (wlRTSThreshold.offset, word 2347), (wlFragmentation.offset, word 2346),
    (wlWEPKeyType.offset, [0x00]), (wlZone.offset, [0xA1]), (wlAPMode.offset, [0x00]),
    (wlWEPType.offset, [0x00]), (wlMode.offset, [0x02]), (wlESSID.offset, ascii "WLAN-PS"),
    (wlChannel.offset, [0x06]), (wlWEPType.offset, [0x00]), (wlWEPKeySel.offset, [0x00]),
    (wlBandWidth.offset, [0x00]), (wlDataRate.offset, [0x0B]),
    (wlRates.offset, [0x00]), (wlRate.offset, [0x0F]), (wlExtRate.offset, [0xFF]),
    (wlShortPreamble.offset, [0x01]), (wlAuthType.offset, [0x01]) ]

def factoryMemory : Memory :=
  factorySettings.foldl (fun m entry ↦ writeMem m entry.1 entry.2) fun _ ↦ 0

def readFromFactory : EepromData := .ofMemory factoryMemory

/-! ## The two records -/

def numOfPrnPort : UInt8 := 1

def psRawTcpMode : UInt8 := 0x01
def psFtpMode : UInt8 := 0x02

/-- `EEPROM_Data` and `DEFAULT_Data` with the flags for writing them. -/
structure Recovery where
  eeprom : EepromData
  default : EepromData
  needWriteEEPROM : Bool
  needWriteDEFAULT : Bool

/-- A read that is tried again. -/
def readTwice (readFrom : Memory → Int × EepromData) (flash : Memory) : Int × EepromData :=
  let first := readFrom flash
  if first.1 ≠ 0 then readFrom flash else first

/-- The default record: that of its area or of the factory, unless QC0 has another node address. -/
def recoverDefault (flash : Memory) : EepromData × Bool :=
  let qc0 := readTwice readFromQC0_Default flash
  let default := readTwice readFromDefault flash
  let (data, need) := if default.1 ≠ 0 then (readFromFactory, true) else (default.2, false)
  if qc0.1 = 0 ∧ qc0.2.get Eeprom.ethernetID ≠ data.get Eeprom.ethernetID then (qc0.2, true)
  else (data, need)

def recover (flash : Memory) : Recovery :=
  let (default, needWriteDEFAULT) := recoverDefault flash
  let eeprom := readTwice readFromFlash flash
  if eeprom.1 ≠ 0 then ⟨default, default, true, needWriteDEFAULT⟩
  else ⟨eeprom.2, default, false, needWriteDEFAULT⟩

def toVersion11 (e : EepromData) : EepromData :=
  let e := e.putByte Eeprom.eepromVersion 11
  e.putByte Eeprom.printServerMode2
    (e.byte Eeprom.printServerMode2 ||| (psRawTcpMode ||| psFtpMode))

def migrate (r : Recovery) : Recovery :=
  if r.eeprom.byte Eeprom.eepromVersion = 0x0A ∨ r.default.byte Eeprom.eepromVersion = 0x0A then
    ⟨toVersion11 r.eeprom, toVersion11 r.default, true, true⟩
  else r

def resetWPS (r : Recovery) : Recovery :=
  if r.eeprom.byte Eeprom.wlMode > 0 then
    { r with
      eeprom := r.eeprom.putByte Eeprom.wpsButtonPressedCount 0
      needWriteEEPROM := true }
  else r

def resetModel (model : UInt8) (r : Recovery) : Recovery :=
  if r.default.byte Eeprom.numOfPort ≠ numOfPrnPort ∨ r.default.byte Eeprom.model ≠ model then
    ⟨readFromFactory, readFromFactory, true, true⟩
  else r

/-- The records as they are written, if they are. -/
def settle (model : UInt8) (flash : Memory) : Recovery :=
  resetModel model (resetWPS (migrate (recover flash)))

/-! ## EEPROMInit -/

def defaultNodeID : List UInt8 := [0x00, 0x40, 0x01, 0xFF, 0xFF, 0xFF]

def randIDSignature : UInt8 := 0xFF

/-- The node address that `get_randnodeid` makes of three random bytes. -/
def randNodeID (rand : UInt8 × UInt8 × UInt8) : List UInt8 :=
  defaultNodeID.take 2 ++ [randIDSignature, rand.1, rand.2.1, rand.2.2]

/-- What a write leaves in the record in memory. -/
def afterWrite (e : EepromData) : EepromData :=
  if e.get Eeprom.zotMark ≠ zot then e else sealRecord e

/-- A record and a flash, with what was written. -/
structure Written (σ : Type) where
  data : EepromData
  state : σ
  log : List Event

/-- A write if one is needed; `none` is `ErrLightOnForever`. -/
def writeNeeded (need : Bool) (write : EepromData → σ → Done σ) (data : EepromData) (s : σ) :
    Option (Written σ) :=
  if need then
    let d := write data s
    if d.rc ≠ 0 then none else some ⟨afterWrite data, d.state, d.log⟩
  else some ⟨data, s, []⟩

/-- What is put right in memory only. -/
def inMemory (rand : UInt8 × UInt8 × UInt8) (e : EepromData) : EepromData :=
  let e := if e.get Eeprom.ethernetID = defaultNodeID then
    e.put Eeprom.ethernetID (randNodeID rand) else e
  if e.byte Eeprom.timeOutValue < 10 then e.putByte Eeprom.timeOutValue 90 else e

/-- The records in memory after `EEPROMInit`, the flash, and what was written to it. -/
structure Boot (σ : Type) where
  eeprom : EepromData
  default : EepromData
  state : σ
  log : List Event

/-- `model` is `CURRENT_PS_MODEL`, and `rand` what `get_randnodeid` draws. -/
def eepromInit (chip : Chip σ) (model : UInt8) (rand : UInt8 × UInt8 × UInt8) (s : σ) :
    Option (Boot σ) :=
  let r := settle model (chip.read s)
  match writeNeeded r.needWriteDEFAULT (writeToDefault chip) r.default s with
  | none => none
  | some d =>
    match writeNeeded (r.needWriteDEFAULT || r.needWriteEEPROM) (writeToFlash chip) r.eeprom
        d.state with
    | none => none
    | some e => some ⟨inMemory rand e.data, d.data, e.state, d.log ++ e.log⟩

end PrintServer.Flash
