import PrintServer.Flash.Eeprom
import PrintServer.Http.Decimal
import PrintServer.Novell.Banner
import PrintServer.Telnet.LineEditor
import Mathlib.Algebra.GroupWithZero.Nat

/-!
# The items of the Telnet setup menus

The handlers of telutil.c that menu.c has for settings other than wireless ones.  They work on
`TELNET_EEPROM_Data`, a copy of the configuration record; an address of the memory here is a
distance from the start of that copy.
-/

namespace PrintServer.Telnet

open Flash Http Lib Novell

/-- `count` entries of a local array with `size` entries are written from `offset` on. -/
structure LocalWrite where
  size : Nat
  offset : Nat
  count : Nat
deriving DecidableEq

def LocalWrite.Inside (w : LocalWrite) : Prop := w.offset + w.count ≤ w.size

instance (w : LocalWrite) : Decidable w.Inside := inferInstanceAs (Decidable (_ ≤ _))

/-- What `SearchBinaryObjectName` copies to its caller. -/
structure ObjectName where
  octets : List UInt8
  length_eq : octets.length = 48

/-- The globals of telutil.c, the writes of local arrays that depend on what comes from outside, and
the surroundings: what an array has on the stack before it is written, the string behind `StopChar`,
and what the network returns unless `SearchObjectInit` fails. -/
structure Setup where
  term : Terminal
  data : Memory
  modifyConfigFlag : Bool
  serviceFSCount : Nat
  offsetOfFSName : Nat → UInt16
  writes : List LocalWrite
  stack : Memory
  behindStopChar : Str
  objects : Option (List ObjectName)

namespace Setup

def fputs (s : Setup) (text : Str) : Setup := { s with term := s.term.fputs text }

def note (s : Setup) (ws : List LocalWrite) : Setup := { s with writes := s.writes ++ ws }

/-- A copy to `TELNET_EEPROM_Data`. -/
def put (s : Setup) (o : Nat) (bs : List UInt8) : Setup := { s with data := writeMem s.data o bs }

def flag (s : Setup) : Setup := { s with modifyConfigFlag := true }

/-- `InputString` and, with an `echo` of 2, `InputPassword` into an array of `size` bytes. -/
def input (s : Setup) (size len echo : Nat) : Input × Str × Setup :=
  let r := getInputString s.term (readMem s.stack 0 size) len echo
  (r.input, cstr r.buf 0, { s.note (r.writes.map fun i ↦ ⟨size, i, 1⟩) with term := r.term })

/-- The test against `INPUT_ERROR` with its branch. -/
def ask (s : Setup) (prompt : Str) (size len echo : Nat) (branch : Str → Setup → Setup) : Setup :=
  match (s.fputs prompt).input size len echo with
  | (.ok, text, s) => branch text s
  | (_, _, s) => s

/-! ## Texts -/

/-- A prompt, and `strcpy` to the address `o` unless the string is empty. -/
def getText (prompt : Str) (size len o : Nat) (s : Setup) : Setup :=
  s.ask prompt size len 1 fun text s ↦ if text ≠ [] then (s.put o (text ++ [0])).flag else s

/-- `strcpy`, or `memcpy` for a string that fills the field. -/
def putFull (s : Setup) (o size : Nat) (text : Str) : Setup :=
  if text.length ≠ size then s.put o (text ++ [0]) else s.put o text

def getDeviceName (s : Setup) : Setup :=
  s.ask (bytes "Input Device Name(Max 18 chars): ") 19 18 1 fun text s ↦
    if text ≠ [] then (s.putFull Eeprom.boxName.offset 18 text).flag else s

def getContact : Setup → Setup :=
  getText (bytes "Input Contact(Max 15 chars): ") 16 15 Eeprom.snmpSysContact.offset

def getLocation : Setup → Setup :=
  getText (bytes "Input Location(Max 24 chars): ") 25 24 Eeprom.snmpSysLocation.offset

def getPassword (s : Setup) : Setup :=
  let temp := cstr (readMem s.data Eeprom.password.offset 8 ++ [0]) 0
  s.ask (bytes "Input Old Password(Max 8 chars): ") 9 8 2 fun buffer s ↦
    if buffer = temp then
      s.ask (bytes "\r\nInput New Password(Max 8 chars): ") 9 8 2 fun buffer s ↦
        s.ask (bytes "\r\nInput Confirm New Password(Max 8 chars): ") 9 8 2 fun temp s ↦
          if temp = buffer then (s.putFull Eeprom.password.offset 8 temp).flag
          else s.fputs (bytes "\r\nTwo Times Password are not same! \r\n")
    else s.fputs (bytes "\r\nOld Password is not correct! \r\n")

def getPrintServerName : Setup → Setup :=
  getText (bytes "Input Print Server Name(Max 47 chars): ") 48 47 Eeprom.printServerName.offset

/-- An empty string is a password, too. -/
def getNovellPassword (s : Setup) : Setup :=
  s.ask (bytes "Input Password(Max 8 chars): ") 9 8 2 fun text s ↦
    (s.put Eeprom.novellPassword.offset (strupr text ++ [0])).flag

def getNDSContext : Setup → Setup :=
  getText (bytes "Input NDS Context(Max 250 chars): ") 251 250 Eeprom.ndsContext.offset

def getZoneName : Setup → Setup :=
  getText (bytes "Input Zone Name(Max 32 chars): ") 33 32 Eeprom.atZoneName.offset

def getApplePortName : Setup → Setup :=
  getText (bytes "Input APPLE Port Name(Max 12 chars): ") 13 12 Eeprom.atPortName.offset

def getPrinterType1 : Setup → Setup :=
  getText (bytes "Input Printer Port Type  Name(Max 20 chars): ") 21 20 Eeprom.atPortType.offset

/-! ## Choices and numbers -/

/-- A prompt, and a change of the byte at `o` for some numbers. -/
def getChoice (prompt : Str) (o : Nat) (cases : List (Int32 × (UInt8 → UInt8))) (s : Setup) :
    Setup :=
  s.ask prompt 10 9 1 fun text s ↦
    match cases.lookup (atol text) with
    | some change => (s.put o [change (s.data o)]).flag
    | none => s

/-- `|=` for 1 and `&= ~` for 2. -/
def enableCases (bit : UInt8) : List (Int32 × (UInt8 → UInt8)) :=
  [(1, (· ||| bit)), (2, (· &&& ~~~ bit))]

/-- An assignment to a bit-field. -/
def setBits (mask value b : UInt8) : UInt8 := b &&& ~~~ mask ||| value

def getBiDirect1 : Setup → Setup :=
  getChoice (bytes "Input Port1 Bi-Directional(1.Auto Dectect 2.Disable): ")
    Eeprom.bidirectional.offset [(1, fun _ ↦ 1), (2, fun _ ↦ 0)]

def getNetwareStatus : Setup → Setup :=
  getChoice (bytes "NetWare Setting(1.Enable 2.Disable): ") Eeprom.printServerMode.offset
    (enableCases 0x01)

def getNDSStatus : Setup → Setup :=
  getChoice (bytes "NDS Mode Setting(1.Enable 2.Disable): ") Eeprom.printServerMode.offset
    (enableCases 0x10)

def getDhcpAndBootp : Setup → Setup :=
  getChoice (bytes "Input(1.Enable 2.Disable): ") Eeprom.printServerMode.offset (enableCases 0x80)

def getSNNPTraps : Setup → Setup :=
  getChoice (bytes "Input SNNP Traps(1. Enable  2. Disable): ") Eeprom.snmpAccessFlag.offset
    [(1, setBits 0x01 1), (2, setBits 0x01 0)]

def getAuthenTraps : Setup → Setup :=
  getChoice (bytes "Input Authentication Traps(1. Enable  2. Disable): ")
    Eeprom.snmpAccessFlag.offset [(1, setBits 0x06 0x02), (2, setBits 0x06 0x04)]

def getDataFormat1 : Setup → Setup :=
  getChoice (bytes "Data Format Setting(1.ASCII 2.TBCP 3.BCP): ") Eeprom.atDataFormat.offset
    [(1, fun _ ↦ 0), (2, fun _ ↦ 1), (3, fun _ ↦ 2)]

def getPollingTime (s : Setup) : Setup :=
  s.ask (bytes "Input Polling Time(3-29 seconds): ") 10 9 1 fun text s ↦
    if atol text ≤ 29 ∧ 3 ≤ atol text then
      (s.put Eeprom.pollingTime.offset [(atol text).toUInt32.toUInt8]).flag
    else s

/-- A name and an access mode.  The mode is asked for even if the name was interrupted. -/
def getCommunity (namePrompt prompt : Str) (o : Nat) (cases : List (Int32 × (UInt8 → UInt8)))
    (s : Setup) : Setup :=
  match (s.fputs namePrompt).input 13 12 1 with
  | (.reading, _, s) => s
  | (.error, _, s) => s.getChoice prompt Eeprom.snmpAccessFlag.offset cases
  | (.ok, text, s) =>
      (if text ≠ [] then (s.put o (text ++ [0])).flag else s).getChoice prompt
        Eeprom.snmpAccessFlag.offset cases

def getCommunity1 : Setup → Setup :=
  getCommunity (bytes "Input Community1 Name(Max 12 chars):")
    (bytes "Input Community1(1. Read-Only  2. Read-Write): ") Eeprom.snmpCommunityAuthName.offset
    [(1, setBits 0x18 0x08), (2, setBits 0x18 0x18)]

def getCommunity2 : Setup → Setup :=
  getCommunity (bytes "Input Community2 Name(Max 12 chars): ")
    (bytes "Input Community2(1. Read-Only  2. Read-Write): ")
    (Eeprom.snmpCommunityAuthName.offset + 13)
    [(1, setBits 0x60 0x20), (2, setBits 0x60 0x60)]

end Setup

/-! ## Addresses -/

def isXDigit (ch : UInt8) : Bool :=
  isDigit ch ∨ (chr 'a' ≤ ch ∧ ch ≤ chr 'f') ∨ (chr 'A' ≤ ch ∧ ch ≤ chr 'F')

/-- The counters of `CheckInputIPAddress`. -/
structure Counters where
  counter : Nat
  numCounter : Nat
  dotCounter : Nat
  totalDot : Nat

/-- The loop over the characters, for `DATA_IP`. -/
def Counters.char (c : Counters) (ch : UInt8) : Counters :=
  if isXDigit ch then
    if isDigit ch then
      { c with
        numCounter := if c.numCounter = c.dotCounter then c.numCounter + 1 else c.numCounter
        counter := c.counter + 1 }
    else c
  else if ch = chr ' ' then { c with counter := c.counter + 1 }
  else if ch = chr '.' then
    { c with
      dotCounter := if c.dotCounter < c.numCounter then c.dotCounter + 1 else c.dotCounter
      totalDot := c.totalDot + 1
      counter := c.counter + 1 }
  else c

def counters (inputData : Str) : Counters := inputData.foldl Counters.char ⟨0, 0, 0, 0⟩

/-- The tests before `strcpy`. -/
def Formatted (inputData : Str) : Prop :=
  inputData ≠ [] ∧ inputData.length = (counters inputData).counter ∧
    (counters inputData).dotCounter = 3 ∧
    (counters inputData).totalDot = (counters inputData).dotCounter ∧
    (counters inputData).numCounter = 3 + 1

instance (inputData : Str) : Decidable (Formatted inputData) :=
  inferInstanceAs (Decidable (_ ∧ _))

/-- `strtok` -/
def tokens (delims text : Str) : List Str := (text.splitOnP (· ∈ delims)).filter (· ≠ [])

/-- The loop over the tokens. -/
def InRange (delims inputData : Str) : Prop :=
  ∀ token ∈ tokens delims inputData, 0 ≤ atol token ∧ atol token ≤ 255

instance (delims inputData : Str) : Decidable (InRange delims inputData) :=
  inferInstanceAs (Decidable (∀ _ ∈ _, _))

/-- The loop of `aton` (nmbd.c) with `k` rounds to come. -/
def atonLoop : Nat → Str → UInt32 → UInt32
  | 0, _, n => n
  | k + 1, s, n =>
      match s.dropWhile fun ch ↦ ¬ isDigit ch with
      | [] => n
      | ch :: s =>
          let n := n ||| (atol (ch :: s)).toUInt32 <<< (8 * k).toUInt32
          match (ch :: s).dropWhile (· ≠ chr '.') with
          | [] => n
          | _ :: s => atonLoop k s n

def aton (s : Str) : UInt32 := atonLoop 4 s 0

/-- `DWordSwap` -/
def dwordSwap (x : UInt32) : UInt32 :=
  (x &&& 0xff) <<< 24 ||| (x &&& 0xff00) <<< 8 ||| (x &&& 0xff0000) >>> 8 |||
    (x &&& 0xff000000) >>> 24

namespace Setup

/-- `StopChar` is no string: what lies behind it on the stack delimits, too. -/
def stopChars (s : Setup) : Str := chr '.' :: cstr s.behindStopChar 0

/-- `CheckInputIPAddress` for `DATA_IP`, with `char temp[40]`. -/
def checkInputIPAddress (s : Setup) (inputData : Str) : Bool × Setup :=
  if Formatted inputData then
    (InRange s.stopChars inputData, s.note [⟨40, 0, inputData.length + 1⟩])
  else (false, s)

/-- A prompt, and an address that is stored as `bytesOf` has it. -/
def getAddress (prompt : Str) (bytesOf : Str → List UInt8) (o : Nat) (s : Setup) : Setup :=
  s.ask prompt 100 99 1 fun text s ↦
    match s.checkInputIPAddress text with
    | (true, s) => (s.put o (bytesOf text)).flag
    | (false, s) => s

/-- `NSET32` with the bytes in the order of the text. -/
def boxBytes (text : Str) : List UInt8 := le32 (dwordSwap (aton text))

/-- `NSET32` to `IPAddr`, which is copied from its end. -/
def trapBytes (text : Str) : List UInt8 := (le32 (aton text)).reverse

def getIPAddress : Setup → Setup :=
  getAddress (bytes "Input IP Address(x.x.x.x): ") boxBytes Eeprom.boxIPAddress.offset

def getSubnetMask : Setup → Setup :=
  getAddress (bytes "Input Subnet Mask Address(x.x.x.x): ") boxBytes Eeprom.subNetMask.offset

def getGateway : Setup → Setup :=
  getAddress (bytes "Input Gateway Address(x.x.x.x): ") boxBytes Eeprom.getwayAddress.offset

def getTrap1 : Setup → Setup :=
  getAddress (bytes "Input Snmp Trap1 IP Address(x.x.x.x): ") trapBytes
    Eeprom.snmpTrapTargetIP.offset

def getTrap2 : Setup → Setup :=
  getAddress (bytes "Input Snmp Trap2 IP Address(x.x.x.x): ") trapBytes
    (Eeprom.snmpTrapTargetIP.offset + 4)

end Setup

/-! ## Names from the network -/

/-- `FSName`, with a NUL behind its 48 bytes. -/
def ObjectName.fsName (object : ObjectName) : Str := cstr (object.octets ++ [0]) 0

/-- The loop that ends `DSName` before its last underscores, from `DSOffset` down. -/
def cutUnderscores : Nat → List UInt8 → List UInt8
  | 0, name => name
  | offset + 1, name =>
      if offset ≠ 0 ∧ name.getD offset 0 = chr '_' then
        cutUnderscores offset (name.set (offset + 1) 0)
      else name.set (offset + 1) 0

def ObjectName.dsName (object : ObjectName) : Str := cstr (cutUnderscores 32 object.octets) 0

/-- `"%d. %s\r\n"` -/
def listLine (count : Nat) (name : Str) : Str :=
  decimal count ++ bytes ". " ++ name ++ bytes "\r\n"

def hLineLen : Nat := 768 + 128

/-- The bytes of names with a NUL behind each. -/
def packedLength (names : List Str) : Nat := (names.map fun name ↦ name.length + 1).sum

/-- `HasDSExist` (httpd.c) on the names in the `TmpBuf` of `GetNDSTreeName`, which has 50 bytes. -/
def hasDSExist (dsBuf : List Str) (dsName : Str) : Bool × List Str × List LocalWrite :=
  if dsName ∈ dsBuf then (true, dsBuf, [])
  else if packedLength dsBuf + (dsName.length + 1) < hLineLen then
    (false, if dsName = [] then dsBuf else dsBuf ++ [dsName],
      [⟨50, packedLength dsBuf, dsName.length + 2⟩])
  else (false, dsBuf, [])

/-- `TmpBuf`, `NTables` and `Message` have room for the names, the ones in `TmpBuf` left out. -/
def TreesFit : List Str → Nat → List Str → Prop
  | _, _, [] => True
  | tmpBuf, count, name :: names =>
      if name ∈ tmpBuf then TreesFit tmpBuf count names
      else packedLength tmpBuf + name.length + 2 ≤ 50 ∧ count < 100 ∧
        (listLine (count + 1) name).length < 33 + 4 ∧
        TreesFit (if name = [] then tmpBuf else tmpBuf ++ [name]) (count + 1) names

namespace Setup

/-- The loop of `GetNDSTreeName` with `NTables[100]`, and the names in the table. -/
def listTrees : List ObjectName → List Str → List Str → Setup → List Str × Setup
  | [], _, table, s => (table, s)
  | object :: objects, tmpBuf, table, s =>
      match hasDSExist tmpBuf object.dsName with
      | (true, tmpBuf, _) => listTrees objects tmpBuf table s
      | (false, tmpBuf, ws) =>
          let message := listLine (table.length + 1) object.dsName
          listTrees objects tmpBuf (table ++ [object.dsName])
            ((s.note (ws ++ [⟨100, table.length, 1⟩, ⟨254, 0, object.dsName.length + 1⟩,
              ⟨33 + 4, 0, message.length + 1⟩])).fputs message)

/-- What `GetNDSTreeName` does with a line. -/
def storeTree (table : List Str) (text : Str) (s : Setup) : Setup :=
  if text ≠ [] ∧ 1 ≤ (atol text).toInt ∧ (atol text).toInt ≤ table.length then
    (s.put Eeprom.ndsTreeName.offset (table.getD ((atol text).toInt.toNat - 1) [] ++ [0])).flag
  else s

def getNDSTreeName (s : Setup) : Setup :=
  match (match s.objects with
    | none => ([], s)
    | some objects => listTrees objects [] [] s) with
  | ([], s) => s.fputs (bytes "\r\nTree Name can not Found on the network\r\n")
  | (table, s) => s.ask (bytes "Please Select one number: ") 33 9 1 (storeTree table)

/-- The loop of `GetFileServerName` with `NTables[100]`. -/
def listFileServers : List ObjectName → List Str → Setup → List Str × Setup
  | [], table, s => (table, s)
  | object :: objects, table, s =>
      let message := listLine (table.length + 1) object.fsName
      listFileServers objects (table ++ [object.fsName])
        ((s.note [⟨100, table.length, 1⟩, ⟨254, 0, object.fsName.length + 1⟩,
          ⟨254 + 4, 0, message.length + 1⟩]).fputs message)

/-- The loop over the numbers that were typed, with the `Flag` of each entry. -/
def copyNames (table : List Str) : List Str → List Nat → Nat → Setup → Nat × Setup
  | [], _, fsNameTotalLen, s => (fsNameTotalLen, s)
  | number :: numbers, flags, fsNameTotalLen, s =>
      let value := (atol number).toInt
      if 1 ≤ value ∧ value ≤ table.length ∧ value.toNat - 1 ∉ flags then
        let name := table.getD (value.toNat - 1) []
        let s := s.put (Eeprom.fileServerNames.offset + fsNameTotalLen) (name ++ [0])
        -- `count` stays 0
        let offsetOfFSName := fun i ↦
          if i = 0 then fsNameTotalLen.toUInt16 else s.offsetOfFSName i
        copyNames table numbers ((value.toNat - 1) :: flags) (fsNameTotalLen + (name.length + 1))
          { s with offsetOfFSName }
      else copyNames table numbers flags fsNameTotalLen s

/-- What `GetFileServerName` does with a line. -/
def storeFileServers (table : List Str) (text : Str) (s : Setup) : Setup :=
  if text = [] then s
  else
    match copyNames table (text.splitOn (chr ' ')) [] 0 s with
    | (fsNameTotalLen, s) =>
        -- `count++` is a comment
        let count := 0
        if count ≠ 0 then
          { (s.put (Eeprom.fileServerNames.offset + fsNameTotalLen) [0]).flag with
            serviceFSCount := count }
        else s

def getFileServerName (s : Setup) : Setup :=
  match (match s.objects with
    | none => ([], s)
    | some objects =>
        listFileServers objects []
          (s.fputs (bytes "Found out File Server on the network ...\r\n"))) with
  | ([], s) => s.fputs (bytes "NetWare File Server Can Not Found on the network\r\n")
  | (table, s) =>
      (s.fputs (bytes "You can give multi-choice, such as 1 2 \r\n")).ask
        (bytes "Please input numbers: ") 254 253 1 (storeFileServers table)

end Setup

/-! ## The menus -/

/-- The entries of `setitems1` to `setitems6`. -/
inductive SetItem
  | deviceName
  | contact
  | location
  | password
  | biDirect1
  | printServerName
  | pollingTime
  | novellPassword
  | ndsStatus
  | ndsTreeName
  | ndsContext
  | netwareStatus
  | fileServerName
  | dhcpAndBootp
  | ipAddress
  | subnetMask
  | gateway
  | community1
  | community2
  | snnpTraps
  | authenTraps
  | trap1
  | trap2
  | zoneName
  | applePortName
  | printerType1
  | dataFormat1
deriving DecidableEq

def SetItem.get : SetItem → Setup → Setup
  | deviceName => Setup.getDeviceName
  | contact => Setup.getContact
  | location => Setup.getLocation
  | password => Setup.getPassword
  | biDirect1 => Setup.getBiDirect1
  | printServerName => Setup.getPrintServerName
  | pollingTime => Setup.getPollingTime
  | novellPassword => Setup.getNovellPassword
  | ndsStatus => Setup.getNDSStatus
  | ndsTreeName => Setup.getNDSTreeName
  | ndsContext => Setup.getNDSContext
  | netwareStatus => Setup.getNetwareStatus
  | fileServerName => Setup.getFileServerName
  | dhcpAndBootp => Setup.getDhcpAndBootp
  | ipAddress => Setup.getIPAddress
  | subnetMask => Setup.getSubnetMask
  | gateway => Setup.getGateway
  | community1 => Setup.getCommunity1
  | community2 => Setup.getCommunity2
  | snnpTraps => Setup.getSNNPTraps
  | authenTraps => Setup.getAuthenTraps
  | trap1 => Setup.getTrap1
  | trap2 => Setup.getTrap2
  | zoneName => Setup.getZoneName
  | applePortName => Setup.getApplePortName
  | printerType1 => Setup.getPrinterType1
  | dataFormat1 => Setup.getDataFormat1

end PrintServer.Telnet
