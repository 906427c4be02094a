import PrintServer.Flash.Image

/-!
# The configuration record

`EEPROM` of eeprom.h is packed: each field starts where the one before it ends.  A record is the
list of its bytes.
-/

namespace PrintServer.Flash

open Lib

/-- `EEPROM_Data`. -/
structure EepromData where
  bytes : List UInt8
  length_eq : bytes.length = 1408

structure Field where
  offset : Nat
  size : Nat
deriving DecidableEq

/-- The fields have no byte in common. -/
def Field.Apart (f g : Field) : Prop :=
  g.offset + g.size ≤ f.offset ∨ f.offset + f.size ≤ g.offset

instance (f g : Field) : Decidable (f.Apart g) := inferInstanceAs (Decidable (_ ∨ _))

def Field.next (f : Field) (size : Nat) : Field := ⟨f.offset + f.size, size⟩

namespace Eeprom

def zotMark : Field := ⟨0, 4⟩
def eepromVersion : Field := zotMark.next 1
def ethernetID : Field := eepromVersion.next 6
def version : Field := ethernetID.next 2
def model : Field := version.next 1
def boxName : Field := model.next 18
def password : Field := boxName.next 8
def numOfPort : Field := password.next 1
def printServerMode : Field := numOfPort.next 1
def printServerName : Field := printServerMode.next 48
def pollingTime : Field := printServerName.next 1
def novellPassword : Field := pollingTime.next 9
def fileServerNames : Field := novellPassword.next 254
def ndsTreeName : Field := fileServerNames.next 33
def ndsContext : Field := ndsTreeName.next 251
def boxIPAddress : Field := ndsContext.next 4
def subNetMask : Field := boxIPAddress.next 4
def getwayAddress : Field := subNetMask.next 4
def snmpSysContact : Field := getwayAddress.next 16
def snmpSysLocation : Field := snmpSysContact.next 25
def snmpCommunityAuthName : Field := snmpSysLocation.next (2 * 13)
def snmpAccessFlag : Field := snmpCommunityAuthName.next 1
def snmpTrapTargetIP : Field := snmpAccessFlag.next (2 * 4)
def atNet : Field := snmpTrapTargetIP.next 2
def atNode : Field := atNet.next 1
def atZoneName : Field := atNode.next 33
def atPortName : Field := atZoneName.next 13
def atPortType : Field := atPortName.next (3 * 21)
def atDataFormat : Field := atPortType.next 3
def printerSpeed : Field := atDataFormat.next 1
def bidirectional : Field := printerSpeed.next 3
def ieee1284Mode : Field := bidirectional.next 3
def timeOutValue : Field := ieee1284Mode.next 1
def prnMonMaxPacket : Field := timeOutValue.next 1
def prnTestMode : Field := prnMonMaxPacket.next 1
def eepromWriteCount : Field := prnTestMode.next 4
def printServerMode2 : Field := eepromWriteCount.next 1
def workGroupName : Field := printServerMode2.next 16
def serviceName : Field := workGroupName.next (3 * 13)
def specialOEM : Field := serviceName.next 1
def alertEnabled : Field := specialOEM.next 1
def smtpIP : Field := alertEnabled.next 4
def alertAddr : Field := smtpIP.next 32
def ipLoadDef : Field := alertAddr.next 1
def portDesc : Field := ipLoadDef.next 1
def portTail : Field := portDesc.next 1
def lprQueueName : Field := portTail.next (3 * 13)
def renvEnable : Field := lprQueueName.next 1
def renvServiceName : Field := renvEnable.next 64
def apptlkEn : Field := renvServiceName.next 1
def ipxDisable : Field := apptlkEn.next 1
def wlWPAType : Field := ipxDisable.next 1
def wlTxMode : Field := wlWPAType.next 1
def wlDataRate : Field := wlTxMode.next 1
def wlBandWidth : Field := wlDataRate.next 1
def wpsButtonPressedCount : Field := wlBandWidth.next 1
def reserved : Field := wpsButtonPressedCount.next 36
def wlWEP128Key2 : Field := reserved.next 15
def wlWEP128Key3 : Field := wlWEP128Key2.next 15
def wlWEP128Key4 : Field := wlWEP128Key3.next 15
def wpaPass : Field := wlWEP128Key4.next 64
def islFlashError : Field := wpaPass.next 1
/-- `WLMTMode` to `WLMTAutorespond`, for EMI testing. -/
def wlMT : Field := islFlashError.next 49
def wlExtRate : Field := wlMT.next 1
def eapType : Field := wlExtRate.next 1
def eapName : Field := eapType.next 21
def eapPassword : Field := eapName.next 21
def wlNonModulate : Field := eapPassword.next 1
def wlWEPKeyType : Field := wlNonModulate.next 1
def wlVersion : Field := wlWEPKeyType.next 1
def wlTxPower : Field := wlVersion.next 2
def wlZone : Field := wlTxPower.next 1
def wlAPMode : Field := wlZone.next 1
def wlMode : Field := wlAPMode.next 1
def wlESSID : Field := wlMode.next 32
def wlChannel : Field := wlESSID.next 1
def wlWEPType : Field := wlChannel.next 1
def wlWEPKeySel : Field := wlWEPType.next 1
def wlWEPKey1 : Field := wlWEPKeySel.next 6
def wlWEPKey2 : Field := wlWEPKey1.next 6
def wlWEPKey3 : Field := wlWEPKey2.next 6
def wlWEPKey4 : Field := wlWEPKey3.next 6
def wlWEP128Key : Field := wlWEPKey4.next 15
def wlBeaconinterval : Field := wlWEP128Key.next 2
def wlRTSThreshold : Field := wlBeaconinterval.next 2
def wlFragmentation : Field := wlRTSThreshold.next 2
def wlRates : Field := wlFragmentation.next 1
def wlRate : Field := wlRates.next 1
def wlShortPreamble : Field := wlRate.next 1
def wlAuthType : Field := wlShortPreamble.next 1
def wlDtiminterval : Field := wlAuthType.next 2
def wlCfpperiod : Field := wlDtiminterval.next 2
def wlCfpmaxduration : Field := wlCfpperiod.next 2
def wlCRX : Field := wlCfpmaxduration.next 1
def wlCTX : Field := wlCRX.next 1
def wlJapan : Field := wlCTX.next 1
def wlAnSide : Field := wlJapan.next 1
def checkSum2 : Field := wlAnSide.next 4

/-- All of the record that the checksum is about. -/
def beforeCheckSum2 : Field := ⟨0, checkSum2.offset⟩

/-- `sizeof(EEPROM)`. -/
theorem checkSum2_end : checkSum2.offset + checkSum2.size = 1408 := rfl

end Eeprom

namespace EepromData

def mem (e : EepromData) : Memory := fun i ↦ e.bytes.getD i 0

/-- The record at the start of a memory. -/
def ofMemory (m : Memory) : EepromData := ⟨readMem m 0 1408, length_readMem⟩

def get (e : EepromData) (f : Field) : List UInt8 := readMem e.mem f.offset f.size

/-- The first byte of a field. -/
def byte (e : EepromData) (f : Field) : UInt8 := e.mem f.offset

/-- A copy to the start of a field, which goes on behind the field if `v` is longer. -/
def put (e : EepromData) (f : Field) (v : List UInt8) : EepromData :=
  ofMemory (writeMem e.mem f.offset v)

def putByte (e : EepromData) (f : Field) (b : UInt8) : EepromData := e.put f [b]

def dword (e : EepromData) (f : Field) : UInt32 := nget32 e.mem f.offset

def putDword (e : EepromData) (f : Field) (x : UInt32) : EepromData := e.put f (le32 x)

variable {e e' : EepromData} {f g : Field} {v : List UInt8} {m m' : Memory} {i : Nat}

@[ext] theorem ext (h : e.bytes = e'.bytes) : e = e' := by
  cases e
  cases e'
  simpa using h

theorem bytes_ofMemory : (ofMemory m).bytes = readMem m 0 1408 := by
  rw [ofMemory]

theorem mem_ofMemory (h : i < 1408) : (ofMemory m).mem i = m i := by
  unfold mem
  rw [bytes_ofMemory, List.getD_eq_getElem?_getD, getElem?_readMem h, Option.getD_some,
    Nat.zero_add]

theorem getElem?_bytes (h : i < 1408) : e.bytes[i]? = some (e.mem i) := by
  have hlt : i < e.bytes.length := by rwa [e.length_eq]
  unfold mem
  rw [List.getD_eq_getElem?_getD, List.getElem?_eq_getElem hlt, Option.getD_some]

/-- Two records agree if they agree at every address. -/
theorem ext_mem (h : ∀ i < 1408, e.mem i = e'.mem i) : e = e' := by
  apply ext
  apply List.ext_getElem?
  intro i
  by_cases hi : i < 1408
  · rw [getElem?_bytes hi, getElem?_bytes hi, h i hi]
  · have hge : 1408 ≤ i := Nat.le_of_not_lt hi
    rw [List.getElem?_eq_none (by rwa [e.length_eq]), List.getElem?_eq_none (by rwa [e'.length_eq])]

theorem readMem_mem (e : EepromData) : readMem e.mem 0 1408 = e.bytes := by
  apply List.ext_getElem?
  intro i
  by_cases hi : i < 1408
  · rw [getElem?_bytes hi, getElem?_readMem hi, Nat.zero_add]
  · have hge : 1408 ≤ i := Nat.le_of_not_lt hi
    rw [List.getElem?_eq_none (by rwa [length_readMem]),
      List.getElem?_eq_none (by rwa [e.length_eq])]

theorem get_ofMemory (hf : f.offset + f.size ≤ 1408) :
    (ofMemory m).get f = readMem m f.offset f.size := by
  unfold get
  apply readMem_congr
  intro i _ hi
  exact mem_ofMemory (by omega)

@[simp] theorem length_get : (e.get f).length = f.size := length_readMem

theorem mem_put (h : i < 1408) : (e.put f v).mem i = writeMem e.mem f.offset v i := mem_ofMemory h

theorem get_put (hf : f.offset + f.size ≤ 1408) (hv : v.length = f.size) :
    (e.put f v).get f = v := by
  unfold put
  rw [get_ofMemory hf, ← hv]
  exact readMem_writeMem

/-- A field apart from what was written keeps its bytes. -/
theorem get_put_of_disjoint (hg : g.offset + g.size ≤ 1408)
    (h : g.offset + g.size ≤ f.offset ∨ f.offset + v.length ≤ g.offset) :
    (e.put f v).get g = e.get g := by
  unfold put
  rw [get_ofMemory hg]
  unfold get
  apply readMem_congr
  intro i hlo hhi
  rcases h with hbefore | hbehind
  · exact writeMem_of_lt (by omega)
  · exact writeMem_of_ge (by omega)

theorem get_put_of_apart (hg : g.offset + g.size ≤ 1408) (h : f.Apart g)
    (hv : v.length ≤ f.size) : (e.put f v).get g = e.get g := by
  apply get_put_of_disjoint hg
  unfold Field.Apart at h
  omega

theorem byte_putByte (hf : f.offset < 1408) {b : UInt8} : (e.putByte f b).byte f = b := by
  unfold byte putByte
  rw [mem_put hf]
  exact @writeMem_add _ _ f.offset 0 [b] Nat.one_pos

theorem byte_put_of_disjoint (hg : g.offset < 1408)
    (h : g.offset < f.offset ∨ f.offset + v.length ≤ g.offset) :
    (e.put f v).byte g = e.byte g := by
  unfold byte
  rw [mem_put hg]
  rcases h with hbefore | hbehind
  · exact writeMem_of_lt hbefore
  · exact writeMem_of_ge hbehind

theorem dword_putDword (hf : f.offset + 4 ≤ 1408) {x : UInt32} :
    (e.putDword f x).dword f = x := by
  unfold dword putDword
  apply nget32_of_bytes
  intro i hi
  rw [mem_put (by omega)]
  exact @writeMem_add _ _ f.offset i (le32 x) hi

theorem dword_put_of_disjoint (hg : g.offset + 4 ≤ 1408)
    (h : g.offset + 4 ≤ f.offset ∨ f.offset + v.length ≤ g.offset) :
    (e.put f v).dword g = e.dword g := by
  unfold dword
  apply nget32_congr
  intro i hi
  rw [mem_put (by omega)]
  rcases h with hbefore | hbehind
  · exact writeMem_of_lt (by omega)
  · exact writeMem_of_ge (by omega)

end EepromData

end PrintServer.Flash
