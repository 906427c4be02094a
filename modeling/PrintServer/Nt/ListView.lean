import PrintServer.Lib.Transfer
import PrintServer.Flash.Eeprom
import PrintServer.Tftp.Config

/-!
# The record of the Windows utility

`LIST_VIEW` and `LIST_VIEW_EXT` of ntps.h with the functions of ntutil.c that fill them from
`EEPROM_Data` and take them back.  As in `UtilViewBoxUDP_Adv` the second structure starts at the
last byte of the first one.
-/

namespace PrintServer.Nt

open Lib Flash Http

namespace ListView

def nodeID : Flash.Field := ⟨0, 6⟩
def version : Flash.Field := nodeID.next 2
def boxName : Flash.Field := version.next 19
def portModel : Flash.Field := boxName.next 1
def ip : Flash.Field := portModel.next 4
def systemLen : Flash.Field := ip.next 1
def utilFlag : Flash.Field := systemLen.next 1
def protocolMode : Flash.Field := utilFlag.next 1
def printerSpeed : Flash.Field := protocolMode.next 1
def setupPassword : Flash.Field := printerSpeed.next 9
def versionString : Flash.Field := setupPassword.next 16
def supportFunction : Flash.Field := versionString.next 4
def netwareLen : Flash.Field := supportFunction.next 1
def pollingTime : Flash.Field := netwareLen.next 1
def novellPassword : Flash.Field := pollingTime.next 9
def numOfMaxFileServer : Flash.Field := novellPassword.next 1
def maxFileServerLen : Flash.Field := numOfMaxFileServer.next 1
def fileServerName : Flash.Field := maxFileServerLen.next 254
def maxPrintServerLen : Flash.Field := fileServerName.next 1
def printServerName : Flash.Field := maxPrintServerLen.next 48
def tcpipLen : Flash.Field := printServerName.next 1
def subnetMask : Flash.Field := tcpipLen.next 4
def gatewayAddress : Flash.Field := subnetMask.next 4
def dhcpEnable : Flash.Field := gatewayAddress.next 1
def snmpLen : Flash.Field := dhcpEnable.next 1
def snmpSysContact : Flash.Field := snmpLen.next 16
def snmpSysLocation : Flash.Field := snmpSysContact.next 25
def snmpCommunityAuthName : Flash.Field := snmpSysLocation.next (2 * 13)
def snmpAccessFlag : Flash.Field := snmpCommunityAuthName.next 1
def snmpTrapTargetIP : Flash.Field := snmpAccessFlag.next (2 * 4)
def atalkLen : Flash.Field := snmpTrapTargetIP.next 1
def atCurNet : Flash.Field := atalkLen.next 2
def atCurNode : Flash.Field := atCurNet.next 1
def atCurZoneName : Flash.Field := atCurNode.next 33
def atZoneName : Flash.Field := atCurZoneName.next 33
def atPortName : Flash.Field := atZoneName.next 13
def atPortType : Flash.Field := atPortName.next (3 * 21)
def atDataFormat : Flash.Field := atPortType.next 3
def ndsLen : Flash.Field := atDataFormat.next 1
def ndsTreeName : Flash.Field := ndsLen.next 33
def ndsContextLen : Flash.Field := ndsTreeName.next 1
def ndsContext : Flash.Field := ndsContextLen.next 251
def deviceLen : Flash.Field := ndsContext.next 1
def bidirectional : Flash.Field := deviceLen.next 3
def wirelessLen : Flash.Field := bidirectional.next 1
def wlMode : Flash.Field := wirelessLen.next 1
def wlESSID : Flash.Field := wlMode.next 32
def wlZone : Flash.Field := wlESSID.next 1
def wlChannel : Flash.Field := wlZone.next 1
def wlRate : Flash.Field := wlChannel.next 1
def wlBeaconinterval : Flash.Field := wlRate.next 2
def wlShortPreamble : Flash.Field := wlBeaconinterval.next 1
def wlFragmentation : Flash.Field := wlShortPreamble.next 2
def wlAuthenticationType : Flash.Field := wlFragmentation.next 1
def wlWEPType : Flash.Field := wlAuthenticationType.next 1
def wlWEPKeySel : Flash.Field := wlWEPType.next 1
def wlWEPKey1 : Flash.Field := wlWEPKeySel.next 6
def wlWEPKey2 : Flash.Field := wlWEPKey1.next 6
def wlWEPKey3 : Flash.Field := wlWEPKey2.next 6
def wlWEPKey4 : Flash.Field := wlWEPKey3.next 6
def wlWEP128Key : Flash.Field := wlWEPKey4.next 15
def wlWEPKeyType : Flash.Field := wlWEP128Key.next 1
def operationMode : Flash.Field := wlWEPKeyType.next 1
def wlAPMode : Flash.Field := operationMode.next 1
def portFaceLen : Flash.Field := wlAPMode.next 1
def portDesc : Flash.Field := portFaceLen.next 1
def portTail : Flash.Field := portDesc.next 1
def specialOEM : Flash.Field := portTail.next 1
def eos : Flash.Field := specialOEM.next 1

/-- `sizeof(LIST_VIEW)` -/
theorem eos_end : eos.offset + eos.size = 999 := rfl

end ListView

namespace ListViewExt

def wirelessExtLen : Flash.Field := ⟨999 - 1, 1⟩
def wlExtRate : Flash.Field := wirelessExtLen.next 1
def eapType : Flash.Field := wlExtRate.next 1
def eapName : Flash.Field := eapType.next 21
def eapPassword : Flash.Field := eapName.next 21
def wpaPass : Flash.Field := eapPassword.next 64
def wlTransMode : Flash.Field := wpaPass.next 1
def wlWPAType : Flash.Field := wlTransMode.next 1
def lprLen : Flash.Field := wlWPAType.next 1
def lprQueueName : Flash.Field := lprLen.next (3 * 13)
def rsaPublicKeyLen : Flash.Field := lprQueueName.next 1
def rsaPublicKeyValue : Flash.Field := rsaPublicKeyLen.next 256
def smbLen : Flash.Field := rsaPublicKeyValue.next 1
def smbWorkGroup : Flash.Field := smbLen.next 16
def smbServiceName : Flash.Field := smbWorkGroup.next (3 * 13)
def ipxLen : Flash.Field := smbServiceName.next 1
def ipxDisable : Flash.Field := ipxLen.next 1
def wlWEP128Len : Flash.Field := ipxDisable.next 1
def wlWEP128Key1 : Flash.Field := wlWEP128Len.next 15
def wlWEP128Key2 : Flash.Field := wlWEP128Key1.next 15
def wlWEP128Key3 : Flash.Field := wlWEP128Key2.next 15
def wlWEP128Key4 : Flash.Field := wlWEP128Key3.next 15
def wpsLen : Flash.Field := wlWEP128Key4.next 1
def wpsButtonPressedCount : Flash.Field := wpsLen.next 1
def wpsStatusShownOnUtility : Flash.Field := wpsButtonPressedCount.next 1
def eos : Flash.Field := wpsStatusShownOnUtility.next 1

/-- `sizeof(LIST_VIEW) + sizeof(LIST_VIEW_EXT) - 1` -/
theorem eos_end : eos.offset + eos.size = 1529 := rfl

end ListViewExt

/-- What the functions read besides `EEPROM_Data`: the version of the firmware, the state of
AppleTalk, and the memory behind `EEPROM_Data` and behind `ANYESS`. -/
structure BoxState where
  node : List UInt8
  majorVer : UInt8
  minorVer : UInt8
  buildVer : UInt16
  psModel : UInt8
  webLangVersion : Str
  atNet : UInt16
  atNode : UInt8
  atZonename : Str
  behindEeprom : List UInt8
  behindAnyess : List UInt8
  length_node : node.length = 6
  length_behindAnyess : behindAnyess.length = 32 - 8

def anyess : Str := bytes "< ANY >"

/-- The 32 bytes from `ANYESS` on, which is an array of 8. -/
def BoxState.anyess32 (box : BoxState) : List UInt8 := anyess ++ 0 :: box.behindAnyess

/-- `wlan_set_anyssid` of wlanif.c.  Without a NUL among the 32 bytes `strupr` goes on behind
`tempstr`; the comparison ends at its eighth byte. -/
def wlanSetAnyssid (ssid : List UInt8) : Bool := Tftp.strupr (cstr ssid 0) = anyess

def psDhcpOn : UInt8 := 0x80

/-! ## The version string -/

def paddedDigits (base width n : Nat) : Str :=
  let ds := Nat.toDigits base n
  (List.replicate (width - ds.length) '0' ++ ds).map chr

/-- `UtilGetVersionString` -/
def BoxState.utilGetVersionString (box : BoxState) (specialOEM : UInt8) : Str :=
  if specialOEM = 0x02 then
    paddedDigits 10 0 box.majorVer.toNat ++ bytes "." ++ paddedDigits 16 2 box.minorVer.toNat
  else
    paddedDigits 10 0 box.majorVer.toNat ++ bytes "." ++ paddedDigits 16 2 box.minorVer.toNat ++
      bytes "." ++ paddedDigits 10 2 box.psModel.toNat ++ box.webLangVersion ++ bytes " " ++
      paddedDigits 10 4 box.buildVer.toNat

/-! ## The functions

They are assignments between two memories in the order of the source, `e` that of `EEPROM_Data` and
`v` that of the record. -/

abbrev Assign := Transfer UInt8

/-- `memcpy`, or the assignment of one byte. -/
def memcpy (f g : Flash.Field) (n : Nat) : Assign := .copy f.offset g.offset n

def assign (f : Flash.Field) (v : Memory → Memory → List UInt8) : Assign := .value f.offset f.size v

def const (f : Flash.Field) (v : List UInt8) : Assign := assign f fun _ _ ↦ v

/-- Element `i` of an array of elements of size `n`. -/
def element (f : Flash.Field) (n i : Nat) : Flash.Field := ⟨f.offset + i * n, n⟩

/-- Byte `i` of an array. -/
def byteAt (f : Flash.Field) (i : Nat) : Flash.Field := element f 1 i

namespace BoxState

open ListView

/-- `EEPROM_Data` and what follows it. -/
def eepromMem (box : BoxState) (e : EepromData) : Memory :=
  fun i ↦ (e.bytes ++ box.behindEeprom).getD i 0

/-- What `strcpy` takes from the box name, which need not end in a NUL. -/
def boxNameText (box : BoxState) (e : EepromData) : Str :=
  cstr (e.bytes ++ box.behindEeprom) Eeprom.boxName.offset

/-- `UtilSetListViewData` -/
def utilSetListViewData (box : BoxState) (e : EepromData) : List Assign :=
  [const nodeID box.node,
    const version [box.majorVer, box.minorVer % 10 + (box.minorVer / 10) <<< 4],
    const boxName (box.boxNameText e ++ [0]),
    assign portModel fun e _ ↦
      [(box.psModel &&& (0x3F : UInt8)) ||| (e Eeprom.numOfPort.offset <<< (6 : UInt8))],
    memcpy ip Eeprom.boxIPAddress 4,
    const systemLen [32],
    const utilFlag [0x07],
    assign protocolMode fun e _ ↦ [e Eeprom.printServerMode.offset &&& ~~~psDhcpOn],
    memcpy printerSpeed Eeprom.printerSpeed 1,
    memcpy setupPassword Eeprom.password 8,
    const (byteAt setupPassword 8) [0],
    assign ⟨versionString.offset, 14⟩ fun e _ ↦
      box.utilGetVersionString (e Eeprom.specialOEM.offset) ++ [0],
    const (byteAt versionString 14) [0],
    -- the bit `DisAdvancePage` is not assigned
    assign supportFunction fun _ v ↦
      [0xFF, 0x5F ||| (v (supportFunction.offset + 1) &&& 0x20), 0x79, 0x06],
    const netwareLen [10],
    memcpy pollingTime Eeprom.pollingTime 1,
    memcpy novellPassword Eeprom.novellPassword 9,
    const numOfMaxFileServer [64],
    const maxFileServerLen [254],
    memcpy fileServerName Eeprom.fileServerNames 254,
    const maxPrintServerLen [48],
    memcpy printServerName Eeprom.printServerName 48,
    const tcpipLen [9],
    memcpy subnetMask Eeprom.subNetMask 4,
    memcpy gatewayAddress Eeprom.getwayAddress 4,
    assign dhcpEnable fun e _ ↦ [if (e Eeprom.printServerMode.offset &&& 0x80) ≠ 0 then 1 else 0],
    const snmpLen [16 + 25 + 13 * 2 + 1 + 2 * 4],
    memcpy snmpSysContact Eeprom.snmpSysContact 16,
    memcpy snmpSysLocation Eeprom.snmpSysLocation 25,
    memcpy (element snmpCommunityAuthName 13 0) (element Eeprom.snmpCommunityAuthName 13 0) 13,
    memcpy (element snmpCommunityAuthName 13 1) (element Eeprom.snmpCommunityAuthName 13 1) 13,
    memcpy snmpAccessFlag Eeprom.snmpAccessFlag 1,
    memcpy (element snmpTrapTargetIP 4 0) (element Eeprom.snmpTrapTargetIP 4 0) 4,
    memcpy (element snmpTrapTargetIP 4 1) (element Eeprom.snmpTrapTargetIP 4 1) 4,
    const atalkLen [3 + 2 * 33 + 13 + 3 * 21 + 3],
    const atCurNet [box.atNet.toUInt8, (box.atNet >>> 8).toUInt8],
    const atCurNode [box.atNode],
    const atCurZoneName (box.atZonename ++ [0]),
    memcpy atZoneName Eeprom.atZoneName 33,
    memcpy atPortName Eeprom.atPortName 13,
    -- `NUM_OF_PRN_PORT` is 1
    memcpy (element atPortType 21 0) (element Eeprom.atPortType 21 0) 21,
    memcpy (byteAt atDataFormat 0) (byteAt Eeprom.atDataFormat 0) 1,
    const ndsLen [33],
    memcpy ndsTreeName Eeprom.ndsTreeName 33,
    const ndsContextLen [251],
    memcpy ndsContext Eeprom.ndsContext 251,
    const deviceLen [3],
    memcpy (byteAt bidirectional 0) (byteAt Eeprom.bidirectional 0) 1,
    memcpy (byteAt bidirectional 1) (byteAt Eeprom.bidirectional 1) 1,
    memcpy (byteAt bidirectional 2) (byteAt Eeprom.bidirectional 2) 1,
    const wirelessLen [86],
    memcpy wlMode Eeprom.wlMode 1,
    assign wlESSID fun e _ ↦
      if e Eeprom.wlESSID.offset = 0 then anyess ++ [0] else readMem e Eeprom.wlESSID.offset 32,
    memcpy wlZone Eeprom.wlZone 1,
    memcpy wlChannel Eeprom.wlChannel 1,
    memcpy wlRate Eeprom.wlRate 1,
    memcpy wlBeaconinterval Eeprom.wlBeaconinterval 2,
    memcpy wlShortPreamble Eeprom.wlShortPreamble 1,
    memcpy wlFragmentation Eeprom.wlFragmentation 2,
    memcpy wlAuthenticationType Eeprom.wlAuthType 1,
    memcpy wlWEPType Eeprom.wlWEPType 1,
    memcpy wlWEPKeySel Eeprom.wlWEPKeySel 1,
    memcpy wlWEPKey1 Eeprom.wlWEPKey1 6,
    memcpy wlWEPKey2 Eeprom.wlWEPKey2 6,
    memcpy wlWEPKey3 Eeprom.wlWEPKey3 6,
    memcpy wlWEPKey4 Eeprom.wlWEPKey4 6,
    memcpy wlWEP128Key Eeprom.wlWEP128Key 15,
    memcpy wlWEPKeyType Eeprom.wlWEPKeyType 1,
    const operationMode [0],
    const wlAPMode [0],
    const portFaceLen [3],
    memcpy portDesc Eeprom.portDesc 1,
    memcpy portTail Eeprom.portTail 1,
    memcpy specialOEM Eeprom.specialOEM 1,
    const eos [0xFF]]

end BoxState

section Ext

open ListViewExt

/-- `UtilSetListViewData_Adv` -/
def utilSetListViewDataAdv : List Assign :=
  [const wirelessExtLen [110],
    memcpy wlExtRate Eeprom.wlExtRate 1,
    memcpy wpaPass Eeprom.wpaPass 64,
    assign wlTransMode fun e _ ↦
      [if e Eeprom.wlTxMode.offset = 1 then 1
        else if e Eeprom.wlTxMode.offset = 2 then 2
        else if e Eeprom.wlTxMode.offset = 3 then 3
        else 0],
    memcpy wlWPAType Eeprom.wlWPAType 1,
    const lprLen [39],
    -- the length is 256
    const rsaPublicKeyLen [0],
    const rsaPublicKeyValue (List.replicate 256 0),
    const smbLen [55],
    memcpy smbWorkGroup Eeprom.workGroupName 16,
    memcpy (element smbServiceName 13 0) (element Eeprom.serviceName 13 0) 13,
    const ipxLen [1],
    const wlWEP128Len [60],
    memcpy wlWEP128Key1 Eeprom.wlWEP128Key 15,
    memcpy wlWEP128Key2 Eeprom.wlWEP128Key2 15,
    memcpy wlWEP128Key3 Eeprom.wlWEP128Key3 15,
    memcpy wlWEP128Key4 Eeprom.wlWEP128Key4 15,
    const wpsLen [2],
    memcpy wpsButtonPressedCount Eeprom.wpsButtonPressedCount 1,
    const wpsStatusShownOnUtility [0],
    const eos [0xFF]]

end Ext

section Get

open ListView

/-- `UtilGetListViewData` up to `WLMode`; `Hostname` is not part of the record. -/
def getListViewHead : List Assign :=
  [memcpy Eeprom.boxName boxName 18,
    memcpy Eeprom.boxIPAddress ip 4,
    assign Eeprom.printServerMode fun v e ↦
      [(e Eeprom.printServerMode.offset &&& psDhcpOn) ||| (v protocolMode.offset &&& ~~~psDhcpOn)],
    memcpy Eeprom.printerSpeed printerSpeed 1,
    memcpy Eeprom.password setupPassword 8,
    memcpy Eeprom.pollingTime pollingTime 1,
    memcpy Eeprom.novellPassword novellPassword 9,
    memcpy Eeprom.fileServerNames fileServerName 254,
    memcpy Eeprom.printServerName printServerName 48,
    memcpy Eeprom.subNetMask subnetMask 4,
    memcpy Eeprom.getwayAddress gatewayAddress 4,
    assign Eeprom.printServerMode fun v e ↦
      [(e Eeprom.printServerMode.offset &&& ~~~psDhcpOn) |||
        (if v dhcpEnable.offset ≠ 0 then psDhcpOn else 0x00)],
    memcpy Eeprom.snmpSysContact snmpSysContact 16,
    memcpy Eeprom.snmpSysLocation snmpSysLocation 25,
    memcpy (element Eeprom.snmpCommunityAuthName 13 0) (element snmpCommunityAuthName 13 0) 13,
    memcpy (element Eeprom.snmpCommunityAuthName 13 1) (element snmpCommunityAuthName 13 1) 13,
    memcpy Eeprom.snmpAccessFlag snmpAccessFlag 1,
    memcpy (element Eeprom.snmpTrapTargetIP 4 0) (element snmpTrapTargetIP 4 0) 4,
    memcpy (element Eeprom.snmpTrapTargetIP 4 1) (element snmpTrapTargetIP 4 1) 4,
    memcpy Eeprom.atZoneName atZoneName 33,
    memcpy Eeprom.atPortName atPortName 13,
    memcpy (element Eeprom.atPortType 21 0) (element atPortType 21 0) 21,
    memcpy (byteAt Eeprom.atDataFormat 0) (byteAt atDataFormat 0) 1,
    memcpy Eeprom.ndsTreeName ndsTreeName 33,
    memcpy Eeprom.ndsContext ndsContext 251,
    memcpy (byteAt Eeprom.bidirectional 0) (byteAt bidirectional 0) 1,
    memcpy (byteAt Eeprom.bidirectional 1) (byteAt bidirectional 1) 1,
    memcpy (byteAt Eeprom.bidirectional 2) (byteAt bidirectional 2) 1,
    memcpy Eeprom.wlMode wlMode 1]

/-- The SSID in `UtilGetListViewData`. -/
def getListViewSsid (box : BoxState) : List Assign :=
  [const Eeprom.wlESSID (List.replicate 32 0x00),
    assign Eeprom.wlESSID fun v _ ↦
      if wlanSetAnyssid (readMem v wlESSID.offset 32) then box.anyess32
      else readMem v wlESSID.offset 32]

/-- `UtilGetListViewData` from `WLZone` on. -/
def getListViewTail : List Assign :=
  [memcpy Eeprom.wlZone wlZone 1,
    memcpy Eeprom.wlChannel wlChannel 1,
    memcpy Eeprom.wlRate wlRate 1,
    memcpy Eeprom.wlBeaconinterval wlBeaconinterval 2,
    memcpy Eeprom.wlShortPreamble wlShortPreamble 1,
    memcpy Eeprom.wlFragmentation wlFragmentation 2,
    memcpy Eeprom.wlAuthType wlAuthenticationType 1,
    memcpy Eeprom.wlWEPType wlWEPType 1,
    memcpy Eeprom.wlWEPKeyType wlWEPKeyType 1,
    memcpy Eeprom.wlWEPKeySel wlWEPKeySel 1,
    memcpy Eeprom.wlWEPKey1 wlWEPKey1 6,
    memcpy Eeprom.wlWEPKey2 wlWEPKey2 6,
    memcpy Eeprom.wlWEPKey3 wlWEPKey3 6,
    memcpy Eeprom.wlWEPKey4 wlWEPKey4 6,
    memcpy Eeprom.wlWEP128Key wlWEP128Key 15]

def utilGetListViewData (box : BoxState) : List Assign :=
  getListViewHead ++ getListViewSsid box ++ getListViewTail

open ListViewExt in
/-- `UtilGetListViewData_Adv` -/
def utilGetListViewDataAdv : List Assign :=
  [memcpy Eeprom.wlExtRate wlExtRate 1,
    memcpy Eeprom.wpaPass wpaPass 64,
    assign Eeprom.wlTxMode fun v _ ↦
      [if v wlTransMode.offset = 1 then 1
        else if v wlTransMode.offset = 2 then 2
        else if v wlTransMode.offset = 3 then 3
        else 0],
    memcpy Eeprom.wlWPAType wlWPAType 1,
    memcpy Eeprom.workGroupName smbWorkGroup 16,
    memcpy (element Eeprom.serviceName 13 0) (element smbServiceName 13 0) 13,
    memcpy Eeprom.wlWEP128Key wlWEP128Key1 15,
    memcpy Eeprom.wlWEP128Key2 wlWEP128Key2 15,
    memcpy Eeprom.wlWEP128Key3 wlWEP128Key3 15,
    memcpy Eeprom.wlWEP128Key4 wlWEP128Key4 15]

end Get

/-- The record of `UtilViewBoxUDP_Adv`, zeroed and filled. -/
def BoxState.view (box : BoxState) (e : EepromData) : Memory :=
  Transfer.run (box.eepromMem e) utilSetListViewDataAdv
    (Transfer.run (box.eepromMem e) (box.utilSetListViewData e) fun _ ↦ 0)

/-- `EEPROM_Data` after both functions have taken the record at `v`. -/
def BoxState.config (box : BoxState) (v : Memory) (e : EepromData) : EepromData :=
  EepromData.ofMemory (Transfer.run v (utilGetListViewData box ++ utilGetListViewDataAdv) e.mem)

end PrintServer.Nt
