import PrintServer.Http.CString
import Mathlib.Data.List.Nodup

/-!
# The items of a settings form

`EchoName`, `SearchEchoName` and the loop of `CGIBoxSetting` that splits a query in place.  A query
is the memory from `rq->query` on; what lies behind its NUL is there to be read.
-/

namespace PrintServer.Http

def echoName : List String :=
  ["NodeID", "Version", "NetWareConnect", "Port1", "Port2", "Port3", "CurDHCP", "CurIP",
    "CurSubNet", "CurGateway", "CurNetWareMode", "CurFSName", "HomeAddr", "ErrorMsg", "BoxName",
    "DHCP", "NotDHCP", "IP", "Subnet", "Gateway", "NetWareMode", "PSName", "FSName", "PollTime",
    "CurSpeed", "PortSpeed", "BoxUpTime", "SnmpSysContact", "SnmpSysLocation", "SnmpCommunity1",
    "SnmpCommunity2", "SnmpComm1Access", "SnmpComm2Access", "SnmpTrapEnable", "SnmpAuthTrapEnable",
    "SnmpTrapIP1", "SnmpTrapIP2", "SnmpSetComm1Access", "SnmpSetComm2Access", "SnmpSetTrapEnable",
    "SnmpSetAuthTrapEnable", "AtalkZoneName", "AtalkPort1Name", "AtalkPort2Name", "AtalkPort3Name",
    "AtalkSetZoneName", "AtalkNetAddr", "AtalkSetPortName", "TimeOutValue", "NTMaxRecvPacket",
    "QTestMode", "VersionStatus", "MemoryStatus", "PrintStatus", "PrintMode", "QueueStatus",
    "BufferStatus", "ErrorStatus", "CurMediaMode", "CurNDSMode", "SetNDSMode", "NetwarePassword",
    "NDSTreeName", "NDSContext", "NDSConnect", "SetNDSTreeName", "SetupPWD", "ConfirmPWD",
    "PWDSeed", "Port1MDL", "Port2MDL", "Port3MDL", "Port1MFG", "Port2MFG", "Port3MFG", "Port1CMD",
    "Port2CMD", "Port3CMD", "Port1MOD", "Port2MOD", "Port3MOD", "SetP1BiMode", "SetP2BiMode",
    "SetP3BiMode", "SetP1MOD", "SetP2MOD", "SetP3MOD", "AtalkPort1Type", "AtalkPort2Type",
    "AtalkPort3Type", "AtalkPort1DataMode", "AtalkPort2DataMode", "AtalkPort3DataMode",
    "AtalkSetPort1DataMode", "AtalkSetPort2DataMode", "AtalkSetPort3DataMode", "FlashCount",
    "IPPJobs", "SysReset", "SysReboot", "LoadDefault", "SaveEEPROM", "WLESSID", "WLChannel",
    "WLWEPType", "WLWEPKeySel", "WLWEPKey", "WLWEPKey1", "WLWEPKey2", "WLWEPKey3", "WLWEPKey4",
    "WLWEP128Key", "WLBeaconinterval", "WLRTSThreshold", "WLFragmentation", "WLRates", "WLRate",
    "WLShortPreamble", "WLAuthType", "WLDtiminterval", "WLCfpperiod", "WLCfpmaxduration", "WLCRX",
    "WLCTX", "WLJapan", "WLAnSide", "WLCountry", "WLGenerate", "WLMode", "WLAPMode", "WLTxPower",
    "WLZone", "WLCurChannel", "WLTxRate", "WLVersion", "WebJetAdmin", "SMBWorkGroup", "SMBPrint1",
    "SMBPrint2", "SMBPrint3", "Spy", "SCANAP", "SHOWESSID", "DIAGNOSTIC", "CURRBSSID",
    "WLWEPFormat", "WLNonModulate", "CURRSSID", "PrintTest", "ALert", "SMTPIP", "SMTPMail",
    "MACReCount", "EAPType", "EAPNAME", "EAPPASSWORD", "WLMTMode", "WLMTChannel", "WLMTRate",
    "WLMTPreamble", "WLMTLength", "WLMTScrambling", "WLMTFilter", "WLMTAntenna_rx",
    "WLMTAntenna_tx", "WLMTPower_loop", "WLMTKey_type", "WLMTKey_length", "WLMTKey", "WLMTCCAMode",
    "WLMTAutorespond", "CURRRATE", "LPRQUEUE1", "LPRQUEUE2", "LPRQUEUE3", "WPA_Pass", "CurJOBList",
    "JOBList", "Port1JobCount", "Port2JobCount", "Port3JobCount", "Port1PageCount",
    "Port2PageCount", "Port3PageCount", "Version_Short", "Randvous", "RandvousName",
    "AtalkSettings", "MF_Enabled", "MF_DenyAll", "MF_ControlListSize", "MF_Name", "MF_MACAddress",
    "MF_ControlList", "MF_ControlListStatus", "WLRxRSSI", "WLLinkQuality", "WLTxMode", "WLWEPType",
    "WLWPAType", "WLWEP128Key1", "WLWEP128Key2", "WLWEP128Key3", "WLWEP128Key4", "WLBandWidth",
    "WLDataRate"]

/-- The bytes of the names, which are ASCII. -/
def echoNames : List Str := echoName.map fun s ↦ s.toByteArray.data.toList

def echoBoxName : Nat := 14
def echoSetFsname : UInt8 := 22

/-- The names that `SearchEchoName` goes through. -/
def formNames : List Str := echoNames.drop echoBoxName

def isItem (cp0 : List UInt8) (name : Str) : Bool :=
  strnicmp (cstr cp0 0) name name.length = 0 ∧ cp0.getD name.length 0 = chr '='

/-- The item, or -1, and what is left in `len`. -/
def searchEchoName (cp0 : List UInt8) : Int × Nat :=
  match formNames.findIdx? (isItem cp0) with
  | some i => (echoBoxName + i, (formNames.getD i []).length + 1)
  | none => (-1, (formNames.getLastD []).length)

/-- The memory of a query, and the pointers into it that are stored through `p`. -/
structure Query where
  mem : List UInt8
  p : UInt8 → Option Nat

def isEnd (c : UInt8) : Bool := c = 0xff ∨ c = 0

/-- The splitting loop from `cp0` up to `cp2`.  The item is an `uint8`, so that the test for a
negative one never holds. -/
def splitQuery : Nat → Nat → Nat → Query → Query
  | 0, _, _, q => q
  | fuel + 1, cp0, cp2, q =>
      if cp0 < cp2 then
        let cp1 := cp0 + ((q.mem.drop cp0).takeWhile fun c ↦ !isEnd c).length
        let (item, len) := searchEchoName (q.mem.drop cp0)
        let echoItem := UInt8.ofInt item
        splitQuery fuel (cp1 + 1) cp2
          (if echoItem ≠ echoSetFsname then
            { mem := q.mem.set cp1 0, p := Function.update q.p echoItem (some (cp0 + len)) }
          else if q.p echoItem = none then
            { q with p := Function.update q.p echoItem (some cp0) }
          else q)
      else q

/-- `CGIBoxSetting` up to the end of the loop.  A query without text is looked at one byte before
its first, where there is nothing to cut. -/
def parseQuery (mem : List UInt8) : Query :=
  let qsize := (cstr mem 0).length
  if qsize ≠ 0 ∧ mem.getD (qsize - 1) 0 = chr '\n' then
    splitQuery qsize 0 (qsize - 1) ⟨mem.set (qsize - 1) 0, fun _ ↦ none⟩
  else splitQuery qsize 0 qsize ⟨mem, fun _ ↦ none⟩

/-! ## The names of the table -/

/-- A number in which upper and lower case are the same; no two names share it. -/
def nameHash (s : Str) : Nat := s.foldl (fun n c ↦ 256 * n + Nat.lor c.toNat 32) 0 % 3683

/-- No number is in the list twice or in the set of bits `seen`. -/
def distinctBits : Nat → List Nat → Bool
  | _, [] => true
  | seen, k :: ks => !seen.testBit k && distinctBits (seen ||| 1 <<< k) ks

theorem nodup_of_distinctBits {seen : Nat} {ks : List Nat} (h : distinctBits seen ks) :
    ks.Nodup ∧ ∀ k ∈ ks, seen.testBit k = false := by
  induction ks generalizing seen with
  | nil => exact ⟨List.nodup_nil, fun _ hk ↦ by cases hk⟩
  | cons k ks ih =>
      obtain ⟨hk, hks⟩ : seen.testBit k = false ∧ distinctBits (seen ||| 1 <<< k) ks := by
        simpa [distinctBits] using h
      obtain ⟨hnodup, hseen⟩ := ih hks
      have hbits : ∀ j ∈ ks, seen.testBit j = false ∧ j ≠ k := by
        intro j hj
        have hor := hseen j hj
        rw [Nat.testBit_or, Nat.one_shiftLeft, Nat.testBit_two_pow] at hor
        simp only [Bool.or_eq_false_iff, decide_eq_false_iff_not] at hor
        exact ⟨hor.1, fun hjk ↦ hor.2 hjk.symm⟩
      refine ⟨List.nodup_cons.mpr ⟨fun hmem ↦ (hbits k hmem).2 rfl, hnodup⟩, ?_⟩
      intro j hj
      rcases List.mem_cons.mp hj with rfl | hj
      · exact hk
      · exact (hbits j hj).1

theorem lor_tolower (c : UInt8) : Nat.lor (tolower c).toNat 32 = Nat.lor c.toNat 32 := by
  revert c
  refine forall_byte ?_
  decide +kernel

theorem tolower_eq_equals (c : UInt8) : tolower c = chr '=' ↔ c = chr '=' := by
  revert c
  refine forall_byte ?_
  decide +kernel

theorem nameHash_congr {n m : Str} (h : n.map tolower = m.map tolower) :
    nameHash n = nameHash m := by
  unfold nameHash
  congr 1
  generalize 0 = k
  induction n generalizing m k with
  | nil =>
      obtain rfl : m = [] := by simpa using h.symm
      rfl
  | cons a n ih =>
      obtain ⟨b, m, rfl⟩ := List.exists_cons_of_ne_nil (l := m) (by rintro rfl; cases h)
      obtain ⟨hab, hnm⟩ := List.cons.inj h
      rw [List.foldl_cons, List.foldl_cons, ← lor_tolower a, hab, lor_tolower b]
      exact ih hnm _

/-- What evaluating the names shows, all of it at once. -/
theorem echoNames_checked :
    distinctBits 0 ((echoNames.eraseIdx 198).map nameHash) = true ∧
    echoNames[198]? = echoNames[104]? ∧
    (∀ n ∈ echoNames, chr '=' ∉ n ∧ 0 ∉ n ∧ 0xff ∉ n) ∧
    (echoNames.take echoBoxName).length = echoBoxName ∧
    ∀ n ∈ echoNames.take echoBoxName, n ∉ formNames := by
  decide +kernel

/-- The only repeated name is that of items 104 and 198. -/
theorem nodup_nameHash : ((echoNames.eraseIdx 198).map nameHash).Nodup :=
  (nodup_of_distinctBits echoNames_checked.1).1

theorem echoNames_getElem_198 : echoNames[198]? = echoNames[104]? := echoNames_checked.2.1

/-- The names differ in more than case. -/
theorem eq_of_map_tolower {n m : Str} (hn : n ∈ echoNames) (hm : m ∈ echoNames)
    (h : n.map tolower = m.map tolower) : n = m := by
  have mem_erase {k : Str} (hk : k ∈ echoNames) : k ∈ echoNames.eraseIdx 198 := by
    rw [List.mem_eraseIdx_iff_getElem?]
    obtain ⟨i, hi⟩ := List.mem_iff_getElem?.mp hk
    by_cases hi' : i = 198
    · exact ⟨104, by decide, by rw [← echoNames_getElem_198, ← hi', hi]⟩
    · exact ⟨i, hi', hi⟩
  exact List.inj_on_of_nodup_map nodup_nameHash (mem_erase hn) (mem_erase hm) (nameHash_congr h)

theorem echoNames_plain {n : Str} (hn : n ∈ echoNames) :
    chr '=' ∉ n ∧ 0 ∉ n ∧ 0xff ∉ n :=
  echoNames_checked.2.2.1 n hn

/-! ## The name lookup -/

theorem cstr_append {s t : List UInt8} (hs : 0 ∉ s) : cstr (s ++ t) 0 = s ++ cstr t 0 := by
  unfold cstr
  rw [List.drop_zero, List.drop_zero]
  refine List.takeWhile_append_of_pos fun c hc ↦ ?_
  have hne : c ≠ 0 := fun h ↦ hs (h ▸ hc)
  simpa using hne

theorem strnicmp_name {n m t r : Str} (hn : chr '=' ∉ n) (hm : chr '=' ∉ m) :
    (strnicmp (n ++ chr '=' :: t) m m.length = 0 ∧
        (n ++ chr '=' :: r).getD m.length 0 = chr '=') ↔
      n.map tolower = m.map tolower := by
  induction m generalizing n with
  | nil =>
      cases n with
      | nil => simp [strnicmp]
      | cons a n =>
          have ha : a ≠ chr '=' := fun h ↦ hn (h ▸ List.mem_cons_self)
          simp [strnicmp, ha]
  | cons c m ih =>
      have hc : tolower c ≠ chr '=' := fun h ↦
        hm ((tolower_eq_equals c).mp h ▸ List.mem_cons_self)
      have hm' : chr '=' ∉ m := fun h ↦ hm (List.mem_cons_of_mem c h)
      cases n with
      | nil =>
          -- the comparison meets the `=`
          have hne : ¬ tolower (chr '=') = tolower c := fun h ↦ hc (h ▸ rfl)
          simp only [List.nil_append, List.length_cons, strnicmp, if_neg hne, List.map_nil,
            List.map_cons]
          constructor
          · rintro ⟨h, -⟩
            split at h <;> cases h
          · intro h
            cases h
      | cons a n =>
          have hn' : chr '=' ∉ n := fun h ↦ hn (List.mem_cons_of_mem a h)
          simp only [List.cons_append, List.length_cons, strnicmp, List.getD_cons_succ,
            List.map_cons, List.cons.injEq]
          by_cases hac : tolower a = tolower c
          · rw [if_pos hac, ih hn' hm']
            exact (and_iff_right hac).symm
          · rw [if_neg hac]
            constructor
            · rintro ⟨h, -⟩
              split at h <;> cases h
            · rintro ⟨h, -⟩
              exact absurd h hac

/-- Of the names in the table, a pair matches its own. -/
theorem isItem_iff {n m r : Str} (hn : n ∈ echoNames) (hm : m ∈ echoNames) :
    isItem (n ++ chr '=' :: r) m = true ↔ n = m := by
  obtain ⟨hneq, hn0, -⟩ := echoNames_plain hn
  have hcstr : cstr (n ++ chr '=' :: r) 0 = n ++ chr '=' :: cstr r 0 := by
    rw [cstr_append hn0]
    rfl
  unfold isItem
  rw [hcstr, decide_eq_true_iff, strnicmp_name hneq (echoNames_plain hm).1]
  exact ⟨eq_of_map_tolower hn hm, fun h ↦ h ▸ rfl⟩

theorem not_mem_formNames : ∀ n ∈ echoNames.take echoBoxName, n ∉ formNames :=
  echoNames_checked.2.2.2.2

theorem idxOf_formName {n : Str} (hn : n ∈ formNames) :
    echoNames.idxOf n = echoBoxName + formNames.idxOf n := by
  have htake : n ∉ echoNames.take echoBoxName := fun h ↦ not_mem_formNames n h hn
  have hlen : (echoNames.take echoBoxName).length = echoBoxName := echoNames_checked.2.2.2.1
  conv_lhs => rw [← List.take_append_drop echoBoxName echoNames]
  rw [List.idxOf_append_of_notMem htake, hlen]
  rfl

theorem mem_formNames_iff {n : Str} (hn : n ∈ echoNames) :
    n ∈ formNames ↔ echoBoxName ≤ echoNames.idxOf n := by
  constructor
  · intro h
    rw [idxOf_formName h]
    exact Nat.le_add_right _ _
  · intro h
    rw [← List.take_append_drop echoBoxName echoNames] at hn
    rcases List.mem_append.mp hn with htake | hform
    · have hlt : echoNames.idxOf n < echoBoxName := by
        rw [← List.take_append_drop echoBoxName echoNames, List.idxOf_append_of_mem htake]
        refine Nat.lt_of_lt_of_le (List.idxOf_lt_length_iff.mpr htake) ?_
        exact List.length_take_le _ _
      omega
    · exact hform

/-- What `SearchEchoName` finds for a name of the table. -/
def found (n : Str) : Int × Nat :=
  if formNames.contains n then (echoNames.idxOf n, n.length + 1)
  else (-1, (formNames.getLastD []).length)

theorem searchEchoName_pair {n : Str} (hn : n ∈ echoNames) (r : List UInt8) :
    searchEchoName (n ++ chr '=' :: r) = found n := by
  have hitem : ∀ m ∈ formNames, isItem (n ++ chr '=' :: r) m = true ↔ n = m :=
    fun m hm ↦ isItem_iff hn (List.mem_of_mem_drop hm)
  unfold searchEchoName found
  by_cases hform : n ∈ formNames
  · have hlt := List.idxOf_lt_length_of_mem hform
    have hget : formNames[formNames.idxOf n] = n := List.getElem_idxOf hlt
    have hfind : formNames.findIdx? (isItem (n ++ chr '=' :: r)) = some (formNames.idxOf n) := by
      rw [List.findIdx?_eq_some_iff_getElem]
      refine ⟨hlt, (hitem _ (List.getElem_mem hlt)).mpr hget.symm, fun j hj heq ↦ ?_⟩
      have hne := List.not_of_lt_findIdx hj
      rw [← (hitem _ (List.getElem_mem _)).mp heq] at hne
      simp at hne
    rw [hfind, if_pos (List.contains_iff_mem.mpr hform), idxOf_formName hform]
    simp [List.getD_eq_getElem?_getD, hlt, hget]
  · have hfind : formNames.findIdx? (isItem (n ++ chr '=' :: r)) = none := by
      rw [List.findIdx?_eq_none_iff]
      intro m hm
      rw [Bool.eq_false_iff, Ne, hitem m hm]
      rintro rfl
      exact hform hm
    rw [hfind, if_neg fun h ↦ hform (List.contains_iff_mem.mp h)]

end PrintServer.Http
