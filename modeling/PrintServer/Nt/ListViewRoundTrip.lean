import PrintServer.Nt.ListView

/-!
# The record of the utility given back

What `UtilSetListViewData` shows of `EEPROM_Data` comes back unchanged but for the SSID, where
`< ANY >` comes back with the memory that lies behind it.
-/

namespace PrintServer.Nt

open Lib Flash Http Transfer

/-- The box of the map file: behind `ANYESS` lies the pointer `recbuffer_ipx`. -/
def mapBox : BoxState :=
  { node := [0x00, 0x40, 0x01, 0x02, 0x03, 0x04], majorVer := 9, minorVer := 8, buildVer := 12,
    psModel := 50, webLangVersion := [], atNet := 0, atNode := 0, atZonename := [],
    behindEeprom := [], behindAnyess := [0x68, 0xA8, 0x5B] ++ List.replicate 21 0,
    length_node := rfl, length_behindAnyess := rfl }

/-- A marked record without names. -/
def markedRecord : EepromData :=
  EepromData.ofMemory (writeMem (fun _ ↦ 0) Eeprom.zotMark.offset [0x5A, 0x4F, 0x54, 0x00])

/-! ## What the record holds -/

variable {box : BoxState} {e : EepromData}

set_option maxRecDepth 4000 in
theorem ordered_set (box : BoxState) (e : EepromData) : Ordered (box.utilSetListViewData e) := by
  unfold Ordered BoxState.utilSetListViewData
  -- the places do not depend on the box
  simp only [List.map_cons, List.map_nil, const, assign, memcpy, Transfer.dst, Transfer.size]
  decide

theorem ordered_setAdv : Ordered utilSetListViewDataAdv := by
  unfold Ordered
  decide

theorem copies_set (box : BoxState) (e : EepromData) :
    copies (box.utilSetListViewData e) = copies (mapBox.utilSetListViewData markedRecord) := by
  simp only [BoxState.utilSetListViewData, const, assign, memcpy, copies]

theorem eepromMem_eq {i : Nat} (hi : i < 1408) : box.eepromMem e i = e.mem i := by
  unfold BoxState.eepromMem EepromData.mem
  rw [List.getD_append _ _ _ _ (by rwa [e.length_eq])]

theorem readMem_eepromMem {o n : Nat} (h : o + n ≤ 1408) :
    readMem (box.eepromMem e) o n = readMem e.mem o n :=
  readMem_congr fun _ _ hi ↦ eepromMem_eq (by omega)

/-- The second function writes from the last byte of `LIST_VIEW` on. -/
theorem view_of_lt {i : Nat} (hi : i < 998) : box.view e i =
    run (box.eepromMem e) (box.utilSetListViewData e) (fun _ ↦ 0) i := by
  have hdst : ∀ p ∈ utilSetListViewDataAdv.map Transfer.dst, 998 ≤ p := by decide
  apply run_of_lt
  intro t ht
  have hle := hdst t.dst (List.mem_map_of_mem ht)
  omega

theorem readMem_view {o n : Nat} (h : o + n ≤ 998) : readMem (box.view e) o n =
    readMem (run (box.eepromMem e) (box.utilSetListViewData e) fun _ ↦ 0) o n :=
  readMem_congr fun _ _ hi ↦ view_of_lt (by omega)

theorem view_copy {d s n : Nat}
    (hmem : (d, s, n) ∈ copies (mapBox.utilSetListViewData markedRecord))
    (hd : d + n ≤ 998) (hs : s + n ≤ 1408) : readMem (box.view e) d n = readMem e.mem s n := by
  rw [← copies_set box e, mem_copies] at hmem
  rw [readMem_view hd, (ordered_set box e).readMem_copy hmem, readMem_eepromMem hs]

theorem view_copyAdv {d s n : Nat} (hmem : (d, s, n) ∈ copies utilSetListViewDataAdv)
    (hs : s + n ≤ 1408) : readMem (box.view e) d n = readMem e.mem s n := by
  rw [mem_copies] at hmem
  rw [BoxState.view, ordered_setAdv.readMem_copy hmem, readMem_eepromMem hs]

/-- What an assignment of `UtilSetListViewData` shows that is no copy. -/
theorem view_value {d s n : Nat} {v : Memory → Memory → List UInt8} {w : List UInt8}
    (hmem : Transfer.value d s v ∈ box.utilSetListViewData e)
    (hv : ∀ m, v (box.eepromMem e) m = w) (hd : d + n ≤ 998) (hn : n ≤ s) (hw : n ≤ w.length) :
    readMem (box.view e) d n = w.take n := by
  rw [readMem_view hd]
  exact (ordered_set box e).readMem_value hmem hv hn hw

theorem readMem_one (m : Memory) (o : Nat) : readMem m o 1 = [m o] := rfl

theorem view_protocolMode : box.view e ListView.protocolMode.offset =
    e.mem Eeprom.printServerMode.offset &&& ~~~psDhcpOn := by
  have hmem : assign ListView.protocolMode (fun e _ ↦
      [e Eeprom.printServerMode.offset &&& ~~~psDhcpOn]) ∈ box.utilSetListViewData e := by
    repeat first | exact List.mem_cons_self | apply List.mem_cons_of_mem
  have hread := view_value (n := 1) hmem (fun _ ↦ rfl) (by decide) (Nat.le_refl 1)
    (Nat.le_refl 1)
  rw [eepromMem_eq (by decide)] at hread
  exact (List.cons.inj hread).1

theorem view_dhcpEnable : box.view e ListView.dhcpEnable.offset =
    if (e.mem Eeprom.printServerMode.offset &&& 0x80) ≠ 0 then 1 else 0 := by
  have hmem : assign ListView.dhcpEnable (fun e _ ↦
      [if (e Eeprom.printServerMode.offset &&& 0x80) ≠ 0 then 1 else 0]) ∈
        box.utilSetListViewData e := by
    repeat first | exact List.mem_cons_self | apply List.mem_cons_of_mem
  have hread := view_value (n := 1) hmem (fun _ ↦ rfl) (by decide) (Nat.le_refl 1)
    (Nat.le_refl 1)
  rw [eepromMem_eq (by decide)] at hread
  exact (List.cons.inj hread).1

/-! ## The record that comes back -/

/-- What the box name becomes. -/
def BoxState.nameBack (box : BoxState) (e : EepromData) : List UInt8 :=
  readMem (box.view e) ListView.boxName.offset 18

/-- What the SSID becomes. -/
def BoxState.ssidBack (box : BoxState) (e : EepromData) : List UInt8 :=
  if wlanSetAnyssid (readMem (box.view e) ListView.wlESSID.offset 32) then box.anyess32
  else readMem (box.view e) ListView.wlESSID.offset 32

def BoxState.backMem (box : BoxState) (e : EepromData) : Memory :=
  writeMem (writeMem e.mem Eeprom.boxName.offset (box.nameBack e)) Eeprom.wlESSID.offset
    (box.ssidBack e)

theorem length_anyess32 (box : BoxState) : box.anyess32.length = 32 := by
  unfold BoxState.anyess32
  rw [List.length_append, List.length_cons, box.length_behindAnyess]
  rfl

theorem length_nameBack (box : BoxState) (e : EepromData) : (box.nameBack e).length = 18 :=
  length_readMem

theorem length_ssidBack (box : BoxState) (e : EepromData) : (box.ssidBack e).length = 32 := by
  unfold BoxState.ssidBack
  split
  · exact length_anyess32 box
  · exact length_readMem

def InField (f : Flash.Field) (i : Nat) : Prop := f.offset ≤ i ∧ i < f.offset + f.size

theorem backMem_ssid (box : BoxState) (e : EepromData) :
    readMem (box.backMem e) Eeprom.wlESSID.offset 32 = box.ssidBack e := by
  have hback := @readMem_writeMem _ (writeMem e.mem Eeprom.boxName.offset (box.nameBack e))
    Eeprom.wlESSID.offset (box.ssidBack e)
  rwa [length_ssidBack] at hback

theorem backMem_of_not_ssid {i : Nat} (h : ¬ InField Eeprom.wlESSID i) :
    box.backMem e i = writeMem e.mem Eeprom.boxName.offset (box.nameBack e) i := by
  have hlen := length_ssidBack box e
  have hsize : Eeprom.wlESSID.size = 32 := rfl
  unfold InField at h
  by_cases hlt : i < Eeprom.wlESSID.offset
  · exact writeMem_of_lt hlt
  · exact writeMem_of_ge (by omega)

theorem backMem_name (box : BoxState) (e : EepromData) :
    readMem (box.backMem e) Eeprom.boxName.offset 18 = box.nameBack e := by
  have hssid : 32 ≤ Eeprom.wlESSID.offset := by decide
  have hname : Eeprom.boxName.offset = 14 := rfl
  have hback := @readMem_writeMem _ e.mem Eeprom.boxName.offset (box.nameBack e)
  rw [length_nameBack] at hback
  rw [← hback]
  apply readMem_congr
  intro i _ hi
  apply backMem_of_not_ssid
  rintro ⟨hlo, -⟩
  omega

theorem backMem_rest {i : Nat} (hname : ¬ InField Eeprom.boxName i)
    (hssid : ¬ InField Eeprom.wlESSID i) : box.backMem e i = e.mem i := by
  have hlen := length_nameBack box e
  have hsize : Eeprom.boxName.size = 18 := rfl
  rw [backMem_of_not_ssid hssid]
  unfold InField at hname
  by_cases hlt : i < Eeprom.boxName.offset
  · exact writeMem_of_lt hlt
  · exact writeMem_of_ge (by omega)

theorem readMem_backMem {d n : Nat}
    (hname : d + n ≤ Eeprom.boxName.offset ∨ Eeprom.boxName.offset + Eeprom.boxName.size ≤ d)
    (hssid : d + n ≤ Eeprom.wlESSID.offset ∨ Eeprom.wlESSID.offset + Eeprom.wlESSID.size ≤ d) :
    readMem (box.backMem e) d n = readMem e.mem d n := by
  apply readMem_congr
  intro i hlo hhi
  apply backMem_rest
  · rintro ⟨h₁, h₂⟩
    omega
  · rintro ⟨h₁, h₂⟩
    omega

/-- A copy of `UtilGetListViewData` is one of `UtilSetListViewData` the other way round. -/
def GivesBack (shown : List (Nat × Nat × Nat)) (limit : Nat) (c : Nat × Nat × Nat) : Prop :=
  (c.2.1, c.1, c.2.2) ∈ shown ∧ c.2.1 + c.2.2 ≤ limit ∧ c.1 + c.2.2 ≤ 1408 ∧
    (c.1 + c.2.2 ≤ Eeprom.boxName.offset ∨
      Eeprom.boxName.offset + Eeprom.boxName.size ≤ c.1) ∧
    (c.1 + c.2.2 ≤ Eeprom.wlESSID.offset ∨ Eeprom.wlESSID.offset + Eeprom.wlESSID.size ≤ c.1)

instance (shown : List (Nat × Nat × Nat)) (limit : Nat) (c : Nat × Nat × Nat) :
    Decidable (GivesBack shown limit c) := inferInstanceAs (Decidable (_ ∧ _))

theorem head_givesBack : ∀ c ∈ (copies getListViewHead).tail,
    GivesBack (copies (mapBox.utilSetListViewData markedRecord)) 998 c := by decide

theorem tail_givesBack : ∀ c ∈ copies getListViewTail,
    GivesBack (copies (mapBox.utilSetListViewData markedRecord)) 998 c := by decide

theorem adv_givesBack : ∀ c ∈ copies utilGetListViewDataAdv,
    GivesBack (copies utilSetListViewDataAdv) 1529 c := by decide

theorem GivesBack.written {c : Nat × Nat × Nat}
    (h : GivesBack (copies (mapBox.utilSetListViewData markedRecord)) 998 c) :
    readMem (box.view e) c.2.1 c.2.2 = readMem (box.backMem e) c.1 c.2.2 := by
  obtain ⟨hmem, hview, hrecord, hname, hssid⟩ := h
  rw [view_copy hmem hview hrecord, readMem_backMem hname hssid]

theorem GivesBack.writtenAdv {c : Nat × Nat × Nat}
    (h : GivesBack (copies utilSetListViewDataAdv) 1529 c) :
    readMem (box.view e) c.2.1 c.2.2 = readMem (box.backMem e) c.1 c.2.2 := by
  obtain ⟨hmem, -, hrecord, hname, hssid⟩ := h
  rw [view_copyAdv hmem hrecord, readMem_backMem hname hssid]

theorem dhcp_apart : ∀ x : UInt8,
    (x &&& psDhcpOn) ||| ((x &&& ~~~psDhcpOn) &&& ~~~psDhcpOn) = x := by
  refine forall_byte ?_
  decide +kernel

/-- The mode put together again from its other bits and the byte that shows `PS_DHCP_ON`. -/
theorem dhcp_flag (x : UInt8) : (x &&& ~~~psDhcpOn) |||
    (if (if (x &&& 0x80) ≠ 0 then 1 else 0 : UInt8) ≠ 0 then psDhcpOn else 0x00) = x := by
  by_cases hbit : (x &&& 0x80) = 0
  · have hoff : ∀ x : UInt8, (x &&& 0x80) = 0 → (x &&& ~~~psDhcpOn) ||| 0x00 = x := by
      refine forall_byte ?_
      decide +kernel
    simpa [hbit] using hoff x hbit
  · have hon : ∀ x : UInt8, (x &&& 0x80) ≠ 0 → (x &&& ~~~psDhcpOn) ||| psDhcpOn = x := by
      refine forall_byte ?_
      decide +kernel
    simpa [hbit] using hon x hbit

theorem not_inField_mode : ¬ InField Eeprom.boxName Eeprom.printServerMode.offset ∧
    ¬ InField Eeprom.wlESSID Eeprom.printServerMode.offset := by
  unfold InField
  decide

/-- `UtilGetListViewData` up to the SSID. -/
theorem run_head {i : Nat} (hi : ¬ InField Eeprom.wlESSID i) :
    run (box.view e) getListViewHead e.mem i = box.backMem e i := by
  have hmode : box.backMem e Eeprom.printServerMode.offset = e.mem Eeprom.printServerMode.offset :=
    backMem_rest not_inField_mode.1 not_inField_mode.2
  apply @run_target _ _ _ _ _ _ fun i ↦ InField Eeprom.boxName i ∨ InField Eeprom.wlESSID i
  · intro j hj
    exact (backMem_rest (fun h ↦ hj (Or.inl h)) (fun h ↦ hj (Or.inr h))).symm
  · apply forall_mem_of
    · intro c hc m _
      have hsplit : copies getListViewHead = (14, 8, 18) :: (copies getListViewHead).tail := rfl
      rw [hsplit] at hc
      rcases List.mem_cons.mp hc with rfl | hc
      · exact (backMem_name box e).symm
      · exact (head_givesBack c hc).written
    · -- the two assignments to `PrintServerMode`
      have hvalues : ∀ t ∈ values getListViewHead,
          t = assign Eeprom.printServerMode (fun v e ↦
            [(e Eeprom.printServerMode.offset &&& psDhcpOn) |||
              (v ListView.protocolMode.offset &&& ~~~psDhcpOn)]) ∨
          t = assign Eeprom.printServerMode (fun v e ↦
            [(e Eeprom.printServerMode.offset &&& ~~~psDhcpOn) |||
              (if v ListView.dhcpEnable.offset ≠ 0 then psDhcpOn else 0x00)]) := by
        intro t ht
        simpa [values, getListViewHead, memcpy, assign] using ht
      intro t ht m hm
      have hm' : m Eeprom.printServerMode.offset = e.mem Eeprom.printServerMode.offset := by
        rw [hm _ (not_or.mpr not_inField_mode), hmode]
      have hone : readMem (box.backMem e) Eeprom.printServerMode.offset 1 =
          [e.mem Eeprom.printServerMode.offset] := by
        rw [readMem_one, hmode]
      rcases hvalues t ht with rfl | rfl
      · change [_] = readMem (box.backMem e) Eeprom.printServerMode.offset 1
        rw [hone, hm', view_protocolMode, dhcp_apart]
      · change [_] = readMem (box.backMem e) Eeprom.printServerMode.offset 1
        rw [hone, hm', view_dhcpEnable, dhcp_flag]
  · by_cases hname : InField Eeprom.boxName i
    · exact Or.inr ⟨_, List.mem_cons_self, hname⟩
    · exact Or.inl fun h ↦ h.elim hname hi

theorem run_ssid {m : Memory} (hm : ∀ i, ¬ InField Eeprom.wlESSID i → m i = box.backMem e i) :
    run (box.view e) (getListViewSsid box) m = box.backMem e := by
  have hlen := length_ssidBack box e
  have hsize : Eeprom.wlESSID.size = 32 := rfl
  change writeMem (writeMem m Eeprom.wlESSID.offset (List.replicate 32 0x00)) Eeprom.wlESSID.offset
    (box.ssidBack e) = _
  funext i
  by_cases hi : InField Eeprom.wlESSID i
  · obtain ⟨j, rfl⟩ := Nat.exists_eq_add_of_le hi.1
    have hj : j < (box.ssidBack e).length := by
      have h := hi.2
      omega
    rw [BoxState.backMem, writeMem_add hj, writeMem_add hj]
  · rw [← hm i hi]
    unfold InField at hi
    have hzero : (List.replicate 32 (0x00 : UInt8)).length = 32 := List.length_replicate
    by_cases hlt : i < Eeprom.wlESSID.offset
    · rw [writeMem_of_lt hlt, writeMem_of_lt hlt]
    · rw [writeMem_of_ge (by omega), writeMem_of_ge (by omega)]

/-- Once the record is as it comes back, copies that give back leave it alone. -/
theorem run_rest {ts : List Assign}
    (hts : ∀ t ∈ ts, ∀ m, m = box.backMem e →
      t.written (box.view e) m = readMem (box.backMem e) t.dst t.size) :
    run (box.view e) ts (box.backMem e) = box.backMem e := by
  funext i
  apply @run_target _ _ _ _ _ _ fun _ ↦ False
  · exact fun _ _ ↦ rfl
  · intro t ht m hm
    exact hts t ht m (funext fun i ↦ hm i not_false)
  · exact Or.inl not_false

/-- The transmit mode is recoded on both ways. -/
theorem txMode_recoded : ∀ x : UInt8, x ≤ 3 →
    (if x = 1 then 1 else if x = 2 then 2 else if x = 3 then 3 else 0 : UInt8) = x := by
  refine forall_byte ?_
  decide +kernel

theorem view_wlTransMode (htx : e.mem Eeprom.wlTxMode.offset ≤ 3) :
    box.view e ListViewExt.wlTransMode.offset = e.mem Eeprom.wlTxMode.offset := by
  have hmem : assign ListViewExt.wlTransMode (fun e _ ↦
      [if e Eeprom.wlTxMode.offset = 1 then 1
        else if e Eeprom.wlTxMode.offset = 2 then 2
        else if e Eeprom.wlTxMode.offset = 3 then 3
        else 0]) ∈ utilSetListViewDataAdv := by
    repeat first | exact List.mem_cons_self | apply List.mem_cons_of_mem
  have hread := @Ordered.readMem_value _ (box.eepromMem e)
    (run (box.eepromMem e) (box.utilSetListViewData e) fun _ ↦ 0) _ _ _ 1 _ _ ordered_setAdv hmem
    (fun _ ↦ rfl) (Nat.le_refl 1) (Nat.le_refl 1)
  have hbyte := (List.cons.inj hread).1
  rw [eepromMem_eq (by decide), txMode_recoded _ htx] at hbyte
  exact hbyte

theorem run_tail : run (box.view e) getListViewTail (box.backMem e) = box.backMem e := by
  apply run_rest
  apply forall_mem_of
  · intro c hc m _
    exact (tail_givesBack c hc).written
  · intro t ht
    exact absurd ht List.not_mem_nil

theorem run_adv (htx : e.mem Eeprom.wlTxMode.offset ≤ 3) :
    run (box.view e) utilGetListViewDataAdv (box.backMem e) = box.backMem e := by
  apply run_rest
  apply forall_mem_of
  · intro c hc m _
    exact (adv_givesBack c hc).writtenAdv
  · intro t ht m _
    have hmode : box.backMem e Eeprom.wlTxMode.offset = e.mem Eeprom.wlTxMode.offset := by
      apply backMem_rest <;> (unfold InField; decide)
    rw [List.mem_singleton.mp ht]
    change [_] = readMem (box.backMem e) Eeprom.wlTxMode.offset 1
    rw [readMem_one, hmode, view_wlTransMode htx, txMode_recoded _ htx]

/-- `EEPROM_Data` after the record was given back. -/
theorem config_mem (htx : e.mem Eeprom.wlTxMode.offset ≤ 3) {i : Nat} (hi : i < 1408) :
    (box.config (box.view e) e).mem i = box.backMem e i := by
  have hrun : run (box.view e) (utilGetListViewData box ++ utilGetListViewDataAdv) e.mem =
      box.backMem e := by
    unfold utilGetListViewData
    rw [run_append, run_append, run_append, run_ssid (fun i hi ↦ run_head hi), run_tail,
      run_adv htx]
  unfold BoxState.config
  rw [EepromData.mem_ofMemory hi, hrun]

/-! ## The box name -/

theorem takeWhile_take (p : UInt8 → Bool) (l : List UInt8) (n : Nat) :
    (l.take n).takeWhile p = (l.takeWhile p).take n := by
  induction l generalizing n with
  | nil => simp
  | cons a l ih =>
      cases n with
      | zero => rfl
      | succ n =>
          rw [List.take_succ_cons, List.takeWhile_cons, List.takeWhile_cons]
          split
          · rw [List.take_succ_cons, ih]
          · rw [List.take_nil]

/-- What was written over zeros. -/
theorem readMem_over_zero {m : Memory} {o n : Nat} {w : List UInt8} (hm : ∀ i, o ≤ i → m i = 0) :
    readMem (writeMem m o w) o n = w.take n ++ List.replicate (n - w.length) 0 := by
  apply List.ext_getElem
  · rw [length_readMem, List.length_append, List.length_take, List.length_replicate]
    omega
  · intro j hj _
    rw [length_readMem] at hj
    simp only [readMem, List.getElem_map, List.getElem_range]
    by_cases hlt : j < w.length
    · rw [writeMem_add hlt, List.getElem_append_left (by rw [List.length_take]; omega),
        List.getElem_take]
    · rw [writeMem_of_ge (by omega), hm _ (by omega),
        List.getElem_append_right (by rw [List.length_take]; omega), List.getElem_replicate]

theorem zeros_behind (text : List UInt8) (n : Nat) :
    (text ++ [0]).take n ++ List.replicate (n - (text.length + 1)) 0 =
      text.take n ++ List.replicate (n - text.length) 0 := by
  induction text generalizing n with
  | nil => cases n <;> simp [List.replicate_succ]
  | cons c text ih => cases n <;> simp [ih]

/-- The record shows the box name up to its first NUL, and zeros behind it. -/
theorem nameBack_eq (box : BoxState) (e : EepromData) :
    box.nameBack e = (box.boxNameText e).take 18 ++
      List.replicate (18 - (box.boxNameText e).length) 0 := by
  have hread := @Ordered.readMem_run _ (box.eepromMem e) (fun _ ↦ 0)
    (const ListView.boxName (box.boxNameText e ++ [0])) _
    [const ListView.nodeID box.node,
      const ListView.version [box.majorVer, box.minorVer % 10 + (box.minorVer / 10) <<< 4]] 18
    (ordered_set box e) (show 18 ≤ 19 by decide)
  have hview : box.nameBack e = readMem (writeMem
      (run (box.eepromMem e) [const ListView.nodeID box.node,
        const ListView.version [box.majorVer, box.minorVer % 10 + (box.minorVer / 10) <<< 4]]
          fun _ ↦ 0) ListView.boxName.offset (box.boxNameText e ++ [0]))
      ListView.boxName.offset 18 := by
    unfold BoxState.nameBack
    rw [readMem_view (by decide)]
    exact hread
  have hzero : ∀ i, ListView.boxName.offset ≤ i →
      run (box.eepromMem e) [const ListView.nodeID box.node,
        const ListView.version [box.majorVer, box.minorVer % 10 + (box.minorVer / 10) <<< 4]]
          (fun _ ↦ 0) i = 0 := by
    intro i hi
    apply run_of_ge
    intro t ht m
    rcases List.mem_cons.mp ht with rfl | ht
    · change 0 + box.node.length ≤ i
      rw [box.length_node]
      exact Nat.le_trans (by decide) hi
    · rw [List.mem_singleton.mp ht]
      exact hi
  rw [hview, readMem_over_zero hzero, List.length_append]
  exact zeros_behind _ 18

theorem cstr_nameBack (box : BoxState) (e : EepromData) :
    cstr (box.nameBack e) 0 = cstr (e.get Eeprom.boxName) 0 := by
  have hname : e.get Eeprom.boxName =
      ((e.bytes ++ box.behindEeprom).drop Eeprom.boxName.offset).take 18 := by
    have hwindow := @readMem_window _ e.mem 0 14 18 1408 (by decide)
    rw [EepromData.readMem_mem, Nat.zero_add] at hwindow
    have hlen : 18 ≤ (e.bytes.drop 14).length := by
      rw [List.length_drop, e.length_eq]
      decide
    change readMem e.mem 14 18 = ((e.bytes ++ box.behindEeprom).drop 14).take 18
    rw [← hwindow, List.drop_append_of_le_length (by rw [e.length_eq]; decide),
      List.take_append_of_le_length hlen]
  have htext : (e.get Eeprom.boxName).takeWhile (· ≠ 0) = (box.boxNameText e).take 18 := by
    rw [hname, takeWhile_take]
    rfl
  have hall : ∀ c ∈ (box.boxNameText e).take 18, (decide (c ≠ 0)) = true := by
    intro c hc
    rw [← htext] at hc
    exact @List.mem_takeWhile_imp _ (fun c ↦ decide (c ≠ 0)) _ _ hc
  change (box.nameBack e).takeWhile (· ≠ 0) = (e.get Eeprom.boxName).takeWhile (· ≠ 0)
  rw [htext, nameBack_eq, List.takeWhile_append_of_pos hall]
  cases 18 - (box.boxNameText e).length with
  | zero => exact List.append_nil _
  | succ n => exact List.append_nil _

/-! ## The SSID -/

/-- An empty SSID counts as `< ANY >`. -/
def identified (ssid : List UInt8) : List UInt8 :=
  if ssid.head? = some 0 then anyess ++ List.replicate 25 0 else ssid

/-- What `UtilGetListViewData` takes for `< ANY >`. -/
def AnySsid (ssid : List UInt8) : Prop := ssid.head? = some 0 ∨ wlanSetAnyssid ssid = true

instance (ssid : List UInt8) : Decidable (AnySsid ssid) := inferInstanceAs (Decidable (_ ∨ _))

theorem view_ssid (h : e.mem Eeprom.wlESSID.offset ≠ 0) :
    readMem (box.view e) ListView.wlESSID.offset 32 = e.get Eeprom.wlESSID := by
  have hmem : assign ListView.wlESSID (fun e _ ↦
      if e Eeprom.wlESSID.offset = 0 then anyess ++ [0]
      else readMem e Eeprom.wlESSID.offset 32) ∈ box.utilSetListViewData e := by
    repeat first | exact List.mem_cons_self | apply List.mem_cons_of_mem
  have hread := view_value (n := 32) (w := e.get Eeprom.wlESSID) hmem ?_ (by decide)
    (Nat.le_refl 32) (Nat.le_of_eq length_readMem.symm)
  · rw [hread]
    exact List.take_of_length_le (Nat.le_of_eq length_readMem)
  · intro m
    rw [eepromMem_eq (by decide), if_neg h, readMem_eepromMem (by decide)]
    rfl

theorem view_any (h : e.mem Eeprom.wlESSID.offset = 0) :
    readMem (box.view e) ListView.wlESSID.offset 8 = anyess ++ [0] := by
  have hmem : assign ListView.wlESSID (fun e _ ↦
      if e Eeprom.wlESSID.offset = 0 then anyess ++ [0]
      else readMem e Eeprom.wlESSID.offset 32) ∈ box.utilSetListViewData e := by
    repeat first | exact List.mem_cons_self | apply List.mem_cons_of_mem
  have hread := view_value (n := 8) (w := anyess ++ [0]) hmem ?_ (by decide) (by decide)
    (by decide)
  · exact hread
  · intro m
    rw [eepromMem_eq (by decide), if_pos h]

theorem ssidBack_eq (box : BoxState) (e : EepromData) : box.ssidBack e =
    if AnySsid (e.get Eeprom.wlESSID) then box.anyess32 else e.get Eeprom.wlESSID := by
  unfold BoxState.ssidBack
  by_cases hempty : e.mem Eeprom.wlESSID.offset = 0
  · -- the record shows `< ANY >` with its NUL
    have hsplit := @readMem_add _ (box.view e) ListView.wlESSID.offset 8 24
    rw [view_any hempty] at hsplit
    have hany : wlanSetAnyssid (readMem (box.view e) ListView.wlESSID.offset 32) = true := by
      change wlanSetAnyssid (readMem (box.view e) ListView.wlESSID.offset (8 + 24)) = true
      rw [hsplit]
      rfl
    have hssid : AnySsid (e.get Eeprom.wlESSID) := Or.inl (congrArg some hempty)
    rw [if_pos hany, if_pos hssid]
  · rw [view_ssid hempty]
    by_cases hany : wlanSetAnyssid (e.get Eeprom.wlESSID) = true
    · have hssid : AnySsid (e.get Eeprom.wlESSID) := Or.inr hany
      rw [if_pos hany, if_pos hssid]
    · have hssid : ¬ AnySsid (e.get Eeprom.wlESSID) :=
        not_or.mpr ⟨fun h ↦ hempty (Option.some.inj h), hany⟩
      rw [if_neg hany, if_neg hssid]

theorem identified_anyess32 (box : BoxState) : identified box.anyess32 = box.anyess32 :=
  if_neg (show ¬ (some (0x3C : UInt8) = some 0) by decide)

/-! ## The round trip -/

/-- `EEPROM_Data` as it was, the box name as a string. -/
structure Unchanged (e e' : EepromData) : Prop where
  name : cstr (e'.get Eeprom.boxName) 0 = cstr (e.get Eeprom.boxName) 0
  ssid : identified (e'.get Eeprom.wlESSID) = identified (e.get Eeprom.wlESSID)
  rest : ∀ i < 1408, ¬ InField Eeprom.boxName i → ¬ InField Eeprom.wlESSID i → e'.mem i = e.mem i

theorem config_ssid (htx : e.byte Eeprom.wlTxMode ≤ 3) :
    (box.config (box.view e) e).get Eeprom.wlESSID =
      if AnySsid (e.get Eeprom.wlESSID) then box.anyess32 else e.get Eeprom.wlESSID := by
  rw [← ssidBack_eq, ← backMem_ssid]
  apply readMem_congr
  intro i _ hi
  exact config_mem htx (Nat.lt_of_lt_of_le hi (by decide))

theorem config_name (htx : e.byte Eeprom.wlTxMode ≤ 3) :
    (box.config (box.view e) e).get Eeprom.boxName = box.nameBack e := by
  rw [← backMem_name]
  apply readMem_congr
  intro i _ hi
  exact config_mem htx (Nat.lt_of_lt_of_le hi (by decide))

theorem list_view_round_trip_iff (box : BoxState) (e : EepromData)
    (htx : e.byte Eeprom.wlTxMode ≤ 3) :
    Unchanged e (box.config (box.view e) e) ↔
      (AnySsid (e.get Eeprom.wlESSID) → identified (e.get Eeprom.wlESSID) = box.anyess32) := by
  constructor
  · rintro ⟨-, h, -⟩ hany
    rw [config_ssid htx, if_pos hany, identified_anyess32] at h
    exact h.symm
  · intro h
    refine ⟨?_, ?_, ?_⟩
    · rw [config_name htx]
      exact cstr_nameBack box e
    · rw [config_ssid htx]
      by_cases hany : AnySsid (e.get Eeprom.wlESSID)
      · rw [if_pos hany, identified_anyess32, h hany]
      · rw [if_neg hany]
    · intro i hi hin hissid
      rw [config_mem htx hi, backMem_rest hin hissid]

/-- A marked record whose box name, password and SSID fill their fields. -/
def fullRecord : EepromData :=
  ((markedRecord.put Eeprom.boxName (List.replicate 18 0x42)).put Eeprom.password
    (List.replicate 8 0x50)).put Eeprom.wlESSID (List.replicate 32 0x53)

theorem list_view_round_trip_full : Unchanged fullRecord (mapBox.config (mapBox.view fullRecord)
    fullRecord) :=
  (list_view_round_trip_iff mapBox fullRecord (by decide +kernel)).mpr fun h ↦
    absurd h (by decide +kernel)

/-- An empty SSID comes back with `recbuffer_ipx` behind `< ANY >`. -/
theorem list_view_round_trip_broken : markedRecord.byte Eeprom.wlTxMode ≤ 3 ∧
    ((mapBox.config (mapBox.view markedRecord) markedRecord).get Eeprom.wlESSID).take 12 =
      anyess ++ [0x00, 0x68, 0xA8, 0x5B, 0x00] ∧
    ¬ Unchanged markedRecord (mapBox.config (mapBox.view markedRecord) markedRecord) := by
  have htx : markedRecord.byte Eeprom.wlTxMode ≤ 3 := by decide +kernel
  have hany : AnySsid (markedRecord.get Eeprom.wlESSID) := by decide +kernel
  refine ⟨htx, ?_, ?_⟩
  · rw [config_ssid htx, if_pos hany]
    decide
  · rintro ⟨-, h, -⟩
    rw [config_ssid htx, if_pos hany] at h
    exact absurd h (by decide +kernel)

end PrintServer.Nt
