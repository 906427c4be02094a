import PrintServer.Flash.Store

/-!
# What is programmed for a configuration

`ApImportCFG` of rwflash.c checks the record of its caller, but programs what stands on the stack
from its own pointer on.  For an image with a default configuration, `ApUpgradeFirmware` programs
`EEPROM_Data` and not the bytes of the image.
-/

namespace PrintServer.Flash

open Lib

variable {σ : Type}

/-! ## ApImportCFG -/

/-- The record at an address. -/
def recordAt (ram : Memory) (p : UInt32) : EepromData := .ofMemory fun i ↦ ram (p.toNat + i)

/-- `&pDefData`: the pointer, and 1404 bytes of the stack behind it. -/
def atPointer (pDefData : UInt32) (stack : Memory) : List UInt8 :=
  le32 pDefData ++ readMem stack 0 1404

def vProgramCFG (chip : Chip σ) (pDefData : UInt32) (stack : Memory) (s : σ) : Done σ :=
  (vEraseFlash chip eepromAddrOff numOfEepSector s).andThen
    (vProgramFlash chip eepromAddrOff (atPointer pDefData stack))

def psCheckCFGIntegrity (model : UInt8) (hdr1 : EepromData) : Nat :=
  if hdr1.get Eeprom.zotMark ≠ zot then maxFlashOff
  else if hdr1.byte Eeprom.model ≠ model then maxFlashOff
  else if ¬ hdr1.crcOk then maxFlashOff
  else eepromAddrOff

/-- `ApImportCFG` of the record at `pData`, with `stack` behind the parameter of `vProgramCFG`. -/
def apImportCFG (chip : Chip σ) (model : UInt8) (ram : Memory) (pData : UInt32) (stack : Memory)
    (s : σ) : Bool × Done σ :=
  if pData = 0 then (false, ⟨0, s, []⟩)
  else
    let offset := psCheckCFGIntegrity model (recordAt ram pData)
    if offset = maxFlashOff then (false, ⟨0, s, []⟩)
    else
      (true, if offset = eepromAddrOff then vProgramCFG chip pData stack s else ⟨0, s, []⟩)

/-- If the record was imported, `ReadFromFlash` finds it. -/
def Imported (chip : Chip σ) (model : UInt8) (ram : Memory) (pData : UInt32) (stack : Memory)
    (s : σ) : Prop :=
  let r := apImportCFG chip model ram pData stack s
  r.1 = true → readFromFlash (chip.read r.2.state) = (0, recordAt ram pData)

variable {chip : Chip σ} {model : UInt8} {ram stack : Memory} {pData : UInt32} {s : σ}

theorem length_atPointer : (atPointer pData stack).length = 1408 := by
  unfold atPointer
  rw [List.length_append, length_readMem]
  rfl

theorem psCheckCFGIntegrity_ne_iff {e : EepromData} :
    psCheckCFGIntegrity model e ≠ maxFlashOff ↔
      e.get Eeprom.zotMark = zot ∧ e.byte Eeprom.model = model ∧ e.crcOk := by
  have hoff : eepromAddrOff ≠ maxFlashOff := by decide
  unfold psCheckCFGIntegrity
  by_cases hmark : e.get Eeprom.zotMark = zot
  · by_cases hmodel : e.byte Eeprom.model = model
    · by_cases hcrc : e.crcOk <;> simp [hmark, hmodel, hcrc, hoff]
    · simp [hmark, hmodel]
  · simp [hmark]

theorem apImportCFG_accepted (hp : pData ≠ 0)
    (hcheck : psCheckCFGIntegrity model (recordAt ram pData) ≠ maxFlashOff) :
    apImportCFG chip model ram pData stack s = (true, vProgramCFG chip pData stack s) := by
  have hoff : psCheckCFGIntegrity model (recordAt ram pData) = eepromAddrOff := by
    obtain ⟨hmark, hmodel, hcrc⟩ := psCheckCFGIntegrity_ne_iff.mp hcheck
    unfold psCheckCFGIntegrity
    simp [hmark, hmodel, hcrc]
  unfold apImportCFG
  simp only [if_neg hp, if_neg hcheck, if_pos hoff]

/-- The flash then holds what stands at the pointer. -/
theorem romData_vProgramCFG (hs : chip.Stores) (ht : chip.Takes) :
    (romData eepromAddrOff (chip.read (vProgramCFG chip pData stack s).state)).bytes =
      atPointer pData stack := by
  have hlen := @length_atPointer stack pData
  have herase := ht.vEraseFlash eepromAddrOff numOfEepSector s
  have herased : ∀ i, eepromAddrOff ≤ i → i < eepromAddrOff + (atPointer pData stack).length →
      chip.read (vEraseFlash chip eepromAddrOff numOfEepSector s).state i = 0xFF := by
    intro i hlo hhi
    rw [hlen] at hhi
    rw [hs.vEraseFlash (by decide) herase, if_pos ⟨hlo, Nat.lt_trans hhi (by decide)⟩]
  have hread := hs.vProgramFlash (by decide) (by rw [hlen]; decide) herased
    (ht.vProgramFlash eepromAddrOff (atPointer pData stack) _)
  unfold vProgramCFG
  rw [Done.andThen_ok herase, Done.seq_state, hread, bytes_romData,
    readFlash_eq (show (1408 : UInt32).toNat = 1408 from rfl) (by decide) (by decide), ← hlen]
  exact readMem_writeMem

/-- An import keeps what it promises if and only if the record itself stands on the stack where its
pointer is. -/
theorem imported_iff (hs : chip.Stores) (ht : chip.Takes) :
    Imported chip model ram pData stack s ↔
      (pData ≠ 0 → psCheckCFGIntegrity model (recordAt ram pData) ≠ maxFlashOff →
        atPointer pData stack = (recordAt ram pData).bytes) := by
  have hrom := @romData_vProgramCFG σ chip stack pData s hs ht
  unfold Imported
  by_cases hp : pData = 0
  · have hnull : apImportCFG chip model ram pData stack s = (false, ⟨0, s, []⟩) := if_pos hp
    rw [hnull]
    exact iff_of_true nofun fun hne ↦ absurd hp hne
  · by_cases hcheck : psCheckCFGIntegrity model (recordAt ram pData) = maxFlashOff
    · have hrefused : apImportCFG chip model ram pData stack s = (false, ⟨0, s, []⟩) := by
        unfold apImportCFG
        rw [if_neg hp]
        exact if_pos hcheck
      rw [hrefused]
      exact iff_of_true nofun fun _ hne ↦ absurd hcheck hne
    · rw [apImportCFG_accepted hp hcheck]
      constructor
      · intro h _ _
        have hread := congrArg Prod.snd (h rfl)
        unfold readFromFlash at hread
        rw [readFromArea_snd] at hread
        rw [← hrom, hread]
      · intro h
        have hsame := EepromData.ext (hrom.trans (h hp hcheck))
        obtain ⟨hmark, -, hcrc⟩ := psCheckCFGIntegrity_ne_iff.mp hcheck
        dsimp only
        intro _
        unfold readFromFlash
        apply Prod.ext
        · apply readFromArea_eq_zero_iff.mpr
          rw [hsame]
          exact ⟨hmark, hcrc⟩
        · rw [readFromArea_snd, hsame]

/-! ## An image with a default configuration -/

/-- The bytes of an image behind its header. -/
def payload (ram : Memory) (p : Nat) : List UInt8 :=
  readMem ram (p + sizeofHeader) (header ram p).fileLen.toNat

/-- The two sectors of the default area start with these bytes. -/
def DefaultHolds (flash : Memory) (bs : List UInt8) : Prop :=
  bs.length ≤ 8192 ∧ readMem flash defaultAddrOff bs.length = bs

/-- The default area after `vProgramDef`. -/
def defaultArea (eeprom : EepromData) : List UInt8 :=
  eeprom.bytes ++ List.replicate 6784 0xFF

theorem vProgramDef_area (hs : chip.Stores) (ht : chip.Takes) (eeprom : EepromData) (b : Box σ) :
    readMem (chip.read (vProgramDef chip eeprom b).state.flash) defaultAddrOff 8192 =
      defaultArea eeprom := by
  have hlen := eeprom.length_eq
  have herase := ht.vEraseFlash defaultAddrOff numOfDefaultSector b.flash
  have herase' := ht.vEraseFlash eepromAddrOff numOfEepSector
    (vEraseFlash chip defaultAddrOff numOfDefaultSector b.flash).state
  -- both areas are erased
  have hblank : ∀ i, defaultAddrOff ≤ i → i < defaultAddrOff + 8192 →
      chip.read (vEraseFlash chip eepromAddrOff numOfEepSector
        (vEraseFlash chip defaultAddrOff numOfDefaultSector b.flash).state).state i = 0xFF := by
    intro i hlo hhi
    rw [hs.vEraseFlash (by decide) herase']
    split
    · rfl
    · rw [hs.vEraseFlash (by decide) herase]
      exact if_pos ⟨hlo, hhi⟩
  have hfit : defaultAddrOff + eeprom.bytes.length ≤ 2 ^ 24 := by
    have hvalue : defaultAddrOff = 0xFC000 := rfl
    omega
  have hread := hs.vProgramFlash (by decide) hfit
    (fun i hlo hhi ↦ hblank i hlo (by omega)) (ht.vProgramFlash defaultAddrOff eeprom.bytes _)
  have hstate : (vProgramDef chip eeprom b).state.flash =
      (vProgramFlash chip defaultAddrOff eeprom.bytes (vEraseFlash chip eepromAddrOff numOfEepSector
        (vEraseFlash chip defaultAddrOff numOfDefaultSector b.flash).state).state).state := by
    change ((vEraseFlash chip eepromAddrOff numOfEepSector
      (vEraseFlash chip defaultAddrOff numOfDefaultSector b.flash).state).andThen _).state = _
    rw [Done.andThen_ok herase']
    rfl
  have hsplit := @readMem_add _ (chip.read (vProgramDef chip eeprom b).state.flash) defaultAddrOff
    eeprom.bytes.length 6784
  rw [hlen] at hsplit
  apply hsplit.trans
  unfold defaultArea
  refine congrArg₂ (· ++ ·) ?_ ?_
  · rw [hstate, hread, ← hlen]
    exact readMem_writeMem
  · apply List.eq_replicate_iff.mpr
    refine ⟨length_readMem, fun x hx ↦ ?_⟩
    obtain ⟨j, hj, rfl⟩ := List.mem_map.mp hx
    rw [List.mem_range] at hj
    rw [hstate, hread, writeMem_of_ge (by omega)]
    exact hblank _ (by omega) (by omega)

theorem readMem_take {m : Memory} {o n k : Nat} (h : n ≤ k) :
    readMem m o n = (readMem m o k).take n := by
  have hsplit := @readMem_add _ m o n (k - n)
  rw [Nat.add_sub_cancel' h] at hsplit
  rw [hsplit, List.take_left' length_readMem]

theorem defaultHolds_iff {flash : Memory} {eeprom : EepromData} {bs : List UInt8}
    (h : readMem flash defaultAddrOff 8192 = defaultArea eeprom) :
    DefaultHolds flash bs ↔ bs <+: defaultArea eeprom := by
  have hlen : (defaultArea eeprom).length = 8192 := by rw [← h, length_readMem]
  unfold DefaultHolds
  constructor
  · rintro ⟨hshort, hread⟩
    rw [readMem_take hshort, h] at hread
    exact List.prefix_iff_eq_take.mpr hread.symm
  · intro hpre
    have hshort := hpre.length_le
    rw [hlen] at hshort
    refine ⟨hshort, ?_⟩
    rw [readMem_take hshort, h]
    exact (List.prefix_iff_eq_take.mp hpre).symm

/-- A configuration that was imported is there if and only if it stood at the pointer itself, and
the payload of an image if and only if it is what `EEPROM_Data` holds, with 0xFF behind. -/
theorem config_import_iff (chip : Chip σ) (hs : chip.Stores) (ht : chip.Takes) (model : UInt8) :
    (∀ (ram : Memory) (pData : UInt32) (stack : Memory) (s : σ),
      Imported chip model ram pData stack s ↔
        (pData ≠ 0 → psCheckCFGIntegrity model (recordAt ram pData) ≠ maxFlashOff →
          atPointer pData stack = (recordAt ram pData).bytes)) ∧
    ∀ (eeprom : EepromData) (fuel p : Nat) (b b' : Box σ) (rc : Bool) (visits : List (Visit σ)),
      apUpgradeFirmware chip model eeprom fuel p b = some (rc, b', visits) → ∀ v ∈ visits,
        (header v.before.ram v.pos).bintype = eepromMark →
          (DefaultHolds (chip.read v.done.state.flash) (payload v.before.ram v.pos) ↔
            payload v.before.ram v.pos <+: defaultArea eeprom) := by
  refine ⟨fun ram pData stack s ↦ imported_iff hs ht, ?_⟩
  intro eeprom fuel p b b' rc visits hrun v hv htype
  obtain ⟨hcheck, -, hdone⟩ := apUpgradeFirmware_visits hrun v hv
  have hoffset : psCheckImageIntegrity model v.before.ram v.pos = defaultAddrOff := by
    rw [psCheckImageIntegrity_eq hcheck, htype]
    rfl
  have hprogram : v.done = vProgramDef chip eeprom v.before := by
    rw [hdone, hoffset]
    rfl
  rw [hprogram]
  exact defaultHolds_iff (vProgramDef_area hs ht eeprom v.before)

/-! ## A record in memory -/

/-- A valid record of model 50. -/
def model50Record : EepromData :=
  sealRecord (.ofMemory fun i ↦ if i = 13 then 50 else zot.getD i 0)

theorem model50Record_mark : model50Record.get Eeprom.zotMark = zot := by
  unfold model50Record
  rw [(sealRecord_rewritten _).get (Or.inl (by decide)), EepromData.get_ofMemory (by decide)]
  decide

theorem model50Record_accepted : psCheckCFGIntegrity 50 model50Record ≠ maxFlashOff := by
  apply psCheckCFGIntegrity_ne_iff.mpr
  refine ⟨model50Record_mark, ?_, sealRecord_crcOk _⟩
  show model50Record.mem 13 = 50
  unfold model50Record
  rw [(sealRecord_rewritten _).other 13 (by decide) (by decide) (by decide),
    EepromData.mem_ofMemory (by decide)]
  rfl

theorem recordAt_writeMem (m : Memory) (p : UInt32) (e : EepromData) :
    recordAt (writeMem m p.toNat e.bytes) p = e := by
  apply EepromData.ext_mem
  intro i hi
  unfold recordAt
  rw [EepromData.mem_ofMemory hi]
  exact writeMem_bytes hi

/-- A record at the address that its own mark spells, with a copy of itself on the stack. -/
theorem imported_at_mark : Imported pageChip 50
    (writeMem (fun _ ↦ 0) (0x00544F5A : UInt32).toNat model50Record.bytes) 0x00544F5A
    (fun i ↦ model50Record.mem (4 + i)) fun _ ↦ 0 := by
  apply ((config_import_iff pageChip pageChip_stores pageChip_takes 50).1 _ _ _ _).mpr
  intro _ _
  have hsplit := @readMem_add _ model50Record.mem 0 4 1404
  rw [recordAt_writeMem, ← EepromData.readMem_mem]
  apply Eq.trans _ hsplit.symm
  unfold atPointer
  refine congrArg₂ (· ++ ·) ?_ ?_
  · exact model50Record_mark.symm
  · apply readMem_shift
    intro i _
    rw [Nat.zero_add, Nat.zero_add]

/-- A valid record at another address is accepted and lost. -/
theorem imported_pointer : ¬ Imported pageChip 50
    (writeMem (fun _ ↦ 0) (0x00700000 : UInt32).toNat model50Record.bytes) 0x00700000
    (fun _ ↦ 0) fun _ ↦ 0 := by
  rw [imported_iff pageChip_stores pageChip_takes]
  intro h
  rw [recordAt_writeMem] at h
  have hbytes := h (by decide) model50Record_accepted
  -- the record starts with its mark, and the stack with the pointer
  have hfirst := congrArg (List.take 4) hbytes
  rw [← EepromData.readMem_mem, ← readMem_take (by decide)] at hfirst
  have hmark : readMem model50Record.mem 0 4 = zot := model50Record_mark
  rw [hmark] at hfirst
  revert hfirst
  decide

end PrintServer.Flash
