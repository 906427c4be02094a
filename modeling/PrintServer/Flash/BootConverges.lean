import PrintServer.Flash.Boot

/-!
# One boot settles the configuration

After `EEPROMInit` both areas are valid.  The next boot leaves them alone only if this one found
records of the right model, and an infrastructure network: any other value of `WLMode` is written
back at every power-up, the one of the factory included.
-/

namespace PrintServer.Flash

open Lib

variable {σ : Type}

/-! ## The records in force -/

def validOr (area : Int × EepromData) (e : EepromData) : EepromData :=
  if area.1 = 0 then area.2 else e

/-- The record of the default area or of the factory, unless QC0 has another node address. -/
def defaultInForce (flash : Memory) : EepromData :=
  let own := validOr (readFromDefault flash) readFromFactory
  let qc0 := readFromQC0_Default flash
  if qc0.1 = 0 ∧ qc0.2.get Eeprom.ethernetID ≠ own.get Eeprom.ethernetID then qc0.2 else own

def currentInForce (flash : Memory) : EepromData :=
  validOr (readFromFlash flash) (defaultInForce flash)

/-- The records are of this model, and the wireless mode is infrastructure. -/
structure Regular (model : UInt8) (flash : Memory) : Prop where
  defaultModel : (defaultInForce flash).byte Eeprom.model = model
  defaultPort : (defaultInForce flash).byte Eeprom.numOfPort = numOfPrnPort
  model : (currentInForce flash).byte Eeprom.model = model
  port : (currentInForce flash).byte Eeprom.numOfPort = numOfPrnPort
  wlMode : (currentInForce flash).byte Eeprom.wlMode = 0

/-! ## Convergence -/

def Settled (model : UInt8) (e : EepromData) : Prop :=
  e.get Eeprom.zotMark = zot ∧ e.crcOk ∧ e.byte Eeprom.model = model ∧
    e.byte Eeprom.numOfPort = numOfPrnPort

/-- No boot writes to the flash. -/
def Quiet (chip : Chip σ) (model : UInt8) (s : σ) : Prop :=
  ∀ rand, ∃ r, eepromInit chip model rand s = some r ∧ r.log = []

/-- After one boot both records in memory are settled, and the next one writes nothing. -/
def Converges (chip : Chip σ) (model : UInt8) (rand : UInt8 × UInt8 × UInt8) (s : σ) : Prop :=
  ∃ r, eepromInit chip model rand s = some r ∧ Settled model r.eeprom ∧ Settled model r.default ∧
    Quiet chip model r.state

/-- The same of the records in the two areas. -/
def AreasConverge (chip : Chip σ) (model : UInt8) (rand : UInt8 × UInt8 × UInt8) (s : σ) : Prop :=
  ∃ r, eepromInit chip model rand s = some r ∧
    (∃ e, readFromFlash (chip.read r.state) = (0, e) ∧ Settled model e) ∧
    (∃ d, readFromDefault (chip.read r.state) = (0, d) ∧ Settled model d) ∧
    Quiet chip model r.state

variable {chip : Chip σ} {model : UInt8} {e e' d : EepromData} {flash : Memory} {s : σ}
variable {r : Recovery} {f : Field} {addr n : Nat}

/-! ## What stays of a record -/

/-- The fields that a boot looks at, but for the version. -/
def bootFields : List Field :=
  [Eeprom.zotMark, Eeprom.ethernetID, Eeprom.model, Eeprom.numOfPort, Eeprom.timeOutValue,
    Eeprom.wlMode]

def Kept (e e' : EepromData) : Prop := ∀ f ∈ bootFields, e'.get f = e.get f

theorem Kept.refl (e : EepromData) : Kept e e := fun _ _ ↦ rfl

theorem Kept.trans (h : Kept d e) (h' : Kept e e') : Kept d e' :=
  fun f hf ↦ (h' f hf).trans (h f hf)

theorem byte_eq_get (hf : 0 < f.size) : e.byte f = (e.get f).getD 0 0 := by
  unfold EepromData.byte EepromData.get
  rw [List.getD_eq_getElem?_getD, getElem?_readMem hf, Option.getD_some, Nat.add_zero]

theorem Kept.byte (h : Kept e e') (hf : f ∈ bootFields) (hsize : 0 < f.size) :
    e'.byte f = e.byte f := by
  rw [byte_eq_get hsize, byte_eq_get hsize, h f hf]

theorem Rewritten.kept (h : Rewritten e e') : Kept e e' := by
  have hfields : ∀ f ∈ bootFields,
      f.offset + f.size ≤ 851 ∨ 855 ≤ f.offset ∧ f.offset + f.size ≤ 1404 := by decide
  exact fun f hf ↦ h.get (hfields f hf)

theorem kept_putByte {b : UInt8}
    (h : ∀ g ∈ bootFields, g.offset + g.size ≤ f.offset ∨ f.offset + 1 ≤ g.offset) :
    Kept e (e.putByte f b) := by
  have hend : ∀ g ∈ bootFields, g.offset + g.size ≤ 1408 := by decide
  exact fun g hg ↦ EepromData.get_put_of_disjoint (hend g hg) (h g hg)

theorem toVersion11_kept (e : EepromData) : Kept e (toVersion11 e) :=
  (kept_putByte (by decide)).trans (kept_putByte (by decide))

theorem toVersion11_version (e : EepromData) :
    (toVersion11 e).byte Eeprom.eepromVersion ≠ 0x0A := by
  unfold toVersion11
  rw [EepromData.putByte, EepromData.byte_put_of_disjoint (by decide) (Or.inl (by decide)),
    EepromData.byte_putByte (by decide)]
  decide

theorem factory_byte (h : f.offset < 1408) : readFromFactory.byte f = factoryMemory f.offset :=
  EepromData.mem_ofMemory h

theorem factory_mark : readFromFactory.get Eeprom.zotMark = zot := by
  unfold readFromFactory
  rw [EepromData.get_ofMemory (by decide)]
  decide

theorem factory_wlMode : readFromFactory.byte Eeprom.wlMode = 2 := by
  rw [factory_byte (by decide)]
  decide

theorem factory_version : readFromFactory.byte Eeprom.eepromVersion ≠ 0x0A := by
  rw [factory_byte (by decide)]
  decide

/-! ## What a boot finds -/

theorem readTwice_eq (readFrom : Memory → Int × EepromData) :
    readTwice readFrom flash = readFrom flash := by
  unfold readTwice
  by_cases h : (readFrom flash).1 ≠ 0
  · exact if_pos h
  · exact if_neg h

theorem recoverDefault_fst : (recoverDefault flash).1 = defaultInForce flash := by
  unfold recoverDefault defaultInForce validOr
  simp only [readTwice_eq]
  by_cases hdefault : (readFromDefault flash).1 = 0
  · simp only [hdefault, ne_eq, not_true_eq_false, if_false, if_true]
    split <;> rfl
  · simp only [hdefault, ne_eq, not_false_eq_true, if_true, if_false]
    split <;> rfl

/-- The default record is not written only if it is that of its area and QC0 agrees with it. -/
theorem recoverDefault_snd : (recoverDefault flash).2 = false ↔
    (readFromDefault flash).1 = 0 ∧ ((readFromQC0_Default flash).1 = 0 →
      (readFromQC0_Default flash).2.get Eeprom.ethernetID =
        (readFromDefault flash).2.get Eeprom.ethernetID) := by
  unfold recoverDefault
  simp only [readTwice_eq]
  by_cases hdefault : (readFromDefault flash).1 = 0
  · simp only [hdefault, ne_eq, not_true_eq_false, if_false, true_and]
    split
    · rename_i h
      exact iff_of_false Bool.noConfusion fun hall ↦ h.2 (hall h.1)
    · rename_i h
      exact iff_of_true rfl fun hqc0 ↦ not_not.mp fun hne ↦ h ⟨hqc0, hne⟩
  · simp only [hdefault, ne_eq, not_false_eq_true, if_true, false_and, iff_false]
    split <;> exact Bool.noConfusion

theorem recover_eq : recover flash = ⟨currentInForce flash, defaultInForce flash,
    decide ((readFromFlash flash).1 ≠ 0), (recoverDefault flash).2⟩ := by
  unfold recover currentInForce validOr
  simp only [readTwice_eq]
  rw [← recoverDefault_fst]
  by_cases hflash : (readFromFlash flash).1 = 0 <;> simp [hflash]

theorem readFromArea_ok (h : (readFromArea addr flash).1 = 0) :
    readFromArea addr flash = (0, (readFromArea addr flash).2) := Prod.ext h rfl

theorem readFromArea_mark (h : (readFromArea addr flash).1 = 0) :
    (readFromArea addr flash).2.get Eeprom.zotMark = zot := by
  rw [readFromArea_snd]
  exact (readFromArea_eq_zero_iff.mp h).1

theorem defaultInForce_mark (flash : Memory) : (defaultInForce flash).get Eeprom.zotMark = zot := by
  have hown : (validOr (readFromDefault flash) readFromFactory).get Eeprom.zotMark = zot := by
    unfold validOr
    split
    · exact readFromArea_mark ‹_›
    · exact factory_mark
  unfold defaultInForce
  simp only
  split
  · rename_i h
    exact readFromArea_mark h.1
  · exact hown

theorem currentInForce_mark (flash : Memory) : (currentInForce flash).get Eeprom.zotMark = zot := by
  unfold currentInForce validOr
  split
  · exact readFromArea_mark ‹_›
  · exact defaultInForce_mark flash

/-- A valid QC0 record gives the default record its node address. -/
theorem defaultInForce_ethernetID (h : (readFromQC0_Default flash).1 = 0) :
    (readFromQC0_Default flash).2.get Eeprom.ethernetID =
      (defaultInForce flash).get Eeprom.ethernetID := by
  unfold defaultInForce
  simp only
  split
  · rfl
  · rename_i hsame
    exact not_not.mp fun hne ↦ hsame ⟨h, hne⟩

theorem recover_eeprom : (recover flash).eeprom = currentInForce flash := by rw [recover_eq]

theorem recover_default : (recover flash).default = defaultInForce flash := by rw [recover_eq]

theorem recover_needDEFAULT : (recover flash).needWriteDEFAULT = (recoverDefault flash).2 := by
  rw [recover_eq]

theorem recover_needEEPROM :
    (recover flash).needWriteEEPROM = false ↔ (readFromFlash flash).1 = 0 := by
  rw [recover_eq]
  dsimp only
  rw [decide_eq_false_iff_not, not_not]

/-! ## What a boot makes of it -/

/-- The boot keeps the records. -/
def Keeps (model : UInt8) (flash : Memory) : Prop :=
  (defaultInForce flash).byte Eeprom.numOfPort = numOfPrnPort ∧
    (defaultInForce flash).byte Eeprom.model = model

theorem migrate_kept (r : Recovery) :
    Kept r.eeprom (migrate r).eeprom ∧ Kept r.default (migrate r).default := by
  unfold migrate
  split
  · exact ⟨toVersion11_kept _, toVersion11_kept _⟩
  · exact ⟨Kept.refl _, Kept.refl _⟩

theorem migrate_version (r : Recovery) :
    (migrate r).eeprom.byte Eeprom.eepromVersion ≠ 0x0A ∧
      (migrate r).default.byte Eeprom.eepromVersion ≠ 0x0A := by
  unfold migrate
  split
  · exact ⟨toVersion11_version _, toVersion11_version _⟩
  · rename_i h
    exact not_or.mp h

theorem resetWPS_kept (r : Recovery) :
    Kept r.eeprom (resetWPS r).eeprom ∧ (resetWPS r).default = r.default ∧
      (resetWPS r).needWriteDEFAULT = r.needWriteDEFAULT := by
  unfold resetWPS
  split
  · exact ⟨kept_putByte (by decide), rfl, rfl⟩
  · exact ⟨Kept.refl _, rfl, rfl⟩

theorem resetWPS_version (r : Recovery) :
    (resetWPS r).eeprom.byte Eeprom.eepromVersion = r.eeprom.byte Eeprom.eepromVersion := by
  unfold resetWPS
  split
  · exact EepromData.byte_put_of_disjoint (by decide) (Or.inl (by decide))
  · rfl

/-- The records before the reset of another model. -/
theorem migrated_kept (flash : Memory) :
    Kept (currentInForce flash) (resetWPS (migrate (recover flash))).eeprom ∧
      Kept (defaultInForce flash) (resetWPS (migrate (recover flash))).default := by
  have hmigrate := migrate_kept (recover flash)
  have hwps := resetWPS_kept (migrate (recover flash))
  rw [recover_eeprom, recover_default] at hmigrate
  rw [hwps.2.1]
  exact ⟨hmigrate.1.trans hwps.1, hmigrate.2⟩

theorem keeps_iff : Keeps model flash ↔
    ¬ ((resetWPS (migrate (recover flash))).default.byte Eeprom.numOfPort ≠ numOfPrnPort ∨
      (resetWPS (migrate (recover flash))).default.byte Eeprom.model ≠ model) := by
  have hkept := (migrated_kept flash).2
  rw [hkept.byte (f := Eeprom.numOfPort) (by decide) (by decide),
    hkept.byte (f := Eeprom.model) (by decide) (by decide), not_or, not_not, not_not, Keeps]

theorem settle_keeps (h : Keeps model flash) :
    settle model flash = resetWPS (migrate (recover flash)) := by
  rw [settle, resetModel, if_neg (keeps_iff.mp h)]

theorem settle_resets (h : ¬ Keeps model flash) :
    settle model flash = ⟨readFromFactory, readFromFactory, true, true⟩ := by
  rw [settle, resetModel, if_pos (not_not.mp fun hno ↦ h (keeps_iff.mpr hno))]

theorem settle_mark : (settle model flash).eeprom.get Eeprom.zotMark = zot ∧
    (settle model flash).default.get Eeprom.zotMark = zot := by
  by_cases h : Keeps model flash
  · have hkept := migrated_kept flash
    rw [settle_keeps h, hkept.1 Eeprom.zotMark (by decide), hkept.2 Eeprom.zotMark (by decide)]
    exact ⟨currentInForce_mark flash, defaultInForce_mark flash⟩
  · rw [settle_resets h]
    exact ⟨factory_mark, factory_mark⟩

theorem settle_version : (settle model flash).eeprom.byte Eeprom.eepromVersion ≠ 0x0A ∧
    (settle model flash).default.byte Eeprom.eepromVersion ≠ 0x0A := by
  by_cases h : Keeps model flash
  · have hversion := migrate_version (recover flash)
    rw [settle_keeps h, resetWPS_version, (resetWPS_kept _).2.1]
    exact hversion
  · rw [settle_resets h]
    exact ⟨factory_version, factory_version⟩

theorem migrate_flags (r : Recovery) :
    (migrate r).needWriteDEFAULT = false ∧ (migrate r).needWriteEEPROM = false ↔
      r.needWriteDEFAULT = false ∧ r.needWriteEEPROM = false ∧
        r.eeprom.byte Eeprom.eepromVersion ≠ 0x0A ∧
        r.default.byte Eeprom.eepromVersion ≠ 0x0A := by
  unfold migrate
  split
  · rename_i h
    exact iff_of_false (fun hq ↦ Bool.noConfusion hq.1) fun hq ↦ h.elim hq.2.2.1 hq.2.2.2
  · rename_i h
    obtain ⟨heeprom, hdefault⟩ := not_or.mp h
    exact ⟨fun hq ↦ ⟨hq.1, hq.2, heeprom, hdefault⟩, fun hq ↦ ⟨hq.1, hq.2.1⟩⟩

theorem resetWPS_flag (r : Recovery) : (resetWPS r).needWriteEEPROM = false ↔
    r.needWriteEEPROM = false ∧ r.eeprom.byte Eeprom.wlMode = 0 := by
  unfold resetWPS
  split
  · rename_i h
    refine iff_of_false Bool.noConfusion fun hq ↦ ?_
    rw [hq.2] at h
    revert h
    decide
  · rename_i h
    have hzero : r.eeprom.byte Eeprom.wlMode = 0 := by
      apply UInt8.toNat_inj.mp
      exact Nat.le_zero.mp (Nat.le_of_not_lt h)
    exact ⟨fun hq ↦ ⟨hq, hzero⟩, fun hq ↦ hq.1⟩

/-- A boot writes neither area only if it finds both valid and has nothing to put right. -/
theorem settle_quiet_iff :
    (settle model flash).needWriteDEFAULT = false ∧ (settle model flash).needWriteEEPROM = false ↔
      Keeps model flash ∧ (recoverDefault flash).2 = false ∧ (readFromFlash flash).1 = 0 ∧
        (currentInForce flash).byte Eeprom.eepromVersion ≠ 0x0A ∧
        (defaultInForce flash).byte Eeprom.eepromVersion ≠ 0x0A ∧
        (currentInForce flash).byte Eeprom.wlMode = 0 := by
  by_cases h : Keeps model flash
  · have hflags := migrate_flags (recover flash)
    have hkept := (migrate_kept (recover flash)).1
    rw [recover_needEEPROM, recover_needDEFAULT, recover_eeprom, recover_default] at hflags
    rw [recover_eeprom] at hkept
    have hmode := hkept.byte (f := Eeprom.wlMode) (by decide) (by decide)
    rw [settle_keeps h, (resetWPS_kept _).2.2, resetWPS_flag, ← and_assoc, hflags, hmode]
    constructor
    · rintro ⟨⟨hdefault, hflash, hcurrent, hown⟩, hmode⟩
      exact ⟨h, hdefault, hflash, hcurrent, hown, hmode⟩
    · rintro ⟨-, hdefault, hflash, hcurrent, hown, hmode⟩
      exact ⟨⟨hdefault, hflash, hcurrent, hown⟩, hmode⟩
  · rw [settle_resets h]
    exact iff_of_false (fun hq ↦ Bool.noConfusion hq.1) fun hq ↦ h hq.1

theorem migrate_eq (h : (migrate r).needWriteDEFAULT = false ∨
    (migrate r).needWriteEEPROM = false) : migrate r = r := by
  unfold migrate at *
  split at h
  · exact h.elim Bool.noConfusion Bool.noConfusion
  · rename_i hversion
    exact if_neg hversion

theorem resetWPS_eq (h : (resetWPS r).needWriteEEPROM = false) : resetWPS r = r := by
  unfold resetWPS at *
  split at h
  · exact Bool.noConfusion h
  · rename_i hmode
    exact if_neg hmode

theorem defaultInForce_eq (h : (recoverDefault flash).2 = false) :
    readFromDefault flash = (0, defaultInForce flash) := by
  obtain ⟨hvalid, hqc0⟩ := recoverDefault_snd.mp h
  have hown : validOr (readFromDefault flash) readFromFactory = (readFromDefault flash).2 := by
    rw [validOr, if_pos hvalid]
  have hforce : defaultInForce flash = (readFromDefault flash).2 := by
    unfold defaultInForce
    simp only [hown]
    exact if_neg fun hother ↦ hother.2 (hqc0 hother.1)
  rw [hforce]
  exact readFromArea_ok hvalid

theorem currentInForce_eq (h : (readFromFlash flash).1 = 0) :
    readFromFlash flash = (0, currentInForce flash) := by
  have hforce : currentInForce flash = (readFromFlash flash).2 := by
    rw [currentInForce, validOr, if_pos h]
  rw [hforce]
  exact readFromArea_ok h

/-- A record that is not written is as it was read. -/
theorem settle_unwritten :
    ((settle model flash).needWriteDEFAULT = false →
      readFromDefault flash = (0, (settle model flash).default)) ∧
    ((settle model flash).needWriteEEPROM = false →
      readFromFlash flash = (0, (settle model flash).eeprom)) := by
  by_cases h : Keeps model flash
  · rw [settle_keeps h]
    constructor
    · intro hclean
      have hwps := resetWPS_kept (migrate (recover flash))
      rw [hwps.2.2] at hclean
      have hmigrate := migrate_eq (Or.inl hclean)
      rw [hmigrate, recover_needDEFAULT] at hclean
      rw [hwps.2.1, hmigrate, recover_default]
      exact defaultInForce_eq hclean
    · intro hclean
      have hwps := resetWPS_eq hclean
      rw [hwps] at hclean ⊢
      have hmigrate := migrate_eq (Or.inr hclean)
      rw [hmigrate, recover_needEEPROM] at hclean
      rw [hmigrate, recover_eeprom]
      exact currentInForce_eq hclean
  · rw [settle_resets h]
    exact ⟨Bool.noConfusion, Bool.noConfusion⟩

/-! ## Writing back -/

theorem Done.andThen_log_ne_nil {α : Type} {d : Done α} {f : α → Done α} (h : d.log ≠ []) :
    (d.andThen f).log ≠ [] := by
  by_cases hrc : d.rc = 0
  · rw [Done.andThen_ok hrc, Done.seq_log]
    exact fun hnil ↦ h (List.append_eq_nil_iff.mp hnil).1
  · rw [Done.andThen_error hrc]
    exact h

theorem writeToArea_log (hn : 0 < n) (hmark : e.get Eeprom.zotMark = zot) :
    (writeToArea chip addr n e s).log ≠ [] := by
  unfold writeToArea
  rw [if_neg (not_not.mpr hmark)]
  apply Done.andThen_log_ne_nil
  change (spiFlashErase chip (addr / 4096) n s).log ≠ []
  cases n with
  | zero => cases hn
  | succ n => exact Done.andThen_log_ne_nil (List.cons_ne_nil _ _)

/-- The same record for a boot, but for what a write counts. -/
def Same (e e' : EepromData) : Prop :=
  Kept e e' ∧ e'.byte Eeprom.eepromVersion = e.byte Eeprom.eepromVersion

theorem sealRecord_same (e : EepromData) : Same e (sealRecord e) := by
  have h := sealRecord_rewritten e
  exact ⟨h.kept, h.other _ (by decide) (by decide) (by decide)⟩

theorem romData_congr {flash' : Memory} (hfit : addr + 1408 ≤ 16777216)
    (h : ∀ i < 1408, flash' (addr + i) = flash (addr + i)) :
    romData addr flash' = romData addr flash := by
  apply romData_eq hfit
  intro i hi
  rw [h i hi]
  symm
  unfold EepromData.mem
  rw [bytes_romData, readFlash_eq (show (1408 : UInt32).toNat = 1408 from rfl) (by decide) hfit,
    List.getD_eq_getElem?_getD, getElem?_readMem hi, Option.getD_some]

theorem readFromArea_congr {flash' : Memory} (hfit : addr + 1408 ≤ 16777216)
    (h : ∀ i < 1408, flash' (addr + i) = flash (addr + i)) :
    readFromArea addr flash' = readFromArea addr flash := by
  unfold readFromArea
  rw [romData_congr hfit h]

/-- Whether it had to be written or not, the area holds the record afterwards. -/
theorem writeNeeded_spec (hs : chip.Stores) (ht : chip.Takes) (haddr : addr % 4096 = 0)
    (hfit : addr + 4096 * n ≤ 16777216) (hn : 0 < n) (hmark : e.get Eeprom.zotMark = zot)
    {need : Bool} (hclean : need = false → readFromArea addr (chip.read s) = (0, e)) :
    ∃ w, writeNeeded need (writeToArea chip addr n) e s = some w ∧
      readFromArea addr (chip.read w.state) = (0, w.data) ∧ Same e w.data ∧
      (w.log = [] ↔ need = false) ∧
      ∀ i, (i < addr ∨ addr + 4096 * n ≤ i) → chip.read w.state i = chip.read s i := by
  cases need with
  | false =>
    exact ⟨⟨e, s, []⟩, rfl, hclean rfl, ⟨Kept.refl e, rfl⟩, iff_of_true rfl rfl, fun _ _ ↦ rfl⟩
  | true =>
    have hrc := @writeToArea_rc σ e addr n s chip ht hmark
    have hsame := sealRecord_same e
    have hdata : afterWrite e = sealRecord e := by rw [afterWrite, if_neg (not_not.mpr hmark)]
    refine ⟨⟨sealRecord e, (writeToArea chip addr n e s).state, (writeToArea chip addr n e s).log⟩,
      ?_, ?_, hsame, ?_, fun i hi ↦ hs.writeToArea_frame haddr hfit hn hrc hi⟩
    · unfold writeNeeded
      simp only [if_true, hrc, ne_eq, not_true_eq_false, if_false, hdata]
    · have hrom := hs.writeToArea haddr hfit hn hrc
      apply Prod.ext
      · apply readFromArea_eq_zero_iff.mpr
        rw [hrom, hsame.1 _ (by decide)]
        exact ⟨hmark, sealRecord_crcOk e⟩
      · rw [readFromArea_snd, hrom]
    · exact iff_of_false (writeToArea_log hn hmark) Bool.noConfusion

/-- One boot on a chip that works. -/
theorem eepromInit_spec (hs : chip.Stores) (ht : chip.Takes) (model : UInt8) (s : σ) :
    ∃ d e st log,
      (∀ rand, eepromInit chip model rand s = some ⟨inMemory rand e, d, st, log⟩) ∧
      readFromDefault (chip.read st) = (0, d) ∧ readFromFlash (chip.read st) = (0, e) ∧
      readFromQC0_Default (chip.read st) = readFromQC0_Default (chip.read s) ∧
      Same (settle model (chip.read s)).default d ∧ Same (settle model (chip.read s)).eeprom e ∧
      (log = [] ↔ (settle model (chip.read s)).needWriteDEFAULT = false ∧
        (settle model (chip.read s)).needWriteEEPROM = false) := by
  have hmark := @settle_mark model (chip.read s)
  have hread := @settle_unwritten model (chip.read s)
  generalize hr : settle model (chip.read s) = r at hmark hread
  obtain ⟨w, hw, hdefault, hsame, hlog, hframe⟩ := @writeNeeded_spec σ chip r.default s
    defaultAddrOff numOfDefaultSector hs ht (by decide) (by decide) (by decide) hmark.2
    r.needWriteDEFAULT hread.1
  -- the write of the default area leaves the other two
  have hflash : readFromFlash (chip.read w.state) = readFromFlash (chip.read s) :=
    readFromArea_congr (by decide) fun i _ ↦ hframe _ (Or.inr (Nat.le_add_right ..))
  have hqc0 : readFromQC0_Default (chip.read w.state) = readFromQC0_Default (chip.read s) := by
    apply readFromArea_congr (by decide)
    intro i hi
    exact hframe _ (Or.inl (Nat.lt_of_lt_of_le (Nat.add_lt_add_left hi _) (by decide)))
  have hclean : (r.needWriteDEFAULT || r.needWriteEEPROM) = false →
      readFromFlash (chip.read w.state) = (0, r.eeprom) := by
    intro hneed
    rw [hflash]
    exact hread.2 (Bool.or_eq_false_iff.mp hneed).2
  obtain ⟨w', hw', hflash', hsame', hlog', hframe'⟩ := @writeNeeded_spec σ chip r.eeprom w.state
    eepromAddrOff numOfEepSector hs ht (by decide) (by decide) (by decide) hmark.1
    (r.needWriteDEFAULT || r.needWriteEEPROM) hclean
  have hbelow : ∀ addr, addr + 1408 ≤ eepromAddrOff →
      readFromArea addr (chip.read w'.state) = readFromArea addr (chip.read w.state) := by
    intro addr haddr
    apply readFromArea_congr (Nat.le_trans haddr (by decide))
    intro i hi
    exact hframe' _ (Or.inl (Nat.lt_of_lt_of_le (Nat.add_lt_add_left hi _) haddr))
  refine ⟨w.data, w'.data, w'.state, w.log ++ w'.log, ?_, ?_, hflash', ?_, hsame, hsame', ?_⟩
  · have hwd : writeNeeded r.needWriteDEFAULT (writeToDefault chip) r.default s = some w := hw
    have hwe : writeNeeded (r.needWriteDEFAULT || r.needWriteEEPROM) (writeToFlash chip) r.eeprom
        w.state = some w' := hw'
    intro rand
    unfold eepromInit
    simp only [hr, hwd, hwe]
  · rw [← hdefault]
    exact hbelow defaultAddrOff (by decide)
  · rw [← hqc0]
    exact hbelow qc0DefAddrOff (by decide)
  · rw [List.append_eq_nil_iff, hlog, hlog', Bool.or_eq_false_iff]
    exact ⟨fun h ↦ ⟨h.1, h.2.2⟩, fun h ↦ ⟨h.1, h.1, h.2⟩⟩

/-! ## The next boot -/

theorem quiet_iff (hs : chip.Stores) (ht : chip.Takes) : Quiet chip model s ↔
    (settle model (chip.read s)).needWriteDEFAULT = false ∧
      (settle model (chip.read s)).needWriteEEPROM = false := by
  constructor
  · intro hquiet
    obtain ⟨r, hr, hlog⟩ := hquiet (0, 0, 0)
    obtain ⟨d, e, st, log, hboot, -, -, -, -, -, hiff⟩ := eepromInit_spec hs ht model s
    rw [hboot, Option.some.injEq] at hr
    rw [← hr] at hlog
    exact hiff.mp hlog
  · intro hflags rand
    obtain ⟨d, e, st, log, hboot, -, -, -, -, -, hiff⟩ := eepromInit_spec hs ht model s
    exact ⟨_, hboot rand, hiff.mpr hflags⟩

/-- What a boot leaves is left alone by the next one. -/
theorem next_quiet_iff (hs : chip.Stores) (ht : chip.Takes) {s st : σ}
    (hdefault : readFromDefault (chip.read st) = (0, d))
    (hflash : readFromFlash (chip.read st) = (0, e))
    (hqc0 : readFromQC0_Default (chip.read st) = readFromQC0_Default (chip.read s))
    (hd : Same (settle model (chip.read s)).default d)
    (he : Same (settle model (chip.read s)).eeprom e) :
    Quiet chip model st ↔
      Keeps model (chip.read s) ∧ (currentInForce (chip.read s)).byte Eeprom.wlMode = 0 := by
  have hcurrent : currentInForce (chip.read st) = e := by
    rw [currentInForce, validOr, hflash, if_pos rfl]
  have hversion := @settle_version model (chip.read s)
  have hmodeSame := he.1.byte (f := Eeprom.wlMode) (by decide) (by decide)
  rw [quiet_iff hs ht, settle_quiet_iff, hcurrent, hflash]
  by_cases h : Keeps model (chip.read s)
  · have hkept := migrated_kept (chip.read s)
    rw [settle_keeps h] at hd he hmodeSame hversion
    rw [hkept.1.byte (f := Eeprom.wlMode) (by decide) (by decide)] at hmodeSame
    -- QC0 has the node address that the default record was given
    have hagree : (recoverDefault (chip.read st)).2 = false := by
      apply recoverDefault_snd.mpr
      rw [hdefault]
      refine ⟨rfl, fun hvalid ↦ ?_⟩
      rw [hqc0] at hvalid ⊢
      rw [defaultInForce_ethernetID hvalid, hd.1 _ (by decide), hkept.2 _ (by decide)]
    have hforce : defaultInForce (chip.read st) = d := by
      have hown := defaultInForce_eq hagree
      rw [hdefault, Prod.mk.injEq] at hown
      exact hown.2.symm
    have hkeeps : Keeps model (chip.read st) := by
      have hdefaultKept := hkept.2.trans hd.1
      unfold Keeps at h ⊢
      rw [hforce, hdefaultKept.byte (f := Eeprom.numOfPort) (by decide) (by decide),
        hdefaultKept.byte (f := Eeprom.model) (by decide) (by decide)]
      exact h
    rw [hforce, hd.2, he.2, hmodeSame]
    constructor
    · intro hquiet
      exact ⟨h, hquiet.2.2.2.2.2⟩
    · intro hquiet
      exact ⟨hkeeps, hagree, rfl, hversion.1, hversion.2, hquiet.2⟩
  · -- the factory settings ask for an ad hoc network
    rw [settle_resets h, factory_wlMode] at hmodeSame
    refine iff_of_false (fun hquiet ↦ ?_) fun hquiet ↦ h hquiet.1
    rw [hmodeSame] at hquiet
    exact absurd hquiet.2.2.2.2.2 (by decide)

/-- The fields of a record that the first boot keeps. -/
theorem settled_model_iff (h : Keeps model flash) (he : Same (settle model flash).eeprom e) :
    e.byte Eeprom.model = model ∧ e.byte Eeprom.numOfPort = numOfPrnPort ↔
      (currentInForce flash).byte Eeprom.model = model ∧
        (currentInForce flash).byte Eeprom.numOfPort = numOfPrnPort := by
  rw [settle_keeps h] at he
  have hkept := (migrated_kept flash).1.trans he.1
  rw [hkept.byte (f := Eeprom.numOfPort) (by decide) (by decide),
    hkept.byte (f := Eeprom.model) (by decide) (by decide)]

theorem regular_iff : Regular model flash ↔ (Keeps model flash ∧
    (currentInForce flash).byte Eeprom.wlMode = 0) ∧
      (currentInForce flash).byte Eeprom.model = model ∧
        (currentInForce flash).byte Eeprom.numOfPort = numOfPrnPort :=
  ⟨fun h ↦ ⟨⟨⟨h.defaultPort, h.defaultModel⟩, h.wlMode⟩, h.model, h.port⟩,
    fun h ↦ ⟨h.1.1.2, h.1.1.1, h.2.1, h.2.2, h.1.2⟩⟩

theorem settled_of_read (h : readFromArea addr flash = (0, e)) :
    Settled model e ↔ e.byte Eeprom.model = model ∧ e.byte Eeprom.numOfPort = numOfPrnPort := by
  have hrc : (readFromArea addr flash).1 = 0 := by rw [h]
  have hrecord : romData addr flash = e := by rw [← readFromArea_snd, h]
  have hvalid := readFromArea_eq_zero_iff.mp hrc
  rw [hrecord] at hvalid
  exact ⟨fun hs ↦ hs.2.2, fun hm ↦ ⟨hvalid.1, hvalid.2, hm⟩⟩

/-- The default record of a boot that keeps it. -/
theorem default_settled (h : Keeps model flash) (hd : Same (settle model flash).default d) :
    d.byte Eeprom.model = model ∧ d.byte Eeprom.numOfPort = numOfPrnPort := by
  rw [settle_keeps h] at hd
  have hkept := (migrated_kept flash).2.trans hd.1
  rw [hkept.byte (f := Eeprom.numOfPort) (by decide) (by decide),
    hkept.byte (f := Eeprom.model) (by decide) (by decide)]
  exact ⟨h.2, h.1⟩

theorem areasConverge_iff (hs : chip.Stores) (ht : chip.Takes) {rand : UInt8 × UInt8 × UInt8} :
    AreasConverge chip model rand s ↔ Regular model (chip.read s) := by
  obtain ⟨d, e, st, log, hboot, hdefault, hflash, hqc0, hd, he, -⟩ :=
    eepromInit_spec hs ht model s
  have hnext := next_quiet_iff hs ht hdefault hflash hqc0 hd he
  rw [regular_iff, ← hnext]
  constructor
  · rintro ⟨r, hr, ⟨e', he', hsettled⟩, -, hquiet⟩
    rw [hboot, Option.some.injEq] at hr
    rw [← hr] at he' hquiet
    rw [hflash, Prod.mk.injEq] at he'
    rw [← he'.2, settled_of_read hflash, settled_model_iff (hnext.mp hquiet).1 he] at hsettled
    exact ⟨hquiet, hsettled⟩
  · rintro ⟨hquiet, hmodel⟩
    have hkeeps := (hnext.mp hquiet).1
    refine ⟨_, hboot rand, ⟨e, hflash, ?_⟩, ⟨d, hdefault, ?_⟩, hquiet⟩
    · exact (settled_of_read hflash).mpr ((settled_model_iff hkeeps he).mpr hmodel)
    · exact (settled_of_read hdefault).mpr (default_settled hkeeps hd)

/-! ## The record in memory -/

/-- The checksum holds of one value of each byte. -/
theorem EepromData.crcOk_byte {i : Nat} (h : e.crcOk) (h' : e'.crcOk) (hi : i < 1404)
    (hsame : ∀ j < 1408, j ≠ i → e'.mem j = e.mem j) : e'.mem i = e.mem i := by
  have hsum : e'.dword Eeprom.checkSum2 = e.dword Eeprom.checkSum2 := by
    apply nget32_congr
    intro j hj
    change e'.mem (1404 + j) = e.mem (1404 + j)
    exact hsame _ (by omega) (by omega)
  have hcrc : crc32 (e'.get Eeprom.beforeCheckSum2) = crc32 (e.get Eeprom.beforeCheckSum2) := by
    rw [← h, ← h', hsum]
  obtain ⟨k, hk⟩ : ∃ k, 1404 = i + (1 + k) := ⟨1404 - (i + 1), by omega⟩
  have hsplit (x : EepromData) : x.get Eeprom.beforeCheckSum2 =
      readMem x.mem 0 i ++ x.mem i :: readMem x.mem (i + 1) k := by
    change readMem x.mem 0 1404 = _
    rw [hk, readMem_add, readMem_add, Nat.zero_add]
    rfl
  have hbefore : readMem e'.mem 0 i = readMem e.mem 0 i :=
    readMem_congr fun j _ hj ↦ hsame j (by omega) (by omega)
  have hbehind : readMem e'.mem (i + 1) k = readMem e.mem (i + 1) k :=
    readMem_congr fun j hlo hhi ↦ hsame j (by omega) (by omega)
  rw [hsplit, hsplit, hbefore, hbehind] at hcrc
  exact crc32_byte hcrc

/-- What is put right in memory is a node address and a time. -/
theorem inMemory_get (rand : UInt8 × UInt8 × UInt8) (e : EepromData)
    (hf : f ∈ [Eeprom.zotMark, Eeprom.model, Eeprom.numOfPort]) :
    (inMemory rand e).get f = e.get f := by
  have hend : ∀ g ∈ [Eeprom.zotMark, Eeprom.model, Eeprom.numOfPort],
      g.offset + g.size ≤ 1408 ∧ g.offset + g.size ≤ Eeprom.timeOutValue.offset ∧
        (g.offset + g.size ≤ 5 ∨ 11 ≤ g.offset) := by decide
  obtain ⟨hfit, htime, hid⟩ := hend f hf
  unfold inMemory
  split
  · simp only
    split
    · rw [EepromData.putByte, EepromData.get_put_of_disjoint hfit (Or.inl htime),
        EepromData.get_put_of_disjoint hfit hid]
    · exact EepromData.get_put_of_disjoint hfit hid
  · simp only
    split
    · exact EepromData.get_put_of_disjoint hfit (Or.inl htime)
    · rfl

theorem inMemory_byte (rand : UInt8 × UInt8 × UInt8) (e : EepromData)
    (hf : f ∈ [Eeprom.model, Eeprom.numOfPort]) : (inMemory rand e).byte f = e.byte f := by
  have hsize : ∀ g ∈ [Eeprom.model, Eeprom.numOfPort], 0 < g.size := by decide
  rw [byte_eq_get (hsize f hf), byte_eq_get (hsize f hf), inMemory_get rand e
    (List.mem_cons_of_mem _ hf)]

theorem inMemory_eq {rand : UInt8 × UInt8 × UInt8} (hid : e.get Eeprom.ethernetID ≠ defaultNodeID)
    (htime : ¬ e.byte Eeprom.timeOutValue < 10) : inMemory rand e = e := by
  unfold inMemory
  simp only [if_neg hid, if_neg htime]

/-- A random node address does not fit the checksum, whatever it is. -/
theorem inMemory_crcOk_id (h : ∀ rand, (inMemory rand e).crcOk) :
    e.get Eeprom.ethernetID ≠ defaultNodeID := by
  intro hid
  have hmem (rand : UInt8 × UInt8 × UInt8) : ∀ j < 1408, (inMemory rand e).mem j =
      if j = 848 ∧ e.mem 848 < 10 then 90 else writeMem e.mem 5 (randNodeID rand) j := by
    intro j hj
    have htime : (e.put Eeprom.ethernetID (randNodeID rand)).byte Eeprom.timeOutValue =
        e.mem 848 :=
      EepromData.byte_put_of_disjoint (by decide) (Or.inr (Nat.le_of_ble_eq_true rfl))
    unfold inMemory
    simp only [if_pos hid, htime]
    by_cases hlow : e.mem 848 < 10
    · rw [if_pos hlow]
      unfold EepromData.putByte
      rw [EepromData.mem_put hj]
      by_cases hj848 : j = 848
      · rw [if_pos ⟨hj848, hlow⟩, hj848]
        exact @writeMem_add _ _ 848 0 [90] Nat.one_pos
      · rw [if_neg fun hboth ↦ hj848 hboth.1]
        have hmem : writeMem (e.put Eeprom.ethernetID (randNodeID rand)).mem 848 [90] j =
            (e.put Eeprom.ethernetID (randNodeID rand)).mem j := by
          rcases Nat.lt_or_gt_of_ne hj848 with hlt | hgt
          · exact writeMem_of_lt hlt
          · exact writeMem_of_ge hgt
        exact hmem.trans (EepromData.mem_put hj)
    · rw [if_neg hlow, if_neg fun hboth ↦ hlow hboth.2]
      exact EepromData.mem_put hj
  -- two addresses that differ in their last byte only
  have hlast (x : UInt8) : writeMem e.mem 5 (randNodeID (0, 0, x)) =
      writeMem (writeMem e.mem 5 [0x00, 0x40, 0xFF, 0, 0]) 10 [x] :=
    (writeMem_append [0x00, 0x40, 0xFF, 0, 0] [x]).symm
  have hsame := EepromData.crcOk_byte (i := 10) (h (0, 0, 0)) (h (0, 0, 1)) (by decide) (by
    intro j hj hne
    rw [hmem _ j hj, hmem _ j hj, hlast, hlast]
    rcases Nat.lt_or_gt_of_ne hne with hlt | hgt
    · rw [writeMem_of_lt hlt, writeMem_of_lt hlt]
    · rw [@writeMem_of_ge _ _ 10 _ [0] hgt, @writeMem_of_ge _ _ 10 _ [1] hgt])
  have hten : ¬ (10 = 848 ∧ e.mem 848 < 10) := fun hboth ↦ absurd hboth.1 (by decide)
  have hvalue (x : UInt8) : (inMemory (0, 0, x) e).mem 10 = x := by
    rw [hmem _ 10 (by decide), if_neg hten, hlast]
    exact @writeMem_add _ _ 10 0 [x] Nat.one_pos
  rw [hvalue, hvalue] at hsame
  revert hsame
  decide

theorem inMemory_crcOk_time (hcrc : e.crcOk) (hid : e.get Eeprom.ethernetID ≠ defaultNodeID)
    (h : (inMemory (0, 0, 0) e).crcOk) : ¬ e.byte Eeprom.timeOutValue < 10 := by
  intro htime
  have hput : inMemory (0, 0, 0) e = e.putByte Eeprom.timeOutValue 90 := by
    unfold inMemory
    simp only [if_neg hid, if_pos htime]
  rw [hput] at h
  have hother : ∀ j < 1408, j ≠ Eeprom.timeOutValue.offset →
      (e.putByte Eeprom.timeOutValue 90).mem j = e.mem j := by
    intro j hj hne
    unfold EepromData.putByte
    rw [EepromData.mem_put hj]
    rcases Nat.lt_or_gt_of_ne hne with hlt | hgt
    · exact writeMem_of_lt hlt
    · exact writeMem_of_ge hgt
  have hsame := EepromData.crcOk_byte hcrc h (by decide) hother
  have hbyte := EepromData.byte_putByte (e := e) (f := Eeprom.timeOutValue) (by decide) (b := 90)
  change (e.putByte Eeprom.timeOutValue 90).mem _ = _ at hbyte
  rw [hsame] at hbyte
  change e.mem Eeprom.timeOutValue.offset < 10 at htime
  rw [hbyte] at htime
  revert htime
  decide

/-- The records in memory, for every random node address. -/
theorem converges_iff (hs : chip.Stores) (ht : chip.Takes) :
    (∀ rand, Converges chip model rand s) ↔ Regular model (chip.read s) ∧
      (currentInForce (chip.read s)).get Eeprom.ethernetID ≠ defaultNodeID ∧
      ¬ (currentInForce (chip.read s)).byte Eeprom.timeOutValue < 10 := by
  obtain ⟨d, e, st, log, hboot, hdefault, hflash, hqc0, hd, he, -⟩ :=
    eepromInit_spec hs ht model s
  have hnext := next_quiet_iff hs ht hdefault hflash hqc0 hd he
  have hkept (h : Keeps model (chip.read s)) : Kept (currentInForce (chip.read s)) e := by
    have he' := he.1
    rw [settle_keeps h] at he'
    exact (migrated_kept _).1.trans he'
  rw [regular_iff, ← hnext]
  constructor
  · intro hall
    have hmemory (rand : UInt8 × UInt8 × UInt8) :
        Settled model (inMemory rand e) ∧ Quiet chip model st := by
      obtain ⟨r, hr, hsettled, -, hquiet⟩ := hall rand
      rw [hboot, Option.some.injEq] at hr
      rw [← hr] at hsettled hquiet
      exact ⟨hsettled, hquiet⟩
    have hquiet := (hmemory (0, 0, 0)).2
    have hkeeps := (hnext.mp hquiet).1
    have hmodel := (hmemory (0, 0, 0)).1.2.2
    rw [inMemory_byte _ _ (by decide), inMemory_byte _ _ (by decide),
      settled_model_iff hkeeps he] at hmodel
    -- the checksum is that of the record before it was put right in memory
    have hrc : (readFromFlash (chip.read st)).1 = 0 := by rw [hflash]
    have hcrc : e.crcOk := by
      have hvalid := (readFromArea_eq_zero_iff.mp hrc).2
      rw [← readFromArea_snd] at hvalid
      change (readFromFlash (chip.read st)).2.crcOk at hvalid
      rw [hflash] at hvalid
      exact hvalid
    have hid := inMemory_crcOk_id fun rand ↦ (hmemory rand).1.2.1
    have htime := inMemory_crcOk_time hcrc hid (hmemory (0, 0, 0)).1.2.1
    rw [hkept hkeeps _ (by decide)] at hid
    rw [(hkept hkeeps).byte (by decide) (by decide)] at htime
    exact ⟨⟨hquiet, hmodel⟩, hid, htime⟩
  · rintro ⟨⟨hquiet, hmodel⟩, hid, htime⟩ rand
    have hkeeps := (hnext.mp hquiet).1
    rw [← hkept hkeeps _ (by decide)] at hid
    rw [← (hkept hkeeps).byte (by decide) (by decide)] at htime
    refine ⟨_, hboot rand, ?_, ?_, hquiet⟩
    · change Settled model (inMemory rand e)
      rw [inMemory_eq hid htime, settled_of_read hflash, settled_model_iff hkeeps he]
      exact hmodel
    · exact (settled_of_read hdefault).mpr (default_settled hkeeps hd)

/-- One boot settles the configuration if and only if it starts from regular records; those in
memory keep their checksum if besides no node address is drawn and the time is not put right. -/
theorem boot_converges_iff (chip : Chip σ) (hs : chip.Stores) (ht : chip.Takes) (model : UInt8)
    (s : σ) :
    ((∀ rand, Converges chip model rand s) ↔ Regular model (chip.read s) ∧
      (currentInForce (chip.read s)).get Eeprom.ethernetID ≠ defaultNodeID ∧
      ¬ (currentInForce (chip.read s)).byte Eeprom.timeOutValue < 10) ∧
    ∀ rand, AreasConverge chip model rand s ↔ Regular model (chip.read s) :=
  ⟨converges_iff hs ht, fun _ ↦ areasConverge_iff hs ht⟩

/-! ## Two flashes -/

/-- A record of model 50 with a node address of its own. -/
def wiredRecord : EepromData :=
  sealRecord (.ofMemory fun i ↦ if i = 13 then 50 else if i = 40 then 1 else if i = 848 then 90
    else zot.getD i 0)

/-- A flash with this record in two areas. -/
def wiredFlash : Memory :=
  writeMem (writeMem (fun _ ↦ 0) defaultAddrOff wiredRecord.bytes) eepromAddrOff wiredRecord.bytes

theorem readFromArea_zero (hfit : addr + 1408 ≤ 16777216) (h : ∀ i < 1408, flash (addr + i) = 0) :
    (readFromArea addr flash).1 ≠ 0 := by
  have hrom : romData addr flash = .ofMemory fun _ ↦ 0 := by
    apply romData_eq hfit
    intro i hi
    rw [h i hi, EepromData.mem_ofMemory hi]
  intro hvalid
  have hmark := (readFromArea_eq_zero_iff.mp hvalid).1
  rw [hrom, EepromData.get_ofMemory (by decide)] at hmark
  revert hmark
  decide

theorem wiredRecord_mem {i : Nat} (hi : i < 1408) (hcount : i < 851 ∨ 855 ≤ i) (hsum : i < 1404) :
    wiredRecord.mem i = if i = 13 then 50 else if i = 40 then 1 else if i = 848 then 90
      else zot.getD i 0 := by
  unfold wiredRecord
  rw [(sealRecord_rewritten _).other i hi hcount hsum, EepromData.mem_ofMemory hi]

theorem wiredRecord_mark : wiredRecord.get Eeprom.zotMark = zot := by
  unfold wiredRecord
  rw [(sealRecord_rewritten _).get (Or.inl (by decide)), EepromData.get_ofMemory (by decide)]
  decide

/-- The record is found where it was written. -/
theorem readFromArea_wired (hfit : addr + 1408 ≤ 16777216)
    (h : ∀ i < 1408, flash (addr + i) = wiredRecord.mem i) :
    readFromArea addr flash = (0, wiredRecord) := by
  have hrom := romData_eq hfit h
  apply Prod.ext
  · apply readFromArea_eq_zero_iff.mpr
    rw [hrom]
    exact ⟨wiredRecord_mark, sealRecord_crcOk _⟩
  · rw [readFromArea_snd, hrom]

theorem wiredFlash_inForce :
    defaultInForce wiredFlash = wiredRecord ∧ currentInForce wiredFlash = wiredRecord := by
  have hflash : readFromFlash wiredFlash = (0, wiredRecord) :=
    readFromArea_wired (by decide) fun i hi ↦ writeMem_bytes hi
  have hdefault : readFromDefault wiredFlash = (0, wiredRecord) := by
    apply readFromArea_wired (by decide)
    intro i hi
    unfold wiredFlash
    rw [writeMem_of_lt (Nat.lt_of_lt_of_le (Nat.add_lt_add_left hi _) (by decide))]
    exact writeMem_bytes hi
  have hqc0 : (readFromQC0_Default wiredFlash).1 ≠ 0 := by
    apply readFromArea_zero (by decide)
    intro i hi
    unfold wiredFlash
    rw [writeMem_of_lt (Nat.lt_of_lt_of_le (Nat.add_lt_add_left hi _) (by decide)),
      writeMem_of_lt (Nat.lt_of_lt_of_le (Nat.add_lt_add_left hi _) (by decide))]
  have hown : defaultInForce wiredFlash = wiredRecord := by
    unfold defaultInForce
    rw [hdefault, if_neg fun h ↦ hqc0 h.1, validOr, if_pos rfl]
  refine ⟨hown, ?_⟩
  rw [currentInForce, hflash, validOr, if_pos rfl]

theorem wiredFlash_regular : Regular 50 wiredFlash := by
  have hbyte (f : Field) (hf : f.offset < 1404) (hcount : f.offset < 851 ∨ 855 ≤ f.offset) :=
    wiredRecord_mem (Nat.lt_trans hf (by decide)) hcount hf
  constructor
  · rw [wiredFlash_inForce.1]
    exact hbyte Eeprom.model (by decide) (by decide)
  · rw [wiredFlash_inForce.1]
    exact hbyte Eeprom.numOfPort (by decide) (by decide)
  · rw [wiredFlash_inForce.2]
    exact hbyte Eeprom.model (by decide) (by decide)
  · rw [wiredFlash_inForce.2]
    exact hbyte Eeprom.numOfPort (by decide) (by decide)
  · rw [wiredFlash_inForce.2]
    exact hbyte Eeprom.wlMode (by decide) (by decide)

theorem boot_converges_wired :
    (∀ rand, Converges pageChip 50 rand wiredFlash) ∧
      AreasConverge pageChip 50 (1, 2, 3) wiredFlash := by
  have hboot := boot_converges_iff pageChip pageChip_stores pageChip_takes 50 wiredFlash
  refine ⟨hboot.1.mpr ⟨wiredFlash_regular, ?_, ?_⟩, (hboot.2 _).mpr wiredFlash_regular⟩
  · change (currentInForce wiredFlash).get Eeprom.ethernetID ≠ defaultNodeID
    rw [wiredFlash_inForce.2]
    intro hid
    have hsecond := congrArg (·.getD 1 0) hid
    have hmem : (wiredRecord.get Eeprom.ethernetID).getD 1 0 = wiredRecord.mem 6 := by
      unfold EepromData.get
      rw [List.getD_eq_getElem?_getD, getElem?_readMem (by decide), Option.getD_some]
      rfl
    simp only [hmem] at hsecond
    rw [wiredRecord_mem (by decide) (by decide) (by decide)] at hsecond
    revert hsecond
    decide
  · change ¬ (currentInForce wiredFlash).byte Eeprom.timeOutValue < 10
    rw [wiredFlash_inForce.2]
    change ¬ wiredRecord.mem 848 < 10
    rw [wiredRecord_mem (by decide) (by decide) (by decide)]
    decide

/-- A flash without a valid record is written at every power-up. -/
theorem boot_diverges_blank : ¬ (∀ rand, Converges pageChip 50 rand fun _ ↦ 0) ∧
    ¬ ∀ rand, AreasConverge pageChip 50 rand fun _ ↦ 0 := by
  have hregular : ¬ Regular 50 (pageChip.read fun _ ↦ 0) := by
    intro h
    have hflash : (readFromFlash (pageChip.read fun _ ↦ 0)).1 ≠ 0 :=
      readFromArea_zero (by decide) fun _ _ ↦ rfl
    have hdefault : (readFromDefault (pageChip.read fun _ ↦ 0)).1 ≠ 0 :=
      readFromArea_zero (by decide) fun _ _ ↦ rfl
    have hqc0 : (readFromQC0_Default (pageChip.read fun _ ↦ 0)).1 ≠ 0 :=
      readFromArea_zero (by decide) fun _ _ ↦ rfl
    have hmode := h.wlMode
    -- both records are those of the factory
    rw [currentInForce, validOr, if_neg hflash, defaultInForce, if_neg fun hvalid ↦ hqc0 hvalid.1,
      validOr, if_neg hdefault, factory_wlMode] at hmode
    exact absurd hmode (by decide)
  constructor
  · intro hall
    exact hregular ((converges_iff pageChip_stores pageChip_takes).mp hall).1
  · intro hall
    exact hregular ((areasConverge_iff pageChip_stores pageChip_takes).mp (hall (0, 0, 0)))

end PrintServer.Flash
