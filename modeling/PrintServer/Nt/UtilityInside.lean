import PrintServer.Nt.Utility

/-!
# Which utility datagrams stay inside the tables

For each handler the printer numbers and lengths for which it comes to its end.
-/

namespace PrintServer.Nt

open Lib Http Spooler Port

namespace UtilSys

variable {env : UtilEnv} {s : UtilSys}

/-- The handler comes to its end. -/
def Inside (r : Except Fault UtilSys) : Prop := ∃ t, r = .ok t

theorem inside_ok (t : UtilSys) : Inside (.ok t) := ⟨t, rfl⟩

theorem not_inside_error (f : Fault) : ¬Inside (.error f) := by
  rintro ⟨t, h⟩
  cases h

def firstPort : PortNo := ⟨0, Nat.one_pos⟩

theorem portIndex_of_ge (table : PortTable) {n : Nat} (h : Spooler.numOfPrnPort ≤ n) :
    portIndex table n = .error (.index table n) := by
  apply dif_neg
  rintro ⟨-, hlt⟩
  rw [Int.toNat_natCast] at hlt
  omega

theorem answerStart_inside (version status : UInt8) :
    Inside (s.answerStart env version 0 status) := by
  unfold answerStart ntSendAckStartPrintUDP
  split
  · exact inside_ok _
  · exact inside_ok _

/-- The printer number is that of a port. -/
def Named (printerID : UInt8) : Prop := 0 < printerID.toNat ∧ printerID.toNat ≤ Spooler.numOfPrnPort

instance (printerID : UInt8) : Decidable (Named printerID) := inferInstanceAs (Decidable (_ ∧ _))

theorem named_iff {printerID : UInt8} : Named printerID ↔ printerID = 1 := by
  rw [← UInt8.toNat_inj, UInt8.toNat_one, Named, Spooler.numOfPrnPort]
  omega

theorem pred_ge {printerID : UInt8} (h : ¬Named printerID) :
    Spooler.numOfPrnPort ≤ (printerID - 1).toNat := by
  apply Nat.one_le_iff_ne_zero.mpr
  intro hzero
  apply h
  apply named_iff.mpr
  have hpred : printerID - 1 = 0 := UInt8.toNat_inj.mp hzero
  have hback : printerID - 1 + 1 = printerID := UInt8.sub_add_cancel printerID 1
  rw [← hback, hpred]
  rfl

theorem ok_bind {α β : Type} (a : α) (f : α → Except Fault β) : (Except.ok a >>= f) = f a := rfl

theorem error_bind {α β : Type} (e : Fault) (f : α → Except Fault β) :
    (Except.error e >>= f) = .error e := rfl

theorem readPortStatus_first : ∃ status, s.readPortStatus env 0 = .ok status := ⟨_, rfl⟩

theorem acquire_first (version maxPackets : UInt8) :
    ∃ t, s.acquire env version maxPackets 0 = .ok t := ⟨_, rfl⟩

theorem ntStartPrintUDP_inside_iff (maxPackets : UInt8) :
    Inside (s.ntStartPrintUDP env ntVersion4 maxPackets) ↔ Named (s.utilData 6) := by
  have hoffset : dataOffset ntVersion4 = 6 := rfl
  by_cases hnamed : Named (s.utilData 6)
  · rw [iff_true_right hnamed]
    have hfirst : s.utilData 6 - 1 = 0 := by
      rw [named_iff.mp hnamed]
      rfl
    have hport : ¬Spooler.numOfPrnPort ≤ (0 : UInt8).toNat := by decide
    have hindex (table : PortTable) : portIndex table ((0 : UInt8).toNat : Int) = .ok firstPort :=
      rfl
    obtain ⟨status, hstatus⟩ := @readPortStatus_first env s
    obtain ⟨t, hacquire⟩ := @acquire_first env s ntVersion4 maxPackets
    simp only [ntStartPrintUDP, hoffset, hfirst, hstatus, hindex, hacquire, ok_bind, if_true,
      if_neg hport]
    rw [pure_bind]
    generalize (if status = portPrinting then 0 else status) = portStatus
    split
    · exact answerStart_inside _ _
    split
    · split
      · exact answerStart_inside _ _
      · exact inside_ok _
    split
    · split
      · exact answerStart_inside _ _
      · exact answerStart_inside _ _
    · exact answerStart_inside _ _
  · -- the status is read before the number is tested
    rw [iff_false_right hnamed]
    have hindex := portIndex_of_ge .portIo (pred_ge hnamed)
    have hread : s.readPortStatus env (s.utilData 6 - 1) = .error
        (.index .portIo (s.utilData 6 - 1).toNat) := by
      rw [readPortStatus, hindex, error_bind]
    simp only [ntStartPrintUDP, hoffset, hread, if_true, error_bind]
    exact not_inside_error _

/-- The printer numbers that are not turned away are 0 and those of ports. -/
theorem turnedAway_or {printerID : UInt8} :
    Spooler.numOfPrnPort < printerID.toNat ∨ Named printerID ∨ printerID = 0 := by
  rw [← UInt8.toNat_inj, UInt8.toNat_zero, Named]
  omega

theorem portIndex_pred_zero (table : PortTable) :
    portIndex table ((0 : UInt8).toNat - 1) = .error (.index table (-1)) := rfl

theorem portIndex_pred_one (table : PortTable) :
    portIndex table ((1 : UInt8).toNat - 1) = .ok firstPort := rfl

theorem ntEndPrintUDP_inside_iff :
    Inside (s.ntEndPrintUDP env ntVersion4) ↔ s.utilData 6 ≠ 0 := by
  have hoffset : dataOffset ntVersion4 = 6 := rfl
  rcases @turnedAway_or (s.utilData 6) with haway | hnamed | hzero
  · have hne : s.utilData 6 ≠ 0 := by
      intro h
      rw [h] at haway
      exact absurd haway (by decide)
    rw [iff_true_right hne]
    simp only [ntEndPrintUDP, hoffset, if_pos haway]
    exact inside_ok _
  · have hone : s.utilData 6 = 1 := named_iff.mp hnamed
    have hne : s.utilData 6 ≠ 0 := by
      rw [hone]
      decide
    have hport : ¬Spooler.numOfPrnPort < (1 : UInt8).toNat := by decide
    rw [iff_true_right hne]
    simp only [ntEndPrintUDP, hoffset, hone, if_neg hport, portIndex_pred_one, ok_bind]
    split
    · exact inside_ok _
    split
    · exact inside_ok _
    · exact inside_ok _
  · have hport : ¬Spooler.numOfPrnPort < (0 : UInt8).toNat := by decide
    rw [iff_false_right (not_not_intro hzero)]
    simp only [ntEndPrintUDP, hoffset, hzero, if_neg hport, portIndex_pred_zero, error_bind]
    exact not_inside_error _

theorem length_deviceText (text : Option Str) :
    (deviceText text).length ≤ DeviceInfo.strlen text := by
  cases text with
  | none => exact Nat.le_refl 0
  | some text =>
      cases text with
      | nil => exact Nat.le_refl 0
      | cons c cs =>
          show (if isprint c then c :: cs else []).length ≤ (c :: cs).length
          split
          · exact Nat.le_refl _
          · exact Nat.zero_le _

theorem copyText_ok {text : Str} {o : Nat} (h : o + text.length < utilityRecSize) :
    s.copyText text o = .ok (s.put o (text ++ [0]), o + text.length + 1) := by
  have hcopy : requestCopy o (text.length + 1) = .ok () := if_pos h
  rw [copyText, hcopy, ok_bind]
  rfl

/-- The strings of a device id always fit the reply. -/
theorem copyInfo_inside {info : DeviceInfo} (h : info.total + 3 ≤ lengthOfDeviceID) :
    Inside (s.copyInfo info) := by
  have h1 := length_deviceText info.manufacture
  have h2 := length_deviceText info.model
  have h3 := length_deviceText info.commandSet
  have hsize : utilityRecSize = 1416 := rfl
  rw [DeviceInfo.total, lengthOfDeviceID] at h
  have hlast : requestCopy (7 + (deviceText info.manufacture).length + 1 +
      (deviceText info.model).length + 1 + (deviceText info.commandSet).length + 1) 1 = .ok () :=
    if_pos (by omega)
  rw [copyInfo, copyText_ok (by omega), ok_bind]
  dsimp only
  rw [copyText_ok (by omega), ok_bind]
  dsimp only
  rw [copyText_ok (by omega), ok_bind]
  dsimp only
  rw [hlast, ok_bind]
  exact inside_ok _

theorem utilSendDeviceInfoUDP_inside_iff (printerID : UInt8) :
    Inside (s.utilSendDeviceInfoUDP printerID) ↔ printerID ≠ 0 := by
  rcases @turnedAway_or printerID with haway | hnamed | hzero
  · have hne : printerID ≠ 0 := by
      intro h
      rw [h] at haway
      exact absurd haway (by decide)
    rw [iff_true_right hne]
    simp only [utilSendDeviceInfoUDP, if_pos haway]
    exact inside_ok _
  · have hone : printerID = 1 := named_iff.mp hnamed
    have hne : printerID ≠ 0 := by
      rw [hone]
      decide
    have hport : ¬Spooler.numOfPrnPort < (1 : UInt8).toNat := by decide
    rw [iff_true_right hne]
    simp only [utilSendDeviceInfoUDP, hone, if_neg hport, portIndex_pred_one, ok_bind]
    exact copyInfo_inside (s.portIo firstPort).fits
  · have hport : ¬Spooler.numOfPrnPort < (0 : UInt8).toNat := by decide
    rw [iff_false_right (not_not_intro hzero)]
    simp only [utilSendDeviceInfoUDP, hzero, if_neg hport, portIndex_pred_zero, error_bind]
    exact not_inside_error _

theorem shifted_even {n : UInt8} (hn : n ≠ 0) : shifted n % 2 = 0 := by
  unfold shifted
  split
  · obtain ⟨k, hk⟩ : ∃ k, n.toNat = k + 1 := by
      apply Nat.exists_eq_succ_of_ne_zero
      intro h
      exact hn (UInt8.toNat_inj.mp h)
    rw [hk, Nat.pow_succ]
    exact Nat.mul_mod_left _ 2
  · rfl

/-- A bit that does not stand for a port is never set. -/
theorem and_even {m : Nat} (hm : m % 2 = 0) : s.gPortReady.toNat &&& m = 0 := by
  have hlt : s.gPortReady.toNat < 2 := s.ready_lt
  rcases Nat.lt_succ_iff_lt_or_eq.mp hlt with hzero | hone
  · rw [Nat.lt_one_iff.mp hzero]
    exact Nat.zero_and _
  · rw [hone, Nat.and_comm, Nat.and_one_is_mod]
    exact hm

theorem utilReadPrinterDataUDP_inside (printerID : UInt8) :
    Inside (s.utilReadPrinterDataUDP env printerID) := by
  by_cases hfirst : printerID - 1 = 0
  · have hindex (table : PortTable) : portIndex table ((0 : UInt8).toNat : Int) = .ok firstPort :=
      rfl
    simp only [utilReadPrinterDataUDP, hfirst, hindex, ok_bind]
    split
    · split
      · exact inside_ok _
      · exact inside_ok _
    · exact inside_ok _
  · have hready : s.isReady (printerID - 1) = false := by
      rw [isReady, and_even (shifted_even hfirst)]
      rfl
    simp only [utilReadPrinterDataUDP, hready]
    exact inside_ok _

theorem mask_eq_zero_iff {n : UInt8} :
    s.gPortReady &&& UInt8.ofNat (shifted n) = 0 ↔ ¬(n = 0 ∧ s.isReady 0 = true) := by
  rw [← UInt8.toNat_inj, UInt8.toNat_and, UInt8.toNat_ofNat', UInt8.toNat_zero]
  by_cases hn : n = 0
  · rw [hn]
    show s.gPortReady.toNat &&& 1 = 0 ↔ _
    simp [isReady, shifted]
  · have heven : shifted n % 2 ^ 8 % 2 = 0 := by
      rw [Nat.mod_mod_of_dvd _ (by decide : 2 ∣ 2 ^ 8)]
      exact shifted_even hn
    rw [and_even heven]
    simp [hn]

/-- The printer takes a pattern: it is idle, and the port has a free buffer. -/
def Takes (s : UtilSys) (n : UInt8) : Prop :=
  n = 0 ∧ s.isReady 0 = true ∧ s.inUse firstPort = prnNoUsed ∧
    1 ≤ (s.availQueueNO firstPort).toNat

theorem prnPrintPattern_ok_iff {n : UInt8} {o : Nat} {wSize : UInt16} :
    (∃ r, s.prnPrintPattern n o wSize = .ok r) ↔
      (s.Takes n → o + wSize.toNat ≤ utilityRecSize ∧ wSize.toNat ≤ spoolBufferSize) := by
  unfold prnPrintPattern
  by_cases hmask : n = 0 ∧ s.isReady 0 = true
  · obtain ⟨rfl, hready⟩ := hmask
    have hset : ¬s.gPortReady &&& UInt8.ofNat (shifted 0) = 0 := by
      rw [mask_eq_zero_iff]
      exact not_not_intro ⟨rfl, hready⟩
    have hindex (table : PortTable) : portIndex table ((0 : UInt8).toNat : Int) = .ok firstPort :=
      rfl
    simp only [if_neg hset, hindex, ok_bind]
    by_cases hbusy : s.inUse firstPort ≠ prnNoUsed ∨ (s.availQueueNO firstPort).toNat < 1
    · simp only [if_pos hbusy]
      apply iff_of_true ⟨_, rfl⟩
      intro htakes
      rcases hbusy with hused | hnone
      · exact absurd htakes.2.2.1 hused
      · exact absurd htakes.2.2.2 (Nat.not_le_of_lt hnone)
    · obtain ⟨hused, havail⟩ := not_or.mp hbusy
      have htakes : s.Takes 0 := ⟨rfl, hready, not_not.mp hused, Nat.le_of_not_lt havail⟩
      simp only [if_neg hbusy]
      by_cases hrequest : o + wSize.toNat ≤ utilityRecSize
      · have hcopy : requestCopy o wSize.toNat = .ok () := if_pos hrequest
        rw [hcopy, ok_bind]
        by_cases hspool : wSize.toNat ≤ spoolBufferSize
        · have hcopy' : spoolCopy wSize.toNat = .ok () := if_pos hspool
          rw [hcopy', ok_bind]
          exact iff_of_true ⟨_, rfl⟩ fun _ ↦ ⟨hrequest, hspool⟩
        · have hcopy' : spoolCopy wSize.toNat = .error (.spool wSize.toNat) := if_neg hspool
          rw [hcopy', error_bind]
          exact iff_of_false (fun ⟨_, h⟩ ↦ nomatch h) fun h ↦ hspool (h htakes).2
      · have hcopy : requestCopy o wSize.toNat = .error (.request o wSize.toNat) := if_neg hrequest
        rw [hcopy, error_bind]
        exact iff_of_false (fun ⟨_, h⟩ ↦ nomatch h) fun h ↦ hrequest (h htakes).1
  · have hclear : s.gPortReady &&& UInt8.ofNat (shifted n) = 0 := mask_eq_zero_iff.mpr hmask
    simp only [if_pos hclear]
    apply iff_of_true ⟨_, rfl⟩
    exact fun htakes ↦ absurd ⟨htakes.1, htakes.2.1⟩ hmask

/-- The pattern is as long as the datagram says, and lies within the record. -/
def PatternFits (dataSize : UInt16) : Prop := 6 + 3 + dataSize.toNat ≤ utilityRecSize

theorem utilWritePrinterDataUDP_inside_iff (printerID : UInt8) (dataSize : UInt16) :
    Inside (s.utilWritePrinterDataUDP printerID dataSize) ↔
      (s.Takes (printerID - 1) → PatternFits dataSize) := by
  have hspool (h : PatternFits dataSize) : dataSize.toNat ≤ spoolBufferSize := by
    rw [PatternFits, utilityRecSize] at h
    rw [spoolBufferSize, Spooler.blockSize]
    omega
  have hends : Inside (s.utilWritePrinterDataUDP printerID dataSize) ↔
      ∃ r, s.prnPrintPattern (printerID - 1) (6 + 3) dataSize = .ok r := by
    unfold utilWritePrinterDataUDP
    cases s.prnPrintPattern (printerID - 1) (6 + 3) dataSize with
    | error f => exact iff_of_false (not_inside_error f) fun ⟨_, h⟩ ↦ nomatch h
    | ok r => exact iff_of_true (inside_ok _) ⟨r, rfl⟩
  rw [hends, prnPrintPattern_ok_iff]
  exact ⟨fun h htakes ↦ (h htakes).1, fun h htakes ↦ ⟨h htakes, hspool (h htakes)⟩⟩

/-- The number is that of a port where it is an index first, and not 0 where it is only compared
with the number of ports; a pattern that is printed lies within the record. -/
def NumberChecked (s : UtilSys) : Prop :=
  let cmd := s.utilData 4
  let printerID := s.utilData 6
  if cmd = cmd0A then Named printerID
  else if cmd = cmd0C ∨ cmd = cmd10 then printerID ≠ 0
  else if cmd = cmd12 then s.Takes (printerID - 1) → PatternFits s.dataSize
  else True

/-- Indices and copies stay inside for exactly the datagrams whose number is checked. -/
theorem ntDoCommandUDP_inside_iff (env : UtilEnv) (s : UtilSys) :
    Inside (s.ntDoCommandUDP env) ↔ NumberChecked s := by
  unfold ntDoCommandUDP NumberChecked
  dsimp only
  by_cases h0A : s.utilData 4 = cmd0A
  · rw [if_pos h0A, if_pos h0A]
    exact ntStartPrintUDP_inside_iff _
  rw [if_neg h0A, if_neg h0A]
  by_cases h0C : s.utilData 4 = cmd0C
  · rw [if_pos h0C, if_pos (.inl h0C)]
    exact ntEndPrintUDP_inside_iff
  rw [if_neg h0C]
  by_cases h10 : s.utilData 4 = cmd10
  · rw [if_pos h10, if_pos (.inr h10)]
    exact utilSendDeviceInfoUDP_inside_iff _
  rw [if_neg h10, if_neg (not_or_intro h0C h10)]
  by_cases h11 : s.utilData 4 = cmd11
  · have h12 : s.utilData 4 ≠ cmd12 := by
      rw [h11]
      decide
    rw [if_pos h11, if_neg h12]
    exact iff_of_true (utilReadPrinterDataUDP_inside _) trivial
  rw [if_neg h11]
  by_cases h12 : s.utilData 4 = cmd12
  · rw [if_pos h12, if_pos h12]
    exact utilWritePrinterDataUDP_inside_iff _ _
  · rw [if_neg h12, if_neg h12]
    exact iff_of_true (inside_ok s) trivial

/-- End Print for printer 0, on a box without a printer. -/
def printerZero : UtilSys where
  utilData := fun i ↦ if i = 4 then cmd0C else 0
  ntPortInfo := fun _ ↦ ntStart.ntPortInfo
  isNTEndPrint := fun _ ↦ 0
  portIo := fun _ ↦ ParPort.unattach
  inUse := fun _ ↦ prnNoUsed
  availQueueNO := fun _ ↦ 10
  gPortReady := 1
  ready_lt := by decide
  dma := fun _ ↦ []
  jobLog := []
  signal := 0

/-- It reads and writes the record before `NTPortInfo`. -/
theorem printerZero_index :
    printerZero.ntDoCommandUDP ⟨⟨0, 0⟩, 0, true, 0⟩ = .error (.index .ntPortInfo (-1)) ∧
      ¬∀ env s, Inside (ntDoCommandUDP env s) := by
  refine ⟨rfl, fun h ↦ ?_⟩
  obtain ⟨t, ht⟩ := h ⟨⟨0, 0⟩, 0, true, 0⟩ printerZero
  cases ht

end UtilSys

end PrintServer.Nt
