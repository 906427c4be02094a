import PrintServer.Flash.Eeprom
import PrintServer.Flash.Spi

/-!
# Firmware upgrade

The `vProgram` functions and `ApUpgradeFirmware` of rwflash.c.  The memory starts at
`UPGRADE_TEMP_ADDRESS`, where `DoChecksum` puts what it reads back as well.
-/

namespace PrintServer.Flash

open Lib

structure Box (σ : Type) where
  flash : σ
  ram : Memory

def numOfLoaderSector : Nat := 16
def numOfCode1Sector : Nat := 32
def numOfCode2Sector : Nat := 192
def numOfWebSector : Nat := 6
def numOfDefaultSector : Nat := 2
def numOfEepSector : Nat := 2

def programMaxRetryTimes : Nat := 1

variable {σ : Type} (chip : Chip σ) (model : UInt8)

def Done.onBox (ram : Memory) (d : Done σ) : Done (Box σ) := ⟨d.rc, ⟨d.state, ram⟩, d.log⟩

/-- What the `vProgram` functions do in each try: `length` bytes from `p` on. -/
def eraseAndProgram (start nsectors p : Nat) (length : UInt32) (b : Box σ) : Done (Box σ) :=
  ((vEraseFlash chip start nsectors b.flash).andThen
    (programLoop chip start (readMem b.ram p length.toNat))).onBox b.ram

/-- `DoChecksum` of a stretch of the flash. -/
def checksumOf (start : Nat) (b : Box σ) : Done (Box σ) :=
  let r := doChecksum model (chip.read b.flash) start b.ram
  ⟨r.1.toNat, { b with ram := r.2 }, [.checksum start r.1]⟩

/-- The tries of `vProgramLoader`. -/
def loaderTries (p : Nat) (length : UInt32) : Nat → Int → Box σ → Done (Box σ)
  | 0, error, b => ⟨error, b, []⟩
  | retry + 1, _, b =>
      (eraseAndProgram chip loaderAddrOff numOfLoaderSector p length b).seq
        (loaderTries p length retry)

def vProgramLoader (p : Nat) (length : UInt32) : Box σ → Done (Box σ) :=
  loaderTries chip p length programMaxRetryTimes 0

/-- The tries of the functions that verify: after a checksum of 0 the error is still 0. -/
def verifiedTries (start nsectors p : Nat) (length : UInt32) : Nat → Int → Box σ → Done (Box σ)
  | 0, error, b => ⟨error, b, []⟩
  | retry + 1, _, b =>
      (eraseAndProgram chip start nsectors p length b).seq fun error b ↦
        if error = 0 then
          (checksumOf chip model start b).seq fun sum b ↦
            if sum = 0 then verifiedTries start nsectors p length retry error b
            else ⟨error, b, []⟩
        else verifiedTries start nsectors p length retry error b

def vProgramCode1 (p : Nat) (length : UInt32) : Box σ → Done (Box σ) :=
  verifiedTries chip model code1AddrOff numOfCode1Sector p length programMaxRetryTimes 0

def vProgramCode2 (p : Nat) (length : UInt32) : Box σ → Done (Box σ) :=
  verifiedTries chip model code2AddrOff numOfCode2Sector p length programMaxRetryTimes 0

def vProgramWeb (p : Nat) (length : UInt32) : Box σ → Done (Box σ) :=
  verifiedTries chip model webOff numOfWebSector p length programMaxRetryTimes 0

/-- The `rc` of `vEraseDefault` is overwritten, and the data of the image is not looked at. -/
def vProgramDef (eeprom : EepromData) (b : Box σ) : Done (Box σ) :=
  ((vEraseFlash chip defaultAddrOff numOfDefaultSector b.flash).seq fun _ s ↦
    (vEraseFlash chip eepromAddrOff numOfEepSector s).andThen
      (vProgramFlash chip defaultAddrOff eeprom.bytes)).onBox b.ram

/-- The `switch` over the offset of an image at `p`. -/
def programImage (eeprom : EepromData) (offset p : Nat) (b : Box σ) : Done (Box σ) :=
  let nbytes := (header b.ram p).fileLen
  if offset = loaderAddrOff then vProgramLoader chip (p + sizeofHeader) nbytes b
  else if offset = code1AddrOff then vProgramCode1 chip model p (nbytes + 256) b
  else if offset = code2AddrOff then vProgramCode2 chip model p (nbytes + 256) b
  else if offset = webOff then vProgramWeb chip model p (nbytes + 256) b
  else if offset = defaultAddrOff then vProgramDef chip eeprom b
  else ⟨0, b, []⟩

/-- An image that was programmed, with the box before and the end of the call. -/
structure Visit (σ : Type) where
  pos : Nat
  before : Box σ
  done : Done (Box σ)

/-- How far `pread` goes from the header at `p`. -/
def advance (ram : Memory) (p : Nat) : Nat :=
  let hdr := header ram p
  (p + (if hdr.mark = xgz then sizeofHeader else 0) + hdr.fileLen.toNat) % 2 ^ 32

/-- A header that is only skipped. -/
def isChain (ram : Memory) (p : Nat) : Prop :=
  (header ram p).bintype = allflashMark ∧ (header ram p).next = 1

instance (ram : Memory) (p : Nat) : Decidable (isChain ram p) :=
  inferInstanceAs (Decidable (_ ∧ _))

/-- `ApUpgradeFirmware` from the header at `p`: what it returns, and the images it programmed. -/
def apUpgradeFirmware (eeprom : EepromData) :
    Nat → Nat → Box σ → Option (Bool × Box σ × List (Visit σ))
  | 0, _, _ => none
  | fuel + 1, p, b =>
      let offset := psCheckImageIntegrity model b.ram p
      if offset = maxFlashOff then some (false, b, [])
      else if isChain b.ram p then
        apUpgradeFirmware eeprom fuel ((p + sizeofHeader) % 2 ^ 32) b
      else
        let d := programImage chip model eeprom offset p b
        if (header d.state.ram p).next = 1 then
          (apUpgradeFirmware eeprom fuel (advance d.state.ram p) d.state).map fun r ↦
            (r.1, r.2.1, ⟨p, b, d⟩ :: r.2.2)
        else some (true, d.state, [⟨p, b, d⟩])

variable {chip : Chip σ} {model bintype : UInt8} {eeprom : EepromData} {p : Nat}

theorem Chip.Takes.eraseAndProgram (h : chip.Takes) (start n p : Nat) (length : UInt32)
    (b : Box σ) : (Flash.eraseAndProgram chip start n p length b).rc = 0 := by
  change ((Flash.vEraseFlash chip start n b.flash).andThen
    (Flash.programLoop chip start (readMem b.ram p length.toNat))).rc = 0
  rw [Done.andThen_ok (h.vEraseFlash start n b.flash)]
  exact h.programLoop start _ _

theorem psCheckImageIntegrity_eq {ram : Memory} {p : Nat}
    (h : psCheckImageIntegrity model ram p ≠ maxFlashOff) :
    psCheckImageIntegrity model ram p = typeOffset (header ram p).bintype := by
  unfold psCheckImageIntegrity at h ⊢
  simp only at h ⊢
  split at h
  · exact absurd rfl h
  split at h
  · exact absurd rfl h
  rw [if_neg ‹_›, if_neg ‹_›]

theorem typeOffset_cases (h : typeOffset bintype ≠ maxFlashOff) :
    bintype = allflashMark ∨ bintype = loaderMark ∨ bintype = code1Mark ∨ bintype = code2Mark ∨
      bintype = eepromMark := by
  unfold typeOffset at h
  grind

/-! ## The loop -/

section Loop

variable {fuel : Nat} {b : Box σ}

theorem apUpgradeFirmware_refused (h : psCheckImageIntegrity model b.ram p = maxFlashOff) :
    apUpgradeFirmware chip model eeprom (fuel + 1) p b = some (false, b, []) := if_pos h

theorem apUpgradeFirmware_chain (h : psCheckImageIntegrity model b.ram p ≠ maxFlashOff)
    (hchain : isChain b.ram p) : apUpgradeFirmware chip model eeprom (fuel + 1) p b =
      apUpgradeFirmware chip model eeprom fuel ((p + sizeofHeader) % 2 ^ 32) b := by
  rw [apUpgradeFirmware]
  simp only [if_neg h, if_pos hchain]

variable {d : Done (Box σ)}

theorem apUpgradeFirmware_last (h : psCheckImageIntegrity model b.ram p ≠ maxFlashOff)
    (hchain : ¬ isChain b.ram p)
    (hd : programImage chip model eeprom (psCheckImageIntegrity model b.ram p) p b = d)
    (hnext : (header d.state.ram p).next ≠ 1) :
    apUpgradeFirmware chip model eeprom (fuel + 1) p b = some (true, d.state, [⟨p, b, d⟩]) := by
  rw [apUpgradeFirmware]
  simp only [if_neg h, if_neg hchain, hd, if_neg hnext]

theorem apUpgradeFirmware_next (h : psCheckImageIntegrity model b.ram p ≠ maxFlashOff)
    (hchain : ¬ isChain b.ram p)
    (hd : programImage chip model eeprom (psCheckImageIntegrity model b.ram p) p b = d)
    (hnext : (header d.state.ram p).next = 1) :
    apUpgradeFirmware chip model eeprom (fuel + 1) p b =
      (apUpgradeFirmware chip model eeprom fuel (advance d.state.ram p) d.state).map fun r ↦
        (r.1, r.2.1, ⟨p, b, d⟩ :: r.2.2) := by
  rw [apUpgradeFirmware]
  simp only [if_neg h, if_neg hchain, hd, if_pos hnext]

end Loop

/-- An image that was programmed had passed the check. -/
theorem apUpgradeFirmware_visits {fuel : Nat} {b b' : Box σ} {rc : Bool} {visits : List (Visit σ)}
    (h : apUpgradeFirmware chip model eeprom fuel p b = some (rc, b', visits)) :
    ∀ v ∈ visits, psCheckImageIntegrity model v.before.ram v.pos ≠ maxFlashOff ∧
      ¬ isChain v.before.ram v.pos ∧
      v.done = programImage chip model eeprom
        (psCheckImageIntegrity model v.before.ram v.pos) v.pos v.before := by
  induction fuel generalizing p b rc b' visits with
  | zero => cases h
  | succ fuel ih =>
    unfold apUpgradeFirmware at h
    simp only at h
    split at h
    · obtain ⟨rfl, rfl, rfl⟩ : false = rc ∧ b = b' ∧ [] = visits := by simpa using h
      exact fun v hv ↦ absurd hv List.not_mem_nil
    have hok : psCheckImageIntegrity model b.ram p ≠ maxFlashOff := ‹_›
    split at h
    · exact ih h
    have hchain : ¬ isChain b.ram p := ‹_›
    split at h
    · obtain ⟨⟨rc', b'', visits'⟩, hrest, hr⟩ := Option.map_eq_some_iff.mp h
      obtain ⟨-, -, rfl⟩ := hr
      intro v hv
      rcases List.mem_cons.mp hv with rfl | hv
      · exact ⟨hok, hchain, rfl⟩
      · exact ih hrest v hv
    · obtain ⟨-, -, rfl⟩ := Option.some.inj h
      intro v hv
      rw [List.mem_singleton] at hv
      subst hv
      exact ⟨hok, hchain, rfl⟩

end PrintServer.Flash
