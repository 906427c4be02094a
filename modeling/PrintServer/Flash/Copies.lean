import PrintServer.Flash.Store

/-!
# The copies of the configuration in memory

`WriteToFlash`, `WriteToDefault` and `WriteToQC0_Default` of rwflash.c with `EEPROM_Data`,
`DEFAULT_Data` and `QC0_Defualt_EEPROM`.  The record that is to be written may be one of these.
-/

namespace PrintServer.Flash

open Lib

variable {σ : Type} (chip : Chip σ)

/-- The contents of the three globals. -/
abbrev Copies := Area → EepromData

/-- The argument `RomData`: the address of a global, or of a record elsewhere. -/
inductive RomData
  | copy (a : Area)
  | elsewhere (e : EepromData)

/-- What `RomData` points to. -/
def RomData.record (c : Copies) : RomData → EepromData
  | .copy a => c a
  | .elsewhere e => e

/-- The global of the area takes the record, unless it is the record. -/
def takeRecord (a : Area) (p : RomData) (c : Copies) : Copies :=
  match p with
  | .copy b => if b = a then c else Function.update c a (c b)
  | .elsewhere e => Function.update c a e

/-- From the `memcpy` to the call of `vProgramFlash`; whether the record was taken. -/
def writeCopy (a : Area) (addr nsectors : Nat) (p : RomData) (c : Copies) (s : σ) :
    Bool × Copies × Done σ :=
  let c := takeRecord a p c
  -- the test comes behind the copy
  if (p.record c).get Eeprom.zotMark ≠ zot then (false, c, ⟨1, s, []⟩)
  else
    let c := Function.update c a (sealRecord (c a))
    (true, c, (vEraseFlash chip addr nsectors s).andThen (vProgramFlash chip addr (c a).bytes))

namespace Copies

def writeToFlash (p : RomData) (c : Copies) (s : σ) : Copies × Done σ :=
  (writeCopy chip .flash eepromAddrOff numOfEepSector p c s).2

def writeToDefault (p : RomData) (c : Copies) (s : σ) : Copies × Done σ :=
  (writeCopy chip .default defaultAddrOff numOfDefaultSector p c s).2

/-- The only one that reads its copy back. -/
def writeToQC0_Default (p : RomData) (c : Copies) (s : σ) : Copies × Done σ :=
  match writeCopy chip .qc0Default qc0DefAddrOff numOfQC0DefaultSector p c s with
  | (false, c, d) => (c, d)
  | (true, c, d) =>
      if d.rc = 0 then
        let r := readFromQC0_Default (chip.read d.state)
        (Function.update c .qc0Default r.2, { d with rc := if r.1 ≠ 0 then 1 else 0 })
      else (c, d)

def writeTo : Area → RomData → Copies → σ → Copies × Done σ
  | .flash => writeToFlash chip
  | .default => writeToDefault chip
  | .qc0Default => writeToQC0_Default chip

end Copies

variable {chip} {a : Area} {p : RomData} {c : Copies} {s : σ} {addr n : Nat}

/-- The copy does not change the record. -/
theorem record_takeRecord : p.record (takeRecord a p c) = p.record c := by
  cases p with
  | elsewhere e => rfl
  | copy b =>
    show takeRecord a (.copy b) c b = c b
    rw [takeRecord]
    split
    · rfl
    · rename_i hb
      exact Function.update_of_ne hb _ _

theorem takeRecord_self : takeRecord a p c a = p.record c := by
  cases p with
  | elsewhere e => exact Function.update_self ..
  | copy b =>
    rw [takeRecord]
    split
    · rename_i hb
      rw [hb]
      rfl
    · exact Function.update_self ..

theorem takeRecord_of_ne {b : Area} (hb : b ≠ a) : takeRecord a p c b = c b := by
  cases p with
  | elsewhere e => exact Function.update_of_ne hb ..
  | copy b' =>
    rw [takeRecord]
    split
    · rfl
    · exact Function.update_of_ne hb ..

theorem takeRecord_eq_iff : takeRecord a p c = c ↔ p.record c = c a := by
  constructor
  · intro h
    rw [← takeRecord_self (a := a), h]
  · intro h
    funext b
    by_cases hb : b = a
    · rw [hb, takeRecord_self, h]
    · exact takeRecord_of_ne hb

theorem writeCopy_rejected (hmark : (p.record c).get Eeprom.zotMark ≠ zot) :
    writeCopy chip a addr n p c s = (false, takeRecord a p c, ⟨1, s, []⟩) := by
  rw [writeCopy, record_takeRecord, if_pos hmark]

/-- What happens to the flash depends on the record alone. -/
theorem writeCopy_done : (writeCopy chip a addr n p c s).2.2 =
    writeToArea chip addr n (p.record c) s := by
  rw [writeCopy, writeToArea, record_takeRecord]
  dsimp only
  split
  · rfl
  · rw [Function.update_self, takeRecord_self]

/-- The functions do to the flash what they do where the copies are left out. -/
theorem Copies.writeTo_done : (writeTo chip a p c s).2 = a.writeTo chip (p.record c) s := by
  cases a with
  | flash => exact writeCopy_done
  | default => exact writeCopy_done
  | qc0Default =>
    have hdone := @writeCopy_done σ chip .qc0Default p c s qc0DefAddrOff numOfQC0DefaultSector
    show (writeToQC0_Default chip p c s).2 = Flash.writeToQC0_Default chip (p.record c) s
    rw [writeToQC0_Default, Flash.writeToQC0_Default, ← hdone]
    by_cases hmark : (p.record c).get Eeprom.zotMark ≠ zot
    · rw [writeCopy_rejected hmark]
      rfl
    · have htaken : (writeCopy chip .qc0Default qc0DefAddrOff numOfQC0DefaultSector p c s).1 =
          true := by
        rw [writeCopy, record_takeRecord, if_neg hmark]
      generalize writeCopy chip .qc0Default qc0DefAddrOff numOfQC0DefaultSector p c s = r at htaken
      obtain ⟨taken, c', d⟩ := r
      cases htaken
      rw [Done.andThen]
      by_cases hrc : d.rc = 0
      · -- the read adds nothing to the log
        simp only [if_pos hrc, Done.seq, List.append_nil]
      · simp only [if_neg hrc]

/-! ## Rejected records -/

theorem Copies.writeTo_rejected (hmark : (p.record c).get Eeprom.zotMark ≠ zot) :
    writeTo chip a p c s = (takeRecord a p c, ⟨1, s, []⟩) := by
  cases a with
  | flash =>
    show writeToFlash chip p c s = _
    rw [writeToFlash, writeCopy_rejected hmark]
  | default =>
    show writeToDefault chip p c s = _
    rw [writeToDefault, writeCopy_rejected hmark]
  | qc0Default =>
    show writeToQC0_Default chip p c s = _
    rw [writeToQC0_Default, writeCopy_rejected hmark]

/-- A record without its mark is refused; the copies stay when it is a copy of the one that it is
for. -/
theorem rejected_untouched_iff (chip : Chip σ) (a : Area) (p : RomData) (c : Copies) (s : σ)
    (hmark : (p.record c).get Eeprom.zotMark ≠ zot) :
    ((Copies.writeTo chip a p c s).2.rc ≠ 0 ∧ (Copies.writeTo chip a p c s).1 = c ∧
      (Copies.writeTo chip a p c s).2.state = s) ↔ p.record c = c a := by
  rw [Copies.writeTo_rejected hmark]
  constructor
  · rintro ⟨-, hcopies, -⟩
    exact takeRecord_eq_iff.mp hcopies
  · intro h
    exact ⟨Int.one_ne_zero, takeRecord_eq_iff.mpr h, rfl⟩

/-- A record of zeros. -/
def blankRecord : EepromData := .ofMemory fun _ ↦ 0

theorem blankRecord_mark : blankRecord.get Eeprom.zotMark ≠ zot := by
  rw [blankRecord, EepromData.get_ofMemory (by decide)]
  decide

theorem rejected_untouched_blank :
    (Copies.writeTo pageChip .flash (.copy .flash) (fun _ ↦ blankRecord) fun _ ↦ 0).2.rc ≠ 0 ∧
      (Copies.writeTo pageChip .flash (.copy .flash) (fun _ ↦ blankRecord) fun _ ↦ 0).1 =
        (fun _ ↦ blankRecord) ∧
      (Copies.writeTo pageChip .flash (.copy .flash) (fun _ ↦ blankRecord) fun _ ↦ 0).2.state =
        fun _ ↦ 0 :=
  (rejected_untouched_iff pageChip .flash (.copy .flash) (fun _ ↦ blankRecord) (fun _ ↦ 0)
    blankRecord_mark).mpr rfl

/-- A blank record takes the place of a good one in memory. -/
theorem blank_record_taken : ¬∀ (chip : Chip Memory) (a : Area) (p : RomData) (c : Copies)
    (s : Memory), (p.record c).get Eeprom.zotMark ≠ zot →
      (Copies.writeTo chip a p c s).2.rc ≠ 0 ∧ (Copies.writeTo chip a p c s).1 = c ∧
        (Copies.writeTo chip a p c s).2.state = s := by
  intro h
  have hmark : ((RomData.elsewhere blankRecord).record fun _ ↦ zotRecord).get Eeprom.zotMark ≠
      zot := blankRecord_mark
  have hcopies := (h pageChip .flash (.elsewhere blankRecord) (fun _ ↦ zotRecord) (fun _ ↦ 0)
    hmark).2.1
  rw [Copies.writeTo_rejected hmark] at hcopies
  have hsame : takeRecord .flash (.elsewhere blankRecord) (fun _ ↦ zotRecord) .flash =
      zotRecord := congrFun hcopies .flash
  rw [takeRecord_self] at hsame
  rw [hsame] at hmark
  exact hmark zotRecord_mark

end PrintServer.Flash
