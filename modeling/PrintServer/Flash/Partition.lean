import Mathlib.Tactic.IntervalCases
import PrintServer.Flash.MakeImage
import PrintServer.Flash.Upgrade

/-!
# Partitions

Which bytes of the flash an upgrade erases and programs.
-/

namespace PrintServer.Flash

open Lib

/-- The areas of a type: where they start, and their sectors. -/
def partition (bintype : UInt8) : List (Nat × Nat) :=
  if bintype = loaderMark then [(loaderAddrOff, numOfLoaderSector)]
  else if bintype = code1Mark then [(code1AddrOff, numOfCode1Sector)]
  else if bintype = code2Mark then [(code2AddrOff, numOfCode2Sector)]
  else if bintype = eepromMark then
    [(defaultAddrOff, numOfDefaultSector), (eepromAddrOff, numOfEepSector)]
  else []

def InPartition (bintype : UInt8) (a : Nat) : Prop :=
  ∃ area ∈ partition bintype, area.1 ≤ a ∧ a < area.1 + 4096 * area.2

/-- Only the partition is touched, and only bytes are programmed whose sector was erased before. -/
structure Safe (bintype : UInt8) (log : List Event) : Prop where
  erases : ∀ addr ok, .erase addr ok ∈ log → ∀ i < 4096, InPartition bintype (addr + i)
  programs : ∀ l addr data ok l', log = l ++ .program addr data ok :: l' → ∀ i < data.length,
    InPartition bintype (addr + i) ∧
      ∃ sect, .erase sect true ∈ l ∧ sect ≤ addr + i ∧ addr + i < sect + 4096

/-- What is done for the image at `p`. -/
def imageLog {σ : Type} (chip : Chip σ) (model : UInt8) (eeprom : EepromData) (ram : Memory)
    (p : Nat) (s : σ) : List Event :=
  if isChain ram p then []
  else
    (programImage chip model eeprom (psCheckImageIntegrity model ram p) p ⟨s, ram⟩).log

/-- Images that stay in their partition whatever the chip does. -/
def Fits (hdr : HeaderVer) : Prop :=
  if hdr.bintype = allflashMark then hdr.next = 1
  else if hdr.bintype = loaderMark then hdr.fileLen.toNat ≤ 4096 * numOfLoaderSector
  else if hdr.bintype = code1Mark then (hdr.fileLen + 256).toNat ≤ 4096 * numOfCode1Sector
  else if hdr.bintype = code2Mark then (hdr.fileLen + 256).toNat ≤ 4096 * numOfCode2Sector
  else False

variable {σ : Type} {chip : Chip σ} {model bintype : UInt8} {eeprom : EepromData}

/-! ## Logs -/

theorem mem_spiFlashErase {e : Event} {sect n : Nat} {s : σ}
    (h : e ∈ (spiFlashErase chip sect n s).log) :
    ∃ j < n, ∃ ok, e = .erase ((sect + j) * 4096) ok := by
  induction n generalizing sect s with
  | zero => cases h
  | succ n ih =>
    rcases Done.mem_andThen h with h | ⟨_, h⟩
    · exact ⟨0, Nat.succ_pos n, _, List.mem_singleton.mp h⟩
    · obtain ⟨j, hj, ok, he⟩ := ih h
      refine ⟨j + 1, Nat.succ_lt_succ hj, ok, ?_⟩
      rw [he, Nat.add_right_comm, Nat.add_assoc]

theorem mem_vEraseFlash {e : Event} {addr n : Nat} {s : σ}
    (h : e ∈ (vEraseFlash chip addr n s).log) :
    ∃ j < n, ∃ ok, e = .erase ((addr / 4096 + j) * 4096) ok := mem_spiFlashErase h

theorem spiFlashErase_all {sect n : Nat} {s : σ} (h : (spiFlashErase chip sect n s).rc = 0) :
    ∀ j < n, .erase ((sect + j) * 4096) true ∈ (spiFlashErase chip sect n s).log := by
  induction n generalizing sect s with
  | zero => exact fun j hj ↦ absurd hj (Nat.not_lt_zero j)
  | succ n ih =>
    unfold spiFlashErase at h ⊢
    by_cases hrc : (sectorErase chip sect s).rc = 0
    · have hok : (chip.sectorErase (sect * 4096) s).1 = true := by
        by_contra hbad
        rw [sectorErase] at hrc
        simp only [hbad] at hrc
        exact absurd hrc (by decide)
      rw [Done.andThen_ok hrc] at h ⊢
      intro j hj
      rw [Done.seq_log, List.mem_append]
      cases j with
      | zero =>
        left
        simp only [sectorErase, hok, Nat.add_zero, List.mem_singleton]
      | succ j =>
        right
        have hj' := ih h j (Nat.lt_of_succ_lt_succ hj)
        rwa [Nat.add_right_comm, Nat.add_assoc] at hj'
    · rw [Done.andThen_error hrc] at h
      exact absurd h hrc

/-- After an erase without error every sector of it was erased. -/
theorem vEraseFlash_all {addr n : Nat} {s : σ} (h : (vEraseFlash chip addr n s).rc = 0) :
    ∀ j < n, .erase ((addr / 4096 + j) * 4096) true ∈ (vEraseFlash chip addr n s).log := by
  refine spiFlashErase_all ?_
  unfold vEraseFlash at h
  by_contra hrc
  simp only [if_neg hrc] at h
  exact absurd h (by decide)

/-- A piece of a stretch. -/
theorem length_piece (src : List UInt8) (k size : Nat) :
    k + ((src.drop k).take size).length ≤ max k src.length := by
  rw [List.length_take, List.length_drop]
  omega

theorem mem_vProgramFlash {e : Event} {src : List UInt8} {dest : Nat} {s : σ}
    (h : e ∈ (vProgramFlash chip dest src s).log) (hfit : dest + src.length ≤ 2 ^ 24) :
    ∃ a data ok, e = .program a data ok ∧ dest ≤ a ∧ a + data.length ≤ dest + src.length := by
  obtain ⟨j, s', hj, he⟩ := mem_inPieces h
  have hlen := length_piece src (256 * j) 256
  have hmod : (dest + 256 * j) % 2 ^ 24 = dest + 256 * j := Nat.mod_eq_of_lt (by omega)
  refine ⟨_, _, _, List.mem_singleton.mp he, ?_, ?_⟩
  · rw [hmod]
    exact Nat.le_add_right _ _
  · rw [hmod]
    omega

theorem mem_programLoop {e : Event} {src : List UInt8} {dest : Nat} {s : σ}
    (h : e ∈ (programLoop chip dest src s).log) (hfit : dest + src.length ≤ 2 ^ 24) :
    ∃ a data ok, e = .program a data ok ∧ dest ≤ a ∧ a + data.length ≤ dest + src.length := by
  obtain ⟨j, s', hj, he⟩ := mem_inPieces h
  have hlen := length_piece src (4096 * j) 4096
  obtain ⟨a, data, ok, rfl, hle, hend⟩ := mem_vProgramFlash he (by omega)
  exact ⟨a, data, ok, rfl, by omega, by omega⟩

/-! ## Safe logs -/

/-- A log that erases first, programs then, and touches nothing afterwards. -/
theorem Safe.of_parts {erases programs rest : List Event}
    (he : ∀ e ∈ erases, ∃ addr ok, e = .erase addr ok ∧ ∀ i < 4096, InPartition bintype (addr + i))
    (hp : ∀ e ∈ programs, ∃ addr data ok, e = .program addr data ok ∧ ∀ i < data.length,
      InPartition bintype (addr + i) ∧
        ∃ sect, .erase sect true ∈ erases ∧ sect ≤ addr + i ∧ addr + i < sect + 4096)
    (hr : ∀ e ∈ rest, ∃ addr length, e = .checksum addr length) :
    Safe bintype (erases ++ (programs ++ rest)) := by
  constructor
  · intro addr ok hmem
    rcases List.mem_append.mp hmem with h | h
    · obtain ⟨_, _, heq, hin⟩ := he _ h
      obtain ⟨rfl, rfl⟩ := Event.erase.inj heq
      exact hin
    rcases List.mem_append.mp h with h | h
    · obtain ⟨_, _, _, heq, _⟩ := hp _ h
      cases heq
    · obtain ⟨_, _, heq⟩ := hr _ h
      cases heq
  · intro l addr data ok l' hsplit i hi
    have hnot : Event.program addr data ok ∉ erases := by
      intro h
      obtain ⟨_, _, heq, _⟩ := he _ h
      cases heq
    -- the erases are in front of the event
    have hpre : ∃ l'', l = erases ++ l'' ∧ programs ++ rest = l'' ++ .program addr data ok :: l' := by
      rcases List.append_eq_append_iff.mp hsplit with ⟨l'', hl, hrest⟩ | ⟨c, hc, hrest⟩
      · exact ⟨l'', hl, hrest⟩
      · cases c with
        | nil => exact ⟨[], by rw [hc, List.append_nil, List.append_nil], hrest.symm⟩
        | cons e c =>
          obtain ⟨rfl, _⟩ := List.cons_eq_cons.mp hrest
          exact absurd (hc ▸ List.mem_append_right l List.mem_cons_self) hnot
    obtain ⟨l'', rfl, hrest⟩ := hpre
    have hmem : Event.program addr data ok ∈ programs ++ rest := by
      rw [hrest]
      exact List.mem_append_right _ List.mem_cons_self
    rcases List.mem_append.mp hmem with h | h
    · obtain ⟨_, _, _, heq, hall⟩ := hp _ h
      obtain ⟨rfl, rfl, rfl⟩ := Event.program.inj heq
      obtain ⟨hin, sect, hsect, hrange⟩ := hall i hi
      exact ⟨hin, sect, List.mem_append_left _ hsect, hrange⟩
    · obtain ⟨_, _, heq⟩ := hr _ h
      cases heq

/-- An area of whole sectors. -/
theorem sector_in_area {start n j i : Nat} (hstart : start % 4096 = 0) (hj : j < n)
    (hi : i < 4096) :
    start ≤ (start / 4096 + j) * 4096 + i ∧
      (start / 4096 + j) * 4096 + i < start + 4096 * n := by
  omega

theorem vEraseFlash_in_area {start n : Nat} (hstart : start % 4096 = 0)
    (harea : (start, n) ∈ partition bintype) {s : σ} :
    ∀ e ∈ (vEraseFlash chip start n s).log,
      ∃ addr ok, e = .erase addr ok ∧ ∀ i < 4096, InPartition bintype (addr + i) := by
  intro e he
  obtain ⟨j, hj, ok, rfl⟩ := mem_vEraseFlash he
  exact ⟨_, ok, rfl, fun i hi ↦ ⟨_, harea, sector_in_area hstart hj hi⟩⟩

/-- What is programmed into an erased area. -/
theorem programmed_in_area {start n a k i : Nat} {s : σ} (hstart : start % 4096 = 0)
    (harea : (start, n) ∈ partition bintype) (hok : (vEraseFlash chip start n s).rc = 0)
    (hfit : k ≤ 4096 * n) (hle : start ≤ a) (hi : a + i < start + k) :
    InPartition bintype (a + i) ∧ ∃ sect, .erase sect true ∈ (vEraseFlash chip start n s).log ∧
      sect ≤ a + i ∧ a + i < sect + 4096 := by
  refine ⟨⟨_, harea, by omega, by omega⟩, _, vEraseFlash_all hok ((a + i) / 4096 - start / 4096)
    (by omega), by omega, by omega⟩

theorem eraseAndProgram_safe {start n p : Nat} {length : UInt32} {b : Box σ} {rest : List Event}
    (hstart : start % 4096 = 0) (harea : (start, n) ∈ partition bintype)
    (hend : start + 4096 * n ≤ 2 ^ 24) (hfit : length.toNat ≤ 4096 * n)
    (hr : ∀ e ∈ rest, ∃ addr length, e = .checksum addr length) :
    Safe bintype ((eraseAndProgram chip start n p length b).log ++ rest) := by
  have hlen : (readMem b.ram p length.toNat).length = length.toNat := length_readMem
  unfold eraseAndProgram Done.onBox
  simp only
  by_cases hok : (vEraseFlash chip start n b.flash).rc = 0
  · rw [Done.andThen_ok hok, Done.seq_log, List.append_assoc]
    refine Safe.of_parts (vEraseFlash_in_area hstart harea) (fun e he ↦ ?_) hr
    obtain ⟨a, data, ok, rfl, hle, hin⟩ := mem_programLoop he (by omega)
    exact ⟨a, data, ok, rfl, fun i hi ↦
      programmed_in_area hstart harea hok hfit hle (by omega)⟩
  · rw [Done.andThen_error hok]
    exact @Safe.of_parts bintype _ [] rest (vEraseFlash_in_area hstart harea)
      (fun _ he ↦ absurd he List.not_mem_nil) hr

/-! ## Overruns -/

/-- A chip that takes every command. -/
def takingChip : Chip Unit := ⟨fun _ _ ↦ (true, ()), fun _ _ _ ↦ (true, ()), fun _ _ ↦ 0⟩

theorem takingChip_takes : takingChip.Takes := ⟨fun _ _ ↦ rfl, fun _ _ _ ↦ rfl⟩

/-- Each of the chunks starts with a page. -/
theorem takingChip_programs {src : List UInt8} {dest j : Nat} {s : Unit}
    (hj : 4096 * j < src.length) :
    ∃ data, data ≠ [] ∧ .program ((dest + 4096 * j) % 2 ^ 24) data true ∈
      (programLoop takingChip dest src s).log := by
  obtain ⟨_, hchunks⟩ := @inPieces_mem Unit 4096 _ takingChip_takes.vProgramFlash (by decide) _ _
    (Nat.le_refl src.length) dest s
  obtain ⟨s', hchunk⟩ := hchunks j hj
  have hpos : 256 * 0 < ((src.drop (4096 * j)).take 4096).length := by
    rw [List.length_take, List.length_drop]
    omega
  obtain ⟨_, hpages⟩ := @inPieces_mem Unit 256 (pageProgram takingChip) (fun _ _ _ ↦ rfl)
    (by decide) _ _ (Nat.le_refl ((src.drop (4096 * j)).take 4096).length) (dest + 4096 * j) s'
  obtain ⟨s'', hpage⟩ := hpages 0 hpos
  refine ⟨_, ?_, hchunk _ (hpage _ (List.mem_singleton.mpr rfl))⟩
  refine List.length_pos_iff.mp ?_
  rw [Nat.mul_zero, List.drop_zero, List.length_take]
  omega

theorem Safe.inPartition {log : List Event} (h : Safe bintype log) {addr : Nat}
    {data : List UInt8} {ok : Bool} (hmem : .program addr data ok ∈ log) (hne : data ≠ []) :
    InPartition bintype addr := by
  obtain ⟨l, l', hlog⟩ := List.append_of_mem hmem
  exact (h.programs l addr data ok l' hlog 0 (List.length_pos_iff.mpr hne)).1

theorem overrun_not_safe {start n p : Nat} {length : UInt32} {b : Box Unit} {rest : List Event}
    (hend : start + 4096 * n < 2 ^ 24) (hover : 4096 * n < length.toNat)
    (hout : ¬ InPartition bintype (start + 4096 * n)) :
    ¬ Safe bintype ((eraseAndProgram takingChip start n p length b).log ++ rest) := by
  intro hsafe
  have hlen : (readMem b.ram p length.toNat).length = length.toNat := length_readMem
  obtain ⟨data, hne, hmem⟩ := @takingChip_programs _ start _
    (vEraseFlash takingChip start n b.flash).state (hlen.symm ▸ hover)
  rw [Nat.mod_eq_of_lt hend] at hmem
  have hmem' : .program (start + 4096 * n) data true ∈
      (eraseAndProgram takingChip start n p length b).log := by
    unfold eraseAndProgram Done.onBox
    simp only
    rw [Done.andThen_ok (takingChip_takes.vEraseFlash _ _ _), Done.seq_log]
    exact List.mem_append_right _ hmem
  exact hout (hsafe.inPartition (List.mem_append_left _ hmem') hne)

/-! ## The images of a type -/

theorem vProgramLoader_log (p : Nat) (length : UInt32) (b : Box σ) :
    (vProgramLoader chip p length b).log =
      (eraseAndProgram chip loaderAddrOff numOfLoaderSector p length b).log ++ [] := rfl

/-- Only checksums follow what is programmed. -/
theorem verifiedTries_log (start n p : Nat) (length : UInt32) (b : Box σ) :
    ∃ rest, (verifiedTries chip model start n p length programMaxRetryTimes 0 b).log =
        (eraseAndProgram chip start n p length b).log ++ rest ∧
      ∀ e ∈ rest, ∃ addr length, e = .checksum addr length := by
  refine ⟨_, rfl, fun e he ↦ ?_⟩
  simp only at he
  split at he
  · rw [Done.seq_log] at he
    rcases List.mem_append.mp he with he | he
    · exact ⟨_, _, List.mem_singleton.mp he⟩
    · split at he
      · cases he
      · cases he
  · cases he

theorem not_inPartition_end {bintype : UInt8} {start n : Nat}
    (h : partition bintype = [(start, n)]) : ¬ InPartition bintype (start + 4096 * n) := by
  rintro ⟨area, harea, _, hlt⟩
  rw [h, List.mem_singleton] at harea
  rw [harea] at hlt
  exact Nat.lt_irrefl _ hlt

variable {ram : Memory} {p n : Nat} {length : UInt32}

/-- A type with one area. -/
theorem area_safe_iff (start q : Nat) (harea : partition bintype = [(start, n)]) (hstart : start % 4096 = 0)
    (hend : start + 4096 * n < 2 ^ 24)
    (hlog : ∀ {σ : Type} (chip : Chip σ) (s : σ), ∃ rest,
      imageLog chip model eeprom ram p s =
          (eraseAndProgram chip start n q length ⟨s, ram⟩).log ++ rest ∧
        ∀ e ∈ rest, ∃ addr length, e = .checksum addr length) :
    (∀ (σ : Type) (chip : Chip σ) (s : σ), Safe bintype (imageLog chip model eeprom ram p s)) ↔
      length.toNat ≤ 4096 * n := by
  constructor
  · intro hsafe
    by_contra hover
    obtain ⟨rest, hrest, _⟩ := hlog takingChip ()
    have h := hsafe Unit takingChip ()
    rw [hrest] at h
    exact overrun_not_safe hend (Nat.lt_of_not_le hover) (not_inPartition_end harea) h
  · intro hfit σ chip s
    obtain ⟨rest, hrest, hr⟩ := hlog chip s
    rw [hrest]
    exact eraseAndProgram_safe hstart (harea ▸ List.mem_singleton_self _) (Nat.le_of_lt hend) hfit
      hr

theorem imageLog_of_offset {chip : Chip σ} {s : σ}
    (h : psCheckImageIntegrity model ram p ≠ maxFlashOff)
    (htype : (header ram p).bintype = bintype) (hne : bintype ≠ allflashMark) :
    imageLog chip model eeprom ram p s =
      (programImage chip model eeprom (typeOffset bintype) p ⟨s, ram⟩).log := by
  have hchain : ¬ isChain ram p := fun hc ↦ hne (htype ▸ hc.1)
  unfold imageLog
  rw [if_neg hchain, psCheckImageIntegrity_eq h, htype]

theorem loader_safe_iff (h : psCheckImageIntegrity model ram p ≠ maxFlashOff)
    (htype : (header ram p).bintype = loaderMark) :
    (∀ (σ : Type) (chip : Chip σ) (s : σ), Safe loaderMark (imageLog chip model eeprom ram p s)) ↔
      (header ram p).fileLen.toNat ≤ 4096 * numOfLoaderSector := by
  refine area_safe_iff loaderAddrOff (p + sizeofHeader) rfl (by decide) (by decide) fun chip s ↦
    ⟨[], ?_, fun _ he ↦ absurd he List.not_mem_nil⟩
  rw [imageLog_of_offset h htype (by decide)]
  exact vProgramLoader_log _ _ _

theorem verified_safe_iff (start : Nat) (harea : partition bintype = [(start, n)])
    (hstart : start % 4096 = 0) (hend : start + 4096 * n < 2 ^ 24)
    (h : psCheckImageIntegrity model ram p ≠ maxFlashOff)
    (htype : (header ram p).bintype = bintype) (hne : bintype ≠ allflashMark)
    (hprog : ∀ {σ : Type} (chip : Chip σ) (s : σ),
      programImage chip model eeprom (typeOffset bintype) p ⟨s, ram⟩ =
        verifiedTries chip model start n p ((header ram p).fileLen + 256) programMaxRetryTimes 0
          ⟨s, ram⟩) :
    (∀ (σ : Type) (chip : Chip σ) (s : σ), Safe bintype (imageLog chip model eeprom ram p s)) ↔
      ((header ram p).fileLen + 256).toNat ≤ 4096 * n := by
  refine area_safe_iff start p harea hstart hend fun chip s ↦ ?_
  obtain ⟨rest, hrest, hr⟩ := @verifiedTries_log _ chip model start n p
    ((header ram p).fileLen + 256) ⟨s, ram⟩
  refine ⟨rest, ?_, hr⟩
  rw [imageLog_of_offset h htype hne, hprog chip s]
  exact hrest

/-- The header of a chain is skipped; without a next image it is programmed as a loader. -/
theorem allflash_safe_iff (htype : (header ram p).bintype = allflashMark)
    (h : psCheckImageIntegrity model ram p ≠ maxFlashOff) :
    (∀ (σ : Type) (chip : Chip σ) (s : σ),
      Safe allflashMark (imageLog chip model eeprom ram p s)) ↔ (header ram p).next = 1 := by
  have hnone (a : Nat) : ¬ InPartition allflashMark a := by
    rintro ⟨area, harea, _⟩
    exact absurd harea List.not_mem_nil
  constructor
  · intro hsafe
    by_contra hnext
    have hchain : ¬ isChain ram p := fun hc ↦ hnext hc.2
    have hlog : imageLog takingChip model eeprom ram p () =
        (eraseAndProgram takingChip loaderAddrOff numOfLoaderSector (p + sizeofHeader)
          (header ram p).fileLen ⟨(), ram⟩).log ++ [] := by
      unfold imageLog
      rw [if_neg hchain, psCheckImageIntegrity_eq h, htype]
      rfl
    have hmem : .erase 0 true ∈ imageLog takingChip model eeprom ram p () := by
      rw [hlog, List.append_nil]
      unfold eraseAndProgram Done.onBox
      simp only
      rw [Done.andThen_ok (takingChip_takes.vEraseFlash _ _ _), Done.seq_log]
      exact List.mem_append_left _ (vEraseFlash_all (takingChip_takes.vEraseFlash _ _ _) 0 (by decide))
    exact hnone _ ((hsafe Unit takingChip ()).erases 0 true hmem 0 (by decide))
  · intro hnext σ chip s
    have hlog : imageLog chip model eeprom ram p s = [] := if_pos ⟨htype, hnext⟩
    rw [hlog]
    exact ⟨fun _ _ he ↦ absurd he List.not_mem_nil, fun l _ _ _ _ hl ↦
      absurd (hl.symm : _ = []) (List.append_ne_nil_of_right_ne_nil l (List.cons_ne_nil _ _))⟩

/-! ## EEPROM images -/

theorem vErase_two {start : Nat} {s : σ} {e : Event} (he : e ∈ (vEraseFlash chip start 2 s).log) :
    ∃ ok, e = .erase (start / 4096 * 4096) ok ∨ e = .erase ((start / 4096 + 1) * 4096) ok := by
  obtain ⟨j, hj, ok, rfl⟩ := mem_vEraseFlash he
  interval_cases j
  · exact ⟨ok, .inl rfl⟩
  · exact ⟨ok, .inr rfl⟩

/-- The first sector of the default area. -/
theorem erase_default_mem_iff {s : σ} :
    .erase defaultAddrOff true ∈ (vEraseFlash chip defaultAddrOff numOfDefaultSector s).log ↔
      (chip.sectorErase defaultAddrOff s).1 = true := by
  have hlog : (vEraseFlash chip defaultAddrOff numOfDefaultSector s).log =
      ((sectorErase chip 0xFC s).andThen (spiFlashErase chip 0xFD 1)).log := rfl
  have hone : Event.erase defaultAddrOff true ∈ (sectorErase chip 0xFC s).log ↔
      (chip.sectorErase defaultAddrOff s).1 = true := by
    change Event.erase defaultAddrOff true ∈
      [Event.erase defaultAddrOff (chip.sectorErase defaultAddrOff s).1] ↔ _
    rw [List.mem_singleton, Event.erase.injEq]
    exact ⟨fun h ↦ h.2.symm, fun h ↦ ⟨rfl, h.symm⟩⟩
  rw [hlog, ← hone]
  constructor
  · intro h
    rcases Done.mem_andThen h with h | ⟨_, h⟩
    · exact h
    · obtain ⟨j, _, ok, he⟩ := mem_spiFlashErase h
      have haddr := (Event.erase.inj he).1
      have hvalue : defaultAddrOff = 0xFC000 := rfl
      omega
  · intro h
    unfold Done.andThen
    split
    · exact List.mem_append_left _ h
    · exact h

theorem mem_eeprom_program {s : σ} {e : Event}
    (he : e ∈ (vProgramFlash chip defaultAddrOff eeprom.bytes s).log) :
    ∃ a data ok, e = .program a data ok ∧ defaultAddrOff ≤ a ∧
      a + data.length ≤ defaultAddrOff + 1408 := by
  have hlen := eeprom.length_eq
  have hfit : defaultAddrOff + eeprom.bytes.length ≤ 2 ^ 24 := by
    rw [hlen]
    decide
  obtain ⟨a, data, ok, heq, hle, hend⟩ := mem_vProgramFlash he hfit
  rw [hlen] at hend
  exact ⟨a, data, ok, heq, hle, hend⟩

theorem eeprom_program_first {s : σ} : ∃ data ok rest, data ≠ [] ∧
    (vProgramFlash chip defaultAddrOff eeprom.bytes s).log =
      .program defaultAddrOff data ok :: rest := by
  have hlen := eeprom.length_eq
  have hne : eeprom.bytes ≠ [] := List.length_pos_iff.mp (by omega)
  have htake : eeprom.bytes.take 256 ≠ [] := List.length_pos_iff.mp (by
    rw [List.length_take]
    omega)
  unfold vProgramFlash writeBuff
  rw [hlen]
  unfold inPieces
  rw [if_neg hne]
  unfold Done.andThen
  split
  · exact ⟨_, _, _, htake, rfl⟩
  · exact ⟨_, _, [], htake, rfl⟩

/-- An image of type EEPROM is programmed into a sector that may not be erased. -/
theorem eeprom_safe_iff (h : psCheckImageIntegrity model ram p ≠ maxFlashOff)
    (htype : (header ram p).bintype = eepromMark) (s : σ) :
    Safe eepromMark (imageLog chip model eeprom ram p s) ↔
      (chip.sectorErase defaultAddrOff s).1 = true ∨
        (vEraseFlash chip eepromAddrOff numOfEepSector
          (vEraseFlash chip defaultAddrOff numOfDefaultSector s).state).rc ≠ 0 := by
  have hlog : imageLog chip model eeprom ram p s = (vEraseFlash chip defaultAddrOff
      numOfDefaultSector s).log ++ ((vEraseFlash chip eepromAddrOff numOfEepSector
        (vEraseFlash chip defaultAddrOff numOfDefaultSector s).state).andThen
          (vProgramFlash chip defaultAddrOff eeprom.bytes)).log := by
    rw [imageLog_of_offset h htype (by decide)]
    rfl
  rw [hlog]
  have hdefault := @vEraseFlash_in_area _ chip eepromMark defaultAddrOff numOfDefaultSector
    (by decide) (by decide) s
  generalize hs : (vEraseFlash chip defaultAddrOff numOfDefaultSector s).state = s'
  have heep := @vEraseFlash_in_area _ chip eepromMark eepromAddrOff numOfEepSector
    (by decide) (by decide) s'
  have herases : ∀ e ∈ (vEraseFlash chip defaultAddrOff numOfDefaultSector s).log ++
      (vEraseFlash chip eepromAddrOff numOfEepSector s').log,
      ∃ addr ok, e = .erase addr ok ∧ ∀ i < 4096, InPartition eepromMark (addr + i) :=
    fun e he ↦ (List.mem_append.mp he).elim (hdefault e) (heep e)
  have hnil : ∀ e ∈ ([] : List Event), ∃ addr length, e = Event.checksum addr length :=
    fun _ he ↦ absurd he List.not_mem_nil
  by_cases hrc : (vEraseFlash chip eepromAddrOff numOfEepSector s').rc = 0
  · rw [Done.andThen_ok hrc, Done.seq_log, ← List.append_assoc]
    generalize (vEraseFlash chip eepromAddrOff numOfEepSector s').state = s''
    constructor
    · intro hsafe
      obtain ⟨data, ok, rest, hne, hfirst⟩ := @eeprom_program_first _ chip eeprom s''
      rw [hfirst] at hsafe
      obtain ⟨_, sect, hsect, hle, hlt⟩ :=
        hsafe.programs _ _ _ _ _ rfl 0 (List.length_pos_iff.mpr hne)
      have hvalue : defaultAddrOff = 0xFC000 := rfl
      rcases List.mem_append.mp hsect with h | h
      · obtain ⟨ok', h0 | h1⟩ := vErase_two h
        · obtain ⟨rfl, rfl⟩ := Event.erase.inj h0
          exact .inl (erase_default_mem_iff.mp h)
        · have haddr := (Event.erase.inj h1).1
          omega
      · obtain ⟨ok', h0 | h1⟩ := vErase_two h
        · have haddr := (Event.erase.inj h0).1
          have heepv : eepromAddrOff = 0xFE000 := rfl
          omega
        · have haddr := (Event.erase.inj h1).1
          have heepv : eepromAddrOff = 0xFE000 := rfl
          omega
    · rintro (hok | hbad)
      · have hparts := @Safe.of_parts eepromMark _
          (vProgramFlash chip defaultAddrOff eeprom.bytes s'').log [] herases (fun e he ↦ ?_) hnil
        · rwa [List.append_nil] at hparts
        obtain ⟨a, data, ok, rfl, hle, hend⟩ := mem_eeprom_program he
        refine ⟨a, data, ok, rfl, fun i hi ↦ ⟨⟨(defaultAddrOff, numOfDefaultSector), by decide,
          Nat.le_trans hle (Nat.le_add_right a i), ?_⟩, defaultAddrOff,
          List.mem_append_left _ (erase_default_mem_iff.mpr hok),
          Nat.le_trans hle (Nat.le_add_right a i), by omega⟩⟩
        have hsectors : numOfDefaultSector = 2 := rfl
        simp only [hsectors]
        omega
      · exact absurd hrc hbad
  · rw [Done.andThen_error hrc]
    refine ⟨fun _ ↦ .inr hrc, fun _ ↦ ?_⟩
    have hparts := @Safe.of_parts eepromMark _ [] [] herases
      (fun _ he ↦ absurd he List.not_mem_nil) hnil
    rwa [List.append_nil, List.append_nil] at hparts

/-- The first sector of the default area cannot be erased. -/
def wornChip : Chip Unit :=
  ⟨fun a _ ↦ (a != defaultAddrOff, ()), fun _ _ _ ↦ (true, ()), fun _ _ ↦ 0⟩

theorem eeprom_not_safe (h : psCheckImageIntegrity model ram p ≠ maxFlashOff)
    (htype : (header ram p).bintype = eepromMark) :
    ¬ Safe eepromMark (imageLog wornChip model eeprom ram p ()) := by
  rw [eeprom_safe_iff h htype]
  rintro (hok | hbad)
  · exact absurd hok (by decide)
  · exact hbad (by decide)

/-! ## Runs -/

theorem imageSafe_iff (h : psCheckImageIntegrity model ram p ≠ maxFlashOff) :
    (∀ (σ : Type) (chip : Chip σ) (s : σ),
      Safe (header ram p).bintype (imageLog chip model eeprom ram p s)) ↔ Fits (header ram p) := by
  have hknown := psCheckImageIntegrity_eq h ▸ h
  unfold Fits
  rcases typeOffset_cases hknown with htype | htype | htype | htype | htype
  · rw [htype]
    exact allflash_safe_iff htype h
  · rw [htype]
    exact loader_safe_iff h htype
  · rw [htype]
    exact verified_safe_iff code1AddrOff rfl (by decide) (by decide) h htype (by decide)
      fun _ _ ↦ rfl
  · rw [htype]
    exact verified_safe_iff code2AddrOff rfl (by decide) (by decide) h htype (by decide)
      fun _ _ ↦ rfl
  · rw [htype]
    exact ⟨fun hsafe ↦ absurd (hsafe Unit wornChip ()) (eeprom_not_safe h htype), False.elim⟩

/-- Which images stay in their partition: the exact condition over all chips, the one for an EEPROM
image on a given chip, and runs. -/
theorem upgrade_in_partition_iff (model : UInt8) (eeprom : EepromData) (ram : Memory) (p : Nat)
    (h : psCheckImageIntegrity model ram p ≠ maxFlashOff) :
    ((∀ (σ : Type) (chip : Chip σ) (s : σ),
        Safe (header ram p).bintype (imageLog chip model eeprom ram p s)) ↔ Fits (header ram p)) ∧
      ((header ram p).bintype = eepromMark → ∀ (σ : Type) (chip : Chip σ) (s : σ),
        (Safe eepromMark (imageLog chip model eeprom ram p s) ↔
          (chip.sectorErase defaultAddrOff s).1 = true ∨
            (vEraseFlash chip eepromAddrOff numOfEepSector
              (vEraseFlash chip defaultAddrOff numOfDefaultSector s).state).rc ≠ 0)) ∧
      ∀ (σ : Type) (chip : Chip σ) (s : σ) (fuel : Nat) (rc : Bool) (b : Box σ)
        (visits : List (Visit σ)),
        apUpgradeFirmware chip model eeprom fuel p ⟨s, ram⟩ = some (rc, b, visits) →
          ∀ v ∈ visits, Fits (header v.before.ram v.pos) →
            Safe (header v.before.ram v.pos).bintype v.done.log := by
  refine ⟨imageSafe_iff h, fun htype σ chip s ↦ eeprom_safe_iff h htype s, ?_⟩
  intro σ chip s fuel rc b visits hrun v hv hfits
  obtain ⟨hok, hchain, hdone⟩ := apUpgradeFirmware_visits hrun v hv
  have hsafe := (@imageSafe_iff model eeprom _ _ hok).mpr hfits σ chip v.before.flash
  have hlog : imageLog chip model eeprom v.before.ram v.pos v.before.flash = v.done.log := by
    rw [hdone]
    exact if_neg hchain
  rwa [hlog] at hsafe

/-- A header that makimage would write for `n` bytes. -/
theorem exists_image (bintype : UInt8) {n : Nat} (hn : n + 252 < 2 ^ 32)
    (hknown : typeOffset bintype ≠ maxFlashOff) :
    ∃ ram, psCheckImageIntegrity 50 ram 0 ≠ maxFlashOff ∧ (header ram 0).bintype = bintype ∧
      (header ram 0).fileLen = UInt32.ofNat n := by
  obtain ⟨_, himage⟩ := setupHeader_isImage ⟨50, 9, 1, 0, 0, 12, [], Nat.zero_le _⟩ bintype 0
    (fun _ ↦ 0xFF) 0 hn
  exact ⟨_, himage.psCheckImageIntegrity hn ▸ hknown, himage.type, himage.fileLen⟩

theorem upgrade_in_partition_small : ∃ ram, psCheckImageIntegrity 50 ram 0 ≠ maxFlashOff ∧
    ∀ (σ : Type) (chip : Chip σ) (s : σ),
      Safe (header ram 0).bintype
        (imageLog chip 50 ⟨List.replicate 1408 0, List.length_replicate⟩ ram 0 s) := by
  obtain ⟨ram, hok, htype, hlen⟩ := exists_image code1Mark (n := 3) (by decide) (by decide)
  refine ⟨ram, hok, (upgrade_in_partition_iff 50 _ ram 0 hok).1.mpr ?_⟩
  unfold Fits
  rw [htype, hlen, if_neg (by decide), if_neg (by decide), if_pos rfl]
  decide

/-- 0x20000 bytes of code1 and their header need a sector more than there is. -/
theorem code1_overruns : ∃ ram, psCheckImageIntegrity 50 ram 0 ≠ maxFlashOff ∧
    (header ram 0).bintype = code1Mark ∧ (header ram 0).fileLen = 0x20000 ∧
    ¬ ∀ (σ : Type) (chip : Chip σ) (s : σ), Safe (header ram 0).bintype
      (imageLog chip 50 ⟨List.replicate 1408 0, List.length_replicate⟩ ram 0 s) := by
  obtain ⟨ram, hok, htype, hlen⟩ := exists_image code1Mark (n := 0x20000) (by decide) (by decide)
  refine ⟨ram, hok, htype, hlen, fun hsafe ↦ ?_⟩
  have hfits := (imageSafe_iff hok).mp hsafe
  unfold Fits at hfits
  rw [htype, hlen, if_neg (by decide), if_neg (by decide), if_pos rfl] at hfits
  exact absurd hfits (by decide)

end PrintServer.Flash
