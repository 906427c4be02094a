import PrintServer.Flash.Upgrade

/-!
# The configuration store

The `ReadFrom` and `WriteTo` functions of rwflash.c over a chip that does what its data sheet says
whenever it takes a command: a sector is erased to 0xFF, and a page program starts over at the end
of its page of 256 bytes.
-/

namespace PrintServer.Flash

open Lib

/-! ## The chip -/

/-- The bytes of one page program, which latches them one after another. -/
def storePage (flash : Memory) : Nat → List UInt8 → Memory
  | _, [] => flash
  | a, b :: bs => storePage (writeMem flash a [b]) (a / 256 * 256 + (a + 1) % 256) bs

/-- What commands do that the chip took.  Only erased bytes need to take what is programmed. -/
structure Chip.Stores {σ : Type} (chip : Chip σ) : Prop where
  erase : ∀ a s, (chip.sectorErase a s).1 = true → ∀ i,
    chip.read (chip.sectorErase a s).2 i = if i / 4096 = a / 4096 then 0xFF else chip.read s i
  program : ∀ a data s, (chip.pageProgram a data s).1 = true → ∀ i,
    (storePage (chip.read s) a data i ≠ chip.read s i → chip.read s i = 0xFF) →
      chip.read (chip.pageProgram a data s).2 i = storePage (chip.read s) a data i

/-- A page program that stays in its page. -/
theorem storePage_eq {flash : Memory} {a : Nat} {data : List UInt8}
    (h : a % 256 + data.length ≤ 256) : storePage flash a data = writeMem flash a data := by
  induction data generalizing a flash with
  | nil => exact writeMem_nil.symm
  | cons b bs ih =>
      rw [List.length_cons] at h
      rw [storePage]
      by_cases hnil : bs = []
      · rw [hnil]
        rfl
      · have hpos := List.length_pos_iff.mpr hnil
        have hnext : a / 256 * 256 + (a + 1) % 256 = a + 1 := by omega
        have happ := @writeMem_append _ flash a [b] bs
        rw [hnext, ih (by omega)]
        exact happ

variable {σ : Type} {chip : Chip σ}

theorem Done.andThen_eq_zero {α : Type} {d : Done α} {f : α → Done α}
    (h : (d.andThen f).rc = 0) :
    d.rc = 0 ∧ (f d.state).rc = 0 ∧ (d.andThen f).state = (f d.state).state := by
  by_cases hrc : d.rc = 0
  · rw [Done.andThen_ok hrc] at h ⊢
    exact ⟨hrc, h, rfl⟩
  · rw [Done.andThen_error hrc] at h
    exact absurd h hrc

/-- Pieces that fill erased stretches, one behind the other, fill the whole. -/
theorem read_inPieces {size align : Nat} {write : Nat → List UInt8 → σ → Done σ}
    (hsize : 0 < size) (halign : size % align = 0)
    (hwrite : ∀ dest data s, dest % align = 0 → data ≠ [] → data.length ≤ size →
      dest + data.length ≤ 16777216 →
      (∀ i, dest ≤ i → i < dest + data.length → chip.read s i = 0xFF) →
      (write dest data s).rc = 0 →
      chip.read (write dest data s).state = writeMem (chip.read s) dest data)
    {fuel dest : Nat} {src : List UInt8} {s : σ} (hfuel : src.length ≤ fuel)
    (hdest : dest % align = 0) (hfit : dest + src.length ≤ 16777216)
    (herased : ∀ i, dest ≤ i → i < dest + src.length → chip.read s i = 0xFF)
    (hrc : (inPieces size write fuel src dest s).rc = 0) :
    chip.read (inPieces size write fuel src dest s).state = writeMem (chip.read s) dest src := by
  induction fuel generalizing dest src s with
  | zero =>
      rw [List.length_eq_zero_iff.mp (Nat.le_zero.mp hfuel), writeMem_nil]
      rfl
  | succ fuel ih =>
      rw [inPieces] at hrc ⊢
      by_cases hnil : src = []
      · rw [if_pos hnil, hnil, writeMem_nil]
      · rw [if_neg hnil] at hrc ⊢
        have hpos := List.length_pos_iff.mpr hnil
        have hlen : (src.take size).length = min size src.length := List.length_take
        have hdrop : (src.drop size).length = src.length - size := List.length_drop
        have hpiece : src.take size ≠ [] := by
          apply List.ne_nil_of_length_pos
          omega
        obtain ⟨hfirst, hrest, hstate⟩ := Done.andThen_eq_zero hrc
        have hfilled := hwrite dest (src.take size) s hdest hpiece (by omega) (by omega)
          (fun i hlo hhi ↦ herased i hlo (by omega)) hfirst
        by_cases hlast : src.length ≤ size
        · -- the last piece
          have hend : src.drop size = [] := List.drop_eq_nil_of_le hlast
          have hall : src.take size = src := List.take_of_length_le hlast
          rw [hstate, hend]
          rw [hall] at hfilled ⊢
          cases fuel with
          | zero => exact hfilled
          | succ fuel => exact hfilled
        · -- the stretch behind the piece is still erased
          have hbehind : ∀ i, dest + size ≤ i → i < dest + size + (src.drop size).length →
              chip.read (write dest (src.take size) s).state i = 0xFF := by
            intro i hlo hhi
            rw [hfilled, writeMem_of_ge (by omega)]
            exact herased i (by omega) (by omega)
          have haligned : (dest + size) % align = 0 := by
            rw [Nat.add_mod, hdest, halign, Nat.add_zero, Nat.zero_mod]
          have htail := ih (by omega) haligned (by omega) hbehind hrest
          have happ := @writeMem_append _ (chip.read s) dest (src.take size) (src.drop size)
          rw [hlen, Nat.min_eq_left (by omega), List.take_append_drop] at happ
          rw [hstate, htail, hfilled, happ]

namespace Chip.Stores

theorem sectorErase (h : chip.Stores) {sect : Nat} {s : σ}
    (hrc : (Flash.sectorErase chip sect s).rc = 0) (i : Nat) :
    chip.read (Flash.sectorErase chip sect s).state i =
      if sect * 4096 ≤ i ∧ i < (sect + 1) * 4096 then 0xFF else chip.read s i := by
  have hok : (chip.sectorErase (sect * 4096) s).1 = true := by
    by_contra hno
    have : (Flash.sectorErase chip sect s).rc = errProgError := if_neg hno
    rw [this] at hrc
    exact absurd hrc (by decide)
  have hsame : i / 4096 = sect * 4096 / 4096 ↔ sect * 4096 ≤ i ∧ i < (sect + 1) * 4096 := by omega
  show chip.read (chip.sectorErase (sect * 4096) s).2 i = _
  rw [h.erase _ s hok i]
  exact if_congr hsame rfl rfl

theorem spiFlashErase (h : chip.Stores) {sect n : Nat} {s : σ}
    (hrc : (Flash.spiFlashErase chip sect n s).rc = 0) (i : Nat) :
    chip.read (Flash.spiFlashErase chip sect n s).state i =
      if sect * 4096 ≤ i ∧ i < (sect + n) * 4096 then 0xFF else chip.read s i := by
  induction n generalizing sect s with
  | zero =>
      have hnone : ¬ (sect * 4096 ≤ i ∧ i < (sect + 0) * 4096) := by
        rw [Nat.add_zero]
        exact fun hi ↦ Nat.not_lt.mpr hi.1 hi.2
      rw [if_neg hnone]
      rfl
  | succ n ih =>
      rw [Flash.spiFlashErase] at hrc ⊢
      obtain ⟨hfirst, hrest, hstate⟩ := Done.andThen_eq_zero hrc
      have hsplit : (sect * 4096 ≤ i ∧ i < (sect + (n + 1)) * 4096) ↔
          ((sect + 1) * 4096 ≤ i ∧ i < (sect + 1 + n) * 4096) ∨
            (sect * 4096 ≤ i ∧ i < (sect + 1) * 4096) := by
        clear hrc hfirst hrest hstate
        omega
      rw [hstate, ih hrest, h.sectorErase hfirst]
      by_cases hrest' : (sect + 1) * 4096 ≤ i ∧ i < (sect + 1 + n) * 4096
      · rw [if_pos hrest', if_pos (hsplit.mpr (Or.inl hrest'))]
      · rw [if_neg hrest']
        exact if_congr (by rw [hsplit, or_iff_right hrest']) rfl rfl

/-- An area of whole sectors is erased, and nothing else is changed. -/
theorem vEraseFlash (h : chip.Stores) {addr n : Nat} {s : σ} (haddr : addr % 4096 = 0)
    (hrc : (Flash.vEraseFlash chip addr n s).rc = 0) (i : Nat) :
    chip.read (Flash.vEraseFlash chip addr n s).state i =
      if addr ≤ i ∧ i < addr + 4096 * n then 0xFF else chip.read s i := by
  have hrc' : (Flash.spiFlashErase chip (addr / 4096) n s).rc = 0 := by
    by_contra hne
    have : (Flash.vEraseFlash chip addr n s).rc = -1 := if_neg hne
    rw [this] at hrc
    exact absurd hrc (by decide)
  have harea : addr / 4096 * 4096 ≤ i ∧ i < (addr / 4096 + n) * 4096 ↔
      addr ≤ i ∧ i < addr + 4096 * n := by omega
  exact (h.spiFlashErase hrc' i).trans (if_congr harea rfl rfl)

theorem pageProgram (h : chip.Stores) {dest : Nat} {data : List UInt8} {s : σ}
    (hdest : dest < 16777216) (hpage : dest % 256 + data.length ≤ 256)
    (herased : ∀ i, dest ≤ i → i < dest + data.length → chip.read s i = 0xFF)
    (hrc : (Flash.pageProgram chip dest data s).rc = 0) :
    chip.read (Flash.pageProgram chip dest data s).state = writeMem (chip.read s) dest data := by
  have hmod : dest % 2 ^ 24 = dest := Nat.mod_eq_of_lt hdest
  have hok : (chip.pageProgram dest data s).1 = true := by
    by_contra hno
    have : (Flash.pageProgram chip dest data s).rc = errProgError := by
      unfold Flash.pageProgram
      rw [hmod]
      exact if_neg hno
    rw [this] at hrc
    exact absurd hrc (by decide)
  have hstate : (Flash.pageProgram chip dest data s).state = (chip.pageProgram dest data s).2 := by
    unfold Flash.pageProgram
    rw [hmod]
  funext i
  rw [hstate, ← storePage_eq hpage]
  apply h.program dest data s hok
  intro hne
  rw [storePage_eq hpage] at hne
  apply herased
  · exact Nat.le_of_not_lt fun hlt ↦ hne (writeMem_of_lt hlt)
  · exact Nat.lt_of_not_le fun hge ↦ hne (writeMem_of_ge hge)

/-- The pages of one `vProgramFlash` fill an erased stretch. -/
theorem vProgramFlash (h : chip.Stores) {dest : Nat} {data : List UInt8} {s : σ}
    (hdest : dest % 256 = 0) (hfit : dest + data.length ≤ 16777216)
    (herased : ∀ i, dest ≤ i → i < dest + data.length → chip.read s i = 0xFF)
    (hrc : (Flash.vProgramFlash chip dest data s).rc = 0) :
    chip.read (Flash.vProgramFlash chip dest data s).state = writeMem (chip.read s) dest data := by
  refine read_inPieces (by decide) (Nat.mod_self 256) ?_ (Nat.le_refl _) hdest hfit herased hrc
  intro dest data s hdest hne hlength hfit herased hrc
  have hpos := List.length_pos_iff.mpr hne
  exact h.pageProgram (by omega) (by omega) herased hrc

end Chip.Stores

/-! ## The three areas -/

def qc0DefAddrOff : Nat := 0x000FA000
def numOfQC0DefaultSector : Nat := 2

/-- The bytes of "ZOT", with the NUL that ends it for `strcmp`. -/
def zot : List UInt8 := [0x5A, 0x4F, 0x54, 0x00]

/-- `read_flash` of `sizeof(EEPROM)` bytes. -/
def romData (addr : Nat) (flash : Memory) : EepromData :=
  ⟨readFlash flash addr 1408, length_readMem.trans (by decide)⟩

/-- The checksum in a record is that of the bytes before it. -/
def EepromData.crcOk (e : EepromData) : Prop :=
  e.dword Eeprom.checkSum2 = crc32 (e.get Eeprom.beforeCheckSum2)

instance (e : EepromData) : Decidable e.crcOk := inferInstanceAs (Decidable (_ = _))

def readFromArea (addr : Nat) (flash : Memory) : Int × EepromData :=
  let romData := romData addr flash
  let rc := if romData.crcOk then 0 else 1
  (if romData.get Eeprom.zotMark ≠ zot then 1 else rc, romData)

def readFromFlash : Memory → Int × EepromData := readFromArea eepromAddrOff
def readFromDefault : Memory → Int × EepromData := readFromArea defaultAddrOff
def readFromQC0_Default : Memory → Int × EepromData := readFromArea qc0DefAddrOff

/-- A record with its count of writes and its checksum, as it is programmed. -/
def sealRecord (e : EepromData) : EepromData :=
  let e := e.putDword Eeprom.eepromWriteCount (e.dword Eeprom.eepromWriteCount + 1)
  let e := e.put Eeprom.checkSum2 [0, 0, 0, 0]
  e.putDword Eeprom.checkSum2 (crc32 (e.get Eeprom.beforeCheckSum2))

/-- The `WriteTo` functions; the record in memory is `sealRecord romData` afterwards, or `romData`
if it has no mark. -/
def writeToArea (chip : Chip σ) (addr nsectors : Nat) (romData : EepromData) (s : σ) : Done σ :=
  if romData.get Eeprom.zotMark ≠ zot then ⟨1, s, []⟩
  else
    (vEraseFlash chip addr nsectors s).andThen
      (vProgramFlash chip addr (sealRecord romData).bytes)

def writeToFlash (chip : Chip σ) : EepromData → σ → Done σ :=
  writeToArea chip eepromAddrOff numOfEepSector

def writeToDefault (chip : Chip σ) : EepromData → σ → Done σ :=
  writeToArea chip defaultAddrOff numOfDefaultSector

/-- The only one that reads back what it wrote. -/
def writeToQC0_Default (chip : Chip σ) (romData : EepromData) (s : σ) : Done σ :=
  (writeToArea chip qc0DefAddrOff numOfQC0DefaultSector romData s).andThen fun s ↦
    ⟨if (readFromQC0_Default (chip.read s)).1 ≠ 0 then 1 else 0, s, []⟩

inductive Area
  | flash
  | default
  | qc0Default
deriving DecidableEq

def Area.readFrom : Area → Memory → Int × EepromData
  | .flash => readFromFlash
  | .default => readFromDefault
  | .qc0Default => readFromQC0_Default

def Area.writeTo (chip : Chip σ) : Area → EepromData → σ → Done σ
  | .flash => writeToFlash chip
  | .default => writeToDefault chip
  | .qc0Default => writeToQC0_Default chip

/-! ## Records -/

/-- The same record but for its count of writes and its checksum. -/
structure Rewritten (e e' : EepromData) : Prop where
  eepromWriteCount :
    e'.dword Eeprom.eepromWriteCount = e.dword Eeprom.eepromWriteCount + 1
  other : ∀ i < 1408, (i < 851 ∨ 855 ≤ i) → i < 1404 → e'.mem i = e.mem i

variable {e : EepromData} {addr n : Nat} {flash : Memory} {s : σ}

theorem sealRecord_crcOk (e : EepromData) : (sealRecord e).crcOk := by
  unfold EepromData.crcOk sealRecord
  rw [EepromData.dword_putDword (by decide)]
  apply congrArg crc32
  exact (EepromData.get_put_of_disjoint (by decide) (Or.inl (by decide))).symm

theorem sealRecord_rewritten (e : EepromData) : Rewritten e (sealRecord e) := by
  constructor
  · unfold sealRecord
    rw [EepromData.putDword, EepromData.dword_put_of_disjoint (by decide) (Or.inl (by decide)),
      EepromData.dword_put_of_disjoint (by decide) (Or.inl (by decide)),
      EepromData.dword_putDword (by decide)]
  · intro i hi hcount hcrc
    have hlt : i < Eeprom.checkSum2.offset := hcrc
    unfold sealRecord EepromData.putDword
    rw [EepromData.mem_put hi, writeMem_of_lt hlt, EepromData.mem_put hi, writeMem_of_lt hlt,
      EepromData.mem_put hi]
    rcases hcount with hbefore | hbehind
    · exact writeMem_of_lt hbefore
    · exact writeMem_of_ge hbehind

/-- A field that has none of the rewritten bytes. -/
theorem Rewritten.get {e e' : EepromData} {f : Field} (h : Rewritten e e')
    (hf : f.offset + f.size ≤ 851 ∨ 855 ≤ f.offset ∧ f.offset + f.size ≤ 1404) :
    e'.get f = e.get f := by
  unfold EepromData.get
  apply readMem_congr
  intro i hlo hhi
  exact h.other i (by omega) (by omega) (by omega)

theorem bytes_romData : (romData addr flash).bytes = readFlash flash addr 1408 := by
  rw [romData]

theorem readFromArea_snd : (readFromArea addr flash).2 = romData addr flash := by
  rw [readFromArea]

theorem readFromArea_eq_zero_iff : (readFromArea addr flash).1 = 0 ↔
    (romData addr flash).get Eeprom.zotMark = zot ∧ (romData addr flash).crcOk := by
  unfold readFromArea
  by_cases hmark : (romData addr flash).get Eeprom.zotMark = zot
  · by_cases hcrc : (romData addr flash).crcOk <;> simp [hmark, hcrc]
  · simp [hmark]

/-- What the reader makes of a record in the flash. -/
theorem romData_eq (hfit : addr + 1408 ≤ 16777216)
    (h : ∀ i < 1408, flash (addr + i) = e.mem i) : romData addr flash = e := by
  apply EepromData.ext
  rw [bytes_romData, readFlash_eq (show (1408 : UInt32).toNat = 1408 from rfl) (by decide) hfit,
    ← EepromData.readMem_mem e]
  apply readMem_shift
  intro i hi
  rw [Nat.zero_add]
  exact h i hi

theorem writeMem_bytes {i : Nat} (hi : i < 1408) :
    writeMem flash addr e.bytes (addr + i) = e.mem i := by
  have hlt : i < e.bytes.length := by rwa [e.length_eq]
  rw [writeMem_add hlt]
  unfold EepromData.mem
  rw [List.getD_eq_getElem?_getD, List.getElem?_eq_getElem hlt, Option.getD_some]

/-! ## Writing and reading -/

/-- A write that succeeds erases its area and leaves the record at its start. -/
theorem Chip.Stores.read_writeToArea (h : chip.Stores) (haddr : addr % 4096 = 0)
    (hfit : addr + 4096 * n ≤ 16777216) (hn : 0 < n)
    (hrc : (Flash.writeToArea chip addr n e s).rc = 0) :
    chip.read (Flash.writeToArea chip addr n e s).state =
      writeMem (fun i ↦ if addr ≤ i ∧ i < addr + 4096 * n then 0xFF else chip.read s i) addr
        (sealRecord e).bytes := by
  have hmark : e.get Eeprom.zotMark = zot := by
    by_contra hne
    have : (Flash.writeToArea chip addr n e s).rc = 1 := by
      unfold Flash.writeToArea
      rw [if_pos hne]
    rw [this] at hrc
    exact absurd hrc (by decide)
  have hlen := (sealRecord e).length_eq
  unfold Flash.writeToArea at hrc ⊢
  rw [if_neg (not_not.mpr hmark)] at hrc ⊢
  obtain ⟨herase, hprogram, hstate⟩ := Done.andThen_eq_zero hrc
  have hblank := funext (h.vEraseFlash haddr herase)
  have herased : ∀ i, addr ≤ i → i < addr + (sealRecord e).bytes.length →
      chip.read (Flash.vEraseFlash chip addr n s).state i = 0xFF := by
    intro i hlo hhi
    rw [hblank]
    exact if_pos ⟨hlo, by omega⟩
  rw [hstate, h.vProgramFlash (by omega) (by omega) herased hprogram, hblank]

/-- The record is in its area. -/
theorem Chip.Stores.writeToArea (h : chip.Stores) (haddr : addr % 4096 = 0)
    (hfit : addr + 4096 * n ≤ 16777216) (hn : 0 < n)
    (hrc : (Flash.writeToArea chip addr n e s).rc = 0) :
    romData addr (chip.read (Flash.writeToArea chip addr n e s).state) = sealRecord e := by
  apply romData_eq (by omega)
  intro i hi
  rw [h.read_writeToArea haddr hfit hn hrc]
  exact writeMem_bytes hi

/-- Nothing outside the area is changed. -/
theorem Chip.Stores.writeToArea_frame (h : chip.Stores) (haddr : addr % 4096 = 0)
    (hfit : addr + 4096 * n ≤ 16777216) (hn : 0 < n)
    (hrc : (Flash.writeToArea chip addr n e s).rc = 0) {i : Nat}
    (hi : i < addr ∨ addr + 4096 * n ≤ i) :
    chip.read (Flash.writeToArea chip addr n e s).state i = chip.read s i := by
  have hlen := (sealRecord e).length_eq
  have hout : ¬ (addr ≤ i ∧ i < addr + 4096 * n) := by omega
  rw [h.read_writeToArea haddr hfit hn hrc]
  rcases hi with hbefore | hbehind
  · rw [writeMem_of_lt hbefore]
    exact if_neg hout
  · rw [writeMem_of_ge (by omega)]
    exact if_neg hout

/-- For each of the three areas, a write that succeeds is read back, and a read that succeeds has
found a record with its mark and its checksum. -/
theorem config_store_round_trip (chip : Chip σ) (h : chip.Stores) (a : Area) :
    (∀ (e : EepromData) (s : σ), e.get Eeprom.zotMark = zot → (a.writeTo chip e s).rc = 0 →
      ∃ r, a.readFrom (chip.read (a.writeTo chip e s).state) = (0, r) ∧ Rewritten e r) ∧
    ∀ flash, (a.readFrom flash).1 = 0 →
      (a.readFrom flash).2.get Eeprom.zotMark = zot ∧ (a.readFrom flash).2.crcOk := by
  have hread (addr : Nat) (flash : Memory) (hrc : (readFromArea addr flash).1 = 0) :
      (readFromArea addr flash).2.get Eeprom.zotMark = zot ∧
        (readFromArea addr flash).2.crcOk := by
    rw [readFromArea_snd]
    exact readFromArea_eq_zero_iff.mp hrc
  have hwrite {addr n : Nat} (haddr : addr % 4096 = 0) (hfit : addr + 4096 * n ≤ 16777216)
      (hn : 0 < n) (e : EepromData) (s : σ) (hmark : e.get Eeprom.zotMark = zot)
      (hrc : (writeToArea chip addr n e s).rc = 0) :
      ∃ r, readFromArea addr (chip.read (writeToArea chip addr n e s).state) = (0, r) ∧
        Rewritten e r := by
    have hrom := h.writeToArea haddr hfit hn hrc
    have hsame := sealRecord_rewritten e
    have hmark' : (sealRecord e).get Eeprom.zotMark = zot := by
      rw [hsame.get (Or.inl (by decide)), hmark]
    refine ⟨sealRecord e, ?_, hsame⟩
    apply Prod.ext
    · apply readFromArea_eq_zero_iff.mpr
      rw [hrom]
      exact ⟨hmark', sealRecord_crcOk e⟩
    · rw [readFromArea_snd, hrom]
  cases a with
  | flash => exact ⟨hwrite (by decide) (by decide) (by decide), hread _⟩
  | default => exact ⟨hwrite (by decide) (by decide) (by decide), hread _⟩
  | qc0Default =>
      refine ⟨fun e s hmark hrc ↦ ?_, hread _⟩
      -- the flash is as it was when it was read back
      obtain ⟨hfirst, -, hstate⟩ := Done.andThen_eq_zero hrc
      have hsame := @hwrite qc0DefAddrOff numOfQC0DefaultSector (by decide) (by decide) (by decide)
        e s hmark hfirst
      show ∃ r, readFromArea qc0DefAddrOff (chip.read (writeToQC0_Default chip e s).state) =
        (0, r) ∧ Rewritten e r
      unfold writeToQC0_Default
      rw [hstate]
      exact hsame

/-- A chip that programs whole pages. -/
def pageChip : Chip Memory where
  sectorErase a flash := (true, fun i ↦ if i / 4096 = a / 4096 then 0xFF else flash i)
  pageProgram a data flash := (true, storePage flash a data)
  read flash := flash

theorem pageChip_stores : pageChip.Stores := ⟨fun _ _ _ _ ↦ rfl, fun _ _ _ _ _ _ ↦ rfl⟩

theorem pageChip_takes : pageChip.Takes := ⟨fun _ _ ↦ rfl, fun _ _ _ ↦ rfl⟩

theorem writeToArea_rc {chip : Chip σ} (h : chip.Takes) (hmark : e.get Eeprom.zotMark = zot) :
    (writeToArea chip addr n e s).rc = 0 := by
  unfold writeToArea
  rw [if_neg (not_not.mpr hmark), Done.andThen_ok (h.vEraseFlash addr n s), Done.seq_rc]
  exact h.vProgramFlash addr _ _

/-- A record with nothing but its mark. -/
def zotRecord : EepromData := .ofMemory fun i ↦ zot.getD i 0

theorem zotRecord_mark : zotRecord.get Eeprom.zotMark = zot := by
  unfold zotRecord
  rw [EepromData.get_ofMemory (by decide)]
  decide

theorem config_store_round_trip_zot :
    ∃ r, Area.flash.readFrom (pageChip.read
      (Area.flash.writeTo pageChip zotRecord fun _ ↦ 0).state) = (0, r) ∧ Rewritten zotRecord r := by
  apply (config_store_round_trip pageChip pageChip_stores .flash).1
  · exact zotRecord_mark
  · show (writeToArea pageChip eepromAddrOff numOfEepSector zotRecord fun _ ↦ 0).rc = 0
    exact writeToArea_rc pageChip_takes zotRecord_mark

end PrintServer.Flash
