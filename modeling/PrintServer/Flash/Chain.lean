import Mathlib.Data.List.Forall2
import PrintServer.Flash.Verified

/-!
# A chain of images

What an upgrade makes of the images behind an ALLFLASH header, on a chip that works.  The header of
an image is read again after its flash was read back over the start of the buffer.
-/

namespace PrintServer.Flash

open Lib

/-! ## A chip that works -/

def eraseBytes (flash : Memory) (a n : Nat) : Memory :=
  fun i ↦ if a ≤ i ∧ i < a + n then 0xFF else flash i

/-- Programming only clears bits. -/
def programBytes (flash : Memory) (a : Nat) (data : List UInt8) : Memory :=
  fun i ↦ if i < a then flash i else flash i &&& data.getD (i - a) 0xFF

/-- Pages that start on a page boundary, as the driver writes them. -/
def workingChip : Chip Memory where
  sectorErase a flash := (true, eraseBytes flash a 4096)
  pageProgram a data flash := (true, programBytes flash a data)
  read flash := flash

theorem workingChip_takes : workingChip.Takes := ⟨fun _ _ ↦ rfl, fun _ _ _ ↦ rfl⟩

/-- Bytes from an address on. -/
def placed : Nat → List UInt8 → List (Nat × UInt8)
  | _, [] => []
  | a, b :: bs => (a, b) :: placed (a + 1) bs

/-- The bytes that a command programs. -/
def Event.written : Event → List (Nat × UInt8)
  | .program a data true => placed a data
  | _ => []

def written (log : List Event) : List (Nat × UInt8) := log.flatMap Event.written

variable {flash : Memory} {a n i : Nat} {data : List UInt8}

theorem placed_append (xs ys : List UInt8) :
    placed a (xs ++ ys) = placed a xs ++ placed (a + xs.length) ys := by
  induction xs generalizing a with
  | nil => rfl
  | cons x xs ih =>
    rw [List.cons_append, placed, ih, placed, List.cons_append, List.length_cons, Nat.add_assoc,
      Nat.add_comm 1]

theorem placed_injective {xs ys : List UInt8} (h : placed a xs = placed a ys) : xs = ys := by
  induction xs generalizing a ys with
  | nil =>
    cases ys with
    | nil => rfl
    | cons y ys => cases h
  | cons x xs ih =>
    cases ys with
    | nil => cases h
    | cons y ys =>
      obtain ⟨hxy, htail⟩ := List.cons_eq_cons.mp h
      rw [(Prod.mk.inj hxy).2, ih htail]

theorem written_append (l l' : List Event) : written (l ++ l') = written l ++ written l' :=
  List.flatMap_append

theorem written_of_none {l : List Event} (h : ∀ e ∈ l, e.written = []) : written l = [] :=
  List.flatMap_eq_nil_iff.mpr h

theorem eraseBytes_zero : eraseBytes flash a 0 = flash := by
  funext i
  exact if_neg (by omega)

theorem eraseBytes_add (m : Nat) :
    eraseBytes (eraseBytes flash a m) (a + m) n = eraseBytes flash a (m + n) := by
  funext i
  unfold eraseBytes
  by_cases h1 : a ≤ i ∧ i < a + m
  · rw [if_neg (by omega), if_pos h1, if_pos (by omega)]
  · by_cases h2 : a + m ≤ i ∧ i < a + m + n
    · rw [if_pos h2, if_pos (by omega)]
    · rw [if_neg h2, if_neg h1, if_neg (by omega)]

theorem programBytes_nil : programBytes flash a [] = flash := by
  funext i
  unfold programBytes
  split
  · rfl
  · rw [List.getD_nil]
    exact UInt8.and_neg_one

theorem programBytes_of_ge (h : a + data.length ≤ i) : programBytes flash a data i = flash i := by
  unfold programBytes
  rw [if_neg (by omega), List.getD_eq_default _ _ (by omega)]
  exact UInt8.and_neg_one

theorem programBytes_append (xs ys : List UInt8) :
    programBytes (programBytes flash a xs) (a + xs.length) ys =
      programBytes flash a (xs ++ ys) := by
  funext i
  by_cases h1 : i < a + xs.length
  · have hl : programBytes (programBytes flash a xs) (a + xs.length) ys i =
        programBytes flash a xs i := if_pos h1
    rw [hl]
    unfold programBytes
    split
    · rfl
    · rw [List.getD_append _ _ _ _ (by omega)]
  · have hr : programBytes flash a (xs ++ ys) i =
        flash i &&& ys.getD (i - (a + xs.length)) 0xFF := by
      unfold programBytes
      rw [if_neg (by omega), List.getD_append_right _ _ _ _ (by omega), Nat.sub_sub]
    rw [hr, ← @programBytes_of_ge flash a i xs (Nat.le_of_not_lt h1)]
    exact if_neg h1

/-- In an erased area the bytes are what was programmed. -/
theorem programBytes_erased {m : Nat} (hi : i < data.length) (hm : i < m) :
    programBytes (eraseBytes flash a m) a data (a + i) = data[i] := by
  unfold programBytes eraseBytes
  rw [if_neg (by omega), if_pos (by omega), Nat.add_sub_cancel_left,
    List.getD_eq_getElem _ _ hi]
  exact UInt8.neg_one_and

theorem workingChip_spiFlashErase (sect n : Nat) (flash : Memory) :
    (spiFlashErase workingChip sect n flash).state =
      eraseBytes flash (sect * 4096) (4096 * n) := by
  induction n generalizing sect flash with
  | zero => exact eraseBytes_zero.symm
  | succ n ih =>
    unfold spiFlashErase
    rw [Done.andThen_ok (workingChip_takes.sectorErase sect flash), Done.seq_state, ih]
    have hnext : (sect + 1) * 4096 = sect * 4096 + 4096 := Nat.succ_mul sect 4096
    have hall : 4096 * (n + 1) = 4096 + 4096 * n := by omega
    rw [hnext, hall, ← eraseBytes_add]
    rfl

theorem workingChip_vErase {start : Nat} (hstart : start % 4096 = 0) (n : Nat) (flash : Memory) :
    (vEraseFlash workingChip start n flash).state = eraseBytes flash start (4096 * n) := by
  have h := workingChip_spiFlashErase (start / 4096) n flash
  rwa [Nat.div_mul_cancel (Nat.dvd_of_mod_eq_zero hstart)] at h

theorem written_vErase {σ : Type} {chip : Chip σ} (start n : Nat) (s : σ) :
    written (vEraseFlash chip start n s).log = [] := by
  refine written_of_none fun e he ↦ ?_
  obtain ⟨_, _, _, rfl⟩ := mem_vEraseFlash he
  rfl

/-- The flash then holds the data, and nothing else was programmed. -/
structure Programs (d : Done Memory) (flash : Memory) (a : Nat) (data : List UInt8) : Prop where
  rc : d.rc = 0
  state : d.state = programBytes flash a data
  log : written d.log = placed a data

theorem workingChip_inPieces {size : Nat} {write : Nat → List UInt8 → Memory → Done Memory}
    (hwrite : ∀ dest data flash, dest + data.length ≤ 2 ^ 24 →
      Programs (write dest data flash) flash dest data)
    (hsize : 0 < size) {fuel dest : Nat} {src : List UInt8} {flash : Memory}
    (hfuel : src.length ≤ fuel) (hfit : dest + src.length ≤ 2 ^ 24) :
    Programs (inPieces size write fuel src dest flash) flash dest src := by
  induction fuel generalizing src dest flash with
  | zero =>
    obtain rfl : src = [] := List.length_eq_zero_iff.mp (by omega)
    exact ⟨rfl, programBytes_nil.symm, rfl⟩
  | succ fuel ih =>
    unfold inPieces
    split
    · have hnil := ‹src = []›
      subst hnil
      exact ⟨rfl, programBytes_nil.symm, rfl⟩
    have hpos : 0 < src.length := List.length_pos_iff.mpr ‹_›
    have htake : (src.take size).length ≤ src.length := List.length_take_le' _ _
    obtain ⟨hrc, hstate, hlog⟩ := hwrite dest (src.take size) flash (by omega)
    rw [Done.andThen_ok hrc]
    by_cases hlast : src.length ≤ size
    · -- the last piece
      have hdrop : src.drop size = [] := List.drop_eq_nil_of_le hlast
      have hall : src.take size = src := List.take_of_length_le hlast
      have hrest : inPieces size write fuel (src.drop size) (dest + size)
          (write dest (src.take size) flash).state =
            ⟨0, (write dest (src.take size) flash).state, []⟩ := by
        rw [hdrop]
        cases fuel with
        | zero => rfl
        | succ fuel => exact if_pos rfl
      refine ⟨?_, ?_, ?_⟩
      · rw [Done.seq_rc, hrest]
      · rw [Done.seq_state, hrest, hstate, hall]
      · rw [Done.seq_log, hrest, List.append_nil, hlog, hall]
    · have hlen : (src.take size).length = size := List.length_take_of_le (by omega)
      obtain ⟨hrc', hstate', hlog'⟩ := @ih (dest + size) (src.drop size)
        (write dest (src.take size) flash).state (by rw [List.length_drop]; omega)
        (by rw [List.length_drop]; omega)
      have hjoin : src.take size ++ src.drop size = src := List.take_append_drop _ _
      refine ⟨hrc', ?_, ?_⟩
      · have happ := @programBytes_append flash dest (src.take size) (src.drop size)
        rw [hlen, hjoin] at happ
        rw [Done.seq_state, hstate', hstate, happ]
      · have happ := @placed_append dest (src.take size) (src.drop size)
        rw [hlen, hjoin] at happ
        rw [Done.seq_log, written_append, hlog, hlog', happ]

theorem workingChip_pageProgram (dest : Nat) (data : List UInt8) (flash : Memory)
    (hfit : dest + data.length ≤ 2 ^ 24) :
    Programs (pageProgram workingChip dest data flash) flash dest data := by
  by_cases hnil : data = []
  · subst hnil
    exact ⟨rfl, programBytes_nil.trans programBytes_nil.symm, rfl⟩
  · have hmod : dest % 2 ^ 24 = dest :=
      Nat.mod_eq_of_lt (by have := List.length_pos_iff.mpr hnil; omega)
    refine ⟨rfl, ?_, ?_⟩
    · unfold pageProgram
      rw [hmod]
      rfl
    · unfold pageProgram
      rw [hmod]
      exact List.append_nil _

theorem workingChip_vProgramFlash (dest : Nat) (data : List UInt8) (flash : Memory)
    (hfit : dest + data.length ≤ 2 ^ 24) :
    Programs (vProgramFlash workingChip dest data flash) flash dest data :=
  workingChip_inPieces workingChip_pageProgram (by decide) (Nat.le_refl _) hfit

theorem workingChip_programLoop (dest : Nat) (data : List UInt8) (flash : Memory)
    (hfit : dest + data.length ≤ 2 ^ 24) :
    Programs (programLoop workingChip dest data flash) flash dest data :=
  workingChip_inPieces workingChip_vProgramFlash (by decide) (Nat.le_refl _) hfit

/-! ## One image -/

/-- The flash after the image at `p`. -/
def flashed (eeprom : EepromData) (ram : Memory) (p : Nat) (flash : Memory) : Memory :=
  if (header ram p).bintype = eepromMark then
    programBytes (eraseBytes (eraseBytes flash defaultAddrOff 8192) eepromAddrOff 8192)
      defaultAddrOff eeprom.bytes
  else if (header ram p).bintype = code1Mark then
    programBytes (eraseBytes flash code1AddrOff (4096 * numOfCode1Sector)) code1AddrOff
      (ownBytes ram p)
  else if (header ram p).bintype = code2Mark then
    programBytes (eraseBytes flash code2AddrOff (4096 * numOfCode2Sector)) code2AddrOff
      (ownBytes ram p)
  else
    programBytes (eraseBytes flash loaderAddrOff (4096 * numOfLoaderSector)) loaderAddrOff
      (ownBytes ram p)

/-- The memory after the image at `p`: the flash of code is read back, all but its checksum. -/
def reread (flash ram : Memory) (p : Nat) : Memory :=
  if isCode ram p then
    writeMem ram 0 (readMem flash (typeOffset (header ram p).bintype + 4)
      ((header ram p).fileLen.toNat + 252))
  else ram

variable {model : UInt8} {eeprom : EepromData} {ram : Memory} {p : Nat}

/-- The image of the loop's next turn, and what it does. -/
structure Programmed (eeprom : EepromData) (flash ram : Memory) (p : Nat)
    (d : Done (Box Memory)) : Prop where
  state : d.state = ⟨flashed eeprom ram p flash, reread (flashed eeprom ram p flash) ram p⟩
  log : written d.log = placed (typeOffset (header ram p).bintype)
    (if (header ram p).bintype = eepromMark then eeprom.bytes else ownBytes ram p)

theorem workingChip_eraseAndProgram {start n q : Nat} {length : UInt32}
    (hstart : start % 4096 = 0) (hfit : start + length.toNat ≤ 2 ^ 24) (flash ram : Memory) :
    let d := eraseAndProgram workingChip start n q length ⟨flash, ram⟩
    d.state = ⟨programBytes (eraseBytes flash start (4096 * n)) start (readMem ram q length.toNat),
        ram⟩ ∧
      written d.log = placed start (readMem ram q length.toNat) := by
  obtain ⟨_, hstate, hlog⟩ := workingChip_programLoop start (readMem ram q length.toNat)
    (vEraseFlash workingChip start n flash).state (by rw [length_readMem]; exact hfit)
  unfold eraseAndProgram Done.onBox
  simp only
  rw [Done.andThen_ok (workingChip_takes.vEraseFlash _ _ _), Done.seq_state, Done.seq_log,
    written_append, hstate, hlog, written_vErase, workingChip_vErase hstart]
  exact ⟨rfl, rfl⟩

/-- The header of an image that was programmed. -/
theorem header_flashed {m start k : Nat} (hm : 256 ≤ m) (hk : 256 ≤ k)
    (hend : start + 256 ≤ 2 ^ 24) :
    header (fun i ↦ programBytes (eraseBytes flash start m) start (readMem ram p k) (i % 2 ^ 24))
      start = header ram p := by
  refine header_congr fun i hi ↦ ?_
  have hmod : (start + i) % 2 ^ 24 = start + i := Nat.mod_eq_of_lt (by omega)
  have hlen : i < (readMem ram p k).length := by
    rw [length_readMem]
    omega
  rw [hmod, programBytes_erased hlen (by omega)]
  simp [readMem]

theorem image_room {start len n : Nat} (hn : 0 < n) (h : start + (len + 256) ≤ 2 ^ 24) :
    256 ≤ 4096 * n ∧ start + 256 ≤ 2 ^ 24 ∧ start + 4 + (len + 252) ≤ 2 ^ 24 := by
  omega

/-- Code, programmed and read back. -/
theorem verified_programmed {start n : Nat} {d : Done (Box Memory)}
    (hcode : isCode ram p) (htype : typeOffset (header ram p).bintype = start)
    (hstart : start % 4096 = 0) (hn : 0 < n) (hmodel : (header ram p).model = model)
    (hmark : (header ram p).mark = xgz)
    (hfit : start + ((header ram p).fileLen.toNat + 256) ≤ 2 ^ 24)
    (hflashed : flashed eeprom ram p flash =
      programBytes (eraseBytes flash start (4096 * n)) start (ownBytes ram p))
    (hd : verifiedTries workingChip model start n p ((header ram p).fileLen + 256)
      programMaxRetryTimes 0 ⟨flash, ram⟩ = d) : Programmed eeprom flash ram p d := by
  obtain ⟨hm, hend, hback⟩ := image_room hn hfit
  obtain ⟨h256, h252⟩ := toNat_nbytes hfit
  have hown : readMem ram p ((header ram p).fileLen + 256).toNat = ownBytes ram p := by
    rw [h256]
    exact (if_pos hcode).symm
  have hne : (header ram p).bintype ≠ eepromMark := by
    rcases hcode with h | h
    · rw [h]
      decide
    · rw [h]
      decide
  obtain ⟨hstate, hlog⟩ := @workingChip_eraseAndProgram start n p ((header ram p).fileLen + 256)
    hstart (by rw [h256]; exact hfit) flash ram
  rw [hown] at hstate hlog
  obtain ⟨hvlog, hvstate⟩ := @verifiedTries_ok _ workingChip model _ _ _ _ _
    (workingChip_takes.eraseAndProgram start n p ((header ram p).fileLen + 256) ⟨flash, ram⟩)
  rw [hd] at hvlog hvstate
  constructor
  · have hown' : ownBytes ram p = readMem ram p ((header ram p).fileLen.toNat + 256) :=
      if_pos hcode
    -- the header is read back as it was written
    have hhdr := @header_flashed flash ram p (4096 * n) start
      ((header ram p).fileLen.toNat + 256) hm (Nat.le_add_left _ _) hend
    rw [← hown', ← hflashed] at hhdr
    have hread := @readFlash_eq (flashed eeprom ram p flash) (start + 4)
      ((header ram p).fileLen.toNat + 252) ((header ram p).fileLen + 252) h252
      (Nat.succ_pos _) hback
    have hram := @doChecksum_ram model (flashed eeprom ram p flash) ram start
      (by rw [hhdr, hmark]) (by rw [hhdr, hmodel])
    rw [hhdr] at hram
    rw [hvstate, hstate, ← hflashed]
    unfold checksumOf reread
    simp only
    rw [if_pos hcode, htype, ← hread]
    exact congrArg _ hram
  · rw [hvlog, written_append, hlog, htype, if_neg hne]
    exact List.append_nil _

theorem psCheckImageIntegrity_header (h : psCheckImageIntegrity model ram p ≠ maxFlashOff) :
    (header ram p).mark = xgz ∧ (header ram p).model = model := by
  unfold psCheckImageIntegrity at h
  simp only at h
  split at h
  · exact absurd rfl h
  · have hboth := ‹¬ (_ ∨ _)›
    rw [not_or, not_ne_iff, not_ne_iff] at hboth
    exact hboth

theorem typeOffset_room {bintype : UInt8} {len : Nat} (h : typeOffset bintype ≠ maxFlashOff)
    (hlen : len + 256 ≤ 0xF00000) : typeOffset bintype + (len + 256) ≤ 2 ^ 24 := by
  have hle : typeOffset bintype ≤ 0xFC000 := by
    rcases typeOffset_cases h with rfl | rfl | rfl | rfl | rfl
    all_goals decide
  exact Nat.le_trans (Nat.add_le_add hle hlen) (by decide)

/-- A loader: its bytes without the header, and nothing is read back. -/
theorem loader_programmed (htype : (header ram p).bintype = loaderMark)
    (hfit : loaderAddrOff + (header ram p).fileLen.toNat ≤ 2 ^ 24) :
    Programmed eeprom flash ram p (vProgramLoader workingChip (p + sizeofHeader)
      (header ram p).fileLen ⟨flash, ram⟩) := by
  have hcode : ¬ isCode ram p := by
    unfold isCode
    rw [htype]
    decide
  have hown : ownBytes ram p = readMem ram (p + sizeofHeader) (header ram p).fileLen.toNat :=
    if_neg hcode
  obtain ⟨hstate, hlog⟩ := @workingChip_eraseAndProgram loaderAddrOff numOfLoaderSector
    (p + sizeofHeader) (header ram p).fileLen rfl hfit flash ram
  constructor
  · unfold flashed reread
    rw [if_neg hcode, htype, hown]
    exact hstate
  · rw [htype, hown]
    exact (written_append _ []).trans ((List.append_nil _).trans hlog)

/-- A settings image: both areas are erased, and the bytes are the box's, not the image's. -/
theorem defaults_programmed (htype : (header ram p).bintype = eepromMark) :
    Programmed eeprom flash ram p (vProgramDef workingChip eeprom ⟨flash, ram⟩) := by
  have hcode : ¬ isCode ram p := by
    unfold isCode
    rw [htype]
    decide
  have hfit : defaultAddrOff + eeprom.bytes.length ≤ 2 ^ 24 := by
    rw [eeprom.length_eq]
    decide
  have hprog := @workingChip_vProgramFlash defaultAddrOff eeprom.bytes
    (vEraseFlash workingChip eepromAddrOff numOfEepSector (vEraseFlash workingChip
      defaultAddrOff numOfDefaultSector flash).state).state hfit
  have hrc := workingChip_takes.vEraseFlash eepromAddrOff numOfEepSector
    (vEraseFlash workingChip defaultAddrOff numOfDefaultSector flash).state
  constructor
  · unfold flashed reread
    rw [if_neg hcode, htype, if_pos rfl]
    change Box.mk ((vEraseFlash workingChip eepromAddrOff numOfEepSector (vEraseFlash workingChip
      defaultAddrOff numOfDefaultSector flash).state).andThen
        (vProgramFlash workingChip defaultAddrOff eeprom.bytes)).state ram = _
    rw [Done.andThen_ok hrc, Done.seq_state, hprog.state,
      workingChip_vErase (by decide), workingChip_vErase (by decide)]
    rfl
  · rw [htype, if_pos rfl]
    change written ((vEraseFlash workingChip defaultAddrOff numOfDefaultSector flash).log ++
      ((vEraseFlash workingChip eepromAddrOff numOfEepSector (vEraseFlash workingChip
        defaultAddrOff numOfDefaultSector flash).state).andThen
          (vProgramFlash workingChip defaultAddrOff eeprom.bytes)).log) = _
    rw [Done.andThen_ok hrc, Done.seq_log, written_append, written_append, written_vErase,
      written_vErase, hprog.log]
    rfl

/-- An image of the loop on a working chip. -/
theorem programImage_programmed (h : psCheckImageIntegrity model ram p ≠ maxFlashOff)
    (hne : (header ram p).bintype ≠ allflashMark)
    (hlen : (header ram p).fileLen.toNat + 256 ≤ 0xF00000) :
    Programmed eeprom flash ram p (programImage workingChip model eeprom
      (psCheckImageIntegrity model ram p) p ⟨flash, ram⟩) := by
  have hoff := psCheckImageIntegrity_eq h
  obtain ⟨hmark, hmodel⟩ := psCheckImageIntegrity_header h
  have hroom := typeOffset_room (hoff ▸ h) hlen
  rw [hoff]
  rcases typeOffset_cases (hoff ▸ h) with htype | htype | htype | htype | htype
  · exact absurd htype hne
  · rw [htype] at hroom ⊢
    exact loader_programmed htype
      (Nat.le_trans (Nat.add_le_add_left (Nat.le_add_right _ 256) _) hroom)
  · rw [htype] at hroom
    refine verified_programmed (.inl htype) (by rw [htype]) (by decide) (n := numOfCode1Sector)
      (by decide) hmodel hmark hroom ?_ ?_
    · unfold flashed
      rw [htype]
      rfl
    · rw [htype]
      rfl
  · rw [htype] at hroom
    refine verified_programmed (.inr htype) (by rw [htype]) (by decide) (n := numOfCode2Sector)
      (by decide) hmodel hmark hroom ?_ ?_
    · unfold flashed
      rw [htype]
      rfl
    · rw [htype]
      rfl
  · rw [htype]
    exact defaults_programmed htype

/-! ## The chain -/

/-- The images of a buffer from `p` on, with the lengths behind their headers. -/
inductive Chain (model : UInt8) (ram : Memory) : Nat → List Nat → Prop
  | last {p n : Nat} : psCheckImageIntegrity model ram p ≠ maxFlashOff →
      (header ram p).bintype ≠ allflashMark → (header ram p).fileLen.toNat = n →
      (header ram p).next ≠ 1 → Chain model ram p [n]
  | cons {p n : Nat} {ns : List Nat} : psCheckImageIntegrity model ram p ≠ maxFlashOff →
      (header ram p).bintype ≠ allflashMark → (header ram p).fileLen.toNat = n →
      (header ram p).next = 1 → Chain model ram (p + (n + 256)) ns →
      Chain model ram p (n :: ns)

def positions : Nat → List Nat → List Nat
  | _, [] => []
  | p, n :: ns => p :: positions (p + (n + 256)) ns

/-- The image at `q` was programmed where it belongs. -/
def InPlace (ram : Memory) (q : Nat) (v : Visit Memory) : Prop :=
  v.pos = q ∧
    written v.done.log = placed (typeOffset (header ram q).bintype) (ownBytes ram q)

/-- From the header at `start` on, the images are programmed one after the other, and the upgrade
ends with the last one. -/
def Complete (model : UInt8) (eeprom : EepromData) (flash ram : Memory) (start p : Nat)
    (ns : List Nat) : Prop :=
  ∃ fuel b visits,
    apUpgradeFirmware workingChip model eeprom fuel start ⟨flash, ram⟩ = some (true, b, visits) ∧
      List.Forall₂ (InPlace ram) (positions p ns) visits

/-- From one header the loop comes to another one, over headers that it skips. -/
inductive Leads (model : UInt8) (ram : Memory) : Nat → Nat → Prop
  | here (p : Nat) : Leads model ram p p
  | chain {p q : Nat} : psCheckImageIntegrity model ram p ≠ maxFlashOff → isChain ram p →
      Leads model ram ((p + sizeofHeader) % 2 ^ 32) q → Leads model ram p q

/-- The loop keeps to the chain: an EEPROM image is what `EEPROM_Data` holds already, and the header
of an image, as it is read again, leads to the next image or says that there is none. -/
def Followed (model : UInt8) (eeprom : EepromData) : Memory → Memory → Nat → List Nat → Prop
  | _, _, _, [] => True
  | flash, ram, p, n :: ns =>
      ((header ram p).bintype = eepromMark → ownBytes ram p = eeprom.bytes) ∧
        (ns = [] → (header (reread (flashed eeprom ram p flash) ram p) p).next ≠ 1) ∧
        (ns ≠ [] → (header (reread (flashed eeprom ram p flash) ram p) p).next = 1 ∧
          Leads model (reread (flashed eeprom ram p flash) ram p)
            (advance (reread (flashed eeprom ram p flash) ram p) p) (p + (n + 256))) ∧
        Followed model eeprom (flashed eeprom ram p flash)
          (reread (flashed eeprom ram p flash) ram p) (p + (n + 256)) ns

variable {ram' : Memory} {ns : List Nat} {q : Nat}

theorem psCheckImageIntegrity_congr (h : ∀ i, p ≤ i → ram i = ram' i) :
    psCheckImageIntegrity model ram p = psCheckImageIntegrity model ram' p := by
  have hhdr : header ram p = header ram' p := header_congr fun i _ ↦ h _ (Nat.le_add_right p i)
  have hread (k : Nat) : readMem ram (p + binIdOffset) k = readMem ram' (p + binIdOffset) k :=
    readMem_congr fun i hi _ ↦ h i (Nat.le_trans (Nat.le_add_right p _) hi)
  unfold psCheckImageIntegrity
  simp only [hhdr, hread]

theorem ownBytes_congr (h : ∀ i, p ≤ i → ram i = ram' i) : ownBytes ram p = ownBytes ram' p := by
  have hhdr : header ram p = header ram' p := header_congr fun i _ ↦ h _ (Nat.le_add_right p i)
  have hread (q k : Nat) (hq : p ≤ q) : readMem ram q k = readMem ram' q k :=
    readMem_congr fun i hi _ ↦ h i (Nat.le_trans hq hi)
  have hiff : isCode ram p ↔ isCode ram' p := by
    unfold isCode
    rw [hhdr]
  unfold ownBytes
  by_cases hcode : isCode ram p
  · rw [if_pos hcode, if_pos (hiff.mp hcode), hhdr, hread p _ (Nat.le_refl p)]
  · rw [if_neg hcode, if_neg fun h' ↦ hcode (hiff.mpr h'), hhdr,
      hread (p + 256) _ (Nat.le_add_right p 256)]

theorem Chain.congr (hc : Chain model ram p ns) (h : ∀ i, p ≤ i → ram i = ram' i) :
    Chain model ram' p ns := by
  have hhdr (q : Nat) (hq : p ≤ q) : header ram q = header ram' q :=
    header_congr fun i _ ↦ h _ (Nat.le_trans hq (Nat.le_add_right q i))
  induction hc with
  | last hok hne hlen hnext =>
    rw [psCheckImageIntegrity_congr h] at hok
    rw [hhdr _ (Nat.le_refl _)] at hne hlen hnext
    exact .last hok hne hlen hnext
  | cons hok hne hlen hnext hrest ih =>
    rw [psCheckImageIntegrity_congr h] at hok
    rw [hhdr _ (Nat.le_refl _)] at hne hlen hnext
    have hle := Nat.le_add_right
    exact .cons hok hne hlen hnext (ih (fun i hi ↦ h i (Nat.le_trans (hle _ _) hi))
      fun q hq ↦ hhdr q (Nat.le_trans (hle _ _) hq))

theorem Chain.ne_nil (hc : Chain model ram p ns) : ns ≠ [] := by
  cases hc with
  | last => exact List.cons_ne_nil _ _
  | cons => exact List.cons_ne_nil _ _

/-- What is read back stays in front of the next image. -/
theorem reread_of_ge {i : Nat} (h : (header ram p).fileLen.toNat + 252 ≤ i) :
    reread flash ram p i = ram i := by
  unfold reread
  split
  · refine writeMem_of_ge ?_
    rw [length_readMem, Nat.zero_add]
    exact h
  · rfl

theorem getElem_readMem {m : Memory} {a i k : Nat} (hi : i < (readMem m a k).length) :
    (readMem m a k)[i] = m (a + i) := by
  simp only [readMem, List.getElem_map, List.getElem_range]

/-- Code that fits is read back from four bytes into its header. -/
theorem reread_of_lt {start k i : Nat} (hcode : isCode ram p)
    (htype : typeOffset (header ram p).bintype = start)
    (hflashed : flashed eeprom ram p flash =
      programBytes (eraseBytes flash start k) start (ownBytes ram p))
    (hfit : (header ram p).fileLen.toNat + 256 ≤ k)
    (hi : i < (header ram p).fileLen.toNat + 252) :
    reread (flashed eeprom ram p flash) ram p i = ram (p + (i + 4)) := by
  have hown : ownBytes ram p = readMem ram p ((header ram p).fileLen.toNat + 256) := if_pos hcode
  have hi4 : i + 4 < (header ram p).fileLen.toNat + 256 := Nat.add_lt_add_right hi 4
  have hlt : i + 4 < (readMem ram p ((header ram p).fileLen.toNat + 256)).length := by
    rw [length_readMem]
    exact hi4
  have hback : i < (readMem (flashed eeprom ram p flash) (start + 4)
      ((header ram p).fileLen.toNat + 252)).length := by
    rw [length_readMem]
    exact hi
  have hwrite := @writeMem_add _ ram 0 i _ hback
  rw [Nat.zero_add] at hwrite
  unfold reread
  rw [if_pos hcode, htype, hwrite, getElem_readMem, hflashed, hown, Nat.add_assoc, Nat.add_comm 4,
    programBytes_erased hlt (Nat.lt_of_lt_of_le hi4 hfit), getElem_readMem]

/-! ## The loop over the chain -/

theorem Leads.run {σ : Type} {chip : Chip σ} {b : Box σ} {fuel : Nat}
    {r : Bool × Box σ × List (Visit σ)} (h : Leads model b.ram p q)
    (hrun : apUpgradeFirmware chip model eeprom fuel q b = some r) :
    ∃ fuel', apUpgradeFirmware chip model eeprom fuel' p b = some r := by
  induction h with
  | here => exact ⟨fuel, hrun⟩
  | chain hok hchain _ ih =>
    obtain ⟨fuel', hfuel⟩ := ih hrun
    exact ⟨fuel' + 1, (apUpgradeFirmware_chain hok hchain).trans hfuel⟩

/-- TRUE comes only after an image, and up to the first one headers were skipped. -/
theorem first_visit {σ : Type} {chip : Chip σ} {b b' : Box σ} {fuel : Nat}
    {visits : List (Visit σ)}
    (h : apUpgradeFirmware chip model eeprom fuel p b = some (true, b', visits)) :
    ∃ v vs, visits = v :: vs ∧ Leads model b.ram p v.pos ∧
      ∃ fuel', apUpgradeFirmware chip model eeprom fuel' v.pos b = some (true, b', visits) := by
  induction fuel generalizing p with
  | zero => cases h
  | succ fuel ih =>
    by_cases hok : psCheckImageIntegrity model b.ram p = maxFlashOff
    · rw [apUpgradeFirmware_refused hok] at h
      have hrc : false = true := congrArg Prod.fst (Option.some.inj h)
      exact absurd hrc (by decide)
    by_cases hchain : isChain b.ram p
    · rw [apUpgradeFirmware_chain hok hchain] at h
      obtain ⟨v, vs, hv, hleads, hrun⟩ := ih h
      exact ⟨v, vs, hv, .chain hok hchain hleads, hrun⟩
    by_cases hnext : (header (programImage chip model eeprom
        (psCheckImageIntegrity model b.ram p) p b).state.ram p).next = 1
    · have hrun := h
      rw [apUpgradeFirmware_next hok hchain rfl hnext] at h
      obtain ⟨⟨rc, b'', vs⟩, _, hr⟩ := Option.map_eq_some_iff.mp h
      have hvisits := (congrArg (fun r ↦ r.2.2) hr).symm
      exact ⟨_, vs, hvisits, .here p, fuel + 1, hrun⟩
    · have hrun := h
      rw [apUpgradeFirmware_last hok hchain rfl hnext] at h
      have hvisits := (congrArg (fun r ↦ r.2.2) (Option.some.inj h)).symm
      exact ⟨_, [], hvisits, .here p, fuel + 1, hrun⟩

theorem inPlace_congr {v : Visit Memory} (h : ∀ i, p ≤ i → ram i = ram' i) :
    InPlace ram p v ↔ InPlace ram' p v := by
  have hhdr : header ram p = header ram' p := header_congr fun i _ ↦ h _ (Nat.le_add_right p i)
  unfold InPlace
  rw [hhdr, ownBytes_congr h]

theorem inPlace_positions_congr {vs : List (Visit Memory)} (h : ∀ i, p ≤ i → ram i = ram' i) :
    List.Forall₂ (InPlace ram) (positions p ns) vs ↔
      List.Forall₂ (InPlace ram') (positions p ns) vs := by
  induction ns generalizing p vs with
  | nil =>
    unfold positions
    rw [List.forall₂_nil_left_iff, List.forall₂_nil_left_iff]
  | cons n ns ih =>
    have hrest := fun i hi ↦ h i (Nat.le_trans (Nat.le_add_right p (n + 256)) hi)
    unfold positions
    rw [List.forall₂_cons_left_iff, List.forall₂_cons_left_iff]
    simp only [inPlace_congr h, ih hrest]

theorem Programmed.inPlace_iff {d : Done (Box Memory)} {b : Box Memory}
    (h : Programmed eeprom flash ram p d) :
    InPlace ram p ⟨p, b, d⟩ ↔
      ((header ram p).bintype = eepromMark → ownBytes ram p = eeprom.bytes) := by
  unfold InPlace
  simp only [h.log, true_and]
  by_cases htype : (header ram p).bintype = eepromMark
  · rw [if_pos htype]
    exact ⟨fun heq _ ↦ (placed_injective heq).symm, fun heq ↦ by rw [heq htype]⟩
  · rw [if_neg htype]
    exact ⟨fun _ hyes ↦ absurd hyes htype, fun _ ↦ rfl⟩

theorem map_eq_some {rc : Bool} {b : Box Memory} {v : Visit Memory} {visits : List (Visit Memory)}
    {r : Option (Bool × Box Memory × List (Visit Memory))}
    (h : r.map (fun r ↦ (r.1, r.2.1, v :: r.2.2)) = some (rc, b, visits)) :
    ∃ vs, visits = v :: vs ∧ r = some (rc, b, vs) := by
  obtain ⟨⟨rc', b', vs⟩, hr, heq⟩ := Option.map_eq_some_iff.mp h
  obtain ⟨hrc, hb, hvs⟩ := Prod.mk.inj heq |>.imp_right Prod.mk.inj
  exact ⟨vs, hvs.symm, by rw [hr, ← hrc, ← hb]⟩

section Turn

variable {flash' back : Memory} {d : Done (Box Memory)}

/-- A turn of the loop, seen from its end. -/
theorem complete_turn (hok : psCheckImageIntegrity model ram p ≠ maxFlashOff)
    (hchain : ¬ isChain ram p)
    (hd : programImage workingChip model eeprom (psCheckImageIntegrity model ram p) p
      ⟨flash, ram⟩ = d) (hstate : d.state = ⟨flash', back⟩) :
    Complete model eeprom flash ram p p (n :: ns) ↔
      InPlace ram p ⟨p, ⟨flash, ram⟩, d⟩ ∧ (ns = [] → (header back p).next ≠ 1) ∧
        (ns ≠ [] → (header back p).next = 1 ∧ ∃ fuel b vs,
          apUpgradeFirmware workingChip model eeprom fuel (advance back p) ⟨flash', back⟩ =
              some (true, b, vs) ∧
            List.Forall₂ (InPlace ram) (positions (p + (n + 256)) ns) vs) := by
  have hram : d.state.ram = back := by rw [hstate]
  constructor
  · rintro ⟨fuel, b, visits, hrun, hall⟩
    cases fuel with
    | zero => cases hrun
    | succ fuel =>
      by_cases hnext : (header d.state.ram p).next = 1
      · rw [apUpgradeFirmware_next (b := ⟨flash, ram⟩) hok hchain hd hnext] at hrun
        obtain ⟨vs, rfl, hrest⟩ := map_eq_some hrun
        obtain ⟨hhead, htail⟩ := List.forall₂_cons.mp hall
        rw [hram] at hnext hrest
        rw [hstate] at hrest
        refine ⟨hhead, fun hnil ↦ ?_, fun _ ↦ ⟨hnext, fuel, b, vs, hrest, htail⟩⟩
        -- after TRUE there is a further image
        obtain ⟨v, vs', rfl, _⟩ := first_visit hrest
        rw [hnil] at htail
        cases htail
      · rw [apUpgradeFirmware_last (b := ⟨flash, ram⟩) hok hchain hd hnext] at hrun
        have hvisits : [⟨p, ⟨flash, ram⟩, d⟩] = visits :=
          congrArg (fun r ↦ r.2.2) (Option.some.inj hrun)
        rw [← hvisits] at hall
        obtain ⟨hhead, htail⟩ := List.forall₂_cons.mp hall
        rw [hram] at hnext
        refine ⟨hhead, fun _ ↦ hnext, fun hns ↦ ?_⟩
        cases ns with
        | nil => exact absurd rfl hns
        | cons n' ns => cases htail
  · rintro ⟨hhead, hlast, hmore⟩
    by_cases hns : ns = []
    · have hnext : (header d.state.ram p).next ≠ 1 := by
        rw [hram]
        exact hlast hns
      subst hns
      exact ⟨1, _, _, apUpgradeFirmware_last (b := ⟨flash, ram⟩) hok hchain hd hnext,
        .cons hhead .nil⟩
    · obtain ⟨hnext, fuel, b, vs, hrun, hall⟩ := hmore hns
      rw [← hram] at hnext
      refine ⟨fuel + 1, b, _, ?_, .cons hhead hall⟩
      rw [apUpgradeFirmware_next (b := ⟨flash, ram⟩) hok hchain hd hnext, hram, hstate, hrun]
      rfl

end Turn

theorem image_end {len p i : Nat} (h : p + (len + 256) ≤ i) : len + 252 ≤ i :=
  Nat.le_trans (Nat.add_le_add_left (by decide) len)
    (Nat.le_trans (Nat.le_add_left (len + 256) p) h)

theorem Chain.first (hc : Chain model ram p (n :: ns)) :
    psCheckImageIntegrity model ram p ≠ maxFlashOff ∧ (header ram p).bintype ≠ allflashMark ∧
      (header ram p).fileLen.toNat = n := by
  cases hc with
  | last hok hne hlen _ => exact ⟨hok, hne, hlen⟩
  | cons hok hne hlen _ _ => exact ⟨hok, hne, hlen⟩

theorem Chain.rest (hc : Chain model ram p (n :: ns)) (hns : ns ≠ []) :
    Chain model ram (p + (n + 256)) ns := by
  cases hc with
  | last => exact absurd rfl hns
  | cons _ _ _ _ hrest => exact hrest

/-- Over skipped headers to the next image. -/
theorem complete_from {flash' back : Memory} {start : Nat} (hns : ns ≠ []) :
    (∃ fuel b vs, apUpgradeFirmware workingChip model eeprom fuel start ⟨flash', back⟩ =
        some (true, b, vs) ∧ List.Forall₂ (InPlace back) (positions p ns) vs) ↔
      Leads model back start p ∧ Complete model eeprom flash' back p p ns := by
  constructor
  · rintro ⟨fuel, b, vs, hrun, hall⟩
    obtain ⟨v, vs', rfl, hleads, fuel', hrun'⟩ := first_visit hrun
    cases ns with
    | nil => exact absurd rfl hns
    | cons n ns =>
      obtain ⟨hhead, _⟩ := List.forall₂_cons.mp hall
      rw [hhead.1] at hleads hrun'
      exact ⟨hleads, fuel', b, _, hrun', hall⟩
  · rintro ⟨hleads, fuel, b, vs, hrun, hall⟩
    obtain ⟨fuel', hrun'⟩ := Leads.run (b := ⟨flash', back⟩) hleads hrun
    exact ⟨fuel', b, vs, hrun', hall⟩

/-- The loop over a chain, from its first image on. -/
theorem complete_iff_followed (hc : Chain model ram p ns)
    (hroom : p + (ns.map fun n ↦ n + 256).sum ≤ 0xF00000) :
    Complete model eeprom flash ram p p ns ↔ Followed model eeprom flash ram p ns := by
  induction ns generalizing p flash ram with
  | nil => exact absurd rfl hc.ne_nil
  | cons n ns ih =>
    obtain ⟨hok, hne, hlen⟩ := hc.first
    rw [List.map_cons, List.sum_cons, ← Nat.add_assoc] at hroom
    have hprog := @programImage_programmed flash model eeprom ram p hok hne (by
      rw [hlen]
      exact Nat.le_trans (Nat.le_add_left _ p) (Nat.le_trans (Nat.le_add_right _ _) hroom))
    have hback : ∀ i, p + (n + 256) ≤ i →
        ram i = reread (flashed eeprom ram p flash) ram p i := fun i hi ↦
      (reread_of_ge (hlen.symm ▸ image_end hi)).symm
    rw [complete_turn hok (fun h ↦ hne h.1) rfl hprog.state, hprog.inPlace_iff, Followed]
    refine and_congr_right fun _ ↦ and_congr_right fun _ ↦ ?_
    by_cases hns : ns = []
    · subst hns
      exact ⟨fun _ ↦ ⟨fun h ↦ absurd rfl h, trivial⟩, fun _ h ↦ absurd rfl h⟩
    · have hrest := (hc.rest hns).congr hback
      rw [← ih hrest hroom]
      simp only [ne_eq, hns, not_false_eq_true, true_implies, and_assoc]
      refine and_congr_right fun _ ↦ ?_
      rw [← complete_from hns]
      simp only [inPlace_positions_congr hback]

/-- A buffer of an ALLFLASH header and images, as large as the driver can address: the upgrade is
complete exactly when the header is accepted and the loop keeps to the chain. -/
theorem chain_upgrade_iff (model : UInt8) (eeprom : EepromData) (flash ram : Memory)
    (ns : List Nat) (hall : isChain ram 0) (hc : Chain model ram sizeofHeader ns)
    (hroom : sizeofHeader + (ns.map fun n ↦ n + 256).sum ≤ 0xF00000) :
    Complete model eeprom flash ram 0 sizeofHeader ns ↔
      psCheckImageIntegrity model ram 0 ≠ maxFlashOff ∧
        Followed model eeprom flash ram sizeofHeader ns := by
  have hsecond : (0 + sizeofHeader) % 2 ^ 32 = sizeofHeader := rfl
  rw [← complete_iff_followed hc hroom]
  constructor
  · rintro ⟨fuel, b, visits, hrun, hvisits⟩
    cases fuel with
    | zero => cases hrun
    | succ fuel =>
      by_cases hok : psCheckImageIntegrity model ram 0 = maxFlashOff
      · rw [apUpgradeFirmware_refused (b := ⟨flash, ram⟩) hok] at hrun
        have hrc : false = true := congrArg Prod.fst (Option.some.inj hrun)
        exact absurd hrc (by decide)
      · rw [apUpgradeFirmware_chain (b := ⟨flash, ram⟩) hok hall, hsecond] at hrun
        exact ⟨hok, fuel, b, visits, hrun, hvisits⟩
  · rintro ⟨hok, fuel, b, visits, hrun, hvisits⟩
    refine ⟨fuel + 1, b, visits, ?_, hvisits⟩
    rw [apUpgradeFirmware_chain (b := ⟨flash, ram⟩) hok hall, hsecond]
    exact hrun

def chainArgs : ImageArgs := ⟨50, 9, 1, 0, 0, 12, [], Nat.zero_le _⟩

/-- A header that makimage writes in front of what there is. -/
theorem built_image (bintype next : UInt8) (m : Memory) (p : Nat) {n : Nat}
    (hn : n + 252 < 2 ^ 32) :
    let m' := setupHeader chainArgs bintype n next m p
    IsImage 50 bintype n m' p ∧ (header m' p).next = next := by
  obtain ⟨hhdr, himage⟩ := setupHeader_isImage chainArgs bintype next m p hn
  exact ⟨himage, hhdr 12 (by decide) (by decide)⟩

theorem accepted_of_isImage {bintype : UInt8} (h : IsImage model bintype n ram p)
    (hn : n + 252 < 2 ^ 32) (hknown : typeOffset bintype ≠ maxFlashOff) :
    psCheckImageIntegrity model ram p ≠ maxFlashOff ∧ (header ram p).bintype = bintype ∧
      (header ram p).fileLen.toNat = n := by
  refine ⟨by rw [h.psCheckImageIntegrity hn]; exact hknown, h.type, ?_⟩
  rw [h.fileLen]
  exact UInt32.toNat_ofNat_of_lt' (by simp only [UInt32.size]; omega)

/-- A code1 image of zeros with a loader behind it, in a chain. -/
theorem exists_code1_loader {n : Nat} (hn : n ≤ 1000) :
    ∃ ram, isChain ram 0 ∧ psCheckImageIntegrity 50 ram 0 ≠ maxFlashOff ∧
      Chain 50 ram sizeofHeader [n, 3] ∧ (header ram 256).bintype = code1Mark ∧
      (header ram (256 + (n + 256))).bintype = loaderMark ∧
      ∀ i, 512 ≤ i → i < 256 + (n + 256) → ram i = 0 := by
  obtain ⟨hcode1, hnext1⟩ := @built_image code1Mark 1 (fun _ ↦ 0) 256 n (by omega)
  have hzero (i : Nat) (hi : 512 ≤ i) : setupHeader chainArgs code1Mark n 1 (fun _ ↦ 0) 256 i = 0 :=
    setupHeader_of_ge hi
  generalize setupHeader chainArgs code1Mark n 1 (fun _ ↦ 0) 256 = m₁ at hcode1 hnext1 hzero
  obtain ⟨hloader, hnext2⟩ := @built_image loaderMark 0 m₁ (256 + (n + 256)) 3 (by decide)
  have hsame1 (i : Nat) (hi : i < n + 256) :
      m₁ (256 + i) = setupHeader chainArgs loaderMark 3 0 m₁ (256 + (n + 256)) (256 + i) := by
    unfold setupHeader
    rw [setChksum_of_lt (by omega), writeMem_of_lt (by omega)]
  generalize setupHeader chainArgs loaderMark 3 0 m₁ (256 + (n + 256)) = m₂ at hloader hnext2 hsame1
  obtain ⟨hall, hone⟩ := @built_image allflashMark 1 m₂ 0 (n + 515) (by omega)
  have hsame2 (i : Nat) :
      m₂ (256 + i) = setupHeader chainArgs allflashMark (n + 515) 1 m₂ 0 (256 + i) :=
    (setupHeader_of_ge (Nat.add_le_add_left (Nat.zero_le i) 256)).symm
  generalize setupHeader chainArgs allflashMark (n + 515) 1 m₂ 0 = ram at hall hone hsame2
  have hfirst (i : Nat) (hi : i < n + 256) : m₁ (256 + i) = ram (256 + i) :=
    (hsame1 i hi).trans (hsame2 i)
  have hsecond (i : Nat) : m₂ (256 + (n + 256) + i) = ram (256 + (n + 256) + i) := by
    have h := hsame2 (n + 256 + i)
    rwa [← Nat.add_assoc] at h
  obtain ⟨hok1, htype1, hlen1⟩ := accepted_of_isImage
    (hcode1.congr fun i hi ↦ hfirst i (by omega)) (by omega) (by decide)
  obtain ⟨hok2, htype2, hlen2⟩ := accepted_of_isImage (hloader.congr fun i _ ↦ hsecond i)
    (by decide) (by decide)
  have hhdr1 : header m₁ 256 = header ram 256 :=
    header_congr fun i hi ↦ hfirst i (by omega)
  have hhdr2 : header m₂ (256 + (n + 256)) = header ram (256 + (n + 256)) :=
    header_congr fun i _ ↦ hsecond i
  rw [hhdr1] at hnext1
  rw [hhdr2] at hnext2
  have hend : (header ram (256 + (n + 256))).next ≠ 1 := by
    rw [hnext2]
    decide
  refine ⟨ram, ⟨hall.type, hone⟩, (accepted_of_isImage hall (by omega) (by decide)).1,
    .cons hok1 ?_ hlen1 hnext1 (.last hok2 ?_ hlen2 hend), htype1, htype2, fun i hlo hhi ↦ ?_⟩
  · change (header ram 256).bintype ≠ _
    rw [htype1]
    decide
  · change (header ram (256 + (n + 256))).bintype ≠ _
    rw [htype2]
    decide
  · obtain ⟨k, rfl⟩ := Nat.exists_eq_add_of_le (show 256 ≤ i by omega)
    rw [← hfirst k (by omega)]
    exact hzero _ hlo

/-- A code1 image of three bytes is read back in front of its header, and the loader behind it is
programmed too. -/
theorem chain_upgrade_code1_loader : ∃ ram, isChain ram 0 ∧ Chain 50 ram sizeofHeader [3, 3] ∧
    (header ram sizeofHeader).bintype = code1Mark ∧
    ∀ eeprom flash, Complete 50 eeprom flash ram 0 sizeofHeader [3, 3] := by
  obtain ⟨ram, hchain, hok, hc, htype1, htype2, -⟩ := exists_code1_loader (n := 3) (by decide)
  refine ⟨ram, hchain, hc, htype1, fun eeprom flash ↦ ?_⟩
  refine (chain_upgrade_iff 50 eeprom flash ram [3, 3] hchain hc (by decide)).mpr ⟨hok, ?_⟩
  obtain ⟨hok1, -, hlen1⟩ := hc.first
  obtain ⟨hnext1, hend⟩ : (header ram 256).next = 1 ∧ (header ram 515).next ≠ 1 := by
    cases hc with
    | cons _ _ _ hnext hrest =>
      cases hrest with
      | last _ _ _ hend => exact ⟨hnext, hend⟩
      | cons _ _ _ _ hnone => exact absurd rfl hnone.ne_nil
  have hback (i : Nat) (hi : 255 ≤ i) : reread (flashed eeprom ram 256 flash) ram 256 i = ram i :=
    reread_of_ge (Nat.le_trans (Nat.le_of_eq (congrArg (· + 252) hlen1)) hi)
  have hhdr (q : Nat) (hq : 255 ≤ q) :
      header (reread (flashed eeprom ram 256 flash) ram 256) q = header ram q :=
    header_congr fun i _ ↦ hback _ (Nat.le_trans hq (Nat.le_add_right q i))
  have hadvance : advance (reread (flashed eeprom ram 256 flash) ram 256) 256 = 515 := by
    have hmark : (header ram 256).mark = xgz := by
      by_contra hno
      exact hok1 (if_pos (.inl hno))
    unfold advance
    simp only [hhdr 256 (by decide), if_pos hmark]
    rw [show (header ram 256).fileLen.toNat = 3 from hlen1]
    rfl
  refine ⟨fun h ↦ absurd (htype1.symm.trans h) (by decide), nofun, fun _ ↦ ⟨?_, ?_⟩, ?_⟩
  · exact (congrArg HeaderVer.next (hhdr 256 (by decide))).trans hnext1
  · exact hadvance ▸ Leads.here 515
  · -- the loader is left as it is
    have hhdr515 := hhdr 515 (by decide)
    have hloader : (header (reread (flashed eeprom ram 256 flash) ram 256) 515).bintype =
        loaderMark := (congrArg HeaderVer.bintype hhdr515).trans htype2
    have hcode : ¬ isCode (reread (flashed eeprom ram 256 flash) ram 256) 515 :=
      not_isCode (by rw [hloader]; decide) (by rw [hloader]; decide)
    refine ⟨fun h ↦ absurd (hloader.symm.trans h) (by decide), fun _ ↦ ?_,
      fun h ↦ absurd rfl h, trivial⟩
    change (header (reread _ (reread (flashed eeprom ram 256 flash) ram 256) 515) 515).next ≠ 1
    rw [reread, if_neg hcode, hhdr515]
    exact hend

/-- A code1 image of 300 zeros and a loader behind it: the upgrade ends with the first. -/
theorem code1_ends_chain : ∃ ram, isChain ram 0 ∧
    psCheckImageIntegrity 50 ram 0 ≠ maxFlashOff ∧ Chain 50 ram sizeofHeader [300, 3] ∧
    ∀ eeprom flash, ¬ Complete 50 eeprom flash ram 0 sizeofHeader [300, 3] := by
  obtain ⟨ram, hchain, hok, hc, htype1, -, hzero⟩ := exists_code1_loader (n := 300) (by decide)
  have hlen1 : (header ram 256).fileLen.toNat = 300 := hc.first.2.2
  refine ⟨ram, hchain, hok, hc, fun eeprom flash hcomplete ↦ ?_⟩
  have hfollowed := ((chain_upgrade_iff 50 eeprom flash ram [300, 3] hchain hc (by decide)).mp
    hcomplete).2
  unfold Followed at hfollowed
  obtain ⟨-, -, hmore, -⟩ := hfollowed
  have hnext := (hmore (List.cons_ne_nil _ _)).1
  -- `next` is now the byte of the image that follows its header by 16
  have hread : reread (flashed eeprom ram 256 flash) ram 256 268 = ram (256 + (268 + 4)) := by
    refine reread_of_lt (k := 4096 * numOfCode1Sector) (.inl htype1) (by rw [htype1]) ?_
      (by rw [hlen1]; decide) (by rw [hlen1]; decide)
    unfold flashed
    rw [htype1, if_neg (by decide), if_pos rfl]
    rfl
  have hone' : reread (flashed eeprom ram 256 flash) ram 256 268 = 1 := hnext
  rw [hread, hzero 528 (by decide) (by decide)] at hone'
  exact absurd hone' (by decide)

end PrintServer.Flash
