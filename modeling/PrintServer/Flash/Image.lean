import Mathlib.Algebra.Group.Nat.Defs
import PrintServer.Flash.Crc32
import PrintServer.Lib.Memory

/-!
# Firmware images

`HEADER_VER` and the four places that check an image against its header: `PSCheckImageIntegrity`
and `DoChecksum` of rwflash.c, and the two checks of the loader.
-/

namespace PrintServer.Flash

open Lib

abbrev Memory := Nat → UInt8

/-- `NGET32`, and a DWORD in memory. -/
def nget32 (m : Memory) (p : Nat) : UInt32 :=
  (m p).toUInt32 ||| (m (p + 1)).toUInt32 <<< 8 ||| (m (p + 2)).toUInt32 <<< 16 |||
    (m (p + 3)).toUInt32 <<< 24

def le32 (x : UInt32) : List UInt8 :=
  [x.toUInt8, (x >>> 8).toUInt8, (x >>> 16).toUInt8, (x >>> 24).toUInt8]

def sizeofHeader : Nat := 256
def binIdOffset : Nat := 4

def allflashMark : UInt8 := 0xB0
def code1Mark : UInt8 := 0xB1
def code2Mark : UInt8 := 0xB2
def eepromMark : UInt8 := 0xB3
def loaderMark : UInt8 := 0xB4

/-- The fields of `HEADER_VER` that are looked at. -/
structure HeaderVer where
  crc32Chksum : UInt32
  mark : List UInt8
  bintype : UInt8
  fileLen : UInt32
  next : UInt8
  model : UInt8
deriving DecidableEq

/-- The header at an address. -/
def header (m : Memory) (p : Nat) : HeaderVer where
  crc32Chksum := nget32 m p
  mark := readMem m (p + 4) 3
  bintype := m (p + 7)
  fileLen := nget32 m (p + 8)
  next := m (p + 12)
  model := m (p + 34)

/-- "XGZ" -/
def xgz : List UInt8 := [0x58, 0x47, 0x5A]

/-! ## The checks of the firmware -/

def allflashAddrOff : Nat := 0
def loaderAddrOff : Nat := 0x00000000
def code1AddrOff : Nat := 0x00010000
def code2AddrOff : Nat := 0x00030000
def webOff : Nat := 0x00090000
def defaultAddrOff : Nat := 0x000FC000
def eepromAddrOff : Nat := 0x000FE000
def maxFlashOff : Nat := 0x00100000

/-- The offset for a type, `MAXFLASHOFF` for an unknown one. -/
def typeOffset (bintype : UInt8) : Nat :=
  if bintype = allflashMark then allflashAddrOff
  else if bintype = loaderMark then loaderAddrOff
  else if bintype = code1Mark then code1AddrOff
  else if bintype = code2Mark then code2AddrOff
  else if bintype = eepromMark then defaultAddrOff
  else maxFlashOff

/-- `PSCheckImageIntegrity` of the header at `p`; `model` is `CURRENT_PS_MODEL`. -/
def psCheckImageIntegrity (model : UInt8) (m : Memory) (p : Nat) : Nat :=
  let hdr := header m p
  if hdr.mark ≠ xgz ∨ hdr.model ≠ model then maxFlashOff
  else if crc32 (readMem m (p + binIdOffset) (hdr.fileLen + 252).toNat) ≠ hdr.crc32Chksum then
    maxFlashOff
  else typeOffset hdr.bintype

/-- `read_flash`: an address has 24 bits, and a length of 0 counts through all of an `u32`. -/
def readFlash (flash : Memory) (addr : Nat) (len : UInt32) : List UInt8 :=
  readMem (fun i ↦ flash (i % 2 ^ 24)) addr ((len - 1).toNat + 1)

/-- `DoChecksum`: what it returns, and the memory at `UPGRADE_TEMP_ADDRESS` after it.  The arguments
of its `memset` are in the wrong order, so that it sets nothing. -/
def doChecksum (model : UInt8) (flash : Memory) (addr : Nat) (ram : Memory) : UInt32 × Memory :=
  let hdr := header (fun i ↦ flash (i % 2 ^ 24)) addr
  if hdr.mark ≠ xgz ∨ hdr.model ≠ model then (0, ram)
  else
    let ram := writeMem ram 0 (readFlash flash (addr + binIdOffset) (hdr.fileLen + 252))
    if crc32 (readMem ram 0 (hdr.fileLen + 252).toNat) ≠ hdr.crc32Chksum then (0, ram)
    else (hdr.fileLen, ram)

/-! ## The checks of the loader -/

/-- `ZOT716U2CODE2Checksum` and `ZOT716U2CODE1Checksum` with their addresses and bounds; `sdram` is
the memory at `ZOT716U2_SDRAM_COPY_START`. -/
def zot716u2Checksum (start : Nat) (max : UInt32) (flash : Memory) (sdram : Memory) : UInt32 :=
  let length := nget32 (fun i ↦ flash (i % 2 ^ 24)) (start + 8)
  if length > max then 0
  else
    let sdram := writeMem sdram 0 (readFlash flash start (length + 256))
    let checkSum1 := nget32 sdram 0
    let length := nget32 sdram 8
    if length > max then 0
    else if crc32 (readMem sdram 4 (length + 252).toNat) ≠ checkSum1 then 0
    else length

def zot716u2Code2Checksum : Memory → Memory → UInt32 := zot716u2Checksum 0x00030000 0xC0000
def zot716u2Code1Checksum : Memory → Memory → UInt32 := zot716u2Checksum 0x00010000 0xB0000

/-! ## What they agree on -/

/-- An image of the model with `n` bytes behind its header. -/
structure IsImage (model : UInt8) (bintype : UInt8) (n : Nat) (m : Memory) (p : Nat) : Prop where
  mark : (header m p).mark = xgz
  type : (header m p).bintype = bintype
  model : (header m p).model = model
  fileLen : (header m p).fileLen = UInt32.ofNat n
  crc : (header m p).crc32Chksum = crc32 (readMem m (p + 4) (n + 252))

variable {m m' : Memory} {p q n : Nat} {model bintype : UInt8}

theorem nget32_congr (h : ∀ i < 4, m (p + i) = m' (q + i)) : nget32 m p = nget32 m' q := by
  unfold nget32
  rw [h 1 (by decide), h 2 (by decide), h 3 (by decide)]
  have h0 := h 0 (by decide)
  rw [Nat.add_zero, Nat.add_zero] at h0
  rw [h0]

theorem or_bytes (x : UInt32) :
    x.toUInt8.toUInt32 ||| (x >>> 8).toUInt8.toUInt32 <<< 8 ||| (x >>> 16).toUInt8.toUInt32 <<< 16 |||
      (x >>> 24).toUInt8.toUInt32 <<< 24 = x := by
  apply UInt32.toBitVec_inj.mp
  apply BitVec.eq_of_getLsbD_eq
  intro i hi
  simp only [UInt32.toBitVec_or, UInt32.toBitVec_shiftLeft, UInt8.toBitVec_toUInt32,
    UInt32.toBitVec_toUInt8, UInt32.toBitVec_shiftRight, BitVec.getLsbD_or, UInt32.toBitVec_ofNat,
    BitVec.shiftLeft_eq', BitVec.ushiftRight_eq', BitVec.getLsbD_shiftLeft,
    BitVec.getLsbD_setWidth, BitVec.getLsbD_ushiftRight]
  have e8 : (8#32 % 32).toNat = 8 := by decide
  have e16 : (16#32 % 32).toNat = 16 := by decide
  have e24 : (24#32 % 32).toNat = 24 := by decide
  rw [e8, e16, e24]
  -- the byte that holds bit `i`
  by_cases h8 : i < 8
  · have h16 : i < 16 := by omega
    have h24 : i < 24 := by omega
    simp [hi, h8, h16, h24]
  by_cases h16 : i < 16
  · have h24 : i < 24 := by omega
    have hlow : i - 8 < 8 := by omega
    have hback : 8 + (i - 8) = i := by omega
    have hi' : i - 8 < 32 := by omega
    simp [hi, h8, h16, h24, hlow, hback, hi']
  have h8' : ¬ i - 8 < 8 := by omega
  by_cases h24 : i < 24
  · have hlow : i - 16 < 8 := by omega
    have hback : 16 + (i - 16) = i := by omega
    have hi' : i - 16 < 32 := by omega
    simp [hi, h8, h16, h24, h8', hlow, hback, hi']
  · have h16' : ¬ i - 16 < 8 := by omega
    have hlow : i - 24 < 8 := by omega
    have hback : 24 + (i - 24) = i := by omega
    have hi' : i - 24 < 32 := by omega
    simp [hi, h8, h16, h24, h8', h16', hlow, hback, hi']

/-- A DWORD that was written is read back. -/
theorem nget32_of_bytes {x : UInt32} (h : ∀ i (hi : i < 4), m (p + i) = (le32 x)[i]) :
    nget32 m p = x := by
  have h0 := h 0 (by decide)
  rw [Nat.add_zero] at h0
  unfold nget32
  rw [h0, h 1 (by decide), h 2 (by decide), h 3 (by decide)]
  exact or_bytes x

theorem readMem_shift (h : ∀ i < n, m (p + i) = m' (q + i)) : readMem m p n = readMem m' q n := by
  apply List.map_congr_left
  intro i hi
  exact h i (List.mem_range.mp hi)

theorem header_congr (h : ∀ i < 35, m (p + i) = m' (q + i)) : header m p = header m' q := by
  have hshift (k : Nat) (hk : k + 4 ≤ 35) (i : Nat) (hi : i < 4) :
      m (p + k + i) = m' (q + k + i) := by
    have hki := h (k + i) (by omega)
    rwa [← Nat.add_assoc, ← Nat.add_assoc] at hki
  unfold header
  rw [@nget32_congr m m' p q fun i hi ↦ h i (by omega),
    nget32_congr (hshift 8 (by decide)),
    readMem_shift (n := 3) fun i hi ↦ hshift 4 (by decide) i (by omega), h 7 (by decide),
    h 12 (by decide), h 34 (by decide)]

/-- Only the bytes of an image matter. -/
theorem IsImage.congr (hi : IsImage model bintype n m p)
    (h : ∀ i < n + 256, m (p + i) = m' (q + i)) : IsImage model bintype n m' q := by
  have hhdr : header m' q = header m p :=
    (header_congr fun i hi ↦ h i (by omega)).symm
  refine ⟨by rw [hhdr, hi.mark], by rw [hhdr, hi.type], by rw [hhdr, hi.model],
    by rw [hhdr, hi.fileLen], ?_⟩
  rw [hhdr, hi.crc]
  refine congrArg crc32 (readMem_shift fun i hi ↦ ?_)
  have hki := h (4 + i) (by omega)
  rwa [← Nat.add_assoc, ← Nat.add_assoc] at hki

theorem toNat_fileLen (hn : n + 252 < 2 ^ 32) : (UInt32.ofNat n + 252).toNat = n + 252 := by
  have hnat : (UInt32.ofNat n).toNat = n :=
    UInt32.toNat_ofNat_of_lt' (by simp only [UInt32.size]; omega)
  rw [UInt32.toNat_add, hnat]
  exact Nat.mod_eq_of_lt hn

theorem IsImage.psCheckImageIntegrity (hi : IsImage model bintype n m p)
    (hn : n + 252 < 2 ^ 32) :
    psCheckImageIntegrity model m p = typeOffset bintype := by
  unfold Flash.psCheckImageIntegrity
  have hcrc : crc32 (readMem m (p + binIdOffset) ((header m p).fileLen + 252).toNat) =
      (header m p).crc32Chksum := by
    rw [hi.fileLen, toNat_fileLen hn, hi.crc]
    rfl
  simp only [hi.mark, hi.model, hcrc, hi.type]
  simp

/-- Within 24 bits the flash is read as it is. -/
theorem readFlash_eq {flash : Memory} {addr k : Nat} {len : UInt32} (hlen : len.toNat = k)
    (hpos : 0 < k) (h : addr + k ≤ 2 ^ 24) : readFlash flash addr len = readMem flash addr k := by
  have hone : (1 : UInt32) ≤ len := by
    rw [UInt32.le_iff_toNat_le, hlen]
    exact hpos
  have hcount : (len - 1).toNat + 1 = k := by
    rw [UInt32.toNat_sub_of_le _ _ hone, hlen]
    exact Nat.sub_add_cancel hpos
  unfold readFlash
  rw [hcount]
  exact readMem_shift fun i hi ↦ by rw [Nat.mod_eq_of_lt (by omega)]

theorem IsImage.linear {flash : Memory} {addr : Nat} (hi : IsImage model bintype n flash addr)
    (h : addr + (n + 256) ≤ 2 ^ 24) :
    IsImage model bintype n (fun i ↦ flash (i % 2 ^ 24)) addr :=
  hi.congr fun i hi ↦ by rw [Nat.mod_eq_of_lt (by omega)]

/-- What `DoChecksum` leaves in the memory, whether or not the checksum is right. -/
theorem doChecksum_ram {flash ram : Memory} {addr : Nat}
    (hmark : (header (fun i ↦ flash (i % 2 ^ 24)) addr).mark = xgz)
    (hmodel : (header (fun i ↦ flash (i % 2 ^ 24)) addr).model = model) :
    (doChecksum model flash addr ram).2 = writeMem ram 0 (readFlash flash (addr + binIdOffset)
      ((header (fun i ↦ flash (i % 2 ^ 24)) addr).fileLen + 252)) := by
  have hpass : ¬ ((header (fun i ↦ flash (i % 2 ^ 24)) addr).mark ≠ xgz ∨
      (header (fun i ↦ flash (i % 2 ^ 24)) addr).model ≠ model) := by
    rintro (hno | hno)
    · exact hno hmark
    · exact hno hmodel
  unfold Flash.doChecksum
  rw [if_neg hpass, apply_ite Prod.snd, ite_self]

theorem IsImage.doChecksum {flash ram : Memory} {addr : Nat}
    (hi : IsImage model bintype n flash addr) (h : addr + (n + 256) ≤ 2 ^ 24) :
    (doChecksum model flash addr ram).1 = UInt32.ofNat n := by
  have hl := hi.linear h
  have hend : addr + 4 + (n + 252) = addr + (n + 256) := by omega
  have hfit : addr + 4 + (n + 252) ≤ 2 ^ 24 := by
    rw [hend]
    exact h
  have hn := toNat_fileLen (n := n) (by omega)
  have hread : readFlash flash (addr + 4) (UInt32.ofNat n + 252) =
      readMem flash (addr + 4) (n + 252) := readFlash_eq hn (Nat.succ_pos _) hfit
  have hback : readMem (writeMem ram 0 (readMem flash (addr + 4) (n + 252))) 0 (n + 252) =
      readMem flash (addr + 4) (n + 252) := by
    have hrw := @readMem_writeMem _ ram 0 (readMem flash (addr + 4) (n + 252))
    rwa [length_readMem] at hrw
  unfold Flash.doChecksum
  simp only [hl.mark, hl.model, hl.fileLen, binIdOffset, hread, hn, hback]
  have hcrc : (header (fun i ↦ flash (i % 2 ^ 24)) addr).crc32Chksum =
      crc32 (readMem flash (addr + 4) (n + 252)) := by
    rw [hl.crc]
    exact congrArg crc32 (readMem_shift fun i hi ↦ by rw [Nat.mod_eq_of_lt (by omega)])
  rw [hcrc]
  simp

theorem IsImage.zot716u2Checksum {flash sdram : Memory} {start : Nat} {max : UInt32}
    (hi : IsImage model bintype n flash start) (h : start + (n + 256) ≤ 2 ^ 24)
    (hmax : n ≤ max.toNat) :
    zot716u2Checksum start max flash sdram = UInt32.ofNat n := by
  have hl := hi.linear h
  have hn := toNat_fileLen (n := n) (by omega)
  have hnat : (UInt32.ofNat n).toNat = n :=
    UInt32.toNat_ofNat_of_lt' (by simp only [UInt32.size]; omega)
  have hfull : (UInt32.ofNat n + 256).toNat = n + 256 := by
    rw [UInt32.toNat_add, hnat]
    exact Nat.mod_eq_of_lt (by simp; omega)
  have hlen : nget32 (fun i ↦ flash (i % 2 ^ 24)) (start + 8) = UInt32.ofNat n := hl.fileLen
  have hle : ¬ UInt32.ofNat n > max := by
    rw [gt_iff_lt, UInt32.lt_iff_toNat_lt, hnat]
    omega
  have hread : readFlash flash start (UInt32.ofNat n + 256) = readMem flash start (n + 256) :=
    readFlash_eq hfull (by omega) h
  -- the copy in the memory is the image again
  have hcopy : IsImage model bintype n (writeMem sdram 0 (readMem flash start (n + 256))) 0 := by
    refine hi.congr fun i hi ↦ ?_
    rw [writeMem_add (by rw [length_readMem]; exact hi)]
    simp [readMem]
  have hlen' : nget32 (writeMem sdram 0 (readMem flash start (n + 256))) 8 = UInt32.ofNat n :=
    hcopy.fileLen
  have hcrc : nget32 (writeMem sdram 0 (readMem flash start (n + 256))) 0 =
      crc32 (readMem (writeMem sdram 0 (readMem flash start (n + 256))) 4 (n + 252)) := hcopy.crc
  unfold Flash.zot716u2Checksum
  simp only [hlen, if_neg hle, hread, hlen', hn, hcrc]
  simp

end PrintServer.Flash
