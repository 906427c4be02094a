import Mathlib.Data.List.GetD
import Mathlib.Tactic.IntervalCases
import PrintServer.Flash.Image

/-!
# makimage

The images that makimage writes, and that all of the checks accept them.  `pDestMem` is a memory
that holds 0xFF where nothing was written.
-/

namespace PrintServer.Flash

open Lib

/-- The arguments of makimage, and the text that `sprintf` writes from `data` on. -/
structure ImageArgs where
  model : Int
  majorVer : Int
  minorVer : Int
  releaseVer : Int
  rdVersion : Int
  buildVer : Int
  text : List UInt8
  text_le : text.length ≤ 214

def memSize : Nat := 2 * 1024 * 1024 + 32

/-- The fields in front of `next`, with the checksum still 0. -/
def headerFront (bintype : UInt8) (nRead : Nat) : List UInt8 :=
  le32 0 ++ xgz ++ [bintype] ++ le32 (UInt32.ofNat nRead)

/-- The fields behind `next`. -/
def headerBack (a : ImageArgs) : List UInt8 :=
  List.replicate 19 0 ++
    [UInt8.ofInt a.majorVer, UInt8.ofInt a.minorVer, UInt8.ofInt a.model,
      UInt8.ofInt a.releaseVer] ++
    le32 (UInt32.ofInt (a.rdVersion + 1)) ++
    [UInt8.ofInt a.buildVer, UInt8.ofInt (a.buildVer / 256)] ++
    (a.text ++ List.replicate (214 - a.text.length) 0)

def headerBytes (a : ImageArgs) (bintype : UInt8) (nRead : Nat) (nextbin : UInt8) : List UInt8 :=
  headerFront bintype nRead ++ nextbin :: headerBack a

/-- `hdr1->crc32_chksum = crc32( hdr1->mark, n, 0xFFFFFFFFL )` -/
def setChksum (n : UInt32) (m : Memory) (p : Nat) : Memory :=
  writeMem m p (le32 (crc32 (readMem m (p + 4) n.toNat)))

/-- `SetupHeader`, behind the `memset` of the header. -/
def setupHeader (a : ImageArgs) (bintype : UInt8) (nRead : Nat) (nextbin : UInt8) (m : Memory)
    (p : Nat) : Memory :=
  setChksum (UInt32.ofNat nRead + 252) (writeMem m p (headerBytes a bintype nRead nextbin)) p

def updateHeader (nextbin : UInt8) (m : Memory) (p : Nat) : Memory :=
  setChksum ((header m p).fileLen + 252) (writeMem m (p + 12) [nextbin]) p

/-- `EEPROMChksum`, for at least four bytes. -/
def eepromChksum (bs : List UInt8) : List UInt8 :=
  bs.take (bs.length - 4) ++ le32 (crc32 (bs.take (bs.length - 4)))

/-- What makimage copies to `pDestMem` of a source file. -/
def sourceBytes (bintype : UInt8) (src : List UInt8) : List UInt8 :=
  if bintype = eepromMark then eepromChksum src else src

/-- `main` for a type other than ALLFLASH: the destination file, `none` for none. -/
def makeImage (a : ImageArgs) (bintype : UInt8) (src : List UInt8) : Option (List UInt8) :=
  let nRead := min src.length (memSize - 256)
  let m := writeMem (fun _ ↦ 0xFF) 256 (sourceBytes bintype (src.take nRead))
  if nRead = memSize - 256 then none
  else some (readMem (setupHeader a bintype nRead 0 m 0) 0 (nRead + 256))

/-- The loop of the ALLFLASH branch over the types and the source files: `pDestMem`, and the sum of
the file lengths. -/
def mergeImages : List (UInt8 × List UInt8) → Memory → Nat → Nat → Option (Memory × Nat)
  | [], m, _, nTotal => some (m, nTotal)
  | (bintype2, src) :: files, m, hdr2, nTotal =>
      let memRemain := memSize - hdr2
      let nRead := min src.length memRemain
      if nRead = 0 ∨ nRead = memRemain then none
      else
        let m := writeMem m hdr2 (sourceBytes bintype2 (src.take nRead))
        let m := updateHeader (if files = [] then 100 else 1) m hdr2
        mergeImages files m (hdr2 + nRead) (nTotal + nRead)

/-- `main` for ALLFLASH, with the flash size in bytes. -/
def makeAllFlash (a : ImageArgs) (flashSize : Nat) (files : List (UInt8 × List UInt8)) :
    Option (List UInt8) :=
  match mergeImages files (fun _ ↦ 0xFF) 256 256 with
  | none => none
  | some (m, nTotal) =>
      let m := setupHeader a allflashMark nTotal 1 m 0
      if nTotal + 256 > flashSize then none else some (readMem m 0 (nTotal + 256))

variable {a : ImageArgs} {m m' : Memory} {p n : Nat} {bintype next model : UInt8}

/-! ## Headers -/

theorem length_headerBytes (a : ImageArgs) (bintype : UInt8) (n : Nat) (next : UInt8) :
    (headerBytes a bintype n next).length = 256 := by
  have htext := a.text_le
  simp only [headerBytes, headerFront, headerBack, le32, xgz, List.length_append,
    List.length_cons, List.length_nil, List.length_replicate]
  omega

/-- The memory at `p` holds a header whose checksum does not matter. -/
def HoldsHeader (a : ImageArgs) (bintype : UInt8) (n : Nat) (next : UInt8) (m : Memory) (p : Nat) :
    Prop :=
  ∀ i, 4 ≤ i → i < 256 → m (p + i) = (headerBytes a bintype n next).getD i 0

theorem HoldsHeader.fields (h : HoldsHeader a bintype n next m p) :
    (header m p).mark = xgz ∧ (header m p).bintype = bintype ∧
      (header m p).fileLen = UInt32.ofNat n ∧ (header m p).model = UInt8.ofInt a.model := by
  refine ⟨?_, h 7 (by decide) (by decide), ?_, h 34 (by decide) (by decide)⟩
  · have h4 := h 4 (by decide) (by decide)
    have h5 := h 5 (by decide) (by decide)
    have h6 := h 6 (by decide) (by decide)
    change [m (p + 4), m (p + 5), m (p + 6)] = xgz
    rw [h4, h5, h6]
    rfl
  · refine nget32_of_bytes fun i hi ↦ ?_
    rw [Nat.add_assoc, h (8 + i) (by omega) (by omega)]
    interval_cases i
    all_goals rfl

theorem setChksum_of_ge {k : UInt32} {i : Nat} (hi : p + 4 ≤ i) : setChksum k m p i = m i :=
  writeMem_of_ge hi

theorem setChksum_of_lt {k : UInt32} {i : Nat} (hi : i < p) : setChksum k m p i = m i :=
  writeMem_of_lt hi

/-- The checksum of a header is right once it is set. -/
theorem setChksum_crc {k : UInt32} :
    (header (setChksum k m p) p).crc32Chksum =
      crc32 (readMem (setChksum k m p) (p + 4) k.toNat) := by
  have hrest : readMem (setChksum k m p) (p + 4) k.toNat = readMem m (p + 4) k.toNat :=
    readMem_congr fun i hi _ ↦ setChksum_of_ge hi
  rw [hrest]
  exact nget32_of_bytes fun i hi ↦ writeMem_add hi

theorem HoldsHeader.setChksum (h : HoldsHeader a bintype n next m p) (k : UInt32) :
    HoldsHeader a bintype n next (setChksum k m p) p := fun i h4 hi ↦ by
  rw [setChksum_of_ge (by omega), h i h4 hi]

theorem headerBytes_getD_of_lt {i : Nat} (hi : i < 12) :
    (headerBytes a bintype n next).getD i 0 = (headerFront bintype n).getD i 0 :=
  List.getD_append _ _ _ _ hi

theorem headerBytes_getD_of_gt {i : Nat} (hi : 12 < i) :
    (headerBytes a bintype n next).getD i 0 = (headerBack a).getD (i - 13) 0 := by
  have hlen : (headerFront bintype n).length = 12 := rfl
  obtain ⟨j, rfl⟩ : ∃ j, i = j + 13 := ⟨i - 13, by omega⟩
  have hj : j + 13 - 12 = j + 1 := by omega
  unfold headerBytes
  rw [List.getD_append_right _ _ _ _ (by omega), hlen, hj, List.getD_cons_succ,
    Nat.add_sub_cancel]

/-- `UpdateHeader` writes another `next`. -/
theorem HoldsHeader.update {next' : UInt8} (h : HoldsHeader a bintype n next m p) :
    HoldsHeader a bintype n next' (writeMem m (p + 12) [next']) p := by
  intro i h4 hi
  rcases Nat.lt_trichotomy i 12 with hlt | rfl | hgt
  · rw [writeMem_of_lt (by omega), h i h4 hi, headerBytes_getD_of_lt hlt,
      headerBytes_getD_of_lt hlt]
  · exact @writeMem_add _ m (p + 12) 0 [next'] Nat.zero_lt_one
  · rw [writeMem_of_ge (by rw [List.length_singleton]; omega), h i h4 hi,
      headerBytes_getD_of_gt hgt, headerBytes_getD_of_gt hgt]

theorem HoldsHeader.isImage (h : HoldsHeader a bintype n next m p)
    (hcrc : (header m p).crc32Chksum = crc32 (readMem m (p + 4) (n + 252))) :
    IsImage (UInt8.ofInt a.model) bintype n m p := by
  obtain ⟨hmark, htype, hlen, hmodel⟩ := h.fields
  exact ⟨hmark, htype, hmodel, hlen, hcrc⟩

theorem holdsHeader_write (a : ImageArgs) (bintype : UInt8) (n : Nat) (next : UInt8) (m : Memory)
    (p : Nat) : HoldsHeader a bintype n next (writeMem m p (headerBytes a bintype n next)) p := by
  intro i _ hi
  have hlen := length_headerBytes a bintype n next
  rw [writeMem_add (by omega), List.getD_eq_getElem?_getD, List.getElem?_eq_getElem (by omega)]
  rfl

/-- `SetupHeader` makes an image. -/
theorem setupHeader_isImage (a : ImageArgs) (bintype next : UInt8) (m : Memory) (p : Nat)
    (hn : n + 252 < 2 ^ 32) :
    HoldsHeader a bintype n next (setupHeader a bintype n next m p) p ∧
      IsImage (UInt8.ofInt a.model) bintype n (setupHeader a bintype n next m p) p := by
  have hhdr : HoldsHeader a bintype n next (setupHeader a bintype n next m p) p :=
    (holdsHeader_write a bintype n next m p).setChksum _
  refine ⟨hhdr, hhdr.isImage ?_⟩
  have hcrc := @setChksum_crc (writeMem m p (headerBytes a bintype n next)) p
    (UInt32.ofNat n + 252)
  rw [toNat_fileLen hn] at hcrc
  exact hcrc

/-- `UpdateHeader` leaves an image. -/
theorem updateHeader_isImage (next' : UInt8) (hn : n + 252 < 2 ^ 32)
    (h : HoldsHeader a bintype n next m p) :
    IsImage (UInt8.ofInt a.model) bintype n (updateHeader next' m p) p := by
  have hhdr : HoldsHeader a bintype n next' (updateHeader next' m p) p := h.update.setChksum _
  refine hhdr.isImage ?_
  have hcrc := @setChksum_crc (writeMem m (p + 12) [next']) p ((header m p).fileLen + 252)
  have hlen : ((header m p).fileLen + 252).toNat = n + 252 := by
    rw [h.fields.2.2.1, toNat_fileLen hn]
  rw [hlen] at hcrc
  exact hcrc

/-! ## The checks -/

/-- What the checks make of an image with `n` bytes behind its header, wherever its bytes are
stored. -/
structure Accepted (model bintype : UInt8) (n : Nat) (image : List UInt8) : Prop where
  integrity : ∀ ram p, readMem ram p image.length = image →
    psCheckImageIntegrity model ram p = typeOffset bintype
  known : typeOffset bintype ≠ maxFlashOff
  doChecksum : bintype = code1Mark ∨ bintype = code2Mark →
    ∀ flash ram, readMem flash (typeOffset bintype) image.length = image →
      (doChecksum model flash (typeOffset bintype) ram).1 = UInt32.ofNat n
  code1 : bintype = code1Mark → ∀ flash sdram,
    readMem flash (typeOffset bintype) image.length = image →
      zot716u2Code1Checksum flash sdram = UInt32.ofNat n
  code2 : bintype = code2Mark → ∀ flash sdram,
    readMem flash (typeOffset bintype) image.length = image →
      zot716u2Code2Checksum flash sdram = UInt32.ofNat n

theorem readMem_eq_iff {q k : Nat} (h : readMem m p k = readMem m' q k) :
    ∀ i < k, m (p + i) = m' (q + i) := by
  intro i hi
  have hget := congrArg (fun l ↦ l[i]?) h
  simp only [getElem?_readMem hi] at hget
  exact Option.some.inj hget

theorem IsImage.accepted (hi : IsImage model bintype n m p) (hn : n + 252 < 2 ^ 32)
    (hknown : typeOffset bintype ≠ maxFlashOff)
    (hcode : bintype = code1Mark ∨ bintype = code2Mark → n ≤ 0xB0000) :
    Accepted model bintype n (readMem m p (n + 256)) := by
  have hmove (m' : Memory) (q : Nat)
      (h : readMem m' q (readMem m p (n + 256)).length = readMem m p (n + 256)) :
      IsImage model bintype n m' q := by
    rw [length_readMem] at h
    exact hi.congr fun i hi ↦ (readMem_eq_iff h i hi).symm
  have hfit : bintype = code1Mark ∨ bintype = code2Mark →
      typeOffset bintype + (n + 256) ≤ 2 ^ 24 := by
    intro h
    have hle := hcode h
    have hoff : typeOffset bintype ≤ 0x30000 := by
      rcases h with rfl | rfl <;> decide
    exact Nat.le_trans (Nat.add_le_add hoff (Nat.add_le_add_right hle 256)) (by decide)
  refine ⟨fun ram q h ↦ (hmove ram q h).psCheckImageIntegrity hn, hknown,
    fun h flash ram hflash ↦ (hmove flash _ hflash).doChecksum (hfit h), ?_, ?_⟩
  · rintro rfl flash sdram hflash
    have hle := hcode (.inl rfl)
    exact (hmove flash _ hflash).zot716u2Checksum (hfit (.inl rfl)) hle
  · rintro rfl flash sdram hflash
    have hle := hcode (.inr rfl)
    exact (hmove flash _ hflash).zot716u2Checksum (hfit (.inr rfl))
      (Nat.le_trans hle (by decide))

/-! ## Single images -/

theorem length_eepromChksum {bs : List UInt8} (h : 4 ≤ bs.length) :
    (eepromChksum bs).length = bs.length := by
  rw [eepromChksum, List.length_append, List.length_take_of_le (Nat.sub_le _ _)]
  exact Nat.sub_add_cancel h

theorem length_sourceBytes {src : List UInt8} (h : bintype = eepromMark → 4 ≤ src.length) :
    (sourceBytes bintype src).length = src.length := by
  unfold sourceBytes
  split
  · exact length_eepromChksum (h ‹_›)
  · rfl

/-- A payload of at most `MEM_SIZE`. -/
theorem makeImage_eq (a : ImageArgs) (bintype : UInt8) {src : List UInt8}
    (hn : src.length < memSize - 256) :
    ∃ m, makeImage a bintype src = some (readMem m 0 (src.length + 256)) ∧
      HoldsHeader a bintype src.length 0 m 0 ∧
      IsImage (UInt8.ofInt a.model) bintype src.length m 0 := by
  have hmin : min src.length (memSize - 256) = src.length := Nat.min_eq_left (Nat.le_of_lt hn)
  have hsize : memSize = 2097184 := rfl
  obtain ⟨hhdr, himage⟩ := setupHeader_isImage a bintype 0
    (writeMem (fun _ ↦ 0xFF) 256 (sourceBytes bintype src)) 0 (n := src.length) (by omega)
  refine ⟨_, ?_, hhdr, himage⟩
  unfold makeImage
  simp only [hmin, List.take_length]
  rw [if_neg (Nat.ne_of_lt hn)]


theorem makeImage_some {src file : List UInt8} (h : makeImage a bintype src = some file) :
    src.length < memSize - 256 := by
  unfold makeImage at h
  simp only at h
  split at h
  · cases h
  · have hne : min src.length (memSize - 256) ≠ memSize - 256 := ‹_›
    omega

/-- An image as it was written, and the type it is merged under. -/
structure SubImage (model : UInt8) where
  args : ImageArgs
  bintype : UInt8
  src : List UInt8
  file : List UInt8
  bintype2 : UInt8
  made : makeImage args bintype src = some file
  model_eq : UInt8.ofInt args.model = model
  known : typeOffset bintype ≠ maxFlashOff
  code_le : bintype = code1Mark ∨ bintype = code2Mark → src.length ≤ 0xB0000
  eeprom_le : bintype2 = eepromMark → 4 ≤ src.length

theorem SubImage.file_eq (s : SubImage model) :
    ∃ m, s.file = readMem m 0 (s.src.length + 256) ∧
      HoldsHeader s.args s.bintype s.src.length 0 m 0 := by
  obtain ⟨m, hmade, hhdr, _⟩ := makeImage_eq s.args s.bintype (makeImage_some s.made)
  rw [s.made] at hmade
  exact ⟨m, Option.some.inj hmade, hhdr⟩

theorem SubImage.length_file (s : SubImage model) : s.file.length = s.src.length + 256 := by
  obtain ⟨m, hfile, _⟩ := s.file_eq
  rw [hfile, length_readMem]

theorem SubImage.length_sourceBytes (s : SubImage model) :
    (sourceBytes s.bintype2 s.file).length = s.src.length + 256 := by
  rw [Flash.length_sourceBytes fun h ↦ by rw [s.length_file]; omega, s.length_file]

/-- The checksum of an EEPROM is behind its header. -/
theorem SubImage.sourceBytes_getElem? (s : SubImage model) {i : Nat} (hi : i < 256) :
    (sourceBytes s.bintype2 s.file)[i]? = s.file[i]? := by
  have hlen := s.length_file
  unfold sourceBytes
  split
  · have h4 := s.eeprom_le ‹_›
    have hin : i < (s.file.take (s.file.length - 4)).length := by
      rw [List.length_take]
      omega
    rw [eepromChksum, List.getElem?_append_left hin, List.getElem?_take_of_lt (by omega)]
  · rfl

theorem SubImage.holdsHeader (s : SubImage model) (m : Memory) (p : Nat) :
    HoldsHeader s.args s.bintype s.src.length 0 (writeMem m p (sourceBytes s.bintype2 s.file)) p := by
  intro i h4 hi
  obtain ⟨m₀, hfile, hhdr⟩ := s.file_eq
  have hlt : i < (sourceBytes s.bintype2 s.file).length := by
    rw [s.length_sourceBytes]
    omega
  have hget : (sourceBytes s.bintype2 s.file)[i]? = some (m₀ (0 + i)) := by
    rw [s.sourceBytes_getElem? hi, hfile]
    exact getElem?_readMem (by omega)
  rw [List.getElem?_eq_getElem hlt] at hget
  rw [writeMem_add hlt, Option.some.inj hget, hhdr i h4 hi]

/-! ## ALLFLASH -/

/-- The image that a merged file becomes. -/
def MergedTo (s : SubImage model) (image : List UInt8) : Prop :=
  image.length = s.src.length + 256 ∧ Accepted model s.bintype s.src.length image

/-- One turn of the loop. -/
theorem SubImage.merged (s : SubImage model) (next : UInt8) (m : Memory) (p : Nat) :
    let m' := updateHeader next (writeMem m p (sourceBytes s.bintype2 s.file)) p
    MergedTo s (readMem m' p (s.src.length + 256)) ∧
      (∀ i < p, m' i = m i) ∧ ∀ i, p + (s.src.length + 256) ≤ i → m' i = m i := by
  have hsize : memSize = 2097184 := rfl
  have hsrc := makeImage_some s.made
  have himage := updateHeader_isImage next (by omega) (s.holdsHeader m p)
  rw [s.model_eq] at himage
  refine ⟨⟨length_readMem, himage.accepted (by omega) s.known s.code_le⟩, ?_, ?_⟩
  · intro i hi
    unfold updateHeader
    rw [setChksum_of_lt hi, writeMem_of_lt (by omega), writeMem_of_lt hi]
  · intro i hi
    unfold updateHeader
    rw [setChksum_of_ge (by omega), writeMem_of_ge (by rw [List.length_singleton]; omega),
      writeMem_of_ge (by rw [s.length_sourceBytes]; exact hi)]

def SubImage.entry (s : SubImage model) : UInt8 × List UInt8 := (s.bintype2, s.file)

/-- What the loop leaves in `pDestMem` from `hdr2` on. -/
theorem mergeImages_spec (subs : List (SubImage model)) {m m' : Memory} {hdr2 nTotal nTotal' : Nat}
    (h : mergeImages (subs.map SubImage.entry) m hdr2 nTotal = some (m', nTotal'))
    (hle : hdr2 ≤ memSize) :
    ∃ images, List.Forall₂ MergedTo subs images ∧ nTotal' = nTotal + images.flatten.length ∧
      hdr2 + images.flatten.length ≤ memSize ∧
      readMem m' hdr2 images.flatten.length = images.flatten ∧
      ∀ i, i < hdr2 ∨ hdr2 + images.flatten.length ≤ i → m' i = m i := by
  induction subs generalizing m hdr2 nTotal with
  | nil =>
    obtain ⟨rfl, rfl⟩ : m = m' ∧ nTotal = nTotal' := by
      simpa only [List.map_nil, mergeImages, Option.some.injEq, Prod.mk.injEq] using h
    exact ⟨[], .nil, rfl, hle, rfl, fun _ _ ↦ rfl⟩
  | cons s subs ih =>
    have hlen := s.length_file
    rw [List.map_cons, SubImage.entry, mergeImages] at h
    simp only at h
    split at h
    · cases h
    have hread : ¬ (min s.file.length (memSize - hdr2) = 0 ∨
      min s.file.length (memSize - hdr2) = memSize - hdr2) := ‹_›
    have hmin : min s.file.length (memSize - hdr2) = s.src.length + 256 := by omega
    have htake : s.file.take (s.src.length + 256) = s.file :=
      List.take_of_length_le (Nat.le_of_eq hlen)
    rw [hmin, htake] at h
    obtain ⟨hmerged, hlow, hhigh⟩ :=
      s.merged (if subs.map SubImage.entry = [] then 100 else 1) m hdr2
    obtain ⟨images, himages, htotal, hend, hbytes, hframe⟩ := ih h (by omega)
    -- the first image stays as the later ones are written behind it
    have hfirst := readMem_congr (n := s.src.length + 256) fun i (_ : hdr2 ≤ i) hi ↦
      hframe i (.inl hi)
    rw [← hfirst] at hmerged
    have hflat : (readMem m' hdr2 (s.src.length + 256) :: images).flatten.length =
        s.src.length + 256 + images.flatten.length := by
      rw [List.flatten_cons, List.length_append, length_readMem]
    refine ⟨_, .cons hmerged himages, ?_, ?_, ?_, ?_⟩
    · rw [htotal, hflat]
      omega
    · rw [hflat]
      omega
    · rw [hflat, readMem_add, hbytes, List.flatten_cons]
    · intro i hi
      rw [hflat] at hi
      rcases hi with hi | hi
      · rw [hframe i (.inl (by omega)), hlow i hi]
      · rw [hframe i (.inr (by omega)), hhigh i (by omega)]

theorem setupHeader_of_ge {i : Nat} (hi : p + 256 ≤ i) :
    setupHeader a bintype n next m p i = m i := by
  have hlen := length_headerBytes a bintype n next
  unfold setupHeader
  rw [setChksum_of_ge (by omega), writeMem_of_ge (by omega)]

/-- The file of the ALLFLASH branch: a header, the images, and the room that the last addition to
`nTotal` leaves behind them. -/
structure AllFlash (subs : List (SubImage model)) (file : List UInt8) (images : List (List UInt8)) :
    Prop where
  layout : ∃ front back, file = front ++ (images.flatten ++ back) ∧ front.length = 256 ∧
    back.length = 256
  merged : List.Forall₂ MergedTo subs images
  integrity : ∀ ram p, readMem ram p file.length = file →
    psCheckImageIntegrity model ram p = allflashAddrOff

theorem makeAllFlash_spec {flashSize : Nat} {file : List UInt8}
    (subs : List (SubImage (UInt8.ofInt a.model)))
    (h : makeAllFlash a flashSize (subs.map SubImage.entry) = some file) :
    ∃ images, AllFlash subs file images := by
  unfold makeAllFlash at h
  cases hmerge : mergeImages (subs.map SubImage.entry) (fun _ ↦ 0xFF) 256 256 with
  | none =>
    rw [hmerge] at h
    cases h
  | some r =>
    obtain ⟨m, nTotal⟩ := r
    have hsize : memSize = 2097184 := rfl
    obtain ⟨images, himages, htotal, hend, hbytes, _⟩ := mergeImages_spec subs hmerge (by decide)
    rw [hmerge] at h
    simp only at h
    split at h
    · cases h
    have hfile := (Option.some.inj h).symm
    obtain ⟨_, himage⟩ := setupHeader_isImage a allflashMark 1 m 0 (n := nTotal) (by omega)
    have hlen : file.length = nTotal + 256 := by rw [hfile, length_readMem]
    have hacc := himage.accepted (by omega) (by decide) (by
      rintro (h | h) <;> exact absurd h (by decide))
    rw [← hfile] at hacc
    have hall : nTotal + 256 = 256 + (images.flatten.length + 256) := by omega
    have hkept : readMem (setupHeader a allflashMark nTotal 1 m 0) 256 images.flatten.length =
        images.flatten := by
      rw [← hbytes, length_readMem]
      exact readMem_congr fun i hi _ ↦ setupHeader_of_ge (by omega)
    refine ⟨images, ⟨readMem (setupHeader a allflashMark nTotal 1 m 0) 0 256,
      readMem (setupHeader a allflashMark nTotal 1 m 0) (256 + images.flatten.length) 256, ?_,
      length_readMem, length_readMem⟩, himages, hacc.integrity⟩
    rw [hfile, hall, readMem_add, Nat.zero_add, readMem_add, hkept]

/-! ## Agreement -/

/-- What makimage writes for code1 or code2 passes every check, and so does all that it puts into
an ALLFLASH file, and the file itself. -/
theorem makimage_accepted :
    (∀ (a : ImageArgs) (bintype : UInt8) (src : List UInt8),
      bintype = code1Mark ∨ bintype = code2Mark → 0 < src.length → src.length ≤ 0xB0000 →
        ∃ file, makeImage a bintype src = some file ∧ file.length = src.length + 256 ∧
          Accepted (UInt8.ofInt a.model) bintype src.length file) ∧
    ∀ (a : ImageArgs) (flashSize : Nat) (subs : List (SubImage (UInt8.ofInt a.model)))
      (file : List UInt8), makeAllFlash a flashSize (subs.map SubImage.entry) = some file →
        ∃ images, AllFlash subs file images := by
  refine ⟨?_, fun a flashSize subs file h ↦ makeAllFlash_spec subs h⟩
  intro a bintype src hcode _ hle
  have hsize : memSize = 2097184 := rfl
  obtain ⟨m, hmade, _, himage⟩ := @makeImage_eq a bintype src (by omega)
  have hknown : typeOffset bintype ≠ maxFlashOff := by
    rcases hcode with rfl | rfl <;> decide
  exact ⟨_, hmade, length_readMem, himage.accepted (by omega) hknown fun _ ↦ hle⟩

theorem makimage_accepted_three :
    (∃ file, makeImage ⟨50, 9, 1, 0, 0, 12, [], Nat.zero_le _⟩ code1Mark [1, 2, 3] = some file ∧
      file.length = 259 ∧ Accepted 50 code1Mark 3 file) ∧
    ∃ (sub : SubImage 50) (file : List UInt8) (images : List (List UInt8)),
      makeAllFlash ⟨50, 9, 1, 0, 0, 12, [], Nat.zero_le _⟩ 0x100000 [sub.entry] = some file ∧
        AllFlash [sub] file images := by
  obtain ⟨file, hfile, hlen, hacc⟩ := makimage_accepted.1
    ⟨50, 9, 1, 0, 0, 12, [], Nat.zero_le _⟩ code1Mark [1, 2, 3] (.inl rfl) (by decide) (by decide)
  refine ⟨⟨file, hfile, hlen, hacc⟩, ?_⟩
  have hsome : (makeAllFlash ⟨50, 9, 1, 0, 0, 12, [], Nat.zero_le _⟩ 0x100000
      [(code1Mark, file)]).isSome := by
    have hmin : min file.length (memSize - 256) = 259 := by
      rw [hlen]
      decide
    simp only [makeAllFlash, mergeImages, hmin]
    rw [if_neg (by decide)]
    rfl
  obtain ⟨whole, hwhole⟩ := Option.isSome_iff_exists.mp hsome
  obtain ⟨sub, hentry⟩ : ∃ sub : SubImage 50, sub.entry = (code1Mark, file) :=
    ⟨⟨_, code1Mark, [1, 2, 3], file, code1Mark, hfile, rfl, by decide, fun _ ↦ by decide,
      fun h ↦ absurd h (by decide)⟩, rfl⟩
  rw [← hentry] at hwhole
  obtain ⟨images, himages⟩ := makimage_accepted.2 ⟨50, 9, 1, 0, 0, 12, [], Nat.zero_le _⟩ 0x100000
    [sub] whole hwhole
  exact ⟨sub, whole, images, hwhole, himages⟩

end PrintServer.Flash
