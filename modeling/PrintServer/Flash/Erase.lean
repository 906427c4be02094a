import PrintServer.Flash.Store

/-!
# Erasing in machine words

`vEraseFlash` of spiflash.c with the arithmetic of its 32-bit words.  The address is that of the
processor, which has the flash at `FLASHBASE`.
-/

namespace PrintServer.Flash.Words

open Lib

def flashBase : UInt32 := 0x30000000

variable {σ : Type} (chip : Chip σ)

/-- `Spi_Flash_Sector_Erase`, which sends 24 bits of the address. -/
def sectorErase (sectorAddr : UInt32) (s : σ) : Done σ :=
  let a := (sectorAddr &&& 0xFFFFFF).toNat
  let r := chip.sectorErase a s
  ⟨if r.1 then 0 else errProgError, r.2, [.erase a r.1]⟩

/-- The loop of `spi_flash_erase`, in `fuel` turns at most. -/
def spiFlashErase : Nat → Int32 → Int32 → σ → Option (Done σ)
  | 0, _, _, _ => none
  | fuel + 1, sect, last, s =>
      if sect ≤ last then
        let d := sectorErase chip (sect * 4096).toUInt32 s
        if d.rc = 0 then
          (spiFlashErase fuel (sect + 1) last d.state).map fun d' ↦ d.seq fun _ _ ↦ d'
        else some d
      else some ⟨0, s, []⟩

def startSect (fp : UInt32) : UInt32 := (fp - flashBase) / 4096

/-- `vEraseFlash`; what the test finds is overwritten. -/
def vEraseFlash (fuel : Nat) (fp nsectors : UInt32) (s : σ) : Option (Done σ) :=
  let stopSect := startSect fp + nsectors - 1
  (spiFlashErase chip fuel (startSect fp).toInt32 stopSect.toInt32 s).map fun d ↦
    { d with rc := if d.rc ≠ 0 then -1 else 0 }

/-! ## The property -/

/-- A sector of the request is beyond the chip's 256. -/
def Beyond (fp nsectors : UInt32) : Prop :=
  ∃ i < nsectors.toNat, 255 < (startSect fp).toNat + i

/-- The end of an erase: a request beyond the chip is refused before any command is sent, any other
erases its sectors, all of them and no more, unless the chip refuses a command. -/
structure Contained (fp nsectors : UInt32) (s : σ) (d : Done σ) : Prop where
  refused : Beyond fp nsectors → d.rc = -1 ∧ d.log = []
  tells : ¬Beyond fp nsectors → (d.rc = 0 ↔ ∀ e ∈ d.log, e.ok) ∧ (d.rc = 0 ∨ d.rc = -1)
  erased : ¬Beyond fp nsectors → d.rc = 0 →
    d.log = (List.range nsectors.toNat).map
      (fun i ↦ .erase (((startSect fp).toNat + i) * 4096) true) ∧
    ∀ i, chip.read d.state i =
      if (startSect fp).toNat * 4096 ≤ i ∧ i < ((startSect fp).toNat + nsectors.toNat) * 4096 then
        0xFF
      else chip.read s i

/-! ## Words that are small -/

variable {chip} {fp nsectors : UInt32} {s : σ} {fuel k n : Nat}

theorem toInt32_eq (x : UInt32) : x.toInt32 = Int32.ofNat x.toNat := by
  rw [← UInt32.toInt32_ofNat', UInt32.ofNat_toNat]

theorem startSect_lt (fp : UInt32) : (startSect fp).toNat < 2 ^ 20 := by
  rw [startSect, UInt32.toNat_div]
  have hlt := UInt32.toNat_lt (fp - flashBase)
  show (fp - flashBase).toNat / 4096 < 2 ^ 20
  omega

theorem ofNat_le_iff {k m : Nat} (hk : k < 2 ^ 31) (hm : m < 2 ^ 31) :
    Int32.ofNat k ≤ Int32.ofNat m ↔ k ≤ m := by
  rw [Int32.le_iff_toInt_le, Int32.toInt_ofNat_of_lt hk, Int32.toInt_ofNat_of_lt hm]
  exact Int.ofNat_le

theorem sector_address (hk : k < 256) :
    ((Int32.ofNat k * 4096).toUInt32 &&& 0xFFFFFF).toNat = k * 4096 := by
  have hall : ∀ k < 256, ((Int32.ofNat k * 4096).toUInt32 &&& 0xFFFFFF).toNat = k * 4096 := by
    (set_option maxRecDepth 8000 in decide)
  exact hall k hk

theorem ofNat_succ (k : Nat) : Int32.ofNat k + 1 = Int32.ofNat (k + 1) :=
  (Int32.ofNat_add k 1).symm

/-- Inside the chip the address of a sector is sent as it is. -/
theorem sectorErase_eq (hk : k < 256) (s : σ) :
    sectorErase chip (Int32.ofNat k * 4096).toUInt32 s = Flash.sectorErase chip k s := by
  rw [sectorErase, sector_address hk]
  rfl

/-- The loop over sectors of the chip. -/
theorem spiFlashErase_eq (hk : k + n ≤ 256) (hfuel : n < fuel) (hlast : 0 < k + n) (s : σ) :
    spiFlashErase chip fuel (Int32.ofNat k) (Int32.ofNat (k + n - 1)) s =
      some (Flash.spiFlashErase chip k n s) := by
  induction n generalizing k fuel s with
  | zero =>
    obtain ⟨fuel, rfl⟩ := Nat.exists_eq_add_one_of_ne_zero (Nat.ne_of_gt hfuel)
    have hend : ¬Int32.ofNat k ≤ Int32.ofNat (k + 0 - 1) := by
      rw [ofNat_le_iff (by omega) (by omega)]
      omega
    rw [spiFlashErase, if_neg hend]
    rfl
  | succ n ih =>
    obtain ⟨fuel, rfl⟩ :=
      Nat.exists_eq_add_one_of_ne_zero (Nat.ne_of_gt (Nat.zero_lt_of_lt hfuel))
    have hgo : Int32.ofNat k ≤ Int32.ofNat (k + (n + 1) - 1) := by
      rw [ofNat_le_iff (by omega) (by omega)]
      omega
    have hnext : k + (n + 1) - 1 = k + 1 + n - 1 := by omega
    rw [spiFlashErase, if_pos hgo, sectorErase_eq (by omega), ofNat_succ, hnext,
      Flash.spiFlashErase, Done.andThen]
    dsimp only
    split
    · rw [ih (by omega) (by omega) (by omega)]
      rfl
    · rfl

theorem not_beyond (hin : ¬Beyond fp nsectors) :
    nsectors.toNat = 0 ∨ (startSect fp).toNat + nsectors.toNat ≤ 256 := by
  by_contra hout
  refine hin ⟨nsectors.toNat - 1, ?_, ?_⟩
  · omega
  · omega

/-- The last sector, when there is one in front of the end. -/
theorem stopSect_eq (hpos : 0 < (startSect fp).toNat + nsectors.toNat)
    (hn : nsectors.toNat ≤ 256) :
    (startSect fp + nsectors - 1).toInt32 =
      Int32.ofNat ((startSect fp).toNat + nsectors.toNat - 1) := by
  have hstart := startSect_lt fp
  have hsum : (startSect fp + nsectors).toNat = (startSect fp).toNat + nsectors.toNat := by
    rw [UInt32.toNat_add]
    omega
  have hone : (1 : UInt32) ≤ startSect fp + nsectors := by
    rw [UInt32.le_iff_toNat_le, hsum]
    exact hpos
  rw [toInt32_eq, UInt32.toNat_sub_of_le _ _ hone, hsum]
  rfl

/-- A request for nothing, wherever it is. -/
theorem spiFlashErase_none (hn : nsectors.toNat = 0) (hfuel : 0 < fuel) (s : σ) :
    spiFlashErase chip fuel (startSect fp).toInt32 (startSect fp + nsectors - 1).toInt32 s =
      some ⟨0, s, []⟩ := by
  obtain ⟨fuel, rfl⟩ := Nat.exists_eq_add_one_of_ne_zero (Nat.ne_of_gt hfuel)
  have hend : ¬(startSect fp).toInt32 ≤ (startSect fp + nsectors - 1).toInt32 := by
    by_cases hzero : (startSect fp).toNat = 0
    · -- the number of the last sector is -1
      have hstart : startSect fp = 0 := UInt32.toNat_inj.mp hzero
      have hnone : nsectors = 0 := UInt32.toNat_inj.mp hn
      rw [hstart, hnone]
      decide
    · have hstart := startSect_lt fp
      rw [stopSect_eq (by omega) (by omega), toInt32_eq, ofNat_le_iff (by omega) (by omega)]
      omega
  rw [spiFlashErase, if_neg hend]

/-- A request inside the chip is the erase of its sectors. -/
theorem vEraseFlash_eq (hin : ¬Beyond fp nsectors) (hfuel : nsectors.toNat < fuel) (s : σ) :
    vEraseFlash chip fuel fp nsectors s =
      some (Flash.vEraseFlash chip ((startSect fp).toNat * 4096) nsectors.toNat s) := by
  have hloop : spiFlashErase chip fuel (startSect fp).toInt32
      (startSect fp + nsectors - 1).toInt32 s =
        some (Flash.spiFlashErase chip (startSect fp).toNat nsectors.toNat s) := by
    by_cases hn : nsectors.toNat = 0
    · rw [spiFlashErase_none hn (by omega), hn]
      rfl
    · have hlast := (not_beyond hin).resolve_left hn
      rw [stopSect_eq (by omega) (by omega), toInt32_eq]
      exact spiFlashErase_eq hlast hfuel (by omega) s
  rw [vEraseFlash, hloop, Flash.vEraseFlash, Nat.mul_div_cancel _ (by decide)]
  dsimp only [Option.map_some]
  congr 2
  exact ite_not ..

/-! ## The log of an erase -/

/-- An erase that succeeds has sent one command for each sector. -/
theorem log_spiFlashErase (hrc : (Flash.spiFlashErase chip k n s).rc = 0) :
    (Flash.spiFlashErase chip k n s).log =
      (List.range n).map fun i ↦ .erase ((k + i) * 4096) true := by
  induction n generalizing k s with
  | zero => rfl
  | succ n ih =>
    rw [Flash.spiFlashErase] at hrc ⊢
    obtain ⟨hfirst, hrest, -⟩ := Done.andThen_eq_zero hrc
    have hok : (chip.sectorErase (k * 4096) s).1 = true := by
      by_contra hno
      have hrefused : (Flash.sectorErase chip k s).rc = errProgError := if_neg hno
      rw [hrefused] at hfirst
      exact absurd hfirst (by decide)
    rw [Done.andThen_ok hfirst, Done.seq_log, ih hrest, List.range_succ_eq_map, List.map_cons,
      List.map_map]
    have hhead : (Flash.sectorErase chip k s).log = [.erase ((k + 0) * 4096) true] := by
      rw [Flash.sectorErase, hok, Nat.add_zero]
    rw [hhead, List.singleton_append]
    refine congrArg (List.cons _) (List.map_congr_left fun i _ ↦ ?_)
    have hnext : k + 1 + i = k + i.succ := Nat.succ_add_eq_add_succ k i
    rw [hnext]
    rfl

/-- A request that is not empty sends a command, or finds no sector and returns 0. -/
theorem not_refused {d : Done σ} (h : vEraseFlash chip fuel fp nsectors s = some d)
    (hrc : d.rc = -1) : d.log ≠ [] := by
  obtain ⟨d', hloop, rfl⟩ := Option.map_eq_some_iff.mp h
  cases fuel with
  | zero => exact nomatch hloop
  | succ fuel =>
    rw [spiFlashErase] at hloop
    split at hloop
    · dsimp only at hloop
      split at hloop
      · obtain ⟨d'', -, rfl⟩ := Option.map_eq_some_iff.mp hloop
        exact List.cons_ne_nil _ _
      · cases hloop
        exact List.cons_ne_nil _ _
    · cases hloop
      have hzero : (if (0 : Int) ≠ 0 then (-1 : Int) else 0) = -1 := hrc
      exact absurd hzero (by decide)

/-- For every address and every count, over a chip that does what it takes. -/
theorem erase_contained_iff (chip : Chip σ) (h : chip.Stores) (fp nsectors : UInt32) (s : σ) :
    (∃ m, ∀ fuel ≥ m, ∃ d, vEraseFlash chip fuel fp nsectors s = some d ∧
      Contained chip fp nsectors s d) ↔ ¬Beyond fp nsectors := by
  constructor
  · rintro ⟨m, hm⟩ hbeyond
    obtain ⟨d, hd, hcontained⟩ := hm m (Nat.le_refl m)
    obtain ⟨hrc, hlog⟩ := hcontained.refused hbeyond
    exact not_refused hd hrc hlog
  · intro hin
    refine ⟨nsectors.toNat + 1, fun fuel hfuel ↦ ⟨_, vEraseFlash_eq hin hfuel s, ?_⟩⟩
    have hsect : (startSect fp).toNat * 4096 / 4096 = (startSect fp).toNat :=
      Nat.mul_div_cancel _ (by decide)
    constructor
    · exact fun hbeyond ↦ absurd hbeyond hin
    · refine fun _ ↦ ⟨vEraseFlash_tells _ _ _, ?_⟩
      rw [Flash.vEraseFlash]
      dsimp only
      split
      · exact .inl rfl
      · exact .inr rfl
    · intro _ hrc
      have hloop : (Flash.spiFlashErase chip (startSect fp).toNat nsectors.toNat s).rc = 0 := by
        rw [Flash.vEraseFlash, hsect] at hrc
        by_contra hne
        rw [if_neg hne] at hrc
        have hminus : (-1 : Int) = 0 := hrc
        exact absurd hminus (by decide)
      rw [Flash.vEraseFlash, hsect]
      exact ⟨log_spiFlashErase hloop, h.spiFlashErase hloop⟩

/-- A sector 16 MB behind the start of the flash, whose 24 bits are those of the loader. -/
theorem loader_erased : ¬∀ fp nsectors : UInt32, ∃ m, ∀ fuel ≥ m, ∃ d,
    vEraseFlash pageChip fuel fp nsectors (fun _ ↦ 0) = some d ∧
      Contained pageChip fp nsectors (fun _ ↦ 0) d := by
  intro h
  obtain ⟨m, hm⟩ := h (flashBase + 0x1000000) 1
  obtain ⟨d, hd, hcontained⟩ := hm m (Nat.le_refl m)
  have hbeyond : Beyond (flashBase + 0x1000000) 1 := ⟨0, by decide, by decide⟩
  obtain ⟨hrc, hlog⟩ := hcontained.refused hbeyond
  exact not_refused hd hrc hlog

theorem erase_contained_one : ∃ m, ∀ fuel ≥ m, ∃ d,
    vEraseFlash pageChip fuel (flashBase + 0xFF000) 1 (fun _ ↦ 0) = some d ∧
      Contained pageChip (flashBase + 0xFF000) 1 (fun _ ↦ 0) d := by
  apply (erase_contained_iff pageChip pageChip_stores _ _ _).mpr
  rintro ⟨i, hi, hbeyond⟩
  have hzero : i = 0 := Nat.lt_one_iff.mp hi
  rw [hzero] at hbeyond
  exact absurd hbeyond (by decide)

end PrintServer.Flash.Words
