import PrintServer.Flash.Store

/-!
# Writing in pages

What `write_buff` and the chunk loops of `vProgramCode1` and `vProgramCode2` leave in the flash,
over a chip whose page program starts over at the end of its page.
-/

namespace PrintServer.Flash

open Lib

variable {σ : Type} {chip : Chip σ} {model : UInt8} {p start n dest : Nat} {length : UInt32}
  {data : List UInt8} {s : σ} {b : Box σ}

/-- The stretch of `length` bytes from `dest` on is erased. -/
def Erased (flash : Memory) (dest length : Nat) : Prop :=
  ∀ i, dest ≤ i → i < dest + length → flash i = 0xFF

/-- The flash with an area of whole sectors erased. -/
def eraseArea (flash : Memory) (start nsectors : Nat) : Memory := fun i ↦
  if start ≤ i ∧ i < start + 4096 * nsectors then 0xFF else flash i

/-- The chunks of a `vProgram` function fill an erased stretch. -/
theorem Chip.Stores.programLoop (h : chip.Stores) (hdest : dest % 256 = 0)
    (hfit : dest + data.length ≤ 16777216) (herased : Erased (chip.read s) dest data.length)
    (hrc : (Flash.programLoop chip dest data s).rc = 0) :
    chip.read (Flash.programLoop chip dest data s).state = writeMem (chip.read s) dest data := by
  refine read_inPieces (by decide) (by decide) ?_ (Nat.le_refl _) hdest hfit herased hrc
  intro dest data s hdest _ _ hfit herased hrc
  exact h.vProgramFlash hdest hfit herased hrc

/-- One try of the `vProgram` functions. -/
theorem Chip.Stores.eraseAndProgram (h : chip.Stores) (hstart : start % 4096 = 0)
    (hfit : start + length.toNat ≤ 16777216)
    (herased : Erased (eraseArea (chip.read b.flash) start n) start length.toNat)
    (hrc : (Flash.eraseAndProgram chip start n p length b).rc = 0) :
    chip.read (Flash.eraseAndProgram chip start n p length b).state.flash =
      writeMem (eraseArea (chip.read b.flash) start n) start (readMem b.ram p length.toNat) := by
  have hrc' : ((Flash.vEraseFlash chip start n b.flash).andThen
      (Flash.programLoop chip start (readMem b.ram p length.toNat))).rc = 0 := hrc
  obtain ⟨herase, hloop, hstate⟩ := Done.andThen_eq_zero hrc'
  have harea : chip.read (Flash.vEraseFlash chip start n b.flash).state =
      eraseArea (chip.read b.flash) start n :=
    funext fun i ↦ h.vEraseFlash hstart herase i
  have hlength : (readMem b.ram p length.toNat).length = length.toNat := length_readMem
  have hfill := @Stores.programLoop _ chip start (readMem b.ram p length.toNat)
    (Flash.vEraseFlash chip start n b.flash).state h (by omega) (by omega)
    (by rw [harea, hlength]; exact herased) hloop
  rw [harea] at hfill
  exact (congrArg chip.read hstate).trans hfill

/-- The one try of a function that verifies; the checksum changes nothing in the flash. -/
theorem verifiedTries_one
    (hrc : (verifiedTries chip model start n p length programMaxRetryTimes 0 b).rc = 0) :
    (eraseAndProgram chip start n p length b).rc = 0 ∧
      (verifiedTries chip model start n p length programMaxRetryTimes 0 b).state.flash =
        (eraseAndProgram chip start n p length b).state.flash := by
  rw [programMaxRetryTimes, verifiedTries] at hrc ⊢
  rw [Done.seq_rc] at hrc
  rw [Done.seq_state]
  by_cases herror : (eraseAndProgram chip start n p length b).rc = 0
  · refine ⟨herror, ?_⟩
    rw [if_pos herror, Done.seq_state]
    split
    · rfl
    · rfl
  · rw [if_neg herror] at hrc
    exact absurd hrc herror

/-- An image that `vProgramCode1` or `vProgramCode2` was given for an area. -/
def ImageStored (chip : Chip σ) (start nsectors p : Nat) (length : UInt32) (b b' : Box σ) : Prop :=
  start + length.toNat ≤ 16777216 →
    Erased (eraseArea (chip.read b.flash) start nsectors) start length.toNat →
      chip.read b'.flash =
        writeMem (eraseArea (chip.read b.flash) start nsectors) start (readMem b.ram p length.toNat)

theorem verifiedTries_stored (h : chip.Stores) (hstart : start % 4096 = 0)
    (hrc : (verifiedTries chip model start n p length programMaxRetryTimes 0 b).rc = 0) :
    ImageStored chip start n p length b
      (verifiedTries chip model start n p length programMaxRetryTimes 0 b).state := by
  intro hfit herased
  obtain ⟨hone, hflash⟩ := verifiedTries_one hrc
  rw [hflash]
  exact h.eraseAndProgram hstart hfit herased hone

/-- A buffer of any length is stored from any page on, and nothing else is changed; so are the
chunks of an image, and the images of the two code areas. -/
theorem pages_written (chip : Chip σ) (h : chip.Stores) :
    (∀ dest data s, dest % 256 = 0 → dest + data.length ≤ 16777216 →
      Erased (chip.read s) dest data.length → (writeBuff chip dest data s).rc = 0 →
        chip.read (writeBuff chip dest data s).state = writeMem (chip.read s) dest data) ∧
    (∀ dest data s, dest % 256 = 0 → dest + data.length ≤ 16777216 →
      Erased (chip.read s) dest data.length → (programLoop chip dest data s).rc = 0 →
        chip.read (programLoop chip dest data s).state = writeMem (chip.read s) dest data) ∧
    ∀ (model : UInt8) (p : Nat) (length : UInt32) (b : Box σ),
      ((vProgramCode1 chip model p length b).rc = 0 →
        ImageStored chip code1AddrOff numOfCode1Sector p length b
          (vProgramCode1 chip model p length b).state) ∧
      ((vProgramCode2 chip model p length b).rc = 0 →
        ImageStored chip code2AddrOff numOfCode2Sector p length b
          (vProgramCode2 chip model p length b).state) := by
  refine ⟨fun dest data s hdest hfit herased hrc ↦ ?_, fun dest data s hdest hfit herased hrc ↦ ?_,
    fun model p length b ↦ ⟨fun hrc ↦ ?_, fun hrc ↦ ?_⟩⟩
  · exact h.vProgramFlash hdest hfit herased hrc
  · exact h.programLoop hdest hfit herased hrc
  · exact verifiedTries_stored h (by decide) hrc
  · exact verifiedTries_stored h (by decide) hrc

/-- The last page of the first sector and one byte of the next. -/
theorem pages_written_two :
    pageChip.read (writeBuff pageChip 3840 (List.replicate 257 7) fun _ ↦ 0xFF).state =
      writeMem (fun _ ↦ 0xFF) 3840 (List.replicate 257 7) := by
  apply (pages_written pageChip pageChip_stores).1
  · decide
  · rw [List.length_replicate]
    decide
  · exact fun _ _ _ ↦ rfl
  · exact pageChip_takes.vProgramFlash 3840 _ _

end PrintServer.Flash
