import PrintServer.Flash.Image

/-!
# The flash driver

spiflash.c over a chip of which nothing is known: each of its commands may fail.  Addresses count
from `FLASHBASE`.  A log keeps the commands that were sent.
-/

namespace PrintServer.Flash

open Lib

/-- The two commands that change the chip, and its contents. -/
structure Chip (σ : Type) where
  sectorErase : Nat → σ → Bool × σ
  pageProgram : Nat → List UInt8 → σ → Bool × σ
  read : σ → Memory

inductive Event
  | erase (addr : Nat) (ok : Bool)
  | program (addr : Nat) (data : List UInt8) (ok : Bool)
  | checksum (addr : Nat) (length : UInt32)
deriving DecidableEq

/-- Whether the chip took a command. -/
def Event.ok : Event → Bool
  | .erase _ ok => ok
  | .program _ _ ok => ok
  | .checksum _ _ => true

/-- The end of a call: what it returns, the state, and the log of the call. -/
structure Done (α : Type) where
  rc : Int
  state : α
  log : List Event

namespace Done

variable {α : Type}

def seq (d : Done α) (f : Int → α → Done α) : Done α :=
  let d' := f d.rc d.state
  { d' with log := d.log ++ d'.log }

/-- Goes on unless there was an error. -/
def andThen (d : Done α) (f : α → Done α) : Done α :=
  if d.rc = 0 then d.seq fun _ ↦ f else d

end Done

variable {σ : Type} (chip : Chip σ)

def errProgError : Int := 128

/-- `Spi_Flash_Sector_Erase` in the loop of `spi_flash_erase`. -/
def sectorErase (sect : Nat) (s : σ) : Done σ :=
  let r := chip.sectorErase (sect * 4096) s
  ⟨if r.1 then 0 else errProgError, r.2, [.erase (sect * 4096) r.1]⟩

/-- `spi_flash_erase`, with the number of sectors for the last one. -/
def spiFlashErase : Nat → Nat → σ → Done σ
  | _, 0, s => ⟨0, s, []⟩
  | sect, n + 1, s => (sectorErase chip sect s).andThen (spiFlashErase (sect + 1) n)

/-- The `rc` of the check for the end of the flash is overwritten. -/
def vEraseFlash (addr nsectors : Nat) (s : σ) : Done σ :=
  let d := spiFlashErase chip (addr / 4096) nsectors s
  { d with rc := if d.rc = 0 then 0 else -1 }

/-- `Spi_Flash_Page_Program_Data_Bytes`; the chip sees 24 bits of the address. -/
def pageProgram (dest : Nat) (data : List UInt8) (s : σ) : Done σ :=
  let r := chip.pageProgram (dest % 2 ^ 24) data s
  ⟨if r.1 then 0 else errProgError, r.2, [.program (dest % 2 ^ 24) data r.1]⟩

/-- Writes `src` in pieces of a size, until an error. -/
def inPieces (size : Nat) (write : Nat → List UInt8 → σ → Done σ) :
    Nat → List UInt8 → Nat → σ → Done σ
  | 0, _, _, s => ⟨0, s, []⟩
  | fuel + 1, src, dest, s =>
      if src = [] then ⟨0, s, []⟩
      else (write dest (src.take size) s).andThen
        (inPieces size write fuel (src.drop size) (dest + size))

/-- `write_buff`: in pages. -/
def writeBuff (dest : Nat) (src : List UInt8) : σ → Done σ :=
  inPieces 256 (pageProgram chip) src.length src dest

def vProgramFlash (flashptr : Nat) (buf : List UInt8) : σ → Done σ := writeBuff chip flashptr buf

/-- The loop of the `vProgram` functions over `PROGRAM_CODE2_KSIZE * 1024` bytes. -/
def programLoop (flashptr : Nat) (data : List UInt8) : σ → Done σ :=
  inPieces 4096 (vProgramFlash chip) data.length data flashptr

/-! ## The log of a call -/

variable {chip}

section Log

variable {α : Type} {d : Done α} {f : α → Done α} {g : Int → α → Done α} {e : Event}

@[simp] theorem Done.seq_log : (d.seq g).log = d.log ++ (g d.rc d.state).log := rfl

@[simp] theorem Done.seq_rc : (d.seq g).rc = (g d.rc d.state).rc := rfl

@[simp] theorem Done.seq_state : (d.seq g).state = (g d.rc d.state).state := rfl

theorem Done.andThen_ok (h : d.rc = 0) : d.andThen f = d.seq fun _ ↦ f := if_pos h

theorem Done.andThen_error (h : d.rc ≠ 0) : d.andThen f = d := if_neg h

theorem Done.mem_andThen (h : e ∈ (d.andThen f).log) :
    e ∈ d.log ∨ d.rc = 0 ∧ e ∈ (f d.state).log := by
  by_cases hrc : d.rc = 0
  · rw [andThen_ok hrc, seq_log, List.mem_append] at h
    exact h.imp_right fun h ↦ ⟨hrc, h⟩
  · rw [andThen_error hrc] at h
    exact .inl h

/-- The return code tells of the commands. -/
def Done.Tells (d : Done α) : Prop := d.rc = 0 ↔ ∀ e ∈ d.log, e.ok

theorem Done.Tells.andThen (hd : d.Tells) (hf : ∀ s, (f s).Tells) : (d.andThen f).Tells := by
  by_cases hrc : d.rc = 0
  · have hall := hd.mp hrc
    have htail : (f d.state).rc = 0 ↔ ∀ e ∈ (f d.state).log, e.ok := hf d.state
    rw [Done.andThen_ok hrc]
    unfold Done.Tells
    rw [Done.seq_rc, Done.seq_log, List.forall_mem_append, htail]
    exact ⟨fun h ↦ ⟨hall, h⟩, And.right⟩
  · rw [Done.andThen_error hrc]
    exact hd

end Log

theorem sectorErase_tells (sect : Nat) (s : σ) : (sectorErase chip sect s).Tells := by
  unfold Done.Tells sectorErase
  cases hok : (chip.sectorErase (sect * 4096) s).1 <;> simp [hok, Event.ok, errProgError]

theorem spiFlashErase_tells (sect n : Nat) (s : σ) : (spiFlashErase chip sect n s).Tells := by
  induction n generalizing sect s with
  | zero => simp [spiFlashErase, Done.Tells]
  | succ n ih => exact (sectorErase_tells sect s).andThen (ih (sect + 1))

theorem vEraseFlash_tells (addr n : Nat) (s : σ) : (vEraseFlash chip addr n s).Tells := by
  have h := @spiFlashErase_tells _ chip (addr / 4096) n s
  unfold Done.Tells vEraseFlash at *
  rw [← h]
  simp

theorem pageProgram_tells (dest : Nat) (data : List UInt8) (s : σ) :
    (pageProgram chip dest data s).Tells := by
  unfold Done.Tells pageProgram
  cases (chip.pageProgram (dest % 2 ^ 24) data s).1 <;> simp [Event.ok, errProgError]

section Pieces

variable {size : Nat} {write : Nat → List UInt8 → σ → Done σ}

theorem inPieces_tells (h : ∀ dest data s, (write dest data s).Tells) (fuel : Nat)
    (src : List UInt8) (dest : Nat) (s : σ) : (inPieces size write fuel src dest s).Tells := by
  induction fuel generalizing src dest s with
  | zero => simp [inPieces, Done.Tells]
  | succ fuel ih =>
    unfold inPieces
    split
    · simp [Done.Tells]
    · exact (h dest _ s).andThen (ih _ _)

/-- A command comes from one of the pieces. -/
theorem mem_inPieces {e : Event} {fuel : Nat} {src : List UInt8} {dest : Nat} {s : σ}
    (h : e ∈ (inPieces size write fuel src dest s).log) :
    ∃ j s', size * j < src.length ∧
      e ∈ (write (dest + size * j) ((src.drop (size * j)).take size) s').log := by
  induction fuel generalizing src dest s with
  | zero => cases h
  | succ fuel ih =>
    unfold inPieces at h
    split at h
    · cases h
    have hpos : 0 < src.length := List.length_pos_iff.mpr ‹_›
    rcases Done.mem_andThen h with h | ⟨_, h⟩
    · exact ⟨0, s, hpos, h⟩
    · obtain ⟨j, s', hj, he⟩ := ih h
      have hstep : size * (j + 1) = size + size * j := by rw [Nat.mul_succ, Nat.add_comm]
      rw [List.length_drop] at hj
      refine ⟨j + 1, s', by omega, ?_⟩
      rw [hstep, ← Nat.add_assoc, ← List.drop_drop]
      exact he

/-- Without errors every piece is written. -/
theorem inPieces_mem (hok : ∀ dest data s, (write dest data s).rc = 0) (hsize : 0 < size)
    {fuel : Nat} {src : List UInt8} (hfuel : src.length ≤ fuel) (dest : Nat) (s : σ) :
    (inPieces size write fuel src dest s).rc = 0 ∧
      ∀ j, size * j < src.length → ∃ s',
        ∀ e ∈ (write (dest + size * j) ((src.drop (size * j)).take size) s').log,
          e ∈ (inPieces size write fuel src dest s).log := by
  induction fuel generalizing src dest s with
  | zero => exact ⟨rfl, fun j hj ↦ by omega⟩
  | succ fuel ih =>
    unfold inPieces
    split
    · have hnil : src.length = 0 := by rw [‹src = []›, List.length_nil]
      exact ⟨rfl, fun j hj ↦ by omega⟩
    have hpos : 0 < src.length := List.length_pos_iff.mpr ‹_›
    have hfuel' : (src.drop size).length ≤ fuel := by
      rw [List.length_drop]
      omega
    rw [Done.andThen_ok (hok _ _ _)]
    obtain ⟨hrc, hpieces⟩ := ih hfuel' (dest + size) (write dest (src.take size) s).state
    refine ⟨hrc, fun j hj ↦ ?_⟩
    cases j with
    | zero => exact ⟨s, fun e he ↦ List.mem_append_left _ he⟩
    | succ j =>
      have hstep : size * (j + 1) = size + size * j := by rw [Nat.mul_succ, Nat.add_comm]
      obtain ⟨s', hs'⟩ := hpieces j (by rw [List.length_drop]; omega)
      refine ⟨s', fun e he ↦ List.mem_append_right _ (hs' e ?_)⟩
      rw [hstep, ← Nat.add_assoc, ← List.drop_drop] at he
      exact he

end Pieces

theorem vProgramFlash_tells (dest : Nat) (data : List UInt8) (s : σ) :
    (vProgramFlash chip dest data s).Tells := inPieces_tells pageProgram_tells _ _ _ _

theorem programLoop_tells (dest : Nat) (data : List UInt8) (s : σ) :
    (programLoop chip dest data s).Tells := inPieces_tells vProgramFlash_tells _ _ _ _

/-! ## Chips that take every command -/

structure Chip.Takes (chip : Chip σ) : Prop where
  erase : ∀ a s, (chip.sectorErase a s).1 = true
  program : ∀ a data s, (chip.pageProgram a data s).1 = true

namespace Chip.Takes

theorem sectorErase (h : chip.Takes) (sect : Nat) (s : σ) :
    (Flash.sectorErase chip sect s).rc = 0 := if_pos (h.erase (sect * 4096) s)

theorem pageProgram (h : chip.Takes) (dest : Nat) (data : List UInt8) (s : σ) :
    (Flash.pageProgram chip dest data s).rc = 0 := if_pos (h.program (dest % 2 ^ 24) data s)

theorem spiFlashErase (h : chip.Takes) (sect n : Nat) (s : σ) :
    (Flash.spiFlashErase chip sect n s).rc = 0 := by
  induction n generalizing sect s with
  | zero => rfl
  | succ n ih =>
    unfold Flash.spiFlashErase
    rw [Done.andThen_ok (h.sectorErase sect s)]
    exact ih (sect + 1) _

theorem vEraseFlash (h : chip.Takes) (start n : Nat) (s : σ) :
    (Flash.vEraseFlash chip start n s).rc = 0 := if_pos (h.spiFlashErase _ _ _)

theorem vProgramFlash (h : chip.Takes) (dest : Nat) (data : List UInt8) (s : σ) :
    (Flash.vProgramFlash chip dest data s).rc = 0 :=
  (inPieces_mem h.pageProgram (by decide) (Nat.le_refl _) dest s).1

theorem programLoop (h : chip.Takes) (dest : Nat) (data : List UInt8) (s : σ) :
    (Flash.programLoop chip dest data s).rc = 0 :=
  (inPieces_mem h.vProgramFlash (by decide) (Nat.le_refl _) dest s).1

end Chip.Takes

end PrintServer.Flash
