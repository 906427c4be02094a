import PrintServer.Flash.Partition

/-!
# What is sent for an image

The erase and program commands of an area and of an image, as lists in which the chip has no part,
and what a chip makes of such a list: it takes the commands one after another until it refuses one.
-/

namespace PrintServer.Flash

open Lib

inductive Command
  | erase (addr : Nat)
  | program (addr : Nat) (data : List UInt8)
deriving DecidableEq

/-- The command in a log, when the chip took it. -/
def Command.taken : Command → Event
  | .erase addr => .erase addr true
  | .program addr data => .program addr data true

variable {σ : Type}

def Chip.send (chip : Chip σ) : Command → σ → Bool × σ
  | .erase addr => chip.sectorErase addr
  | .program addr data => chip.pageProgram addr data

/-- Whether all commands are taken, and the chip after the last one that was sent. -/
def Chip.sendAll (chip : Chip σ) : List Command → σ → Bool × σ
  | [], s => (true, s)
  | command :: commands, s =>
      let r := chip.send command s
      if r.1 then sendAll chip commands r.2 else r

def eraseCommands (start nsectors : Nat) : List Command :=
  (List.range nsectors).map fun j ↦ .erase ((start / 4096 + j) * 4096)

/-- A stretch in pages of 256 bytes. -/
def pageCommands (dest : Nat) (data : List UInt8) : List Command :=
  (List.range ((data.length + 255) / 256)).map fun j ↦
    .program ((dest + 256 * j) % 2 ^ 24) ((data.drop (256 * j)).take 256)

def areaCommands (start nsectors : Nat) (data : List UInt8) : List Command :=
  eraseCommands start nsectors ++ pageCommands start data

variable {chip : Chip σ} {s : σ} {dest start n m : Nat} {data : List UInt8}
  {commands commands' : List Command}

/-! ## Pages -/

@[simp] theorem pageCommands_nil : pageCommands dest [] = [] := rfl

/-- A stretch that is cut behind `m` pages. -/
theorem pageCommands_cut (dest m : Nat) (data : List UInt8) :
    pageCommands dest (data.take (256 * m)) ++
        pageCommands (dest + 256 * m) (data.drop (256 * m)) = pageCommands dest data := by
  by_cases hlast : data.length ≤ 256 * m
  · rw [List.take_of_length_le hlast, List.drop_eq_nil_of_le hlast, pageCommands_nil,
      List.append_nil]
  · have hfirst : ((data.take (256 * m)).length + 255) / 256 = m := by
      rw [List.length_take]
      omega
    have hall : (data.length + 255) / 256 =
        m + ((data.drop (256 * m)).length + 255) / 256 := by
      rw [List.length_drop]
      omega
    unfold pageCommands
    rw [hfirst, hall, List.range_add, List.map_append, List.map_map]
    congr 1
    · refine List.map_congr_left fun j hj ↦ ?_
      rw [List.mem_range] at hj
      rw [List.drop_take, List.take_take, Nat.min_eq_left (by omega)]
    · refine List.map_congr_left fun j _ ↦ ?_
      have haddr : dest + 256 * m + 256 * j = dest + 256 * (m + j) := by
        rw [Nat.mul_add, Nat.add_assoc]
      rw [haddr, List.drop_drop, ← Nat.mul_add]
      rfl

theorem pageCommands_one (hpos : 0 < data.length) (hsize : data.length ≤ 256) :
    pageCommands dest data = [.program (dest % 2 ^ 24) data] := by
  have hone : (data.length + 255) / 256 = 1 := by omega
  unfold pageCommands
  rw [hone, List.range_one, List.map_singleton, Nat.mul_zero, Nat.add_zero, List.drop_zero,
    List.take_of_length_le hsize]

/-- What a page holds of a stretch that ends in front of 2^24. -/
theorem getElem?_of_mem_pageCommands {addr i : Nat} {page : List UInt8}
    (hmem : .program addr page ∈ pageCommands dest data) (hfit : dest + data.length ≤ 2 ^ 24)
    (hi : i < page.length) : dest ≤ addr ∧ page[i]? = data[addr + i - dest]? := by
  obtain ⟨j, hj, heq⟩ := List.mem_map.mp hmem
  rw [List.mem_range] at hj
  obtain ⟨rfl, rfl⟩ := Command.program.inj heq
  rw [List.length_take, List.length_drop] at hi
  rw [Nat.mod_eq_of_lt (by omega)]
  have hindex : dest + 256 * j + i - dest = 256 * j + i := by omega
  refine ⟨Nat.le_add_right _ _, ?_⟩
  rw [List.getElem?_take, if_pos (by omega), List.getElem?_drop, hindex]

/-- Each byte of a stretch is in a page. -/
theorem exists_page {pre post : List UInt8} {b : UInt8} (hdata : data = pre ++ b :: post)
    (hfit : dest + data.length ≤ 2 ^ 24) :
    ∃ addr pre' post', .program addr (pre' ++ b :: post') ∈ pageCommands dest data ∧
      addr + pre'.length = dest + pre.length := by
  have hlen : data.length = pre.length + (post.length + 1) := by
    rw [hdata, List.length_append, List.length_cons]
  have hcut : data.drop (256 * (pre.length / 256)) =
      pre.drop (256 * (pre.length / 256)) ++ b :: post := by
    rw [hdata, List.drop_append_of_le_length (by omega)]
  have hpage : ∃ post', (data.drop (256 * (pre.length / 256))).take 256 =
      pre.drop (256 * (pre.length / 256)) ++ b :: post' := by
    have hroom : (pre.drop (256 * (pre.length / 256))).length + (255 - pre.length % 256 + 1) =
        256 := by
      rw [List.length_drop]
      omega
    refine ⟨post.take (255 - pre.length % 256), ?_⟩
    rw [hcut, ← List.take_succ_cons, ← List.take_length_add_append, hroom]
  obtain ⟨post', hpage⟩ := hpage
  refine ⟨dest + 256 * (pre.length / 256), pre.drop (256 * (pre.length / 256)), post', ?_, ?_⟩
  · refine List.mem_map.mpr ⟨pre.length / 256, List.mem_range.mpr (by omega), ?_⟩
    rw [hpage, Nat.mod_eq_of_lt (by omega)]
  · rw [List.length_drop]
    omega

/-! ## What the chip makes of a list -/

theorem Chip.sendAll_append : chip.sendAll (commands ++ commands') s =
    if (chip.sendAll commands s).1 then chip.sendAll commands' (chip.sendAll commands s).2
    else chip.sendAll commands s := by
  induction commands generalizing s with
  | nil => rfl
  | cons command commands ih =>
    rw [List.cons_append, sendAll, sendAll]
    by_cases hok : (chip.send command s).1 = true
    · rw [if_pos hok, if_pos hok, ih]
    · rw [if_neg hok, if_neg hok, if_neg hok]

theorem Chip.Takes.sendAll (h : chip.Takes) (commands : List Command) (s : σ) :
    (chip.sendAll commands s).1 = true := by
  induction commands generalizing s with
  | nil => rfl
  | cons command commands ih =>
    have hok : (chip.send command s).1 = true := by
      cases command with
      | erase addr => exact h.erase addr s
      | program addr data => exact h.program addr data s
    rw [Chip.sendAll, if_pos hok]
    exact ih _

/-- A call that sends the commands until one is refused. -/
structure Sends (chip : Chip σ) (commands : List Command) (s : σ) (d : Done σ) : Prop where
  rc : d.rc = 0 ↔ (chip.sendAll commands s).1 = true
  state : d.state = (chip.sendAll commands s).2
  log : d.rc = 0 → d.log = commands.map Command.taken

theorem Sends.nil : Sends chip [] s ⟨0, s, []⟩ := ⟨⟨fun _ ↦ rfl, fun _ ↦ rfl⟩, rfl, fun _ ↦ rfl⟩

theorem Sends.andThen {d : Done σ} {f : σ → Done σ} (hd : Sends chip commands s d)
    (hf : ∀ s, Sends chip commands' s (f s)) :
    Sends chip (commands ++ commands') s (d.andThen f) := by
  by_cases hrc : d.rc = 0
  · obtain ⟨hcode, hstate, hlog⟩ := hf d.state
    have hfirst : chip.sendAll (commands ++ commands') s = chip.sendAll commands' d.state := by
      rw [Chip.sendAll_append, if_pos (hd.rc.mp hrc), hd.state]
    rw [Done.andThen_ok hrc]
    refine ⟨?_, ?_, fun h ↦ ?_⟩
    · rw [hfirst]
      exact hcode
    · rw [hfirst]
      exact hstate
    · rw [Done.seq_log, hd.log hrc, hlog h, List.map_append]
  · have hstop : chip.sendAll (commands ++ commands') s = chip.sendAll commands s := by
      rw [Chip.sendAll_append, if_neg (fun h ↦ hrc (hd.rc.mpr h))]
    rw [Done.andThen_error hrc]
    refine ⟨?_, ?_, fun h ↦ absurd h hrc⟩
    · rw [hstop]
      exact hd.rc
    · rw [hstop]
      exact hd.state

/-- One command. -/
theorem Sends.one (command : Command) (s : σ) {event : Bool → Event}
    (hevent : event true = command.taken) :
    Sends chip [command] s
      (let r := chip.send command s
      ⟨if r.1 then 0 else errProgError, r.2, [event r.1]⟩) := by
  have hsend : chip.sendAll [command] s = chip.send command s := by
    rw [Chip.sendAll, Chip.sendAll]
    exact ite_eq_right_iff.mpr fun h ↦ Prod.ext h.symm rfl
  dsimp only
  by_cases hok : (chip.send command s).1 = true
  · refine ⟨⟨fun _ ↦ hsend.symm ▸ hok, fun _ ↦ if_pos hok⟩, by rw [hsend], fun _ ↦ ?_⟩
    rw [hok, hevent, List.map_singleton]
  · have hrc : (if (chip.send command s).1 = true then (0 : Int) else errProgError) ≠ 0 := by
      rw [if_neg hok]
      decide
    exact ⟨⟨fun h ↦ absurd h hrc, fun h ↦ absurd (hsend ▸ h) hok⟩, by rw [hsend],
      fun h ↦ absurd h hrc⟩

theorem sectorErase_sends (sect : Nat) (s : σ) :
    Sends chip [.erase (sect * 4096)] s (sectorErase chip sect s) :=
  Sends.one (.erase (sect * 4096)) s rfl

theorem pageProgram_sends (dest : Nat) (data : List UInt8) (s : σ) :
    Sends chip [.program (dest % 2 ^ 24) data] s (pageProgram chip dest data s) :=
  Sends.one (.program (dest % 2 ^ 24) data) s rfl

/-- The sectors one after another. -/
theorem spiFlashErase_sends (sect n : Nat) (s : σ) :
    Sends chip ((List.range n).map fun j ↦ .erase ((sect + j) * 4096)) s
      (spiFlashErase chip sect n s) := by
  induction n generalizing sect s with
  | zero => exact Sends.nil
  | succ n ih =>
    have hsplit : ((List.range (n + 1)).map fun j ↦ Command.erase ((sect + j) * 4096)) =
        [.erase (sect * 4096)] ++ (List.range n).map fun j ↦ .erase ((sect + 1 + j) * 4096) := by
      rw [List.range_succ_eq_map, List.map_cons, List.map_map, List.singleton_append]
      refine congrArg (List.cons _) (List.map_congr_left fun j _ ↦ ?_)
      rw [Function.comp_apply, Nat.add_assoc, Nat.succ_eq_one_add]
    rw [hsplit]
    exact (sectorErase_sends sect s).andThen fun s ↦ ih (sect + 1) s

theorem vEraseFlash_sends (start n : Nat) (s : σ) :
    Sends chip (eraseCommands start n) s (vEraseFlash chip start n s) := by
  have hloop := @spiFlashErase_sends _ chip (start / 4096) n s
  have hrc : (vEraseFlash chip start n s).rc = 0 ↔
      (spiFlashErase chip (start / 4096) n s).rc = 0 := by
    unfold vEraseFlash
    simp
  exact ⟨hrc.trans hloop.rc, hloop.state, fun h ↦ hloop.log (hrc.mp h)⟩

/-- Pieces of whole pages send the pages of the whole. -/
theorem inPieces_sends {write : Nat → List UInt8 → σ → Done σ} (hm : 0 < m)
    (hwrite : ∀ dest data s, data ≠ [] → data.length ≤ 256 * m →
      Sends chip (pageCommands dest data) s (write dest data s))
    {fuel : Nat} {src : List UInt8} (hfuel : src.length ≤ fuel) (dest : Nat) (s : σ) :
    Sends chip (pageCommands dest src) s (inPieces (256 * m) write fuel src dest s) := by
  induction fuel generalizing src dest s with
  | zero =>
    rw [List.length_eq_zero_iff.mp (Nat.le_zero.mp hfuel)]
    exact Sends.nil
  | succ fuel ih =>
    unfold inPieces
    split
    · rw [‹src = []›]
      exact Sends.nil
    have hpos : 0 < src.length := List.length_pos_iff.mpr ‹_›
    rw [← pageCommands_cut dest m src]
    refine Sends.andThen (hwrite _ _ _ ?_ (List.length_take_le _ _)) fun s ↦ ih ?_ _ s
    · apply List.ne_nil_of_length_pos
      rw [List.length_take]
      omega
    · rw [List.length_drop]
      omega

theorem vProgramFlash_sends (dest : Nat) (data : List UInt8) (s : σ) :
    Sends chip (pageCommands dest data) s (vProgramFlash chip dest data s) := by
  refine @inPieces_sends _ chip 1 _ (by decide) (fun dest data s hne hsize ↦ ?_) _ _
    (Nat.le_refl _) dest s
  rw [pageCommands_one (List.length_pos_iff.mpr hne) hsize]
  exact pageProgram_sends dest data s

theorem programLoop_sends (dest : Nat) (data : List UInt8) (s : σ) :
    Sends chip (pageCommands dest data) s (programLoop chip dest data s) :=
  @inPieces_sends _ chip 16 _ (by decide) (fun _ _ _ _ _ ↦ vProgramFlash_sends _ _ _) _ _
    (Nat.le_refl _) dest s

end PrintServer.Flash
