import PrintServer.Flash.Commands

/-!
# What success means

The return values of the `vProgram` functions and of `ApUpgradeFirmware` against what happened to
the flash.
-/

namespace PrintServer.Flash

open Lib

variable {σ : Type} {chip : Chip σ} {model : UInt8} {eeprom : EepromData}

/-- `DoChecksum` of what the chip holds at `start`. -/
def readBack (chip : Chip σ) (model : UInt8) (start : Nat) (b : Box σ) : UInt32 :=
  (doChecksum model (chip.read b.flash) start b.ram).1

def isCode (ram : Memory) (p : Nat) : Prop :=
  (header ram p).bintype = code1Mark ∨ (header ram p).bintype = code2Mark

instance (ram : Memory) (p : Nat) : Decidable (isCode ram p) :=
  inferInstanceAs (Decidable (_ ∨ _))

theorem not_isCode {ram : Memory} {p : Nat} (h₁ : (header ram p).bintype ≠ code1Mark)
    (h₂ : (header ram p).bintype ≠ code2Mark) : ¬ isCode ram p := fun h ↦ h.elim h₁ h₂

/-- An image without the header for a loader or an EEPROM, with it for code. -/
def ownBytes (ram : Memory) (p : Nat) : List UInt8 :=
  if isCode ram p then readMem ram p ((header ram p).fileLen.toNat + 256)
  else readMem ram (p + 256) (header ram p).fileLen.toNat

/-- The type whose partition an image goes to: a last header of all the flash is a loader's. -/
def areaType (bintype : UInt8) : UInt8 := if bintype = allflashMark then loaderMark else bintype

/-- What is sent for an image.  An image of the type EEPROM is not looked at. -/
def imageCommands (eeprom : EepromData) (ram : Memory) (p : Nat) : List Command :=
  let bintype := (header ram p).bintype
  (partition (areaType bintype)).flatMap (fun area ↦ eraseCommands area.1 area.2) ++
    pageCommands (typeOffset bintype)
      (if bintype = eepromMark then eeprom.bytes else ownBytes ram p)

/-- The byte `x` is programmed at `a`, in a sector that was erased before. -/
def ProgramsByte (log : List Event) (a : Nat) (x : UInt8) : Prop :=
  ∃ l addr pre post l', log = l ++ .program addr (pre ++ x :: post) true :: l' ∧
    addr + pre.length = a ∧ ∃ sect, .erase sect true ∈ l ∧ sect ≤ a ∧ a < sect + 4096

/-- The image was checked, its partition erased, each of its bytes programmed where it belongs, and
code verified, without error. -/
structure Clean (model : UInt8) (v : Visit σ) : Prop where
  checked : psCheckImageIntegrity model v.before.ram v.pos ≠ maxFlashOff
  taken : ∀ e ∈ v.done.log, e.ok
  erased : ∀ a, InPartition (areaType (header v.before.ram v.pos).bintype) a →
    ∃ sect, .erase sect true ∈ v.done.log ∧ sect ≤ a ∧ a < sect + 4096
  programmed : ∀ pre x post, ownBytes v.before.ram v.pos = pre ++ x :: post →
    ProgramsByte v.done.log (typeOffset (header v.before.ram v.pos).bintype + pre.length) x
  verified : isCode v.before.ram v.pos → ∃ length,
    .checksum (typeOffset (header v.before.ram v.pos).bintype) length ∈ v.done.log ∧ length ≠ 0

/-- The chip takes every command for the image and gives code back, the image ends with its
partition, and the data of an image of the type EEPROM are what `EEPROM_Data` starts with. -/
structure Stored (chip : Chip σ) (model : UInt8) (eeprom : EepromData) (p : Nat) (b : Box σ) :
    Prop where
  taken : (chip.sendAll (imageCommands eeprom b.ram p) b.flash).1 = true
  fits : ∀ i < (ownBytes b.ram p).length,
    InPartition (areaType (header b.ram p).bintype) (typeOffset (header b.ram p).bintype + i)
  own : (header b.ram p).bintype = eepromMark → ownBytes b.ram p <+: eeprom.bytes
  back : isCode b.ram p → readBack chip model (typeOffset (header b.ram p).bintype)
    ⟨(chip.sendAll (imageCommands eeprom b.ram p) b.flash).2, b.ram⟩ ≠ 0

/-! ## Logs of commands -/

section Logs

variable {areas : List (Nat × Nat)} {start a : Nat} {x : UInt8} {data : List UInt8}
  {rest : List Event}

/-- The log when all commands are taken, with checksums behind them. -/
def fullLog (areas : List (Nat × Nat)) (start : Nat) (data : List UInt8) (rest : List Event) :
    List Event :=
  (areas.flatMap (fun area ↦ eraseCommands area.1 area.2) ++ pageCommands start data).map
    Command.taken ++ rest

theorem erase_mem_areas {addr : Nat} (hareas : ∀ area ∈ areas, area.1 % 4096 = 0)
    (hmem : .erase addr ∈ areas.flatMap fun area ↦ eraseCommands area.1 area.2)
    (hlo : addr ≤ a) (hhi : a < addr + 4096) :
    ∃ area ∈ areas, area.1 ≤ a ∧ a < area.1 + 4096 * area.2 := by
  obtain ⟨area, harea, hmem⟩ := List.mem_flatMap.mp hmem
  obtain ⟨j, hj, heq⟩ := List.mem_map.mp hmem
  rw [List.mem_range] at hj
  have haddr := Command.erase.inj heq
  have hstart := hareas area harea
  exact ⟨area, harea, by omega, by omega⟩

theorem exists_erase (hareas : ∀ area ∈ areas, area.1 % 4096 = 0) {area : Nat × Nat}
    (harea : area ∈ areas) (hlo : area.1 ≤ a) (hhi : a < area.1 + 4096 * area.2) :
    ∃ sect, .erase sect ∈ areas.flatMap (fun area ↦ eraseCommands area.1 area.2) ∧ sect ≤ a ∧
      a < sect + 4096 := by
  have hstart := hareas area harea
  refine ⟨(area.1 / 4096 + (a / 4096 - area.1 / 4096)) * 4096, List.mem_flatMap.mpr ⟨area, harea,
    List.mem_map.mpr ⟨a / 4096 - area.1 / 4096, List.mem_range.mpr ?_, rfl⟩⟩, ?_, ?_⟩
  · omega
  · omega
  · omega

/-- Only the sectors of the areas are erased. -/
theorem erase_mem_fullLog {addr : Nat}
    (hrest : ∀ e ∈ rest, ∃ addr length, e = .checksum addr length)
    (hmem : .erase addr true ∈ fullLog areas start data rest) :
    .erase addr ∈ areas.flatMap fun area ↦ eraseCommands area.1 area.2 := by
  rcases List.mem_append.mp hmem with hmem | hmem
  · obtain ⟨command, hcommand, heq⟩ := List.mem_map.mp hmem
    cases command with
    | erase addr' =>
      rcases List.mem_append.mp hcommand with h | h
      · exact (Event.erase.inj heq).1 ▸ h
      · obtain ⟨_, _, heq⟩ := List.mem_map.mp h
        cases heq
    | program addr' data' => cases heq
  · obtain ⟨_, _, heq⟩ := hrest _ hmem
    cases heq

theorem program_mem_fullLog {addr : Nat} {page : List UInt8}
    (hrest : ∀ e ∈ rest, ∃ addr length, e = .checksum addr length)
    (hmem : .program addr page true ∈ fullLog areas start data rest) :
    .program addr page ∈ pageCommands start data := by
  rcases List.mem_append.mp hmem with hmem | hmem
  · obtain ⟨command, hcommand, heq⟩ := List.mem_map.mp hmem
    cases command with
    | erase addr' => cases heq
    | program addr' data' =>
      obtain ⟨rfl, rfl, -⟩ := Event.program.inj heq
      rcases List.mem_append.mp hcommand with h | h
      · obtain ⟨_, _, h⟩ := List.mem_flatMap.mp h
        obtain ⟨_, _, heq⟩ := List.mem_map.mp h
        cases heq
      · exact h
  · obtain ⟨_, _, heq⟩ := hrest _ hmem
    cases heq

theorem checksum_mem_fullLog {addr : Nat} {sum : UInt32}
    (hmem : .checksum addr sum ∈ fullLog areas start data rest) : .checksum addr sum ∈ rest := by
  rcases List.mem_append.mp hmem with hmem | hmem
  · obtain ⟨command, _, heq⟩ := List.mem_map.mp hmem
    cases command <;> cases heq
  · exact hmem

/-- What is programmed in an erased sector is in one of the areas. -/
theorem ProgramsByte.inArea (hareas : ∀ area ∈ areas, area.1 % 4096 = 0)
    (hrest : ∀ e ∈ rest, ∃ addr length, e = .checksum addr length)
    (h : ProgramsByte (fullLog areas start data rest) a x) :
    ∃ area ∈ areas, area.1 ≤ a ∧ a < area.1 + 4096 * area.2 := by
  obtain ⟨l, _, _, _, l', hlog, _, sect, hsect, hlo, hhi⟩ := h
  have hmem : .erase sect true ∈ fullLog areas start data rest := by
    rw [hlog]
    exact List.mem_append_left _ hsect
  exact erase_mem_areas hareas (erase_mem_fullLog hrest hmem) hlo hhi

/-- It is the byte of the data. -/
theorem ProgramsByte.byte (hfit : start + data.length ≤ 2 ^ 24)
    (hrest : ∀ e ∈ rest, ∃ addr length, e = .checksum addr length)
    (h : ProgramsByte (fullLog areas start data rest) a x) : data[a - start]? = some x := by
  obtain ⟨l, addr, pre, post, l', hlog, rfl, _⟩ := h
  have hmem : .program addr (pre ++ x :: post) true ∈ fullLog areas start data rest := by
    rw [hlog]
    exact List.mem_append_right _ List.mem_cons_self
  have hlen : pre.length < (pre ++ x :: post).length := by
    rw [List.length_append, List.length_cons]
    omega
  obtain ⟨-, hbyte⟩ := getElem?_of_mem_pageCommands (program_mem_fullLog hrest hmem) hfit hlen
  rw [← hbyte, List.getElem?_append_right (Nat.le_refl _), Nat.sub_self, List.getElem?_cons_zero]

/-- The bytes of data that lie in the areas are programmed. -/
theorem programsByte_fullLog (hareas : ∀ area ∈ areas, area.1 % 4096 = 0)
    (hfit : start + data.length ≤ 2 ^ 24) {pre post : List UInt8} (hdata : data = pre ++ x :: post)
    {area : Nat × Nat} (harea : area ∈ areas) (hlo : area.1 ≤ start + pre.length)
    (hhi : start + pre.length < area.1 + 4096 * area.2) :
    ProgramsByte (fullLog areas start data rest) (start + pre.length) x := by
  obtain ⟨addr, pre', post', hpage, hat⟩ := exists_page hdata hfit
  obtain ⟨sect, hsect, hle, hlt⟩ := exists_erase hareas harea hlo hhi
  obtain ⟨front, behind, hpages⟩ := List.append_of_mem hpage
  refine ⟨(areas.flatMap (fun area ↦ eraseCommands area.1 area.2) ++ front).map Command.taken, addr,
    pre', post', behind.map Command.taken ++ rest, ?_, hat, sect, ?_, hle, hlt⟩
  · unfold fullLog
    rw [hpages, ← List.append_assoc, List.map_append, List.map_cons,
      List.append_assoc]
    rfl
  · exact List.mem_map.mpr ⟨_, List.mem_append_left _ hsect, rfl⟩

end Logs

/-! ## One image -/

theorem eraseAndProgram_tells (start n p : Nat) (length : UInt32) (b : Box σ) :
    (eraseAndProgram chip start n p length b).Tells := by
  have h : ((vEraseFlash chip start n b.flash).andThen
      (programLoop chip start (readMem b.ram p length.toNat))).Tells :=
    (vEraseFlash_tells start n b.flash).andThen fun s ↦ programLoop_tells start _ s
  exact h

theorem verifiedTries_rc (start n p : Nat) (length : UInt32) (b : Box σ) :
    (verifiedTries chip model start n p length programMaxRetryTimes 0 b).rc =
      (eraseAndProgram chip start n p length b).rc := by
  unfold programMaxRetryTimes verifiedTries
  rw [Done.seq_rc]
  split
  · rw [Done.seq_rc]
    split
    · rfl
    · rfl
  · rfl

theorem verifiedTries_ok {start n p : Nat} {length : UInt32} {b : Box σ}
    (h : (eraseAndProgram chip start n p length b).rc = 0) :
    (verifiedTries chip model start n p length programMaxRetryTimes 0 b).log =
        (eraseAndProgram chip start n p length b).log ++
          [.checksum start (readBack chip model start
            (eraseAndProgram chip start n p length b).state)] ∧
      (verifiedTries chip model start n p length programMaxRetryTimes 0 b).state =
        (checksumOf chip model start (eraseAndProgram chip start n p length b).state).state := by
  unfold programMaxRetryTimes verifiedTries
  simp only [Done.seq_log, Done.seq_state, h, if_true]
  constructor
  · split
    · rfl
    · rfl
  · split
    · rfl
    · rfl

theorem verifiedTries_error {start n p : Nat} {length : UInt32} {b : Box σ}
    (h : (eraseAndProgram chip start n p length b).rc ≠ 0) :
    (verifiedTries chip model start n p length programMaxRetryTimes 0 b).log =
      (eraseAndProgram chip start n p length b).log := by
  unfold programMaxRetryTimes verifiedTries
  simp only [Done.seq_log, if_neg h]
  exact List.append_nil _

/-- `DoChecksum` says the same whatever is in the memory that it reads into. -/
theorem doChecksum_anywhere (flash ram ram' : Memory) (addr : Nat) :
    (doChecksum model flash addr ram).1 = (doChecksum model flash addr ram').1 := by
  unfold doChecksum
  simp only
  split
  · rfl
  have hlen (len : UInt32) (f : Memory) (a : Nat) : len.toNat ≤ (readFlash f a len).length := by
    unfold readFlash
    rw [length_readMem, UInt32.toNat_sub]
    have hlt := len.toNat_lt
    have hone : (1 : UInt32).toNat = 1 := rfl
    omega
  rw [readMem_writeMem_take (hlen _ _ _), readMem_writeMem_take (hlen _ _ _)]
  split
  · rfl
  · rfl

theorem eraseAndProgram_sends (start n p : Nat) (length : UInt32) (b : Box σ) :
    Sends chip (areaCommands start n (readMem b.ram p length.toNat)) b.flash
      ((vEraseFlash chip start n b.flash).andThen
        (programLoop chip start (readMem b.ram p length.toNat))) :=
  (vEraseFlash_sends start n b.flash).andThen fun s ↦ programLoop_sends _ _ s

theorem eraseAndProgram_rc (start n p : Nat) (length : UInt32) (b : Box σ) :
    (eraseAndProgram chip start n p length b).rc = 0 ↔
      (chip.sendAll (areaCommands start n (readMem b.ram p length.toNat)) b.flash).1 = true :=
  (eraseAndProgram_sends start n p length b).rc

theorem eraseAndProgram_state (start n p : Nat) (length : UInt32) (b : Box σ) :
    (eraseAndProgram chip start n p length b).state =
      ⟨(chip.sendAll (areaCommands start n (readMem b.ram p length.toNat)) b.flash).2, b.ram⟩ :=
  congrArg (Box.mk · b.ram) (eraseAndProgram_sends start n p length b).state

/-- What `vProgramCode1` and `vProgramCode2` return, and what a return value of 0 leaves open. -/
theorem verified_rc_iff (start n p : Nat) (length : UInt32) (b : Box σ) :
    let d := verifiedTries chip model start n p length programMaxRetryTimes 0 b
    let sent := chip.sendAll (areaCommands start n (readMem b.ram p length.toNat)) b.flash
    (d.rc = 0 → readBack chip model start d.state ≠ 0) ↔
      (sent.1 = false ∨ readBack chip model start ⟨sent.2, b.ram⟩ ≠ 0) := by
  simp only [verifiedTries_rc]
  by_cases hrc : (eraseAndProgram chip start n p length b).rc = 0
  · have hsame : readBack chip model start
        (verifiedTries chip model start n p length programMaxRetryTimes 0 b).state =
          readBack chip model start (eraseAndProgram chip start n p length b).state := by
      rw [(verifiedTries_ok hrc).2]
      exact doChecksum_anywhere _ _ _ _
    rw [hsame, eraseAndProgram_state, (eraseAndProgram_rc _ _ _ _ _).mp hrc]
    exact ⟨fun h ↦ .inr (h hrc), fun h _ ↦ h.resolve_left (by decide)⟩
  · have hrefused := hrc
    rw [eraseAndProgram_rc, Bool.not_eq_true] at hrefused
    exact ⟨fun _ ↦ .inl hrefused, fun _ h ↦ absurd h hrc⟩

/-- A log of the commands, with `rest` behind them when all of them are taken. -/
structure Logged (chip : Chip σ) (commands : List Command) (s : σ) (rest log : List Event) :
    Prop where
  taken : (∀ e ∈ log, e.ok) ↔ (chip.sendAll commands s).1 = true
  full : (chip.sendAll commands s).1 = true → log = commands.map Command.taken ++ rest

theorem Sends.logged {commands : List Command} {s : σ} {d : Done σ} (h : Sends chip commands s d)
    (htells : d.Tells) : Logged chip commands s [] d.log where
  taken := htells.symm.trans h.rc
  full hall := by
    rw [List.append_nil]
    exact h.log (h.rc.mpr hall)

theorem eraseAndProgram_logged (start n p : Nat) (length : UInt32) (b : Box σ) :
    Logged chip (areaCommands start n (readMem b.ram p length.toNat)) b.flash []
      (eraseAndProgram chip start n p length b).log :=
  (eraseAndProgram_sends start n p length b).logged
    (eraseAndProgram_tells start n p length b)

theorem verifiedTries_logged (start n p : Nat) (length : UInt32) (b : Box σ) :
    let sent := chip.sendAll (areaCommands start n (readMem b.ram p length.toNat)) b.flash
    Logged chip (areaCommands start n (readMem b.ram p length.toNat)) b.flash
      [.checksum start (readBack chip model start ⟨sent.2, b.ram⟩)]
      (verifiedTries chip model start n p length programMaxRetryTimes 0 b).log := by
  have hlogged := @eraseAndProgram_logged _ chip start n p length b
  have hrc := @eraseAndProgram_rc _ chip start n p length b
  by_cases hok : (eraseAndProgram chip start n p length b).rc = 0
  · have hlog := (@verifiedTries_ok _ chip model _ _ _ _ _ hok).1
    rw [eraseAndProgram_state] at hlog
    rw [hlog]
    refine ⟨⟨fun _ ↦ hrc.mp hok, fun _ e he ↦ ?_⟩, fun hall ↦ ?_⟩
    · rcases List.mem_append.mp he with he | he
      · exact hlogged.taken.mpr (hrc.mp hok) e he
      · rw [List.mem_singleton.mp he]
        rfl
    · rw [hlogged.full hall, List.append_nil]
  · rw [verifiedTries_error hok]
    exact ⟨hlogged.taken, fun hall ↦ absurd (hrc.mpr hall) hok⟩

/-- A call that the next one follows whatever it returns. -/
theorem Logged.after {commands commands' : List Command} {s : σ} {d : Done σ}
    {rest log : List Event} (hd : Sends chip commands s d) (htells : d.Tells)
    (h : Logged chip commands' d.state rest log) :
    Logged chip (commands ++ commands') s rest (d.log ++ log) := by
  have hsplit : (∀ e ∈ d.log ++ log, e.ok) ↔ (chip.sendAll (commands ++ commands') s).1 = true := by
    rw [List.forall_mem_append, h.taken, Chip.sendAll_append, hd.state]
    by_cases hall : (chip.sendAll commands s).1 = true
    · rw [if_pos hall]
      exact and_iff_right (htells.mp (hd.rc.mpr hall))
    · rw [if_neg hall]
      exact ⟨fun h ↦ hd.rc.mp (htells.mpr h.1), fun h ↦ absurd h hall⟩
  refine ⟨hsplit, fun hall ↦ ?_⟩
  obtain ⟨hfirst, hrest⟩ := List.forall_mem_append.mp (hsplit.mpr hall)
  rw [hd.log (htells.mpr hfirst), h.full (h.taken.mp hrest), List.map_append, List.append_assoc]

theorem vProgramDef_logged (b : Box σ) :
    Logged chip (eraseCommands defaultAddrOff numOfDefaultSector ++
        (eraseCommands eepromAddrOff numOfEepSector ++ pageCommands defaultAddrOff eeprom.bytes))
      b.flash [] (vProgramDef chip eeprom b).log := by
  apply Logged.after (vEraseFlash_sends _ _ _) (vEraseFlash_tells _ _ _)
  refine Sends.logged ((vEraseFlash_sends _ _ _).andThen fun s ↦ ?_)
    ((vEraseFlash_tells _ _ _).andThen fun s ↦ ?_)
  · exact vProgramFlash_sends _ _ s
  · exact vProgramFlash_tells _ _ s

/-- What is sent, with the length of code as the code computes it. -/
def sentCommands (eeprom : EepromData) (ram : Memory) (p : Nat) : List Command :=
  let bintype := (header ram p).bintype
  (partition (areaType bintype)).flatMap (fun area ↦ eraseCommands area.1 area.2) ++
    pageCommands (typeOffset bintype)
      (if bintype = eepromMark then eeprom.bytes
      else if isCode ram p then readMem ram p ((header ram p).fileLen + 256).toNat
      else readMem ram (p + 256) (header ram p).fileLen.toNat)

/-- The checksum that follows what is sent for code. -/
def checksums (chip : Chip σ) (model : UInt8) (eeprom : EepromData) (p : Nat) (b : Box σ) :
    List Event :=
  if isCode b.ram p then
    [.checksum (typeOffset (header b.ram p).bintype)
      (readBack chip model (typeOffset (header b.ram p).bintype)
        ⟨(chip.sendAll (sentCommands eeprom b.ram p) b.flash).2, b.ram⟩)]
  else []

theorem programImage_logged {p : Nat} {b : Box σ}
    (hoff : typeOffset (header b.ram p).bintype ≠ maxFlashOff) :
    Logged chip (sentCommands eeprom b.ram p) b.flash (checksums chip model eeprom p b)
      (programImage chip model eeprom (typeOffset (header b.ram p).bintype) p b).log := by
  have hcode (start n : Nat) (hcode : isCode b.ram p)
      (hsent : sentCommands eeprom b.ram p =
        areaCommands start n (readMem b.ram p ((header b.ram p).fileLen + 256).toNat))
      (hstart : typeOffset (header b.ram p).bintype = start)
      (hprog : programImage chip model eeprom start p b =
        verifiedTries chip model start n p ((header b.ram p).fileLen + 256) programMaxRetryTimes 0 b) :
      Logged chip (sentCommands eeprom b.ram p) b.flash (checksums chip model eeprom p b)
        (programImage chip model eeprom (typeOffset (header b.ram p).bintype) p b).log := by
    rw [checksums, if_pos hcode, hsent, hstart, hprog]
    exact verifiedTries_logged start n p _ b
  have hloader (hcode : ¬ isCode b.ram p)
      (hsent : sentCommands eeprom b.ram p = areaCommands loaderAddrOff numOfLoaderSector
        (readMem b.ram (p + sizeofHeader) (header b.ram p).fileLen.toNat))
      (hstart : typeOffset (header b.ram p).bintype = loaderAddrOff) :
      Logged chip (sentCommands eeprom b.ram p) b.flash (checksums chip model eeprom p b)
        (programImage chip model eeprom (typeOffset (header b.ram p).bintype) p b).log := by
    rw [checksums, if_neg hcode, hsent, hstart]
    change Logged chip _ _ _ (vProgramLoader chip (p + sizeofHeader) (header b.ram p).fileLen b).log
    rw [vProgramLoader_log, List.append_nil]
    exact eraseAndProgram_logged _ _ _ _ b
  rcases typeOffset_cases hoff with h | h | h | h | h
  · have hnot : ¬ isCode b.ram p := not_isCode (by rw [h]; decide) (by rw [h]; decide)
    refine hloader hnot ?_ (by rw [h]; rfl)
    simp only [sentCommands, if_neg hnot]
    rw [h]
    rfl
  · have hnot : ¬ isCode b.ram p := not_isCode (by rw [h]; decide) (by rw [h]; decide)
    refine hloader hnot ?_ (by rw [h]; rfl)
    simp only [sentCommands, if_neg hnot]
    rw [h]
    rfl
  · refine hcode code1AddrOff numOfCode1Sector (.inl h) ?_ (by rw [h]; rfl) rfl
    simp only [sentCommands, if_pos (show isCode b.ram p from .inl h)]
    rw [h]
    rfl
  · refine hcode code2AddrOff numOfCode2Sector (.inr h) ?_ (by rw [h]; rfl) rfl
    simp only [sentCommands, if_pos (show isCode b.ram p from .inr h)]
    rw [h]
    rfl
  · have hnot : ¬ isCode b.ram p := not_isCode (by rw [h]; decide) (by rw [h]; decide)
    have hsent : sentCommands eeprom b.ram p =
        eraseCommands defaultAddrOff numOfDefaultSector ++
          (eraseCommands eepromAddrOff numOfEepSector ++
            pageCommands defaultAddrOff eeprom.bytes) := by
      unfold sentCommands
      rw [h]
      rfl
    rw [checksums, if_neg hnot, hsent, h]
    exact vProgramDef_logged b

theorem mem_partition {bintype : UInt8} {area : Nat × Nat} (h : area ∈ partition bintype) :
    area.1 % 4096 = 0 ∧ area.1 + 4096 * area.2 ≤ 2 ^ 24 := by
  unfold partition at h
  split_ifs at h
  · rw [List.mem_singleton.mp h]
    decide
  · rw [List.mem_singleton.mp h]
    decide
  · rw [List.mem_singleton.mp h]
    decide
  · rcases List.mem_cons.mp h with rfl | h
    · decide
    · rw [List.mem_singleton.mp h]
      decide
  · cases h

theorem typeOffset_le (bintype : UInt8) : typeOffset bintype ≤ 2 ^ 24 := by
  unfold typeOffset
  split_ifs <;> decide

theorem toNat_nbytes {len : UInt32} {start : Nat} (h : start + (len.toNat + 256) ≤ 2 ^ 24) :
    (len + 256).toNat = len.toNat + 256 ∧ (len + 252).toNat = len.toNat + 252 := by
  constructor
  · rw [UInt32.toNat_add]
    exact Nat.mod_eq_of_lt (by change len.toNat + 256 < _; omega)
  · rw [UInt32.toNat_add]
    exact Nat.mod_eq_of_lt (by change len.toNat + 252 < _; omega)

/-- Data whose bytes all lie in a partition. -/
theorem fits_le {bintype type : UInt8} {n : Nat}
    (h : ∀ i < n, InPartition bintype (typeOffset type + i)) : typeOffset type + n ≤ 2 ^ 24 := by
  cases n with
  | zero => exact typeOffset_le type
  | succ n =>
    obtain ⟨area, harea, _, hlt⟩ := h n (Nat.lt_succ_self n)
    have hend := (mem_partition harea).2
    omega

/-- An image that ends with its partition is sent as it is. -/
theorem sentCommands_eq {ram : Memory} {p : Nat}
    (hfits : ∀ i < (ownBytes ram p).length,
      InPartition (areaType (header ram p).bintype) (typeOffset (header ram p).bintype + i)) :
    sentCommands eeprom ram p = imageCommands eeprom ram p := by
  have hle := fits_le hfits
  unfold sentCommands imageCommands ownBytes
  by_cases hcode : isCode ram p
  · rw [ownBytes, if_pos hcode, length_readMem] at hle
    rw [if_pos hcode, if_pos hcode, (toNat_nbytes hle).1]
  · rw [if_neg hcode, if_neg hcode]

theorem checksums_only {p : Nat} {b : Box σ} :
    ∀ e ∈ checksums chip model eeprom p b, ∃ addr length, e = .checksum addr length := by
  intro e he
  unfold checksums at he
  split at he
  · exact ⟨_, _, List.mem_singleton.mp he⟩
  · cases he

/-- An image that was programmed without error was stored by the chip. -/
theorem Clean.stored {v : Visit σ}
    (hlogged : Logged chip (sentCommands eeprom v.before.ram v.pos) v.before.flash
      (checksums chip model eeprom v.pos v.before) v.done.log)
    (h : Clean model v) : Stored chip model eeprom v.pos v.before := by
  have hall := hlogged.taken.mp h.taken
  have hlog := hlogged.full hall
  have hareas : ∀ area ∈ partition (areaType (header v.before.ram v.pos).bintype),
      area.1 % 4096 = 0 := fun area harea ↦ (mem_partition harea).1
  have hbyte (i : Nat) (hi : i < (ownBytes v.before.ram v.pos).length) :
      ProgramsByte v.done.log (typeOffset (header v.before.ram v.pos).bintype + i)
        (ownBytes v.before.ram v.pos)[i] := by
    have hcut : (ownBytes v.before.ram v.pos).take i ++ (ownBytes v.before.ram v.pos)[i] ::
        (ownBytes v.before.ram v.pos).drop (i + 1) = ownBytes v.before.ram v.pos := by
      rw [List.getElem_cons_drop hi, List.take_append_drop]
    have hprog := h.programmed _ _ _ hcut.symm
    rwa [List.length_take_of_le (Nat.le_of_lt hi)] at hprog
  have hfits (i : Nat) (hi : i < (ownBytes v.before.ram v.pos).length) :
      InPartition (areaType (header v.before.ram v.pos).bintype)
        (typeOffset (header v.before.ram v.pos).bintype + i) := by
    have hprog := hbyte i hi
    rw [hlog] at hprog
    exact hprog.inArea hareas checksums_only
  refine ⟨sentCommands_eq hfits ▸ hall, hfits, fun htype ↦ ?_, fun hcode ↦ ?_⟩
  · rw [List.prefix_iff_getElem?]
    intro i hi
    have hprog := hbyte i hi
    rw [hlog, sentCommands] at hprog
    simp only [if_pos htype] at hprog
    have hat := hprog.byte (by rw [htype, eeprom.length_eq]; decide) checksums_only
    rwa [Nat.add_sub_cancel_left] at hat
  · obtain ⟨sum, hsum, hne⟩ := h.verified hcode
    rw [hlog] at hsum
    have hrest : _ ∈ checksums chip model eeprom v.pos v.before := checksum_mem_fullLog hsum
    rw [checksums, if_pos hcode, sentCommands_eq hfits, List.mem_singleton,
      Event.checksum.injEq] at hrest
    rw [← hrest.2]
    exact hne

/-- What is programmed when the chip stores the image. -/
theorem Stored.programmed {ram : Memory} {p : Nat} {rest : List Event}
    (hfits : ∀ i < (ownBytes ram p).length,
      InPartition (areaType (header ram p).bintype) (typeOffset (header ram p).bintype + i))
    (hown : (header ram p).bintype = eepromMark → ownBytes ram p <+: eeprom.bytes)
    {pre post : List UInt8} {x : UInt8} (hdata : ownBytes ram p = pre ++ x :: post) :
    ProgramsByte ((imageCommands eeprom ram p).map Command.taken ++ rest)
      (typeOffset (header ram p).bintype + pre.length) x := by
  have hlt : pre.length < (ownBytes ram p).length := by
    rw [hdata, List.length_append, List.length_cons]
    omega
  obtain ⟨area, harea, hlo, hhi⟩ := hfits pre.length hlt
  have hareas : ∀ area ∈ partition (areaType (header ram p).bintype), area.1 % 4096 = 0 :=
    fun area harea ↦ (mem_partition harea).1
  unfold imageCommands
  by_cases htype : (header ram p).bintype = eepromMark
  · obtain ⟨behind, hbytes⟩ := hown htype
    rw [hdata, List.append_assoc, List.cons_append] at hbytes
    simp only [if_pos htype]
    refine programsByte_fullLog hareas ?_ hbytes.symm harea hlo hhi
    rw [htype, eeprom.length_eq]
    decide
  · simp only [if_neg htype]
    exact programsByte_fullLog hareas (fits_le hfits) hdata harea hlo hhi

theorem Stored.clean {v : Visit σ}
    (hok : psCheckImageIntegrity model v.before.ram v.pos ≠ maxFlashOff)
    (hlogged : Logged chip (sentCommands eeprom v.before.ram v.pos) v.before.flash
      (checksums chip model eeprom v.pos v.before) v.done.log)
    (h : Stored chip model eeprom v.pos v.before) : Clean model v := by
  have hsent := @sentCommands_eq eeprom _ _ h.fits
  have hall : (chip.sendAll (sentCommands eeprom v.before.ram v.pos) v.before.flash).1 = true :=
    hsent ▸ h.taken
  have hlog := hlogged.full hall
  rw [hsent] at hlog
  refine ⟨hok, hlogged.taken.mpr hall, fun a ha ↦ ?_, fun pre x post hdata ↦ ?_, fun hcode ↦ ?_⟩
  · obtain ⟨area, harea, hlo, hhi⟩ := ha
    obtain ⟨sect, hsect, hle, hlt⟩ :=
      exists_erase (fun area harea ↦ (mem_partition harea).1) harea hlo hhi
    refine ⟨sect, ?_, hle, hlt⟩
    rw [hlog]
    exact List.mem_append_left _ (List.mem_map.mpr ⟨_, List.mem_append_left _ hsect, rfl⟩)
  · rw [hlog]
    exact Stored.programmed h.fits h.own hdata
  · refine ⟨_, ?_, h.back hcode⟩
    rw [hlog, checksums, if_pos hcode, hsent]
    exact List.mem_append_right _ (List.mem_singleton_self _)

theorem clean_iff {v : Visit σ}
    (hok : psCheckImageIntegrity model v.before.ram v.pos ≠ maxFlashOff)
    (hdone : v.done = programImage chip model eeprom
      (psCheckImageIntegrity model v.before.ram v.pos) v.pos v.before) :
    Clean model v ↔ Stored chip model eeprom v.pos v.before := by
  have hoff := psCheckImageIntegrity_eq hok
  have hlogged := @programImage_logged _ chip model eeprom _ _ (hoff ▸ hok)
  rw [← hoff, ← hdone] at hlogged
  exact ⟨Clean.stored hlogged, Stored.clean hok hlogged⟩

/-! ## Runs -/

/-- The headers that the loop comes to. -/
inductive Reaches (chip : Chip σ) (model : UInt8) (eeprom : EepromData) :
    Nat → Box σ → Nat → Box σ → Prop
  | here (p : Nat) (b : Box σ) : Reaches chip model eeprom p b p b
  | chain {p q : Nat} {b b' : Box σ} :
      psCheckImageIntegrity model b.ram p ≠ maxFlashOff → isChain b.ram p →
      Reaches chip model eeprom ((p + sizeofHeader) % 2 ^ 32) b q b' →
      Reaches chip model eeprom p b q b'
  | image {p q : Nat} {b b' : Box σ} {d : Done (Box σ)} :
      psCheckImageIntegrity model b.ram p ≠ maxFlashOff → ¬ isChain b.ram p →
      d = programImage chip model eeprom (psCheckImageIntegrity model b.ram p) p b →
      (header d.state.ram p).next = 1 →
      Reaches chip model eeprom (advance d.state.ram p) d.state q b' →
      Reaches chip model eeprom p b q b'

/-- FALSE says that the check of a header failed, and nothing else. -/
theorem returns_false_iff {fuel p : Nat} {b b' : Box σ} {rc : Bool} {visits : List (Visit σ)}
    (h : apUpgradeFirmware chip model eeprom fuel p b = some (rc, b', visits)) :
    rc = false ↔ ∃ q b'', Reaches chip model eeprom p b q b'' ∧
      psCheckImageIntegrity model b''.ram q = maxFlashOff := by
  induction fuel generalizing p b rc b' visits with
  | zero => cases h
  | succ fuel ih =>
    unfold apUpgradeFirmware at h
    simp only at h
    split at h
    · have hrc : false = rc := congrArg Prod.fst (Option.some.inj h)
      exact ⟨fun _ ↦ ⟨p, b, .here p b, ‹_›⟩, fun _ ↦ hrc.symm⟩
    have hok : psCheckImageIntegrity model b.ram p ≠ maxFlashOff := ‹_›
    split at h
    · have hchain : isChain b.ram p := ‹_›
      rw [ih h]
      constructor
      · rintro ⟨q, b'', hr, hbad⟩
        exact ⟨q, b'', .chain hok hchain hr, hbad⟩
      · rintro ⟨q, b'', hr, hbad⟩
        cases hr with
        | here => exact absurd hbad hok
        | chain _ _ hr => exact ⟨q, b'', hr, hbad⟩
        | image _ hnot _ _ _ => exact absurd hchain hnot
    have hchain : ¬ isChain b.ram p := ‹_›
    split at h
    · have hnext := ‹(header _ p).next = 1›
      obtain ⟨⟨rc', b₁, visits'⟩, hrest, hr⟩ := Option.map_eq_some_iff.mp h
      have hrc : rc' = rc := congrArg Prod.fst hr
      rw [← hrc, ih hrest]
      constructor
      · rintro ⟨q, b'', hr, hbad⟩
        exact ⟨q, b'', .image hok hchain rfl hnext hr, hbad⟩
      · rintro ⟨q, b'', hr, hbad⟩
        cases hr with
        | here => exact absurd hbad hok
        | chain _ hyes _ => exact absurd hyes hchain
        | image _ _ hd _ hr =>
          subst hd
          exact ⟨q, b'', hr, hbad⟩
    · have hnext := ‹¬ (header _ p).next = 1›
      have hrc : true = rc := congrArg Prod.fst (Option.some.inj h)
      rw [← hrc]
      refine ⟨fun hfalse ↦ absurd hfalse (by decide), ?_⟩
      rintro ⟨q, b'', hr, hbad⟩
      cases hr with
      | here => exact absurd hbad hok
      | chain _ hyes _ => exact absurd hyes hchain
      | image _ _ hd hyes _ =>
        subst hd
        exact absurd hyes hnext


/-- `vProgramCode1` and `vProgramCode2` return 0 for a region that does not verify unless a command
failed; `ApUpgradeFirmware` looks at none of this, only at the headers. -/
theorem upgrade_success_iff (chip : Chip σ) (model : UInt8) (eeprom : EepromData) :
    (∀ (p : Nat) (length : UInt32) (b : Box σ),
      let d := vProgramCode1 chip model p length b
      let sent := chip.sendAll
        (areaCommands code1AddrOff numOfCode1Sector (readMem b.ram p length.toNat)) b.flash
      (d.rc = 0 → readBack chip model code1AddrOff d.state ≠ 0) ↔
        (sent.1 = false ∨ readBack chip model code1AddrOff ⟨sent.2, b.ram⟩ ≠ 0)) ∧
      (∀ (p : Nat) (length : UInt32) (b : Box σ),
        let d := vProgramCode2 chip model p length b
        let sent := chip.sendAll
          (areaCommands code2AddrOff numOfCode2Sector (readMem b.ram p length.toNat)) b.flash
        (d.rc = 0 → readBack chip model code2AddrOff d.state ≠ 0) ↔
          (sent.1 = false ∨ readBack chip model code2AddrOff ⟨sent.2, b.ram⟩ ≠ 0)) ∧
      ∀ (fuel p : Nat) (b b' : Box σ) (rc : Bool) (visits : List (Visit σ)),
        apUpgradeFirmware chip model eeprom fuel p b = some (rc, b', visits) →
          ((rc = true → ∀ v ∈ visits, Clean model v) ↔
            ((∃ q b'', Reaches chip model eeprom p b q b'' ∧
                psCheckImageIntegrity model b''.ram q = maxFlashOff) ∨
              ∀ v ∈ visits, Stored chip model eeprom v.pos v.before)) := by
  refine ⟨fun p length b ↦ verified_rc_iff _ _ p length b,
    fun p length b ↦ verified_rc_iff _ _ p length b, ?_⟩
  intro fuel p b b' rc visits hrun
  have hclean : (∀ v ∈ visits, Clean model v) ↔
      ∀ v ∈ visits, Stored chip model eeprom v.pos v.before := by
    refine forall₂_congr fun v hv ↦ ?_
    obtain ⟨hok, _, hdone⟩ := apUpgradeFirmware_visits hrun v hv
    exact clean_iff hok hdone
  rw [← returns_false_iff hrun, hclean]
  cases rc with
  | false => exact ⟨fun _ ↦ .inl rfl, fun _ h ↦ absurd h (by decide)⟩
  | true => exact ⟨fun h ↦ .inr (h rfl), fun h _ ↦ h.resolve_left (by decide)⟩

/-- An image of three bytes with nothing behind it. -/
theorem exists_code1 : ∃ ram, IsImage 50 code1Mark 3 ram 0 ∧ ram 12 = 0 ∧ ram 16 = 0 := by
  obtain ⟨hhdr, himage⟩ := setupHeader_isImage ⟨50, 9, 1, 0, 0, 12, [], Nat.zero_le _⟩ code1Mark 0
    (fun _ ↦ 0xFF) 0 (n := 3) (by decide)
  have h12 := hhdr 12 (by decide) (by decide)
  have h16 := hhdr 16 (by decide) (by decide)
  rw [Nat.zero_add] at h12 h16
  exact ⟨_, himage, h12, h16⟩

/-- The upgrade with that image, on a chip that takes every command. -/
theorem code1_run {chip : Chip Unit} {ram : Memory} (himage : IsImage 50 code1Mark 3 ram 0)
    (ht : chip.Takes)
    (hnext : (doChecksum 50 (chip.read ()) code1AddrOff ram).2 12 = 0) :
    ∃ b v, apUpgradeFirmware chip 50 eeprom 1 0 ⟨(), ram⟩ = some (true, b, [v]) ∧ v.pos = 0 ∧
      v.before = ⟨(), ram⟩ := by
  have hcheck : psCheckImageIntegrity 50 ram 0 = code1AddrOff :=
    himage.psCheckImageIntegrity (by decide)
  have hok : psCheckImageIntegrity 50 ram 0 ≠ maxFlashOff := by
    rw [hcheck]
    decide
  have hchain : ¬ isChain ram 0 := fun hc ↦
    absurd (himage.type.symm.trans hc.1) (by decide)
  have hlen : (header ram 0).fileLen = 3 := himage.fileLen
  have hstate := (@verifiedTries_ok _ chip 50 _ _ _ _ _ (ht.eraseAndProgram code1AddrOff
    numOfCode1Sector 0 ((header ram 0).fileLen + 256) ⟨(), ram⟩)).2
  have hprog : programImage chip 50 eeprom (psCheckImageIntegrity 50 ram 0) 0 ⟨(), ram⟩ =
      verifiedTries chip 50 code1AddrOff numOfCode1Sector 0 ((header ram 0).fileLen + 256)
        programMaxRetryTimes 0 ⟨(), ram⟩ := by
    rw [hcheck]
    rfl
  have hend : (header (verifiedTries chip 50 code1AddrOff numOfCode1Sector 0
      ((header ram 0).fileLen + 256) programMaxRetryTimes 0 ⟨(), ram⟩).state.ram 0).next ≠ 1 := by
    rw [hstate]
    change (doChecksum 50 (chip.read ()) code1AddrOff ram).2 12 ≠ 1
    rw [hnext]
    decide
  exact ⟨_, _, apUpgradeFirmware_last hok hchain hprog hend, rfl, rfl⟩

/-- A chip that takes every command and always holds the same. -/
def heldChip (m : Memory) : Chip Unit := { takingChip with read := fun _ ↦ m }

theorem heldChip_takes (m : Memory) : (heldChip m).Takes := ⟨fun _ _ ↦ rfl, fun _ _ _ ↦ rfl⟩

theorem upgrade_success_code1 : ∃ (eeprom : EepromData) (m ram : Memory) (b : Box Unit)
    (v : Visit Unit), apUpgradeFirmware (heldChip m) 50 eeprom 1 0 ⟨(), ram⟩ = some (true, b, [v]) ∧
      v.pos = 0 ∧ Clean 50 v := by
  obtain ⟨eeprom⟩ : Nonempty EepromData := ⟨⟨List.replicate 1408 0, List.length_replicate⟩⟩
  obtain ⟨ram, himage, _, h16⟩ := exists_code1
  have hflash : IsImage 50 code1Mark 3 (fun i ↦ ram (i - code1AddrOff)) code1AddrOff :=
    himage.congr fun i _ ↦ by simp only [Nat.zero_add, Nat.add_sub_cancel_left]
  have hlin := hflash.linear (by decide)
  -- where `next` was, there is now the sixteenth byte of the header
  have hnext : (doChecksum 50 (fun i ↦ ram (i - code1AddrOff)) code1AddrOff ram).2 12 = 0 := by
    have hread : readFlash (fun i ↦ ram (i - code1AddrOff)) (code1AddrOff + binIdOffset)
        (UInt32.ofNat 3 + 252) = readMem (fun i ↦ ram (i - code1AddrOff)) (code1AddrOff + 4) 255 :=
      readFlash_eq (by decide) (by decide) (by decide)
    have hwrite := @writeMem_add _ ram 0 12
      (readMem (fun i ↦ ram (i - code1AddrOff)) (code1AddrOff + 4) 255)
      (by rw [length_readMem]; decide)
    have hram := @doChecksum_ram 50 (fun i ↦ ram (i - code1AddrOff)) ram code1AddrOff hlin.mark
      hlin.model
    rw [hlin.fileLen, hread] at hram
    rw [hram]
    rw [Nat.zero_add] at hwrite
    rw [hwrite]
    simp only [readMem, List.getElem_map, List.getElem_range]
    exact h16
  obtain ⟨b, v, hrun, hpos, hv⟩ := @code1_run eeprom _ _ himage
    (heldChip_takes fun i ↦ ram (i - code1AddrOff)) hnext
  refine ⟨eeprom, _, ram, b, v, hrun, hpos, ?_⟩
  have hstored : Stored (heldChip fun i ↦ ram (i - code1AddrOff)) 50 eeprom v.pos v.before := by
    rw [hpos, hv]
    refine ⟨(heldChip_takes _).sendAll _ _, fun i hi ↦ ?_, fun htype ↦ ?_, fun _ hzero ↦ ?_⟩
    · rw [ownBytes, if_pos (.inl himage.type), length_readMem, himage.fileLen] at hi
      rw [himage.type]
      have hlen : i < 3 + 256 := hi
      refine ⟨(code1AddrOff, numOfCode1Sector), List.mem_singleton_self _, Nat.le_add_right _ _, ?_⟩
      exact Nat.add_lt_add_left (Nat.lt_trans hlen (by decide)) _
    · exact absurd (himage.type.symm.trans htype) (by decide)
    · rw [himage.type] at hzero
      have hsum : (doChecksum 50 (fun i ↦ ram (i - code1AddrOff)) code1AddrOff ram).1 = 3 :=
        hflash.doChecksum (by decide)
      exact absurd (hsum.symm.trans hzero) (by decide)
  have hall := ((upgrade_success_iff (heldChip fun i ↦ ram (i - code1AddrOff)) 50 eeprom).2.2 1 0
    ⟨(), ram⟩ b true [v] hrun).mpr (.inr fun v' hv' ↦ by
      rw [List.mem_singleton.mp hv']
      exact hstored)
  exact hall rfl v (List.mem_singleton_self v)

/-- A chip that loses what is programmed: both return values say success. -/
theorem lost_code1_succeeds : ∃ (ram : Memory) (b : Box Unit) (v : Visit Unit),
    psCheckImageIntegrity 50 ram 0 ≠ maxFlashOff ∧
    (vProgramCode1 takingChip 50 0 259 ⟨(), ram⟩).rc = 0 ∧
    readBack takingChip 50 code1AddrOff (vProgramCode1 takingChip 50 0 259 ⟨(), ram⟩).state = 0 ∧
    apUpgradeFirmware takingChip 50 ⟨List.replicate 1408 0, List.length_replicate⟩ 1 0 ⟨(), ram⟩ =
      some (true, b, [v]) ∧ ¬ Clean 50 v := by
  obtain ⟨ram, himage, h12, _⟩ := exists_code1
  have hnone : doChecksum 50 (takingChip.read ()) code1AddrOff ram = (0, ram) := rfl
  have hok : psCheckImageIntegrity 50 ram 0 ≠ maxFlashOff := by
    rw [himage.psCheckImageIntegrity (by decide)]
    decide
  obtain ⟨b, v, hrun, hpos, hv⟩ := @code1_run ⟨List.replicate 1408 0, List.length_replicate⟩
    takingChip ram himage takingChip_takes (by rw [hnone]; exact h12)
  refine ⟨ram, b, v, hok, ?_, rfl, hrun, fun hclean ↦ ?_⟩
  · exact (verifiedTries_rc _ _ _ _ _).trans (takingChip_takes.eraseAndProgram _ _ _ _ _)
  · obtain ⟨_, _, hdone⟩ := apUpgradeFirmware_visits hrun v (List.mem_singleton_self v)
    have hstored := (clean_iff hclean.checked hdone).mp hclean
    rw [hpos, hv] at hstored
    have hback := hstored.back (.inl himage.type)
    rw [himage.type] at hback
    exact hback rfl

end PrintServer.Flash
