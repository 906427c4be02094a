import PrintServer.Lib.Machine
import PrintServer.Lib.Memory

/-!
# Firmware over TFTP

`TftpDLFlash` and `TftpDLCode1` of tftpd.c up to the result of `ApUpgradeFirmware`.  What `sendto`
and `recvfrom` return is the choice of a label, so that a run is any sequence of datagrams and
time-outs.
-/

namespace PrintServer.Tftp

open Lib

def segSize : Nat := 512
def pktSize : Nat := segSize + 4
def tftpdTryTimes : Nat := 2
def code2MaxSize : Nat := 768
def code1Size : Nat := 128

/-- What differs between the two functions: the last block number they take a payload with is one
more than `maxBlock`, and only one of them uses `PSUpgradeMode`. -/
structure Loader where
  maxBlock : Nat
  usesMode : Bool

def tftpDLFlash : Loader := ⟨code2MaxSize * 2, true⟩
def tftpDLCode1 : Loader := ⟨code1Size * 2, false⟩

inductive UpgradeMode
  | wait
  | tftp
  | other
deriving DecidableEq

inductive NakCode
  | upgrade
  | badCode2
  | wrFlash
deriving DecidableEq

inductive Phase
  | receiving
  | sendFailed
  -- `ApUpgradeFirmware( TempAddress, bsize )` has been called
  | upgrading
  | nak (code : NakCode)
  | reset
deriving DecidableEq

/-- `buf` is the datagram and `temp` the memory from `UPGRADE_TEMP_ADDRESS` on; `cur` is
`CurTempAddress` relative to it.  `allocated` says that `vAllocCode2Memory` holds the ports.
`appended` records the block number and the payload of what was copied to `temp`, and is no
variable of the program. -/
structure Download where
  mode : UpgradeMode
  allocated : Bool
  block : Nat
  retry : Nat
  buf : Nat → UInt8
  temp : Nat → UInt8
  cur : Nat
  bsize : Nat
  acks : List Nat
  phase : Phase
  appended : List (Nat × List UInt8)

/-- Up to the loop. -/
def Loader.start (dl : Loader) (mode : UpgradeMode) (alloc : Bool) (buf temp : Nat → UInt8) :
    Download :=
  let s : Download :=
    { mode := mode, allocated := alloc, block := 0, retry := 0, buf := buf, temp := temp, cur := 0,
      bsize := 0, acks := [], phase := .receiving, appended := [] }
  if alloc = false then { s with phase := .nak .upgrade }
  else if dl.usesMode then
    if mode = .wait then { s with mode := .tftp }
    else { s with allocated := false, phase := .nak .upgrade }
  else s

/-- What happens between two statements of the loops: `sendto` and `recvfrom` of a try, or the
return of `ApUpgradeFirmware`. -/
inductive Answer
  | sendFails
  | timeOut
  | datagram (bytes : List UInt8)
  | upgraded (ok : Bool)
deriving DecidableEq

namespace Download

/-- `htons( dp->th_block )` -/
def thBlock (s : Download) : Nat := (s.buf 2).toNat * 256 + (s.buf 3).toNat

/-- The first `n` bytes at `dp->th_data`. -/
def thData (s : Download) (n : Nat) : List UInt8 := readMem s.buf 4 n

/-- `vReleaseCode2Memory`, and `PSUpgradeMode = WAIT_UPGRADE_MODE` where it stands. -/
def leave (dl : Loader) (s : Download) (phase : Phase) : Download :=
  { s with
    allocated := false
    mode := if dl.usesMode then .wait else s.mode
    phase := phase }

/-- Behind the outer loop. -/
def finish (dl : Loader) (s : Download) : Download :=
  if s.block > dl.maxBlock + 1 then s.leave dl (.nak .badCode2) else { s with phase := .upgrading }

/-- `memcpy` of the payload. -/
def append (s : Download) (n : Nat) : Download :=
  { s with
    temp := writeMem s.temp s.cur (s.thData n)
    cur := s.cur + segSize
    bsize := s.bsize + segSize
    appended := s.appended ++ [(s.thBlock, s.thData n)] }

/-- The end of a turn of the outer loop. -/
def next (dl : Loader) (s : Download) (n : Nat) : Download :=
  let s := { s with block := s.block + 1 }
  if n = pktSize then { s with retry := 0 } else s.finish dl

/-- Behind the inner loop, with `nRecvLen` or nothing for a negative one. -/
def taken (dl : Loader) (s : Download) : Option Nat → Download
  | none => s.finish dl
  | some n =>
      if n > 4 then
        if s.block > dl.maxBlock then { s with block := s.block + 1 }.finish dl
        else (s.append (n - 4)).next dl n
      else s.next dl n

/-- The condition of the inner loop. -/
def tried (dl : Loader) (s : Download) (nRecvLen : Option Nat) : Download :=
  let wrong := nRecvLen = none ∨ s.thBlock ≠ s.block + 1
  if wrong ∧ s.retry + 1 < tftpdTryTimes then { s with retry := s.retry + 1 }
  else s.taken dl nRecvLen

def step (dl : Loader) (s : Download) (a : Answer) : Option Download :=
  match s.phase, a with
  | .receiving, .sendFails => some (s.leave dl .sendFailed)
  | .receiving, .timeOut => some ({ s with acks := s.acks ++ [s.block] }.tried dl none)
  | .receiving, .datagram bytes =>
      let bytes := bytes.take pktSize
      some ({ s with
        acks := s.acks ++ [s.block]
        buf := writeMem s.buf 0 bytes }.tried dl (some bytes.length))
  | .upgrading, .upgraded ok =>
      if ok then
        some { s with
          acks := s.acks ++ [s.block]
          mode := if dl.usesMode then .wait else s.mode
          phase := .reset }
      else some (s.leave dl (.nak .wrFlash))
  | _, _ => none

end Download

def Loader.machine (dl : Loader) (mode : UpgradeMode) (alloc : Bool) (buf temp : Nat → UInt8) :
    Machine Download Answer := ⟨dl.start mode alloc buf temp, Download.step dl⟩

/-! ## The property -/

/-- The payloads are those of the blocks 1, 2, 3, ...; and what `ApUpgradeFirmware` is called with
begins with them. -/
structure InOrder (s : Download) : Prop where
  numbers : s.appended.map Prod.fst = List.range' 1 s.appended.length
  temp : s.phase = .upgrading →
    let file := s.appended.flatMap Prod.snd
    readMem s.temp 0 file.length = file ∧ file.length ≤ s.bsize

/-- The last try of a turn does not leave another block than the next one in `buf`, with a payload
and room for it. -/
def LastTryOk (dl : Loader) (s : Download) : Answer → Prop
  | .datagram bytes =>
      s.retry + 1 = tftpdTryTimes → 4 < bytes.length → s.block ≤ dl.maxBlock →
        { s with buf := writeMem s.buf 0 (bytes.take pktSize) }.thBlock = s.block + 1
  | _ => True

/-! ## What a try can do -/

namespace Download

variable {dl : Loader} {s t : Download} {n : Nat} {nRecvLen : Option Nat} {a : Answer}

/-- The bytes that were copied to `temp`. -/
def file (s : Download) : List UInt8 := s.appended.flatMap Prod.snd

/-- Nothing is copied any more. -/
structure Ends (s t : Download) : Prop where
  phase : t.phase ≠ .receiving
  temp : t.temp = s.temp
  bsize : t.bsize = s.bsize
  appended : t.appended = s.appended
  block : t.block ≤ s.block + 1

theorem ends_leave {phase : Phase} (h : phase ≠ .receiving) : s.Ends (s.leave dl phase) :=
  ⟨h, rfl, rfl, rfl, Nat.le_succ _⟩

theorem finish_block : (s.finish dl).block = s.block := by
  unfold finish
  split <;> rfl

theorem ends_finish : s.Ends (s.finish dl) := by
  unfold finish
  split
  · exact ends_leave Phase.noConfusion
  · exact ⟨Phase.noConfusion, rfl, rfl, rfl, Nat.le_succ _⟩

/-- The outcomes of a try: it is repeated, its payload is copied, or the loops are left. -/
inductive Tried (dl : Loader) (s : Download) : Option Nat → Download → Prop
  | again {nRecvLen : Option Nat} (h : s.retry + 1 < tftpdTryTimes) :
      Tried dl s nRecvLen { s with retry := s.retry + 1 }
  | copied {n : Nat} (hn : 4 < n) (hroom : s.block ≤ dl.maxBlock)
      (hblock : s.thBlock = s.block + 1 ∨ ¬ s.retry + 1 < tftpdTryTimes) :
      Tried dl s (some n) ((s.append (n - 4)).next dl n)
  | left {nRecvLen : Option Nat} {t : Download} (h : s.Ends t) : Tried dl s nRecvLen t

theorem tried_spec : Tried dl s nRecvLen (s.tried dl nRecvLen) := by
  unfold tried
  simp only
  split
  · exact .again (by assumption : _ ∧ _).2
  · rename_i hstop
    unfold taken
    cases nRecvLen with
    | none => exact .left ends_finish
    | some n =>
        simp only
        split
        · rename_i hn
          split
          · have hend := @ends_finish dl { s with block := s.block + 1 }
            exact .left ⟨hend.phase, hend.temp, hend.bsize, hend.appended, Nat.le_of_eq finish_block⟩
          · rename_i hroom
            refine .copied hn (Nat.le_of_not_lt hroom) ?_
            by_contra hnot
            obtain ⟨hblock, hretry⟩ := not_or.mp hnot
            exact hstop ⟨.inr hblock, not_not.mp hretry⟩
        · -- a datagram without a payload ends the transfer
          rename_i hn
          have hshort : n ≠ pktSize := by
            intro heq
            exact hn (by rw [heq]; decide)
          unfold next
          simp only
          rw [if_neg hshort]
          have hend := @ends_finish dl { s with block := s.block + 1 }
          exact .left ⟨hend.phase, hend.temp, hend.bsize, hend.appended, Nat.le_of_eq finish_block⟩

theorem appended_next : (s.next dl n).appended = s.appended := by
  unfold next
  simp only
  split
  · rfl
  · exact ends_finish.appended

/-- The last try of a turn takes whatever block is in `buf`. -/
theorem tried_last (hn : 4 < n) (hroom : s.block ≤ dl.maxBlock)
    (hretry : s.retry + 1 = tftpdTryTimes) :
    (s.tried dl (some n)).appended = s.appended ++ [(s.thBlock, s.thData (n - 4))] := by
  unfold tried
  simp only
  rw [if_neg (by rw [hretry]; exact fun h ↦ Nat.lt_irrefl _ h.2)]
  unfold taken
  simp only
  rw [if_pos hn, if_neg (Nat.not_lt.mpr hroom), appended_next]
  rfl

/-! ## The memory -/

/-- What was copied lies at the front of the memory, without a gap while the loops go on. -/
structure Inv (s : Download) : Prop where
  temp : readMem s.temp 0 s.file.length = s.file
  fits : s.file.length ≤ s.bsize
  block : s.phase = .receiving → s.block = s.appended.length
  cur : s.phase = .receiving → s.file.length = s.cur ∧ s.bsize = s.cur
  retry : s.phase = .receiving → s.retry < tftpdTryTimes

theorem Ends.inv (h : s.Ends t) (hs : s.Inv) : t.Inv := by
  have hfile : t.file = s.file := congrArg (List.flatMap Prod.snd) h.appended
  refine ⟨?_, ?_, fun hp ↦ absurd hp h.phase, fun hp ↦ absurd hp h.phase,
    fun hp ↦ absurd hp h.phase⟩
  · rw [hfile, h.temp]
    exact hs.temp
  · rw [hfile, h.bsize]
    exact hs.fits

theorem file_append (s : Download) (n : Nat) : (s.append n).file = s.file ++ s.thData n := by
  unfold file append
  simp only [List.flatMap_append, List.flatMap_cons, List.flatMap_nil, List.append_nil]

theorem length_thData (s : Download) (n : Nat) : (s.thData n).length = n := length_readMem

/-- The payload is copied behind the others. -/
theorem temp_append (hs : s.Inv) (hcur : s.file.length = s.cur) :
    readMem (s.append n).temp 0 (s.append n).file.length = (s.append n).file := by
  rw [file_append, List.length_append, readMem_add]
  change readMem (writeMem s.temp s.cur (s.thData n)) 0 s.file.length ++
    readMem (writeMem s.temp s.cur (s.thData n)) (0 + s.file.length) (s.thData n).length = _
  rw [readMem_writeMem_of_le (by omega), hs.temp, Nat.zero_add, hcur, readMem_writeMem]

theorem inv_next (hs : readMem s.temp 0 s.file.length = s.file ∧ s.file.length ≤ s.bsize)
    (hblock : s.block + 1 = s.appended.length)
    (hcur : n = pktSize → s.file.length = s.cur ∧ s.bsize = s.cur) : (s.next dl n).Inv := by
  unfold next
  simp only
  split
  · rename_i hn
    exact ⟨hs.1, hs.2, fun _ ↦ hblock, fun _ ↦ hcur hn, fun _ ↦ Nat.zero_lt_two⟩
  · have hend := @ends_finish dl { s with block := s.block + 1 }
    have hfile : (finish dl { s with block := s.block + 1 }).file = s.file :=
      congrArg (List.flatMap Prod.snd) hend.appended
    refine ⟨?_, ?_, fun hp ↦ absurd hp hend.phase, fun hp ↦ absurd hp hend.phase,
      fun hp ↦ absurd hp hend.phase⟩
    · rw [hfile, hend.temp]
      exact hs.1
    · rw [hfile, hend.bsize]
      exact hs.2

theorem Tried.inv (h : Tried dl s nRecvLen t) (hphase : s.phase = .receiving) (hs : s.Inv)
    (hlen : ∀ n ∈ nRecvLen, n ≤ pktSize) : t.Inv := by
  cases h with
  | again h => exact ⟨hs.temp, hs.fits, hs.block, hs.cur, fun _ ↦ h⟩
  | left h => exact h.inv hs
  | @copied n hn hroom hblock =>
      obtain ⟨hcur, hbsize⟩ := hs.cur hphase
      have hle : n ≤ pktSize := hlen n rfl
      change n ≤ 516 at hle
      have hfile : (s.append (n - 4)).file.length = s.file.length + (n - 4) := by
        rw [file_append, List.length_append, length_thData]
      have hsize : (s.append (n - 4)).bsize = s.bsize + 512 := rfl
      refine inv_next ⟨temp_append hs hcur, ?_⟩ ?_ ?_
      · rw [hfile, hsize]
        omega
      · change s.block + 1 = (s.appended ++ [_]).length
        rw [List.length_append, hs.block hphase]
        rfl
      · intro heq
        change n = 516 at heq
        change _ = s.cur + 512 ∧ s.bsize + 512 = s.cur + 512
        rw [hfile]
        omega

theorem inv_of_buf {buf : Nat → UInt8} {acks : List Nat} (hs : s.Inv) :
    { s with acks := acks, buf := buf : Download }.Inv :=
  ⟨hs.temp, hs.fits, hs.block, hs.cur, hs.retry⟩

theorem Inv.step (hs : s.Inv) (h : s.step dl a = some t) : t.Inv := by
  unfold Download.step at h
  split at h
  · cases h
    exact (ends_leave Phase.noConfusion).inv hs
  · cases h
    exact tried_spec.inv ‹_› (inv_of_buf hs) fun n hn ↦ by cases hn
  · cases h
    refine tried_spec.inv ‹_› (inv_of_buf hs) fun n hn ↦ ?_
    obtain rfl := Option.mem_some.mp hn
    exact List.length_take_le _ _
  · split at h
    · cases h
      refine Ends.inv (s := s) ?_ hs
      exact ⟨Phase.noConfusion, rfl, rfl, rfl, Nat.le_succ _⟩
    · cases h
      exact (ends_leave Phase.noConfusion).inv hs
  · cases h

theorem inv_start (dl : Loader) (mode : UpgradeMode) (alloc : Bool) (buf temp : Nat → UInt8) :
    (dl.start mode alloc buf temp).Inv := by
  unfold Loader.start
  simp only
  repeat' split
  all_goals exact ⟨rfl, Nat.le_refl 0, fun _ ↦ rfl, fun _ ↦ ⟨rfl, rfl⟩, fun _ ↦ Nat.zero_lt_two⟩

/-! ## The numbers -/

def Numbered (s : Download) : Prop :=
  s.appended.map Prod.fst = List.range' 1 s.appended.length

theorem numbered_of_eq (h : t.appended = s.appended) : t.Numbered ↔ s.Numbered := by
  unfold Numbered
  rw [h]

/-- One more block: the numbers go on iff it is the next one. -/
theorem numbered_concat {b : Nat × List UInt8} (h : t.appended = s.appended ++ [b]) :
    t.Numbered ↔ s.Numbered ∧ b.1 = s.appended.length + 1 := by
  unfold Numbered
  rw [h, List.length_append, List.map_append, List.length_singleton, List.range'_1_concat,
    List.map_singleton]
  constructor
  · intro heq
    obtain ⟨hfront, hlast⟩ := List.append_inj heq (by rw [List.length_map, List.length_range'])
    exact ⟨hfront, by rw [(List.cons.inj hlast).1, Nat.add_comm]⟩
  · rintro ⟨hfront, hlast⟩
    rw [hfront, hlast, Nat.add_comm 1]

theorem Tried.appended (h : Tried dl s nRecvLen t) :
    t.appended = s.appended ∨ ∃ n, nRecvLen = some n ∧ 4 < n ∧ s.block ≤ dl.maxBlock ∧
      (s.thBlock = s.block + 1 ∨ ¬ s.retry + 1 < tftpdTryTimes) ∧
        t.appended = s.appended ++ [(s.thBlock, s.thData (n - 4))] := by
  cases h with
  | again h => exact .inl rfl
  | left h => exact .inl h.appended
  | @copied n hn hroom hblock => exact .inr ⟨n, rfl, hn, hroom, hblock, appended_next⟩

theorem step_datagram {bytes : List UInt8} (h : s.step dl (.datagram bytes) = some t) :
    s.phase = .receiving ∧ t = { s with
      acks := s.acks ++ [s.block]
      buf := writeMem s.buf 0 (bytes.take pktSize) }.tried dl (some (bytes.take pktSize).length) := by
  cases hphase : s.phase with
  | receiving =>
      simp only [Download.step, hphase] at h
      exact ⟨rfl, (Option.some.inj h).symm⟩
  | sendFailed | upgrading | nak code | reset =>
      simp only [Download.step, hphase] at h
      cases h

/-- What a step adds to the payloads: nothing, or the payload of a datagram that has one, while
there is room, and either its block is the next one or it came with the last try. -/
theorem step_appended (h : s.step dl a = some t) :
    t.appended = s.appended ∨ ∃ bytes, a = .datagram bytes ∧ s.phase = .receiving ∧
      4 < bytes.length ∧ s.block ≤ dl.maxBlock ∧
        let s' := { s with buf := writeMem s.buf 0 (bytes.take pktSize) }
        (s'.thBlock = s.block + 1 ∨ ¬ s.retry + 1 < tftpdTryTimes) ∧
          ∃ payload, t.appended = s.appended ++ [(s'.thBlock, payload)] := by
  unfold Download.step at h
  split at h
  · cases h
    exact .inl rfl
  · cases h
    rcases tried_spec.appended with heq | ⟨n, hn, -⟩
    · exact .inl heq
    · cases hn
  · rename_i bytes hphase
    cases h
    rcases tried_spec.appended with heq | ⟨n, hn, hlong, hroom, hblock, heq⟩
    · exact .inl heq
    · obtain rfl := Option.some.inj hn
      have hle : (bytes.take pktSize).length ≤ bytes.length := List.length_take_le' _ _
      exact .inr ⟨bytes, rfl, hphase, Nat.lt_of_lt_of_le hlong hle, hroom, hblock, _, heq⟩
  · split at h <;> cases h <;> exact .inl rfl
  · cases h

theorem Numbered.step (hs : s.Inv) (hn : s.Numbered) (hok : LastTryOk dl s a)
    (h : s.step dl a = some t) : t.Numbered := by
  rcases step_appended h with heq | ⟨bytes, rfl, hphase, hlong, hroom, hblock, payload, heq⟩
  · exact (numbered_of_eq heq).mpr hn
  · have hnext := hs.block hphase
    have hretry := hs.retry hphase
    refine (numbered_concat heq).mpr ⟨hn, ?_⟩
    rw [← hnext]
    rcases hblock with hblock | hlast
    · exact hblock
    · exact hok (by omega) hlong hroom

/-- Numbers that are out of order stay so. -/
theorem not_numbered_step (hn : ¬ s.Numbered) (h : s.step dl a = some t) : ¬ t.Numbered := by
  rcases step_appended h with heq | ⟨_, _, _, _, _, _, _, heq⟩
  · exact fun ht ↦ hn ((numbered_of_eq heq).mp ht)
  · exact fun ht ↦ hn ((numbered_concat heq).mp ht).1

/-- The payload of another block is copied. -/
theorem not_numbered_of_lastTry (hs : s.Inv) (hok : ¬ LastTryOk dl s a)
    (h : s.step dl a = some t) : ¬ t.Numbered := by
  cases a with
  | sendFails | timeOut | upgraded => exact absurd trivial hok
  | datagram bytes =>
      have hbad : s.retry + 1 = tftpdTryTimes ∧ 4 < bytes.length ∧ s.block ≤ dl.maxBlock ∧
          { s with buf := writeMem s.buf 0 (bytes.take pktSize) }.thBlock ≠ s.block + 1 := by
        unfold LastTryOk at hok
        simp only [Classical.not_imp] at hok
        exact hok
      obtain ⟨hretry, hlong, hroom, hother⟩ := hbad
      obtain ⟨hphase, rfl⟩ := step_datagram h
      have hlen : 4 < (bytes.take pktSize).length := by
        rw [List.length_take]
        exact Nat.lt_min.mpr ⟨by decide, hlong⟩
      have happ := tried_last (s := { s with
        acks := s.acks ++ [s.block], buf := writeMem s.buf 0 (bytes.take pktSize) })
        hlen hroom hretry
      intro ht
      have hnum := ((numbered_concat happ).mp ht).2
      change _ = s.appended.length + 1 at hnum
      rw [← hs.block hphase] at hnum
      exact hother hnum

/-! ## The block counter -/

/-- `block` stays below the limits of a `uint16`, which it has in the program. -/
structure BlockLe (dl : Loader) (s : Download) : Prop where
  receiving : s.phase = .receiving → s.block ≤ dl.maxBlock + 1
  always : s.block ≤ dl.maxBlock + 2

theorem Tried.blockLe (h : Tried dl s nRecvLen t) (hphase : s.phase = .receiving)
    (hs : BlockLe dl s) : BlockLe dl t := by
  have hle := hs.receiving hphase
  cases h with
  | again h => exact ⟨hs.receiving, hs.always⟩
  | left h => exact ⟨fun hp ↦ absurd hp h.phase, Nat.le_trans h.block (Nat.succ_le_succ hle)⟩
  | @copied n hn hroom hblock =>
      have hnext : ((s.append (n - 4)).next dl n).block = s.block + 1 := by
        unfold next
        simp only
        split
        · rfl
        · exact finish_block
      refine ⟨fun _ ↦ ?_, ?_⟩ <;> rw [hnext] <;> omega

theorem BlockLe.step (hs : BlockLe dl s) (h : s.step dl a = some t) : BlockLe dl t := by
  unfold Download.step at h
  split at h
  · cases h
    exact ⟨fun hp ↦ Phase.noConfusion hp, hs.always⟩
  · cases h
    exact tried_spec.blockLe ‹_› ⟨hs.receiving, hs.always⟩
  · cases h
    exact tried_spec.blockLe ‹_› ⟨hs.receiving, hs.always⟩
  · split at h <;> cases h <;> exact ⟨fun hp ↦ Phase.noConfusion hp, hs.always⟩
  · cases h

end Download

open Download

variable {dl : Loader} {mode : UpgradeMode} {alloc : Bool} {buf temp : Nat → UInt8}
  {as : List Answer} {s t : Download}

theorem numbered_start : (dl.start mode alloc buf temp).Numbered := by
  unfold Loader.start
  simp only
  repeat' split
  all_goals rfl

theorem blockLe_run (hrun : (dl.machine mode alloc buf temp).run as = some s) : BlockLe dl s := by
  refine Machine.reachable_invariant ?_ (fun _ _ _ hs h ↦ hs.step h) ⟨as, hrun⟩
  change BlockLe dl (dl.start mode alloc buf temp)
  unfold Loader.start
  simp only
  repeat' split
  all_goals exact ⟨fun _ ↦ Nat.zero_le _, Nat.zero_le _⟩

/-- The counter of both functions fits its type. -/
theorem block_fits (hdl : dl = tftpDLFlash ∨ dl = tftpDLCode1)
    (hrun : (dl.machine mode alloc buf temp).run as = some s) : s.block < 65536 := by
  have hle := (blockLe_run hrun).always
  rcases hdl with rfl | rfl
  · exact Nat.lt_of_le_of_lt hle (by decide)
  · exact Nat.lt_of_le_of_lt hle (by decide)

theorem numbered_iff (hs : s.Inv) (hn : s.Numbered)
    (hrun : (dl.machine mode alloc buf temp).runFrom s as = some t) :
    t.Numbered ↔ (dl.machine mode alloc buf temp).Along (LastTryOk dl) s as := by
  induction as generalizing s with
  | nil =>
      obtain rfl := Option.some.inj hrun
      exact iff_of_true hn trivial
  | cons a as ih =>
      obtain ⟨u, hstep, hrest⟩ := Machine.runFrom_cons_some.mp hrun
      by_cases hok : LastTryOk dl s a
      · refine (ih (hs.step hstep) (hn.step hs hok hstep) hrest).trans ⟨fun h ↦ ⟨hok, ?_⟩, fun h ↦ ?_⟩
        · rw [hstep]
          exact h
        · exact (Machine.along_cons h hstep).2
      · have hbad : ¬ u.Numbered := not_numbered_of_lastTry hs hok hstep
        have hstays : ∀ v b w, ¬ Numbered v → True →
            (dl.machine mode alloc buf temp).step v b = some w → ¬ Numbered w :=
          fun v b w hv _ hw ↦ not_numbered_step hv hw
        exact iff_of_false (Machine.runFrom_invariant hstays hbad (Machine.along_true _ _ _) hrest)
          fun h ↦ hok h.1

/-- In every run the payloads are copied in order, each once, iff no turn ends with another block
in hand. -/
theorem download_inOrder_iff (dl : Loader) (mode : UpgradeMode) (alloc : Bool)
    (buf temp : Nat → UInt8) (as : List Answer) (s : Download)
    (hrun : (dl.machine mode alloc buf temp).run as = some s) :
    InOrder s ↔ (dl.machine mode alloc buf temp).Along (LastTryOk dl)
      (dl.start mode alloc buf temp) as := by
  have hinv : s.Inv := Machine.reachable_invariant (inv_start dl mode alloc buf temp)
    (fun _ _ _ hs h ↦ hs.step h) ⟨as, hrun⟩
  have hnum := numbered_iff (inv_start dl mode alloc buf temp) numbered_start hrun
  exact ⟨fun h ↦ hnum.mp h.numbers, fun h ↦ ⟨hnum.mpr h, fun _ ↦ ⟨hinv.temp, hinv.fits⟩⟩⟩

/-- A file of one byte. -/
theorem download_inOrder_byte :
    ∃ s, (tftpDLFlash.machine .wait true (fun _ ↦ 0) fun _ ↦ 0).run
        [.timeOut, .datagram [0, 3, 0, 1, 0x5A]] = some s ∧ s.appended = [(1, [0x5A])] ∧
      (InOrder s ↔ (tftpDLFlash.machine .wait true (fun _ ↦ 0) fun _ ↦ 0).Along
        (LastTryOk tftpDLFlash) (tftpDLFlash.start .wait true (fun _ ↦ 0) fun _ ↦ 0)
          [.timeOut, .datagram [0, 3, 0, 1, 0x5A]]) :=
  ⟨_, rfl, rfl, download_inOrder_iff tftpDLFlash .wait true (fun _ ↦ 0) (fun _ ↦ 0)
    [.timeOut, .datagram [0, 3, 0, 1, 0x5A]] _ rfl⟩

/-- Block 7 of an earlier transfer comes twice: it is copied in the place of block 1, and
programmed. -/
theorem staleBlock_copied :
    ∃ s, (tftpDLFlash.machine .wait true (fun _ ↦ 0) fun _ ↦ 0).run
        [.datagram [0, 3, 0, 7, 0x5A], .datagram [0, 3, 0, 7, 0x5A]] = some s ∧
      s.phase = .upgrading ∧ s.bsize = 512 ∧ s.appended = [(7, [0x5A])] ∧ ¬ InOrder s := by
  refine ⟨_, rfl, rfl, rfl, rfl, fun h ↦ ?_⟩
  exact absurd h.numbers (by decide)

end PrintServer.Tftp
