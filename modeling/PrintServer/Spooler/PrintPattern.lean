import PrintServer.Spooler.PortOrder

/-!
# The wakeup of the port writer

`PrnPrintPattern` of prnqueue.c, which the utility thread calls for command 92, beside the threads
of the port.  It is the second caller of `StartDMAIO`: it clears the port's bit in `G_PortReady`
before the call, `PrnStartSpooler` clears it after.
-/

namespace PrintServer.Spooler

open Lib

/-- The byte `1 << PrnPort`. -/
def portMask (prnPort : UInt8) : UInt8 := if prnPort < 8 then 1 <<< prnPort else 0

def gPortReady (s : PortSys) : UInt8 := if s.portReady then 1 else 0

def startDMAIO (s : PortSys) (b : UInt8) : PortSys :=
  { s with
    dataSize := wordOf (s.q.buf b).size
    dataPtr := (s.q.buf b).data
    signal := if s.portReady then s.signal + 1 else s.signal }

/-- The statements of `PrnPrintPattern`; `critical` is the section between `dirps` and
`restore`. -/
inductive PatternPc
  | idle
  | testReady (prnPort : UInt8) (wSize : UInt16)
  | testStatus (wSize : UInt16)
  | testAvail (wSize : UInt16)
  | getIn (wSize : UInt16)
  | copy (b : UInt8) (wSize : UInt16)
  | critical (b : UInt8)
  | putIn (b : UInt8)
  | reply (result : UInt8)
deriving DecidableEq

/-- The last three fields record the block that `StartDMAIO` was given, and for each such block
whose buffer was put back the blocks that `usbprn_write` was given since the critical section. -/
structure PatternSys where
  port : PortSys
  pattern : PatternPc
  given : Block
  mark : Nat
  putBack : List (Block × List Block)

def patternStart (jiffies : UInt32) : PatternSys :=
  { port := portStart jiffies, pattern := .idle, given := (0, 0), mark := 0, putBack := [] }

def patternStep (s : PatternSys) : Option PatternSys :=
  match s.pattern with
  | .idle | .reply _ => none
  | .testReady prnPort wSize =>
      some { s with
        pattern := if gPortReady s.port &&& portMask prnPort = 0 then .reply 0xFF
          else .testStatus wSize }
  | .testStatus wSize =>
      some { s with
        pattern := if s.port.q.inUse ≠ prnNoUsed then .reply 0xFF else .testAvail wSize }
  | .testAvail wSize =>
      some { s with
        pattern := if s.port.q.availQueueNO < 1 then .reply 0xFF else .getIn wSize }
  | .getIn wSize =>
      match prnGetInQueueBuf s.port.q with
      | (none, _) => some s
      | (some b, q) => some { s with port := { s.port with q := q }, pattern := .copy b wSize }
  | .copy b wSize =>
      some { s with
        port := { s.port with q := writePrnBuf s.port.q b wSize.toNat }, pattern := .critical b }
  | .critical b =>
      some { s with
        port := startDMAIO { s.port with portReady := false } b
        pattern := .putIn b
        given := block s.port.q b
        mark := s.port.writeLog.length }
  | .putIn b =>
      some { s with
        port := { s.port with q := prnPutInQueueBuf s.port.q b }
        pattern := .reply 0
        putBack := s.putBack ++ [(s.given, s.port.writeLog.drop s.mark)] }

inductive PatternAct
  | port (a : PortAct)
  | setInUse (inUse : UInt8)
  | call (prnPort : UInt8) (wSize : UInt16)
  | pattern
deriving DecidableEq

/-- The utility thread has one call at a time. -/
def patternSysStep (s : PatternSys) : PatternAct → Option PatternSys
  | .port a => (portStep s.port a).map fun p ↦ { s with port := p }
  | .setInUse inUse => some { s with port := { s.port with q := { s.port.q with inUse := inUse } } }
  | .call prnPort wSize =>
      match s.pattern with
      | .idle | .reply _ => some { s with pattern := .testReady prnPort wSize }
      | _ => none
  | .pattern => patternStep s

def patternMachine (jiffies : UInt32) : Machine PatternSys PatternAct :=
  ⟨patternStart jiffies, patternSysStep⟩

/-- With the bit clear the writer is between its wait and the statement that sets the bit, or a
post is left for it. -/
def Woken (s : PortSys) : Prop := s.portReady = false → s.writer ≠ .wait ∨ 0 < s.signal

/-- Every block of `PrnPrintPattern` was given to `usbprn_write` before its buffer went back. -/
def HandedOver (s : PatternSys) : Prop := ∀ r ∈ s.putBack, r.1.2 ≠ 0 → r.1 ∈ r.2

instance (s : PortSys) : Decidable (Woken s) := by
  unfold Woken
  infer_instance

instance (s : PatternSys) : Decidable (HandedOver s) := by
  unfold HandedOver
  infer_instance

/-- The writer has not yet come to the `usbprn_write` of its next turn. -/
def BeforeWrite : WriterPc → Prop
  | .wait | .startNegotiate | .setStart | .loopTest | .testDataSize | .setTotalSize | .usbprnWrite
  | .pause => True
  | _ => False

instance : DecidablePred BeforeWrite := by
  intro pc
  cases pc <;> unfold BeforeWrite <;> infer_instance

/-- The block of `PrnPrintPattern` is in `PortIO`, and nothing was written since. -/
def Offered (s : PatternSys) : Prop :=
  match s.pattern with
  | .putIn _ => s.mark = s.port.writeLog.length ∧ s.given.2 ≠ 0
  | _ => False

instance (s : PatternSys) : Decidable (Offered s) := by
  unfold Offered
  split <;> infer_instance

/-- `PortNWrite` does not set the bit, with no post left, between the post of `PrnStartSpooler` and
its clear, and does not leave its loop while a block is offered to it.  `PrnPrintPattern` clears the
bit only when `PrnStartSpooler` has just done so or is about to, and `PortNWrite` is on its way to
`usbprn_write`; it puts the buffer back after a `usbprn_write`. -/
def PatternOk (s : PatternSys) : PatternAct → Prop
  | .port .writer =>
      (s.port.writer = .setReady → s.port.spooler = .clearReady → 0 < s.port.signal) ∧
        (s.port.writer = .loopTest → Offered s →
          s.port.jiffies - s.port.start < prnExitPrintModeTime)
  | .pattern =>
      match s.pattern with
      | .critical _ =>
          (s.port.portReady = false ∨ s.port.spooler = .clearReady) ∧ BeforeWrite s.port.writer
      | .putIn _ => ¬ Offered s
      | _ => True
  | _ => True

instance (s : PatternSys) (a : PatternAct) : Decidable (PatternOk s a) := by
  unfold PatternOk
  split
  · infer_instance
  · split <;> infer_instance
  · infer_instance

/-! ## The threads of the port -/

section Woken

variable {s t : PortSys}

theorem dmaStep_blocks (s : PortSys) (pc : DmaPc) :
    block (dmaStep s pc).1.q = block s.q ∧ (dmaStep s pc).1.writeLog = s.writeLog := by
  cases pc with
  | getOut =>
      have hq : block (prnGetOutQueueBuf s.q).2 = block s.q := block_prnGetOutQueueBuf
      unfold dmaStep
      rcases hout : prnGetOutQueueBuf s.q with ⟨_ | b, q⟩
      · rw [hout] at hq
        exact ⟨hq, rfl⟩
      · rw [hout] at hq
        exact ⟨hq, rfl⟩
  | release => exact ⟨block_releaseNoUse, rfl⟩
  | putEmpty b => exact ⟨block_prnPutInQueueBuf, rfl⟩
  | testSize | clearNoUse | setNoUse | setDataSize | setDataPtr | post => exact ⟨rfl, rfl⟩

/-- The bit is set and the wait is reached by one statement, and one statement writes. -/
theorem writerStep_frame (h : writerStep s = some t) :
    t.spooler = s.spooler ∧ block t.q = block s.q ∧
      (s.writer ≠ .setReady → t.portReady = s.portReady ∧ t.writer ≠ .wait) ∧
      (t.writeLog = s.writeLog ∨ t.writeLog = s.writeLog ++ [(s.dataPtr, s.dataSize)]) := by
  unfold writerStep at h
  cases hpc : s.writer with
  | wait =>
      simp only [hpc, Option.ite_none_left_eq_some] at h
      obtain ⟨-, h⟩ := h
      obtain rfl := Option.some.inj h
      exact ⟨rfl, rfl, fun _ ↦ ⟨rfl, WriterPc.noConfusion⟩, .inl rfl⟩
  | dma pc =>
      simp only [hpc] at h
      obtain ⟨-, hspooler, hbit, -⟩ := dmaStep_frame s pc
      obtain ⟨hblock, hlog⟩ := dmaStep_blocks s pc
      rcases hd : dmaStep s pc with ⟨s', pc' | r⟩
      · rw [hd] at h hspooler hbit hblock hlog
        obtain rfl := Option.some.inj h
        exact ⟨hspooler, hblock, fun _ ↦ ⟨hbit, WriterPc.noConfusion⟩, .inl hlog⟩
      · rw [hd] at h hspooler hbit hblock hlog
        obtain rfl := Option.some.inj h
        refine ⟨hspooler, hblock, fun _ ↦ ⟨hbit, ?_⟩, .inl hlog⟩
        change (if r then WriterPc.loopTest else WriterPc.pause) ≠ .wait
        cases r <;> decide
  | loopTest | testDataSize | testWritten =>
      simp only [hpc] at h
      split at h <;> obtain rfl := Option.some.inj h <;>
        exact ⟨rfl, rfl, fun _ ↦ ⟨rfl, WriterPc.noConfusion⟩, .inl rfl⟩
  | setReady =>
      simp only [hpc] at h
      obtain rfl := Option.some.inj h
      exact ⟨rfl, rfl, fun hno ↦ absurd rfl hno, .inl rfl⟩
  | usbprnWrite =>
      simp only [hpc] at h
      obtain rfl := Option.some.inj h
      exact ⟨rfl, rfl, fun _ ↦ ⟨rfl, WriterPc.noConfusion⟩, .inr rfl⟩
  | startNegotiate | setStart | setTotalSize | setRemaining | restart | clearDataSize | pause
    | endNegotiate =>
      simp only [hpc] at h
      obtain rfl := Option.some.inj h
      exact ⟨rfl, rfl, fun _ ↦ ⟨rfl, WriterPc.noConfusion⟩, .inl rfl⟩

/-- The bit is set while `PrnStartSpooler` is in `DMAPrinting`; when it is about to clear the bit
the writer is awake or has its post. -/
structure SpoolerInv (s : PortSys) : Prop where
  woken : Woken s
  ready : ∀ pc, s.spooler = .dma pc → s.portReady = true
  posted : s.spooler = .clearReady → s.writer ≠ .wait ∨ 0 < s.signal

/-- Steps that are none of the threads'. -/
theorem SpoolerInv.of_frame (h : SpoolerInv s) (hready : t.portReady = s.portReady)
    (hwriter : t.writer = s.writer) (hspooler : t.spooler = s.spooler)
    (hsignal : s.signal ≤ t.signal) : SpoolerInv t where
  woken ht := by
    rw [hready] at ht
    rw [hwriter]
    exact (h.woken ht).imp_right fun hs ↦ Nat.lt_of_lt_of_le hs hsignal
  ready pc hpc := by
    rw [hready]
    exact h.ready pc (hspooler ▸ hpc)
  posted hpc := by
    rw [hwriter]
    exact (h.posted (hspooler ▸ hpc)).imp_right fun hs ↦ Nat.lt_of_lt_of_le hs hsignal

theorem spoolerStep_spoolerInv (h : SpoolerInv s) : SpoolerInv (spoolerStep s) := by
  unfold spoolerStep
  cases hpc : s.spooler with
  | testReady =>
      refine ⟨h.woken, fun pc hdma ↦ ?_, fun hclear ↦ ?_⟩
      · by_contra hno
        simp only [if_neg hno] at hdma
        cases hdma
      · dsimp only at hclear
        split at hclear <;> cases hclear
  | dma pc =>
      have hready := h.ready pc hpc
      obtain ⟨hwriter, -, hbit, hpost, -⟩ := dmaStep_frame s pc
      have hbit' : (dmaStep s pc).1.portReady = true := hbit.trans hready
      have hawake : Woken (dmaStep s pc).1 := fun hno ↦ absurd (hbit'.symm.trans hno) (by decide)
      rcases hd : dmaStep s pc with ⟨s', pc' | r⟩
      · rw [hd] at hbit' hawake
        simp only [hd]
        exact ⟨hawake, fun _ _ ↦ hbit', fun hclear ↦ SpoolerPc.noConfusion hclear⟩
      · rw [hd] at hbit' hawake hpost
        simp only [hd]
        refine ⟨hawake, fun _ _ ↦ hbit', fun hclear ↦ ?_⟩
        cases r with
        | true =>
            -- the bit is set, so that `StartDMAIO` has posted
            right
            change 0 < s'.signal
            have hsignal : s'.signal = s.signal + 1 := hpost rfl hready
            omega
        | false => cases hclear
  | clearReady =>
      exact ⟨fun _ ↦ h.posted hpc, nofun, nofun⟩
  | delay => exact ⟨h.woken, nofun, nofun⟩

theorem writerStep_spoolerInv (h : SpoolerInv s)
    (hok : s.writer = .setReady → s.spooler = .clearReady → 0 < s.signal)
    (hstep : writerStep s = some t) : SpoolerInv t := by
  obtain ⟨hspooler, -, hmove, -⟩ := writerStep_frame hstep
  by_cases hset : s.writer = .setReady
  · simp only [writerStep, hset] at hstep
    obtain rfl := Option.some.inj hstep
    refine ⟨fun hready ↦ ?_, fun _ _ ↦ rfl, fun hclear ↦ .inr (hok hset hclear)⟩
    contradiction
  · obtain ⟨hbit, hawake⟩ := hmove hset
    refine ⟨fun _ ↦ .inl hawake, fun pc hdma ↦ ?_, fun _ ↦ .inl hawake⟩
    exact hbit.trans (h.ready pc (hspooler ▸ hdma))

end Woken

/-! ## What the threads do to the blocks -/

section Blocks

variable {s t : PortSys} {x : Block}

def SizesOk (s : PortSys) : Prop := ∀ b, 0 ≤ (s.q.buf b).size ∧ (s.q.buf b).size < 65536

theorem spoolerStep_blocks (s : PortSys) :
    block (spoolerStep s).q = block s.q ∧ (spoolerStep s).writeLog = s.writeLog := by
  unfold spoolerStep
  cases hpc : s.spooler with
  | dma pc =>
      have h := dmaStep_blocks s pc
      rcases hd : dmaStep s pc with ⟨s', pc' | r⟩
      · rw [hd] at h
        simp only [hd]
        exact h
      · rw [hd] at h
        simp only [hd]
        exact h
  | testReady | clearReady | delay => exact ⟨rfl, rfl⟩

theorem SizesOk.of_block (hs : SizesOk s) (h : block t.q = block s.q) : SizesOk t :=
  size_of_block hs h

theorem SizesOk.writePrnBuf {b : UInt8} {size : Int} (hs : SizesOk s) (h0 : 0 ≤ size)
    (h1 : size < 65536) (i : UInt8) :
    0 ≤ ((Spooler.writePrnBuf s.q b size).buf i).size ∧
      ((Spooler.writePrnBuf s.q b size).buf i).size < 65536 := by
  by_cases hi : i = b
  · subst hi
    simpa [Spooler.writePrnBuf] using And.intro h0 h1
  · have hsame := congrArg Prod.snd (block_writePrnBuf_of_ne (q := s.q) size hi)
    simp only [block] at hsame
    rw [hsame]
    exact hs i

/-- The block is in `PortIO`, where only the writer will touch it: `PrnStartSpooler` finds the bit
clear, and the writer is on its way. -/
structure OnItsWay (s : PortSys) (x : Block) : Prop where
  ready : s.portReady = false
  spooler : ∀ pc, s.spooler ≠ .dma pc
  writer : BeforeWrite s.writer
  loaded : (s.dataPtr, s.dataSize) = x

theorem OnItsWay.spoolerStep (h : OnItsWay s x) : OnItsWay (spoolerStep s) x := by
  obtain ⟨hready, hspooler, hwriter, hloaded⟩ := h
  unfold Spooler.spoolerStep
  cases hpc : s.spooler with
  | testReady =>
      simp only [hready, Bool.false_eq_true, if_false]
      exact ⟨rfl, nofun, hwriter, hloaded⟩
  | dma pc => exact absurd hpc (hspooler pc)
  | clearReady => exact ⟨rfl, nofun, hwriter, hloaded⟩
  | delay => exact ⟨hready, nofun, hwriter, hloaded⟩

/-- The writer goes on to the write, and writes that block. -/
theorem OnItsWay.writerStep (h : OnItsWay s x) (hx : x.2 ≠ 0)
    (htime : s.writer = .loopTest → s.jiffies - s.start < prnExitPrintModeTime)
    (hstep : writerStep s = some t) :
    t.writeLog = s.writeLog ∧ OnItsWay t x ∨ t.writeLog = s.writeLog ++ [x] := by
  obtain ⟨hready, hspooler, hwriter, hloaded⟩ := h
  unfold Spooler.writerStep at hstep
  cases hpc : s.writer with
  | wait =>
      simp only [hpc, Option.ite_none_left_eq_some] at hstep
      obtain ⟨-, hstep⟩ := hstep
      obtain rfl := Option.some.inj hstep
      exact .inl ⟨rfl, hready, hspooler, trivial, hloaded⟩
  | loopTest =>
      simp only [hpc, if_pos (htime hpc)] at hstep
      obtain rfl := Option.some.inj hstep
      exact .inl ⟨rfl, hready, hspooler, trivial, hloaded⟩
  | testDataSize =>
      -- the block loaded is not empty
      have hsize : s.dataSize ≠ 0 := fun h0 ↦ hx ((congrArg Prod.snd hloaded).symm.trans h0)
      simp only [hpc, if_pos hsize] at hstep
      obtain rfl := Option.some.inj hstep
      exact .inl ⟨rfl, hready, hspooler, trivial, hloaded⟩
  | usbprnWrite =>
      simp only [hpc] at hstep
      obtain rfl := Option.some.inj hstep
      right
      rw [← hloaded]
  | startNegotiate | setStart | setTotalSize | pause =>
      simp only [hpc] at hstep
      obtain rfl := Option.some.inj hstep
      exact .inl ⟨rfl, hready, hspooler, trivial, hloaded⟩
  | setRemaining | testWritten | restart | clearDataSize | dma | endNegotiate | setReady =>
      rw [hpc] at hwriter
      exact hwriter.elim

end Blocks

/-! ## Every run -/

structure PatternInv (s : PatternSys) : Prop where
  spooler : SpoolerInv s.port
  sizes : SizesOk s.port
  offered : Offered s → OnItsWay s.port s.given
  marked : ∀ b, s.pattern = .putIn b → s.mark ≤ s.port.writeLog.length
  written : ∀ b, s.pattern = .putIn b → s.given.2 ≠ 0 → s.mark < s.port.writeLog.length →
    s.given ∈ s.port.writeLog.drop s.mark
  handed : HandedOver s

variable {s t : PatternSys}

/-- A step of the port that writes nothing. -/
theorem PatternInv.silent {p : PortSys} (h : PatternInv s) (hspooler : SpoolerInv p)
    (hsizes : SizesOk p) (hlog : p.writeLog = s.port.writeLog)
    (hoffered : OnItsWay s.port s.given → Offered s → OnItsWay p s.given) :
    PatternInv { s with port := p } where
  spooler := hspooler
  sizes := hsizes
  offered := by
    intro hoff
    have hoff' : Offered s := by
      unfold Offered at hoff ⊢
      rwa [← hlog]
    exact hoffered (h.offered hoff') hoff'
  marked b hb := by
    rw [hlog]
    exact h.marked b hb
  written b hb hne hlt := by
    rw [hlog] at hlt ⊢
    exact h.written b hb hne hlt
  handed := h.handed

/-- A step of the queue, by whoever holds a buffer. -/
theorem PatternInv.queue {q : PrintStatus} {held : List UInt8} {putLog : List Block}
    {freeLog : List Block} (h : PatternInv s) (hsizes : SizesOk { s.port with q := q }) :
    PatternInv { s with
      port := { s.port with q := q, held := held, putLog := putLog, freeLog := freeLog } } :=
  h.silent (h.spooler.of_frame rfl rfl rfl (Nat.le_refl _)) hsizes rfl
    fun hway _ ↦ ⟨hway.ready, hway.spooler, hway.writer, hway.loaded⟩

/-- A step that writes. -/
theorem PatternInv.writes {p : PortSys} {x : Block} (h : PatternInv s) (hspooler : SpoolerInv p)
    (hsizes : SizesOk p) (hlog : p.writeLog = s.port.writeLog ++ [x])
    (hoffered : Offered s → x = s.given) : PatternInv { s with port := p } where
  spooler := hspooler
  sizes := hsizes
  offered := by
    intro hoff
    unfold Offered at hoff
    split at hoff
    · rename_i b hb
      have hle := h.marked b hb
      have hlen := congrArg List.length hlog
      rw [List.length_append, List.length_singleton] at hlen
      exact absurd hoff.1 (by change s.mark ≠ p.writeLog.length; omega)
    · exact hoff.elim
  marked b hb := by
    have hle := h.marked b hb
    rw [hlog, List.length_append]
    exact Nat.le_trans hle (Nat.le_add_right _ _)
  written b hb hne _ := by
    have hle := h.marked b hb
    rw [hlog, List.drop_append_of_le_length hle]
    rcases Nat.lt_or_eq_of_le hle with hlt | heq
    · exact List.mem_append_left _ (h.written b hb hne hlt)
    · -- it is the first block since the critical section
      have hoff : Offered s := by
        unfold Offered
        rw [hb]
        exact ⟨heq, hne⟩
      rw [hoffered hoff]
      exact List.mem_append_right _ (List.mem_singleton_self _)
  handed := h.handed

theorem portStep_inv_pattern {a : PortAct} {p : PortSys} (h : PatternInv s)
    (hok : PatternOk s (.port a)) (hstep : portStep s.port a = some p) :
    PatternInv { s with port := p } := by
  cases a with
  | writer =>
      obtain ⟨hset, htime⟩ := hok
      have hspooler := writerStep_spoolerInv h.spooler hset hstep
      obtain ⟨-, hblock, -, hlog⟩ := writerStep_frame hstep
      have hsizes := h.sizes.of_block hblock
      -- while a block is offered the writer is on its way to the write of this block
      by_cases hoff : Offered s
      · have hne : s.given.2 ≠ 0 := by
          unfold Offered at hoff
          split at hoff
          · exact hoff.2
          · exact hoff.elim
        rcases (h.offered hoff).writerStep hne (fun hpc ↦ htime hpc hoff) hstep with
          ⟨hsame, hway⟩ | hwrite
        · exact h.silent hspooler hsizes hsame fun _ _ ↦ hway
        · exact h.writes hspooler hsizes hwrite fun _ ↦ rfl
      · rcases hlog with hsame | hwrite
        · exact h.silent hspooler hsizes hsame fun _ ho ↦ absurd ho hoff
        · exact h.writes hspooler hsizes hwrite fun ho ↦ absurd ho hoff
  | spooler =>
      obtain rfl := Option.some.inj hstep
      obtain ⟨hblock, hlog⟩ := spoolerStep_blocks s.port
      exact h.silent (spoolerStep_spoolerInv h.spooler) (h.sizes.of_block hblock) hlog
        fun hway _ ↦ hway.spoolerStep
  | tick d =>
      obtain rfl := Option.some.inj hstep
      exact h.silent (h.spooler.of_frame rfl rfl rfl (Nat.le_refl _)) h.sizes rfl
        fun hway _ ↦ ⟨hway.ready, hway.spooler, hway.writer, hway.loaded⟩
  | getIn =>
      obtain rfl := Option.some.inj hstep
      exact h.queue (h.sizes.of_block block_prnGetInQueueBuf)
  | fill b size =>
      obtain ⟨⟨-, h0, h1⟩, hst⟩ := Option.ite_none_right_eq_some.mp hstep
      obtain rfl := Option.some.inj hst
      exact h.queue (h.sizes.writePrnBuf h0 h1)
  | putOut b flags =>
      obtain ⟨-, hst⟩ := Option.ite_none_right_eq_some.mp hstep
      obtain rfl := Option.some.inj hst
      exact h.queue (h.sizes.of_block block_prnPutOutQueueBuf)
  | putIn b =>
      obtain ⟨-, hst⟩ := Option.ite_none_right_eq_some.mp hstep
      obtain rfl := Option.some.inj hst
      exact h.queue (h.sizes.of_block block_prnPutInQueueBuf)

/-- Outside the critical section and behind it. -/
theorem PatternInv.move {p : PortSys} {pc : PatternPc} (h : PatternInv s) (hspooler : SpoolerInv p)
    (hsizes : SizesOk p) (hpc : ∀ b, pc ≠ .putIn b) :
    PatternInv { s with port := p, pattern := pc } where
  spooler := hspooler
  sizes := hsizes
  offered := by
    intro hoff
    unfold Offered at hoff
    split at hoff
    · rename_i b hb
      exact absurd hb (hpc b)
    · exact hoff.elim
  marked b hb := absurd hb (hpc b)
  written b hb := absurd hb (hpc b)
  handed := h.handed

/-- The clear finds the writer awake or posted for, and the block waits for its write. -/
theorem critical_inv {b : UInt8} (h : PatternInv s)
    (hok : (s.port.portReady = false ∨ s.port.spooler = .clearReady) ∧
      BeforeWrite s.port.writer) :
    PatternInv { s with
      port := startDMAIO { s.port with portReady := false } b
      pattern := .putIn b
      given := block s.port.q b
      mark := s.port.writeLog.length } := by
  obtain ⟨hclear, hbefore⟩ := hok
  -- in `DMAPrinting` the bit is set, so `PrnStartSpooler` is not there
  have hdma : ∀ pc, s.port.spooler ≠ .dma pc := by
    intro pc hpc
    rcases hclear with hno | hclear
    · exact absurd ((h.spooler.ready pc hpc).symm.trans hno) (by decide)
    · exact SpoolerPc.noConfusion (hpc.symm.trans hclear)
  have hawake : s.port.writer ≠ .wait ∨ 0 < s.port.signal :=
    hclear.elim h.spooler.woken h.spooler.posted
  refine ⟨⟨fun _ ↦ hawake, fun pc hpc ↦ absurd hpc (hdma pc), fun _ ↦ hawake⟩, h.sizes,
    fun _ ↦ ⟨rfl, hdma, hbefore, ?_⟩, fun _ _ ↦ Nat.le_refl _,
    fun _ _ _ hlt ↦ absurd hlt (Nat.lt_irrefl _), h.handed⟩
  obtain ⟨h0, h1⟩ := h.sizes b
  exact Prod.ext rfl (Int.emod_eq_of_lt h0 h1)

theorem patternStep_inv (h : PatternInv s) (hok : PatternOk s .pattern)
    (hstep : patternStep s = some t) : PatternInv t := by
  unfold patternStep at hstep
  cases hpc : s.pattern with
  | idle | reply =>
      simp only [hpc] at hstep
      cases hstep
  | testReady | testStatus | testAvail =>
      simp only [hpc] at hstep
      obtain rfl := Option.some.inj hstep
      refine h.move h.spooler h.sizes fun b ↦ ?_
      split <;> exact PatternPc.noConfusion
  | getIn wSize =>
      simp only [hpc] at hstep
      have hblock : block (prnGetInQueueBuf s.port.q).2 = block s.port.q := block_prnGetInQueueBuf
      rcases hin : prnGetInQueueBuf s.port.q with ⟨_ | b, q⟩
      · rw [hin] at hstep
        obtain rfl := Option.some.inj hstep
        exact h
      · rw [hin] at hstep hblock
        obtain rfl := Option.some.inj hstep
        exact h.move (h.spooler.of_frame rfl rfl rfl (Nat.le_refl _)) (h.sizes.of_block hblock)
          fun _ ↦ PatternPc.noConfusion
  | copy b wSize =>
      simp only [hpc] at hstep
      obtain rfl := Option.some.inj hstep
      have hlt := wSize.toNat_lt
      exact h.move (h.spooler.of_frame rfl rfl rfl (Nat.le_refl _))
        (h.sizes.writePrnBuf (by omega) (by omega)) fun _ ↦ PatternPc.noConfusion
  | critical b =>
      simp only [PatternOk, hpc] at hok
      simp only [hpc] at hstep
      obtain rfl := Option.some.inj hstep
      exact critical_inv h hok
  | putIn b =>
      simp only [PatternOk, hpc] at hok
      simp only [hpc] at hstep
      obtain rfl := Option.some.inj hstep
      have hmoved : PatternInv { s with
          port := { s.port with q := prnPutInQueueBuf s.port.q b }, pattern := .reply 0 } :=
        h.move (h.spooler.of_frame rfl rfl rfl (Nat.le_refl _))
          (h.sizes.of_block block_prnPutInQueueBuf) fun _ ↦ PatternPc.noConfusion
      refine ⟨hmoved.spooler, hmoved.sizes, hmoved.offered, hmoved.marked, hmoved.written,
        fun r hr hne ↦ ?_⟩
      rcases List.mem_append.mp hr with hr | hr
      · exact h.handed r hr hne
      -- the block is no longer offered, so something was written since: first of all this block
      · obtain rfl := List.mem_singleton.mp hr
        refine h.written b hpc hne (Nat.lt_of_le_of_ne (h.marked b hpc) fun heq ↦ hok ?_)
        unfold Offered
        rw [hpc]
        exact ⟨heq, hne⟩

theorem patternSysStep_inv {a : PatternAct} (h : PatternInv s) (hok : PatternOk s a)
    (hstep : patternSysStep s a = some t) : PatternInv t := by
  cases a with
  | port a =>
      obtain ⟨p, hp, rfl⟩ := Option.map_eq_some_iff.mp hstep
      exact portStep_inv_pattern h hok hp
  | setInUse inUse =>
      obtain rfl := Option.some.inj hstep
      exact h.silent (h.spooler.of_frame rfl rfl rfl (Nat.le_refl _)) h.sizes rfl
        fun hway _ ↦ ⟨hway.ready, hway.spooler, hway.writer, hway.loaded⟩
  | call prnPort wSize =>
      unfold patternSysStep at hstep
      cases hpc : s.pattern with
      | idle | reply =>
          simp only [hpc] at hstep
          obtain rfl := Option.some.inj hstep
          exact h.move h.spooler h.sizes fun _ ↦ PatternPc.noConfusion
      | testReady | testStatus | testAvail | getIn | copy | critical | putIn =>
          simp only [hpc] at hstep
          cases hstep
  | pattern => exact patternStep_inv h hok hstep

theorem patternStart_inv (jiffies : UInt32) : PatternInv (patternStart jiffies) where
  spooler := ⟨nofun, nofun, nofun⟩
  sizes := by
    intro b
    change 0 ≤ ((queueStart.list 0).buf b).size ∧ ((queueStart.list 0).buf b).size < 65536
    rw [queueStart_size]
    decide
  offered := fun h ↦ h.elim
  marked := nofun
  written := nofun
  handed := fun _ hr ↦ absurd hr List.not_mem_nil

theorem writer_woken_of_patternOk (jiffies : UInt32) (acts : List PatternAct)
    (hok : (patternMachine jiffies).Along PatternOk (patternStart jiffies) acts) {s : PatternSys}
    (hrun : (patternMachine jiffies).run acts = some s) : Woken s.port ∧ HandedOver s := by
  have h : PatternInv s :=
    Machine.run_invariant (patternStart_inv jiffies) (fun _ _ _ ↦ patternSysStep_inv) hok hrun
  exact ⟨h.spooler.woken, h.handed⟩

/-- A call passes its first test; a producer's block is started and printed; the call goes on while
the writer pauses, which then writes the call's block before the buffer is put back. -/
def callBesideJob : List PatternAct :=
  ([.call 0 3, .pattern, .port .getIn, .port (.fill 0 100), .port (.putOut 0 0)] :
    List PatternAct) ++ List.replicate 9 (PatternAct.port .spooler) ++
    List.replicate 14 (PatternAct.port .writer) ++ List.replicate 5 PatternAct.pattern ++
    List.replicate 5 (PatternAct.port .writer) ++ [PatternAct.pattern]

theorem writer_woken_call_beside_job :
    ∃ s, (patternMachine 0).run callBesideJob = some s ∧ s.port.portReady = false ∧
      s.pattern = .reply 0 ∧ s.putBack.length = 1 ∧ Woken s.port ∧ HandedOver s :=
  ⟨_, rfl, rfl, rfl, rfl, writer_woken_of_patternOk 0 callBesideJob (by decide) rfl⟩

/-- One call while the port is ready and free: the bit is clear, nothing is posted, and the
buffer is back on the free list with its block unwritten. -/
theorem pattern_leaves_writer_asleep :
    ∃ s, (patternMachine 0).run (.call 0 3 :: List.replicate 7 .pattern) = some s ∧
      s.pattern = .reply 0 ∧ ¬ Woken s.port ∧ ¬ HandedOver s :=
  ⟨_, rfl, rfl, by decide, by decide⟩

/-- The writer prints the block, waits the 7 seconds and sets the bit before `PrnStartSpooler`
clears it. -/
def lateClear : List PatternAct :=
  ([.port .getIn, .port (.fill 0 100), .port (.putOut 0 0)] : List PatternAct) ++
    List.replicate 8 (PatternAct.port .spooler) ++ List.replicate 15 (PatternAct.port .writer) ++
    ([.port (.tick 7000)] : List PatternAct) ++ List.replicate 3 (PatternAct.port .writer) ++
    [PatternAct.port .spooler]

theorem late_clear_leaves_writer_asleep :
    ∃ s, (patternMachine 0).run lateClear = some s ∧ ¬ Woken s.port :=
  ⟨_, rfl, by decide⟩

end PrintServer.Spooler
