import PrintServer.Spooler.PortWriter

/-!
# The order of the printed blocks

One block at most is between the output list and `usbprn_write`.  `Flight` says where it is, and
the invariant ties it to the place where the writer and the spooler stand.
-/

namespace PrintServer.Spooler

open Lib

/-- The buffer that `DMAPrinting` took last.  In `stale` and `taken` the variable `pNoUseBuf`
still names a buffer that is back on the free list. -/
inductive Flight
  | idle
  | stale
  | taken (b : UInt8)
  | fetched (b : UInt8)
  | printed (b : UInt8)

def nonEmpty (q : PrintStatus) (bs : List UInt8) : List Block :=
  (bs.map (block q)).filter (·.2 ≠ 0)

namespace Flight

def owned : Flight → List UInt8
  | idle | stale => []
  | taken b | fetched b | printed b => [b]

def noUse : Flight → Option UInt8 → Prop
  | idle, u => u = none
  | stale, _ | taken _, _ => True
  | fetched b, u | printed b, u => u = some b

def pending (q : PrintStatus) : Flight → List Block
  | taken b | fetched b => nonEmpty q [b]
  | _ => []

def current (q : PrintStatus) : Flight → List Block
  | printed b => [block q b]
  | _ => []

/-- Nothing waits to be written. -/
def quiet : Flight → Prop
  | idle | printed _ => True
  | _ => False

end Flight

structure FlightInv (s : PortSys) (f : Flight) (free out : List UInt8) : Prop where
  lists : QueueLists s.q free out (s.held ++ f.owned)
  noUse : f.noUse s.q.pNoUseBuf
  order : s.putLog = s.writeLog ++ f.pending s.q ++ nonEmpty s.q out
  freed : s.writeLog = s.freeLog ++ f.current s.q
  size : ∀ b, 0 ≤ (s.q.buf b).size ∧ (s.q.buf b).size < 65536
  sized : ∀ b, f = .fetched b → (s.q.buf b).size ≠ 0

/-- `PortIO` describes the block in flight, which is not written yet. -/
def Loaded (s : PortSys) (f : Flight) : Prop :=
  ∃ b, f = .fetched b ∧ block s.q b = (s.dataPtr, s.dataSize)

def Pending (s : PortSys) (f : Flight) : Prop :=
  (s.dataSize = 0 ∧ f.quiet) ∨ Loaded s f

def AtDma (s : PortSys) (f : Flight) : DmaPc → Prop
  | .release => s.dataSize = 0 ∧ f.quiet
  | .getOut => s.dataSize = 0 ∧ f = .stale
  | .testSize b => s.dataSize = 0 ∧ f = .taken b
  | .putEmpty b => s.dataSize = 0 ∧ f = .taken b ∧ (block s.q b).2 = 0
  | .clearNoUse => s.dataSize = 0 ∧ f = .stale
  | .setNoUse b => s.dataSize = 0 ∧ f = .taken b ∧ (block s.q b).2 ≠ 0
  | .setDataSize b => f = .fetched b
  | .setDataPtr b => f = .fetched b ∧ (block s.q b).2 = s.dataSize
  | .post => Loaded s f

def AtWriter (s : PortSys) (f : Flight) : WriterPc → Prop
  | .wait => Pending s f ∧ (s.dataSize ≠ 0 → s.signal ≠ 0)
  | .startNegotiate | .setStart | .loopTest | .testDataSize => Pending s f
  | .setTotalSize => Loaded s f
  | .usbprnWrite => Loaded s f ∧ s.totalSize = s.dataSize
  | .setRemaining | .testWritten => s.written = s.totalSize ∧ ∃ b, f = .printed b
  | .restart | .clearDataSize => ∃ b, f = .printed b
  | .dma pc => AtDma s f pc
  | .pause | .endNegotiate | .setReady => s.dataSize = 0 ∧ f.quiet

/-- While the spooler is in `DMAPrinting` the writer sleeps. -/
def Control (s : PortSys) (f : Flight) : Prop :=
  match s.spooler with
  | .dma pc => s.writer = .wait ∧ s.signal = 0 ∧ s.portReady = true ∧ AtDma s f pc
  | _ => AtWriter s f s.writer

def PortInv (s : PortSys) : Prop :=
  ∃ f free out, FlightInv s f free out ∧ Control s f

/-! ## The queue operations keep the blocks -/

variable {q q' : PrintStatus} {b flags : UInt8} {s : PortSys} {f : Flight} {free out : List UInt8}

@[simp] theorem block_prnGetInQueueBuf : block (prnGetInQueueBuf q).2 = block q := by
  unfold prnGetInQueueBuf
  split <;> rfl

theorem content_setBuf {buf : UInt8 → PrnBuf} {c : UInt8} {x : PrnBuf}
    (hd : x.data = (buf c).data) (hs : x.size = (buf c).size) :
    (fun i ↦ ((setBuf buf c x i).data, (setBuf buf c x i).size)) =
      fun i ↦ ((buf i).data, (buf i).size) := by
  funext i
  by_cases h : i = c
  · subst h; simp [hd, hs]
  · simp [h]

@[simp] theorem block_prnPutInQueueBuf : block (prnPutInQueueBuf q b) = block q :=
  content_setBuf rfl rfl

@[simp] theorem block_prnGetOutQueueBuf : block (prnGetOutQueueBuf q).2 = block q := by
  unfold prnGetOutQueueBuf
  split <;> rfl

@[simp] theorem block_prnPutOutQueueBuf : block (prnPutOutQueueBuf q b flags) = block q := by
  unfold prnPutOutQueueBuf
  split
  · exact content_setBuf rfl rfl
  · refine Eq.trans (content_setBuf ?_ ?_) (content_setBuf ?_ ?_) <;> rfl

@[simp] theorem block_releaseNoUse : block (releaseNoUse q) = block q := by
  unfold releaseNoUse
  split
  · exact block_prnPutInQueueBuf
  · rfl

@[simp] theorem block_setNoUse (u : Option UInt8) : block { q with pNoUseBuf := u } = block q := rfl

theorem block_writePrnBuf_of_ne {i : UInt8} (size : Int) (h : i ≠ b) :
    block (writePrnBuf q b size) i = block q i := by
  simp [block, writePrnBuf, h]

theorem nonEmpty_congr {bs : List UInt8} (h : ∀ i ∈ bs, block q' i = block q i) :
    nonEmpty q' bs = nonEmpty q bs := by
  rw [nonEmpty, List.map_congr_left h, nonEmpty]

@[simp] theorem nonEmpty_nil : nonEmpty q [] = [] := rfl

theorem nonEmpty_cons (i : UInt8) (bs : List UInt8) :
    nonEmpty q (i :: bs) = nonEmpty q [i] ++ nonEmpty q bs :=
  List.filter_append [block q i] _

theorem nonEmpty_append (as bs : List UInt8) :
    nonEmpty q (as ++ bs) = nonEmpty q as ++ nonEmpty q bs := by
  rw [nonEmpty, List.map_append, List.filter_append, nonEmpty, nonEmpty]

theorem nonEmpty_singleton_of_ne (h : (block q b).2 ≠ 0) : nonEmpty q [b] = [block q b] := by
  simp [nonEmpty, h]

theorem nonEmpty_singleton_of_eq (h : (block q b).2 = 0) : nonEmpty q [b] = [] := by
  simp [nonEmpty, h]

theorem Flight.pending_congr (h : ∀ i ∈ f.owned, block q' i = block q i) :
    f.pending q' = f.pending q := by
  cases f with
  | idle | stale | printed b => rfl
  | taken b | fetched b => exact nonEmpty_congr h

theorem Flight.current_congr (h : ∀ i ∈ f.owned, block q' i = block q i) :
    f.current q' = f.current q := by
  cases f with
  | idle | stale | taken b | fetched b => rfl
  | printed b => exact congrArg (fun x ↦ [x]) (h b List.mem_cons_self)

theorem size_of_block (hs : ∀ i, 0 ≤ (q.buf i).size ∧ (q.buf i).size < 65536)
    (h : block q' = block q) (i : UInt8) : 0 ≤ (q'.buf i).size ∧ (q'.buf i).size < 65536 := by
  have hi : (q'.buf i).size = (q.buf i).size := congrArg Prod.snd (congrFun h i)
  rw [hi]
  exact hs i

theorem FlightInv.printedInOrder (h : FlightInv s f free out) : PrintedInOrder s :=
  ⟨⟨f.pending s.q ++ nonEmpty s.q out, by rw [h.order, List.append_assoc]⟩,
    ⟨f.current s.q, h.freed.symm⟩⟩

/-! ## One statement of DMAPrinting -/

/-- Where `DMAPrinting` goes on, or what it leaves behind when it returns. -/
def AfterDma (s : PortSys) (f : Flight) : DmaPc ⊕ Bool → Prop
  | .inl pc => AtDma s f pc
  | .inr false => s.dataSize = 0 ∧ f = .idle
  | .inr true => Loaded s f

theorem QueueLists.owned_perm {held : List UInt8} (h : QueueLists q free out (b :: held)) :
    QueueLists q free out (held ++ [b]) :=
  h.rest_perm (List.perm_append_singleton b held)

theorem QueueLists.putIn_owned {held : List UInt8} (h : QueueLists q free out (held ++ [b])) :
    QueueLists (prnPutInQueueBuf q b) (b :: free) out held := by
  refine (h.putIn (by simp)).rest_perm ?_
  refine (List.perm_cons b).mp (List.Perm.trans ?_ (List.perm_cons_erase (by simp)))
  exact (List.perm_append_singleton b held).symm

theorem Flight.quiet_cases (h : f.quiet) : f = .idle ∨ ∃ b, f = .printed b := by
  cases f with
  | idle => exact .inl rfl
  | printed b => exact .inr ⟨b, rfl⟩
  | stale | taken b | fetched b => exact h.elim

/-- The release of a printed buffer, or of none. -/
theorem FlightInv.release (h : FlightInv s f free out) (hf : f.quiet) :
    ∃ free', FlightInv (dmaStep s .release).1 .stale free' out := by
  obtain rfl | ⟨b, rfl⟩ := f.quiet_cases hf
  · have hu : s.q.pNoUseBuf = none := h.noUse
    have hq : releaseNoUse s.q = s.q := by simp [releaseNoUse, hu]
    refine ⟨free, ?_⟩
    simp only [dmaStep, hq, hu, Option.toList_none, List.map_nil, List.append_nil]
    exact ⟨h.lists, trivial, h.order, h.freed, h.size, nofun⟩
  · have hu : s.q.pNoUseBuf = some b := h.noUse
    have hq : releaseNoUse s.q = prnPutInQueueBuf s.q b := by simp [releaseNoUse, hu]
    refine ⟨b :: free, ?_⟩
    simp only [dmaStep, hq, hu, Option.toList_some, List.map_cons, List.map_nil]
    exact
      { lists := by
          have hl := h.lists.putIn_owned
          simpa [Flight.owned] using hl
        noUse := trivial
        order := by
          have hout : nonEmpty (prnPutInQueueBuf s.q b) out = nonEmpty s.q out :=
            nonEmpty_congr (by simp)
          rw [h.order, hout]
          rfl
        freed := by
          rw [h.freed]
          exact (List.append_nil _).symm
        size := size_of_block h.size block_prnPutInQueueBuf
        sized := nofun }

/-- The head of the output list is the buffer that `DMAPrinting` looks at next. -/
theorem FlightInv.getOut (h : FlightInv s .stale free out) (hs : s.dataSize = 0) :
    ∃ f' out', FlightInv (dmaStep s .getOut).1 f' free out' ∧
      AfterDma (dmaStep s .getOut).1 f' (dmaStep s .getOut).2 := by
  cases out with
  | nil =>
      have hl := h.lists.getOut_nil
      simp only [dmaStep, hl]
      exact ⟨.stale, [], ⟨h.lists, h.noUse, h.order, h.freed, h.size, nofun⟩, hs, rfl⟩
  | cons x out =>
      obtain ⟨hx, hl⟩ := h.lists.getOut
      have hb : block (prnGetOutQueueBuf s.q).2 = block s.q := block_prnGetOutQueueBuf
      simp only [dmaStep]
      generalize prnGetOutQueueBuf s.q = r at hx hl hb ⊢
      obtain ⟨o, q⟩ := r
      obtain rfl : o = some x := hx
      refine ⟨.taken x, out, ?_, hs, rfl⟩
      exact
        { lists := by
            have hl' := hl.owned_perm
            simpa [Flight.owned] using hl'
          noUse := trivial
          order := by
            change s.putLog = s.writeLog ++ nonEmpty q [x] ++ nonEmpty q out
            have hsame : ∀ bs, nonEmpty q bs = nonEmpty s.q bs :=
              fun bs ↦ nonEmpty_congr (by simp [hb])
            rw [h.order, hsame, hsame, nonEmpty_cons x out]
            simp [Flight.pending]
          freed := h.freed
          size := size_of_block h.size hb
          sized := nofun }

theorem FlightInv.putEmpty (h : FlightInv s (.taken b) free out) (hb : (block s.q b).2 = 0) :
    FlightInv (dmaStep s (.putEmpty b)).1 .stale (b :: free) out where
  lists := by
    have hl := h.lists.putIn_owned
    simpa [Flight.owned, dmaStep] using hl
  noUse := trivial
  order := by
    change s.putLog = s.writeLog ++ [] ++ nonEmpty (prnPutInQueueBuf s.q b) out
    have hp : (Flight.taken b).pending s.q = [] := nonEmpty_singleton_of_eq hb
    have hout : nonEmpty (prnPutInQueueBuf s.q b) out = nonEmpty s.q out :=
      nonEmpty_congr (by simp)
    rw [h.order, hp, hout]
  freed := h.freed
  size := size_of_block h.size block_prnPutInQueueBuf
  sized := nofun

theorem FlightInv.setNoUse (h : FlightInv s (.taken b) free out) (hb : (block s.q b).2 ≠ 0) :
    FlightInv (dmaStep s (.setNoUse b)).1 (.fetched b) free out where
  lists := h.lists.setNoUse (some b)
  noUse := rfl
  order := h.order
  freed := h.freed
  size := h.size
  sized := by
    rintro c ⟨⟩
    exact hb

theorem wordOf_size (h : FlightInv s f free out) (b : UInt8) :
    wordOf (s.q.buf b).size = (s.q.buf b).size := by
  obtain ⟨h0, h1⟩ := h.size b
  exact Int.emod_eq_of_lt h0 h1

theorem dmaStep_inv {pc : DmaPc} (h : FlightInv s f free out) (hpc : AtDma s f pc) :
    ∃ f' free' out', FlightInv (dmaStep s pc).1 f' free' out' ∧
      AfterDma (dmaStep s pc).1 f' (dmaStep s pc).2 := by
  cases pc with
  | release =>
      obtain ⟨hs, hf⟩ := hpc
      obtain ⟨free', h'⟩ := h.release hf
      exact ⟨.stale, free', out, h', hs, rfl⟩
  | getOut =>
      obtain ⟨hs, rfl⟩ := hpc
      obtain ⟨f', out', h', hafter⟩ := h.getOut hs
      exact ⟨f', free, out', h', hafter⟩
  | testSize b =>
      obtain ⟨hs, rfl⟩ := hpc
      refine ⟨.taken b, free, out, h, ?_⟩
      by_cases hb : (s.q.buf b).size = 0
      · simp only [dmaStep, hb, if_true]
        exact ⟨hs, rfl, hb⟩
      · simp only [dmaStep, hb, if_false]
        exact ⟨hs, rfl, hb⟩
  | putEmpty b =>
      obtain ⟨hs, rfl, hb⟩ := hpc
      exact ⟨.stale, b :: free, out, h.putEmpty hb, hs, rfl⟩
  | clearNoUse =>
      obtain ⟨hs, rfl⟩ := hpc
      exact ⟨.idle, free, out, ⟨h.lists.setNoUse none, rfl, h.order, h.freed, h.size, nofun⟩,
        hs, rfl⟩
  | setNoUse b =>
      obtain ⟨-, rfl, hb⟩ := hpc
      exact ⟨.fetched b, free, out, h.setNoUse hb, rfl⟩
  | setDataSize b =>
      obtain rfl := hpc
      exact ⟨.fetched b, free, out, ⟨h.lists, h.noUse, h.order, h.freed, h.size, h.sized⟩, rfl,
        (wordOf_size h b).symm⟩
  | setDataPtr b =>
      obtain ⟨rfl, hb⟩ := hpc
      exact ⟨.fetched b, free, out, ⟨h.lists, h.noUse, h.order, h.freed, h.size, h.sized⟩, b, rfl,
        Prod.ext rfl hb⟩
  | post =>
      obtain ⟨b, rfl, hb⟩ := hpc
      exact ⟨.fetched b, free, out, ⟨h.lists, h.noUse, h.order, h.freed, h.size, h.sized⟩, b, rfl,
        hb⟩

/-- `DMAPrinting` leaves the threads and the clock alone, and only its post moves the signal. -/
theorem dmaStep_frame (s : PortSys) (pc : DmaPc) :
    (dmaStep s pc).1.writer = s.writer ∧ (dmaStep s pc).1.spooler = s.spooler ∧
      (dmaStep s pc).1.portReady = s.portReady ∧
      ((dmaStep s pc).2 = .inr true → s.portReady = true →
        (dmaStep s pc).1.signal = s.signal + 1) ∧
      ((dmaStep s pc).2 ≠ .inr true → (dmaStep s pc).1.signal = s.signal) := by
  cases pc with
  | getOut =>
      simp only [dmaStep]
      rcases prnGetOutQueueBuf s.q with ⟨_ | b, q⟩ <;> simp
  | release | testSize b | putEmpty b | clearNoUse | setNoUse b | setDataSize b | setDataPtr b
  | post => simp [dmaStep]

/-! ## One statement of a thread -/

/-- The threads, the signal and `PortIO` are no part of `FlightInv`. -/
theorem FlightInv.of_eq {t : PortSys} (h : FlightInv s f free out) (hq : t.q = s.q)
    (hheld : t.held = s.held) (hput : t.putLog = s.putLog) (hwrite : t.writeLog = s.writeLog)
    (hfree : t.freeLog = s.freeLog) : FlightInv t f free out where
  lists := by rw [hq, hheld]; exact h.lists
  noUse := by rw [hq]; exact h.noUse
  order := by rw [hq, hput, hwrite]; exact h.order
  freed := by rw [hq, hwrite, hfree]; exact h.freed
  size := by rw [hq]; exact h.size
  sized := by rw [hq]; exact h.sized

theorem Loaded.dataSize_ne (hl : Loaded s f) (h : FlightInv s f free out) : s.dataSize ≠ 0 := by
  obtain ⟨b, rfl, hb⟩ := hl
  have hsize : (s.q.buf b).size = s.dataSize := congrArg Prod.snd hb
  exact hsize ▸ h.sized b rfl

theorem Pending.quiet (hp : Pending s f) (hs : s.dataSize = 0) (h : FlightInv s f free out) :
    f.quiet := by
  obtain ⟨-, hf⟩ | hl := hp
  · exact hf
  · exact absurd hs (hl.dataSize_ne h)

theorem Pending.loaded (hp : Pending s f) (hs : s.dataSize ≠ 0) : Loaded s f := by
  obtain ⟨h0, -⟩ | hl := hp
  · exact absurd h0 hs
  · exact hl

/-- Handing the loaded block to `usbprn_write` prints the buffer in flight. -/
theorem FlightInv.write {t : PortSys} (h : FlightInv s (.fetched b) free out)
    (hb : block s.q b = (s.dataPtr, s.dataSize)) (hq : t.q = s.q) (hheld : t.held = s.held)
    (hput : t.putLog = s.putLog) (hwrite : t.writeLog = s.writeLog ++ [(s.dataPtr, s.dataSize)])
    (hfree : t.freeLog = s.freeLog) : FlightInv t (.printed b) free out where
  lists := by rw [hq, hheld]; exact h.lists
  noUse := by rw [hq]; exact h.noUse
  order := by
    have hp : (Flight.fetched b).pending s.q = [block s.q b] :=
      nonEmpty_singleton_of_ne (h.sized b rfl)
    rw [hput, hwrite, hq, h.order, hp, hb]
    simp [Flight.pending]
  freed := by
    have hf : s.writeLog = s.freeLog := h.freed.trans (List.append_nil _)
    rw [hwrite, hfree, hq, ← hb, hf]
    rfl
  size := by rw [hq]; exact h.size
  sized := nofun

/-- A statement of the writer, which is not asleep while the spooler is in `DMAPrinting`. -/
theorem writerStep_inv {t : PortSys} (h : FlightInv s f free out)
    (hc : AtWriter s f s.writer) (hspooler : ∀ pc, s.spooler ≠ .dma pc)
    (hok : s.writer = .loopTest → s.dataSize ≠ 0 → s.jiffies - s.start < prnExitPrintModeTime)
    (hstep : writerStep s = some t) : PortInv t := by
  have hcontrol : ∀ {t : PortSys} {f : Flight}, t.spooler = s.spooler →
      AtWriter t f t.writer → Control t f := by
    intro t f ht hat
    unfold Control
    rw [ht]
    split
    · rename_i pc heq
      exact absurd heq (hspooler pc)
    · exact hat
  unfold writerStep at hstep
  cases hw : s.writer with
  | wait =>
      simp only [hw] at hstep hc
      split at hstep
      · cases hstep
      · cases hstep
        exact ⟨f, free, out, h.of_eq rfl rfl rfl rfl rfl, hcontrol rfl hc.1⟩
  | startNegotiate | setStart =>
      simp only [hw, Option.some.injEq] at hstep hc
      subst hstep
      exact ⟨f, free, out, h.of_eq rfl rfl rfl rfl rfl, hcontrol rfl hc⟩
  | loopTest =>
      simp only [hw] at hstep hc
      split at hstep
      · cases hstep
        exact ⟨f, free, out, h.of_eq rfl rfl rfl rfl rfl, hcontrol rfl hc⟩
      · rename_i htime
        cases hstep
        -- the time is over, but never while data is left
        have hs : s.dataSize = 0 := by
          by_contra hne
          exact htime (hok hw hne)
        exact ⟨f, free, out, h.of_eq rfl rfl rfl rfl rfl,
          hcontrol rfl ⟨hs, Pending.quiet hc hs h⟩⟩
  | testDataSize =>
      simp only [hw] at hstep hc
      split at hstep
      · rename_i hs
        cases hstep
        exact ⟨f, free, out, h.of_eq rfl rfl rfl rfl rfl, hcontrol rfl (Pending.loaded hc hs)⟩
      · rename_i hs
        cases hstep
        have hs' : s.dataSize = 0 := not_not.mp hs
        exact ⟨f, free, out, h.of_eq rfl rfl rfl rfl rfl,
          hcontrol rfl ⟨hs', Pending.quiet hc hs' h⟩⟩
  | setTotalSize =>
      simp only [hw, Option.some.injEq] at hstep hc
      subst hstep
      exact ⟨f, free, out, h.of_eq rfl rfl rfl rfl rfl, hcontrol rfl ⟨hc, rfl⟩⟩
  | usbprnWrite =>
      simp only [hw, Option.some.injEq] at hstep hc
      -- the block in flight is written here
      obtain ⟨⟨b, rfl, hb⟩, htotal⟩ := hc
      subst hstep
      exact ⟨.printed b, free, out, h.write hb rfl rfl rfl rfl rfl,
        hcontrol rfl ⟨htotal.symm, b, rfl⟩⟩
  | setRemaining =>
      simp only [hw, Option.some.injEq] at hstep hc
      subst hstep
      exact ⟨f, free, out, h.of_eq rfl rfl rfl rfl rfl, hcontrol rfl hc⟩
  | testWritten =>
      simp only [hw] at hstep hc
      obtain ⟨htotal, b, rfl⟩ := hc
      -- a whole write; the branch of a short one is not taken
      rw [if_neg (by omega : ¬ s.written < s.totalSize)] at hstep
      cases hstep
      exact ⟨.printed b, free, out, h.of_eq rfl rfl rfl rfl rfl, hcontrol rfl ⟨b, rfl⟩⟩
  | restart =>
      simp only [hw, Option.some.injEq] at hstep hc
      subst hstep
      exact ⟨f, free, out, h.of_eq rfl rfl rfl rfl rfl, hcontrol rfl hc⟩
  | clearDataSize =>
      simp only [hw, Option.some.injEq] at hstep hc
      obtain ⟨b, rfl⟩ := hc
      subst hstep
      exact ⟨.printed b, free, out, h.of_eq rfl rfl rfl rfl rfl, hcontrol rfl ⟨rfl, trivial⟩⟩
  | dma pc =>
      simp only [hw] at hstep hc
      -- the statements of `StartDMAIO` are the same for the writer and the spooler
      obtain ⟨f', free', out', h', hafter⟩ := dmaStep_inv h hc
      obtain ⟨-, hsp, -⟩ := dmaStep_frame s pc
      generalize dmaStep s pc = r at hstep h' hafter hsp
      obtain ⟨s', pc' | r⟩ := r
      · cases hstep
        exact ⟨f', free', out', h'.of_eq rfl rfl rfl rfl rfl, hcontrol hsp hafter⟩
      · cases hstep
        refine ⟨f', free', out', h'.of_eq rfl rfl rfl rfl rfl, hcontrol hsp ?_⟩
        cases r with
        | true => exact .inr hafter
        | false =>
            obtain ⟨hs, rfl⟩ := hafter
            exact ⟨hs, trivial⟩
  | pause =>
      simp only [hw, Option.some.injEq] at hstep hc
      subst hstep
      exact ⟨f, free, out, h.of_eq rfl rfl rfl rfl rfl, hcontrol rfl (.inl hc)⟩
  | endNegotiate =>
      simp only [hw, Option.some.injEq] at hstep hc
      subst hstep
      exact ⟨f, free, out, h.of_eq rfl rfl rfl rfl rfl, hcontrol rfl hc⟩
  | setReady =>
      simp only [hw, Option.some.injEq] at hstep hc
      subst hstep
      exact ⟨f, free, out, h.of_eq rfl rfl rfl rfl rfl,
        hcontrol rfl ⟨.inl hc, fun hs ↦ absurd hc.1 hs⟩⟩

/-- A statement of the spooler. -/
theorem spoolerStep_inv (h : FlightInv s f free out) (hc : Control s f)
    (hok : s.spooler = .testReady → s.portReady = true → s.writer = .wait ∧ s.signal = 0) :
    PortInv (spoolerStep s) := by
  unfold spoolerStep
  unfold Control at hc
  cases hsp : s.spooler with
  | testReady =>
      simp only [hsp] at hc ⊢
      by_cases hr : s.portReady = true
      · obtain ⟨hw, hsig⟩ := hok hsp hr
        rw [hw] at hc
        have hs : s.dataSize = 0 := by
          by_contra hne
          exact hc.2 hne hsig
        refine ⟨f, free, out, h.of_eq rfl rfl rfl rfl rfl, ?_⟩
        simp only [Control, hr, if_true]
        exact ⟨hw, hsig, trivial, hs, hc.1.quiet hs h⟩
      · refine ⟨f, free, out, h.of_eq rfl rfl rfl rfl rfl, ?_⟩
        simp only [Control, hr]
        exact hc
  | dma pc =>
      simp only [hsp] at hc ⊢
      obtain ⟨hw, hsig, hr, hat⟩ := hc
      obtain ⟨f', free', out', h', hafter⟩ := dmaStep_inv h hat
      obtain ⟨hw', -, hr', hpost, hkeep⟩ := dmaStep_frame s pc
      generalize dmaStep s pc = r at h' hafter hw' hr' hpost hkeep
      obtain ⟨s', pc' | r⟩ := r
      · refine ⟨f', free', out', h'.of_eq rfl rfl rfl rfl rfl, hw'.trans hw, ?_, hr'.trans hr,
          hafter⟩
        exact (hkeep nofun).trans hsig
      · cases r with
        | true =>
            refine ⟨f', free', out', h'.of_eq rfl rfl rfl rfl rfl, ?_⟩
            have hsig1 : s'.signal = s.signal + 1 := hpost rfl hr
            simp only [Control, if_true]
            rw [hw'.trans hw]
            exact ⟨.inr hafter, fun _ ↦ by rw [hsig1]; exact Nat.succ_ne_zero _⟩
        | false =>
            obtain ⟨hs, rfl⟩ := hafter
            refine ⟨.idle, free', out', h'.of_eq rfl rfl rfl rfl rfl, ?_⟩
            simp only [Control, Bool.false_eq_true, if_false]
            rw [hw'.trans hw]
            exact ⟨.inl ⟨hs, trivial⟩, fun hne ↦ absurd hs hne⟩
  | clearReady | delay =>
      simp only [hsp] at hc ⊢
      exact ⟨f, free, out, h.of_eq rfl rfl rfl rfl rfl, hc⟩

/-! ## The producer -/

theorem Loaded.congr {t : PortSys} (hl : Loaded s f)
    (hb : ∀ i ∈ f.owned, block t.q i = block s.q i) (hptr : t.dataPtr = s.dataPtr)
    (hsize : t.dataSize = s.dataSize) : Loaded t f := by
  obtain ⟨b, rfl, hl⟩ := hl
  exact ⟨b, rfl, by rw [hb b List.mem_cons_self, hl, hptr, hsize]⟩

theorem AtDma.congr {t : PortSys} {pc : DmaPc} (h : AtDma s f pc)
    (hb : ∀ i ∈ f.owned, block t.q i = block s.q i) (hptr : t.dataPtr = s.dataPtr)
    (hsize : t.dataSize = s.dataSize) : AtDma t f pc := by
  cases pc with
  | release | getOut | testSize b | clearNoUse | setDataSize b =>
      simp only [AtDma, hsize] at h ⊢
      exact h
  | putEmpty b | setNoUse b =>
      obtain ⟨hs, rfl, hz⟩ := h
      exact ⟨hsize.trans hs, rfl, by rw [hb b List.mem_cons_self]; exact hz⟩
  | setDataPtr b =>
      obtain ⟨rfl, hz⟩ := h
      exact ⟨rfl, by rw [hb b List.mem_cons_self, hz, hsize]⟩
  | post => exact Loaded.congr h hb hptr hsize

/-- The producer may touch every buffer but the one in flight. -/
theorem Control.congr (h : Control s f) {q' : PrintStatus}
    (hb : ∀ i ∈ f.owned, block q' i = block s.q i) (held' : List UInt8) (putLog' : List Block) :
    Control { s with q := q', held := held', putLog := putLog' } f := by
  have hl : Loaded s f → Loaded { s with q := q', held := held', putLog := putLog' } f :=
    fun hl ↦ hl.congr hb rfl rfl
  have hp : Pending s f → Pending { s with q := q', held := held', putLog := putLog' } f :=
    Or.imp_right hl
  unfold Control at h ⊢
  cases hsp : s.spooler with
  | dma pc =>
      simp only [hsp] at h ⊢
      exact ⟨h.1, h.2.1, h.2.2.1, h.2.2.2.congr hb rfl rfl⟩
  | testReady | clearReady | delay =>
      simp only [hsp] at h ⊢
      cases hw : s.writer with
      | wait =>
          simp only [hw, AtWriter] at h ⊢
          exact ⟨hp h.1, h.2⟩
      | startNegotiate | setStart | loopTest | testDataSize =>
          simp only [hw, AtWriter] at h ⊢
          exact hp h
      | setTotalSize =>
          simp only [hw, AtWriter] at h ⊢
          exact hl h
      | usbprnWrite =>
          simp only [hw, AtWriter] at h ⊢
          exact ⟨hl h.1, h.2⟩
      | dma pc =>
          simp only [hw, AtWriter] at h ⊢
          exact h.congr hb rfl rfl
      | setRemaining | testWritten | restart | clearDataSize | pause | endNegotiate | setReady =>
          simp only [hw, AtWriter] at h ⊢
          exact h

/-- A queue operation of the producer that keeps every block and puts `new`. -/
theorem FlightInv.producer {free' out' held' : List UInt8} {putLog' new : List Block}
    (h : FlightInv s f free out) (hlists : QueueLists q' free' out' (held' ++ f.owned))
    (hb : block q' = block s.q) (huse : q'.pNoUseBuf = s.q.pNoUseBuf)
    (hput : putLog' = s.putLog ++ new) (hnew : nonEmpty s.q out' = nonEmpty s.q out ++ new) :
    FlightInv { s with q := q', held := held', putLog := putLog' } f free' out' where
  lists := hlists
  noUse := by
    change f.noUse q'.pNoUseBuf
    rw [huse]
    exact h.noUse
  order := by
    have hout : nonEmpty q' out' = nonEmpty s.q out' := nonEmpty_congr (by simp [hb])
    have hpend : f.pending q' = f.pending s.q := Flight.pending_congr (by simp [hb])
    change putLog' = s.writeLog ++ f.pending q' ++ nonEmpty q' out'
    rw [hout, hpend, hput, hnew, h.order, List.append_assoc]
  freed := by
    change s.writeLog = s.freeLog ++ f.current q'
    have hcur : f.current q' = f.current s.q := Flight.current_congr (by simp [hb])
    rw [hcur]
    exact h.freed
  size := size_of_block h.size hb
  sized := by
    rintro b rfl
    have hsize : (q'.buf b).size = (s.q.buf b).size := congrArg Prod.snd (congrFun hb b)
    change (q'.buf b).size ≠ 0
    rw [hsize]
    exact h.sized b rfl

theorem FlightInv.ne_held {i : UInt8} (h : FlightInv s f free out) (hb : b ∈ s.held)
    (hi : i ∈ f.owned) : i ≠ b := by
  have hd := List.nodup_append.mp (List.nodup_append.mp h.lists.nodup).2.1
  exact fun hib ↦ hd.2.2 b hb i hi hib.symm

/-- The producer fills a buffer that it holds: no link and no block of the lists changes. -/
theorem FlightInv.fill {size : Int} (h : FlightInv s f free out) (hb : b ∈ s.held)
    (h0 : 0 ≤ size) (h1 : size < 65536) :
    FlightInv { s with q := writePrnBuf s.q b size } f free out := by
  have hown : ∀ i ∈ f.owned, block (writePrnBuf s.q b size) i = block s.q i :=
    fun i hi ↦ block_writePrnBuf_of_ne size (h.ne_held hb hi)
  have hout : ∀ i ∈ out, block (writePrnBuf s.q b size) i = block s.q i := fun i hi ↦ by
    refine block_writePrnBuf_of_ne size ?_
    rintro rfl
    exact h.lists.notMem_out (List.mem_append_left _ hb) hi
  exact
    { lists := h.lists.writePrnBuf size
      noUse := h.noUse
      order := by
        change s.putLog = s.writeLog ++ f.pending (writePrnBuf s.q b size) ++
          nonEmpty (writePrnBuf s.q b size) out
        rw [Flight.pending_congr hown, nonEmpty_congr hout]
        exact h.order
      freed := by
        change s.writeLog = s.freeLog ++ f.current (writePrnBuf s.q b size)
        rw [Flight.current_congr hown]
        exact h.freed
      size := by
        intro i
        change 0 ≤ (setBuf s.q.buf b _ i).size ∧ (setBuf s.q.buf b _ i).size < 65536
        by_cases hi : i = b
        · subst hi
          rw [setBuf_self]
          exact ⟨h0, h1⟩
        · rw [setBuf_of_ne hi]
          exact h.size i
      sized := by
        rintro i rfl
        have hi : ((writePrnBuf s.q b size).buf i).size = (s.q.buf i).size :=
          congrArg Prod.snd (hown i List.mem_cons_self)
        change ((writePrnBuf s.q b size).buf i).size ≠ 0
        rw [hi]
        exact h.sized i rfl }

/-! ## Every run -/

/-- The two branches that lose a block: the time is up before a fetched block is written, and
the spooler starts while the writer is at work or is about to be. -/
def PortOk (s : PortSys) : PortAct → Prop
  | .writer =>
      s.writer = .loopTest → s.dataSize ≠ 0 → s.jiffies - s.start < prnExitPrintModeTime
  | .spooler =>
      s.spooler = .testReady → s.portReady = true → s.writer = .wait ∧ s.signal = 0
  | _ => True

theorem prnQueueInit_size (l : PrinterList) (prnPort : Nat) (b : UInt8) :
    ((prnQueueInit l prnPort).buf b).size = ((l prnPort).buf b).size := by
  by_cases h : prnPort < numOfPrnPort
  · simp only [prnQueueInit, if_pos h]
    split <;> rfl
  · simp only [prnQueueInit, if_neg h]

theorem prnPrinterInit_size (l : PrinterList) (prnPort : Nat) (b : UInt8) :
    ((prnPrinterInit l prnPort).buf b).size = ((l prnPort).buf b).size := by
  by_cases h : prnPort < numOfPrnPort
  · simp only [prnPrinterInit, if_pos h]
    split
    · rfl
    · split <;> rfl
  · simp only [prnPrinterInit, if_neg h]

theorem queueStart_size (b : UInt8) : ((queueStart.list 0).buf b).size = 0 :=
  (prnPrinterInit_size _ 0 b).trans (prnQueueInit_size _ 0 b)

theorem portStart_inv (jiffies : UInt32) : PortInv (portStart jiffies) := by
  obtain ⟨free, out, h⟩ := queueStart_partitioned 0 (by decide)
  have hout : out = [] := by
    rw [h.outChain.eq_nil_iff]
    rfl
  subst hout
  have hsize : ∀ b, 0 ≤ ((portStart jiffies).q.buf b).size ∧
      ((portStart jiffies).q.buf b).size < 65536 := by
    intro b
    change 0 ≤ ((queueStart.list 0).buf b).size ∧ ((queueStart.list 0).buf b).size < 65536
    rw [queueStart_size]
    decide
  exact ⟨.idle, free, [], ⟨h, rfl, rfl, rfl, hsize, nofun⟩, .inl ⟨rfl, trivial⟩,
    fun h ↦ absurd rfl h⟩

theorem portStep_inv {t : PortSys} {a : PortAct} (hs : PortInv s) (hok : PortOk s a)
    (hstep : portStep s a = some t) : PortInv t := by
  obtain ⟨f, free, out, h, hc⟩ := hs
  cases a with
  | writer =>
      unfold Control at hc
      split at hc
      · -- the writer sleeps and the signal is down
        rename_i pc hsp
        have hstep' : writerStep s = some t := hstep
        simp [writerStep, hc.1, hc.2.1] at hstep'
      · rename_i hsp
        exact writerStep_inv h hc hsp hok hstep
  | spooler =>
      obtain rfl := Option.some.inj hstep
      exact spoolerStep_inv h hc hok
  | tick d =>
      obtain rfl := Option.some.inj hstep
      exact ⟨f, free, out, h.of_eq rfl rfl rfl rfl rfl, hc⟩
  | getIn =>
      obtain rfl := Option.some.inj hstep
      refine ⟨f, ?_⟩
      have hb : block (prnGetInQueueBuf s.q).2 = block s.q := block_prnGetInQueueBuf
      have huse : (prnGetInQueueBuf s.q).2.pNoUseBuf = s.q.pNoUseBuf := by
        unfold prnGetInQueueBuf
        split <;> rfl
      have hcontrol := hc.congr (fun i _ ↦ congrFun hb i)
        ((prnGetInQueueBuf s.q).1.toList ++ s.held) s.putLog
      cases free with
      | nil =>
          have hnone : prnGetInQueueBuf s.q = (none, s.q) := if_pos h.lists.freeChain
          refine ⟨[], out, h.producer ?_ hb huse (List.append_nil _).symm
            (List.append_nil _).symm, hcontrol⟩
          rw [hnone]
          exact h.lists
      | cons x free =>
          obtain ⟨hx, hl⟩ := h.lists.getIn
          refine ⟨free, out, h.producer ?_ hb huse (List.append_nil _).symm
            (List.append_nil _).symm, hcontrol⟩
          rw [hx]
          exact hl
  | fill b size =>
      obtain ⟨⟨hb, h0, h1⟩, hst⟩ := Option.ite_none_right_eq_some.mp hstep
      obtain rfl := Option.some.inj hst
      exact ⟨f, free, out, h.fill hb h0 h1,
        hc.congr (fun i hi ↦ block_writePrnBuf_of_ne size (h.ne_held hb hi)) s.held s.putLog⟩
  | putOut b flags =>
      obtain ⟨hb, hst⟩ := Option.ite_none_right_eq_some.mp hstep
      obtain rfl := Option.some.inj hst
      have huse : (prnPutOutQueueBuf s.q b flags).pNoUseBuf = s.q.pNoUseBuf := by
        unfold prnPutOutQueueBuf
        split <;> rfl
      have hl : QueueLists (prnPutOutQueueBuf s.q b flags) free (out ++ [b])
          (s.held.erase b ++ f.owned) :=
        (h.lists.putOut (List.mem_append_left _ hb)).rest_perm (Partitioned.perm_erase hb _)
      exact ⟨f, free, out ++ [b],
        h.producer hl block_prnPutOutQueueBuf huse rfl (nonEmpty_append out [b]),
        hc.congr (fun i _ ↦ congrFun block_prnPutOutQueueBuf i) _ _⟩
  | putIn b =>
      obtain ⟨hb, hst⟩ := Option.ite_none_right_eq_some.mp hstep
      obtain rfl := Option.some.inj hst
      have hl := (h.lists.putIn (List.mem_append_left _ hb)).rest_perm (Partitioned.perm_erase hb _)
      exact ⟨f, b :: free, out,
        h.producer hl block_prnPutInQueueBuf rfl (List.append_nil _).symm (List.append_nil _).symm,
        hc.congr (fun i _ ↦ congrFun block_prnPutInQueueBuf i) _ _⟩

/-- In a run that takes neither of the two branches, no block is lost, repeated or reordered and
no buffer is freed unwritten. -/
theorem printed_in_order_of_portOk (jiffies : UInt32) (acts : List PortAct) {s : PortSys}
    (hok : (portMachine jiffies).Along PortOk (portStart jiffies) acts)
    (hrun : (portMachine jiffies).run acts = some s) : PrintedInOrder s := by
  obtain ⟨f, free, out, h, -⟩ : PortInv s := Machine.run_invariant (portStart_inv jiffies)
    (fun _ _ _ ↦ portStep_inv) hok hrun
  exact h.printedInOrder

instance (s : PortSys) (a : PortAct) : Decidable (PortOk s a) := by
  cases a <;> unfold PortOk <;> infer_instance

/-- Two blocks, queued by the producer. -/
def queueTwoBlocks : List PortAct :=
  [.getIn, .fill 0 100, .putOut 0 0, .getIn, .fill 1 50, .putOut 1 1]

/-- Both blocks printed and one of them freed. -/
theorem printed_in_order_two_blocks :
    ∃ s, (portMachine 0).run (queueTwoBlocks ++ List.replicate 10 .spooler ++
        List.replicate 25 .writer) = some s ∧ s.writeLog.length = 2 ∧ PrintedInOrder s :=
  ⟨_, rfl, rfl, printed_in_order_of_portOk 0 (queueTwoBlocks ++ List.replicate 10 .spooler ++
    List.replicate 25 .writer) (by decide) rfl⟩

/-- The writer fetches the second block, the clock passes the 7 seconds before the test at the
top of the loop, and the next `DMAPrinting` of the spooler frees the block unwritten. -/
theorem fetched_block_freed_unwritten :
    ∃ s, (portMachine 0).run (queueTwoBlocks ++ List.replicate 10 .spooler ++
        List.replicate 18 .writer ++ [.tick 7000] ++ List.replicate 3 .writer ++
        List.replicate 2 .spooler) = some s ∧ s.writeLog.length = 1 ∧ s.freeLog.length = 2 ∧
      ¬ PrintedInOrder s :=
  ⟨_, rfl, rfl, rfl, by decide⟩

end PrintServer.Spooler
