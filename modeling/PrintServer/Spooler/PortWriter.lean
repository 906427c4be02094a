import PrintServer.Spooler.QueueOps

/-!
# The spooler and the port writer

`PrnStartSpooler` of prnqueue.c and `PortNWrite` of prnport.c, with a producer, as threads that
move one statement at a time.  Both threads run `DMAPrinting`.  Every step of a thread touches
shared data at most once; a label names the thread, and `tick` is the clock.
-/

namespace PrintServer.Spooler

open Lib

/-- `PRN_EXIT_PRINT_MODE_TIME`, in the milliseconds of `jiffies`. -/
def prnExitPrintModeTime : UInt32 := 7000

def wordOf (n : Int) : Int := n % 65536

/-- `DataPtr` and `DataSize` of one call of `usbprn_write`. -/
abbrev Block := Nat × Int

def block (q : PrintStatus) (b : UInt8) : Block := ((q.buf b).data, (q.buf b).size)

/-- The statements of `DMAPrinting` and, behind `setNoUse`, of `StartDMAIO`. -/
inductive DmaPc
  | release
  | getOut
  | testSize (b : UInt8)
  | putEmpty (b : UInt8)
  | clearNoUse
  | setNoUse (b : UInt8)
  | setDataSize (b : UInt8)
  | setDataPtr (b : UInt8)
  | post
deriving DecidableEq

inductive WriterPc
  | wait
  | startNegotiate
  | setStart
  | loopTest
  | testDataSize
  | setTotalSize
  | usbprnWrite
  | setRemaining
  | testWritten
  | restart
  | clearDataSize
  | dma (pc : DmaPc)
  | pause
  | endNegotiate
  | setReady
deriving DecidableEq

inductive SpoolerPc
  | testReady
  | dma (pc : DmaPc)
  | clearReady
  | delay
deriving DecidableEq

/-- Port 0.  The last three fields are no variables of the program: they record the non-empty
buffers passed to `PrnPutOutQueueBuf`, the blocks handed to `usbprn_write` and the printed
buffers that `DMAPrinting` put back on the free list. -/
structure PortSys where
  q : PrintStatus
  held : List UInt8
  portReady : Bool
  signal : Nat
  dataSize : Int
  dataPtr : Nat
  totalSize : Int
  written : Int
  start : UInt32
  jiffies : UInt32
  writer : WriterPc
  spooler : SpoolerPc
  putLog : List Block
  writeLog : List Block
  freeLog : List Block

/-- After `Spooler_init`; the clock starts anywhere. -/
def portStart (jiffies : UInt32) : PortSys :=
  { q := queueStart.list 0, held := [], portReady := true, signal := 0, dataSize := 0,
    dataPtr := 0, totalSize := 0, written := 0, start := 0, jiffies := jiffies, writer := .wait,
    spooler := .testReady, putLog := [], writeLog := [], freeLog := [] }

/-- One statement of `DMAPrinting`: the next one, or the value it returns. -/
def dmaStep (s : PortSys) : DmaPc → PortSys × (DmaPc ⊕ Bool)
  | .release =>
      ({ s with
          q := releaseNoUse s.q
          freeLog := s.freeLog ++ s.q.pNoUseBuf.toList.map (block s.q) }, .inl .getOut)
  | .getOut =>
      match prnGetOutQueueBuf s.q with
      | (none, q) => ({ s with q := q }, .inl .clearNoUse)
      | (some b, q) => ({ s with q := q }, .inl (.testSize b))
  | .testSize b => (s, .inl (if (s.q.buf b).size = 0 then .putEmpty b else .setNoUse b))
  | .putEmpty b => ({ s with q := prnPutInQueueBuf s.q b }, .inl .clearNoUse)
  | .clearNoUse => ({ s with q := { s.q with pNoUseBuf := none } }, .inr false)
  | .setNoUse b => ({ s with q := { s.q with pNoUseBuf := some b } }, .inl (.setDataSize b))
  | .setDataSize b => ({ s with dataSize := wordOf (s.q.buf b).size }, .inl (.setDataPtr b))
  | .setDataPtr b => ({ s with dataPtr := (s.q.buf b).data }, .inl .post)
  | .post => ({ s with signal := if s.portReady then s.signal + 1 else s.signal }, .inr true)

/-- One statement of `PortNWrite`.  `usbprn_write` consumes the block it is given; an
`usbprn_open` that fails is the same statement again. -/
def writerStep (s : PortSys) : Option PortSys :=
  match s.writer with
  | .wait =>
      if s.signal = 0 then none
      else some { s with signal := s.signal - 1, writer := .startNegotiate }
  | .startNegotiate => some { s with writer := .setStart }
  | .setStart => some { s with start := s.jiffies, writer := .loopTest }
  | .loopTest =>
      if s.jiffies - s.start < prnExitPrintModeTime then some { s with writer := .testDataSize }
      else some { s with writer := .endNegotiate }
  | .testDataSize =>
      if s.dataSize ≠ 0 then some { s with writer := .setTotalSize }
      else some { s with writer := .dma .release }
  | .setTotalSize => some { s with totalSize := s.dataSize, writer := .usbprnWrite }
  | .usbprnWrite =>
      some { s with
        writeLog := s.writeLog ++ [(s.dataPtr, s.dataSize)]
        written := s.dataSize
        writer := .setRemaining }
  | .setRemaining => some { s with dataSize := s.totalSize - s.written, writer := .testWritten }
  | .testWritten =>
      if s.written < s.totalSize then some { s with writer := .usbprnWrite }
      else some { s with writer := .restart }
  | .restart => some { s with start := s.jiffies, writer := .clearDataSize }
  | .clearDataSize => some { s with dataSize := 0, writer := .dma .release }
  | .dma pc =>
      match dmaStep s pc with
      | (s', .inl pc') => some { s' with writer := .dma pc' }
      | (s', .inr r) => some { s' with writer := if r then .loopTest else .pause }
  | .pause => some { s with writer := .loopTest }
  | .endNegotiate => some { s with writer := .setReady }
  | .setReady => some { s with portReady := true, writer := .wait }

/-- One statement of `PrnStartSpooler`, whose loop over the ports has one round. -/
def spoolerStep (s : PortSys) : PortSys :=
  match s.spooler with
  | .testReady => { s with spooler := if s.portReady then .dma .release else .delay }
  | .dma pc =>
      match dmaStep s pc with
      | (s', .inl pc') => { s' with spooler := .dma pc' }
      | (s', .inr r) => { s' with spooler := if r then .clearReady else .delay }
  | .clearReady => { s with portReady := false, spooler := .delay }
  | .delay => { s with spooler := .testReady }

inductive PortAct
  | writer
  | spooler
  | tick (d : UInt32)
  | getIn
  | fill (b : UInt8) (size : Int)
  | putOut (b flags : UInt8)
  | putIn (b : UInt8)
deriving DecidableEq

/-- The producer passes only buffers that it holds, and fills them with sizes that the `WORD`
argument of `StartDMAIO` can carry. -/
def portStep (s : PortSys) : PortAct → Option PortSys
  | .writer => writerStep s
  | .spooler => some (spoolerStep s)
  | .tick d => some { s with jiffies := s.jiffies + d }
  | .getIn =>
      let r := prnGetInQueueBuf s.q
      some { s with q := r.2, held := r.1.toList ++ s.held }
  | .fill b size =>
      if b ∈ s.held ∧ 0 ≤ size ∧ size < 65536 then some { s with q := writePrnBuf s.q b size }
      else none
  | .putOut b flags =>
      if b ∈ s.held then
        some { s with
          q := prnPutOutQueueBuf s.q b flags
          held := s.held.erase b
          putLog := s.putLog ++ [block s.q b].filter (·.2 ≠ 0) }
      else none
  | .putIn b =>
      if b ∈ s.held then
        some { s with q := prnPutInQueueBuf s.q b, held := s.held.erase b }
      else none

def portMachine (jiffies : UInt32) : Machine PortSys PortAct := ⟨portStart jiffies, portStep⟩

/-- The blocks printed so far are the first ones put, and the buffers put back are the first ones
printed. -/
def PrintedInOrder (s : PortSys) : Prop :=
  s.writeLog <+: s.putLog ∧ s.freeLog <+: s.writeLog

instance (s : PortSys) : Decidable (PrintedInOrder s) := by
  unfold PrintedInOrder
  infer_instance

end PrintServer.Spooler
