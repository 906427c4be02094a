import PrintServer.Atalk.PostScript
import PrintServer.Lib.Checked

/-!
# A job over a PAP session

The client sends a job in quanta of up to eight packets.  `pap_session` (session.c) hands each one
to `PostScript`, and `paprint` (paprint.c) prints the packets with `ascpaprint` or with
`binpaprint`, by the format of the port.  A job whose client is silent for too long is given up.
-/

namespace PrintServer.Atalk

open Http (bytes chr)
open Lib

def papMaxData : Nat := 512
def papMaxQuantum : Nat := 8
def papData : UInt8 := 4

/-! ## What the client sends -/

/-- A response packet with the octets of its header that are read. -/
structure PapPacket where
  connid : UInt8
  command : UInt8
  eof : UInt8
  data : List UInt8
  data_le : data.length ≤ papMaxData

/-- The response to one request for data. -/
structure Quantum where
  first : PapPacket
  rest : List PapPacket
  rest_lt : rest.length < papMaxQuantum

namespace Quantum

def packets (q : Quantum) : List (List UInt8) := (q.first :: q.rest).map (·.data)

def data (q : Quantum) : List UInt8 := q.packets.flatten

end Quantum

/-! ## The session's side -/

/-- `EEPROM_Data.ATDataFormat` -/
inductive DataFormat
  | none
  | binary (fmt : BinFormat)
deriving DecidableEq

/-- A session that the model does not follow: queries have handlers of their own, which do not
print, and a fault is an access outside an array. -/
inductive Stop
  | query
  | fault
deriving DecidableEq

/-- `struct Mypapfile`: `PF_BOT`, `PF_EOF` and `PF_PRINT`, the packets in use and the slot behind
them, where `markline` keeps a line.  Only the handler of queries reads on from another place than
the first packet. -/
structure Mypapfile where
  bot : Bool
  eof : Bool
  print : Bool
  iobuf : List (List UInt8)
  line : List UInt8
deriving DecidableEq

/-- The session with its stack of handlers, what it has told the client's side, what it has put on
the output queue, and the calls of `binpaprint` so far. -/
structure PapSession where
  connid : UInt8
  infile : Mypapfile
  outEof : Bool
  outEop : Bool
  comstate : List Handler
  queue : List PrnBuf
  calls : List BinCall

def papStart (connid : UInt8) : PapSession :=
  { connid, infile := ⟨true, false, false, [], []⟩, outEof := false, outEop := false,
    comstate := [], queue := [], calls := [] }

/-! ## `markline` -/

def isLineEnd (ch : UInt8) : Bool := ch = chr '\n' ∨ ch = chr '\r'

/-- The inner loop of `markline`: one packet, until a line end or a full slot. -/
def fillLine : List UInt8 → List UInt8 → List UInt8 × Bool
  | [], line => (line, false)
  | ch :: packet, line =>
      if (line ++ [ch]).length ≥ blockSize / 5 then (line ++ [ch], true)
      else if isLineEnd ch then (line ++ [ch], true)
      else fillLine packet (line ++ [ch])

/-- The outer loop of `markline`. -/
def fillLines : List (List UInt8) → List UInt8 → List UInt8 × Bool
  | [], line => (line, false)
  | packet :: packets, line =>
      match fillLine packet line with
      | (line, true) => (line, true)
      | (line, false) => fillLines packets line

def markline (f : Mypapfile) : Mypapfile × Mark :=
  if f.iobuf = [] ∧ f.line = [] ∧ f.eof then (f, .eof)
  else
    let (line, stopped) := fillLines f.iobuf f.line
    -- without a line end the packets count as read
    let iobuf := if stopped then f.iobuf else []
    if f.iobuf ≠ [] ∧ ¬ stopped ∧ ¬ f.eof then ({ f with iobuf, line }, .more)
    else ({ f with iobuf, line := [] }, .line (if line = [] then [chr '\n'] else line))

/-! ## Printing -/

/-- The `'\4'` behind the last packet. -/
def endLast (iobuf : List (List UInt8)) : List (List UInt8) :=
  iobuf.dropLast ++ [iobuf.getLastD [] ++ [4]]

/-- Packets 0 to 4 go into the first buffer, the others into the second one, which is not put on the
queue when it is empty. -/
def putBuffers (iobuf : List (List UInt8)) (flag : PrnFlag) : List PrnBuf :=
  let first := (iobuf.take 5).flatten
  let second := ((iobuf.drop 5).take 5).flatten
  let firstFlag := if flag ≠ .normal ∧ iobuf.length > 5 then .normal else flag
  ⟨first, firstFlag⟩ :: if second = [] then [] else [⟨second, flag⟩]

/-- `ascpaprint`, whose fault is a write in front of `iobuf`. -/
def ascpaprint (s : PapSession) (flag : PrnFlag) : Except Stop PapSession :=
  if flag ≠ .normal ∧ s.infile.iobuf = [] then .error .fault
  else
    let iobuf := if flag = .normal then s.infile.iobuf else endLast s.infile.iobuf
    .ok { s with
      infile := { s.infile with print := true, iobuf := [] }
      queue := s.queue ++ putBuffers iobuf flag }

/-- Packets are received into their slots, from slot `i` on. -/
def receive : Nat → List (List UInt8) → Blocks → Blocks
  | _, [], m => m
  | i, packet :: packets, m =>
      let b := m (slot i).1
      receive (i + 1) packets
        (Function.update m (slot i).1 { b with data := writeMem b.data (slot i).2 packet })

namespace PapSession

/-- What `binpaprint` makes of a session.  `PF_BOT` is cleared where the start is written. -/
def printed (fmt : BinFormat) (flags : PrnFlag) (s : PapSession) (done : BinPrint) : PapSession :=
  { s with
    infile := { s.infile with
      print := true
      bot := if s.infile.bot ∧ fmt = .tbcp then false else s.infile.bot
      iobuf := [] }
    queue := s.queue ++ done.out.map (·.2)
    calls := s.calls ++ [⟨s.infile.iobuf, flags, done⟩] }

variable (format : DataFormat) (old : Blocks)

/-- `paprint`; the four buffers had the octets and sizes of `old` before the packets were
received. -/
def paprint (s : PapSession) (flags : PrnFlag) : Except Stop PapSession :=
  match format with
  | .none => ascpaprint s flags
  | .binary fmt =>
      let lens := s.infile.iobuf.map List.length
      match binpaprint fmt s.infile.bot lens flags (receive 0 s.infile.iobuf old) with
      | none => .error .fault
      | some done => .ok (s.printed fmt flags done)

/-! ## `PostScript` -/

def ops : PapOps Stop PapSession where
  bot s := s.infile.bot
  eof s := s.infile.eof
  clearBot s := { s with infile := { s.infile with bot := false } }
  markline s :=
    let (infile, mark) := Atalk.markline s.infile
    ({ s with infile }, mark)
  paprint flags s := s.paprint format old flags
  endFile s := { s with outEof := true }
  endPage s := { s with outEop := true }
  firstPacket s :=
    let iobuf := if s.infile.iobuf = [] then [[]] else s.infile.iobuf
    { s with infile := { s.infile with iobuf } }
  compush handler s := { s with comstate := handler :: s.comstate }
  compop s := { s with comstate := s.comstate.tail }

def handle (s : PapSession) : Handler → Except Stop (PapSession × Ch)
  | .psquery => .error .query
  | .psadobe => (ops format old).cmPsadobe s
  | .psswitch => .ok ((ops format old).cmPsswitch s)

/-- The loop of `PostScript`. -/
def postScriptLoop : Nat → Bool → PapSession → Except Stop PapSession
  | 0, _, _ => .error .fault
  | turns + 1, matched, s =>
      match s.comstate with
      | handler :: _ =>
          match s.handle format old handler with
          | .error stop => .error stop
          | .ok (s, .done) => postScriptLoop turns true s
          | .ok (s, .more) => .ok s
      | [] =>
          match (ops format old).command matched s with
          | .error stop => .error stop
          | .ok (s, true) => postScriptLoop turns matched s
          | .ok (s, false) => .ok s

/-- A line is matched, its handler switched to another, that one prints, and then the file is at
its end: four turns are enough. -/
def postScript (s : PapSession) : Except Stop PapSession := s.postScriptLoop format old 4 false

/-! ## `pap_session` -/

/-- The data response. -/
def dataResponse (s : PapSession) (q : Quantum) : Except Stop PapSession :=
  if q.first.connid ≠ s.connid ∨ q.first.command ≠ papData then .ok s
  else
    let eof := s.infile.eof || decide (q.first.eof ≠ 0)
    postScript format old { s with infile := { s.infile with eof, iobuf := q.packets } }

def dataResponses : PapSession → List Quantum → Except Stop PapSession
  | s, [] => .ok s
  | s, q :: quanta => do
      let s ← s.dataResponse format old q
      dataResponses s quanta

/-- The time-out, while it waits for the response to a request for data. -/
def timeOut (s : PapSession) : Except Stop PapSession :=
  if s.infile.print then
    paprint format old { s with infile := { s.infile with iobuf := [[]] } } .abort
  else .ok s

end PapSession

/-! ## The turns of the loop -/

section Turns

variable {format : DataFormat} {old : Blocks} {s s' : PapSession} {turns : Nat} {matched : Bool}
  {handler : Handler} {handlers : List Handler} {infile : Mypapfile} {text : List UInt8}
  {stop : Stop}

theorem postScriptLoop_done (hcom : s.comstate = handler :: handlers)
    (h : s.handle format old handler = .ok (s', .done)) :
    s.postScriptLoop format old (turns + 1) matched = s'.postScriptLoop format old turns true := by
  simp only [PapSession.postScriptLoop, hcom, h]

theorem postScriptLoop_more (hcom : s.comstate = handler :: handlers)
    (h : s.handle format old handler = .ok (s', .more)) :
    s.postScriptLoop format old (turns + 1) matched = .ok s' := by
  simp only [PapSession.postScriptLoop, hcom, h]

theorem postScriptLoop_error (hcom : s.comstate = handler :: handlers)
    (h : s.handle format old handler = .error stop) :
    s.postScriptLoop format old (turns + 1) matched = .error stop := by
  simp only [PapSession.postScriptLoop, hcom, h]

theorem postScriptLoop_command (hcom : s.comstate = []) :
    s.postScriptLoop format old (turns + 1) matched =
      match (PapSession.ops format old).command matched s with
      | .error stop => .error stop
      | .ok (s, true) => s.postScriptLoop format old turns matched
      | .ok (s, false) => .ok s := by
  simp only [PapSession.postScriptLoop, hcom]

/-- The end of a turn of a session. -/
theorem printPackets_eq : (PapSession.ops format old).printPackets matched s =
    if s.infile.eof then
      if matched then .ok { s with outEof := true }
      else PapSession.paprint format old { s with outEof := true, outEop := true } .eof
    else s.paprint format old .normal := rfl

/-- A turn where the job is being printed. -/
theorem postScriptLoop_begun (hcom : s.comstate = []) (hbot : s.infile.bot = false) :
    s.postScriptLoop format old (turns + 1) matched =
      (PapSession.ops format old).printPackets matched s := by
  have hbot' : (PapSession.ops format old).bot s = false := hbot
  rw [postScriptLoop_command hcom]
  simp only [PapOps.command, hbot', Bool.false_eq_true, if_false]
  cases (PapSession.ops format old).printPackets matched s <;> rfl

theorem postScriptLoop_eof (hcom : s.comstate = []) (hbot : s.infile.bot = true)
    (h : markline s.infile = (infile, .eof)) :
    s.postScriptLoop format old (turns + 1) matched = .ok { s with infile, outEof := true } := by
  have hbot' : (PapSession.ops format old).bot s = true := hbot
  have hmark : (PapSession.ops format old).markline s = ({ s with infile }, .eof) := by
    simp only [PapSession.ops, h]
  rw [postScriptLoop_command hcom]
  simp only [PapOps.command, hbot', if_true, hmark]
  rfl

theorem postScriptLoop_wait (hcom : s.comstate = []) (hbot : s.infile.bot = true)
    (h : markline s.infile = (infile, .more)) :
    s.postScriptLoop format old (turns + 1) matched = .ok { s with infile } := by
  have hbot' : (PapSession.ops format old).bot s = true := hbot
  have hmark : (PapSession.ops format old).markline s = ({ s with infile }, .more) := by
    simp only [PapSession.ops, h]
  rw [postScriptLoop_command hcom]
  simp only [PapOps.command, hbot', if_true, hmark]
  rfl

theorem postScriptLoop_match (hcom : s.comstate = []) (hbot : s.infile.bot = true)
    (h : markline s.infile = (infile, .line text)) (hmatch : commatch text = some handler) :
    s.postScriptLoop format old (turns + 1) matched =
      PapSession.postScriptLoop format old turns matched
        { s with infile, comstate := [handler] } := by
  have hbot' : (PapSession.ops format old).bot s = true := hbot
  have hmark : (PapSession.ops format old).markline s = ({ s with infile }, .line text) := by
    simp only [PapSession.ops, h]
  rw [postScriptLoop_command hcom]
  simp only [PapOps.command, hbot', if_true, hmark, hmatch]
  show PapSession.postScriptLoop format old turns matched
    { s with infile, comstate := handler :: s.comstate } = _
  rw [hcom]

theorem postScriptLoop_no_match (hcom : s.comstate = []) (hbot : s.infile.bot = true)
    (h : markline s.infile = (infile, .line text)) (hmatch : commatch text = none) :
    s.postScriptLoop format old (turns + 1) matched =
      (PapSession.ops format old).printPackets matched
        { s with infile := { infile with bot := false } } := by
  have hbot' : (PapSession.ops format old).bot s = true := hbot
  have hmark : (PapSession.ops format old).markline s = ({ s with infile }, .line text) := by
    simp only [PapSession.ops, h]
  rw [postScriptLoop_command hcom]
  simp only [PapOps.command, hbot', if_true, hmark, hmatch]
  show (match ((PapSession.ops format old).printPackets matched
      { s with infile := { infile with bot := false } } >>= fun s ↦ pure (s, false)) with
    | .error stop => Except.error stop
    | .ok (s, true) => PapSession.postScriptLoop format old turns matched s
    | .ok (s, false) => .ok s) = _
  cases (PapSession.ops format old).printPackets matched
    { s with infile := { infile with bot := false } } <;> rfl

/-! The handlers. -/

theorem handle_psadobe : s.handle format old .psadobe =
    if s.infile.eof then
      PapSession.paprint format old { s with
        outEof := true, outEop := true, comstate := s.comstate.tail
        infile := { s.infile with
          iobuf := if s.infile.iobuf = [] then [[]] else s.infile.iobuf } } .eof >>=
        fun s ↦ .ok (s, .done)
    else s.paprint format old .normal >>= fun s ↦ .ok (s, .more) := rfl

theorem handle_psswitch_eof (h : markline s.infile = (infile, .eof)) :
    s.handle format old .psswitch =
      .ok ({ s with infile, outEof := true, comstate := s.comstate.tail }, .done) := by
  simp only [PapSession.handle, PapOps.cmPsswitch, PapSession.ops, h]

theorem handle_psswitch_more (h : markline s.infile = (infile, .more)) :
    s.handle format old .psswitch = .ok ({ s with infile }, .more) := by
  simp only [PapSession.handle, PapOps.cmPsswitch, PapSession.ops, h]

theorem handle_psswitch_line (h : markline s.infile = (infile, .line text)) :
    s.handle format old .psswitch =
      .ok ({ s with
        infile
        comstate :=
          (if saysQuery text then .psquery else .psadobe) :: s.comstate.tail }, .done) := by
  simp only [PapSession.handle, PapOps.cmPsswitch, PapSession.ops, h]

end Turns

end PrintServer.Atalk
