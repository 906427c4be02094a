import PrintServer.Lib.Machine
import PrintServer.Atalk.BinExact

/-!
# Queries in a PAP session

The session of `PapJob`, one turn of its loops at a time, with the handlers of queries
(queries.c), the slot in which `markline` (file.c) keeps a line, and the buffer for replies that
`morespace` enlarges.  The copies and the uses of `iobuf` are recorded.
-/

namespace PrintServer.Atalk.Query

open Http (bytes chr)
open Lib

/-- The room for a line behind the packets. -/
def lineSlot : Nat := blockSize / 5

/-! ## Accesses -/

/-- A copy of `len` octets, where that many can be read and there is that much room, or the use of
an entry of `iobuf`. -/
inductive Access
  | copy (len : Int) (readable room : Nat)
  | iobuf (i : Int)
deriving DecidableEq

def Access.InBounds : Access → Prop
  | copy len readable room => 0 ≤ len ∧ len ≤ readable ∧ len ≤ room
  | iobuf i => 0 ≤ i ∧ i ≤ papMaxQuantum + 1

/-! ## The state -/

/-- `iobuf[PAP_MAXQUANTUM]`: the octets in the slot, some of them left over from older lines. -/
structure Slot where
  octets : Nat → UInt8
  len : Nat

def Slot.push (slot : Slot) (ch : UInt8) : Slot :=
  ⟨writeMem slot.octets slot.len [ch], slot.len + 1⟩

/-- `struct Mypapfile`.  `held` says that `pbuf` has not been given to the printer. -/
structure InFile where
  bot : Bool
  eof : Bool
  print : Bool
  iobuf : List (List UInt8)
  row : Nat
  col : Nat
  nextRow : Nat
  nextCol : Nat
  slot : Slot
  held : Bool

/-- `struct papfile`: what is between `pf_cur` and `pf_end` is `text`. -/
structure OutFile where
  eof : Bool
  eop : Bool
  len : Nat
  cur : Nat
  text : List UInt8

namespace OutFile

def stop (out : OutFile) : Nat := out.cur + out.text.length

/-- `CONSUME` -/
def consume (out : OutFile) (len : Nat) : OutFile :=
  if out.text.length ≤ len then { out with cur := 0, text := [] }
  else { out with cur := out.cur + len, text := out.text.drop len }

end OutFile

/-- The comments of `magics`, by their handlers, and those of `queries`. -/
inductive Comment
  | magic (handler : Handler)
  | font
  | default
deriving DecidableEq

/-- `comstate` has the comments with their flags.  `requested` is `HaveRequestData`, `busy` is
`matched` while `PostScript` runs, and `heap` says of the allocations to come whether they
succeed. -/
structure Session where
  connid : UInt8
  infile : InFile
  outfile : OutFile
  comstate : List (Comment × Nat)
  requested : Bool
  busy : Option Bool
  ended : Bool
  heap : List Bool
  accesses : List Access

/-- A session, with what the buffers had in them. -/
def start (connid : UInt8) (octets : Nat → UInt8) (heap : List Bool) : Session where
  connid := connid
  infile := ⟨true, false, false, [], 0, 0, 0, 0, ⟨octets, 0⟩, false⟩
  outfile := ⟨false, false, 0, 0, []⟩
  comstate := []
  requested := false
  busy := none
  ended := false
  heap := heap
  accesses := []

/-! ## `markline` -/

/-- The inner loop: the slot, the column and whether the line is at its end. -/
def fill : List UInt8 → Nat → Slot → Slot × Nat × Bool
  | [], j, slot => (slot, j, false)
  | ch :: packet, j, slot =>
      if (slot.push ch).len ≥ lineSlot then (slot.push ch, j, true)
      else if isLineEnd ch then (slot.push ch, j, true)
      else fill packet (j + 1) (slot.push ch)

structure Filled where
  slot : Slot
  row : Nat
  col : Nat
  stopped : Bool
  accesses : List Access

/-- The outer loop, over the packets from row `i` on. -/
def fillRows : List (List UInt8) → Nat → Nat → Slot → Filled
  | [], i, j, slot => ⟨slot, i, j, false, []⟩
  | packet :: packets, i, j, slot =>
      let (slot', j', stopped) := fill (packet.drop j) j slot
      let used : List Access :=
        [.iobuf i, .copy (slot'.len - slot.len) (packet.length - j) (lineSlot - slot.len)]
      if stopped then ⟨slot', i, j', true, used⟩
      else
        let rest := fillRows packets (i + 1) 0 slot'
        { rest with accesses := used ++ rest.accesses }

/-- What `markline` returns: 0, -1 or the length of a line. -/
inductive Mark
  | eof
  | more
  | line (len : Nat)
deriving DecidableEq

namespace Session

def note (s : Session) (accesses : List Access) : Session :=
  { s with accesses := s.accesses ++ accesses }

/-- The end of `markline`: the line is what is in the slot. -/
def endLine (s : Session) : Session × Mark :=
  let slot := if s.infile.slot.len = 0 then s.infile.slot.push (chr '\n') else s.infile.slot
  ({ s with infile := { s.infile with slot := { slot with len := 0 } } }, .line slot.len)

def markline (s : Session) : Session × Mark :=
  let f := s.infile
  let s := s.note [.iobuf papMaxQuantum]
  if f.iobuf = [] ∧ f.slot.len = 0 ∧ f.eof then (s, .eof)
  else if f.iobuf = [] then s.endLine
  else
    let filled := fillRows (f.iobuf.drop f.row) f.row f.col f.slot
    let f := { f with slot := filled.slot, nextRow := filled.row, nextCol := filled.col + 1 }
    let s := s.note filled.accesses
    if filled.stopped then endLine { s with infile := f }
    else
      -- no more data in the packets
      let f := { f with iobuf := [] }
      if f.eof then endLine { s with infile := f } else ({ s with infile := f }, .more)

def consumetomark (s : Session) : Session :=
  { s with infile := { s.infile with row := s.infile.nextRow, col := s.infile.nextCol } }

/-- The line that `markline` returned. -/
def lineText (s : Session) (len : Nat) : List UInt8 := readMem s.infile.slot.octets 0 len

/-! ## Replies -/

def alloc (s : Session) : Session × Bool :=
  match s.heap with
  | [] => (s, false)
  | granted :: heap => ({ s with heap }, granted)

/-- `bcopy(data, pf_end, len)` -/
def putText (s : Session) (data : List UInt8) (len : Int) : Session :=
  { s with outfile := { s.outfile with text := s.outfile.text ++ data } }.note
    [.copy len data.length (s.outfile.len - s.outfile.stop)]

def pfMorespace : Nat := 1024

def pullUp (s : Session) : Session :=
  let size := s.outfile.text.length
  { s with outfile := { s.outfile with cur := 0 } }.note
    (if s.outfile.cur = 0 then [] else [.copy size size s.outfile.len])

/-- When there is no more memory the data are left out. -/
def morespace (s : Session) (data : List UInt8) (len : Int) : Session :=
  let s := s.pullUp
  if (s.outfile.stop : Int) + len > s.outfile.len then
    let need := s.outfile.len + len.toNat
    let nsize := (need / pfMorespace + if need % pfMorespace = 0 then 0 else 1) * pfMorespace
    match s.alloc with
    | (s, false) => s
    | (s, true) => { s with outfile := { s.outfile with len := nsize } }.putText data len
  else s.putText data len

/-- `APPEND` -/
def append (s : Session) (data : List UInt8) (len : Int) : Session :=
  if (s.outfile.stop : Int) + len > s.outfile.len then s.morespace data len else s.putText data len

/-- A text with its length. -/
def reply (s : Session) (data : List UInt8) : Session := s.append data data.length

/-! ## `comstate` -/

/-- Without memory nothing is pushed. -/
def compush (s : Session) (c : Comment) : Session :=
  match s.alloc with
  | (s, true) => { s with comstate := (c, 0) :: s.comstate }
  | (s, false) => s

def compop (s : Session) : Session := { s with comstate := s.comstate.tail }

def comsetflags (s : Session) (flags : Nat) : Session :=
  { s with comstate := s.comstate.modifyHead fun c => (c.1, flags) }

/-- The handler is done, and `PostScript` goes on. -/
def done (s : Session) : Session := { s with busy := some true }

/-- `PostScript` returns. -/
def wait (s : Session) : Session := { s with busy := none }

/-! ## Printing -/

/-- `paprint`: the packets are printed, with `'\4'` in the last one when the format is
`AT_COMM_NONE`, and the buffers go to the printer. -/
def paprint (format : DataFormat) (flags : PrnFlag) (s : Session) : Session :=
  let iocnt := s.infile.iobuf.length
  let last : List Access :=
    if format = .none ∧ flags ≠ .normal then [.iobuf ((iocnt : Int) - 1)] else []
  let bot := if s.infile.bot ∧ format = .binary .tbcp then false else s.infile.bot
  { s with infile := { s.infile with print := true, bot, iobuf := [], held := false } }.note
    (last ++ (List.range iocnt).map fun i : Nat => Access.iobuf i)

end Session

/-! ## `queries` -/

structure QueryComment where
  begins : List UInt8
  ends : List UInt8
  comment : Comment

def queries : List QueryComment :=
  [⟨bytes "%%?BeginFontQuery", bytes "%%?EndFontQuery", .font⟩,
    ⟨bytes "%%?Begin", bytes "%%?End", .default⟩]

def commCont : List UInt8 := bytes "%%+"

/-- `comcmp` without `C_FULL`: the last octet of the line is at `stop`. -/
def begins (text str : List UInt8) : Bool := str.isPrefixOf text.dropLast

def querymatch (text : List UInt8) : Option Comment :=
  (queries.find? fun c => begins text c.begins).map (·.comment)

/-- The offset behind the first `ch` of a line, or behind the line. -/
def behind (ch : UInt8) (text : List UInt8) : Nat :=
  (text.dropLast.takeWhile (· ≠ ch)).length + 1

/-- The loop over blanks.  It looks at `n` octets, the last of which is behind the line: from there
on the length of the copy is negative, wherever the loop stops. -/
def skipBlanks (octets : Nat → UInt8) : Nat → Nat → Nat
  | p, 0 => p
  | p, n + 1 => if octets p = chr ' ' then skipBlanks octets (p + 1) n else p

/-- The words of a text without line ends. -/
def fontWords (text : List UInt8) : List (List UInt8) :=
  (text.splitOnP fun ch => isBlank ch || isLineEnd ch).filter (· ≠ [])

namespace Session

/-- `cq_default` -/
def cqDefault (s : Session) (flags : Nat) : Session :=
  match s.markline with
  | (s, .eof) => s.wait
  | (s, .more) => s.wait
  | (s, .line len) =>
      if flags = 0 then (s.comsetflags 1).consumetomark
      else if begins (s.lineText len) (bytes "%%?End") then
        let p := behind (chr ':') (s.lineText len)
        let p := skipBlanks s.infile.slot.octets p (len + 1 - p)
        let octets := writeMem s.infile.slot.octets (len - 1) [chr '\n']
        let s := { s with infile := { s.infile with slot := { s.infile.slot with octets } } }
        ((s.append (readMem octets p (len - p)) ((len : Int) - p)).compop.consumetomark).done
      else s.consumetomark

/-- A name in the answer to a query for fonts: it is copied to a buffer of its own, with a 0 behind
it. -/
def fontName (s : Session) (word : List UInt8) : Session :=
  let s := s.note [.copy (word.length + 1) (word.length + 1) 256]
  (((s.reply (bytes "/")).reply (word.takeWhile (· ≠ 0))).reply (bytes ":")).reply (bytes "No\n")

/-- `cq_font_answer` -/
def cqFontAnswer (s : Session) (text : List UInt8) : Session :=
  (fontWords text).foldl fontName s

/-- What is asked for in a line of a query for fonts. -/
def fontText (flags : Nat) (text : List UInt8) : List UInt8 :=
  if flags = 0 then text.dropLast.drop (behind (chr ':') text)
  else if flags = 1 ∧ begins text commCont then text.dropLast.drop (behind (chr ' ') text)
  else []

/-- `cq_font` -/
def cqFont (s : Session) (flags : Nat) : Session :=
  match s.markline with
  | (s, .eof) => { s with ended := true }
  | (s, .more) => s.wait
  | (s, .line len) =>
      let text := s.lineText len
      if flags = 0 then ((s.comsetflags 1).cqFontAnswer (fontText flags text)).consumetomark
      else if flags = 1 ∧ begins text commCont then
        (s.cqFontAnswer (fontText flags text)).consumetomark
      else
        let s := s.comsetflags 2
        if begins text (bytes "%%?EndFontQuery") then
          ((s.reply (bytes "*\n")).compop.consumetomark).done
        else s.consumetomark

/-! ## `magics` -/

def endFile (s : Session) : Session := { s with outfile := { s.outfile with eof := true } }

def cmPsquery (s : Session) : Session :=
  match s.markline with
  | (s, .eof) => s.endFile.compop.done
  | (s, .more) => s.wait
  | (s, .line len) =>
      if s.infile.bot then { s with infile := { s.infile with bot := false } }.consumetomark
      else match querymatch (s.lineText len) with
        | some c => (s.compush c).done
        | none => s.consumetomark

/-! ## `PostScript` -/

/-- The accesses being recorded, no operation fails. -/
def ops (format : DataFormat) : PapOps Empty Session where
  bot s := s.infile.bot
  eof s := s.infile.eof
  clearBot s := { s with infile := { s.infile with bot := false } }
  markline s :=
    match s.markline with
    | (s, .eof) => (s, .eof)
    | (s, .more) => (s, .more)
    | (s, .line len) => (s, .line (s.lineText len))
  paprint flags s := .ok (s.paprint format flags)
  endFile s := s.endFile
  endPage s := { s with outfile := { s.outfile with eop := true } }
  firstPacket s :=
    let iobuf := if s.infile.iobuf = [] then [[]] else s.infile.iobuf
    { s with infile := { s.infile with iobuf } }.note
      [.iobuf 0, .iobuf ((iobuf.length : Int) - 1)]
  compush handler s := s.compush (.magic handler)
  compop s := s.compop

def certain {α : Type} : Except Empty α → α
  | .ok a => a
  | .error e => e.elim

def settle : Session × Ch → Session
  | (s, .done) => s.done
  | (s, .more) => s.wait

variable (format : DataFormat)

def cmPsadobe (s : Session) : Session := settle (certain ((ops format).cmPsadobe s))

def cmPsswitch (s : Session) : Session := settle ((ops format).cmPsswitch s)

def printPackets (matched : Bool) (s : Session) : Session :=
  (certain ((ops format).printPackets matched s)).wait

def command (matched : Bool) (s : Session) : Session :=
  match certain ((ops format).command matched s) with
  | (s, true) => s
  | (s, false) => s.wait

/-- A turn of the loop of `PostScript`, or of the handler's. -/
def turn (matched : Bool) (s : Session) : Session :=
  match s.comstate with
  | [] => s.command format matched
  | (.magic .psquery, _) :: _ => s.cmPsquery
  | (.magic .psadobe, _) :: _ => s.cmPsadobe format
  | (.magic .psswitch, _) :: _ => s.cmPsswitch format
  | (.font, flags) :: _ => s.cqFont flags
  | (.default, flags) :: _ => s.cqDefault flags

/-! The turns on this session. -/

variable {format} {matched : Bool} {s : Session}

theorem cmPsadobe_eq : s.cmPsadobe format =
    if s.infile.eof then
      let s := { s with outfile := { s.outfile with eof := true, eop := true } }.compop
      let iobuf := if s.infile.iobuf = [] then [[]] else s.infile.iobuf
      let s := { s with infile := { s.infile with iobuf } }.note
        [.iobuf 0, .iobuf ((iobuf.length : Int) - 1)]
      (s.paprint format .eof).done
    else (s.paprint format .normal).wait := by
  have heof : (ops format).eof s = s.infile.eof := rfl
  unfold cmPsadobe PapOps.cmPsadobe
  rw [heof]
  cases s.infile.eof <;> rfl

theorem cmPsswitch_eq : s.cmPsswitch format =
    match s.markline with
    | (s, .eof) => s.endFile.compop.done
    | (s, .more) => s.wait
    | (s, .line len) =>
        let handler := if saysQuery (s.lineText len) then .psquery else .psadobe
        (s.compop.compush (.magic handler)).done := by
  unfold cmPsswitch PapOps.cmPsswitch
  simp only [ops]
  rcases s.markline with ⟨s, _ | _ | len⟩ <;> rfl

theorem printPackets_eq : s.printPackets format matched =
    if s.infile.eof then
      let s := s.endFile
      if matched then s.wait
      else (paprint format .eof { s with outfile := { s.outfile with eop := true } }).wait
    else (s.paprint format .normal).wait := by
  have heof : (ops format).eof s = s.infile.eof := rfl
  unfold printPackets PapOps.printPackets
  rw [heof]
  cases s.infile.eof with
  | false => rfl
  | true => cases matched <;> rfl

theorem command_eq : s.command format matched =
    if s.infile.bot then
      match s.markline with
      | (s, .eof) => s.endFile.wait
      | (s, .more) => s.wait
      | (s, .line len) =>
          match commatch (s.lineText len) with
          | some handler => s.compush (.magic handler)
          | none => printPackets format matched { s with infile := { s.infile with bot := false } }
    else s.printPackets format matched := by
  have hbot : (ops format).bot s = s.infile.bot := rfl
  unfold command PapOps.command
  rw [hbot]
  cases s.infile.bot with
  | false =>
      simp only [Bool.false_eq_true, if_false, printPackets]
      cases (ops format).printPackets matched s with
      | ok s => rfl
      | error e => exact e.elim
  | true =>
      have hmark : (ops format).markline s = match s.markline with
        | (s, .eof) => (s, .eof)
        | (s, .more) => (s, .more)
        | (s, .line len) => (s, .line (s.lineText len)) := rfl
      rw [hmark]
      rcases s.markline with ⟨t, _ | _ | len⟩
      · rfl
      · rfl
      · simp only [if_true, printPackets]
        cases commatch (t.lineText len) with
        | some handler => rfl
        | none =>
            show (match certain ((ops format).printPackets matched
                { t with infile := { t.infile with bot := false } } >>= fun s ↦
                  pure (s, false)) with
              | (s, true) => s
              | (s, false) => s.wait) = _
            cases (ops format).printPackets matched
                { t with infile := { t.infile with bot := false } } with
            | ok s => rfl
            | error e => exact e.elim

end Session

/-! ## `pap_session` -/

/-- The packets of a response, with their headers, and the octets that are in the first slot before
them. -/
structure Response where
  first : List UInt8
  rest : List (List UInt8)
  rest_lt : rest.length < papMaxQuantum
  data_le : ∀ p ∈ first :: rest, p.length ≤ papMaxData + 4
  old : Nat → UInt8

namespace Response

def packets (r : Response) : List (List UInt8) := r.first :: r.rest

/-- What the session reads of the header of the first packet. -/
def header (r : Response) (i : Nat) : UInt8 := writeMem r.old 0 r.first i

end Response

namespace Session

/-- The sanity check. -/
def accepts (s : Session) (r : Response) : Bool :=
  r.header 0 = s.connid ∧ r.header 1 = papData

/-- The headers are moved away, one packet after the other. -/
def headerAccesses : Nat → List (List UInt8) → List Access
  | _, [] => []
  | i, packet :: packets =>
      .iobuf i :: .copy ((packet.length : Int) - 4) (packet.length - 4) lineSlot ::
        headerAccesses (i + 1) packets

/-- Asks for data.  The line slot is in a buffer with `octets` if the last buffers went to the
printer. -/
def request (s : Session) (octets : Nat → UInt8) : Session :=
  let f := s.infile
  let slot := if f.held then f.slot else { f.slot with octets }
  { s with infile := { f with slot, held := true }, requested := true }

/-- The data response. -/
def receive (s : Session) (r : Response) : Session :=
  let s := s.note [.iobuf 0]
  if ¬ s.accepts r then s
  else
    let infile : InFile := { s.infile with
      eof := s.infile.eof || decide (r.header 2 ≠ 0)
      iobuf := r.packets.map (·.drop 4)
      row := 0, col := 0, nextRow := 0, nextCol := 0 }
    { s with infile, requested := false, busy := some false }.note (headerAccesses 0 r.packets)

/-- A reply to the client's request for data, of at most one packet. -/
def send (s : Session) : Session :=
  let out := s.outfile
  let size := out.text.length
  let cc := min size papMaxData
  let s := s.note [.iobuf (papMaxQuantum + 1), .copy cc size papMaxData]
  let out := out.consume cc
  if size ≤ papMaxData ∧ out.eof then
    { s with
      outfile := { out with eof := false, eop := false }
      infile := { s.infile with bot := true, eof := false, print := false } }
  else { s with outfile := out }

/-- The client is silent: a job that is being printed is ended. -/
def timeOut (format : DataFormat) (s : Session) : Session :=
  let s := { s with ended := true }
  if s.infile.print ∧ s.infile.held then
    paprint format .abort ({ s with infile := { s.infile with iobuf := [[]] } }.note [.iobuf 0])
  else s

end Session

inductive Label
  | request (octets : Nat → UInt8)
  | receive (r : Response)
  | turn
  | send
  | timeOut

def step (format : DataFormat) (s : Session) (a : Label) : Option Session :=
  if s.ended then none
  else match a, s.busy with
    | .turn, some matched => some (s.turn format matched)
    | .request octets, none => if s.requested then none else some (s.request octets)
    | .receive r, none => if s.requested then some (s.receive r) else none
    | .send, none => if s.outfile.text = [] then none else some s.send
    | .timeOut, none => some (s.timeOut format)
    | _, _ => none

/-- A session, whatever the client does. -/
def papMachine (format : DataFormat) (connid : UInt8) (octets : Nat → UInt8) (heap : List Bool) :
    Machine Session Label where
  init := start connid octets heap
  step := step format

end PrintServer.Atalk.Query
