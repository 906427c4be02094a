import PrintServer.Atalk.PapFidelity

/-!
# Jobs in a binary format

What binpaprint puts on the output queue is the start, the encoded data and the end, except that the
start is missing in TBCP when the first line of the job is not a magic line.
-/

namespace PrintServer.Atalk

open Http (bytes chr)
open Lib

/-! ## Jobs -/

/-- The end-of-file mark in a last response, or a client that sends nothing more. -/
inductive Ending
  | last (q : Quantum)
  | timeOut

def Ending.quanta : Ending → List Quantum
  | last q => [q]
  | timeOut => []

def Ending.run (fmt : BinFormat) (old : Blocks) (ending : Ending) (s : PapSession) :
    Except Stop PapSession :=
  match ending with
  | last q => s.dataResponse (.binary fmt) old q
  | timeOut => s.timeOut (.binary fmt) old

structure BinJob (connid : UInt8) where
  body : List Quantum
  ending : Ending
  asked : ∀ q ∈ body ++ ending.quanta, q.first.connid = connid ∧ q.first.command = papData
  unmarked : ∀ q ∈ body, q.first.eof = 0
  marked : ∀ q ∈ ending.quanta, q.first.eof ≠ 0

/-- The line at the start of `data`, behind what there is of it already.  It can be cut by the end
of the file. -/
def firstText (line data : List UInt8) (ended : Bool) : Option (List UInt8) :=
  let (line, stopped) := fillLine data line
  if stopped ∨ ended then some (if line = [] then [chr '\n'] else line) else none

namespace BinJob

variable {connid : UInt8} (fmt : BinFormat) (old : Blocks) (job : BinJob connid)

def data : List UInt8 := dataOf (job.body ++ job.ending.quanta)

/-- A job that is given up has a first line only if its end was seen. -/
def firstLine : Option (List UInt8) := firstText [] job.data (! job.ending.quanta.isEmpty)

def run : Except Stop PapSession :=
  ((papStart connid).dataResponses (.binary fmt) old job.body).bind
    (job.ending.run fmt old)

end BinJob

/-! ## What is to be printed -/

namespace PapSession

/-- What was put on the output queue. -/
def text (s : PapSession) : List UInt8 := s.queue.flatMap (·.data)

/-- The data that were handed to `binpaprint`. -/
def handed (s : PapSession) : List UInt8 := s.calls.flatMap (·.packets.flatten)

structure Exact (fmt : BinFormat) (s : PapSession) : Prop where
  text : s.text = fmt.start ++ fmt.code.encode s.handed ++ ctrlD :: fmt.closing
  undone : fmt.code.decode (fmt.code.encode s.handed) = s.handed
  sound : ∀ c ∈ s.calls, c.Sound

end PapSession

/-- The session does not fail, and what it prints, if it prints, is exact. -/
def BinJob.Exact {connid : UInt8} (fmt : BinFormat) (old : Blocks) (job : BinJob connid) : Prop :=
  job.run fmt old ≠ .error .fault ∧
    ∀ s, job.run fmt old = .ok s → s.calls ≠ [] → s.Exact fmt

/-! ## The packets in the buffers -/

section Receive

variable {m : Blocks} {i j n : Nat}

theorem slot_lt (h : j < i) (hsame : (slot j).1 = (slot i).1) :
    (slot j).2 + blockSize / 5 ≤ (slot i).2 := by
  unfold slot blockSize at *
  split at hsame
  · split at hsame
    · rw [if_pos (by assumption), if_pos (by assumption)]
      show j * (10220 / 5) + 10220 / 5 ≤ i * (10220 / 5)
      omega
    · exact absurd hsame (show ¬ (2 : Fin 4) = 3 by decide)
  · rw [if_neg (by assumption), if_neg (by omega)]
    show (j - 5) * (10220 / 5) + 10220 / 5 ≤ (i - 5) * (10220 / 5)
    omega

/-- A packet is not touched by those behind it. -/
theorem readMem_receive_of_lt (packets : List (List UInt8)) (hij : j < i) (hn : n ≤ blockSize / 5) :
    readMem (receive i packets m (slot j).1).data (slot j).2 n =
      readMem (m (slot j).1).data (slot j).2 n := by
  induction packets generalizing i m with
  | nil => rfl
  | cons packet packets ih =>
      rw [receive, ih (by omega)]
      by_cases hsame : (slot j).1 = (slot i).1
      · have hlt := slot_lt hij hsame
        rw [hsame, Function.update_self]
        exact readMem_writeMem_of_le (by omega)
      · rw [Function.update_of_ne hsame]

theorem held_receive (packets : List (List UInt8)) (i : Nat) (m : Blocks)
    (hlen : ∀ p ∈ packets, p.length ≤ blockSize / 5) (n : Nat) (packet : List UInt8)
    (hn : packets[n]? = some packet) :
    readMem (receive i packets m (slot (i + n)).1).data (slot (i + n)).2 packet.length =
      packet := by
  induction packets generalizing i m n with
  | nil => contradiction
  | cons p packets ih =>
      obtain ⟨hp, hps⟩ := List.forall_mem_cons.mp hlen
      rw [receive]
      cases n with
      | zero =>
          obtain rfl : p = packet := by simpa using hn
          show readMem (receive (i + 1) packets _ (slot i).1).data (slot i).2
            p.length = p
          rw [readMem_receive_of_lt packets (Nat.lt_add_one i) hp, Function.update_self]
          exact readMem_writeMem
      | succ n =>
          have hslot : i + (n + 1) = i + 1 + n := by omega
          rw [hslot]
          exact ih (i + 1) _ hps n (by simpa using hn)

end Receive

/-- Packets as a response has them, or fewer. -/
structure Small (packets : List (List UInt8)) : Prop where
  each : ∀ p ∈ packets, p.length ≤ blockSize / 5
  all : packets.flatten.length ≤ 4096

theorem Small.held {packets : List (List UInt8)} (h : Small packets) (m : Blocks) :
    Held (receive 0 packets m) packets := by
  intro n packet hn
  have hheld := held_receive packets 0 m h.each n packet hn
  rw [Nat.zero_add] at hheld
  exact hheld

theorem length_flatten_le {packets : List (List UInt8)} {n : Nat}
    (h : ∀ p ∈ packets, p.length ≤ n) : packets.flatten.length ≤ packets.length * n := by
  induction packets with
  | nil => exact Nat.zero_le _
  | cons p packets ih =>
      obtain ⟨hp, hps⟩ := List.forall_mem_cons.mp h
      have hrest := ih hps
      rw [List.flatten_cons, List.length_append, List.length_cons, Nat.succ_mul]
      omega

theorem Quantum.small (q : Quantum) : Small q.packets := by
  have heach : ∀ p ∈ q.packets, p.length ≤ papMaxData := by
    intro p hp
    rw [Quantum.packets, List.mem_map] at hp
    obtain ⟨packet, -, rfl⟩ := hp
    exact packet.data_le
  have hall := length_flatten_le heach
  have hrest := q.rest_lt
  have hlen : q.packets.length = q.rest.length + 1 := by
    rw [Quantum.packets, List.length_map, List.length_cons]
  unfold papMaxData at heach hall
  unfold papMaxQuantum at hrest
  constructor
  · intro p hp
    exact Nat.le_trans (heach p hp) (by decide)
  · omega

theorem small_nil : Small [] := ⟨fun _ hp ↦ by contradiction, Nat.zero_le _⟩

theorem small_empty : Small [[]] :=
  ⟨fun p hp ↦ by rw [List.mem_singleton.mp hp]; exact Nat.zero_le _, Nat.zero_le _⟩

/-! ## One call of `paprint` -/

variable {fmt : BinFormat} {old : Blocks} {b : Bool} {s s' : PapSession} {flags : PrnFlag}

theorem text_printed (done : BinPrint) : (s.printed fmt flags done).text =
    s.text ++ done.out.flatMap (·.2.data) := by
  rw [PapSession.text, PapSession.printed, List.flatMap_append, List.flatMap_map]
  rfl

theorem handed_printed (done : BinPrint) : (s.printed fmt flags done).handed =
    s.handed ++ s.infile.iobuf.flatten := by
  rw [PapSession.handed, PapSession.printed, List.flatMap_append, List.flatMap_singleton]
  rfl

theorem calls_printed (done : BinPrint) : (s.printed fmt flags done).calls ≠ [] :=
  List.append_ne_nil_of_right_ne_nil _ (List.cons_ne_nil _ _)

/-- With the start that is still to come, the start and what was handed over are printed.  `b` says
whether the flag of the start was set at the first call. -/
structure Ready (fmt : BinFormat) (b : Bool) (s : PapSession) : Prop where
  text : s.text ++ startText fmt s.infile.bot = startText fmt b ++ fmt.code.encode s.handed
  sound : ∀ c ∈ s.calls, c.Sound

/-- The end is printed, too. -/
structure Closed (fmt : BinFormat) (b : Bool) (s : PapSession) : Prop where
  text : s.text = startText fmt b ++ fmt.code.encode s.handed ++ ctrlD :: fmt.closing
  sound : ∀ c ∈ s.calls, c.Sound
  called : s.calls ≠ []

theorem ready_of_no_calls (h : s.calls = []) (hqueue : s.queue = []) :
    Ready fmt s.infile.bot s := by
  constructor
  · rw [PapSession.text, PapSession.handed, h, hqueue]
    exact (List.append_nil _).symm
  · rw [h]
    exact fun _ hc ↦ by contradiction

theorem sound_printed (h : ∀ c ∈ s.calls, c.Sound) {done : BinPrint}
    (hdone : BinCall.Sound ⟨s.infile.iobuf, flags, done⟩) :
    ∀ c ∈ (s.printed fmt flags done).calls, c.Sound := by
  intro c hc
  rcases List.mem_append.mp hc with hc | hc
  · exact h c hc
  · rw [List.mem_singleton.mp hc]
    exact hdone

/-- Behind a call there is no start to come. -/
theorem startText_printed (done : BinPrint) :
    startText fmt (s.printed fmt flags done).infile.bot = [] := by
  show startText fmt (if s.infile.bot ∧ fmt = .tbcp then false else s.infile.bot) = []
  unfold startText
  cases fmt <;> cases s.infile.bot <;> rfl

theorem paprint_eq {done : BinPrint}
    (h : binpaprint fmt s.infile.bot (s.infile.iobuf.map List.length) flags
      (receive 0 s.infile.iobuf old) = some done) :
    s.paprint (.binary fmt) old flags = .ok (s.printed fmt flags done) := by
  simp only [PapSession.paprint, h]

theorem Ready.paprint (h : Ready fmt b s) (hsmall : Small s.infile.iobuf) :
    ∃ done, s.paprint (.binary fmt) old .normal = .ok (s.printed fmt .normal done) ∧
      Ready fmt b (s.printed fmt .normal done) := by
  have hheld := hsmall.held old
  have hdone := @binpaprint_normal fmt _ _ s.infile.bot hheld hsmall.all
  refine ⟨_, paprint_eq hdone, ?_, ?_⟩
  · rw [startText_printed, List.append_nil, text_printed, handed_printed, EscapeCode.encode_append,
      ← List.append_assoc, ← h.text]
    simp only [List.flatMap_singleton, List.append_assoc]
  · exact sound_printed h.sound (binpaprint_sound hheld hsmall.all hdone)

theorem Ready.paprint_end (h : Ready fmt b s) (hsmall : Small s.infile.iobuf)
    (hflags : flags ≠ .normal) :
    ∃ done, s.paprint (.binary fmt) old flags = .ok (s.printed fmt flags done) ∧
      Closed fmt b (s.printed fmt flags done) := by
  have hheld := hsmall.held old
  have hdone := @binpaprint_end fmt _ _ s.infile.bot flags hflags hheld hsmall.all
  refine ⟨_, paprint_eq hdone, ?_, ?_, calls_printed _⟩
  · rw [text_printed, handed_printed, EscapeCode.encode_append,
      ← List.append_assoc (startText fmt b), ← h.text]
    simp only [List.flatMap_cons, List.flatMap_nil, List.append_nil, List.append_assoc]
  · exact sound_printed h.sound (binpaprint_sound hheld hsmall.all hdone)

/-! ## One response -/

/-- Nothing is printed yet. -/
structure Fresh (s : PapSession) : Prop where
  queue : s.queue = []
  calls : s.calls = []
  bot : s.infile.bot = true
  print : s.infile.print = false

/-- The job is being printed, by the handler of a magic line or without one. -/
structure Going (fmt : BinFormat) (b : Bool) (s : PapSession) : Prop where
  ready : Ready fmt b s
  called : s.calls ≠ []
  print : s.infile.print = true
  way : s.comstate = [.psadobe] ∧ b = true ∧ s.infile.line = [] ∨
    s.comstate = [] ∧ b = false ∧ s.infile.bot = false

/-- The first line is behind the session. -/
def Open (fmt : BinFormat) (b : Bool) (s : PapSession) : Prop :=
  Going fmt b s ∨ Fresh s ∧ s.comstate = [.psswitch] ∧ b = true

/-- The job is printed, or it got lost behind the line of a magic comment. -/
def Ended (fmt : BinFormat) (b : Bool) (s : PapSession) : Prop :=
  Closed fmt b s ∨ s.calls = [] ∧ b = true

/-- Where a response leaves the session, `ended` being the mark in it. -/
def Behind (fmt : BinFormat) (b ended : Bool) (connid : UInt8) : Except Stop PapSession → Prop
  | .error stop => stop = .query ∧ b = true
  | .ok s => s.connid = connid ∧ s.infile.eof = ended ∧
      if ended then Ended fmt b s else Open fmt b s

variable {turns : Nat} {matched : Bool}

/-- The handler of a magic line prints the packets, and at the end of the file it is done. -/
theorem adobe_behind (hcom : s.comstate = [.psadobe]) (hline : s.infile.line = [])
    (hready : Ready fmt true s) (hsmall : Small s.infile.iobuf) :
    Behind fmt true s.infile.eof s.connid
      (s.postScriptLoop (.binary fmt) old (turns + 2) matched) := by
  cases heof : s.infile.eof with
  | false =>
      obtain ⟨done, hprint, hnext⟩ := @Ready.paprint fmt old true s hready hsmall
      have hhandle : s.handle (.binary fmt) old .psadobe =
          .ok (s.printed fmt .normal done, .more) := by
        rw [handle_psadobe, heof, if_neg Bool.false_ne_true, hprint]
        rfl
      rw [postScriptLoop_more hcom hhandle]
      exact ⟨rfl, heof, .inl ⟨hnext, calls_printed done, rfl, .inl ⟨hcom, rfl, hline⟩⟩⟩
  | true =>
      let t : PapSession := { s with
        outEof := true, outEop := true, comstate := s.comstate.tail
        infile := { s.infile with
          iobuf := if s.infile.iobuf = [] then [[]] else s.infile.iobuf } }
      have hsmall' : Small t.infile.iobuf := by
        show Small (if s.infile.iobuf = [] then [[]] else s.infile.iobuf)
        split
        · exact small_empty
        · exact hsmall
      obtain ⟨done, hprint, hclosed⟩ := @Ready.paprint_end fmt old true t .eof
        ⟨hready.text, hready.sound⟩ hsmall' (by decide)
      have hhandle : s.handle (.binary fmt) old .psadobe =
          .ok (t.printed fmt .eof done, .done) := by
        rw [handle_psadobe, heof, if_pos rfl]
        show (t.paprint (.binary fmt) old .eof >>= fun s ↦ .ok (s, Ch.done)) = _
        rw [hprint]
        rfl
      have hcom' : (t.printed fmt .eof done).comstate = [] := by
        show s.comstate.tail = []
        rw [hcom]
        rfl
      have hmark : markline (t.printed fmt .eof done).infile =
          ((t.printed fmt .eof done).infile, .eof) := markline_at_end rfl hline heof
      -- in the last turn the file is at its end, whether the start was written or not
      have hlast : (t.printed fmt .eof done).postScriptLoop (.binary fmt) old (turns + 1) true =
          .ok { t.printed fmt .eof done with outEof := true } := by
        have heof' : (t.printed fmt .eof done).infile.eof = true := heof
        cases hbot : (t.printed fmt .eof done).infile.bot with
        | true => exact postScriptLoop_eof hcom' hbot hmark
        | false =>
            rw [postScriptLoop_begun hcom' hbot, printPackets_eq, if_pos heof', if_pos rfl]
      have hloop : s.postScriptLoop (.binary fmt) old (turns + 2) matched =
          .ok { t.printed fmt .eof done with outEof := true } :=
        (postScriptLoop_done hcom hhandle).trans hlast
      rw [hloop]
      exact ⟨rfl, heof, .inl ⟨hclosed.text, hclosed.sound, hclosed.called⟩⟩

/-- Without a handler the loop prints the packets. -/
theorem plain_behind (hcom : s.comstate = []) (hbot : s.infile.bot = false)
    (hready : Ready fmt false s) (hsmall : Small s.infile.iobuf) :
    Behind fmt false s.infile.eof s.connid
      ((PapSession.ops (.binary fmt) old).printPackets false s) := by
  cases heof : s.infile.eof with
  | false =>
      obtain ⟨done, hprint, hnext⟩ := @Ready.paprint fmt old false s hready hsmall
      rw [printPackets_eq, heof, if_neg Bool.false_ne_true, hprint]
      have hbot' : (s.printed fmt .normal done).infile.bot = false := by
        show (if s.infile.bot ∧ fmt = .tbcp then false else s.infile.bot) = false
        rw [hbot]
        split <;> rfl
      exact ⟨rfl, heof, .inl ⟨hnext, calls_printed done, rfl, .inr ⟨hcom, rfl, hbot'⟩⟩⟩
  | true =>
      obtain ⟨done, hprint, hclosed⟩ := @Ready.paprint_end fmt old false
        { s with outEof := true, outEop := true } .eof ⟨hready.text, hready.sound⟩ hsmall
        (by decide)
      rw [printPackets_eq, heof, if_pos rfl, if_neg Bool.false_ne_true, hprint]
      exact ⟨rfl, heof, .inl hclosed⟩

/-- What `markline` returns of a file with packets is the first text of what it holds. -/
theorem markline_eq {f : Mypapfile} (hiobuf : f.iobuf ≠ []) :
    (∃ text iobuf, markline f = ({ f with iobuf, line := [] }, .line text) ∧
        (iobuf = f.iobuf ∨ iobuf = [] ∧ f.eof = true) ∧
        firstText f.line f.iobuf.flatten f.eof = some text) ∨
      f.eof = false ∧ firstText f.line f.iobuf.flatten false = none ∧
        markline f =
          ({ f with iobuf := [], line := (fillLine f.iobuf.flatten f.line).1 }, .more) := by
  unfold markline firstText
  rw [if_neg (fun h ↦ hiobuf h.1), fillLines_eq]
  cases hfill : fillLine f.iobuf.flatten f.line with
  | mk line stopped =>
      cases stopped with
      | true =>
          exact .inl ⟨if line = [] then [chr '\n'] else line, f.iobuf, by simp, .inl rfl, by simp⟩
      | false =>
          cases heof : f.eof with
          | true =>
              exact .inl
                ⟨if line = [] then [chr '\n'] else line, [], by simp, .inr ⟨rfl, rfl⟩, by simp⟩
          | false => exact .inr ⟨rfl, by simp, by simp [hiobuf]⟩

theorem small_of {iobuf iobuf' : List (List UInt8)} {eof : Bool} (h : Small iobuf)
    (hsub : iobuf' = iobuf ∨ iobuf' = [] ∧ eof = true) : Small iobuf' := by
  rcases hsub with rfl | ⟨rfl, -⟩
  · exact h
  · exact small_nil

theorem ready_of_fresh (h : Fresh s) : Ready fmt true s := by
  have hready := @ready_of_no_calls fmt s h.calls h.queue
  rw [h.bot] at hready
  exact hready

/-- The second look at the first line tells a query from a job.  When the file is read to its end
there is nothing to look at, and the job is lost. -/
theorem switch_behind (hfresh : Fresh s) (hcom : s.comstate = [.psswitch])
    (hend : s.infile.iobuf = [] → s.infile.line = [] ∧ s.infile.eof = true)
    (hsmall : Small s.infile.iobuf) :
    Behind fmt true s.infile.eof s.connid
      (s.postScriptLoop (.binary fmt) old (turns + 3) matched) := by
  by_cases hiobuf : s.infile.iobuf = []
  · -- the job ended with its first line
    obtain ⟨hline, heof⟩ := hend hiobuf
    have hmark := markline_at_end hiobuf hline heof
    have hloop : s.postScriptLoop (.binary fmt) old (turns + 3) matched =
        .ok { s with outEof := true, comstate := s.comstate.tail } := by
      have hnil : s.comstate.tail = [] := by
        rw [hcom]
        rfl
      rw [postScriptLoop_done hcom (handle_psswitch_eof hmark)]
      exact postScriptLoop_eof hnil hfresh.bot hmark
    rw [hloop, heof]
    exact ⟨rfl, heof, .inr ⟨hfresh.calls, rfl⟩⟩
  · rcases markline_eq hiobuf with ⟨text, iobuf, hmark, hsub, -⟩ | ⟨heof, -, hmark⟩
    · -- a query line ends the job, any other starts the document
      by_cases hquery : saysQuery text = true
      · have hloop : s.postScriptLoop (.binary fmt) old (turns + 3) matched = .error .query := by
          rw [postScriptLoop_done hcom (handle_psswitch_line hmark), hquery]
          exact postScriptLoop_error rfl rfl
        rw [hloop]
        exact ⟨rfl, rfl⟩
      · let t : PapSession := { s with
          infile := { s.infile with iobuf, line := [] }, comstate := [.psadobe] }
        have hloop : s.postScriptLoop (.binary fmt) old (turns + 3) matched =
            t.postScriptLoop (.binary fmt) old (turns + 2) true := by
          rw [postScriptLoop_done hcom (handle_psswitch_line hmark), if_neg hquery, hcom]
          rfl
        have hready : Ready fmt true t :=
          ready_of_fresh ⟨hfresh.queue, hfresh.calls, hfresh.bot, hfresh.print⟩
        rw [hloop]
        exact @adobe_behind fmt old t turns true rfl rfl hready (small_of hsmall hsub)
    · have hloop : s.postScriptLoop (.binary fmt) old (turns + 3) matched =
          .ok { s with infile := { s.infile with
            iobuf := [], line := (fillLine s.infile.iobuf.flatten s.infile.line).1 } } := by
        exact postScriptLoop_more hcom (handle_psswitch_more hmark)
      rw [hloop, heof]
      exact ⟨rfl, heof, .inr ⟨⟨hfresh.queue, hfresh.calls, hfresh.bot, hfresh.print⟩, hcom, rfl⟩⟩

/-- The first line, when it is there, says who prints. -/
theorem first_behind (hfresh : Fresh s) (hcom : s.comstate = []) (hiobuf : s.infile.iobuf ≠ [])
    (hsmall : Small s.infile.iobuf) {text : List UInt8}
    (htext : firstText s.infile.line s.infile.iobuf.flatten s.infile.eof = some text) :
    Behind fmt (commatch text).isSome s.infile.eof s.connid
      (s.postScriptLoop (.binary fmt) old 4 false) := by
  rcases markline_eq hiobuf with ⟨text', iobuf, hmark, hsub, htext'⟩ | ⟨heof, hnone, -⟩
  · obtain rfl : text' = text := Option.some.inj (htext'.symm.trans htext)
    let infile : Mypapfile := { s.infile with iobuf, line := [] }
    have hfresh' : ∀ handler, Fresh { s with infile, comstate := [handler] } :=
      fun _ ↦ ⟨hfresh.queue, hfresh.calls, hfresh.bot, hfresh.print⟩
    have hsmall' : Small iobuf := small_of hsmall hsub
    -- the first line picks the handler
    cases hmatch : commatch text' with
    | none =>
        rw [postScriptLoop_no_match hcom hfresh.bot hmark hmatch]
        exact @plain_behind fmt old { s with infile := { infile with bot := false } } hcom rfl
          (@ready_of_no_calls fmt { s with infile := { infile with bot := false } } hfresh.calls
            hfresh.queue)
          hsmall'
    | some handler =>
        rw [postScriptLoop_match hcom hfresh.bot hmark hmatch]
        cases handler with
        | psquery => exact ⟨rfl, rfl⟩
        | psadobe =>
            exact @adobe_behind fmt old { s with infile, comstate := [.psadobe] } 1 false rfl rfl
              (ready_of_fresh (hfresh' .psadobe)) hsmall'
        | psswitch =>
            refine @switch_behind fmt old { s with infile, comstate := [.psswitch] } 0 false
              (hfresh' .psswitch) rfl ?_ hsmall'
            intro hnil
            rcases hsub with hsub | ⟨-, heof⟩
            · exact absurd (hsub.symm.trans hnil) hiobuf
            · exact ⟨rfl, heof⟩
  · rw [heof, hnone] at htext
    contradiction

/-! ## Runs -/

/-- The first line is not at its end. -/
structure Waiting (s : PapSession) : Prop extends Fresh s where
  comstate : s.comstate = []
  eof : s.infile.eof = false

variable {q : Quantum} {quanta : List Quantum}

theorem eof_take (heof : s.infile.eof = false) :
    (s.take q).infile.eof = decide (q.first.eof ≠ 0) := by
  show (s.infile.eof || decide (q.first.eof ≠ 0)) = decide (q.first.eof ≠ 0)
  rw [heof, Bool.false_or]

theorem waiting_response (h : Waiting s)
    (hq : q.first.connid = s.connid ∧ q.first.command = papData) :
    (∃ text, firstText s.infile.line q.data (decide (q.first.eof ≠ 0)) = some text ∧
      Behind fmt (commatch text).isSome (decide (q.first.eof ≠ 0)) s.connid
        (s.dataResponse (.binary fmt) old q)) ∨
    q.first.eof = 0 ∧ firstText s.infile.line q.data false = none ∧
      ∃ s', s.dataResponse (.binary fmt) old q = .ok s' ∧ Waiting s' ∧ s'.connid = s.connid ∧
        s'.infile.line = (fillLine q.data s.infile.line).1 := by
  have heof : (s.take q).infile.eof = decide (q.first.eof ≠ 0) := eof_take h.eof
  have hfresh : Fresh (s.take q) := ⟨h.queue, h.calls, h.bot, h.print⟩
  have hiobuf : (s.take q).infile.iobuf ≠ [] := q.packets_ne_nil
  rw [dataResponse_eq hq, ← heof]
  rcases markline_eq hiobuf with ⟨text, iobuf, -, -, htext⟩ | ⟨hended, hnone, hmark⟩
  · exact .inl ⟨text, htext, first_behind hfresh h.comstate hiobuf q.small htext⟩
  · have hcom : (s.take q).comstate = [] := h.comstate
    have hloop : (s.take q).postScriptLoop (.binary fmt) old 4 false =
        .ok { s.take q with infile := { (s.take q).infile with
          iobuf := [], line := (fillLine q.data s.infile.line).1 } } := by
      exact postScriptLoop_wait hcom hfresh.bot hmark
    have hzero : q.first.eof = 0 := by
      rw [heof] at hended
      simpa using hended
    exact .inr
      ⟨hzero, hnone, _, hloop, ⟨⟨h.queue, h.calls, h.bot, h.print⟩, h.comstate, hended⟩, rfl, rfl⟩

theorem open_response (h : Open fmt b s) (heof : s.infile.eof = false)
    (hq : q.first.connid = s.connid ∧ q.first.command = papData) :
    Behind fmt b (decide (q.first.eof ≠ 0)) s.connid (s.dataResponse (.binary fmt) old q) := by
  have hsmall : Small (s.take q).infile.iobuf := q.small
  rw [dataResponse_eq hq, ← eof_take heof]
  rcases h with hgoing | ⟨hfresh, hcom, rfl⟩
  · have hready : Ready fmt b (s.take q) := ⟨hgoing.ready.text, hgoing.ready.sound⟩
    rcases hgoing.way with ⟨hcom, rfl, hline⟩ | ⟨hcom, rfl, hbot⟩
    · exact @adobe_behind fmt old (s.take q) 2 false hcom hline hready hsmall
    · have hcom' : (s.take q).comstate = [] := hcom
      have hbot' : (s.take q).infile.bot = false := hbot
      have hloop : (s.take q).postScriptLoop (.binary fmt) old 4 false =
          (PapSession.ops (.binary fmt) old).printPackets false (s.take q) :=
        postScriptLoop_begun hcom' hbot'
      rw [hloop]
      exact plain_behind hcom hbot hready hsmall
  · exact @switch_behind fmt old (s.take q) 1 false
      ⟨hfresh.queue, hfresh.calls, hfresh.bot, hfresh.print⟩ hcom
      (fun hnil ↦ absurd hnil q.packets_ne_nil) hsmall

theorem open_timeOut (h : Open fmt b s) :
    ∃ s', s.timeOut (.binary fmt) old = .ok s' ∧ Ended fmt b s' := by
  rcases h with hgoing | ⟨hfresh, -, rfl⟩
  · obtain ⟨done, hprint, hclosed⟩ := @Ready.paprint_end fmt old b
      { s with infile := { s.infile with iobuf := [[]] } } .abort
      ⟨hgoing.ready.text, hgoing.ready.sound⟩ small_empty (by decide)
    refine ⟨_, ?_, .inl hclosed⟩
    rw [PapSession.timeOut, if_pos hgoing.print, hprint]
  · refine ⟨s, ?_, .inr ⟨hfresh.calls, rfl⟩⟩
    rw [PapSession.timeOut, if_neg (by rw [hfresh.print]; decide)]

theorem open_responses (h : Open fmt b s) (heof : s.infile.eof = false)
    (hq : ∀ q ∈ quanta, q.first.connid = s.connid ∧ q.first.command = papData)
    (hunmarked : ∀ q ∈ quanta, q.first.eof = 0) :
    Behind fmt b false s.connid (s.dataResponses (.binary fmt) old quanta) := by
  induction quanta generalizing s with
  | nil => exact ⟨rfl, heof, h⟩
  | cons q quanta ih =>
      obtain ⟨hq, hqs⟩ := List.forall_mem_cons.mp hq
      obtain ⟨hzero, hzeros⟩ := List.forall_mem_cons.mp hunmarked
      have hfirst := @open_response fmt old b s q h heof hq
      rw [decide_eq_false (not_not_intro hzero)] at hfirst
      rw [PapSession.dataResponses]
      cases hr : s.dataResponse (.binary fmt) old q with
      | error stop =>
          rw [hr] at hfirst
          exact hfirst
      | ok s' =>
          rw [hr] at hfirst
          obtain ⟨hconnid, heof', hopen⟩ := hfirst
          rw [← hconnid] at hqs ⊢
          exact ih hopen heof' hqs hzeros

theorem firstText_append (line xs ys : List UInt8) (ended : Bool) :
    firstText line (xs ++ ys) ended = match firstText line xs false with
      | some text => some text
      | none => firstText (fillLine xs line).1 ys ended := by
  unfold firstText
  rw [fillLine_append]
  cases fillLine xs line with
  | mk line stopped => cases stopped <;> simp

theorem waiting_responses (h : Waiting s)
    (hq : ∀ q ∈ quanta, q.first.connid = s.connid ∧ q.first.command = papData)
    (hunmarked : ∀ q ∈ quanta, q.first.eof = 0) :
    (∃ text, firstText s.infile.line (dataOf quanta) false = some text ∧
      Behind fmt (commatch text).isSome false s.connid
        (s.dataResponses (.binary fmt) old quanta)) ∨
    firstText s.infile.line (dataOf quanta) false = none ∧
      ∃ s', s.dataResponses (.binary fmt) old quanta = .ok s' ∧ Waiting s' ∧ s'.connid = s.connid ∧
        s'.infile.line = (fillLine (dataOf quanta) s.infile.line).1 := by
  induction quanta generalizing s with
  | nil => exact .inr ⟨rfl, s, rfl, h, rfl, rfl⟩
  | cons q quanta ih =>
      obtain ⟨hq, hqs⟩ := List.forall_mem_cons.mp hq
      obtain ⟨hzero, hzeros⟩ := List.forall_mem_cons.mp hunmarked
      have hdata : dataOf (q :: quanta) = q.data ++ dataOf quanta := List.flatMap_cons
      rw [hdata, firstText_append, fillLine_append, PapSession.dataResponses]
      rcases @waiting_response fmt old s q h hq with ⟨text, htext, hfirst⟩ | ⟨-, hnone, hwait⟩
      · rw [decide_eq_false (not_not_intro hzero)] at htext hfirst
        refine .inl ⟨text, by rw [htext], ?_⟩
        cases hr : s.dataResponse (.binary fmt) old q with
        | error stop =>
            rw [hr] at hfirst
            exact hfirst
        | ok s' =>
            rw [hr] at hfirst
            obtain ⟨hconnid, heof', hopen⟩ := hfirst
            rw [← hconnid] at hqs ⊢
            exact open_responses hopen heof' hqs hzeros
      · obtain ⟨s', hr, hwaiting, hconnid, hline⟩ := hwait
        -- the line goes on where it was left
        have hfill : fillLine q.data s.infile.line = (s'.infile.line, false) := by
          unfold firstText at hnone
          cases hfill : fillLine q.data s.infile.line with
          | mk line stopped =>
              rw [hfill] at hnone hline
              cases stopped with
              | true => simp at hnone
              | false => rw [hline]
        rw [hnone, hr, hfill, ← hconnid]
        rw [← hconnid] at hqs
        exact ih hwaiting hqs hzeros

/-! ## The job -/

theorem closed_exact (h : Closed fmt b s) (hb : fmt = .bcp ∨ b = true) : s.Exact fmt := by
  have hstart : startText fmt b = fmt.start := by
    rcases hb with rfl | rfl
    · cases b <;> rfl
    · cases fmt <;> rfl
  exact ⟨hstart ▸ h.text, fmt.code.decode_encode s.handed, h.sound⟩

/-- Without the start what is printed is too short. -/
theorem closed_not_exact (h : Closed .tbcp false s) : ¬ s.Exact .tbcp := by
  intro hexact
  have htext := congrArg List.length (h.text.symm.trans hexact.text)
  have hstart : startText .tbcp false = [] := rfl
  have hlen : BinFormat.tbcp.start.length = 2 := rfl
  simp only [hstart, List.nil_append, List.length_append, hlen] at htext
  omega

/-- A job that is over: the handlers of queries have taken it, or it is printed or lost. -/
def Over (fmt : BinFormat) (b : Bool) (r : Except Stop PapSession) : Prop :=
  r = .error .query ∧ b = true ∨ ∃ s, r = .ok s ∧ Ended fmt b s

theorem Behind.over {connid : UInt8} {r : Except Stop PapSession}
    (h : Behind fmt b true connid r) : Over fmt b r := by
  cases r with
  | error stop =>
      obtain ⟨rfl, hb⟩ := h
      exact .inl ⟨rfl, hb⟩
  | ok s => exact .inr ⟨s, rfl, h.2.2⟩

section Endings

variable {ending : Ending}

theorem open_ending (h : Open fmt b s) (heof : s.infile.eof = false)
    (hq : ∀ q ∈ ending.quanta, q.first.connid = s.connid ∧ q.first.command = papData)
    (hmarked : ∀ q ∈ ending.quanta, q.first.eof ≠ 0) : Over fmt b (ending.run fmt old s) := by
  cases ending with
  | timeOut => exact .inr (open_timeOut h)
  | last q =>
      have hr := @open_response fmt old b s q h heof (hq q (List.mem_singleton_self q))
      rw [decide_eq_true (hmarked q (List.mem_singleton_self q))] at hr
      exact hr.over

theorem waiting_ending (h : Waiting s)
    (hq : ∀ q ∈ ending.quanta, q.first.connid = s.connid ∧ q.first.command = papData)
    (hmarked : ∀ q ∈ ending.quanta, q.first.eof ≠ 0) {first : Option (List UInt8)}
    (hfirst : first =
      firstText s.infile.line (dataOf ending.quanta) (! ending.quanta.isEmpty)) :
    (∃ text, first = some text ∧ Over fmt (commatch text).isSome (ending.run fmt old s)) ∨
      first = none ∧ ∃ s', ending.run fmt old s = .ok s' ∧ s'.calls = [] := by
  cases ending with
  | timeOut =>
      have hrun : s.timeOut (.binary fmt) old = .ok s := by
        rw [PapSession.timeOut, if_neg (by rw [h.print]; decide)]
      exact .inr ⟨hfirst, s, hrun, h.calls⟩
  | last q =>
      have hdata : dataOf (Ending.last q).quanta = q.data := List.flatMap_singleton _ _
      have hzero := hmarked q (List.mem_singleton_self q)
      rw [hdata] at hfirst
      rcases @waiting_response fmt old s q h (hq q (List.mem_singleton_self q)) with
        ⟨text, htext, hr⟩ | ⟨hunmarked, -, -⟩
      · rw [decide_eq_true hzero] at htext hr
        exact .inl ⟨text, hfirst.trans htext, hr.over⟩
      · exact absurd hunmarked hzero

end Endings

namespace BinJob

variable {connid : UInt8} (job : BinJob connid)

theorem waiting_start : Waiting (papStart connid) := ⟨⟨rfl, rfl, rfl, rfl⟩, rfl, rfl⟩

/-- The handlers of queries take the job, or it is printed to its end, with the start if and only if
its first line is a magic line. -/
theorem run_cases :
    (∃ text, job.firstLine = some text ∧ Over fmt (commatch text).isSome (job.run fmt old)) ∨
      job.firstLine = none ∧ ∃ s, job.run fmt old = .ok s ∧ s.calls = [] := by
  obtain ⟨hbody, hending⟩ := List.forall_mem_append.mp job.asked
  have hfirst : job.firstLine = match firstText [] (dataOf job.body) false with
      | some text => some text
      | none => firstText (fillLine (dataOf job.body) []).1 (dataOf job.ending.quanta)
          (! job.ending.quanta.isEmpty) := by
    rw [firstLine, data, dataOf_append, firstText_append]
  rcases @waiting_responses fmt old (papStart connid) job.body waiting_start hbody
    job.unmarked with ⟨text, htext, hrun⟩ | ⟨hnone, s, hrun, hwaiting, hconnid, hline⟩
  · have htext' : firstText [] (dataOf job.body) false = some text := htext
    refine .inl ⟨text, by rw [hfirst, htext'], ?_⟩
    unfold run
    cases hr : (papStart connid).dataResponses (.binary fmt) old job.body with
    | error stop =>
        rw [hr] at hrun
        obtain ⟨rfl, hb⟩ := hrun
        exact .inl ⟨rfl, hb⟩
    | ok s =>
        rw [hr] at hrun
        obtain ⟨hconnid, heof, hopen⟩ := hrun
        exact open_ending hopen heof (fun q hq ↦ hconnid ▸ hending q hq) job.marked
  · have hnone' : firstText [] (dataOf job.body) false = none := hnone
    have hline' : s.infile.line = (fillLine (dataOf job.body) []).1 := hline
    rw [hnone', ← hline'] at hfirst
    unfold run
    rw [hrun]
    exact waiting_ending hwaiting (fun q hq ↦ hconnid ▸ hending q hq) job.marked hfirst

/-- A job is printed exactly if and only if its format is BCP or its first line, if it has one, is a
magic line. -/
theorem binary_exact_iff (fmt : BinFormat) (old : Blocks) (connid : UInt8) (job : BinJob connid) :
    job.Exact fmt old ↔
      fmt = .bcp ∨ ∀ text, job.firstLine = some text → (commatch text).isSome = true := by
  constructor
  · intro h
    cases fmt with
    | bcp => exact .inl rfl
    | tbcp =>
        refine .inr fun text htext ↦ ?_
        rcases @run_cases .tbcp old connid job with ⟨text', htext', hover⟩ | ⟨hnone, -⟩
        · obtain rfl : text' = text := Option.some.inj (htext'.symm.trans htext)
          by_contra hmatch
          rw [Bool.not_eq_true] at hmatch
          rw [hmatch] at hover
          rcases hover with ⟨-, hb⟩ | ⟨s, hrun, hended⟩
          · contradiction
          · rcases hended with hclosed | ⟨-, hb⟩
            · exact closed_not_exact hclosed (h.2 s hrun hclosed.called)
            · contradiction
        · rw [hnone] at htext
          contradiction
  · intro hcond
    rcases @run_cases fmt old connid job with ⟨text, htext, hover⟩ | ⟨-, s, hrun, hcalls⟩
    · have hb : fmt = .bcp ∨ (commatch text).isSome = true := hcond.imp_right (· text htext)
      rcases hover with ⟨hrun, -⟩ | ⟨s, hrun, hended⟩
      · unfold BinJob.Exact
        rw [hrun]
        exact ⟨by simp, fun s hs ↦ by contradiction⟩
      · unfold BinJob.Exact
        rw [hrun]
        refine ⟨by simp, fun s' hs' hcalled ↦ ?_⟩
        obtain rfl : s = s' := Except.ok.inj hs'
        rcases hended with hclosed | ⟨hcalls, -⟩
        · exact closed_exact hclosed hb
        · contradiction
    · unfold BinJob.Exact
      rw [hrun]
      refine ⟨by simp, fun s' hs' hcalled ↦ ?_⟩
      obtain rfl : s = s' := Except.ok.inj hs'
      contradiction

end BinJob

/-- A job of one line, which is not a comment. -/
def plainJob : BinJob 1 where
  body := []
  ending := .last (oneLine [97, 13] 1 (by decide))
  asked := by decide
  unmarked := by decide
  marked := by decide

/-- The start is missing. -/
theorem plainJob_not_exact : ¬ plainJob.Exact .tbcp fun _ => ⟨fun _ => 0, 0⟩ := by
  have hrun : (plainJob.run .tbcp fun _ => ⟨fun _ => 0, 0⟩).map
      (fun s => (s.text, s.calls.length)) = .ok ([97, 13, 4] ++ tbcpEndString, 1) := by
    decide
  intro h
  cases hr : plainJob.run .tbcp fun _ => ⟨fun _ => 0, 0⟩ with
  | error stop =>
      rw [hr] at hrun
      contradiction
  | ok s =>
      rw [hr] at hrun
      obtain ⟨htext, hlen⟩ := Prod.mk.inj (Except.ok.inj hrun)
      have hcalled : s.calls ≠ [] := by
        intro hnil
        rw [hnil] at hlen
        contradiction
      have hexact := (h.2 s hr hcalled).text
      rw [htext] at hexact
      have hhead := congrArg List.head? hexact
      change some (97 : UInt8) = some 1 at hhead
      contradiction

end PrintServer.Atalk
