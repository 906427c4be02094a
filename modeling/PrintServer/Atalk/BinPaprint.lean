import PrintServer.Http.CString
import PrintServer.Lib.Escape
import PrintServer.Lib.Memory
import Mathlib.Data.Fin.VecNotation
import Mathlib.Logic.Function.Basic

/-!
# Printing packets in a binary format

`binpaprint` and `xBCP_Encode` (paprint.c) over the octets of the four buffers they work in: two
fresh ones from the input queue, and behind them the two of the session, in which the packets lie.
-/

namespace PrintServer.Atalk

open Http (bytes)
open Lib

def blockSize : Nat := 10220

inductive PrnFlag
  | normal
  | eof
  | abort
deriving DecidableEq

/-- A buffer as it is put on the output queue. -/
structure PrnBuf where
  data : List UInt8
  flag : PrnFlag
deriving DecidableEq

/-! ## The formats -/

inductive BinFormat
  | tbcp
  | bcp
deriving DecidableEq

def tbcpEscaped : List UInt8 :=
  [0, 1, 0, 1, 1, 1, 0, 0, 0, 0, 0, 0, 0, 0, 0, 0,
    0, 1, 0, 1, 1, 0, 0, 0, 0, 0, 0, 1, 1, 0, 0, 0]

def bcpEscaped : List UInt8 :=
  [0, 1, 0, 1, 1, 1, 0, 0, 0, 0, 0, 0, 0, 0, 0, 0,
    0, 1, 0, 1, 1, 0, 0, 0, 0, 0, 0, 0, 1, 0, 0, 0]

def tbcpEndString : List UInt8 := 0x1b :: bytes "%-12345X"

def ctrlA : UInt8 := 1
def ctrlD : UInt8 := 4

namespace BinFormat

def xBcpEscaped : BinFormat → List UInt8
  | tbcp => tbcpEscaped
  | bcp => bcpEscaped

def isEscaped (fmt : BinFormat) (ch : UInt8) : Bool :=
  ch ≤ 31 ∧ fmt.xBcpEscaped.getD ch.toNat 0 ≠ 0

def code (fmt : BinFormat) : EscapeCode UInt8 where
  mark := ctrlA
  escaped := fmt.isEscaped
  change ch := ch ^^^ 0x40
  escaped_mark := by cases fmt <;> decide
  change_change ch := by rw [UInt8.xor_assoc, UInt8.xor_self, UInt8.xor_zero]

/-- What is written in front of the first packet. -/
def start : BinFormat → List UInt8
  | tbcp => [0x01, 0x4D]
  | bcp => []

/-- What is written behind the last packet and its `'\4'`. -/
def closing : BinFormat → List UInt8
  | tbcp => tbcpEndString
  | bcp => []

end BinFormat

/-! ## The buffers -/

/-- `struct prnbuf` -/
structure Block where
  data : Nat → UInt8
  size : Nat

namespace Block

def put (b : Block) (ch : UInt8) : Block :=
  { data := writeMem b.data b.size [ch], size := b.size + 1 }

def puts (b : Block) (s : List UInt8) : Block :=
  { data := writeMem b.data b.size s, size := b.size + s.length }

def contents (b : Block) : List UInt8 := readMem b.data 0 b.size

end Block

/-- `pbuf[0]` to `pbuf[3]` -/
abbrev Blocks := Fin 4 → Block

def Blocks.puts (m : Blocks) (k : Fin 4) (s : List UInt8) : Blocks :=
  Function.update m k ((m k).puts s)

/-- Where packet `i` lies: the first five in `in->pbuf[0]`, the others in `in->pbuf[1]`. -/
def slot (i : Nat) : Fin 4 × Nat :=
  if i < 5 then (2, i * (blockSize / 5)) else (3, (i - 5) * (blockSize / 5))

/-! ## `xBCP_Encode` -/

/-- Encodes `insize` octets of `src` from `rp` on behind those of `dst`, and says how many are
left. -/
def xBcpEncode (fmt : BinFormat) (dst src : Fin 4) : Nat → Nat → Blocks → Nat × Blocks
  | 0, _, m => (0, m)
  | insize + 1, rp, m =>
      if (m dst).size < blockSize - 1 then
        let ch := (m src).data rp
        xBcpEncode fmt dst src insize (rp + 1)
          (if fmt.isEscaped ch then (m.puts dst [ctrlA]).puts dst [ch ^^^ 0x40]
            else m.puts dst [ch])
      else (insize + 1, m)

/-! ## `binpaprint` -/

/-- `binpaprint` at work: the buffers from `pbuf[j]` on are in its hand, the others are on the
output queue. -/
structure BinPrint where
  mem : Blocks
  hand : List (Fin 4)
  out : List (Fin 4 × PrnBuf)

namespace BinPrint

/-- `PrnPutOutQueueBuf(port,pbuf[j++],flags)`: `none` is a read behind `pbuf`. -/
def putOut (s : BinPrint) (flags : PrnFlag) : Option BinPrint :=
  match s.hand with
  | [] => none
  | k :: hand => some { s with hand, out := s.out ++ [(k, ⟨(s.mem k).contents, flags⟩)] }

def puts (s : BinPrint) (text : List UInt8) : Option BinPrint :=
  match s.hand with
  | [] => none
  | k :: _ => some { s with mem := s.mem.puts k text }

end BinPrint

/-- The `do` loop over one packet, of which `rsize` octets were read in the turn before. -/
def encodePacket (fmt : BinFormat) (src : Fin 4) (base : Nat) :
    Nat → Nat → Nat → BinPrint → Option BinPrint
  | 0, _, _, _ => none
  | turns + 1, nsize, rsize, s =>
      match s.hand with
      | [] => none
      | k :: _ =>
          let nsize := nsize - rsize
          let (rest, mem) := xBcpEncode fmt k src nsize (base + rsize) s.mem
          let rsize := nsize - rest
          let s := { s with mem }
          let full := decide (blockSize - 1 ≤ (mem k).size)
          match if full then s.putOut .normal else some s with
          | none => none
          | some s =>
              if rsize < nsize then encodePacket fmt src base turns nsize rsize s else some s

/-- The packets from `i` on, of which the lengths are given.  Each turn over a packet reads an octet
or fills a buffer. -/
def encodePackets (fmt : BinFormat) : Nat → List Nat → BinPrint → Option BinPrint
  | _, [], s => some s
  | i, nsize :: lens, s =>
      (encodePacket fmt (slot i).1 (slot i).2 (nsize + 4) nsize 0 s).bind
        (encodePackets fmt (i + 1) lens)

/-- The sizes are set to 0, and the start is written when the file is at its beginning. -/
def binStart (fmt : BinFormat) (bot : Bool) (mem : Blocks) : BinPrint :=
  let mem : Blocks := fun k => { mem k with size := 0 }
  { mem := if bot ∧ fmt = .tbcp then mem.puts 0 fmt.start else mem
    hand := [0, 1, 2, 3]
    out := [] }

/-- The end of a job has a buffer of its own, where one is left. -/
def binEnd (fmt : BinFormat) (s : BinPrint) : Option BinPrint := do
  let s ← if 1 < s.hand.length then s.putOut .normal else some s
  s.puts (ctrlD :: fmt.closing)

/-- What is in the hand at the end goes to the input queue. -/
def binpaprint (fmt : BinFormat) (bot : Bool) (lens : List Nat) (flags : PrnFlag) (mem : Blocks) :
    Option BinPrint := do
  let s ← encodePackets fmt 0 lens (binStart fmt bot mem)
  let s ← if flags ≠ .normal then binEnd fmt s else some s
  s.putOut flags

/-! ## What is written -/

section Puts

variable {b : Block} {m : Blocks} {k l : Fin 4} {s t : List UInt8}

theorem Block.contents_puts : (b.puts s).contents = b.contents ++ s := by
  rw [contents, puts, readMem_add, Nat.zero_add, readMem_writeMem,
    readMem_writeMem_of_le (by omega)]
  rfl

@[simp] theorem Blocks.puts_self : m.puts k s k = (m k).puts s := Function.update_self k _ m

theorem Blocks.puts_of_ne (h : l ≠ k) : m.puts k s l = m l := Function.update_of_ne h _ m

theorem Block.puts_puts : (b.puts s).puts t = b.puts (s ++ t) := by
  simp only [puts, writeMem_append, List.length_append, Nat.add_assoc]

theorem Blocks.puts_puts : (m.puts k s).puts k t = m.puts k (s ++ t) := by
  rw [Blocks.puts, puts_self, Block.puts_puts]
  exact Function.update_idem _ _ m

theorem Blocks.puts_nil : m.puts k [] = m := by
  have hb : (m k).puts [] = m k := by rw [Block.puts, writeMem_nil]; rfl
  rw [Blocks.puts, hb]
  exact Function.update_eq_self k m

end Puts

/-! ## One packet -/

variable {fmt : BinFormat}

/-- Where the buffer has room for twice as much, all is encoded. -/
theorem xBcpEncode_eq {dst src : Fin 4} (hne : src ≠ dst) (insize rp : Nat) (m : Blocks)
    (hroom : (m dst).size + 2 * insize < blockSize) :
    xBcpEncode fmt dst src insize rp m =
      (0, m.puts dst (fmt.code.encode (readMem (m src).data rp insize))) := by
  induction insize generalizing rp m with
  | zero => rw [xBcpEncode, readMem_zero, EscapeCode.encode_nil, Blocks.puts_nil]
  | succ insize ih =>
      have hsplit : readMem (m src).data rp (insize + 1) =
          (m src).data rp :: readMem (m src).data (rp + 1) insize := by
        rw [Nat.add_comm insize 1, readMem_add]
        rfl
      -- one octet is written as one or two, behind what is there
      have hone : (if fmt.isEscaped ((m src).data rp) then
            (m.puts dst [ctrlA]).puts dst [(m src).data rp ^^^ 0x40]
          else m.puts dst [(m src).data rp]) =
          m.puts dst (fmt.code.symbol ((m src).data rp)) := by
        rw [EscapeCode.symbol]
        show _ = m.puts dst (if fmt.isEscaped ((m src).data rp) then _ else _)
        by_cases hesc : fmt.isEscaped ((m src).data rp) = true
        · rw [if_pos hesc, if_pos hesc, Blocks.puts_puts]
          rfl
        · rw [if_neg hesc, if_neg hesc]
      have hlen := fmt.code.length_symbol_le ((m src).data rp)
      have hsize : (m.puts dst (fmt.code.symbol ((m src).data rp)) dst).size + 2 * insize
          < blockSize := by
        rw [Blocks.puts_self, Block.puts]
        show (m dst).size + _ + 2 * insize < blockSize
        omega
      have hlt : (m dst).size < blockSize - 1 := by omega
      rw [xBcpEncode, if_pos hlt]
      show xBcpEncode fmt dst src insize (rp + 1)
        (if fmt.isEscaped ((m src).data rp) then _ else _) = _
      rw [hone, ih _ _ hsize, Blocks.puts_of_ne hne, Blocks.puts_puts, hsplit,
        EscapeCode.encode_cons]

/-- One turn is enough for a packet, and the buffer is not full behind it. -/
theorem encodePacket_eq {src k : Fin 4} {hand : List (Fin 4)} {s : BinPrint} (hne : src ≠ k)
    (hhand : s.hand = k :: hand) (base turns nsize : Nat)
    (hroom : (s.mem k).size + 2 * nsize < blockSize - 1) :
    encodePacket fmt src base (turns + 1) nsize 0 s =
      some { s with
        mem := s.mem.puts k (fmt.code.encode (readMem (s.mem src).data base nsize)) } := by
  have henc := @xBcpEncode_eq fmt k src hne nsize base s.mem (by omega)
  have hlen := fmt.code.length_encode_le (readMem (s.mem src).data base nsize)
  rw [length_readMem] at hlen
  have hfull : ¬ blockSize - 1 ≤
      (s.mem.puts k (fmt.code.encode (readMem (s.mem src).data base nsize)) k).size := by
    rw [Blocks.puts_self, Block.puts]
    show ¬ blockSize - 1 ≤ (s.mem k).size + _
    omega
  simp only [encodePacket, hhand, Nat.sub_zero, Nat.add_zero, henc, decide_eq_true_eq, hfull,
    if_false, Nat.lt_irrefl]

/-! ## All packets -/

/-- The packets lie in their slots. -/
def Held (m : Blocks) (packets : List (List UInt8)) : Prop :=
  ∀ i packet, packets[i]? = some packet →
    readMem (m (slot i).1).data (slot i).2 packet.length = packet

theorem slot_ne_zero (i : Nat) : (slot i).1 ≠ 0 := by
  unfold slot
  split
  · show (2 : Fin 4) ≠ 0
    decide
  · show (3 : Fin 4) ≠ 0
    decide

theorem slot_ne_one (i : Nat) : (slot i).1 ≠ 1 := by
  unfold slot
  split
  · show (2 : Fin 4) ≠ 1
    decide
  · show (3 : Fin 4) ≠ 1
    decide

variable {packets : List (List UInt8)} {m : Blocks} {bot : Bool} {flags : PrnFlag}

theorem Held.puts (h : Held m packets) {k : Fin 4} (hk : ∀ i, (slot i).1 ≠ k) (text : List UInt8) :
    Held (m.puts k text) packets := by
  intro i packet hi
  rw [Blocks.puts_of_ne (hk i)]
  exact h i packet hi

/-- All packets go into the buffer in the hand, as it has room for twice as much. -/
theorem encodePackets_eq {k : Fin 4} {hand : List (Fin 4)} (hne : ∀ i, (slot i).1 ≠ k)
    (packets : List (List UInt8)) (i : Nat) (s : BinPrint) (hhand : s.hand = k :: hand)
    (hheld : ∀ n packet, packets[n]? = some packet →
      readMem (s.mem (slot (i + n)).1).data (slot (i + n)).2 packet.length = packet)
    (hroom : (s.mem k).size + 2 * packets.flatten.length < blockSize - 1) :
    encodePackets fmt i (packets.map List.length) s =
      some { s with mem := s.mem.puts k (fmt.code.encode packets.flatten) } := by
  induction packets generalizing i s with
  | nil =>
      rw [List.flatten_nil, EscapeCode.encode_nil, Blocks.puts_nil]
      rfl
  | cons packet packets ih =>
      have hfirst := hheld 0 packet rfl
      rw [List.flatten_cons, List.length_append] at hroom
      have hpacket := @encodePacket_eq fmt _ k hand s (hne i) hhand (slot i).2
        (packet.length + 3) packet.length (by omega)
      rw [Nat.add_zero] at hfirst
      rw [hfirst] at hpacket
      have hlen := fmt.code.length_encode_le packet
      have hrest := ih (i + 1) { s with mem := s.mem.puts k (fmt.code.encode packet) } hhand
        (by
          intro n p hn
          show readMem (s.mem.puts k _ _).data _ _ = p
          rw [Nat.add_assoc, Nat.add_comm 1 n, Blocks.puts_of_ne (hne _)]
          exact hheld (n + 1) p hn)
        (by
          show (s.mem.puts k (fmt.code.encode packet) k).size + _ < _
          rw [Blocks.puts_self, Block.puts]
          show (s.mem k).size + _ + _ < _
          omega)
      rw [List.map_cons, encodePackets, hpacket, Option.bind_some, hrest]
      simp only [Blocks.puts_puts, List.flatten_cons, EscapeCode.encode_append]

/-! ## One call -/

/-- What is written in front of the packets. -/
def startText (fmt : BinFormat) (bot : Bool) : List UInt8 :=
  if bot ∧ fmt = .tbcp then fmt.start else []

theorem length_startText_le : (startText fmt bot).length ≤ 2 := by
  unfold startText
  split
  · cases fmt <;> decide
  · exact Nat.zero_le 2

theorem length_closing_le : fmt.closing.length ≤ 9 := by cases fmt <;> decide

def emptied (m : Blocks) : Blocks := fun k => { m k with size := 0 }

theorem binStart_mem (m : Blocks) : (binStart fmt bot m).mem =
    (emptied m).puts 0 (startText fmt bot) := by
  unfold binStart startText
  split
  · rfl
  · rw [Blocks.puts_nil]
    rfl

/-- The buffers when all packets are encoded. -/
def written (fmt : BinFormat) (bot : Bool) (packets : List (List UInt8)) (m : Blocks) : Blocks :=
  (emptied m).puts 0 (startText fmt bot ++ fmt.code.encode packets.flatten)

theorem written_zero : (written fmt bot packets m 0).contents =
    startText fmt bot ++ fmt.code.encode packets.flatten := by
  rw [written, Blocks.puts_self, Block.contents_puts]
  rfl

theorem written_of_ne {k : Fin 4} (hk : k ≠ 0) :
    written fmt bot packets m k = { m k with size := 0 } := Blocks.puts_of_ne hk

theorem encodePackets_start (hheld : Held m packets) (hlen : packets.flatten.length ≤ 4096) :
    encodePackets fmt 0 (packets.map List.length) (binStart fmt bot m) =
      some ⟨written fmt bot packets m, [0, 1, 2, 3], []⟩ := by
  have hstart := @length_startText_le fmt bot
  have h := @encodePackets_eq fmt 0 [1, 2, 3] slot_ne_zero packets 0 (binStart fmt bot m) rfl
    (by
      intro n packet hn
      rw [Nat.zero_add, binStart_mem, Blocks.puts_of_ne (slot_ne_zero n)]
      exact hheld n packet hn)
    (by
      rw [binStart_mem, Blocks.puts_self]
      show 0 + (startText fmt bot).length + _ < blockSize - 1
      unfold blockSize
      omega)
  rw [h, binStart_mem, Blocks.puts_puts]
  rfl

/-- Of the four buffers the first is put on the output queue. -/
theorem binpaprint_normal (hheld : Held m packets) (hlen : packets.flatten.length ≤ 4096) :
    binpaprint fmt bot (packets.map List.length) .normal m =
      some ⟨written fmt bot packets m, [1, 2, 3],
        [(0, ⟨startText fmt bot ++ fmt.code.encode packets.flatten, .normal⟩)]⟩ := by
  unfold binpaprint
  rw [encodePackets_start hheld hlen, Option.bind_eq_bind, Option.bind_some]
  show some (BinPrint.mk (written fmt bot packets m) [1, 2, 3]
    [(0, ⟨(written fmt bot packets m 0).contents, .normal⟩)]) = _
  rw [written_zero]

/-- At the end of a job the second one, with the end in it, is put behind it. -/
theorem binpaprint_end (hflags : flags ≠ .normal) (hheld : Held m packets)
    (hlen : packets.flatten.length ≤ 4096) :
    binpaprint fmt bot (packets.map List.length) flags m =
      some ⟨(written fmt bot packets m).puts 1 (ctrlD :: fmt.closing), [2, 3],
        [(0, ⟨startText fmt bot ++ fmt.code.encode packets.flatten, .normal⟩),
          (1, ⟨ctrlD :: fmt.closing, flags⟩)]⟩ := by
  have hsecond : ((written fmt bot packets m).puts 1 (ctrlD :: fmt.closing) 1).contents =
      ctrlD :: fmt.closing := by
    rw [Blocks.puts_self, Block.contents_puts, written_of_ne (by decide)]
    rfl
  unfold binpaprint
  rw [encodePackets_start hheld hlen, Option.bind_eq_bind, Option.bind_some, if_pos hflags]
  show some (BinPrint.mk ((written fmt bot packets m).puts 1 (ctrlD :: fmt.closing)) [2, 3]
    [(0, ⟨(written fmt bot packets m 0).contents, .normal⟩), (1, ⟨_, flags⟩)]) = _
  rw [written_zero, hsecond]

/-- A call with the packets it was given and what it left. -/
structure BinCall where
  packets : List (List UInt8)
  flags : PrnFlag
  done : BinPrint

namespace BinCall

/-- The packets are still there, the buffers are not over-full, and each of them is put once, on the
output queue or on the input queue. -/
structure Sound (c : BinCall) : Prop where
  held : Held c.done.mem c.packets
  fits : ∀ k, (c.done.mem k).size ≤ blockSize
  returned : (c.done.out.map (·.1) ++ c.done.hand).Perm [0, 1, 2, 3]

end BinCall

theorem held_emptied (hheld : Held m packets) : Held (emptied m) packets := hheld

theorem held_written (hheld : Held m packets) : Held (written fmt bot packets m) packets :=
  (held_emptied hheld).puts slot_ne_zero _

theorem size_written_le (hlen : packets.flatten.length ≤ 4096) (k : Fin 4) :
    (written fmt bot packets m k).size ≤ blockSize := by
  by_cases hk : k = 0
  · have hstart := @length_startText_le fmt bot
    have henc := fmt.code.length_encode_le packets.flatten
    rw [hk, written, Blocks.puts_self, Block.puts, List.length_append]
    show 0 + _ ≤ blockSize
    unfold blockSize
    omega
  · rw [written_of_ne hk]
    exact Nat.zero_le _

theorem binpaprint_sound (hheld : Held m packets) (hlen : packets.flatten.length ≤ 4096)
    {done : BinPrint} (h : binpaprint fmt bot (packets.map List.length) flags m = some done) :
    BinCall.Sound ⟨packets, flags, done⟩ := by
  by_cases hflags : flags = .normal
  · rw [hflags, binpaprint_normal hheld hlen, Option.some.injEq] at h
    subst h
    exact
      { held := held_written hheld
        fits := size_written_le hlen
        returned := List.Perm.refl _ }
  · rw [binpaprint_end hflags hheld hlen, Option.some.injEq] at h
    subst h
    exact
      { held := (held_written hheld).puts slot_ne_one _
        fits := by
          intro k
          by_cases hk : k = 1
          · have hclosing := @length_closing_le fmt
            rw [hk]
            show ((written fmt bot packets m).puts 1 _ 1).size ≤ blockSize
            rw [Blocks.puts_self, written_of_ne (by decide), Block.puts, List.length_cons]
            show 0 + _ ≤ blockSize
            unfold blockSize
            omega
          · show ((written fmt bot packets m).puts 1 _ k).size ≤ blockSize
            rw [Blocks.puts_of_ne hk]
            exact size_written_le hlen k
        returned := List.Perm.refl _ }

end PrintServer.Atalk
