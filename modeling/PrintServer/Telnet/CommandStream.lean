import PrintServer.Http.ZotFile

/-!
# Characters from a Telnet client

`GetCharFromString` (telutil.c) takes Telnet commands out of what a client sends and returns the
characters between them.  It reads by `zot_fgetc` (httpd.c); a plain `char` has no sign here, so that
no octet is equal to `EOF`.
-/

namespace PrintServer.Telnet

open Http

def iac : UInt8 := 255
def se : UInt8 := 240
def sb : UInt8 := 250
def will : UInt8 := 251
def wont : UInt8 := 252
def doOption : UInt8 := 253
def dont : UInt8 := 254
def echoOption : UInt8 := 1
def suppressGoAhead : UInt8 := 3
def termtype : UInt8 := 24

def needClientTerminalType : List UInt8 := [255, 250, 24, 1, 255, 240]
def sayOKSuppressGoAhead : List UInt8 := [255, 251, 3]
def sayOKEchoDisable : List UInt8 := [255, 252, 1]
def crlf : List UInt8 := [13, 10]
def ctrlC : List UInt8 := [0x5E, 0x44]
def ctrlD : List UInt8 := [0x5E, 0x43]

/-- A connection: its `ZOT_FILE`, what `recv` will return, and what was sent. -/
structure Conn where
  file : ZotFile
  recvs : List Recv
  sent : List UInt8
  quitMenu : Bool
  telnetdUsers : Int

namespace Conn

def fputs (c : Conn) (s : List UInt8) : Conn := { c with sent := c.sent ++ s }

/-- `zot_fgetc`; 0 at the end of the connection. -/
def fgetc (c : Conn) : Option (UInt8 × Conn) :=
  match refill c.file c.recvs with
  | none => none
  | some (false, file, recvs) => some (0, { c with file, recvs })
  | some (true, file, recvs) => some (file.byte file.pos, { c with file := file.advance, recvs })

/-- What the client has sent and nobody has read. -/
def unread (c : Conn) : List UInt8 := received c.file c.recvs

/-- The label `error`. -/
def error (c : Conn) : Conn := { c with quitMenu := true, telnetdUsers := c.telnetdUsers - 1 }

end Conn

/-- The loop over a terminal type, for `n` characters at most. -/
def skipTermtype : Nat → Conn → Option Conn
  | 0, _ => none
  | n + 1, c =>
      match c.fgetc with
      | none => none
      | some (data, c) => if data = se then some c else skipTermtype n c

/-- The `switch` over a command. -/
def command (n : Nat) (par0 par1 : UInt8) (c : Conn) : Option Conn :=
  if par0 = will then some (if par1 = termtype then c.fputs needClientTerminalType else c)
  else if par0 = wont then some c
  else if par0 = doOption then
    some (if par1 = suppressGoAhead then c.fputs sayOKSuppressGoAhead else c)
  else if par0 = dont then some (if par1 = echoOption then c.fputs sayOKEchoDisable else c)
  else if par0 = sb then if par1 = termtype then skipTermtype n c else some c
  else some c

/-- `isprint` -/
def isPrint (data : UInt8) : Prop := 0x20 ≤ data ∧ data < 0x7F

instance (data : UInt8) : Decidable (isPrint data) := inferInstanceAs (Decidable (_ ∧ _))

/-- A round of `GetCharFromString` goes back to `loop`, returns a character, or `EOF`. -/
inductive Round
  | again (c : Conn)
  | char (data : UInt8) (c : Conn)
  | eof (c : Conn)

/-- What happens between two times at the label `loop`. -/
def round (n echo : Nat) (c : Conn) : Option Round :=
  match c.fgetc with
  | none => none
  | some (data, c) =>
      if data = iac then
        match c.fgetc with
        | none => none
        | some (par0, c) =>
            match c.fgetc with
            | none => none
            | some (par1, c) => (command n par0 par1 c).map .again
      else if data = 3 then some (.eof (c.fputs ctrlC).error)
      else if data = 4 then some (.eof ((c.fputs ctrlD).fputs crlf).error)
      else some (.char data (if isPrint data ∧ echo = 1 then c.fputs [data] else c))

/-- `GetCharFromString` with `m` rounds at most; `none` inside is `EOF`. -/
def getCharLoop (n echo : Nat) : Nat → Conn → Option (Option UInt8 × Conn)
  | 0, _ => none
  | m + 1, c =>
      match round n echo c with
      | none => none
      | some (.again c) => getCharLoop n echo m c
      | some (.char data c) => some (some data, c)
      | some (.eof c) => some (none, c)

def getCharFromString (n echo : Nat) (c : Conn) : Option (Option UInt8 × Conn) :=
  getCharLoop n echo n c

/-- The characters that `k` calls return. -/
def returned (n echo : Nat) : Nat → Conn → Option (List UInt8 × Conn)
  | 0, c => some ([], c)
  | k + 1, c =>
      match getCharFromString n echo c with
      | some (some data, c) => (returned n echo k c).map fun r ↦ (data :: r.1, r.2)
      | _ => none

/-! ## What a client sends -/

inductive Verb
  | will
  | wont
  | doOption
  | dont

def Verb.code : Verb → UInt8
  | .will => Telnet.will
  | .wont => Telnet.wont
  | .doOption => Telnet.doOption
  | .dont => Telnet.dont

/-- `^C` and `^D` end the menu and are no text. -/
structure TextByte where
  byte : UInt8
  isText : byte ≠ iac ∧ byte ≠ 3 ∧ byte ≠ 4

/-- The parameters of a subnegotiation are without the doubling of `IAC`. -/
inductive Item
  | text (b : TextByte)
  | option (verb : Verb) (opt : UInt8)
  | sub (opt : UInt8) (parameters : List UInt8)

def escape (parameters : List UInt8) : List UInt8 :=
  parameters.flatMap fun b ↦ if b = iac then [iac, iac] else [b]

namespace Item

def encode : Item → List UInt8
  | .text b => [b.byte]
  | .option verb opt => [iac, verb.code, opt]
  | .sub opt parameters => [iac, sb, opt] ++ escape parameters ++ [iac, se]

def textByte : Item → Option UInt8
  | .text b => some b.byte
  | _ => none

/-- What the round for the item has to come to. -/
def round : Item → Conn → Round
  | .text b, c => .char b.byte c
  | _, c => .again c

end Item

def stream (items : List Item) : List UInt8 := items.flatMap Item.encode

/-- One round for each item takes the item off whole. -/
def TakenWhole (n echo : Nat) : List Item → Conn → Prop
  | [], _ => True
  | i :: is, c => ∃ c', round n echo c = some (i.round c') ∧ c'.unread = stream is ∧
      TakenWhole n echo is c'

/-- Each item is taken off whole, and the characters returned are the text. -/
structure Consumed (n echo : Nat) (items : List Item) (c : Conn) : Prop where
  whole : TakenWhole n echo items c
  text : ∃ c', returned n echo (items.filterMap Item.textByte).length c =
    some (items.filterMap Item.textByte, c')

/-- A subnegotiation that the loop over a terminal type finds the end of. -/
def Item.Plain : Item → Prop
  | .sub opt parameters => opt = termtype ∧ se ∉ parameters
  | _ => True

section

variable {n m echo : Nat} {c c' : Conn} {b : UInt8} {bs xs rest : List UInt8} {i : Item}
  {items : List Item}

/-! ## Reading -/

/-- There is something left to read and the count is no error's. -/
structure Holds (c : Conn) (bs : List UInt8) : Prop where
  cnt : 0 ≤ c.file.ibufCnt
  unread : c.unread = bs

theorem Holds.fputs (h : Holds c bs) (s : List UInt8) : Holds (c.fputs s) bs := ⟨h.cnt, h.unread⟩

theorem refill_zero {f : ZotFile} {r : Recv} {rs : List Recv} (h : f.ibufCnt = 0) :
    refill f (r :: rs) = some (r.isPiece, f.fill r, rs) := by
  unfold refill
  rw [if_pos h]

theorem refill_of_ne {f : ZotFile} {rs : List Recv} (h : f.ibufCnt ≠ 0) :
    refill f rs = some (true, f, rs) := by
  unfold refill
  rw [if_neg h]

/-- A character is read off the front. -/
theorem Holds.fgetc (h : Holds c (b :: rest)) :
    ∃ c', c.fgetc = some (b, c') ∧ Holds c' rest := by
  have hunread : c.file.buffered ++ arriving c.recvs = b :: rest := h.unread
  rw [Conn.fgetc]
  by_cases hzero : c.file.ibufCnt = 0
  · rw [ZotFile.buffered_eq_nil hzero, List.nil_append] at hunread
    cases hrecvs : c.recvs with
    | nil =>
        rw [hrecvs] at hunread
        cases hunread
    | cons r rs =>
        rw [hrecvs] at hunread
        cases r with
        | piece p =>
            rw [arriving_cons_piece] at hunread
            have hfill : (c.file.fill (.piece p)).buffered = p.bytes := c.file.buffered_fill p
            cases hbytes : p.bytes with
            | nil => exact absurd hbytes p.nonempty
            | cons a as =>
                rw [hbytes] at hfill hunread
                obtain ⟨hbyte, hadvance, hcnt⟩ := ZotFile.of_buffered_cons hfill
                obtain ⟨hab, hrest⟩ := List.cons.inj hunread
                refine ⟨{ c with file := (c.file.fill (.piece p)).advance, recvs := rs },
                  by rw [refill_zero hzero, ← hab, ← hbyte]; rfl, ?_, ?_⟩
                · show 0 ≤ (c.file.fill (.piece p)).ibufCnt - 1
                  omega
                · show (c.file.fill (.piece p)).advance.buffered ++ arriving rs = rest
                  rw [hadvance]
                  exact hrest
        | closed => cases hunread
        | failed => cases hunread
  · rw [refill_of_ne hzero]
    cases hbuffered : c.file.buffered with
    | nil =>
        have hlen := c.file.length_buffered
        have hcnt := h.cnt
        rw [hbuffered, List.length_nil] at hlen
        omega
    | cons a as =>
        rw [hbuffered] at hunread
        obtain ⟨hbyte, hadvance, hcnt⟩ := ZotFile.of_buffered_cons hbuffered
        obtain ⟨hab, hrest⟩ := List.cons.inj hunread
        refine ⟨{ c with file := c.file.advance }, by rw [← hab, ← hbyte], ?_, ?_⟩
        · show 0 ≤ c.file.ibufCnt - 1
          omega
        · show c.file.advance.buffered ++ arriving c.recvs = rest
          rw [hadvance]
          exact hrest

/-- The loop over a terminal type stops behind the first `SE`. -/
theorem Holds.skipTermtype (h : Holds c (xs ++ se :: rest)) (hxs : se ∉ xs)
    (hn : xs.length < n) : ∃ c', skipTermtype n c = some c' ∧ Holds c' rest := by
  induction xs generalizing n c with
  | nil =>
      cases n with
      | zero => cases hn
      | succ n =>
          obtain ⟨c', hget, hc'⟩ := h.fgetc
          exact ⟨c', by rw [Telnet.skipTermtype, hget]; exact if_pos rfl, hc'⟩
  | cons x xs ih =>
      cases n with
      | zero => cases hn
      | succ n =>
          rw [List.mem_cons, not_or] at hxs
          obtain ⟨c₁, hget, hc₁⟩ := Holds.fgetc h
          obtain ⟨c', hskip, hc'⟩ := ih hc₁ hxs.2 (Nat.lt_of_succ_lt_succ hn)
          refine ⟨c', ?_, hc'⟩
          rw [Telnet.skipTermtype, hget]
          show (if x = se then _ else _) = _
          rw [if_neg fun heq ↦ hxs.1 heq.symm, hskip]

/-! ## One item -/

/-- A three-byte command is taken off, whatever the option. -/
theorem Holds.option (h : Holds c bs) (verb : Verb) (opt : UInt8) :
    ∃ c', command n verb.code opt c = some c' ∧ Holds c' bs := by
  have hcases (p : Prop) [Decidable p] (s : List UInt8) :
      Holds (if p then c.fputs s else c) bs := by
    split
    · exact h.fputs s
    · exact h
  cases verb with
  | will => exact ⟨_, rfl, hcases _ _⟩
  | wont => exact ⟨_, rfl, h⟩
  | doOption => exact ⟨_, rfl, hcases _ _⟩
  | dont => exact ⟨_, rfl, hcases _ _⟩

/-- The first three bytes of a command. -/
theorem Holds.round_iac {par0 par1 : UInt8} (h : Holds c (iac :: par0 :: par1 :: rest)) :
    ∃ c', round n echo c = (command n par0 par1 c').map .again ∧ Holds c' rest := by
  obtain ⟨c₁, hget₁, hc₁⟩ := h.fgetc
  obtain ⟨c₂, hget₂, hc₂⟩ := hc₁.fgetc
  obtain ⟨c₃, hget₃, hc₃⟩ := hc₂.fgetc
  refine ⟨c₃, ?_, hc₃⟩
  simp only [Telnet.round, hget₁, ↓reduceIte, hget₂, hget₃]

theorem Holds.round_text (t : TextByte) (h : Holds c (t.byte :: rest)) :
    ∃ c', round n echo c = some (.char t.byte c') ∧ Holds c' rest := by
  obtain ⟨c₁, hget, hc₁⟩ := h.fgetc
  refine ⟨if isPrint t.byte ∧ echo = 1 then c₁.fputs [t.byte] else c₁, ?_, ?_⟩
  · rw [Telnet.round, hget]
    show (if t.byte = iac then _ else _) = _
    rw [if_neg t.isText.1, if_neg t.isText.2.1, if_neg t.isText.2.2]
  · split
    · exact hc₁.fputs [t.byte]
    · exact hc₁

theorem mem_escape : b ∈ escape xs ↔ b ∈ xs := by
  rw [escape, List.mem_flatMap]
  constructor
  · intro ⟨x, hx, hb⟩
    split at hb
    · have heq : b = iac := by simpa using hb
      rwa [heq, ← ‹x = iac›]
    · rw [List.mem_singleton.mp hb]
      exact hx
  · intro hb
    refine ⟨b, hb, ?_⟩
    split
    · rw [‹b = iac›]
      exact List.mem_cons_self
    · exact List.mem_singleton_self b

theorem Holds.round_sub {opt : UInt8} {parameters : List UInt8}
    (h : Holds c ((Item.sub opt parameters).encode ++ rest)) :
    ∃ c', round n echo c = (command n sb opt c').map .again ∧
      Holds c' (escape parameters ++ [iac] ++ se :: rest) := by
  have hsplit : (Item.sub opt parameters).encode ++ rest =
      iac :: sb :: opt :: (escape parameters ++ [iac] ++ se :: rest) := by
    simp only [Item.encode, List.append_assoc, List.cons_append, List.nil_append]
  rw [hsplit] at h
  exact h.round_iac

theorem command_sb (opt : UInt8) : command n sb opt c =
    if opt = termtype then skipTermtype n c else some c := rfl

/-- A round takes a plain item off. -/
theorem Holds.round (hi : i.Plain) (h : Holds c (i.encode ++ rest)) (hn : i.encode.length ≤ n) :
    ∃ c', round n echo c = some (i.round c') ∧ Holds c' rest := by
  cases i with
  | text t => exact h.round_text t
  | option verb opt =>
      obtain ⟨c₁, hround, hc₁⟩ := Holds.round_iac (n := n) h
      obtain ⟨c', hcommand, hc'⟩ := hc₁.option (n := n) verb opt
      exact ⟨c', by rw [hround, hcommand]; rfl, hc'⟩
  | sub opt parameters =>
      obtain ⟨c₁, hround, hc₁⟩ := Holds.round_sub (n := n) h
      have hse : se ∉ escape parameters ++ [iac] := by
        rw [List.mem_append, mem_escape]
        intro hmem
        cases hmem with
        | inl hmem => exact hi.2 hmem
        | inr hmem => exact absurd (List.mem_singleton.mp hmem) (by decide)
      have hlen : (escape parameters ++ [iac]).length < n := by
        simp only [Item.encode, List.length_append, List.length_cons, List.length_nil] at hn ⊢
        omega
      obtain ⟨c', hskip, hc'⟩ := hc₁.skipTermtype hse hlen
      exact ⟨c', by rw [hround, command_sb, if_pos hi.1, hskip]; rfl, hc'⟩

/-- A round that takes a subnegotiation off whole had to find its end. -/
theorem plain_of_round (h : Holds c (i.encode ++ rest)) (hn : i.encode.length ≤ n)
    (hround : Telnet.round n echo c = some (i.round c')) (hrest : c'.unread = rest) :
    i.Plain := by
  cases i with
  | text t => trivial
  | option verb opt => trivial
  | sub opt parameters =>
      obtain ⟨c₁, hround₁, hc₁⟩ := @Holds.round_sub n echo c rest opt parameters h
      rw [hround₁, command_sb] at hround
      have hunread : c₁.unread = escape parameters ++ [iac] ++ se :: rest := hc₁.unread
      by_cases hopt : opt = termtype
      · refine ⟨hopt, fun hmem ↦ ?_⟩
        obtain ⟨as, bs, hsplit, has⟩ := List.eq_append_cons_of_mem (mem_escape.mpr hmem)
        rw [hsplit, List.append_assoc, List.append_assoc, List.cons_append] at hc₁
        have hlen : as.length < n := by
          simp only [Item.encode, hsplit, List.length_append, List.length_cons] at hn
          omega
        obtain ⟨c₂, hskip, hc₂⟩ := hc₁.skipTermtype has hlen
        rw [if_pos hopt, hskip] at hround
        have heq : c₂ = c' := by simpa [Item.round] using hround
        have hlong := congrArg List.length (hc₂.unread.symm.trans ((congrArg Conn.unread heq).trans
          hrest))
        simp only [List.length_append, List.length_cons] at hlong
        omega
      · rw [if_neg hopt] at hround
        have heq : c₁ = c' := by simpa [Item.round] using hround
        have hlong := congrArg List.length (hunread.symm.trans ((congrArg Conn.unread heq).trans
          hrest))
        simp only [List.length_append, List.length_cons] at hlong
        omega

/-! ## The whole stream -/

theorem takenWhole_of_plain (h : Holds c (stream items)) (hn : (stream items).length ≤ n)
    (hplain : ∀ i ∈ items, i.Plain) : TakenWhole n echo items c := by
  induction items generalizing c with
  | nil => trivial
  | cons i is ih =>
      rw [stream, List.flatMap_cons, List.length_append] at hn
      obtain ⟨c', hround, hc'⟩ := @Holds.round n echo _ _ _
        (hplain i List.mem_cons_self) h (by omega)
      exact ⟨c', hround, hc'.unread, ih hc' (by show (is.flatMap _).length ≤ n; omega)
        fun j hj ↦ hplain j (List.mem_cons_of_mem i hj)⟩

theorem plain_of_takenWhole (h : Holds c (stream items)) (hn : (stream items).length ≤ n)
    (hwhole : TakenWhole n echo items c) : ∀ i ∈ items, i.Plain := by
  induction items generalizing c with
  | nil => exact fun i hi ↦ absurd hi List.not_mem_nil
  | cons i is ih =>
      rw [stream, List.flatMap_cons, List.length_append] at hn
      obtain ⟨c', hround, hunread, hrest⟩ := hwhole
      have hi : i.Plain := plain_of_round h (by omega) hround hunread
      -- the round is the one that the item asks for
      obtain ⟨c₁, hround₁, hc₁⟩ := @Holds.round n echo _ _ _ hi h (by omega)
      have heq : c₁ = c' := by
        rw [hround₁] at hround
        cases i with
        | text t => simpa [Item.round] using hround
        | option verb opt => simpa [Item.round] using hround
        | sub opt parameters => simpa [Item.round] using hround
      exact List.forall_mem_cons.mpr ⟨hi, ih (heq ▸ hc₁)
        (by show (is.flatMap _).length ≤ n; omega) hrest⟩

/-- A call goes through the commands in front of the next text byte. -/
theorem getCharLoop_of_takenWhole (hwhole : TakenWhole n echo items c) (hm : items.length ≤ m)
    (htext : items.filterMap Item.textByte = b :: bs) :
    ∃ c' is, getCharLoop n echo m c = some (some b, c') ∧ TakenWhole n echo is c' ∧
      is.filterMap Item.textByte = bs ∧ is.length ≤ items.length := by
  induction items generalizing c m with
  | nil => cases htext
  | cons i is ih =>
      obtain ⟨c₁, hround, -, hrest⟩ := hwhole
      cases m with
      | zero => cases hm
      | succ m =>
          rw [List.length_cons] at hm ⊢
          rw [getCharLoop, hround]
          cases i with
          | text t =>
              obtain ⟨hb, hbs⟩ := List.cons.inj htext
              exact ⟨c₁, is, by rw [← hb]; rfl, hrest, hbs, Nat.le_succ _⟩
          | option verb opt =>
              obtain ⟨c', js, hloop, hjs, htexts, hlen⟩ := ih (m := m) hrest (by omega) htext
              exact ⟨c', js, hloop, hjs, htexts, by omega⟩
          | sub opt parameters =>
              obtain ⟨c', js, hloop, hjs, htexts, hlen⟩ := ih (m := m) hrest (by omega) htext
              exact ⟨c', js, hloop, hjs, htexts, by omega⟩

/-- The calls return the text. -/
theorem returned_of_takenWhole (hwhole : TakenWhole n echo items c) (hn : items.length ≤ n)
    (htext : items.filterMap Item.textByte = bs) :
    ∃ c', returned n echo bs.length c = some (bs, c') := by
  induction bs generalizing c items with
  | nil => exact ⟨c, rfl⟩
  | cons b bs ih =>
      obtain ⟨c₁, is, hloop, his, htexts, hlen⟩ := getCharLoop_of_takenWhole hwhole hn htext
      obtain ⟨c', hreturned⟩ := ih his (by omega) htexts
      refine ⟨c', ?_⟩
      have hcall : getCharFromString n echo c = some (some b, c₁) := hloop
      rw [List.length_cons, returned, hcall]
      show (returned n echo bs.length c₁).map _ = _
      rw [hreturned]
      rfl

theorem Item.encode_pos (i : Item) : 0 < i.encode.length := by
  cases i with
  | text t => exact Nat.one_pos
  | option verb opt => exact Nat.succ_pos 2
  | sub opt parameters => exact Nat.succ_pos _

theorem length_le_stream (items : List Item) : items.length ≤ (stream items).length := by
  induction items with
  | nil => exact Nat.le_refl 0
  | cons i is ih =>
      have hpos := i.encode_pos
      rw [stream, List.flatMap_cons, List.length_append, List.length_cons]
      show is.length + 1 ≤ i.encode.length + (stream is).length
      omega

end

/-- Commands are consumed exactly and the text comes through just when every subnegotiation is about
the terminal type and has no `SE` among its parameters.  The rounds of the two loops are as many
as the stream is long at most. -/
theorem consumed_iff (n echo : Nat) (items : List Item) (c : Conn) (hcnt : 0 ≤ c.file.ibufCnt)
    (hunread : c.unread = stream items) (hn : (stream items).length ≤ n) :
    Consumed n echo items c ↔ ∀ i ∈ items, i.Plain := by
  have h : Holds c (stream items) := ⟨hcnt, hunread⟩
  constructor
  · exact fun hconsumed ↦ plain_of_takenWhole h hn hconsumed.whole
  · intro hplain
    have hwhole : TakenWhole n echo items c := takenWhole_of_plain h hn hplain
    exact ⟨hwhole, returned_of_takenWhole hwhole ((length_le_stream items).trans hn) rfl⟩

instance : DecidablePred Item.Plain
  | .text _ => isTrue trivial
  | .option _ _ => isTrue trivial
  | .sub _ _ => inferInstanceAs (Decidable (_ ∧ _))

/-- A new connection on which the bytes come at once. -/
def arrived (bs : List UInt8) (hne : bs ≠ []) (hle : bs.length ≤ ibufSize) : Conn :=
  ⟨zotFopen fun _ ↦ 0, [.piece ⟨bs, hne, hle⟩], [], false, 1⟩

/-- A client tells its terminal type before the user types `1` and Enter. -/
def login : List Item :=
  [.option .will termtype, .sub termtype [0, 0x56, 0x54], .text ⟨0x31, by decide⟩,
    .option .doOption suppressGoAhead, .text ⟨0x0D, by decide⟩]

theorem consumed_login :
    Consumed 100 1 login (arrived (stream login) (by decide) (by decide)) :=
  (consumed_iff 100 1 login _ (by decide) (by decide) (by decide)).mpr (by decide)

/-- A client tells the size of its window before the user types `1`. -/
def windowSize : List Item := [.sub 31 [0, 80, 0, 24], .text ⟨0x31, by decide⟩]

theorem windowSize_as_text : ¬∀ (n echo : Nat) (items : List Item) (c : Conn),
    0 ≤ c.file.ibufCnt → c.unread = stream items → (stream items).length ≤ n →
      Consumed n echo items c := by
  intro hall
  have hconsumed := hall 100 1 windowSize (arrived (stream windowSize) (by decide) (by decide))
    (by decide) (by decide) (by decide)
  obtain ⟨c', htext⟩ := hconsumed.text
  have hread : (returned 100 1 1 (arrived (stream windowSize) (by decide) (by decide))).map
      (fun r ↦ r.1) = some [0] := by decide
  have hone : (windowSize.filterMap Item.textByte).length = 1 := rfl
  rw [hone] at htext
  rw [htext, Option.map_some, Option.some.injEq] at hread
  have hbytes : windowSize.filterMap Item.textByte = [0] := hread
  exact absurd hbytes (by decide)

end PrintServer.Telnet
