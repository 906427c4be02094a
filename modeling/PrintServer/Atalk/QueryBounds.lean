import PrintServer.Atalk.QueryLine

/-!
# Queries in bounds

A session stays in bounds if and only if each of its steps does, and a step leaves the bounds in one
of four ways, which are conditions on what the client sent and on what is in the line slot.
-/

namespace PrintServer.Atalk.Query

open Http (bytes chr)
open Lib

variable {s s' : Session} {format : DataFormat} {matched : Bool} {data : List UInt8} {len : Int}

/-! ## What the operations leave -/

section Kept

@[simp] theorem note_infile {as : List Access} : (s.note as).infile = s.infile := rfl
@[simp] theorem note_busy {as : List Access} : (s.note as).busy = s.busy := rfl
@[simp] theorem putText_infile : (s.putText data len).infile = s.infile := rfl
@[simp] theorem putText_busy : (s.putText data len).busy = s.busy := rfl

theorem alloc_eq (s : Session) : ∃ heap granted, s.alloc = ({ s with heap }, granted) := by
  unfold Session.alloc
  split
  · exact ⟨s.heap, false, rfl⟩
  · exact ⟨_, _, rfl⟩

/-- An operation on the reply: the file is left alone, and the record goes on. -/
structure Replies (s s' : Session) : Prop where
  infile : s'.infile = s.infile
  busy : s'.busy = s.busy
  recorded : ∀ a ∈ s.accesses, a ∈ s'.accesses

theorem Replies.trans {s₁ s₂ s₃ : Session} (h : Replies s₁ s₂) (h' : Replies s₂ s₃) :
    Replies s₁ s₃ :=
  ⟨h'.infile.trans h.infile, h'.busy.trans h.busy, fun a ha ↦ h'.recorded a (h.recorded a ha)⟩

theorem note_replies (s : Session) (as : List Access) : Replies s (s.note as) :=
  ⟨rfl, rfl, fun _ ha ↦ List.mem_append_left as ha⟩

theorem putText_replies : Replies s (s.putText data len) :=
  ⟨rfl, rfl, fun _ ha ↦ List.mem_append_left _ ha⟩

theorem pullUp_replies : Replies s s.pullUp :=
  ⟨rfl, rfl, fun _ ha ↦ List.mem_append_left _ ha⟩

theorem morespace_replies : Replies s (s.morespace data len) := by
  refine pullUp_replies.trans ?_
  unfold Session.morespace
  dsimp only
  split
  · obtain ⟨heap, granted, halloc⟩ := alloc_eq s.pullUp
    rw [halloc]
    cases granted with
    | false => exact ⟨rfl, rfl, fun _ ha ↦ ha⟩
    | true => exact ⟨rfl, rfl, fun _ ha ↦ List.mem_append_left _ ha⟩
  · exact putText_replies

theorem append_replies : Replies s (s.append data len) := by
  unfold Session.append
  split
  · exact morespace_replies
  · exact putText_replies

theorem fontName_replies (word : List UInt8) : Replies s (s.fontName word) :=
  (note_replies s _).trans
    (append_replies.trans (append_replies.trans (append_replies.trans append_replies)))

theorem fontAnswer_replies (words : List (List UInt8)) (s : Session) :
    Replies s (words.foldl Session.fontName s) := by
  induction words generalizing s with
  | nil => exact ⟨rfl, rfl, fun _ ha ↦ ha⟩
  | cons word words ih =>
      rw [List.foldl_cons]
      exact (fontName_replies word).trans (ih _)

end Kept

/-! ## Replies -/

theorem Inv.putText (h : Inv s) (hfit : s.outfile.stop + data.length ≤ s.outfile.len) :
    Inv (s.putText data data.length) := by
  refine ⟨allInBounds_append.mpr ⟨h.safe, ?_⟩, h.count, h.slot, ?_⟩
  · apply allInBounds_cons.mpr
    refine ⟨⟨?_, ?_, ?_⟩, allInBounds_nil⟩
    · omega
    · omega
    · omega
  · show s.outfile.cur + (s.outfile.text ++ data).length ≤ s.outfile.len
    rw [List.length_append]
    unfold OutFile.stop at hfit
    omega

/-- The new size is a multiple of `PF_MORESPACE` that is large enough. -/
theorem le_nsize (need : Nat) : need ≤ (need / Session.pfMorespace +
    if need % Session.pfMorespace = 0 then 0 else 1) * Session.pfMorespace := by
  unfold Session.pfMorespace
  split <;> omega

theorem Inv.pullUp (h : Inv s) : Inv s.pullUp := by
  have hreply := h.reply
  unfold OutFile.stop at hreply
  refine ⟨allInBounds_append.mpr ⟨h.safe, ?_⟩, h.count, h.slot, ?_⟩
  · split
    · exact allInBounds_nil
    · apply allInBounds_cons.mpr
      refine ⟨⟨?_, ?_, ?_⟩, allInBounds_nil⟩
      · omega
      · omega
      · omega
  · show 0 + s.outfile.text.length ≤ s.outfile.len
    omega

theorem Inv.morespace (h : Inv s) : Inv (s.morespace data data.length) := by
  have hpulled := h.pullUp
  have hreply := hpulled.reply
  unfold Session.morespace
  dsimp only
  split
  · obtain ⟨heap, granted, halloc⟩ := alloc_eq s.pullUp
    have hsize := le_nsize (s.pullUp.outfile.len + data.length)
    rw [halloc]
    cases granted with
    | false => exact ⟨hpulled.safe, hpulled.count, hpulled.slot, hreply⟩
    | true =>
        have hfit : s.pullUp.outfile.stop + data.length ≤ s.pullUp.outfile.len + data.length := by
          omega
        rw [Int.toNat_natCast]
        apply Inv.putText
        · refine ⟨hpulled.safe, hpulled.count, hpulled.slot, ?_⟩
          exact Nat.le_trans (Nat.le_add_right _ _) (Nat.le_trans hfit hsize)
        · exact Nat.le_trans hfit hsize
  · rename_i hroom
    have hle := Int.not_lt.mp hroom
    exact hpulled.putText (by omega)

theorem Inv.reply_text (h : Inv s) (data : List UInt8) : Inv (s.reply data) := by
  unfold Session.reply Session.append
  split
  · exact h.morespace
  · rename_i hroom
    have hle := Int.not_lt.mp hroom
    exact h.putText (by omega)

theorem reply_infile : (s.reply data).infile = s.infile := append_replies.infile

/-! ## Names of fonts -/

theorem Inv.fontName (h : Inv s) {word : List UInt8} (hword : word.length < 256) :
    Inv (s.fontName word) := by
  have hcopy : AllInBounds [.copy (word.length + 1) (word.length + 1) 256] := by
    apply allInBounds_cons.mpr
    refine ⟨⟨?_, ?_, ?_⟩, allInBounds_nil⟩
    · omega
    · omega
    · omega
  exact ((((h.note hcopy).reply_text _).reply_text _).reply_text _).reply_text _

theorem Inv.fontAnswer (h : Inv s) {words : List (List UInt8)}
    (hwords : ∀ word ∈ words, word.length < 256) : Inv (words.foldl Session.fontName s) := by
  induction words generalizing s with
  | nil => exact h
  | cons word words ih =>
      obtain ⟨hword, hwords⟩ := List.forall_mem_cons.mp hwords
      rw [List.foldl_cons]
      exact ih (h.fontName hword) hwords

/-- A name of 256 octets or more does not fit. -/
theorem fontAnswer_bad {words : List (List UInt8)} (s : Session)
    (hbad : ¬ ∀ word ∈ words, word.length < 256) :
    ¬ AllInBounds (words.foldl Session.fontName s).accesses := by
  induction words generalizing s with
  | nil => exact absurd (fun _ h ↦ by contradiction) hbad
  | cons word words ih =>
      rw [List.foldl_cons]
      by_cases hword : word.length < 256
      · apply ih
        intro hwords
        exact hbad (List.forall_mem_cons.mpr ⟨hword, hwords⟩)
      · -- the copy stays in the record
        have hrest := fontAnswer_replies words (s.fontName word)
        have hone : Access.copy (word.length + 1) (word.length + 1) 256 ∈
            (s.fontName word).accesses :=
          (append_replies.trans
            (append_replies.trans (append_replies.trans append_replies))).recorded _
              (List.mem_append_right _ (List.mem_singleton_self _))
        intro hsafe
        obtain ⟨-, -, hroom⟩ := hsafe _ (hrest.recorded _ hone)
        omega

/-! ## The answer of a default query -/

theorem skipBlanks_le (octets : Nat → UInt8) (p n : Nat) : skipBlanks octets p n ≤ p + n := by
  induction n generalizing p with
  | zero => exact Nat.le_refl p
  | succ n ih =>
      rw [skipBlanks]
      split
      · have hrest := ih (p + 1)
        omega
      · omega

/-- The loop looks at all `n` octets when all of them are blank. -/
theorem skipBlanks_eq_iff (octets : Nat → UInt8) (p n : Nat) :
    skipBlanks octets p n = p + n ↔ ∀ ch ∈ readMem octets p n, ch = chr ' ' := by
  induction n generalizing p with
  | zero => exact ⟨fun _ ch hch ↦ by contradiction, fun _ ↦ rfl⟩
  | succ n ih =>
      have hsplit : readMem octets p (n + 1) = octets p :: readMem octets (p + 1) n := by
        rw [Nat.add_comm n 1, readMem_add]
        rfl
      rw [skipBlanks, hsplit, List.forall_mem_cons, ← ih]
      split
      · rename_i hblank
        constructor
        · intro h
          exact ⟨hblank, by omega⟩
        · intro h
          omega
      · rename_i hblank
        constructor
        · intro h
          omega
        · intro h
          exact absurd h.1 hblank

/-- There is an answer in the line, or the octet behind the line in the slot is not a blank. -/
def AnswerEnds (octets : Nat → UInt8) (text : List UInt8) : Prop :=
  ∃ ch ∈ text.drop (behind (chr ':') text) ++ [octets text.length], ch ≠ chr ' '

theorem behind_le (ch : UInt8) {text : List UInt8} (hpos : 0 < text.length) :
    behind ch text ≤ text.length := by
  have hle := (List.takeWhile_sublist (l := text.dropLast) (· ≠ ch)).length_le
  rw [List.length_dropLast] at hle
  unfold behind
  omega

/-- The octets that the loop over blanks looks at. -/
theorem readMem_behind {octets : Nat → UInt8} {text : List UInt8}
    (htext : readMem octets 0 text.length = text) {p : Nat} (hp : p ≤ text.length) :
    readMem octets p (text.length + 1 - p) = text.drop p ++ [octets text.length] := by
  have hall : readMem octets 0 (text.length + 1) = text ++ [octets text.length] := by
    rw [readMem_add, htext, Nat.zero_add]
    rfl
  have hwindow := @readMem_window _ octets 0 p (text.length + 1 - p) (text.length + 1) (by omega)
  rw [hall, Nat.zero_add, List.drop_append_of_le_length hp, List.take_of_length_le] at hwindow
  · exact hwindow.symm
  · rw [List.length_append, List.length_drop, List.length_singleton]
    omega

theorem skipBlanks_le_iff {octets : Nat → UInt8} {text : List UInt8}
    (htext : readMem octets 0 text.length = text) (hpos : 0 < text.length) :
    skipBlanks octets (behind (chr ':') text) (text.length + 1 - behind (chr ':') text) ≤
      text.length ↔ AnswerEnds octets text := by
  have hp := behind_le (chr ':') hpos
  have hle := skipBlanks_le octets (behind (chr ':') text)
    (text.length + 1 - behind (chr ':') text)
  have hiff := skipBlanks_eq_iff octets (behind (chr ':') text)
    (text.length + 1 - behind (chr ':') text)
  rw [readMem_behind htext hp] at hiff
  unfold AnswerEnds
  constructor
  · intro hend
    by_contra hnone
    have hblank : ∀ ch ∈ text.drop (behind (chr ':') text) ++ [octets text.length],
        ch = chr ' ' := by
      intro ch hch
      by_contra hne
      exact hnone ⟨ch, hch, hne⟩
    have heq := hiff.mpr hblank
    omega
  · intro hsome
    obtain ⟨ch, hch, hne⟩ := hsome
    by_contra hlt
    exact hne (hiff.mp (by omega) ch hch)

/-! ## The conditions -/

/-- Nothing is left to be printed when the first line of a job is neither a magic line nor has an
end, or when there are no packets. -/
def NothingLeft (f : InFile) : Prop :=
  if f.bot then ¬ f.Ends ∧ ∃ text, f.nextLine = some text ∧ commatch text = none
  else f.iobuf = []

/-- What a turn asks of the next line. -/
def TurnFine (format : DataFormat) (matched : Bool) (s : Session) : Prop :=
  match s.comstate with
  | [] => ¬ (format = .none ∧ matched = false ∧ s.infile.eof = true ∧ NothingLeft s.infile)
  | (.font, flags) :: _ => ∀ text, s.infile.nextLine = some text →
      ∀ word ∈ fontWords (Session.fontText flags text), word.length < 256
  | (.default, flags) :: _ => ∀ text, s.infile.nextLine = some text → flags ≠ 0 →
      begins text (bytes "%%?End") = true → AnswerEnds s.infile.slot.octets text
  | (.magic _, _) :: _ => True

def Fine (format : DataFormat) (s : Session) : Label → Prop
  | .receive r => s.ended = false → s.busy = none → s.requested = true → s.accepts r = true →
      ∀ p ∈ r.packets, 4 ≤ p.length
  | .turn => ∀ matched, s.ended = false → s.busy = some matched → TurnFine format matched s
  | _ => True

/-- The invariant of a session between two steps. -/
structure Good (s : Session) : Prop extends Inv s where
  ready : s.busy.isSome = true → s.infile.Ready

/-! ## Printing -/

theorem iobufs_inBounds {n : Nat} (h : n ≤ papMaxQuantum) :
    AllInBounds ((List.range n).map fun i : Nat => Access.iobuf i) := by
  intro a ha
  obtain ⟨i, hi, rfl⟩ := List.mem_map.mp ha
  have hlt := List.mem_range.mp hi
  exact iobuf_inBounds (by omega)

theorem Inv.paprint (h : Inv s) {flags : PrnFlag}
    (hleft : format = .none → flags ≠ .normal → s.infile.iobuf ≠ []) :
    Inv (s.paprint format flags) := by
  refine ⟨?_, Nat.zero_le _, h.slot, h.reply⟩
  refine allInBounds_append.mpr ⟨h.safe, allInBounds_append.mpr ⟨?_, iobufs_inBounds h.count⟩⟩
  split
  · rename_i hlast
    have hpos := List.length_pos_iff.mpr (hleft hlast.1 hlast.2)
    have hcount := h.count
    apply allInBounds_cons.mpr
    refine ⟨⟨?_, ?_⟩, allInBounds_nil⟩
    · omega
    · unfold papMaxQuantum at *
      omega
  · exact allInBounds_nil

/-- Without packets `'\4'` is written in front of `iobuf`. -/
theorem paprint_bad {flags : PrnFlag} (hformat : format = .none) (hflags : flags ≠ .normal)
    (hnil : s.infile.iobuf = []) : ¬ AllInBounds (s.paprint format flags).accesses := by
  intro hsafe
  have hmem : Access.iobuf ((s.infile.iobuf.length : Int) - 1) ∈
      (s.paprint format flags).accesses := by
    refine List.mem_append_right _ (List.mem_append_left _ ?_)
    rw [if_pos ⟨hformat, hflags⟩]
    exact List.mem_singleton_self _
  obtain ⟨hpos, -⟩ := hsafe _ hmem
  rw [hnil, List.length_nil] at hpos
  omega

/-! ## One turn -/

section Turn

variable {flags : Nat} {text : List UInt8}

theorem good_of (h : Inv s) (hready : s.infile.Ready) : Good s := ⟨h, fun _ ↦ hready⟩

theorem good_wait (h : Inv s) : Good s.wait :=
  ⟨⟨h.safe, h.count, h.slot, h.reply⟩, fun hbusy ↦ absurd hbusy Bool.false_ne_true⟩

theorem good_consume (h : Inv s) (hready : s.infile.Ready) : Good s.consumetomark :=
  ⟨⟨h.safe, h.count, h.slot, h.reply⟩, fun _ ↦ hready⟩

/-- The handler has answered, and the comment is done. -/
theorem good_answered (h : Inv s) (hready : s.infile.Ready) : Good s.compop.consumetomark.done :=
  ⟨⟨h.safe, h.count, h.slot, h.reply⟩, fun _ ↦ hready⟩

theorem answered_accesses : s.compop.consumetomark.done.accesses = s.accesses := rfl

theorem good_push (h : Inv s) (hready : s.infile.Ready) (c : Comment) : Good (s.compush c) := by
  obtain ⟨heap, granted, halloc⟩ := alloc_eq s
  unfold Session.compush
  rw [halloc]
  cases granted with
  | true => exact ⟨⟨h.safe, h.count, h.slot, h.reply⟩, fun _ ↦ hready⟩
  | false => exact ⟨⟨h.safe, h.count, h.slot, h.reply⟩, fun _ ↦ hready⟩

theorem Good.done (h : Good s) (hready : s.infile.Ready) : Good s.done :=
  ⟨⟨h.safe, h.count, h.slot, h.reply⟩, fun _ ↦ hready⟩

theorem compush_infile (c : Comment) : (s.compush c).infile = s.infile := by
  obtain ⟨heap, granted, halloc⟩ := alloc_eq s
  unfold Session.compush
  rw [halloc]
  cases granted <;> rfl

theorem ready_of_eof (h : s.infile.eof = true) : s.infile.Ready := .inr h

/-- The answer is copied when the loop over blanks ends in the line or right behind it. -/
theorem Inv.append_answer (h : Inv s) (octets : Nat → UInt8) {n p : Nat} (hle : p ≤ n) :
    Inv (s.append (readMem octets p (n - p)) ((n : Int) - p)) ∧
      (s.append (readMem octets p (n - p)) ((n : Int) - p)).infile = s.infile := by
  have hlen : ((n : Int) - p) = (readMem octets p (n - p)).length := by
    rw [length_readMem]
    omega
  rw [hlen]
  exact ⟨h.reply_text _, append_replies.infile⟩

/-- Otherwise its length is negative. -/
theorem append_answer_bad (h : Inv s) (data : List UInt8) {n p : Nat} (hlt : n < p) :
    Access.copy ((n : Int) - p) data.length (s.outfile.len - s.outfile.stop) ∈
      (s.append data ((n : Int) - p)).accesses := by
  have hreply := h.reply
  unfold Session.append
  rw [if_neg (by omega)]
  exact List.mem_append_right _ (List.mem_singleton_self _)

theorem cqDefault_good (h : Inv s) (hready : s.infile.Ready)
    (hfine : ∀ text, s.infile.nextLine = some text → flags ≠ 0 →
      begins text (bytes "%%?End") = true → AnswerEnds s.infile.slot.octets text) :
    Good (s.cqDefault flags) := by
  have hmark := markline_spec h hready
  unfold Session.cqDefault
  generalize s.markline = marked at hmark ⊢
  cases hmark with
  | eof inv => exact good_wait inv
  | more inv => exact good_wait inv
  | @line s' text inv frame ready next text_eq pos rest left =>
      dsimp only
      rw [text_eq]
      by_cases hflags : flags = 0
      · rw [if_pos hflags]
        exact good_consume (s := s'.comsetflags 1) ⟨inv.safe, inv.count, inv.slot, inv.reply⟩ ready
      rw [if_neg hflags]
      by_cases hends : begins text (bytes "%%?End") = true
      · have hanswer := hfine text next hflags hends
        unfold AnswerEnds at hanswer
        rw [← rest text.length (Nat.le_refl _)] at hanswer
        have hle := (skipBlanks_le_iff text_eq pos).mpr hanswer
        rw [if_pos hends]
        let octets := writeMem s'.infile.slot.octets (text.length - 1) [chr '\n']
        let t : Session :=
          { s' with infile := { s'.infile with slot := { s'.infile.slot with octets } } }
        have hinv : Inv t := ⟨inv.safe, inv.count, inv.slot, inv.reply⟩
        obtain ⟨hanswered, hkept⟩ := hinv.append_answer octets hle
        exact good_answered hanswered ((congrArg InFile.Ready hkept).mpr ready)
      · rw [if_neg hends]
        exact good_consume inv ready

theorem cqDefault_bad (h : Inv s) (hready : s.infile.Ready)
    (hbad : ¬ ∀ text, s.infile.nextLine = some text → flags ≠ 0 →
      begins text (bytes "%%?End") = true → AnswerEnds s.infile.slot.octets text) :
    ¬ AllInBounds (s.cqDefault flags).accesses := by
  have hmark := markline_spec h hready
  unfold Session.cqDefault
  generalize s.markline = marked at hmark ⊢
  simp only [not_forall] at hbad
  obtain ⟨text, hnext, hflags, hends, hanswer⟩ := hbad
  cases hmark with
  | eof inv frame none => rw [none] at hnext; contradiction
  | more inv none => rw [none] at hnext; contradiction
  | @line s' text' inv frame ready next text_eq pos rest left =>
      obtain rfl : text' = text := Option.some.inj (next.symm.trans hnext)
      dsimp only
      rw [text_eq, if_neg hflags, if_pos hends]
      unfold AnswerEnds at hanswer
      rw [← rest text'.length (Nat.le_refl _)] at hanswer
      have hlt := Nat.lt_of_not_le fun hle ↦ hanswer ((skipBlanks_le_iff text_eq pos).mp hle)
      let octets := writeMem s'.infile.slot.octets (text'.length - 1) [chr '\n']
      let t : Session :=
        { s' with infile := { s'.infile with slot := { s'.infile.slot with octets } } }
      have hinv : Inv t := ⟨inv.safe, inv.count, inv.slot, inv.reply⟩
      rw [answered_accesses]
      intro hsafe
      obtain ⟨hpos, -⟩ := hsafe _ (append_answer_bad hinv _ hlt)
      omega

/-- The names in a line of a query are answered. -/
theorem good_answer (h : Inv s) (hready : s.infile.Ready)
    (hwords : ∀ word ∈ fontWords text, word.length < 256) :
    Good (s.cqFontAnswer text).consumetomark := by
  have hkept := fontAnswer_replies (fontWords text) s
  exact good_consume (h.fontAnswer hwords) ((congrArg InFile.Ready hkept.infile).mpr hready)

theorem cqFont_good (h : Inv s) (hready : s.infile.Ready)
    (hfine : ∀ text, s.infile.nextLine = some text →
      ∀ word ∈ fontWords (Session.fontText flags text), word.length < 256) :
    Good (s.cqFont flags) := by
  have hmark := markline_spec h hready
  unfold Session.cqFont
  generalize s.markline = marked at hmark ⊢
  cases hmark with
  | eof inv frame none end_of_file =>
      exact ⟨⟨inv.safe, inv.count, inv.slot, inv.reply⟩,
        fun _ ↦ ready_of_eof (frame.eof.trans end_of_file)⟩
  | more inv => exact good_wait inv
  | @line s' text inv frame ready next text_eq pos rest left =>
      have hwords := hfine text next
      dsimp only
      rw [text_eq]
      by_cases hflags : flags = 0
      · rw [if_pos hflags]
        exact good_answer (s := s'.comsetflags 1) ⟨inv.safe, inv.count, inv.slot, inv.reply⟩
          ready hwords
      rw [if_neg hflags]
      by_cases hcont : flags = 1 ∧ begins text commCont
      · rw [if_pos hcont]
        exact good_answer inv ready hwords
      rw [if_neg hcont]
      have hset : Inv (s'.comsetflags 2) := ⟨inv.safe, inv.count, inv.slot, inv.reply⟩
      by_cases hends : begins text (bytes "%%?EndFontQuery") = true
      · have hinv := hset.reply_text (bytes "*\n")
        have hkept := @reply_infile (s'.comsetflags 2) (bytes "*\n")
        rw [if_pos hends]
        exact good_answered hinv ((congrArg InFile.Ready hkept).mpr ready)
      · rw [if_neg hends]
        exact good_consume hset ready

theorem cqFont_bad (h : Inv s) (hready : s.infile.Ready)
    (hbad : ¬ ∀ text, s.infile.nextLine = some text →
      ∀ word ∈ fontWords (Session.fontText flags text), word.length < 256) :
    ¬ AllInBounds (s.cqFont flags).accesses := by
  have hmark := markline_spec h hready
  unfold Session.cqFont
  generalize s.markline = marked at hmark ⊢
  rw [not_forall] at hbad
  obtain ⟨text, hbad⟩ := hbad
  rw [Classical.not_imp] at hbad
  obtain ⟨hnext, hwords⟩ := hbad
  cases hmark with
  | eof inv frame none => rw [none] at hnext; contradiction
  | more inv none => rw [none] at hnext; contradiction
  | @line s' text' inv frame ready next text_eq pos rest left =>
      obtain rfl : text' = text := Option.some.inj (next.symm.trans hnext)
      dsimp only
      rw [text_eq]
      by_cases hflags : flags = 0
      · rw [if_pos hflags]
        exact fontAnswer_bad (s'.comsetflags 1) hwords
      rw [if_neg hflags]
      by_cases hcont : flags = 1 ∧ begins text' commCont
      · rw [if_pos hcont]
        exact fontAnswer_bad s' hwords
      · -- nothing is asked for in such a line
        rw [Session.fontText, if_neg hflags, if_neg hcont] at hwords
        exact absurd (by decide) hwords

theorem cmPsquery_good (h : Inv s) (hready : s.infile.Ready) : Good s.cmPsquery := by
  have hmark := markline_spec h hready
  unfold Session.cmPsquery
  generalize s.markline = marked at hmark ⊢
  cases hmark with
  | eof inv frame none end_of_file =>
      exact ⟨⟨inv.safe, inv.count, inv.slot, inv.reply⟩,
        fun _ ↦ ready_of_eof (frame.eof.trans end_of_file)⟩
  | more inv => exact good_wait inv
  | @line s' text inv frame ready next text_eq pos rest left =>
      dsimp only
      by_cases hbot : s'.infile.bot = true
      · rw [if_pos hbot]
        exact ⟨⟨inv.safe, inv.count, inv.slot, inv.reply⟩, fun _ ↦ ready⟩
      · rw [if_neg hbot]
        cases querymatch (s'.lineText text.length) with
        | none => exact good_consume inv ready
        | some c =>
            exact (good_push inv ready c).done
              ((congrArg InFile.Ready (compush_infile c)).mpr ready)

theorem cmPsswitch_good (h : Inv s) (hready : s.infile.Ready) : Good (s.cmPsswitch format) := by
  have hmark := markline_spec h hready
  rw [Session.cmPsswitch_eq]
  generalize s.markline = marked at hmark ⊢
  cases hmark with
  | eof inv frame none end_of_file =>
      exact ⟨⟨inv.safe, inv.count, inv.slot, inv.reply⟩,
        fun _ ↦ ready_of_eof (frame.eof.trans end_of_file)⟩
  | more inv => exact good_wait inv
  | @line s' text inv frame ready next text_eq pos rest left =>
      have hpop : Inv s'.compop := ⟨inv.safe, inv.count, inv.slot, inv.reply⟩
      exact (good_push hpop ready _).done
        ((congrArg InFile.Ready (compush_infile _)).mpr ready)

/-- At the end of the file the last packet is looked at. -/
theorem adobe_end (h : Inv s) (heof : s.infile.eof = true) {iobuf : List (List UInt8)}
    (hne : iobuf ≠ []) (hle : iobuf.length ≤ papMaxQuantum) :
    Good ((Session.paprint format .eof (Session.note
      { s with infile := { s.infile with iobuf } }
      [.iobuf 0, .iobuf ((iobuf.length : Int) - 1)])).done) := by
  have hpos := List.length_pos_iff.mpr hne
  have hused : AllInBounds [.iobuf 0, .iobuf ((iobuf.length : Int) - 1)] := by
    rw [allInBounds_cons, allInBounds_cons]
    refine ⟨iobuf_inBounds (Nat.zero_le _), ⟨?_, ?_⟩, allInBounds_nil⟩
    · omega
    · unfold papMaxQuantum at *
      omega
  have hinv : Inv (Session.note { s with infile := { s.infile with iobuf } }
      [.iobuf 0, .iobuf ((iobuf.length : Int) - 1)]) :=
    ⟨allInBounds_append.mpr ⟨h.safe, hused⟩, hle, h.slot, h.reply⟩
  have hprinted := @Inv.paprint _ format hinv .eof fun _ _ ↦ hne
  exact (good_of hprinted (ready_of_eof heof)).done (ready_of_eof heof)

/-- The handler of a magic line gives the file a packet if it has none. -/
theorem cmPsadobe_good (h : Inv s) : Good (s.cmPsadobe format) := by
  rw [Session.cmPsadobe_eq]
  cases heof : s.infile.eof with
  | false => exact good_wait (h.paprint (fun _ hflags ↦ absurd rfl hflags))
  | true =>
      simp only [if_true]
      let t : Session :=
        Session.compop { s with outfile := { s.outfile with eof := true, eop := true } }
      have hinv : Inv t := ⟨h.safe, h.count, h.slot, h.reply⟩
      apply adobe_end hinv heof
      · split
        · exact List.cons_ne_nil _ _
        · assumption
      · split
        · decide
        · exact h.count

theorem printPackets_good (h : Inv s)
    (hleft : format = .none → matched = false → s.infile.eof = true → s.infile.iobuf ≠ []) :
    Good (s.printPackets format matched) := by
  rw [Session.printPackets_eq]
  cases heof : s.infile.eof with
  | false => exact good_wait (h.paprint (fun _ hflags ↦ absurd rfl hflags))
  | true =>
      simp only [if_true]
      cases matched with
      | true => exact good_wait ⟨h.safe, h.count, h.slot, h.reply⟩
      | false =>
          let t : Session := { s with outfile := { s.outfile with eof := true, eop := true } }
          have hinv : Inv t := ⟨h.safe, h.count, h.slot, h.reply⟩
          exact good_wait (hinv.paprint fun hformat _ ↦ hleft hformat rfl heof)

theorem printPackets_bad (hformat : format = .none) (heof : s.infile.eof = true)
    (hnil : s.infile.iobuf = []) : ¬ AllInBounds (s.printPackets format false).accesses := by
  rw [Session.printPackets_eq]
  rw [if_pos heof]
  exact paprint_bad hformat (by decide) hnil

theorem command_good (h : Inv s) (hready : s.infile.Ready)
    (hfine : ¬ (format = .none ∧ matched = false ∧ s.infile.eof = true ∧ NothingLeft s.infile)) :
    Good (s.command format matched) := by
  rw [Session.command_eq]
  unfold NothingLeft at hfine
  by_cases hbot : s.infile.bot = true
  · rw [if_pos hbot] at hfine ⊢
    have hmark := markline_spec h hready
    generalize s.markline = marked at hmark ⊢
    cases hmark with
    | eof inv => exact good_wait ⟨inv.safe, inv.count, inv.slot, inv.reply⟩
    | more inv => exact good_wait inv
    | @line s' text inv frame ready next text_eq pos rest left =>
        dsimp only
        rw [text_eq]
        cases hmatch : commatch text with
        | some handler => exact good_push inv ready _
        | none =>
            refine printPackets_good ⟨inv.safe, inv.count, inv.slot, inv.reply⟩ ?_
            intro hformat hmatched heof hnil
            exact hfine ⟨hformat, hmatched, frame.eof.symm.trans heof, left.mp hnil, text, next,
              hmatch⟩
  · rw [if_neg hbot] at hfine ⊢
    exact printPackets_good h fun hformat hmatched heof hnil ↦
      hfine ⟨hformat, hmatched, heof, hnil⟩

theorem command_bad (h : Inv s) (hready : s.infile.Ready) (hformat : format = .none)
    (heof : s.infile.eof = true) (hleft : NothingLeft s.infile) :
    ¬ AllInBounds (s.command format false).accesses := by
  rw [Session.command_eq]
  unfold NothingLeft at hleft
  by_cases hbot : s.infile.bot = true
  · rw [if_pos hbot] at hleft ⊢
    obtain ⟨hends, text, hnext, hmatch⟩ := hleft
    have hmark := markline_spec h hready
    generalize s.markline = marked at hmark ⊢
    cases hmark with
    | eof inv frame none => rw [none] at hnext; contradiction
    | more inv none => rw [none] at hnext; contradiction
    | @line s' text' inv frame ready next text_eq pos rest left =>
        obtain rfl : text' = text := Option.some.inj (next.symm.trans hnext)
        dsimp only
        rw [text_eq, hmatch]
        exact printPackets_bad hformat (frame.eof.trans heof) (left.mpr hends)
  · rw [if_neg hbot] at hleft ⊢
    exact printPackets_bad hformat heof hleft

theorem turn_good (h : Inv s) (hready : s.infile.Ready) (hfine : TurnFine format matched s) :
    Good (s.turn format matched) := by
  unfold TurnFine at hfine
  unfold Session.turn
  cases hcom : s.comstate with
  | nil =>
      rw [hcom] at hfine
      exact command_good h hready hfine
  | cons top rest =>
      rw [hcom] at hfine
      obtain ⟨comment, flags⟩ := top
      cases comment with
      | font => exact cqFont_good h hready hfine
      | default => exact cqDefault_good h hready hfine
      | magic handler =>
          cases handler with
          | psquery => exact cmPsquery_good h hready
          | psadobe => exact cmPsadobe_good h
          | psswitch => exact cmPsswitch_good h hready

theorem turn_bad (h : Inv s) (hready : s.infile.Ready) (hbad : ¬ TurnFine format matched s) :
    ¬ AllInBounds (s.turn format matched).accesses := by
  unfold TurnFine at hbad
  unfold Session.turn
  cases hcom : s.comstate with
  | nil =>
      rw [hcom] at hbad
      obtain ⟨hformat, hmatched, heof, hleft⟩ := not_not.mp hbad
      rw [hmatched]
      exact command_bad h hready hformat heof hleft
  | cons top rest =>
      rw [hcom] at hbad
      obtain ⟨comment, flags⟩ := top
      cases comment with
      | font => exact cqFont_bad h hready hbad
      | default => exact cqDefault_bad h hready hbad
      | magic handler => exact absurd trivial hbad

end Turn

/-! ## The other steps -/

theorem headerAccesses_inBounds (packets : List (List UInt8)) (i : Nat)
    (hcount : i + packets.length ≤ papMaxQuantum)
    (hdata : ∀ p ∈ packets, 4 ≤ p.length ∧ p.length ≤ papMaxData + 4) :
    AllInBounds (Session.headerAccesses i packets) := by
  induction packets generalizing i with
  | nil => exact allInBounds_nil
  | cons packet packets ih =>
      obtain ⟨hpacket, hpackets⟩ := List.forall_mem_cons.mp hdata
      rw [List.length_cons] at hcount
      unfold papMaxData at hpacket
      rw [Session.headerAccesses, allInBounds_cons, allInBounds_cons]
      refine ⟨iobuf_inBounds (by omega), ⟨?_, ?_, ?_⟩, ih (i + 1) (by omega) hpackets⟩
      · omega
      · omega
      · have hslot : lineSlot = 2044 := rfl
        omega

/-- A packet without a whole header makes the length negative. -/
theorem headerAccesses_bad (packets : List (List UInt8)) (i : Nat)
    (hbad : ¬ ∀ p ∈ packets, 4 ≤ p.length) :
    ¬ AllInBounds (Session.headerAccesses i packets) := by
  induction packets generalizing i with
  | nil => exact absurd (fun _ h ↦ by contradiction) hbad
  | cons packet packets ih =>
      rw [Session.headerAccesses, allInBounds_cons, allInBounds_cons]
      intro h
      obtain ⟨-, hcopy, hrest⟩ := h
      have hfour : 4 ≤ packet.length := by
        have hpos := hcopy.1
        omega
      apply ih (i + 1) _ hrest
      intro hpackets
      exact hbad (List.forall_mem_cons.mpr ⟨hfour, hpackets⟩)

theorem not_busy (hbusy : s.busy = none) : s.busy.isSome = true → s'.infile.Ready := by
  intro h
  rw [hbusy] at h
  contradiction

theorem receive_good (h : Inv s) (hbusy : s.busy = none) (r : Response)
    (hfine : s.accepts r = true → ∀ p ∈ r.packets, 4 ≤ p.length) : Good (s.receive r) := by
  have hfirst : Inv (s.note [.iobuf 0]) :=
    h.note (allInBounds_cons.mpr ⟨iobuf_inBounds (Nat.zero_le _), allInBounds_nil⟩)
  have hcount : r.packets.length ≤ papMaxQuantum := r.rest_lt
  unfold Session.receive
  dsimp only
  by_cases haccepts : s.accepts r = true
  · have haccepts' : (s.note [.iobuf 0]).accepts r = true := haccepts
    rw [if_neg (not_not_intro haccepts')]
    have hheaders : AllInBounds (Session.headerAccesses 0 r.packets) :=
      headerAccesses_inBounds r.packets 0 (by omega)
        fun p hp ↦ ⟨hfine haccepts p hp, r.data_le p hp⟩
    refine ⟨⟨allInBounds_append.mpr ⟨hfirst.safe, hheaders⟩, ?_, h.slot, h.reply⟩, ?_⟩
    · show (r.packets.map (·.drop 4)).length ≤ papMaxQuantum
      rw [List.length_map]
      exact hcount
    · intro _
      exact .inl (List.cons_ne_nil _ _)
  · have haccepts' : ¬ (s.note [.iobuf 0]).accepts r = true := haccepts
    rw [if_pos haccepts']
    exact ⟨hfirst, fun hb ↦ not_busy hbusy hb⟩

theorem receive_bad (r : Response) (haccepts : s.accepts r = true)
    (hbad : ¬ ∀ p ∈ r.packets, 4 ≤ p.length) : ¬ AllInBounds (s.receive r).accesses := by
  have haccepts' : (s.note [.iobuf 0]).accepts r = true := haccepts
  unfold Session.receive
  dsimp only
  rw [if_neg (not_not_intro haccepts')]
  intro hsafe
  exact headerAccesses_bad r.packets 0 hbad (allInBounds_append.mp hsafe).2

theorem request_good (h : Inv s) (hbusy : s.busy = none) (octets : Nat → UInt8) :
    Good (s.request octets) := by
  refine ⟨⟨h.safe, h.count, ?_, h.reply⟩, fun hb ↦ not_busy hbusy hb⟩
  show (if s.infile.held then s.infile.slot else { s.infile.slot with octets }).len < lineSlot
  split
  · exact h.slot
  · exact h.slot

theorem OutFile.stop_consume_le {out : OutFile} (h : out.stop ≤ out.len) (len : Nat) :
    (out.consume len).stop ≤ (out.consume len).len := by
  unfold OutFile.consume
  split
  · exact Nat.zero_le _
  · show out.cur + len + (out.text.drop len).length ≤ out.len
    rw [List.length_drop]
    unfold OutFile.stop at h
    omega

theorem send_good (h : Inv s) (hbusy : s.busy = none) : Good s.send := by
  have hcopy : AllInBounds [.iobuf (papMaxQuantum + 1),
      .copy (min s.outfile.text.length papMaxData : Nat) s.outfile.text.length papMaxData] := by
    rw [allInBounds_cons, allInBounds_cons]
    refine ⟨iobuf_inBounds (Nat.le_refl _), ⟨?_, ?_, ?_⟩, allInBounds_nil⟩
    · omega
    · omega
    · omega
  have hnoted := h.note hcopy
  have hreply := OutFile.stop_consume_le h.reply (min s.outfile.text.length papMaxData)
  unfold Session.send
  dsimp only
  split
  · exact ⟨⟨hnoted.safe, h.count, h.slot, hreply⟩, fun hb ↦ not_busy hbusy hb⟩
  · exact ⟨⟨hnoted.safe, h.count, h.slot, hreply⟩, fun hb ↦ not_busy hbusy hb⟩

theorem timeOut_good (h : Inv s) (hbusy : s.busy = none) : Good (s.timeOut format) := by
  unfold Session.timeOut
  dsimp only
  split
  · have hfirst : AllInBounds [.iobuf 0] :=
      allInBounds_cons.mpr ⟨iobuf_inBounds (Nat.zero_le _), allInBounds_nil⟩
    let t : Session := Session.note
      { s with ended := true, infile := { s.infile with iobuf := [[]] } } [.iobuf 0]
    have hinv : Inv t :=
      ⟨allInBounds_append.mpr ⟨h.safe, hfirst⟩, by show 1 ≤ papMaxQuantum; decide, h.slot, h.reply⟩
    have hprinted : Inv (t.paprint format .abort) :=
      hinv.paprint fun _ _ ↦ List.cons_ne_nil _ _
    exact ⟨hprinted, fun hb ↦ not_busy hbusy hb⟩
  · exact ⟨⟨h.safe, h.count, h.slot, h.reply⟩, fun hb ↦ not_busy hbusy hb⟩

/-! ## Runs -/

theorem start_good (connid : UInt8) (octets : Nat → UInt8) (heap : List Bool) :
    Good (start connid octets heap) :=
  ⟨⟨allInBounds_nil, Nat.zero_le _, by show 0 < lineSlot; decide, Nat.le_refl _⟩,
    fun hb ↦ absurd hb Bool.false_ne_true⟩

/-- What a step needs to be taken. -/
theorem step_cases {a : Label} (h : step format s a = some s') : s.ended = false ∧
    ((∃ matched, a = .turn ∧ s.busy = some matched ∧ s' = s.turn format matched) ∨
      s.busy = none ∧
        ((∃ octets, a = .request octets ∧ s' = s.request octets) ∨
          (∃ r, a = .receive r ∧ s.requested = true ∧ s' = s.receive r) ∨
          (a = .send ∧ s' = s.send) ∨ a = .timeOut ∧ s' = s.timeOut format)) := by
  unfold step at h
  cases hover : s.ended with
  | true => rw [hover, if_pos rfl] at h; contradiction
  | false =>
      rw [hover, if_neg Bool.false_ne_true] at h
      refine ⟨rfl, ?_⟩
      cases hbusy : s.busy with
      | some matched =>
          rw [hbusy] at h
          cases a with
          | turn => exact .inl ⟨matched, rfl, rfl, (Option.some.inj h).symm⟩
          | request octets => contradiction
          | receive r => contradiction
          | send => contradiction
          | timeOut => contradiction
      | none =>
          rw [hbusy] at h
          refine .inr ⟨rfl, ?_⟩
          cases a with
          | turn => contradiction
          | request octets =>
              dsimp only at h
              split at h
              · contradiction
              · exact .inl ⟨octets, rfl, (Option.some.inj h).symm⟩
          | receive r =>
              dsimp only at h
              split at h
              · rename_i hrequested
                exact .inr (.inl ⟨r, rfl, hrequested, (Option.some.inj h).symm⟩)
              · contradiction
          | send =>
              dsimp only at h
              split at h
              · contradiction
              · exact .inr (.inr (.inl ⟨rfl, (Option.some.inj h).symm⟩))
          | timeOut => exact .inr (.inr (.inr ⟨rfl, (Option.some.inj h).symm⟩))

theorem step_good {a : Label} (h : Good s) (hfine : Fine format s a)
    (hstep : step format s a = some s') : Good s' := by
  obtain ⟨hover, ⟨matched, rfl, hbusy, rfl⟩ | ⟨hbusy, hcases⟩⟩ := step_cases hstep
  · have hready := h.ready (by rw [hbusy]; rfl)
    exact turn_good h.toInv hready (hfine matched hover hbusy)
  · rcases hcases with ⟨octets, rfl, rfl⟩ | ⟨r, rfl, hrequested, rfl⟩ | ⟨rfl, rfl⟩ | ⟨rfl, rfl⟩
    · exact request_good h.toInv hbusy octets
    · exact receive_good h.toInv hbusy r (hfine hover hbusy hrequested)
    · exact send_good h.toInv hbusy
    · exact timeOut_good h.toInv hbusy

theorem step_bad {a : Label} (h : Good s) (hbad : ¬ Fine format s a) :
    ∃ s', step format s a = some s' ∧ ¬ AllInBounds s'.accesses := by
  cases a with
  | turn =>
      unfold Fine at hbad
      simp only [not_forall] at hbad
      obtain ⟨matched, hover, hbusy, hturn⟩ := hbad
      refine ⟨s.turn format matched, ?_, turn_bad h.toInv (h.ready (by rw [hbusy]; rfl)) hturn⟩
      unfold step
      rw [hover, hbusy]
      rfl
  | receive r =>
      unfold Fine at hbad
      simp only [not_forall] at hbad
      obtain ⟨hover, hbusy, hrequested, haccepts, p, hp, hlt⟩ := hbad
      refine ⟨s.receive r, ?_, receive_bad r haccepts fun hall ↦ hlt (hall p hp)⟩
      unfold step
      rw [hover, hbusy]
      exact if_pos hrequested
  | request octets => exact absurd trivial hbad
  | send => exact absurd trivial hbad
  | timeOut => exact absurd trivial hbad

/-- A session stays in bounds if and only if every step of it is fine: the packets have whole
headers, the names of fonts fit their buffer, an answer does not begin behind its line, and something
is left when a job without a magic line ends. -/
theorem query_bounds_iff (format : DataFormat) (connid : UInt8) (octets : Nat → UInt8)
    (heap : List Bool) (as : List Label) :
    (∀ n s, (papMachine format connid octets heap).run (as.take n) = some s →
      AllInBounds s.accesses) ↔
    (papMachine format connid octets heap).Along (Fine format)
      (papMachine format connid octets heap).init as := by
  symm
  apply @Machine.along_iff _ _ (papMachine format connid octets heap) (Fine format) Good
    (fun s ↦ AllInBounds s.accesses)
  · intro s hgood
    exact hgood.safe
  · intro s a t hgood hfine hstep
    exact step_good hgood hfine hstep
  · intro s a hgood hbad
    exact step_bad hgood hbad
  · exact start_good connid octets heap

/-- A response of two octets. -/
def shortResponse : Response where
  first := [1, papData]
  rest := []
  rest_lt := by decide
  data_le := by decide
  old := fun _ => 0

/-- Its header is moved with a length of -2. -/
theorem short_response_unbounded :
    ¬ ∀ n s, (papMachine .none 1 (fun _ => 0) []).run
      (([.request fun _ => 0, .receive shortResponse] : List Label).take n) = some s →
        AllInBounds s.accesses := by
  intro h
  have hsafe := h 2 _ rfl
  have hcopy : (Access.copy (-2) 0 lineSlot).InBounds := hsafe _ (by decide)
  exact absurd hcopy.1 (by decide)

end PrintServer.Atalk.Query
