import PrintServer.Atalk.PapQuery

/-!
# The next line of a query

What `markline` returns is the next line in what is kept in the slot and unread in the packets, and
it stays inside the slot.
-/

namespace PrintServer.Atalk.Query

open Http (bytes chr)
open Lib

/-! ## The next line -/

def Slot.kept (slot : Slot) : List UInt8 := readMem slot.octets 0 slot.len

def unreadRows : List (List UInt8) → Nat → List UInt8
  | [], _ => []
  | packet :: packets, j => packet.drop j ++ packets.flatten

namespace InFile

def unread (f : InFile) : List UInt8 := unreadRows (f.iobuf.drop f.row) f.col

/-- The next line ends in the packets. -/
def Ends (f : InFile) : Prop := (fillLine f.unread f.slot.kept).2 = true

instance (f : InFile) : Decidable f.Ends := inferInstanceAs (Decidable (_ = _))

/-- The next line, without regard to where its octets are. -/
def nextLine (f : InFile) : Option (List UInt8) :=
  if f.iobuf = [] ∧ f.slot.len = 0 ∧ f.eof then none else firstText f.slot.kept f.unread f.eof

/-- There are packets, or none will come. -/
def Ready (f : InFile) : Prop := f.iobuf ≠ [] ∨ f.eof = true

end InFile

/-! ## The slot -/

variable {slot slot' : Slot} {ch : UInt8} {i j : Nat}

theorem Slot.kept_push : (slot.push ch).kept = slot.kept ++ [ch] := by
  show readMem (writeMem slot.octets slot.len [ch]) 0 (slot.len + 1) = _
  rw [readMem_add, Nat.zero_add, readMem_writeMem_of_le (by omega)]
  exact congrArg _ (@readMem_writeMem _ slot.octets slot.len [ch])

theorem Slot.length_kept : slot.kept.length = slot.len := length_readMem

/-- What is behind the line in the slot is left as it was. -/
theorem Slot.push_of_ge {k : Nat} (h : (slot.push ch).len ≤ k) :
    (slot.push ch).octets k = slot.octets k := writeMem_of_ge h

/-- Octets were put into the slot, with room for them. -/
structure Filling (slot slot' : Slot) (stopped : Bool) : Prop where
  le : slot.len ≤ slot'.len
  room : slot'.len ≤ lineSlot
  unstopped : stopped = false → slot'.len < lineSlot
  rest : ∀ k, slot'.len ≤ k → slot'.octets k = slot.octets k

theorem fill_spec (packet : List UInt8) (hlen : slot.len < lineSlot) :
    fillLine packet slot.kept = ((fill packet j slot).1.kept, (fill packet j slot).2.2) ∧
      Filling slot (fill packet j slot).1 (fill packet j slot).2.2 ∧
      (fill packet j slot).1.len ≤ slot.len + packet.length := by
  induction packet generalizing slot j with
  | nil =>
      exact ⟨rfl, ⟨Nat.le_refl _, Nat.le_of_lt hlen, fun _ ↦ hlen, fun _ _ ↦ rfl⟩, Nat.le_refl _⟩
  | cons ch packet ih =>
      have hpush : (slot.push ch).len = slot.len + 1 := rfl
      have hkept : (slot.kept ++ [ch]).length = (slot.push ch).len := by
        rw [List.length_append, Slot.length_kept]
        rfl
      have hstop : Filling slot (slot.push ch) true :=
        ⟨by omega, by omega, fun h ↦ by contradiction, fun k hk ↦ Slot.push_of_ge hk⟩
      have hone : (slot.push ch).len ≤ slot.len + (packet.length + 1) := by omega
      rw [fillLine, fill, hkept, List.length_cons]
      by_cases hfull : (slot.push ch).len ≥ lineSlot
      · rw [if_pos hfull, if_pos (show _ ≥ blockSize / 5 from hfull), ← Slot.kept_push]
        exact ⟨rfl, hstop, hone⟩
      · rw [if_neg hfull, if_neg (show ¬ _ ≥ blockSize / 5 from hfull)]
        by_cases hend : isLineEnd ch = true
        · rw [if_pos hend, if_pos hend, ← Slot.kept_push]
          exact ⟨rfl, hstop, hone⟩
        · obtain ⟨heq, hfilling, hle⟩ := @ih (slot.push ch) (j + 1) (by omega)
          rw [if_neg hend, if_neg hend, ← Slot.kept_push, heq]
          refine ⟨rfl, ⟨?_, hfilling.room, hfilling.unstopped, ?_⟩, by omega⟩
          · have hnext := hfilling.le
            omega
          · intro k hk
            rw [hfilling.rest k hk]
            exact Slot.push_of_ge (Nat.le_trans hfilling.le hk)

theorem unreadRows_zero (packets : List (List UInt8)) : unreadRows packets 0 = packets.flatten := by
  cases packets <;> rfl

def AllInBounds (accesses : List Access) : Prop := ∀ a ∈ accesses, a.InBounds

@[simp] theorem allInBounds_nil : AllInBounds [] := fun _ h ↦ by contradiction

@[simp] theorem allInBounds_cons {a : Access} {accesses : List Access} :
    AllInBounds (a :: accesses) ↔ a.InBounds ∧ AllInBounds accesses := List.forall_mem_cons

@[simp] theorem allInBounds_append {front back : List Access} :
    AllInBounds (front ++ back) ↔ AllInBounds front ∧ AllInBounds back := List.forall_mem_append

theorem iobuf_inBounds (h : i ≤ papMaxQuantum + 1) : (Access.iobuf i).InBounds := by
  unfold Access.InBounds papMaxQuantum at *
  omega

theorem fillRows_spec (packets : List (List UInt8)) (hlen : slot.len < lineSlot)
    (hcount : packets ≠ [] → i + packets.length ≤ papMaxQuantum) :
    fillLine (unreadRows packets j) slot.kept =
        ((fillRows packets i j slot).slot.kept, (fillRows packets i j slot).stopped) ∧
      Filling slot (fillRows packets i j slot).slot (fillRows packets i j slot).stopped ∧
      AllInBounds (fillRows packets i j slot).accesses := by
  induction packets generalizing slot i j with
  | nil =>
      exact ⟨rfl, ⟨Nat.le_refl _, Nat.le_of_lt hlen, fun _ ↦ hlen, fun _ _ ↦ rfl⟩, allInBounds_nil⟩
  | cons packet packets ih =>
      have hcount' := hcount (List.cons_ne_nil _ _)
      rw [List.length_cons] at hcount'
      obtain ⟨hline, hfilling, hle⟩ := @fill_spec slot j (packet.drop j) hlen
      have hle' := hfilling.le
      have hroom := hfilling.room
      have hused : AllInBounds [.iobuf i, .copy ((fill (packet.drop j) j slot).1.len - slot.len)
          (packet.length - j) (lineSlot - slot.len)] := by
        rw [List.length_drop] at hle
        rw [allInBounds_cons, allInBounds_cons]
        refine ⟨iobuf_inBounds (by omega), ⟨?_, ?_, ?_⟩, allInBounds_nil⟩
        · omega
        · omega
        · omega
      rw [unreadRows, fillLine_append, hline, fillRows]
      cases hstopped : (fill (packet.drop j) j slot).2.2 with
      | true =>
          rw [hstopped] at hfilling
          simp only [hstopped, if_true]
          exact ⟨trivial, hfilling, hused⟩
      | false =>
          rw [hstopped] at hfilling
          obtain ⟨hrest, hfill, hsafe⟩ := @ih (fill (packet.drop j) j slot).1 (i + 1) 0
            (hfilling.unstopped rfl) (fun _ ↦ by omega)
          rw [unreadRows_zero] at hrest
          simp only [hstopped, Bool.false_eq_true, if_false, hrest]
          refine ⟨trivial, ⟨?_, hfill.room, hfill.unstopped, ?_⟩, ?_⟩
          · exact Nat.le_trans hfilling.le hfill.le
          · intro k hk
            rw [hfill.rest k hk]
            exact hfilling.rest k (Nat.le_trans hfill.le hk)
          · exact allInBounds_append.mpr ⟨hused, hsafe⟩

/-! ## The invariant -/

structure Inv (s : Session) : Prop where
  safe : AllInBounds s.accesses
  count : s.infile.iobuf.length ≤ papMaxQuantum
  slot : s.infile.slot.len < lineSlot
  reply : s.outfile.stop ≤ s.outfile.len

variable {s s' : Session}

theorem Inv.note {accesses : List Access} (h : Inv s) (hin : AllInBounds accesses) :
    Inv (s.note accesses) :=
  ⟨allInBounds_append.mpr ⟨h.safe, hin⟩, h.count, h.slot, h.reply⟩

/-! ## `markline` -/

/-- What `markline` does not change. -/
structure Frame (s s' : Session) : Prop where
  bot : s'.infile.bot = s.infile.bot
  eof : s'.infile.eof = s.infile.eof
  busy : s'.busy = s.busy

/-- What `markline` does: 0 at the end of the file, -1 without a line, or the next line, which is in
the slot behind it. -/
inductive Marked (s : Session) : Session × Mark → Prop
  | eof {s' : Session} (inv : Inv s') (frame : Frame s s') (none : s.infile.nextLine = none)
      (end_of_file : s.infile.eof = true) : Marked s (s', .eof)
  | more {s' : Session} (inv : Inv s') (none : s.infile.nextLine = none) : Marked s (s', .more)
  | line {s' : Session} {text : List UInt8} (inv : Inv s') (frame : Frame s s')
      (ready : s'.infile.Ready) (next : s.infile.nextLine = some text)
      (text_eq : s'.lineText text.length = text) (pos : 0 < text.length)
      (rest : ∀ k, text.length ≤ k → s'.infile.slot.octets k = s.infile.slot.octets k)
      (left : s'.infile.iobuf = [] ↔ ¬ s.infile.Ends) : Marked s (s', .line text.length)

/-- The slot with a line in it. -/
theorem endLine_spec {t : Session} :
    ∃ (text : List UInt8) (slot : Slot), t.endLine =
        ({ t with infile := { t.infile with slot := { slot with len := 0 } } }, .line text.length) ∧
      text = (if t.infile.slot.kept = [] then [chr '\n'] else t.infile.slot.kept) ∧
      readMem slot.octets 0 text.length = text ∧ 0 < text.length ∧
      ∀ k, text.length ≤ k → slot.octets k = t.infile.slot.octets k := by
  have hlen := @Slot.length_kept t.infile.slot
  by_cases hempty : t.infile.slot.len = 0
  · have hkept : t.infile.slot.kept = [] := List.length_eq_zero_iff.mp (hlen.trans hempty)
    have hpush : (t.infile.slot.push (chr '\n')).len = 1 := by
      show t.infile.slot.len + 1 = 1
      rw [hempty]
    refine ⟨[chr '\n'], t.infile.slot.push (chr '\n'), ?_, ?_, ?_, Nat.one_pos, ?_⟩
    · unfold Session.endLine
      simp only [if_pos hempty, hpush]
      rfl
    · rw [if_pos hkept]
    · have hpushed := @Slot.kept_push t.infile.slot (chr '\n')
      rw [hkept, Slot.kept, hpush] at hpushed
      exact hpushed
    · intro k hk
      exact Slot.push_of_ge (by rw [hpush]; exact hk)
  · have hkept : t.infile.slot.kept ≠ [] := fun h ↦ hempty (hlen.symm.trans (by rw [h]; rfl))
    refine ⟨t.infile.slot.kept, t.infile.slot, ?_, ?_, ?_, by omega, fun _ _ ↦ rfl⟩
    · unfold Session.endLine
      simp only [if_neg hempty, hlen]
    · rw [if_neg hkept]
    · rw [hlen]
      rfl

theorem firstText_eq {line data text : List UInt8} {ended stopped : Bool}
    (h : fillLine data line = (text, stopped)) : firstText line data ended =
      if stopped ∨ ended then some (if text = [] then [chr '\n'] else text) else none := by
  unfold firstText
  rw [h]

/-- A line is taken when what is in the slot is the next line of the file. -/
theorem marked_endLine {t : Session} (h : Inv s) (hsafe : AllInBounds t.accesses)
    (hiobuf : t.infile.iobuf = s.infile.iobuf ∨ t.infile.iobuf = []) (hframe : Frame s t)
    (hreply : t.outfile = s.outfile) (hready : t.infile.Ready)
    (hnext : s.infile.nextLine =
      some (if t.infile.slot.kept = [] then [chr '\n'] else t.infile.slot.kept))
    (hrest : ∀ k, t.infile.slot.len ≤ k → t.infile.slot.octets k = s.infile.slot.octets k)
    (hleft : t.infile.iobuf = [] ↔ ¬ s.infile.Ends) : Marked s t.endLine := by
  obtain ⟨text, slot, hline, htext, hread, hpos, hslot⟩ := @endLine_spec t
  have hlen : t.infile.slot.len ≤ text.length := by
    rw [htext, ← Slot.length_kept]
    split
    · rename_i hnil
      rw [hnil]
      exact Nat.zero_le _
    · exact Nat.le_refl _
  rw [hline]
  refine .line ⟨hsafe, ?_, by show 0 < lineSlot; decide, ?_⟩ ⟨hframe.bot, hframe.eof, hframe.busy⟩
    hready (hnext.trans (by rw [htext])) hread hpos ?_ hleft
  · show t.infile.iobuf.length ≤ papMaxQuantum
    rcases hiobuf with hiobuf | hiobuf
    · rw [hiobuf]
      exact h.count
    · rw [hiobuf]
      exact Nat.zero_le _
  · show t.outfile.stop ≤ t.outfile.len
    rw [hreply]
    exact h.reply
  · intro k hk
    exact (hslot k hk).trans (hrest k (Nat.le_trans hlen hk))

theorem markline_spec (h : Inv s) (hready : s.infile.Ready) : Marked s s.markline := by
  have hnote : Inv (s.note [.iobuf papMaxQuantum]) :=
    h.note (allInBounds_cons.mpr ⟨iobuf_inBounds (Nat.le_succ _), allInBounds_nil⟩)
  unfold Session.markline
  by_cases hend : s.infile.iobuf = [] ∧ s.infile.slot.len = 0 ∧ s.infile.eof
  · simp only [if_pos hend]
    exact .eof hnote ⟨rfl, rfl, rfl⟩ (if_pos hend) hend.2.2
  simp only [if_neg hend]
  by_cases hiobuf : s.infile.iobuf = []
  · -- the file is at its end, and a line without an end is in the slot
    have heof : s.infile.eof = true := hready.resolve_left (not_not_intro hiobuf)
    have hfill : fillLine s.infile.unread s.infile.slot.kept = (s.infile.slot.kept, false) := by
      unfold InFile.unread
      rw [hiobuf, List.drop_nil]
      rfl
    have hends : ¬ s.infile.Ends := by
      unfold InFile.Ends
      rw [hfill]
      exact Bool.false_ne_true
    rw [if_pos hiobuf]
    refine marked_endLine h hnote.safe (.inl rfl) ⟨rfl, rfl, rfl⟩ rfl hready ?_
       (fun _ _ ↦ rfl) ⟨fun _ ↦ hends, fun _ ↦ hiobuf⟩
    rw [InFile.nextLine, if_neg hend, firstText_eq hfill, if_pos (.inr heof)]
    rfl
  · obtain ⟨hfill, hfilling, hsafe⟩ := @fillRows_spec s.infile.slot s.infile.row s.infile.col
      (s.infile.iobuf.drop s.infile.row) h.slot (by
        intro hne
        have hlt : s.infile.row < s.infile.iobuf.length := by
          by_contra hge
          exact hne (List.drop_eq_nil_of_le (Nat.le_of_not_lt hge))
        have hcount := h.count
        rw [List.length_drop]
        omega)
    rw [if_neg hiobuf]
    have hnext : s.infile.nextLine = firstText s.infile.slot.kept s.infile.unread s.infile.eof :=
      if_neg hend
    have hall := allInBounds_append.mpr ⟨hnote.safe, hsafe⟩
    have hunread : fillLine s.infile.unread s.infile.slot.kept = _ := hfill
    cases hstopped : (fillRows (s.infile.iobuf.drop s.infile.row) s.infile.row s.infile.col
        s.infile.slot).stopped with
    | true =>
        rw [hstopped] at hunread
        have hends : s.infile.Ends := by
          unfold InFile.Ends
          rw [hunread]
        simp only [if_true]
        refine marked_endLine h hall (.inl rfl) ⟨rfl, rfl, rfl⟩ rfl (.inl hiobuf) ?_
          hfilling.rest ⟨fun hnil ↦ absurd hnil hiobuf, fun hno ↦ absurd hends hno⟩
        rw [hnext, firstText_eq hunread, if_pos (.inl rfl)]
    | false =>
        rw [hstopped] at hunread
        have hends : ¬ s.infile.Ends := by
          unfold InFile.Ends
          rw [hunread]
          exact Bool.false_ne_true
        simp only [Bool.false_eq_true, if_false]
        cases heof : s.infile.eof with
        | true =>
            simp only [if_true]
            refine marked_endLine h hall (.inr rfl) ⟨rfl, heof.symm, rfl⟩ rfl
              (.inr rfl) ?_ hfilling.rest ⟨fun _ ↦ hends, fun _ ↦ rfl⟩
            rw [hnext, firstText_eq hunread, if_pos (.inr heof)]
        | false =>
            simp only [Bool.false_eq_true, if_false]
            refine .more ⟨hall, Nat.zero_le _, hfilling.unstopped hstopped, h.reply⟩ ?_
            rw [hnext, firstText_eq hunread, heof]
            rfl

end PrintServer.Atalk.Query
