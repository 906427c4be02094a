import PrintServer.Lib.Chunked

/-!
# Reading a body in chunks
-/

namespace Lib

theorem cutLine_append {s line rest : List UInt8} (h : cutLine s = some (line, rest))
    (t : List UInt8) : cutLine (s ++ t) = some (line, rest ++ t) := by
  obtain ⟨rfl, hline⟩ := cutLine_eq_some h
  rw [List.append_assoc]
  exact cutLine_line hline

/-! ## Bodies and what follows them -/

/-- `Message k n s doc rest`: with `n` bytes of a chunk to come, or its size for `n = 0`, the bytes
`s` are the rest of a body with the bytes `doc`, and behind its last line `rest`.  Each line with a
size is shorter than `k` bytes. -/
inductive Message (k : Nat) : Nat → List UInt8 → List UInt8 → List UInt8 → Prop
  | last {s line rest : List UInt8} (hcut : cutLine s = some (line, 0x0D :: 0x0A :: rest))
      (hlen : line.length + 2 < k) (hsize : chunkSize line = some 0) : Message k 0 s [] rest
  | size {s line t doc rest : List UInt8} {n : Nat} (hcut : cutLine s = some (line, t))
      (hlen : line.length + 2 < k) (hsize : chunkSize line = some n) (hn : n ≠ 0)
      (hrest : Message k n t doc rest) : Message k 0 s doc rest
  | data {s d doc rest : List UInt8} (hd : d ≠ []) (hrest : Message k 0 s doc rest) :
      Message k d.length (d ++ 0x0D :: 0x0A :: s) (d ++ doc) rest

/-- What one call of a reader takes of a body, in chunks or not: the bytes `d` and the framing
before them, and behind them where they end a chunk.  The body `s` and the `n` bytes to come
become `s'` and `n'`. -/
inductive Takes : Bool → Nat → List UInt8 → List UInt8 → Bool → Nat → List UInt8 → Prop
  | part {chunked : Bool} {n : Nat} {d s : List UInt8} (hd : d ≠ []) (hn : n ≠ 0) :
      Takes chunked (d.length + n) (d ++ s) d chunked n s
  | whole {d s : List UInt8} (hd : d ≠ []) : Takes false d.length (d ++ s) d false 0 s
  | chunk {d s : List UInt8} (hd : d ≠ []) :
      Takes true d.length (d ++ 0x0D :: 0x0A :: s) d true 0 s
  | size {c' : Bool} {n n' : Nat} {s line t d s' : List UInt8}
      (hcut : cutLine s = some (line, t)) (hsize : chunkSize line = some n) (hn : n ≠ 0)
      (h : Takes true n t d c' n' s') : Takes true 0 s d c' n' s'
  | ended {s : List UInt8} : Takes false 0 s [] false 0 s
  | last {s line s' : List UInt8} (hcut : cutLine s = some (line, 0x0D :: 0x0A :: s'))
      (hsize : chunkSize line = some 0) : Takes true 0 s [] false 0 s'

/-- The bytes `s` that have arrived do not suffice for a call. -/
inductive Short : Bool → Nat → List UInt8 → Prop
  | empty {chunked : Bool} {n : Nat} (h : chunked = true ∨ n ≠ 0) : Short chunked n []
  | chunk {d : List UInt8} (hd : d ≠ []) : Short true d.length d
  | size {n : Nat} {s line t : List UInt8} (hcut : cutLine s = some (line, t))
      (hsize : chunkSize line = some n) (hn : n ≠ 0) (h : Short true n t) : Short true 0 s
  | last {s line : List UInt8} (hcut : cutLine s = some (line, []))
      (hsize : chunkSize line = some 0) : Short true 0 s

/-- The bytes `s` are the rest of a body with the bytes `doc`, of which `n` are to come, or of the
current chunk, and then `rest`. -/
def Body (k : Nat) (chunked : Bool) (n : Nat) (s doc rest : List UInt8) : Prop :=
  if chunked then Message k n s doc rest else doc.length = n ∧ s = doc ++ rest

namespace Message

variable {k n : Nat} {s d doc rest : List UInt8}

theorem inv_zero (h : Message k 0 s doc rest) : ∃ line t n, cutLine s = some (line, t) ∧
    chunkSize line = some n ∧
      ((n = 0 ∧ doc = [] ∧ t = 0x0D :: 0x0A :: rest) ∨ (n ≠ 0 ∧ Message k n t doc rest)) := by
  generalize hzero : 0 = m at h
  cases h with
  | @last _ line _ hcut hlen hsize => exact ⟨line, _, 0, hcut, hsize, Or.inl ⟨rfl, rfl, rfl⟩⟩
  | @size _ line t _ _ n hcut hlen hsize hn hrest =>
      exact ⟨line, t, n, hcut, hsize, Or.inr ⟨hn, hrest⟩⟩
  | data hd => exact absurd (List.length_eq_zero_iff.mp hzero.symm) hd

theorem inv_pos (hn : n ≠ 0) (h : Message k n s doc rest) : ∃ d t doc', d.length = n ∧
    s = d ++ 0x0D :: 0x0A :: t ∧ doc = d ++ doc' ∧ Message k 0 t doc' rest := by
  cases h with
  | last => exact absurd rfl hn
  | size => exact absurd rfl hn
  | @data t d doc _ hd hrest => exact ⟨d, t, doc, rfl, rfl, rfl, hrest⟩

/-- A part of a chunk in front of the rest of it. -/
theorem of_append (hn : n ≠ 0) (h : Message k (d.length + n) (d ++ s) doc rest) :
    ∃ doc', doc = d ++ doc' ∧ Message k n s doc' rest := by
  obtain ⟨e, t, doc', hlen, heq, rfl, hrest⟩ := h.inv_pos (by omega)
  rcases List.append_eq_append_iff.mp heq with ⟨e', rfl, rfl⟩ | ⟨e', rfl, -⟩
  · have hlen' : e'.length = n := by
      rw [List.length_append] at hlen
      omega
    refine ⟨e' ++ doc', List.append_assoc _ _ _, ?_⟩
    rw [← hlen']
    refine .data ?_ hrest
    rintro rfl
    exact hn hlen'.symm
  · rw [List.length_append] at hlen
    omega

end Message

/-- What a call takes does not depend on what arrives later. -/
theorem Takes.append {c c' : Bool} {n n' : Nat} {s d s' : List UInt8}
    (h : Takes c n s d c' n' s') (t : List UInt8) : Takes c n (s ++ t) d c' n' (s' ++ t) := by
  induction h with
  | part hd hn =>
      rw [List.append_assoc]
      exact .part hd hn
  | whole hd =>
      rw [List.append_assoc]
      exact .whole hd
  | chunk hd =>
      rw [List.append_assoc]
      exact .chunk hd
  | size hcut hsize hn _ ih => exact .size (cutLine_append hcut t) hsize hn ih
  | ended => exact .ended
  | last hcut hsize => exact .last (cutLine_append hcut t) hsize

theorem Takes.of_nil {c c' : Bool} {n n' : Nat} {s d s' : List UInt8}
    (h : Takes c n s d c' n' s') (hd : d = []) : c' = false ∧ n' = 0 := by
  induction h with
  | part hd' | whole hd' | chunk hd' => exact absurd hd hd'
  | size _ _ _ _ ih => exact ih hd
  | ended | last => exact ⟨rfl, rfl⟩

theorem Takes.chunked_eq_false {c' : Bool} {n n' : Nat} {s d s' : List UInt8}
    (h : Takes false n s d c' n' s') : c' = false := by
  cases h <;> rfl

/-- A call that takes nothing is at the end of the body, and the others go on with it. -/
theorem Body.takes {k : Nat} {c c' : Bool} {n n' : Nat} {s d s' doc rest : List UInt8}
    (hbody : Body k c n s doc rest) (h : Takes c n s d c' n' s') :
    ∃ doc', doc = d ++ doc' ∧ Body k c' n' s' doc' rest ∧ (d = [] → doc = [] ∧ s' = rest) := by
  induction h generalizing doc with
  | @part chunked n d s hd hn =>
      cases chunked with
      | true =>
          obtain ⟨doc', hdoc, hrest⟩ := Message.of_append hn hbody
          exact ⟨doc', hdoc, hrest, fun hnil ↦ absurd hnil hd⟩
      | false =>
          obtain ⟨hlen, heq⟩ := hbody
          rcases List.append_eq_append_iff.mp heq with ⟨doc', rfl, hs⟩ | ⟨e, rfl, -⟩
          · refine ⟨doc', rfl, ⟨?_, hs⟩, fun hnil ↦ absurd hnil hd⟩
            rw [List.length_append] at hlen
            omega
          · rw [List.length_append] at hlen
            omega
  | @whole d s hd =>
      obtain ⟨hlen, heq⟩ := hbody
      obtain ⟨rfl, rfl⟩ := List.append_inj heq hlen.symm
      exact ⟨[], (List.append_nil _).symm, ⟨rfl, rfl⟩, fun hnil ↦ absurd hnil hd⟩
  | @chunk d s hd =>
      obtain ⟨e, t, doc', hlen, heq, rfl, hrest⟩ :=
        Message.inv_pos (Nat.ne_of_gt (List.length_pos_iff.mpr hd)) hbody
      obtain ⟨rfl, htail⟩ := List.append_inj heq hlen.symm
      obtain rfl : s = t := by simpa using htail
      exact ⟨doc', rfl, hrest, fun hnil ↦ absurd hnil hd⟩
  | size hcut hsize hn _ ih =>
      obtain ⟨line, t, m, hcut', hsize', hor⟩ := Message.inv_zero hbody
      obtain ⟨rfl, rfl⟩ := Prod.mk.inj (Option.some.inj (hcut.symm.trans hcut'))
      obtain rfl := Option.some.inj (hsize.symm.trans hsize')
      exact ih (hor.resolve_left fun h ↦ hn h.1).2
  | ended =>
      obtain ⟨hlen, rfl⟩ := hbody
      obtain rfl := List.length_eq_zero_iff.mp hlen
      exact ⟨[], rfl, ⟨rfl, rfl⟩, fun _ ↦ ⟨rfl, rfl⟩⟩
  | last hcut hsize =>
      obtain ⟨line, t, m, hcut', hsize', hor⟩ := Message.inv_zero hbody
      obtain ⟨rfl, rfl⟩ := Prod.mk.inj (Option.some.inj (hcut.symm.trans hcut'))
      obtain rfl := Option.some.inj (hsize.symm.trans hsize')
      obtain ⟨-, rfl, hrest⟩ := hor.resolve_right fun h ↦ h.1 rfl
      obtain rfl : _ = rest := by simpa using hrest
      exact ⟨[], rfl, ⟨rfl, rfl⟩, fun _ ↦ ⟨rfl, rfl⟩⟩

/-- A body that has arrived as a whole suffices. -/
theorem Body.not_short {k : Nat} {c : Bool} {n : Nat} {s doc rest : List UInt8}
    (hbody : Body k c n s doc rest) (h : Short c n s) : False := by
  induction h with
  | @empty chunked n h =>
      cases chunked with
      | true =>
          cases n with
          | zero =>
              obtain ⟨line, t, m, hcut, -⟩ := Message.inv_zero hbody
              cases hcut
          | succ n =>
              obtain ⟨d, t, doc', -, heq, -⟩ := Message.inv_pos (Nat.succ_ne_zero n) hbody
              cases d <;> cases heq
      | false =>
          obtain ⟨hlen, heq⟩ := hbody
          obtain ⟨rfl, -⟩ := List.append_eq_nil_iff.mp heq.symm
          exact h.elim (fun h ↦ Bool.false_ne_true h) fun h ↦ h hlen.symm
  | @chunk d hd =>
      obtain ⟨e, t, doc', hlen, heq, -⟩ :=
        Message.inv_pos (Nat.ne_of_gt (List.length_pos_iff.mpr hd)) hbody
      have hall := congrArg List.length heq
      rw [List.length_append, hlen, List.length_cons] at hall
      omega
  | size hcut hsize hn _ ih =>
      obtain ⟨line, t, m, hcut', hsize', hor⟩ := Message.inv_zero hbody
      obtain ⟨rfl, rfl⟩ := Prod.mk.inj (Option.some.inj (hcut.symm.trans hcut'))
      obtain rfl := Option.some.inj (hsize.symm.trans hsize')
      exact ih (hor.resolve_left fun h ↦ hn h.1).2
  | last hcut hsize =>
      obtain ⟨line, t, m, hcut', hsize', hor⟩ := Message.inv_zero hbody
      obtain ⟨rfl, rfl⟩ := Prod.mk.inj (Option.some.inj (hcut.symm.trans hcut'))
      obtain rfl := Option.some.inj (hsize.symm.trans hsize')
      obtain ⟨-, -, hrest⟩ := hor.resolve_right fun h ↦ h.1 rfl
      cases hrest

end Lib
