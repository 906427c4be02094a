import PrintServer.Atalk.PapJob

/-!
# The first line of a job

What `markline` takes of the packets at hand, and the buffers that `ascpaprint` makes of them.
-/

namespace PrintServer.Atalk

open Http (bytes chr)

/-- `markline` stops in these data. -/
def Stops (data : List UInt8) : Prop :=
  (∃ ch ∈ data, isLineEnd ch = true) ∨ blockSize / 5 ≤ data.length

/-! ## The line -/

variable {packet xs ys line : List UInt8} {packets : List (List UInt8)}

theorem fillLine_append : fillLine (xs ++ ys) line =
    match fillLine xs line with
    | (line, true) => (line, true)
    | (line, false) => fillLine ys line := by
  induction xs generalizing line with
  | nil => rfl
  | cons ch xs ih =>
    simp only [List.cons_append, fillLine]
    split
    · rfl
    · split
      · rfl
      · exact ih

theorem fillLine_append_of_stopped (h : (fillLine xs line).2 = true) :
    fillLine (xs ++ ys) line = fillLine xs line := by
  rw [fillLine_append]
  split
  · rename_i heq
    exact heq.symm
  · rename_i heq
    rw [heq] at h
    contradiction

theorem fillLines_eq : fillLines packets line = fillLine packets.flatten line := by
  induction packets generalizing line with
  | nil => rfl
  | cons packet packets ih =>
    rw [fillLines, List.flatten_cons, fillLine_append]
    cases fillLine packet line with
    | mk line' stopped =>
      cases stopped with
      | true => rfl
      | false => exact ih

/-- A packet that is read to its end is behind the line, which still fits the slot. -/
theorem fillLine_of_not_stopped (h : (fillLine xs line).2 = false)
    (hline : line.length < blockSize / 5) :
    fillLine xs line = (line ++ xs, false) ∧ (line ++ xs).length < blockSize / 5 := by
  induction xs generalizing line with
  | nil =>
    rw [List.append_nil]
    exact ⟨rfl, hline⟩
  | cons ch xs ih =>
    rw [fillLine] at h ⊢
    by_cases hfull : (line ++ [ch]).length ≥ blockSize / 5
    · rw [if_pos hfull] at h
      contradiction
    rw [if_neg hfull] at h ⊢
    by_cases hend : isLineEnd ch = true
    · rw [if_pos hend] at h
      contradiction
    rw [if_neg hend] at h ⊢
    have hrest := ih h (Nat.lt_of_not_le hfull)
    rw [List.append_assoc, List.singleton_append] at hrest
    exact hrest

theorem fillLine_stopped_iff (hline : line.length < blockSize / 5) :
    (fillLine xs line).2 = true ↔
      (∃ ch ∈ xs, isLineEnd ch = true) ∨ blockSize / 5 ≤ line.length + xs.length := by
  induction xs generalizing line with
  | nil =>
    simp only [fillLine, List.length_nil]
    constructor
    · intro h
      contradiction
    · intro h
      rcases h with ⟨_, hmem, _⟩ | h
      · contradiction
      · omega
  | cons ch xs ih =>
    rw [fillLine]
    have hlen : (line ++ [ch]).length = line.length + 1 := List.length_append
    have htail : (ch :: xs).length = xs.length + 1 := List.length_cons
    by_cases hfull : (line ++ [ch]).length ≥ blockSize / 5
    · rw [if_pos hfull]
      exact iff_of_true rfl (Or.inr (by omega))
    rw [if_neg hfull]
    by_cases hend : isLineEnd ch = true
    · rw [if_pos hend]
      exact iff_of_true rfl (Or.inl ⟨ch, List.mem_cons_self, hend⟩)
    rw [if_neg hend, ih (Nat.lt_of_not_le hfull), hlen, htail]
    have hfirst : (∃ c ∈ ch :: xs, isLineEnd c = true) ↔ ∃ c ∈ xs, isLineEnd c = true := by
      simp [hend]
    rw [hfirst]
    have hsum : line.length + 1 + xs.length = line.length + (xs.length + 1) := by omega
    rw [hsum]

theorem fillLine_stopped_iff_stops : (fillLine xs []).2 = true ↔ Stops xs := by
  rw [fillLine_stopped_iff (by decide), List.length_nil, Nat.zero_add]
  exact Iff.rfl

theorem fillLine_ne_nil (h : (fillLine xs line).2 = true) : (fillLine xs line).1 ≠ [] := by
  induction xs generalizing line with
  | nil => contradiction
  | cons ch xs ih =>
    rw [fillLine] at h ⊢
    split
    · exact List.append_ne_nil_of_right_ne_nil _ (List.cons_ne_nil _ _)
    rename_i hfull
    rw [if_neg hfull] at h
    split
    · exact List.append_ne_nil_of_right_ne_nil _ (List.cons_ne_nil _ _)
    rename_i hend
    rw [if_neg hend] at h
    exact ih h

theorem not_stops_nil : ¬ Stops [] := by
  intro h
  rcases h with ⟨_, hmem, _⟩ | h
  · contradiction
  · exact absurd h (by decide)

/-! ## `markline` -/

/-- A line that ends in the packets at hand: they stay to be printed. -/
theorem markline_of_stops {f : Mypapfile} (hline : f.line = []) (h : Stops f.iobuf.flatten) :
    markline f = (f, .line (fillLine f.iobuf.flatten []).1) := by
  have hstop : (fillLine f.iobuf.flatten []).2 = true := fillLine_stopped_iff_stops.mpr h
  have hiobuf : f.iobuf ≠ [] := by
    intro hnil
    rw [hnil] at hstop
    contradiction
  have htext : (fillLine f.iobuf.flatten []).1 ≠ [] := fillLine_ne_nil hstop
  rw [markline, if_neg (fun hall => hiobuf hall.1), fillLines_eq, hline]
  show (if f.iobuf ≠ [] ∧ ¬ (fillLine f.iobuf.flatten []).2 = true ∧ ¬ f.eof = true then _ else _) = _
  rw [if_neg (fun hall => hall.2.1 hstop), if_pos hstop, if_neg htext, ← hline]

/-- A line that does not end in them takes them all. -/
theorem markline_of_not_stops {f : Mypapfile} (hline : f.line = []) (hiobuf : f.iobuf ≠ [])
    (h : ¬ Stops f.iobuf.flatten) :
    markline f =
      if f.eof then
        ({ f with iobuf := [] },
          .line (if f.iobuf.flatten = [] then [chr '\n'] else f.iobuf.flatten))
      else ({ f with iobuf := [], line := f.iobuf.flatten }, .more) := by
  have hstop : (fillLine f.iobuf.flatten []).2 = false := by
    apply Bool.eq_false_iff.mpr
    exact fun hs => h (fillLine_stopped_iff_stops.mp hs)
  have htext : fillLine f.iobuf.flatten [] = (f.iobuf.flatten, false) :=
    (fillLine_of_not_stopped hstop (by decide)).1
  rw [markline, if_neg (fun hall => hiobuf hall.1), fillLines_eq, hline, htext]
  show (if f.iobuf ≠ [] ∧ ¬ (false = true) ∧ ¬ f.eof = true then _ else _) = _
  cases heof : f.eof with
  | true => simp
  | false => simp [hiobuf]

/-- What every call leaves. -/
theorem markline_spec (f : Mypapfile) :
    (markline f).1.eof = f.eof ∧ (markline f).1.bot = f.bot ∧
      (markline f).1.iobuf.flatten.length ≤ f.iobuf.flatten.length ∧
      (∀ text, (markline f).2 = .line text → (markline f).1.line = []) := by
  rw [markline]
  split
  · exact ⟨rfl, rfl, Nat.le_refl _, fun _ h => by contradiction⟩
  · have hiobuf : (if (fillLines f.iobuf f.line).2 = true then f.iobuf else []).flatten.length ≤
        f.iobuf.flatten.length := by
      split
      · exact Nat.le_refl _
      · exact Nat.zero_le _
    dsimp only
    split
    · exact ⟨rfl, rfl, hiobuf, fun _ h => by contradiction⟩
    · exact ⟨rfl, rfl, hiobuf, fun _ _ => rfl⟩

theorem markline_at_end {f : Mypapfile} (hiobuf : f.iobuf = []) (hline : f.line = [])
    (heof : f.eof = true) : markline f = (f, .eof) := by
  rw [markline, if_pos ⟨hiobuf, hline, heof⟩]

/-! ## Buffers -/

theorem putBuffers_data (iobuf : List (List UInt8)) (flag : PrnFlag) :
    (putBuffers iobuf flag).flatMap (·.data) = (iobuf.take 10).flatten := by
  have hsplit : (iobuf.take 10).flatten =
      (iobuf.take 5).flatten ++ ((iobuf.drop 5).take 5).flatten := by
    rw [← List.flatten_append, ← List.take_add]
  rw [putBuffers, hsplit]
  by_cases hempty : ((iobuf.drop 5).take 5).flatten = []
  · simp [hempty]
  · simp [hempty]

theorem putBuffers_size_le (iobuf : List (List UInt8)) (flag : PrnFlag) :
    ((putBuffers iobuf flag).flatMap (·.data)).length ≤ iobuf.flatten.length := by
  have hall : (iobuf.take 10).flatten ++ (iobuf.drop 10).flatten = iobuf.flatten := by
    rw [← List.flatten_append, List.take_append_drop]
  rw [putBuffers_data, ← hall, List.length_append]
  omega

theorem flatten_endLast (iobuf : List (List UInt8)) :
    (endLast iobuf).flatten = iobuf.flatten ++ [4] := by
  rcases List.eq_nil_or_concat iobuf with rfl | ⟨front, packet, rfl⟩
  · rfl
  · simp [endLast]

theorem length_endLast {iobuf : List (List UInt8)} (h : iobuf ≠ []) :
    (endLast iobuf).length = iobuf.length := by
  have hpos : 0 < iobuf.length := List.length_pos_iff.mpr h
  rw [endLast, List.length_append, List.length_dropLast, List.length_singleton]
  omega

theorem putBuffers_normal (iobuf : List (List UInt8)) :
    ∀ b ∈ putBuffers iobuf .normal, b.flag = .normal := by
  intro b hb
  rw [putBuffers, List.mem_cons] at hb
  rcases hb with rfl | hb
  · show (if PrnFlag.normal ≠ .normal ∧ iobuf.length > 5 then PrnFlag.normal else .normal) = .normal
    rw [ite_self]
  · split at hb
    · contradiction
    · rw [List.mem_singleton.mp hb]

/-- The buffers of the last request: the flag stands in the last one. -/
theorem putBuffers_eof {iobuf : List (List UInt8)} (hiobuf : iobuf ≠ []) (h : iobuf.length ≤ 10) :
    ∃ front b, putBuffers (endLast iobuf) .eof = front ++ [b] ∧ b.data ≠ [] ∧ b.flag = .eof ∧
      ∀ x ∈ front, x.flag = .normal := by
  have hlen := length_endLast hiobuf
  have hdata := flatten_endLast iobuf
  by_cases hmany : (endLast iobuf).length > 5
  · -- the `'\4'` is in the second buffer
    have hsecond : (((endLast iobuf).drop 5).take 5).flatten ≠ [] := by
      have htake : ((endLast iobuf).drop 5).take 5 = (endLast iobuf).drop 5 := by
        apply List.take_of_length_le
        rw [List.length_drop]
        omega
      have hdrop : (endLast iobuf).drop 5 = iobuf.dropLast.drop 5 ++ [iobuf.getLastD [] ++ [4]] := by
        apply List.drop_append_of_le_length
        rw [List.length_dropLast]
        omega
      rw [htake, hdrop, List.flatten_append]
      simp
    refine ⟨[⟨((endLast iobuf).take 5).flatten, .normal⟩],
      ⟨(((endLast iobuf).drop 5).take 5).flatten, .eof⟩, ?_, hsecond, rfl, ?_⟩
    · rw [putBuffers]
      simp [hmany, hsecond]
    · intro x hx
      rw [List.mem_singleton.mp hx]
  · have hfew : (endLast iobuf).take 5 = endLast iobuf := by
      apply List.take_of_length_le
      omega
    have hrest : (((endLast iobuf).drop 5).take 5).flatten = [] := by
      rw [List.drop_of_length_le (by omega)]
      rfl
    refine ⟨[], ⟨(endLast iobuf).flatten, .eof⟩, ?_, ?_, rfl, fun _ hx => by contradiction⟩
    · rw [putBuffers, hfew]
      simp [hmany, hrest]
    · rw [hdata]
      exact List.append_ne_nil_of_right_ne_nil _ (List.cons_ne_nil _ _)

end PrintServer.Atalk
