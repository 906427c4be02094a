import PrintServer.Atalk.PapPrinted

/-!
# What of a job is printed

All of a job is printed exactly when `markline` finds the end of the first line in the first quantum
that carries data: a quantum that it reads to its end is kept for the match of the line only, and
no later call prints it.
-/

namespace PrintServer.Atalk

open Http (bytes chr)
open Lib

variable {connid : UInt8} {s s' : PapSession} {q : Quantum} {quanta : List Quantum} {old : Blocks}

/-! ## What a call can print -/

/-- The octets on the output queue. -/
def PapSession.size (s : PapSession) : Nat := (s.queue.flatMap (·.data)).length

/-- What the loop can print at most: the packets, and the mark at the end of the file. -/
def PapSession.due (s : PapSession) : Nat :=
  s.infile.iobuf.flatten.length + if s.infile.eof then 1 else 0

/-- The handlers are never stacked, and the one that prints has no line in hand. -/
structure Single (s : PapSession) : Prop where
  comstate : s.comstate = [] ∨ ∃ handler, s.comstate = [handler]
  line : s.comstate = [.psadobe] → s.infile.line = []

/-- A call that printed no more than was due. -/
structure AtMost (s : PapSession) (n : Nat) (s' : PapSession) : Prop where
  size : s'.size ≤ s.size + n
  single : Single s'
  eof : s'.infile.eof = s.infile.eof
  connid : s'.connid = s.connid

theorem ascpaprint_size {flag : PrnFlag} (h : ascpaprint s flag = .ok s') :
    s'.size ≤ s.size + s.infile.iobuf.flatten.length + if flag = .normal then 0 else 1 := by
  rw [ascpaprint] at h
  split at h
  · contradiction
  cases h
  show ((s.queue ++ _).flatMap _).length ≤ _
  rw [List.flatMap_append, List.length_append]
  split
  · have hle := putBuffers_size_le s.infile.iobuf flag
    unfold PapSession.size
    omega
  · have hle := putBuffers_size_le (endLast s.infile.iobuf) flag
    rw [flatten_endLast, List.length_append, List.length_singleton] at hle
    unfold PapSession.size
    omega

theorem ascpaprint_spec {flag : PrnFlag} (h : ascpaprint s flag = .ok s') :
    s'.comstate = s.comstate ∧ s'.connid = s.connid ∧
      s'.infile = { s.infile with print := true, iobuf := [] } := by
  rw [ascpaprint] at h
  split at h
  · contradiction
  · cases h
    exact ⟨rfl, rfl, rfl⟩

/-- At the end of the file and with everything printed, the loop ends. -/
theorem postScriptLoop_finished {turns : Nat} (hcom : s.comstate = [])
    (hiobuf : s.infile.iobuf = []) (hline : s.infile.line = []) (heof : s.infile.eof = true)
    (h : s.postScriptLoop .none old turns true = .ok s') : s' = { s with outEof := true } := by
  cases turns with
  | zero => contradiction
  | succ turns =>
    cases hbot : s.infile.bot with
    | true =>
      rw [postScriptLoop_eof hcom hbot (markline_at_end hiobuf hline heof)] at h
      exact (Except.ok.inj h).symm
    | false =>
      rw [postScriptLoop_begun hcom hbot, printPackets_eq, if_pos heof, if_pos rfl] at h
      exact (Except.ok.inj h).symm

theorem single_of_nil (h : s.comstate = []) : Single s := by
  constructor
  · exact .inl h
  · intro hcom
    rw [h] at hcom
    contradiction

/-- A turn that printed nothing before what follows. -/
theorem AtMost.after {s₁ : PapSession} (h : AtMost s₁ s₁.due s') (hsize : s₁.size = s.size)
    (hiobuf : s₁.infile.iobuf.flatten.length ≤ s.infile.iobuf.flatten.length)
    (heof : s₁.infile.eof = s.infile.eof) (hconnid : s₁.connid = s.connid) :
    AtMost s s.due s' := by
  have hle := h.size
  unfold PapSession.due at hle
  rw [heof] at hle
  refine ⟨?_, h.single, h.eof.trans heof, h.connid.trans hconnid⟩
  unfold PapSession.due
  omega

theorem printPackets_atMost {matched : Bool} (hcom : s.comstate = [])
    (h : (PapSession.ops .none old).printPackets matched s = .ok s') : AtMost s s.due s' := by
  rw [printPackets_eq] at h
  split at h
  · rename_i heof
    split at h
    · cases h
      exact ⟨Nat.le_add_right _ _, single_of_nil hcom, rfl, rfl⟩
    · have hsize := ascpaprint_size h
      obtain ⟨hcom', hconnid, hinfile⟩ := ascpaprint_spec h
      refine ⟨?_, single_of_nil (hcom'.trans hcom), by rw [hinfile], hconnid⟩
      rw [PapSession.due, if_pos heof, ← Nat.add_assoc]
      exact hsize
  · rename_i heof
    have hsize := ascpaprint_size h
    obtain ⟨hcom', hconnid, hinfile⟩ := ascpaprint_spec h
    refine ⟨?_, single_of_nil (hcom'.trans hcom), by rw [hinfile], hconnid⟩
    rw [PapSession.due, if_neg heof]
    exact hsize

theorem handle_psadobe_ok {o : PapSession × Ch} (h : s.handle .none old .psadobe = .ok o) :
    s.infile.eof = true ∧ o.2 = .done ∧ o.1.size ≤ s.size + s.infile.iobuf.flatten.length + 1 ∧
        o.1.comstate = s.comstate.tail ∧ o.1.connid = s.connid ∧ o.1.infile.iobuf = [] ∧
        o.1.infile.line = s.infile.line ∧ o.1.infile.eof = true ∨
      s.infile.eof = false ∧ o.2 = .more ∧ o.1.size ≤ s.size + s.infile.iobuf.flatten.length ∧
        o.1.comstate = s.comstate ∧ o.1.connid = s.connid ∧ o.1.infile.line = s.infile.line ∧
        o.1.infile.eof = false := by
  rw [handle_psadobe] at h
  split at h
  · rename_i heof
    obtain ⟨s₁, hprint, hok⟩ := bind_eq_ok h
    obtain rfl := Except.ok.inj hok
    have hsize := ascpaprint_size hprint
    obtain ⟨hcom, hconnid, hinfile⟩ := ascpaprint_spec hprint
    have hflat : (if s.infile.iobuf = [] then [[]] else s.infile.iobuf).flatten =
        s.infile.iobuf.flatten := by
      split
      · rename_i hnil
        rw [hnil]
        rfl
      · rfl
    refine .inl ⟨heof, rfl, ?_, hcom, hconnid, ?_, ?_, ?_⟩
    · rw [← hflat]
      exact hsize
    · rw [hinfile]
    · rw [hinfile]
    · rw [hinfile]
      exact heof
  · rename_i heof
    obtain ⟨s₁, hprint, hok⟩ := bind_eq_ok h
    obtain rfl := Except.ok.inj hok
    obtain ⟨hcom, hconnid, hinfile⟩ := ascpaprint_spec hprint
    have heof' : s.infile.eof = false := Bool.eq_false_iff.mpr heof
    refine .inr ⟨heof', rfl, ascpaprint_size hprint, hcom, hconnid, ?_, ?_⟩
    · rw [hinfile]
    · rw [hinfile]
      exact heof'

/-- The handler that copies prints what is left of the file, or waits for more. -/
theorem psadobe_atMost {turns : Nat} {matched : Bool} (hs : Single s)
    (hcom : s.comstate = [.psadobe])
    (h : s.postScriptLoop .none old (turns + 1) matched = .ok s') : AtMost s s.due s' := by
  cases hhandle : s.handle .none old .psadobe with
  | error stop =>
    rw [postScriptLoop_error hcom hhandle] at h
    contradiction
  | ok o =>
    obtain ⟨s₁, ch⟩ := o
    rcases handle_psadobe_ok hhandle with
      ⟨heof, rfl, hsize, hcom₁, hconnid, hiobuf, hline, heof₁⟩ |
      ⟨heof, rfl, hsize, hcom₁, hconnid, hline, heof₁⟩
    · -- the file is at its end: the next turn is the last one
      rw [postScriptLoop_done hcom hhandle] at h
      have hnil : s₁.comstate = [] := by
        rw [hcom₁, hcom]
        rfl
      have hend := postScriptLoop_finished hnil hiobuf (hline.trans (hs.line hcom)) heof₁ h
      rw [hend]
      refine ⟨?_, single_of_nil hnil, heof₁.trans heof.symm, hconnid⟩
      rw [PapSession.due, if_pos heof, ← Nat.add_assoc]
      exact hsize
    · rw [postScriptLoop_more hcom hhandle] at h
      cases h
      refine ⟨?_, ⟨.inr ⟨_, hcom₁.trans hcom⟩, fun _ ↦ hline.trans (hs.line hcom)⟩,
        heof₁.trans heof.symm, hconnid⟩
      have hle : s'.size ≤ s.size + s.infile.iobuf.flatten.length := hsize
      rw [PapSession.due]
      omega

/-- No call prints more than is due: induction on the turns, the handlers being at most one. -/
theorem postScriptLoop_atMost {turns : Nat} {matched : Bool} (hs : Single s)
    (h : s.postScriptLoop .none old turns matched = .ok s') : AtMost s s.due s' := by
  induction turns generalizing matched s with
  | zero => contradiction
  | succ turns ih =>
    rcases hs.comstate with hcom | ⟨handler, hcom⟩
    · cases hbot : s.infile.bot with
      | false =>
        rw [postScriptLoop_begun hcom hbot] at h
        exact printPackets_atMost hcom h
      | true =>
        obtain ⟨heof, -, hiobuf, hline⟩ := markline_spec s.infile
        rcases hmark : markline s.infile with ⟨infile, _ | _ | text⟩
        · rw [hmark] at heof
          rw [postScriptLoop_eof hcom hbot hmark] at h
          cases h
          exact ⟨Nat.le_add_right _ _, single_of_nil hcom, heof, rfl⟩
        · rw [hmark] at heof
          rw [postScriptLoop_wait hcom hbot hmark] at h
          cases h
          exact ⟨Nat.le_add_right _ _, single_of_nil hcom, heof, rfl⟩
        · rw [hmark] at heof hiobuf hline
          cases hmatch : commatch text with
          | none =>
            rw [postScriptLoop_no_match hcom hbot hmark hmatch] at h
            apply AtMost.after (@printPackets_atMost
              { s with infile := { infile with bot := false } } s' old matched hcom h)
            · rfl
            · exact hiobuf
            · exact heof
            · rfl
          | some handler =>
            rw [postScriptLoop_match hcom hbot hmark hmatch] at h
            have hsingle : Single { s with infile, comstate := [handler] } :=
              ⟨.inr ⟨handler, rfl⟩, fun _ ↦ hline text rfl⟩
            exact (ih hsingle h).after rfl hiobuf heof rfl
    · cases handler with
      | psquery =>
        rw [postScriptLoop_error hcom rfl] at h
        contradiction
      | psadobe => exact psadobe_atMost hs hcom h
      | psswitch =>
        obtain ⟨heof, -, hiobuf, hline⟩ := markline_spec s.infile
        rcases hmark : markline s.infile with ⟨infile, _ | _ | text⟩
        · rw [hmark] at heof hiobuf
          rw [postScriptLoop_done hcom (handle_psswitch_eof hmark)] at h
          have hnil : s.comstate.tail = [] := by
            rw [hcom]
            rfl
          exact (ih (single_of_nil hnil) h).after rfl hiobuf heof rfl
        · rw [hmark] at heof
          rw [postScriptLoop_more hcom (handle_psswitch_more hmark)] at h
          cases h
          refine ⟨Nat.le_add_right _ _, ?_, heof, rfl⟩
          constructor
          · exact .inr ⟨_, hcom⟩
          · intro hpsadobe
            rw [hcom] at hpsadobe
            contradiction
        · rw [hmark] at heof hiobuf hline
          rw [postScriptLoop_done hcom (handle_psswitch_line hmark)] at h
          have htop : (if saysQuery text then Handler.psquery else .psadobe) :: s.comstate.tail =
              [if saysQuery text then .psquery else .psadobe] := by
            rw [hcom]
            rfl
          exact (ih ⟨.inr ⟨_, htop⟩, fun _ ↦ hline text rfl⟩ h).after rfl hiobuf heof rfl

/-! ## What a request can print -/

/-- The mark that the last request adds. -/
def markOf (q : Quantum) : Nat := if q.first.eof = 0 then 0 else 1

theorem due_take (heof : s.infile.eof = false) : (s.take q).due = q.data.length + markOf q := by
  rw [PapSession.due, (has_take heof).eof, markOf]
  by_cases hq : q.first.eof = 0
  · rw [if_pos hq, if_neg (by simp [hq])]
    rfl
  · rw [if_neg hq, if_pos (by simp [hq])]
    rfl

theorem dataResponse_atMost (hs : Single s) (heof : s.infile.eof = false)
    (hq : q.first.connid = s.connid ∧ q.first.command = papData)
    (h : s.dataResponse .none old q = .ok s') :
    s'.size ≤ s.size + q.data.length + markOf q ∧ Single s' ∧ s'.connid = s.connid ∧
      s'.infile.eof = decide (q.first.eof ≠ 0) := by
  rw [dataResponse_eq hq] at h
  have hmost := @postScriptLoop_atMost (s.take q) s' old 4 false ⟨hs.comstate, hs.line⟩ h
  refine ⟨?_, hmost.single, hmost.connid, hmost.eof.trans (has_take heof).eof⟩
  rw [Nat.add_assoc, ← due_take heof]
  exact hmost.size

/-- The first request with data, when the line does not end in it: all it printed is the mark. -/
theorem dataResponse_lost (hs : AtStart s) (hstops : ¬ Stops q.data)
    (hq : q.first.connid = s.connid ∧ q.first.command = papData)
    (h : s.dataResponse .none old q = .ok s') :
    s'.size ≤ s.size + markOf q ∧ Single s' ∧ s'.connid = s.connid ∧
      s'.infile.eof = decide (q.first.eof ≠ 0) ∧ (q.first.eof ≠ 0 → q.data ≠ []) := by
  have hcom : (s.take q).comstate = [] := hs.comstate
  have hbot : (s.take q).infile.bot = true := hs.bot
  have heof := (@has_take s q hs.eof).eof
  have hmark := @markline_of_not_stops (s.take q).infile hs.line q.packets_ne_nil hstops
  rw [dataResponse_eq hq] at h
  by_cases hq0 : q.first.eof = 0
  · have hf : (s.take q).infile.eof = false := by simp [heof, hq0]
    rw [if_neg (by simp [hf])] at hmark
    rw [postScriptLoop_wait hcom hbot hmark] at h
    cases h
    exact ⟨Nat.le_add_right _ _, single_of_nil hcom, rfl, heof, fun hne ↦ absurd hq0 hne⟩
  · have ht : (s.take q).infile.eof = true := by simp [heof, hq0]
    rw [if_pos ht] at hmark
    cases hmatch : commatch (if (s.take q).infile.iobuf.flatten = [] then [chr '\n']
        else (s.take q).infile.iobuf.flatten) with
    | none =>
      -- nothing is left in front of the mark
      rw [postScriptLoop_no_match hcom hbot hmark hmatch, printPackets_eq, if_pos ht,
        if_neg (by decide), PapSession.paprint, ascpaprint, if_pos ⟨by decide, rfl⟩] at h
      contradiction
    | some handler =>
      rw [postScriptLoop_match hcom hbot hmark hmatch] at h
      have hmost := @postScriptLoop_atMost { s.take q with
        infile := { (s.take q).infile with iobuf := [] }, comstate := [handler] } s' old 3 false
        ⟨.inr ⟨handler, rfl⟩, fun _ ↦ hs.line⟩ h
      refine ⟨?_, hmost.single, hmost.connid, hmost.eof.trans heof, fun _ hempty ↦ ?_⟩
      · have hsize := hmost.size
        have hdue : PapSession.due { s.take q with
            infile := { (s.take q).infile with iobuf := [] }, comstate := [handler] } = 1 := by
          rw [PapSession.due, if_pos ht]
          rfl
        rw [hdue] at hsize
        rw [markOf, if_neg hq0]
        exact hsize
      · have hflat : (s.take q).infile.iobuf.flatten = [] := hempty
        rw [hflat, if_pos rfl] at hmatch
        have hnone : commatch [chr '\n'] = none := by decide
        rw [hnone] at hmatch
        contradiction

theorem dataResponses_atMost (hs : Single s) (heof : s.infile.eof = false)
    (hq : ∀ q ∈ quanta, q.first.connid = s.connid ∧ q.first.command = papData)
    (hmid : ∀ q ∈ quanta.dropLast, q.first.eof = 0)
    (h : s.dataResponses .none old quanta = .ok s') :
    s'.size ≤ s.size + (dataOf quanta).length + 1 := by
  induction quanta generalizing s with
  | nil =>
    cases h
    omega
  | cons q rest ih =>
    obtain ⟨hq, hqs⟩ := List.forall_mem_cons.mp hq
    obtain ⟨s₁, hs₁, hrest⟩ := bind_eq_ok h
    obtain ⟨hsize, hsingle, hconnid, heof₁⟩ := dataResponse_atMost hs heof hq hs₁
    have hlen : (dataOf (q :: rest)).length = q.data.length + (dataOf rest).length := by
      rw [dataOf, List.flatMap_cons, List.length_append]
      rfl
    cases rest with
    | nil =>
      cases hrest
      have hle : markOf q ≤ 1 := by
        rw [markOf]
        split <;> omega
      omega
    | cons r rest =>
      obtain ⟨hq0, hmid⟩ :=
        List.forall_mem_cons.mp (show ∀ p ∈ q :: (r :: rest).dropLast, _ from hmid)
      have hnext := ih hsingle (by simp [heof₁, hq0]) (fun p hp ↦ hconnid ▸ hqs p hp) hmid hrest
      rw [markOf, if_pos hq0] at hsize
      omega

/-- A lost request is missing in what is printed. -/
theorem dataResponses_lost {back : List Quantum} (hs : AtStart s) (hstops : ¬ Stops q.data)
    (hq : ∀ r ∈ q :: back, r.first.connid = s.connid ∧ r.first.command = papData)
    (hmid : ∀ r ∈ (q :: back).dropLast, r.first.eof = 0)
    (h : s.dataResponses .none old (q :: back) = .ok s') :
    s'.size ≤ s.size + (dataOf back).length + 1 := by
  obtain ⟨hq, hback⟩ := List.forall_mem_cons.mp hq
  obtain ⟨s₁, hs₁, hrest⟩ := bind_eq_ok h
  obtain ⟨hsize, hsingle, hconnid, heof, -⟩ := dataResponse_lost hs hstops hq hs₁
  cases back with
  | nil =>
    cases hrest
    have hle : markOf q ≤ 1 := by
      rw [markOf]
      split <;> omega
    omega
  | cons r rest =>
    obtain ⟨hq0, hmid⟩ :=
      List.forall_mem_cons.mp (show ∀ p ∈ q :: (r :: rest).dropLast, _ from hmid)
    have hnext := dataResponses_atMost hsingle (by simp [heof, hq0])
      (fun p hp ↦ hconnid ▸ hback p hp) hmid hrest
    rw [markOf, if_pos hq0] at hsize
    omega

/-! ## Which jobs are printed -/

/-- Without data there is no packet left for the mark when the file ends. -/
theorem not_printed_of_empty {job : PapJob connid} (h : ∀ q ∈ job.quanta, q.data = []) :
    ¬ Printed old job := by
  intro hprinted
  obtain ⟨s, hs, -, -⟩ := hprinted
  have hbody : ∀ q ∈ job.body, q ∈ job.body ++ [job.last] := fun q hq ↦ List.mem_append_left _ hq
  have hlast : job.last ∈ job.body ++ [job.last] :=
    List.mem_append_right _ (List.mem_singleton_self _)
  obtain ⟨s₁, hs₁, hstart, -, hconnid⟩ := dataResponses_empty (atStart_papStart connid)
    (fun q hq ↦ h q (hbody q hq)) (fun q hq ↦ job.asked q (hbody q hq)) job.unmarked
  rw [PapJob.quanta, dataResponses_append, hs₁] at hs
  obtain ⟨s₂, hs₂, -⟩ := bind_eq_ok (show s₁.dataResponse .none old job.last >>= _ = _ from hs)
  have hempty := h job.last hlast
  obtain ⟨-, -, -, -, hne⟩ := dataResponse_lost hstart (hempty ▸ not_stops_nil)
    (hconnid ▸ job.asked _ hlast) hs₂
  exact hne job.marked hempty

theorem firstStops_of_printed {job : PapJob connid} (h : Printed old job) :
    FirstStops job.quanta := by
  by_cases hempty : ∀ q ∈ job.quanta, q.data = []
  · exact absurd h (not_printed_of_empty hempty)
  -- the first request with data
  have hsome : (job.quanta.find? fun q ↦ decide (q.data ≠ [])).isSome := by
    rw [List.find?_isSome]
    push Not at hempty
    obtain ⟨q, hq, hne⟩ := hempty
    exact ⟨q, hq, decide_eq_true hne⟩
  obtain ⟨q, hfind⟩ := Option.isSome_iff_exists.mp hsome
  obtain ⟨hne, front, back, hquanta, hfront⟩ := List.find?_eq_some_iff_append.mp hfind
  have hfront : ∀ p ∈ front, p.data = [] := fun p hp ↦ by simpa using hfront p hp
  by_contra hnot
  have hstops : ¬ Stops q.data := fun hstops ↦ hnot ⟨front, q, back, hquanta, hfront, hstops⟩
  obtain ⟨s, hs, hdata, -⟩ := h
  have hasked : ∀ r ∈ front ++ q :: back, r.first.connid = connid ∧ r.first.command = papData :=
    hquanta ▸ job.asked
  have heof : ∀ r ∈ front ++ (q :: back).dropLast, r.first.eof = 0 :=
    PapJob.body_of_split hquanta ▸ job.unmarked
  obtain ⟨s₁, hs₁, hstart, hqueue, hconnid⟩ := dataResponses_empty (atStart_papStart connid) hfront
    (fun r hr ↦ hasked r (List.mem_append_left _ hr))
    (fun r hr ↦ heof r (List.mem_append_left _ hr))
  rw [hquanta, dataResponses_append, hs₁] at hs
  have hsize := dataResponses_lost hstart hstops
    (fun r hr ↦ hconnid ▸ hasked r (List.mem_append_right _ hr))
    (fun r hr ↦ heof r (List.mem_append_right _ hr)) hs
  -- the data of the lost request make the difference
  have hnone : s₁.size = 0 := by
    rw [PapSession.size, hqueue]
    rfl
  have hlost : 0 < q.data.length := List.length_pos_iff.mpr (of_decide_eq_true hne)
  have hlostBack : (q.data ++ dataOf back).length = q.data.length + (dataOf back).length :=
    List.length_append
  have hall : s.size = (dataOf front).length + (q.data.length + (dataOf back).length) + 1 := by
    rw [PapSession.size, hdata, List.length_append, PapJob.data, hquanta, dataOf_append,
      List.length_append, ← hlostBack]
    rfl
  omega

/-- A job is printed as it was sent if and only if the end of its first line is in its first request
with data. -/
theorem printed_iff (old : Blocks) (connid : UInt8) (job : PapJob connid)
    (hquery : job.query = false) : Printed old job ↔ FirstStops job.quanta :=
  ⟨firstStops_of_printed, printed_of_firstStops hquery⟩

/-- Buffers with nothing in them. -/
def clearBlocks : Blocks := fun _ ↦ ⟨fun _ ↦ 0, 0⟩

/-- A request of one packet. -/
def oneLine (text : List UInt8) (eof : UInt8) (h : text.length ≤ papMaxData) : Quantum :=
  ⟨⟨1, papData, eof, text, h⟩, [], by decide⟩

/-- A line, and what is behind it in another request. -/
def lineAndRest : PapJob 1 where
  body := [oneLine [37, 33, 13] 0 (by decide)]
  last := oneLine [97] 1 (by decide)
  asked := by decide
  unmarked := by decide
  marked := by decide

theorem printed_iff_lineAndRest :
    lineAndRest.query = false ∧ (Printed clearBlocks lineAndRest ↔ FirstStops lineAndRest.quanta) :=
  have hquery : lineAndRest.query = false := by decide
  ⟨hquery, printed_iff clearBlocks 1 lineAndRest hquery⟩

/-- The same octets, the line being cut between the two requests. -/
def cutLine : PapJob 1 where
  body := [oneLine [37, 33] 0 (by decide)]
  last := oneLine [13, 97] 1 (by decide)
  asked := by decide
  unmarked := by decide
  marked := by decide

/-- The first request is not printed. -/
theorem cutLine_not_printed : cutLine.query = false ∧ ¬ Printed clearBlocks cutLine := by
  have hrun : ((papStart 1).dataResponses .none clearBlocks cutLine.quanta).map (·.queue) =
      .ok [⟨[13, 97, 4], .eof⟩] := by decide
  refine ⟨by decide, ?_⟩
  intro h
  obtain ⟨s, hs, hdata, -⟩ := h
  rw [hs] at hrun
  rw [show s.queue = _ from Except.ok.inj hrun] at hdata
  contradiction

end PrintServer.Atalk
