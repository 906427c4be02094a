import PrintServer.Atalk.PapLine

/-!
# Jobs that are printed

Where the first line ends in the first quantum with data, that quantum and all behind it are printed
as they are.
-/

namespace PrintServer.Atalk

open Http (bytes chr)

/-! ## Jobs -/

/-- The quanta of a job: the end-of-file mark is set in the last one only. -/
structure PapJob (connid : UInt8) where
  body : List Quantum
  last : Quantum
  asked : ∀ q ∈ body ++ [last], q.first.connid = connid ∧ q.first.command = papData
  unmarked : ∀ q ∈ body, q.first.eof = 0
  marked : last.first.eof ≠ 0

def dataOf (quanta : List Quantum) : List UInt8 := quanta.flatMap Quantum.data

theorem dataOf_append (front back : List Quantum) :
    dataOf (front ++ back) = dataOf front ++ dataOf back := List.flatMap_append

/-- A query, by its first line. -/
def queryLine (text : List UInt8) : Bool :=
  match commatch text with
  | some .psquery => true
  | some .psswitch => saysQuery text
  | _ => false

namespace PapJob

variable {connid : UInt8} (job : PapJob connid)

def quanta : List Quantum := job.body ++ [job.last]

def data : List UInt8 := dataOf job.quanta

def query : Bool := queryLine (fillLine job.data []).1

end PapJob

/-- The last buffer with data, and no earlier one, is flagged. -/
def FlaggedLast (queue : List PrnBuf) : Prop :=
  ∃ front b back, queue = front ++ b :: back ∧ b.data ≠ [] ∧ b.flag = .eof ∧
    (∀ x ∈ front, x.flag ≠ .eof) ∧ ∀ x ∈ back, x.data = []

/-- Without a format of the port the session prints the job as it was sent, with one `'\4'` behind
it. -/
def Printed {connid : UInt8} (old : Blocks) (job : PapJob connid) : Prop :=
  ∃ s, (papStart connid).dataResponses .none old job.quanta = .ok s ∧
    s.queue.flatMap (·.data) = job.data ++ [4] ∧ FlaggedLast s.queue

/-- The first quantum with data has a line end in it, or enough data to fill the slot. -/
def FirstStops (quanta : List Quantum) : Prop :=
  ∃ front q back, quanta = front ++ q :: back ∧ (∀ p ∈ front, p.data = []) ∧ Stops q.data

variable {connid : UInt8} {s s' : PapSession} {q : Quantum} {quanta : List Quantum} {old : Blocks}

theorem Quantum.packets_ne_nil (q : Quantum) : q.packets ≠ [] := by
  rw [packets, List.map_cons]
  exact List.cons_ne_nil _ _

theorem Quantum.packets_length_le (q : Quantum) : q.packets.length ≤ 10 := by
  have hrest := q.rest_lt
  rw [packets, List.length_map, List.length_cons]
  unfold papMaxQuantum at hrest
  omega

/-! ## Jobs that are printed -/

/-- The session before its first line, of which it has seen nothing. -/
structure AtStart (s : PapSession) : Prop where
  comstate : s.comstate = []
  bot : s.infile.bot = true
  eof : s.infile.eof = false
  line : s.infile.line = []

/-- The session behind its first line, in one of two ways: with the handler of a magic line, or
without one. -/
structure Printing (s : PapSession) : Prop where
  eof : s.infile.eof = false
  way : s.comstate = [.psadobe] ∧ s.infile.bot = true ∧ s.infile.line = [] ∨
    s.comstate = [] ∧ s.infile.bot = false

/-- What a request for data adds to the queue. -/
def printed (q : Quantum) : List PrnBuf :=
  if q.first.eof = 0 then putBuffers q.packets .normal else putBuffers (endLast q.packets) .eof

theorem ascpaprint_normal (s : PapSession) : ascpaprint s .normal =
    .ok { s with
      infile := { s.infile with print := true, iobuf := [] }
      queue := s.queue ++ putBuffers s.infile.iobuf .normal } := by
  rw [ascpaprint, if_neg (fun h => h.1 rfl), if_pos rfl]

/-- The state behind a request whose packets were printed. -/
structure Prints (s : PapSession) (q : Quantum) (s' : PapSession) : Prop where
  queue : s'.queue = s.queue ++ printed q
  connid : s'.connid = s.connid
  printing : q.first.eof = 0 → Printing s'

theorem Prints.congr {s₁ : PapSession} {r : Except Stop PapSession}
    (h : ∃ s', r = .ok s' ∧ Prints s₁ q s') (hqueue : s₁.queue = s.queue)
    (hconnid : s₁.connid = s.connid) : ∃ s', r = .ok s' ∧ Prints s q s' := by
  obtain ⟨s', hr, hprints⟩ := h
  exact ⟨s', hr, hqueue ▸ hprints.queue, hconnid ▸ hprints.connid, hprints.printing⟩

/-- The session with the packets of a request. -/
structure Has (s : PapSession) (q : Quantum) : Prop where
  iobuf : s.infile.iobuf = q.packets
  eof : s.infile.eof = decide (q.first.eof ≠ 0)

/-- The handler of a magic line prints the packets of a request. -/
theorem Has.psadobe {turns : Nat} {matched : Bool} (h : Has s q) (hcom : s.comstate = [.psadobe])
    (hbot : s.infile.bot = true) (hline : s.infile.line = []) :
    ∃ s', s.postScriptLoop .none old (turns + 2) matched = .ok s' ∧ Prints s q s' := by
  by_cases hq : q.first.eof = 0
  · have heof : s.infile.eof = false := by simp [h.eof, hq]
    have hhandle : s.handle .none old .psadobe = .ok ({ s with
        infile := { s.infile with print := true, iobuf := [] }
        queue := s.queue ++ printed q }, .more) := by
      rw [handle_psadobe, heof, if_neg Bool.false_ne_true, PapSession.paprint, ascpaprint_normal,
        printed, if_pos hq, h.iobuf]
      rfl
    exact ⟨_, postScriptLoop_more hcom hhandle, rfl, rfl,
      fun _ ↦ ⟨heof, .inl ⟨hcom, hbot, hline⟩⟩⟩
  · have heof : s.infile.eof = true := by simp [h.eof, hq]
    have hhandle : s.handle .none old .psadobe = .ok ({ s with
        outEof := true, outEop := true, comstate := []
        infile := { s.infile with print := true, iobuf := [] }
        queue := s.queue ++ printed q }, .done) := by
      rw [handle_psadobe, if_pos heof]
      simp [PapSession.paprint, ascpaprint, heof, h.iobuf, q.packets_ne_nil, hcom, printed, hq]
      rfl
    -- in its last turn the file is at its end
    have hend := @markline_at_end { s.infile with print := true, iobuf := [] } rfl hline heof
    have hlast := @postScriptLoop_eof .none old { s with
        outEof := true, outEop := true, comstate := []
        infile := { s.infile with print := true, iobuf := [] }
        queue := s.queue ++ printed q } turns true _ rfl hbot hend
    refine ⟨_, (postScriptLoop_done hcom hhandle).trans hlast, rfl, rfl, fun h0 ↦ ?_⟩
    exact absurd h0 hq

/-- So does the loop without one. -/
theorem Has.printPackets (h : Has s q) (hcom : s.comstate = []) (hbot : s.infile.bot = false) :
    ∃ s', (PapSession.ops .none old).printPackets false s = .ok s' ∧ Prints s q s' := by
  rw [printPackets_eq]
  by_cases hq : q.first.eof = 0
  · have heof : s.infile.eof = false := by simp [h.eof, hq]
    refine ⟨{ s with
      infile := { s.infile with print := true, iobuf := [] }
      queue := s.queue ++ printed q }, ?_, rfl, rfl, fun _ ↦ ⟨heof, .inr ⟨hcom, hbot⟩⟩⟩
    simp [PapSession.paprint, ascpaprint, heof, h.iobuf, printed, hq]
  · have heof : s.infile.eof = true := by simp [h.eof, hq]
    refine ⟨{ s with
      outEof := true, outEop := true
      infile := { s.infile with print := true, iobuf := [] }
      queue := s.queue ++ printed q }, ?_, rfl, rfl, fun h0 ↦ absurd h0 hq⟩
    simp [PapSession.paprint, ascpaprint, heof, h.iobuf, q.packets_ne_nil, printed, hq]

/-- The state in which `PostScript` finds a response. -/
def PapSession.take (s : PapSession) (q : Quantum) : PapSession :=
  { s with infile :=
    { s.infile with eof := s.infile.eof || decide (q.first.eof ≠ 0), iobuf := q.packets } }

theorem dataResponse_eq {format : DataFormat}
    (hq : q.first.connid = s.connid ∧ q.first.command = papData) :
    s.dataResponse format old q = (s.take q).postScriptLoop format old 4 false := by
  rw [PapSession.dataResponse, if_neg]
  · rfl
  intro hbad
  rcases hbad with hbad | hbad
  · exact hbad hq.1
  · exact hbad hq.2

theorem has_take (h : s.infile.eof = false) : Has (s.take q) q := by
  constructor
  · rfl
  · show (s.infile.eof || decide (q.first.eof ≠ 0)) = decide (q.first.eof ≠ 0)
    rw [h, Bool.false_or]

theorem dataResponse_printing (h : Printing s)
    (hq : q.first.connid = s.connid ∧ q.first.command = papData) :
    ∃ s', s.dataResponse .none old q = .ok s' ∧ Prints s q s' := by
  have hhas : Has (s.take q) q := has_take h.eof
  rw [dataResponse_eq hq]
  rcases h.way with ⟨hcom, hbot, hline⟩ | ⟨hcom, hbot⟩
  · exact Prints.congr (@Has.psadobe _ _ old 2 false hhas hcom hbot hline) rfl rfl
  · have hturn := @postScriptLoop_begun .none old (s.take q) 3 false hcom hbot
    rw [hturn]
    exact Prints.congr (hhas.printPackets hcom hbot) rfl rfl

theorem dataResponse_stops (h : AtStart s) (hstops : Stops q.data)
    (hq : q.first.connid = s.connid ∧ q.first.command = papData)
    (hquery : queryLine (fillLine q.data []).1 = false) :
    ∃ s', s.dataResponse .none old q = .ok s' ∧ Prints s q s' := by
  have hhas : Has (s.take q) q := has_take h.eof
  have hmark : markline (s.take q).infile = ((s.take q).infile, .line (fillLine q.data []).1) :=
    markline_of_stops h.line hstops
  have hcom : (s.take q).comstate = [] := h.comstate
  have hbot : (s.take q).infile.bot = true := h.bot
  rw [dataResponse_eq hq]
  cases hmatch : commatch (fillLine q.data []).1 with
  | none =>
    rw [postScriptLoop_no_match hcom hbot hmark hmatch]
    exact Prints.congr
      (@Has.printPackets { s.take q with infile := { (s.take q).infile with bot := false } } q old
        ⟨hhas.iobuf, hhas.eof⟩ hcom rfl) rfl rfl
  | some handler =>
    rw [postScriptLoop_match hcom hbot hmark hmatch]
    cases handler with
    | psquery => simp [queryLine, hmatch] at hquery
    | psadobe =>
      exact Prints.congr (@Has.psadobe { s.take q with comstate := [.psadobe] } q old 1 false
        ⟨hhas.iobuf, hhas.eof⟩ rfl hbot h.line) rfl rfl
    | psswitch =>
      -- the line is read again, to be told from a query
      have hsays : saysQuery (fillLine q.data []).1 = false := by
        simpa [queryLine, hmatch] using hquery
      have hhandle : PapSession.handle .none old { s.take q with comstate := [.psswitch] }
          .psswitch = .ok ({ s.take q with comstate := [.psadobe] }, .done) := by
        rw [@handle_psswitch_line .none old { s.take q with comstate := [.psswitch] } _ _ hmark,
          hsays]
        rfl
      rw [postScriptLoop_done rfl hhandle]
      exact Prints.congr (@Has.psadobe { s.take q with comstate := [.psadobe] } q old 0 true
        ⟨hhas.iobuf, hhas.eof⟩ rfl hbot h.line) rfl rfl

/-- A request without data before the first line leaves the session as it was. -/
theorem dataResponse_empty (h : AtStart s) (hempty : q.data = []) (heof : q.first.eof = 0)
    (hq : q.first.connid = s.connid ∧ q.first.command = papData) :
    ∃ s', s.dataResponse .none old q = .ok s' ∧ AtStart s' ∧ s'.queue = s.queue ∧
      s'.connid = s.connid := by
  have hf : (s.take q).infile.eof = false := by
    show (s.infile.eof || decide (q.first.eof ≠ 0)) = false
    simp [h.eof, heof]
  have hflat : (s.take q).infile.iobuf.flatten = [] := hempty
  have hmark : markline (s.take q).infile =
      ({ (s.take q).infile with iobuf := [], line := [] }, .more) := by
    rw [@markline_of_not_stops (s.take q).infile h.line q.packets_ne_nil (hflat ▸ not_stops_nil),
      if_neg (by simp [hf]), hflat]
  rw [dataResponse_eq hq,
    @postScriptLoop_wait .none old (s.take q) 3 false _ h.comstate h.bot hmark]
  exact ⟨_, rfl, ⟨h.comstate, h.bot, hf, rfl⟩, rfl, rfl⟩

/-! Runs -/

theorem dataResponses_append {format : DataFormat} {front back : List Quantum} :
    s.dataResponses format old (front ++ back) =
      s.dataResponses format old front >>= (·.dataResponses format old back) := by
  induction front generalizing s with
  | nil => rfl
  | cons q front ih =>
    rw [List.cons_append, PapSession.dataResponses, PapSession.dataResponses, bind_assoc]
    apply congrArg
    funext s'
    exact ih

/-- What the requests of a list that asks for the session's data print. -/
theorem dataResponses_printing (h : Printing s)
    (hq : ∀ q ∈ quanta, q.first.connid = s.connid ∧ q.first.command = papData)
    (heof : ∀ q ∈ quanta, q.first.eof = 0) :
    ∃ s', s.dataResponses .none old quanta = .ok s' ∧ Printing s' ∧ s'.connid = s.connid ∧
      s'.queue = s.queue ++ quanta.flatMap printed := by
  induction quanta generalizing s with
  | nil => exact ⟨s, rfl, h, rfl, (List.append_nil _).symm⟩
  | cons q quanta ih =>
    obtain ⟨hq, hqs⟩ := List.forall_mem_cons.mp hq
    obtain ⟨heof, heofs⟩ := List.forall_mem_cons.mp heof
    obtain ⟨s₁, hs₁, hprints⟩ := dataResponse_printing h hq
    obtain ⟨s', hs', hprinting, hconnid, hqueue⟩ :=
      ih (hprints.printing heof) (fun r hr ↦ hprints.connid ▸ hqs r hr) heofs
    refine ⟨s', ?_, hprinting, hconnid.trans hprints.connid, ?_⟩
    · rw [PapSession.dataResponses, hs₁]
      exact hs'
    · rw [hqueue, hprints.queue, List.flatMap_cons, List.append_assoc]

theorem dataResponses_empty (h : AtStart s) (hempty : ∀ q ∈ quanta, q.data = [])
    (hq : ∀ q ∈ quanta, q.first.connid = s.connid ∧ q.first.command = papData)
    (heof : ∀ q ∈ quanta, q.first.eof = 0) :
    ∃ s', s.dataResponses .none old quanta = .ok s' ∧ AtStart s' ∧ s'.queue = s.queue ∧
      s'.connid = s.connid := by
  induction quanta generalizing s with
  | nil => exact ⟨s, rfl, h, rfl, rfl⟩
  | cons q quanta ih =>
    obtain ⟨hempty, hempties⟩ := List.forall_mem_cons.mp hempty
    obtain ⟨hq, hqs⟩ := List.forall_mem_cons.mp hq
    obtain ⟨heof, heofs⟩ := List.forall_mem_cons.mp heof
    obtain ⟨s₁, hs₁, hstart, hqueue₁, hconnid₁⟩ := dataResponse_empty h hempty heof hq
    obtain ⟨s', hs', hstart', hqueue, hconnid⟩ :=
      ih hstart hempties (fun r hr ↦ hconnid₁ ▸ hqs r hr) heofs
    refine ⟨s', ?_, hstart', hqueue.trans hqueue₁, hconnid.trans hconnid₁⟩
    rw [PapSession.dataResponses, hs₁]
    exact hs'

theorem printed_data (q : Quantum) :
    (printed q).flatMap (·.data) = q.data ++ if q.first.eof = 0 then [] else [4] := by
  rw [printed]
  split
  · rw [putBuffers_data, List.take_of_length_le q.packets_length_le, List.append_nil]
    rfl
  · rw [putBuffers_data, List.take_of_length_le, flatten_endLast]
    · rfl
    · rw [length_endLast q.packets_ne_nil]
      exact q.packets_length_le

theorem flatMap_printed_data (heof : ∀ q ∈ quanta, q.first.eof = 0) :
    (quanta.flatMap printed).flatMap (·.data) = dataOf quanta := by
  induction quanta with
  | nil => rfl
  | cons q quanta ih =>
    obtain ⟨hq, hqs⟩ := List.forall_mem_cons.mp heof
    rw [List.flatMap_cons, List.flatMap_append, ih hqs, printed_data, if_pos hq, List.append_nil]
    rfl

/-- Nothing is flagged before the last request, in which the flag stands last. -/
theorem flaggedLast_printed {last : Quantum} (heof : ∀ q ∈ quanta, q.first.eof = 0)
    (hlast : last.first.eof ≠ 0) : FlaggedLast (quanta.flatMap printed ++ printed last) := by
  obtain ⟨front, b, hprinted, hdata, hflag, hfront⟩ :=
    putBuffers_eof last.packets_ne_nil last.packets_length_le
  refine ⟨quanta.flatMap printed ++ front, b, [], ?_, hdata, hflag, ?_, fun _ hx ↦ by contradiction⟩
  · rw [printed, if_neg hlast, hprinted, List.append_assoc]
  · intro x hx
    rcases List.mem_append.mp hx with hx | hx
    · obtain ⟨q, hq, hx⟩ := List.mem_flatMap.mp hx
      rw [printed, if_pos (heof q hq)] at hx
      rw [putBuffers_normal _ x hx]
      decide
    · rw [hfront x hx]
      decide

/-- A request whose line ends in it, and all behind it. -/
theorem dataResponses_stops {back : List Quantum} (h : AtStart s) (hstops : Stops q.data)
    (hquery : queryLine (fillLine q.data []).1 = false)
    (hq : ∀ r ∈ q :: back, r.first.connid = s.connid ∧ r.first.command = papData)
    (heof : ∀ r ∈ (q :: back).dropLast, r.first.eof = 0) :
    ∃ s', s.dataResponses .none old (q :: back) = .ok s' ∧
      s'.queue = s.queue ++ (q :: back).flatMap printed := by
  obtain ⟨hfirst, hback⟩ := List.forall_mem_cons.mp hq
  obtain ⟨s₁, hs₁, hprints⟩ := dataResponse_stops h hstops hfirst hquery
  have hfirst' : s.dataResponses .none old (q :: back) = s₁.dataResponses .none old back := by
    rw [PapSession.dataResponses, hs₁]
    rfl
  rw [hfirst']
  rcases List.eq_nil_or_concat' back with rfl | ⟨mid, last, rfl⟩
  · refine ⟨s₁, rfl, ?_⟩
    rw [hprints.queue, List.flatMap_singleton]
  · have hdrop : (q :: (mid ++ [last])).dropLast = q :: mid := by
      rw [← List.cons_append, List.dropLast_concat]
    rw [hdrop] at heof
    obtain ⟨hq0, hmid⟩ := List.forall_mem_cons.mp heof
    have hasked : ∀ r ∈ mid ++ [last], r.first.connid = s₁.connid ∧ r.first.command = papData := by
      rw [hprints.connid]
      exact hback
    obtain ⟨s₂, hs₂, hprinting, hconnid, hqueue⟩ := dataResponses_printing (hprints.printing hq0)
      (fun r hr ↦ hasked r (List.mem_append_left _ hr)) hmid
    obtain ⟨s₃, hs₃, hlast⟩ := dataResponse_printing hprinting
      (hconnid ▸ hasked last (List.mem_append_right _ (List.mem_singleton_self _)))
    refine ⟨s₃, ?_, ?_⟩
    · rw [dataResponses_append, hs₂]
      show s₂.dataResponses .none old [last] = _
      rw [PapSession.dataResponses, hs₃]
      rfl
    · rw [hlast.queue, hqueue, hprints.queue, List.flatMap_cons, List.flatMap_append,
        List.flatMap_singleton, List.append_assoc, List.append_assoc]

theorem atStart_papStart (connid : UInt8) : AtStart (papStart connid) := ⟨rfl, rfl, rfl, rfl⟩

/-- Where a job is split, all but its last request is unmarked. -/
theorem PapJob.body_of_split {job : PapJob connid} {front back : List Quantum}
    (h : job.quanta = front ++ q :: back) : job.body = front ++ (q :: back).dropLast := by
  have hdrop : (front ++ q :: back).dropLast = front ++ (q :: back).dropLast :=
    List.dropLast_append_of_ne_nil (List.cons_ne_nil _ _)
  rw [← hdrop, ← h, PapJob.quanta, List.dropLast_concat]

theorem printed_of_firstStops {job : PapJob connid} (hquery : job.query = false)
    (h : FirstStops job.quanta) : Printed old job := by
  obtain ⟨front, q, back, hquanta, hempty, hstops⟩ := h
  -- the first line is that of the request that stops
  have hnone : dataOf front = [] := by
    rw [dataOf, List.flatMap_eq_nil_iff]
    exact hempty
  have hdata : job.data = q.data ++ dataOf back := by
    rw [PapJob.data, hquanta, dataOf_append, hnone, List.nil_append]
    rfl
  have hline : fillLine job.data [] = fillLine q.data [] := by
    have hstop := fillLine_stopped_iff_stops.mpr hstops
    rw [hdata, fillLine_append_of_stopped hstop]
  rw [PapJob.query, hline] at hquery
  have hbody := PapJob.body_of_split hquanta
  have hlast : (q :: back).dropLast ++ [job.last] = q :: back := by
    have hcut : front ++ ((q :: back).dropLast ++ [job.last]) = front ++ q :: back := by
      rw [← List.append_assoc, ← hbody, ← hquanta, PapJob.quanta]
    exact List.append_cancel_left hcut
  have hasked : ∀ r ∈ front ++ q :: back, r.first.connid = connid ∧ r.first.command = papData :=
    hquanta ▸ job.asked
  have heof : ∀ r ∈ front ++ (q :: back).dropLast, r.first.eof = 0 := hbody ▸ job.unmarked
  obtain ⟨s₁, hs₁, hstart, hqueue₁, hconnid⟩ := dataResponses_empty (atStart_papStart connid) hempty
    (fun r hr ↦ hasked r (List.mem_append_left _ hr))
    (fun r hr ↦ heof r (List.mem_append_left _ hr))
  obtain ⟨s₂, hs₂, hqueue⟩ := dataResponses_stops hstart hstops hquery
    (fun r hr ↦ hconnid ▸ hasked r (List.mem_append_right _ hr))
    (fun r hr ↦ heof r (List.mem_append_right _ hr))
  have hmid : ∀ r ∈ (q :: back).dropLast, r.first.eof = 0 :=
    fun r hr ↦ heof r (List.mem_append_right _ hr)
  have hfinal : s₂.queue = (q :: back).dropLast.flatMap printed ++ printed job.last := by
    rw [hqueue, hqueue₁, ← hlast, List.flatMap_append, List.flatMap_singleton, hlast]
    rfl
  refine ⟨s₂, ?_, ?_, ?_⟩
  · rw [hquanta, dataResponses_append, hs₁]
    exact hs₂
  · have hall : dataOf ((q :: back).dropLast) ++ job.last.data = job.data := by
      calc
        _ = dataOf ((q :: back).dropLast ++ [job.last]) := by
          rw [dataOf_append, dataOf, dataOf, List.flatMap_singleton]
        _ = dataOf (q :: back) := by rw [hlast]
        _ = job.data := hdata.symm
    rw [hfinal, List.flatMap_append, flatMap_printed_data hmid, printed_data, if_neg job.marked,
      ← List.append_assoc, hall]
  · rw [hfinal]
    exact flaggedLast_printed hmid job.marked

end PrintServer.Atalk
