import Mathlib.Data.List.Induction
import PrintServer.Telnet.CommandStream

/-!
# The three readers of a stream

`zot_recv`, `zot_fgets` and `zot_fgetc` share the buffer of a `ZOT_FILE`.  Beside the stream stands
what was received so far, what the calls have delivered, and whether the last `recv` succeeded.
-/

namespace PrintServer.Http

/-- `zot_fgetc`; inside, `none` is the 0 for a failure. -/
def zotFgetc (f : ZotFile) (rs : List Recv) : Option (Option UInt8 × ZotFile × List Recv) :=
  match refill f rs with
  | none => none
  | some (false, f, rs) => some (none, f, rs)
  | some (true, f, rs) => some (some (f.byte f.pos), f.advance, rs)

/-- `ibuf_cnt` at each byte that the loop of `zot_fgets` reads. -/
def fgetsReads (old : Nat → UInt8) : Nat → Nat → ZotFile → List Int
  | 0, _, _ => []
  | n + 1, i, f =>
      let cr := f.byte f.pos = 0x0D
      let c :=
        if cr then if f.advance.byte f.advance.pos = 0x0A then 0x0A else old i
        else f.byte f.pos
      let f' := if cr then f.advance.advance else f.advance
      (if cr then [f.ibufCnt, f.advance.ibufCnt] else [f.ibufCnt]) ++
        if c = 0x0A ∨ f'.ibufCnt = 0 then [] else fgetsReads old n (i + 1) f'

/-- A call; `old` is what the caller's array holds. -/
inductive InputCall
  | recv (len : Nat)
  | fgets (len : Nat) (old : Nat → UInt8)
  | fgetc

structure Input where
  file : ZotFile
  recvs : List Recv
  received : List UInt8
  delivered : List UInt8
  live : Bool

/-- What a call asks of `recv`. -/
def Input.taken (s : Input) : List Recv := if s.file.ibufCnt = 0 then s.recvs.take 1 else []

/-- What there is for a call. -/
def Input.available (s : Input) : List UInt8 := s.file.buffered ++ s.taken.flatMap Recv.bytes

namespace InputCall

/-- The bytes that a call delivers, and the stream behind it. -/
def result (s : Input) : InputCall → Option (List UInt8 × ZotFile × List Recv)
  | recv len => (zotRecv s.file len s.recvs).map fun r ↦ (r.1.2, r.2)
  | fgets len old => (zotFgets old len s.file s.recvs).map fun r ↦ (r.1.getD [], r.2)
  | fgetc => (zotFgetc s.file s.recvs).map fun r ↦ (r.1.toList, r.2)

/-- `ibuf_cnt` at each byte that a call reads. -/
def reads (s : Input) (call : InputCall) : List Int :=
  match refill s.file s.recvs with
  | some (true, f, _) =>
      match call with
      | recv len => (List.range (min (len : Int) f.ibufCnt).toNat).map fun k : Nat ↦ f.ibufCnt - k
      | fgets len old => fgetsReads old (len - 1) 0 f
      | fgetc => [f.ibufCnt]
  | _ => []

/-- The length of the `memcpy`. -/
def copied (s : Input) : InputCall → Int
  | recv len =>
      match refill s.file s.recvs with
      | some (true, f, _) => min (len : Int) f.ibufCnt
      | _ => 0
  | fgets _ _ => 0
  | fgetc => 0

def exec (s : Input) (call : InputCall) : Option Input :=
  (call.result s).map fun (data, file, recvs) ↦
    { file, recvs
      received := s.received ++ s.taken.flatMap Recv.bytes
      delivered := s.delivered ++ data
      live := if s.taken = [] then s.live else s.taken.all Recv.isPiece }

def run (s : Input) (calls : List InputCall) : Option Input := calls.foldlM exec s

end InputCall

/-! ## What a call should do -/

/-- `d` is the text `s` without the CR of some CR LF. -/
inductive Delivers : List UInt8 → List UInt8 → Prop
  | nil : Delivers [] []
  | byte {c : UInt8} {s d : List UInt8} : Delivers s d → Delivers (c :: s) (c :: d)
  | crlf {s d : List UInt8} : Delivers s d → Delivers (0x0D :: 0x0A :: s) (0x0A :: d)

/-- The buffer holds the bytes `a`. -/
structure ZotFile.Tracks (f : ZotFile) (a : List UInt8) : Prop where
  cnt : f.ibufCnt = a.length
  bytes : f.buffered = a
  le : f.pos + a.length ≤ ibufSize

/-- The buffer holds the end of what was received, and the rest was delivered. -/
structure Input.Good (s : Input) : Prop where
  cnt : 0 ≤ s.file.ibufCnt
  le : s.file.pos + s.file.ibufCnt ≤ ibufSize
  order : ∃ consumed, s.received = consumed ++ s.file.buffered ∧ Delivers consumed s.delivered
  dead : s.live = false → s.file.ibufCnt = 0

/-- A call reads received bytes only, copies no negative length, and delivers nothing after a
failure. -/
structure InputCall.Right (s : Input) (call : InputCall) (s' : Input) : Prop where
  reads : ∀ c ∈ call.reads s, 0 < c
  copied : 0 ≤ call.copied s
  live : s'.delivered ≠ s.delivered → s'.live = true

/-- Of the first `n` bytes up to a LF, a CR is followed by a LF. -/
def CrLfWhole (n : Nat) (s : List UInt8) : Prop :=
  ∀ u v, s = u ++ 0x0D :: v → u.length < n → (∀ c ∈ u, c ≠ 0x0D ∧ c ≠ 0x0A) →
    v.head? = some 0x0A

/-- `recv` does not fail, and `zot_fgets` finds no CR without its LF. -/
structure InputCall.Plain (s : Input) (call : InputCall) : Prop where
  recv : .failed ∉ s.taken
  crlf : ∀ len old, call = .fgets len old → CrLfWhole (len - 1) s.available

variable {f : ZotFile} {a t u v d d' : List UInt8} {c : UInt8} {n i : Nat} {old : Nat → UInt8}

theorem Delivers.append (h : Delivers u d) (h' : Delivers v d') :
    Delivers (u ++ v) (d ++ d') := by
  induction h with
  | nil => exact h'
  | byte _ ih => exact .byte ih
  | crlf _ ih => exact .crlf ih

theorem delivers_self (s : List UInt8) : Delivers s s := by
  induction s with
  | nil => exact .nil
  | cons c s ih => exact .byte ih

theorem ZotFile.Tracks.advance (h : f.Tracks (c :: t)) :
    f.byte f.pos = c ∧ f.advance.Tracks t := by
  obtain ⟨hc, ht, hcnt⟩ := of_buffered_cons h.bytes
  have hle := h.le
  rw [List.length_cons] at hle
  refine ⟨hc, ?_, ht, ?_⟩
  · show f.ibufCnt - 1 = t.length
    omega
  · show f.pos + 1 + t.length ≤ ibufSize
    omega

theorem CrLfWhole.tail (h : CrLfWhole (n + 1) (c :: t)) (hc : c ≠ 0x0D ∧ c ≠ 0x0A) :
    CrLfWhole n t := by
  intro u v heq hn hu
  refine h (c :: u) v (congrArg (c :: ·) heq) (Nat.succ_lt_succ hn) ?_
  exact List.forall_mem_cons.mpr ⟨hc, hu⟩

/-- The loop of `zot_fgets` takes bytes from the front of the buffer. -/
theorem fgetsLoop_tracks (h : f.Tracks a) (ha : a ≠ []) (hcrlf : CrLfWhole n a) :
    (∃ u t, a = u ++ t ∧ Delivers u (fgetsLoop old n i f).1 ∧
      (fgetsLoop old n i f).2.Tracks t) ∧ ∀ c ∈ fgetsReads old n i f, 0 < c := by
  induction n generalizing f a i with
  | zero => exact ⟨⟨[], a, rfl, .nil, h⟩, fun c hc ↦ absurd hc List.not_mem_nil⟩
  | succ n ih =>
      obtain ⟨c, t, rfl⟩ := List.exists_cons_of_ne_nil ha
      obtain ⟨hc, ht⟩ := h.advance
      have hcnt := h.cnt
      rw [List.length_cons] at hcnt
      unfold fgetsLoop fgetsReads
      by_cases hcr : c = 0x0D
      · -- the LF behind it is there
        subst hcr
        have hlf := hcrlf [] t rfl (Nat.succ_pos n) fun c hc ↦ absurd hc List.not_mem_nil
        obtain ⟨t, rfl⟩ : ∃ t', t = 0x0A :: t' := by
          cases t with
          | nil => cases hlf
          | cons b t => exact ⟨t, by rw [Option.some.inj hlf]⟩
        obtain ⟨hb, ht'⟩ := ht.advance
        have hcnt' := ht.cnt
        rw [List.length_cons] at hcnt'
        simp only [hc, hb, if_true, true_or]
        refine ⟨⟨[0x0D, 0x0A], t, rfl, .crlf .nil, ht'⟩, ?_⟩
        intro k hk
        simp only [List.append_nil, List.mem_cons, List.not_mem_nil, or_false] at hk
        omega
      · simp only [hc, hcr, if_false]
        by_cases hlf : c = 0x0A
        · subst hlf
          simp only [true_or, if_true, List.append_nil, List.mem_singleton, forall_eq]
          refine ⟨⟨[0x0A], t, rfl, .byte .nil, ht⟩, ?_⟩
          omega
        · by_cases hend : f.advance.ibufCnt = 0
          · simp only [hend, or_true, if_true, List.append_nil, List.mem_singleton, forall_eq]
            refine ⟨⟨[c], t, rfl, .byte .nil, ht⟩, ?_⟩
            omega
          · have hne : t ≠ [] := by
              intro hnil
              rw [ht.cnt, hnil] at hend
              exact hend rfl
            obtain ⟨⟨u, t', heq, hu, ht'⟩, hreads⟩ :=
              @ih f.advance t (i + 1) ht hne (hcrlf.tail ⟨hcr, hlf⟩)
            simp only [hlf, hend, or_self, if_false]
            refine ⟨⟨c :: u, t', by rw [heq]; rfl, .byte hu, ht'⟩, ?_⟩
            intro k hk
            rcases List.mem_append.mp hk with hk | hk
            · rw [List.mem_singleton.mp hk]
              omega
            · exact hreads k hk

/-! ## What a call does -/

variable {s s' : Input} {g : ZotFile} {rs : List Recv} {call : InputCall}

theorem Input.Good.tracks (h : s.Good) : s.file.Tracks s.file.buffered := by
  have hcnt := h.cnt
  have hle := h.le
  have hlength := s.file.length_buffered
  exact ⟨by omega, rfl, by omega⟩

theorem tracks_fill (f : ZotFile) (p : Piece) : (f.fill (.piece p)).Tracks p.bytes where
  cnt := rfl
  bytes := f.buffered_fill p
  le := by
    show 0 + p.bytes.length ≤ ibufSize
    rw [Nat.zero_add]
    exact p.le

/-- There is something to read: the buffer holds what is available. -/
theorem Input.Good.refill_true (h : s.Good) (hfill : refill s.file s.recvs = some (true, g, rs)) :
    g.Tracks s.available ∧ s.available ≠ [] ∧
      (if s.taken = [] then s.live else s.taken.all Recv.isPiece) = true := by
  unfold refill at hfill
  unfold Input.available Input.taken
  split at hfill
  · rename_i hzero
    cases hrecvs : s.recvs with
    | nil =>
        rw [hrecvs] at hfill
        cases hfill
    | cons r rs' =>
        rw [hrecvs] at hfill
        obtain ⟨hpiece, rfl, -⟩ : r.isPiece = true ∧ s.file.fill r = g ∧ rs' = rs := by
          simpa using hfill
        cases r with
        | piece p =>
            rw [if_pos hzero, ZotFile.buffered_eq_nil hzero]
            simp only [List.take_succ_cons, List.take_zero, List.flatMap_cons, List.flatMap_nil,
              List.append_nil, List.nil_append, Recv.bytes]
            exact ⟨tracks_fill _ p, p.nonempty, rfl⟩
        | closed | failed => cases hpiece
  · rename_i hne
    obtain ⟨rfl, rfl⟩ : s.file = g ∧ s.recvs = rs := by simpa using hfill
    rw [if_neg hne, List.flatMap_nil, List.append_nil, if_pos rfl]
    refine ⟨h.tracks, fun hnil ↦ ?_, ?_⟩
    · have hlength := s.file.length_buffered
      rw [hnil] at hlength
      have hcnt := h.cnt
      rw [List.length_nil] at hlength
      omega
    · by_contra hdead
      exact hne (h.dead (by simpa using hdead))

/-- The connection is closed: there is nothing. -/
theorem Input.Good.refill_false (hp : .failed ∉ s.taken)
    (hfill : refill s.file s.recvs = some (false, g, rs)) :
    g.Tracks [] ∧ s.available = [] ∧
      (if s.taken = [] then s.live else s.taken.all Recv.isPiece) = false := by
  unfold refill at hfill
  unfold Input.available Input.taken at *
  split at hfill
  · rename_i hzero
    cases hrecvs : s.recvs with
    | nil =>
        rw [hrecvs] at hfill
        cases hfill
    | cons r rs' =>
        rw [hrecvs] at hfill
        rw [if_pos hzero, hrecvs] at hp
        obtain ⟨hpiece, rfl, -⟩ : r.isPiece = false ∧ s.file.fill r = g ∧ rs' = rs := by
          simpa using hfill
        cases r with
        | piece p => cases hpiece
        | closed =>
            rw [if_pos hzero, ZotFile.buffered_eq_nil hzero]
            exact ⟨⟨rfl, rfl, Nat.zero_le _⟩, rfl, rfl⟩
        | failed => exact absurd List.mem_cons_self hp
  · cases hfill

/-- A call that takes the bytes `u` of what is available. -/
theorem Input.Good.after (h : s.Good) {file : ZotFile} {recvs : List Recv} {live : Bool}
    (heq : s.available = u ++ t) (hd : Delivers u d) (ht : file.Tracks t)
    (hlive : live = false → t = []) :
    Input.Good
      { file, recvs, live
        received := s.received ++ s.taken.flatMap Recv.bytes
        delivered := s.delivered ++ d } := by
  obtain ⟨consumed, hreceived, hdelivered⟩ := h.order
  have hcnt := ht.cnt
  have hle := ht.le
  refine ⟨?_, ?_, ⟨consumed ++ u, ?_, hdelivered.append hd⟩, ?_⟩
  · show 0 ≤ file.ibufCnt
    omega
  · show (file.pos : Int) + file.ibufCnt ≤ ibufSize
    omega
  · show s.received ++ s.taken.flatMap Recv.bytes = consumed ++ u ++ file.buffered
    rw [hreceived, ht.bytes, List.append_assoc, List.append_assoc, ← heq]
    rfl
  · intro hdead
    show file.ibufCnt = 0
    rw [hcnt, hlive hdead]
    rfl

/-- Some bytes of what is available are delivered. -/
structure InputCall.Takes (s : Input) (call : InputCall) (data : List UInt8) (file : ZotFile) :
    Prop where
  split : ∃ u t, s.available = u ++ t ∧ Delivers u data ∧ file.Tracks t
  reads : ∀ c ∈ call.reads s, 0 < c
  copied : 0 ≤ call.copied s

/-- A call that finds the connection closed. -/
theorem InputCall.takes_nothing (hfill : refill s.file s.recvs = some (false, g, rs))
    (hg : g.Tracks []) (havail : s.available = []) : call.Takes s [] g where
  split := ⟨[], [], havail, .nil, hg⟩
  reads := by
    unfold reads
    rw [hfill]
    exact fun c hc ↦ absurd hc List.not_mem_nil
  copied := by
    unfold copied
    rw [hfill]
    cases call <;> exact Int.le_refl 0

/-- The bytes that `zot_recv` copies. -/
theorem takes_recv {len : Nat} (hfill : refill s.file s.recvs = some (true, g, rs))
    (hg : g.Tracks a) (ha : s.available = a) :
    (InputCall.recv len).Takes s (g.peek (min (len : Int) g.ibufCnt).toNat)
      { g with
        pos := (g.pos + min (len : Int) g.ibufCnt).toNat
        ibufCnt := g.ibufCnt - min (len : Int) g.ibufCnt } := by
  have hcnt := hg.cnt
  have hle := hg.le
  obtain ⟨n, hn⟩ : ∃ n : Nat, min (len : Int) g.ibufCnt = n :=
    ⟨(min (len : Int) g.ibufCnt).toNat, by omega⟩
  have hbuf := g.buffered_drop n (by omega)
  have hlength := congrArg List.length (hg.bytes.symm.trans hbuf)
  rw [List.length_append, ZotFile.length_peek] at hlength
  have hpos : ((g.pos : Int) + n).toNat = g.pos + n := by omega
  constructor
  · rw [hn, hpos, Int.toNat_natCast]
    refine ⟨_, _, ha.trans (hg.bytes.symm.trans hbuf), delivers_self _, ?_, rfl, ?_⟩
    · show g.ibufCnt - n = _
      omega
    · show g.pos + n + _ ≤ ibufSize
      omega
  · unfold InputCall.reads
    rw [hfill]
    intro c hc
    obtain ⟨k, hk, rfl⟩ := List.mem_map.mp hc
    rw [List.mem_range] at hk
    omega
  · unfold InputCall.copied
    simp only [hfill]
    omega

theorem InputCall.Plain.takes (h : s.Good) (hp : call.Plain s) {data : List UInt8}
    {file : ZotFile} {recvs : List Recv} (hres : call.result s = some (data, file, recvs)) :
    call.Takes s data file ∧
      ((if s.taken = [] then s.live else s.taken.all Recv.isPiece) = false →
        s.available = [] ∧ data = []) := by
  cases hfill : refill s.file s.recvs with
  | none =>
      cases call <;> simp [result, zotRecv, zotFgets, zotFgetc, hfill] at hres
  | some found =>
      obtain ⟨ok, g, rs⟩ := found
      cases ok with
      | false =>
          obtain ⟨hg, havail, -⟩ := Input.Good.refill_false hp.recv hfill
          obtain ⟨rfl, rfl, -⟩ : [] = data ∧ g = file ∧ rs = recvs := by
            cases call with
            | recv len => simpa [result, zotRecv, hfill] using hres
            | fgets len old => simpa [result, zotFgets, hfill] using hres
            | fgetc => simpa [result, zotFgetc, hfill] using hres
          exact ⟨takes_nothing hfill hg havail, fun _ ↦ ⟨havail, rfl⟩⟩
      | true =>
          obtain ⟨hg, hne, hlive⟩ := h.refill_true hfill
          refine ⟨?_, fun hdead ↦ absurd (hlive.symm.trans hdead) Bool.noConfusion⟩
          cases call with
          | recv len =>
              obtain ⟨rfl, rfl, -⟩ := by simpa [result, zotRecv, hfill] using hres
              exact takes_recv hfill hg rfl
          | fgets len old =>
              obtain ⟨rfl, rfl, -⟩ := by simpa [result, zotFgets, hfill] using hres
              obtain ⟨hsplit, hreads⟩ :=
                @fgetsLoop_tracks g s.available (len - 1) 0 old hg hne (hp.crlf len old rfl)
              refine ⟨hsplit, ?_, Int.le_refl 0⟩
              unfold reads
              rw [hfill]
              exact hreads
          | fgetc =>
              obtain ⟨rfl, rfl, -⟩ := by simpa [result, zotFgetc, hfill] using hres
              obtain ⟨c, t, heq⟩ := List.exists_cons_of_ne_nil hne
              rw [heq] at hg
              obtain ⟨hc, ht⟩ := hg.advance
              refine ⟨⟨[c], t, heq, by rw [hc]; exact .byte .nil, ht⟩, ?_, Int.le_refl 0⟩
              unfold reads
              rw [hfill]
              intro k hk
              rw [List.mem_singleton.mp hk, hg.cnt, List.length_cons]
              omega

theorem InputCall.Plain.exec (h : s.Good) (hp : call.Plain s) (hexec : call.exec s = some s') :
    s'.Good ∧ call.Right s s' := by
  obtain ⟨⟨data, file, recvs⟩, hres, rfl⟩ := Option.map_eq_some_iff.mp hexec
  obtain ⟨htakes, hdead⟩ := hp.takes h hres
  obtain ⟨u, t, heq, hd, ht⟩ := htakes.split
  constructor
  · refine h.after heq hd ht fun hlive ↦ ?_
    obtain ⟨hnil, -⟩ := hdead hlive
    rw [heq] at hnil
    exact (List.append_eq_nil_iff.mp hnil).2
  · refine ⟨htakes.reads, htakes.copied, fun hnew ↦ ?_⟩
    by_contra hlive
    obtain ⟨-, rfl⟩ := hdead (Bool.not_eq_true _ ▸ hlive)
    exact hnew (List.append_nil _)

/-! ## Runs -/

def Input.start (behind : Nat → UInt8) (recvs : List Recv) : Input :=
  ⟨zotFopen behind, recvs, [], [], false⟩

theorem good_start (behind : Nat → UInt8) (recvs : List Recv) : (Input.start behind recvs).Good :=
  ⟨Int.le_refl 0, Int.ofNat_le.mpr (Nat.zero_le ibufSize), ⟨[], rfl, .nil⟩, fun _ ↦ rfl⟩

/-- Every call of the run keeps the buffer consistent. -/
def InputConsistent (s : Input) (calls : List InputCall) : Prop :=
  ∀ done call s₁ s₂, done ++ [call] <+: calls → InputCall.run s done = some s₁ →
    call.exec s₁ = some s₂ → s₂.Good ∧ call.Right s₁ s₂

/-- Every call of the run is plain. -/
def InputPlain (s : Input) (calls : List InputCall) : Prop :=
  ∀ done call s₁, done ++ [call] <+: calls → InputCall.run s done = some s₁ → call.Plain s₁

theorem InputCall.run_concat {done : List InputCall} :
    run s (done ++ [call]) = (run s done).bind call.exec := by
  unfold run
  rw [List.foldlM_append]
  congr 1
  funext s'
  rw [List.foldlM_cons]
  cases InputCall.exec s' call <;> rfl

theorem good_of_plain {calls : List InputCall} (h : s.Good) (hp : InputPlain s calls)
    {done : List InputCall} (hdone : done <+: calls) (hrun : InputCall.run s done = some s') :
    s'.Good := by
  induction done using List.reverseRecOn generalizing s' with
  | nil =>
      obtain rfl := Option.some.inj hrun
      exact h
  | append_singleton done call ih =>
      have hdone' := (List.prefix_append done [call]).trans hdone
      rw [InputCall.run_concat, Option.bind_eq_some_iff] at hrun
      obtain ⟨s₁, hrun₁, hexec⟩ := hrun
      exact ((hp done call s₁ hdone hrun₁).exec (ih hdone' hrun₁) hexec).1

/-- In a run whose calls find no failed `recv` and no CR without its LF, the buffer is consistent
after each of them. -/
theorem inputConsistent_of_plain (behind : Nat → UInt8) (recvs : List Recv)
    (calls : List InputCall) (hp : InputPlain (.start behind recvs) calls) :
    InputConsistent (.start behind recvs) calls := by
  intro done call s₁ s₂ hdone hrun hexec
  have hdone' := (List.prefix_append done [call]).trans hdone
  have hgood := good_of_plain (good_start behind recvs) hp hdone' hrun
  exact (hp done call s₁ hdone hrun).exec hgood hexec

/-- A CR at the end of what was received: the byte behind it is read. -/
theorem fgets_cut_crlf : ¬ InputConsistent
    (.start (fun _ ↦ 0) [.piece ⟨[0x61, 0x0D], by decide, by decide⟩]) [.fgets 10 fun _ ↦ 0] := by
  intro h
  obtain ⟨hgood, -⟩ := h [] _ _ _ (List.prefix_refl _) rfl rfl
  exact absurd hgood.cnt (by decide)

theorem inputConsistent_line : InputConsistent
    (.start (fun _ ↦ 0) [.piece ⟨[0x61, 0x0D, 0x0A, 0x62], by decide, by decide⟩])
    [.fgets 10 fun _ ↦ 0] := by
  refine inputConsistent_of_plain _ _ _ fun done call s₁ hdone hrun ↦ ?_
  have hlength := hdone.length_le
  rw [List.length_append, List.length_singleton, List.length_singleton] at hlength
  obtain rfl := List.length_eq_zero_iff.mp (show done.length = 0 by omega)
  obtain rfl := Option.some.inj hrun
  obtain rfl : call = .fgets 10 fun _ ↦ 0 := by simpa using hdone
  refine ⟨by decide, fun len old hcall ↦ ?_⟩
  obtain ⟨rfl, -⟩ := InputCall.fgets.inj hcall
  intro u v heq _ hu
  have havail : [0x61, 0x0D, 0x0A, 0x62] = u ++ 0x0D :: v := heq
  match u, hu with
  | [], _ => exact absurd (List.cons.inj havail).1 (by decide)
  | [_], _ => rw [← (List.cons.inj (List.cons.inj havail).2).2, List.head?_cons]
  | _ :: c :: u, hu =>
      have hc := (List.cons.inj (List.cons.inj havail).2).1
      exact absurd hc.symm (hu c (List.mem_cons_of_mem _ List.mem_cons_self)).1

/-! ## Telnet -/

/-- `GetCharFromString` reads by `zot_fgetc`. -/
theorem fgetc_eq (c : Telnet.Conn) : c.fgetc = (zotFgetc c.file c.recvs).map
    fun (char, file, recvs) ↦ (char.getD 0, { c with file, recvs }) := by
  unfold Telnet.Conn.fgetc zotFgetc
  cases refill c.file c.recvs with
  | none => rfl
  | some found =>
      obtain ⟨ok, g, rs⟩ := found
      cases ok <;> rfl

end PrintServer.Http
