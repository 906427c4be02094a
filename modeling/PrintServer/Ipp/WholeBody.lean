import PrintServer.Ipp.HttpRead

/-!
# Jobs that are received as a whole
-/

namespace PrintServer.Ipp

open Lib Http Receive

variable {f f' : ZotFile} {b b' : IppBody} {rs rs' : List Recv} {old : Nat → UInt8}
  {line rest data doc s buf : List UInt8} {ok : List UInt8 → List UInt8 → List Recv → Prop}

/-! ## Framing lines -/

theorem hexDigit_of_lt {c : UInt8} (h : c < 0x30) : hexDigit c = none := by
  rw [UInt8.lt_iff_toNat_lt] at h
  change c.toNat < 48 at h
  unfold hexDigit
  rw [if_neg, if_neg, if_neg]
  all_goals
    rintro ⟨hle, -⟩
    rw [UInt8.le_iff_toNat_le] at hle
    simp at hle
    omega

/-- `strtol` reads the size that a chunk's line gives. -/
theorem strtol16_line {n : Nat} (h : chunkSize line = some n) (hn : n < 2147483648) :
    strtol16 (line ++ [0x0A]) = n := by
  unfold chunkSize at h
  obtain ⟨hdigits, hst⟩ := Option.ite_none_left_eq_some.mp h
  have hvalue : hexValue line = n := by
    split at hst
    · exact Option.some.inj hst
    · exact Option.some.inj (Option.ite_none_right_eq_some.mp hst).2
  cases line with
  | nil => exact absurd rfl hdigits
  | cons c t =>
      have hc : (hexDigit c).isSome = true := by
        by_contra hc
        exact hdigits (List.takeWhile_cons_of_neg hc)
      have hge : ¬ c < 0x30 := by
        intro hlt
        rw [hexDigit_of_lt hlt] at hc
        cases hc
      have hskip : (c :: t ++ [0x0A]).dropWhile (fun c ↦ c = 0x20 ∨ (9 ≤ c ∧ c ≤ 13)) =
          c :: t ++ [0x0A] := by
        refine List.dropWhile_cons_of_neg fun hblank ↦ hge ?_
        rw [decide_eq_true_iff] at hblank
        rcases hblank with rfl | ⟨-, hle⟩
        · decide
        · exact UInt8.lt_of_le_of_lt hle (by decide)
      have hsign : (c :: t ++ [0x0A]).head? ≠ some 0x2D ∧ (c :: t ++ [0x0A]).head? ≠ some 0x2B := by
        constructor
        · intro he
          obtain rfl : c = 0x2D := Option.some.inj he
          exact hge (by decide)
        · intro he
          obtain rfl : c = 0x2B := Option.some.inj he
          exact hge (by decide)
      have hfront : skip0x (c :: t ++ [0x0A]) = c :: t ++ [0x0A] := by
        unfold skip0x
        split
        · rename_i d u heq
          split
          · -- an x behind a leading zero is not a size
            rename_i hx
            obtain ⟨rfl, htail⟩ := List.cons.inj heq
            cases t with
            | nil =>
                obtain rfl : (0x0A : UInt8) = d := (List.cons.inj htail).1
                rcases hx with hx | hx <;> cases hx
            | cons e t =>
                obtain rfl : e = d := (List.cons.inj htail).1
                rcases hx with rfl | rfl <;> simp [hexDigits, hexDigit] at hst
          · exact heq.symm
        · rfl
      unfold strtol16
      simp only [hskip, hsign.1, hsign.2, false_or, if_false, hfront]
      rw [hexValue_append _ (by decide), hvalue]
      omega
theorem lineWhole_cons {c : UInt8} : LineWhole ok (c :: s) rs ↔
    ∃ line rest, cutLine (c :: s) = some (line, rest) ∧ line.length < 63 ∧ ok line rest rs := by
  simp only [LineWhole]
  cases cutLine (c :: s) <;> simp [Prod.ext_iff]

theorem lineWhole_nil {r : Recv} : LineWhole ok [] (r :: rs) ↔
    ∃ line rest, cutLine r.bytes = some (line, rest) ∧ line.length < 63 ∧ ok line rest rs := by
  simp only [LineWhole]
  cases cutLine r.bytes <;> simp [Prod.ext_iff]

theorem lineWhole_found (hs : s ≠ []) (hf : Found s buf rs rs') (h : LineWhole ok buf rs) :
    ∃ line rest, cutLine s = some (line, rest) ∧ line.length < 63 ∧ ok line rest rs' := by
  cases hf with
  | buffer =>
      cases s with
      | nil => exact absurd rfl hs
      | cons c s => exact lineWhole_cons.mp h
  | piece hp =>
      subst hp
      exact lineWhole_nil.mp h

/-- A framing line that has arrived whole is read as one line. -/
theorem fgets_whole (hcnt : 0 ≤ f.ibufCnt) (h : LineWhole ok f.buffered rs)
    {stored : Option (List UInt8)} (hr : zotFgets old 64 f rs = some (stored, f', rs')) :
    ∃ line, stored = some (line ++ [0x0A]) ∧ (∀ c ∈ line, c ≠ 0x0D ∧ c ≠ 0x0A) ∧
      ok line f'.buffered rs' ∧ Reads f rs (line ++ [0x0D, 0x0A]) f' rs' := by
  unfold zotFgets at hr
  split at hr
  · cases hr
  · -- the connection fails: the line has not arrived
    rename_i g rs₁ hfill
    obtain ⟨hnil, r, hr', rfl⟩ := refill_eq_false hfill
    rw [hnil] at h
    cases r with
    | piece p => cases hr'
    | closed | failed => exact h.elim
  · rename_i g rs₁ hfill
    obtain ⟨rfl, rfl, rfl⟩ : some (fgetsLoop old 63 0 g).1 = stored ∧
        (fgetsLoop old 63 0 g).2 = f' ∧ rs₁ = rs' := by simpa using hr
    obtain ⟨hreads, hfound, hne⟩ := refill_eq_true hfill (refill_cnt hcnt hfill)
    obtain ⟨line, rest, hcut, hlen, hok⟩ := lineWhole_found hne hfound h
    obtain ⟨hbuf, hline⟩ := cutLine_eq_some hcut
    obtain ⟨f', hloop, hrest, hcnt'⟩ := fgetsLoop_line old 0 hbuf hline hlen
    rw [hloop]
    refine ⟨line, rfl, hline, ?_, ?_, ?_, hreads.fails⟩
    · rw [hrest]
      exact hok
    · rw [hreads.bytes, received, received, hbuf, hrest]
      simp
    · show 0 ≤ f'.ibufCnt
      omega

theorem chunkEnd_found {n : Nat} (hs : s ≠ []) (hf : Found s buf rs rs') (hn : n ≤ s.length)
    (h : ChunkEndOk n buf rs) : LineWhole (fun line _ _ ↦ line = []) (s.drop n) rs' := by
  cases hf with
  | buffer =>
      cases s with
      | nil => exact absurd rfl hs
      | cons c s => exact h hn
  | piece hp =>
      subst hp
      exact h hn

/-! ## One call -/

/-- A call of `httpRead` that returned bytes of the document. -/
structure Continues (b : IppBody) (rs : List Recv) (data : List UInt8) (b' : IppBody)
    (rs' : List Recv) : Prop where
  nonempty : data ≠ []
  whole : ∀ doc, WholeBody b rs doc ↔ ∃ doc', doc = data ++ doc' ∧ WholeBody b' rs' doc'
  timedOut : b'.timedOut = b.timedOut
  shrinks : (received b'.network rs').length < (received b.network rs).length
  fails : (∃ r ∈ rs, r.isPiece = false) → ∃ r ∈ rs', r.isPiece = false

theorem dropLine_empty (hcnt : 0 ≤ b.network.ibufCnt)
    (hline : LineWhole (fun line _ _ ↦ line = []) b.network.buffered rs)
    (h : dropLine old b rs = some (b', rs')) :
    b'.chunked = b.chunked ∧ b'.qsize = b.qsize ∧ b'.timedOut = b.timedOut ∧
      Reads b.network rs [0x0D, 0x0A] b'.network rs' := by
  unfold dropLine at h
  split at h
  · cases h
  · rename_i stored f rs₁ hfgets
    obtain ⟨rfl, rfl⟩ := Prod.mk.inj (Option.some.inj h)
    obtain ⟨line, -, -, rfl, hreads⟩ := fgets_whole hcnt hline hfgets
    exact ⟨rfl, rfl, rfl, hreads⟩

/-- A part of a body in front of the rest of it. -/
theorem prefix_append_iff {n : Nat} : doc.length = data.length + n ∧ doc <+: data ++ s ↔
    ∃ doc', doc = data ++ doc' ∧ doc'.length = n ∧ doc' <+: s := by
  constructor
  · rintro ⟨hlen, t, ht⟩
    rcases List.append_eq_append_iff.mp ht with ⟨u, hu, -⟩ | ⟨doc', rfl, rfl⟩
    · have hlen' := congrArg List.length hu
      rw [List.length_append] at hlen'
      obtain rfl : u = [] := List.length_eq_zero_iff.mp (by omega)
      refine ⟨[], by simp [hu], ?_, List.nil_prefix⟩
      rw [List.length_nil] at hlen' ⊢
      omega
    · rw [List.length_append] at hlen
      exact ⟨doc', rfl, by omega, List.prefix_append doc' t⟩
  · rintro ⟨doc', rfl, rfl, hpre⟩
    exact ⟨List.length_append, (List.prefix_append_right_inj data).mpr hpre⟩

theorem readBody_zero {length : Int} (hzero : b.qsize ≤ 0)
    (h : readBody old b length rs = some (data, b', rs')) : data = [] := by
  unfold readBody at h
  rw [if_pos hzero] at h
  split at h
  · obtain ⟨r, -, heq⟩ := Option.map_eq_some_iff.mp h
    exact (Prod.mk.inj heq).1.symm
  · exact (Prod.mk.inj (Option.some.inj h)).1.symm

/-- A call that reads from a chunk, or from a body with a given length. -/
theorem readBody_pos {length : Int} (hpos : 0 < b.qsize)
    (hok : b.chunked = true → ChunkEndOk b.qsize.toNat b.network.buffered rs)
    (h : readBody old b length rs = some (data, b', rs')) :
    (data = [] ∧ b'.timedOut = true) ∨ Continues b rs data b' rs' := by
  unfold readBody at h
  rw [if_neg (by omega)] at h
  split at h
  · cases h
  rename_i n d f rs₁ hrecv
  split at h
  · obtain ⟨rfl, rfl, -⟩ := Prod.mk.inj (Option.some.inj h) |>.imp_right Prod.mk.inj
    exact Or.inl ⟨rfl, rfl⟩
  rename_i hn
  obtain ⟨hlen, hle, hreads, hfound⟩ := zotRecv_pos (by omega) hrecv
  have hd : d ≠ [] := by
    rintro rfl
    rw [List.length_nil] at hlen
    omega
  right
  simp only at h
  split at h
  · -- the chunk ends
    rename_i hend
    obtain ⟨hchunked, hzero⟩ := hend
    have hq : b.qsize.toNat = d.length := by omega
    obtain ⟨⟨b₁, rs₂⟩, hdrop, heq⟩ := Option.map_eq_some_iff.mp h
    obtain ⟨rfl, rfl, rfl⟩ := Prod.mk.inj heq |>.imp_right Prod.mk.inj
    have hwhole := chunkEnd_found (List.append_ne_nil_of_left_ne_nil hd _) hfound
      (by rw [hq, List.length_append]; omega) (hok hchunked)
    rw [hq, List.drop_left] at hwhole
    obtain ⟨hc, hq', ht, hline⟩ := dropLine_empty hreads.cnt hwhole hdrop
    have hall := hreads.trans hline
    have hzero' : (b.qsize - n).toNat = 0 := by omega
    refine ⟨hd, fun doc ↦ ?_, ht, ?_, hall.fails⟩
    · unfold WholeBody
      rw [if_pos hchunked]
      simp only [hc, hq', if_pos hchunked, hzero', hq, hall.bytes, List.append_assoc]
      exact Dechunk.data_iff hd
    · exact hall.shrinks (List.append_ne_nil_of_left_ne_nil hd _)
  · rename_i hmore
    obtain ⟨rfl, rfl, rfl⟩ := Prod.mk.inj (Option.some.inj h) |>.imp_right Prod.mk.inj
    refine ⟨hd, fun doc ↦ ?_, rfl, hreads.shrinks hd, hreads.fails⟩
    unfold WholeBody
    by_cases hchunked : b.chunked = true
    · have hne : (b.qsize - n).toNat ≠ 0 := by
        intro hzero
        exact hmore ⟨hchunked, by show b.qsize - n ≤ 0; omega⟩
      have hq : b.qsize.toNat = d.length + (b.qsize - n).toNat := by omega
      simp only [if_pos hchunked, hq, hreads.bytes]
      exact Dechunk.append_iff hne
    · have hq : b.qsize.toNat = d.length + (b.qsize - n).toNat := by omega
      simp only [if_neg hchunked, hq, hreads.bytes]
      exact prefix_append_iff

/-- What a call gives: the end of the body, a failure, or more of the document. -/
theorem httpRead_spec {length : Int} (hok : ReadOk b rs)
    (h : httpRead old b length rs = some (data, b', rs')) :
    (data = [] ∧ (b'.timedOut = true ∨ WholeBody b rs [])) ∨ Continues b rs data b' rs' := by
  unfold httpRead at h
  split at h
  · rename_i hsize
    obtain ⟨hchunked, hzero⟩ := hsize
    obtain ⟨hcnt, hline⟩ := hok hchunked
    rw [if_pos hzero] at hline
    have hq : b.qsize.toNat = 0 := by omega
    split at h
    · cases h
    · rename_i f rs₁ hfgets
      obtain ⟨line, hstored, -⟩ := fgets_whole hcnt hline hfgets
      cases hstored
    · rename_i stored f rs₁ hfgets
      obtain ⟨line, hstored, hcrlf, hsize, hreads⟩ := fgets_whole hcnt hline hfgets
      obtain rfl := Option.some.inj hstored
      unfold SizeLineOk at hsize
      split at hsize
      · exact hsize.elim
      rename_i n hn
      have hcut : cutLine (received b.network rs) = some (line, received f rs₁) := by
        rw [hreads.bytes, List.append_assoc]
        exact cutLine_line hcrlf
      rw [strtol16_line hn hsize.1] at h
      by_cases hlast : n = 0
      · -- the zero-length chunk
        subst hlast
        left
        refine ⟨readBody_zero (Int.le_refl 0) h, Or.inr ?_⟩
        unfold WholeBody
        rw [if_pos hchunked, hq]
        exact .last hcut hn
      · have hrest := readBody_pos (b := { b with qsize := n, network := f })
          (by show (0 : Int) < n; omega) (fun _ ↦ by
            show ChunkEndOk ((n : Int).toNat) f.buffered rs₁
            rw [Int.toNat_natCast]
            exact hsize.2 hlast) h
        rcases hrest with ⟨hd, ht⟩ | hcont
        · exact Or.inl ⟨hd, Or.inl ht⟩
        · refine Or.inr ⟨hcont.nonempty, fun doc ↦ ?_, hcont.timedOut, ?_,
            hcont.fails ∘ hreads.fails⟩
          · rw [← hcont.whole]
            unfold WholeBody
            simp only [if_pos hchunked, hq, Int.toNat_natCast]
            exact Dechunk.size_iff hcut hn hlast
          · have hshrink := hreads.shrinks (List.append_ne_nil_of_right_ne_nil line (by simp))
            exact hcont.shrinks.trans hshrink
  · rename_i hsize
    by_cases hpos : 0 < b.qsize
    · have hrest := readBody_pos hpos (fun hchunked ↦ by
        have hend := (hok hchunked).2
        rwa [if_neg (by omega)] at hend) h
      rcases hrest with ⟨hd, ht⟩ | hcont
      · exact Or.inl ⟨hd, Or.inl ht⟩
      · exact Or.inr hcont
    · -- a body with a given length, all of it read
      have hchunked : b.chunked = false := by
        by_contra hc
        exact hsize ⟨by simpa using hc, by omega⟩
      refine Or.inl ⟨readBody_zero (by omega) h, Or.inr ?_⟩
      unfold WholeBody
      rw [hchunked]
      exact ⟨by simp; omega, List.nil_prefix⟩

theorem dropLine_eq_none (h : dropLine old b rs = none) : rs = [] := by
  unfold dropLine at h
  split at h
  · exact zotFgets_eq_none ‹_›
  · cases h

theorem readBody_ne_none {length : Int} (hfail : ∃ r ∈ rs, r.isPiece = false) :
    readBody old b length rs ≠ none := by
  have hne : ∀ {rs : List Recv}, (∃ r ∈ rs, r.isPiece = false) → rs ≠ [] := by
    rintro rs ⟨r, hmem, -⟩ rfl
    cases hmem
  intro h
  unfold readBody at h
  split at h
  · split at h
    · exact hne hfail (dropLine_eq_none (Option.map_eq_none_iff.mp h))
    · cases h
  split at h
  · exact hne hfail (zotRecv_eq_none ‹_›)
  rename_i n d f rs₁ hrecv
  split at h
  · cases h
  rename_i hn
  obtain ⟨-, -, hreads, -⟩ := zotRecv_pos (by omega) hrecv
  simp only at h
  split at h
  · exact hne (hreads.fails hfail) (dropLine_eq_none (Option.map_eq_none_iff.mp h))
  · cases h

/-- A call only waits while the connection does not fail. -/
theorem httpRead_ne_none {length : Int} (hok : ReadOk b rs)
    (hfail : ∃ r ∈ rs, r.isPiece = false) : httpRead old b length rs ≠ none := by
  intro h
  unfold httpRead at h
  split at h
  · rename_i hsize
    obtain ⟨hcnt, hline⟩ := hok hsize.1
    rw [if_pos hsize.2] at hline
    split at h
    · rename_i hfgets
      obtain ⟨r, hmem, -⟩ := hfail
      rw [zotFgets_eq_none hfgets] at hmem
      cases hmem
    · cases h
    · rename_i stored f rs₁ hfgets
      obtain ⟨line, -, -, -, hreads⟩ := fgets_whole hcnt hline hfgets
      exact readBody_ne_none (hreads.fails hfail) h
  · exact readBody_ne_none hfail h

/-! ## The rounds of a job -/

variable {calls : List Call} {bufs : Bufs} {rounds : List IppRound} {o : Outcome JobState}

theorem endState_eq_cancel {r : IppRound} (h : r.data ≠ [] ∨ r.timedOut = true) :
    r.endState = .cancel := by
  unfold IppRound.endState
  split
  · rename_i hd
    rw [if_pos (h.resolve_left fun hne ↦ hne hd)]
  · rfl

theorem ends_eq_false {r : IppRound} : r.ends = false ↔ r.data ≠ [] ∧ r.aborting = false := by
  simp [IppRound.ends]

/-- The reads of a job that goes on after its first round. -/
theorem ReadsOk.next {c : Call} (hok : ReadsOk b (c :: calls) rs)
    (hcall : httpRead c.old b Spooler.blockSize rs = some (data, b', rs'))
    (hends : (⟨data, b'.timedOut, c.aborting⟩ : IppRound).ends = false) :
    Continues b rs data b' rs' ∧ ReadsOk b' calls rs' := by
  obtain ⟨hread, hrest⟩ := hok
  simp only [hcall] at hrest
  obtain ⟨hd, ha⟩ := ends_eq_false.mp hends
  change c.aborting = false at ha
  refine ⟨(httpRead_spec hread hcall).resolve_left fun h ↦ hd h.1, ?_⟩
  refine (hrest.resolve_left hd).resolve_left ?_
  rw [ha]
  exact Bool.false_ne_true

/-- The rounds up to the one that ends the job, if that does not cancel it, are the document. -/
theorem rounds_whole {pre post : List IppRound} {r : IppRound} (hok : ReadsOk b calls rs)
    (h : httpRounds b calls rs = pre ++ r :: post) (hpre : ∀ x ∈ pre, x.ends = false)
    (hr : r.ends = true) (hst : r.endState ≠ .cancel) :
    r.data = [] ∧ WholeBody b rs (pre.flatMap IppRound.data) := by
  induction calls generalizing b rs pre with
  | nil => cases pre <;> cases h
  | cons c cs ih =>
      unfold httpRounds at h
      cases hcall : httpRead c.old b Spooler.blockSize rs with
      | none =>
          rw [hcall] at h
          cases pre <;> cases h
      | some x =>
          obtain ⟨data, b', rs'⟩ := x
          simp only [hcall] at h
          cases pre with
          | nil =>
              obtain ⟨rfl, -⟩ := List.cons.inj h
              rcases httpRead_spec hok.1 hcall with ⟨hd, ht | hw⟩ | hc
              · exact absurd (endState_eq_cancel (Or.inr ht)) hst
              · exact ⟨hd, hw⟩
              · exact absurd (endState_eq_cancel (Or.inl hc.nonempty)) hst
          | cons y pre =>
              obtain ⟨rfl, htail⟩ := List.cons.inj h
              obtain ⟨hy, hpre⟩ := List.forall_mem_cons.mp hpre
              obtain ⟨hc, hok'⟩ := hok.next hcall hy
              obtain ⟨hdata, hw⟩ := ih hok' htail hpre
              exact ⟨hdata, (hc.whole _).mpr ⟨_, rfl, hw⟩⟩

/-- A job whose connection fails comes to its end. -/
theorem rounds_end (hok : ReadsOk b calls rs) (hfail : ∃ r ∈ rs, r.isPiece = false)
    (hlen : (received b.network rs).length < calls.length) :
    ∃ r ∈ httpRounds b calls rs, r.ends = true := by
  induction calls generalizing b rs with
  | nil => cases hlen
  | cons c cs ih =>
      unfold httpRounds
      cases hcall : httpRead c.old b Spooler.blockSize rs with
      | none => exact absurd hcall (httpRead_ne_none hok.1 hfail)
      | some x =>
          obtain ⟨data, b', rs'⟩ := x
          cases hends : (⟨data, b'.timedOut, c.aborting⟩ : IppRound).ends with
          | true => exact ⟨_, List.mem_cons_self, hends⟩
          | false =>
              obtain ⟨hc, hok'⟩ := hok.next hcall hends
              have hshrink := hc.shrinks
              rw [List.length_cons] at hlen
              obtain ⟨r, hmem, hr⟩ := ih hok' (hc.fails hfail) (by omega)
              exact ⟨r, List.mem_cons_of_mem _ hmem, hr⟩

theorem outData_append (xs ys : List BufOp) : outData (xs ++ ys) = outData xs ++ outData ys :=
  List.flatMap_append

theorem outData_op_putOut (bufs : Bufs) (n : Nat) (data : List UInt8) (flags : UInt8) :
    outData (bufs.op (.putOut n data flags)).ops = outData bufs.ops ++ data := by
  show outData (bufs.ops ++ [.putOut n data flags]) = _
  rw [outData_append]
  simp [outData]

theorem outData_op_putIn (bufs : Bufs) (n : Nat) :
    outData (bufs.op (.putIn n)).ops = outData bufs.ops := by
  show outData (bufs.ops ++ [.putIn n]) = _
  rw [outData_append]
  exact List.append_nil _

theorem binLoop_eq_some (h : ippBinLoop bufs rounds = some o) :
    ∃ pre r post, rounds = pre ++ r :: post ∧ (∀ x ∈ pre, x.ends = false) ∧ r.ends = true ∧
      o.result = r.endState ∧ (r.endState ≠ .cancel → r.data = [] →
        outData o.bufs.ops = outData bufs.ops ++ pre.flatMap IppRound.data) := by
  induction rounds generalizing bufs with
  | nil => cases h
  | cons r rounds ih =>
      unfold ippBinLoop at h
      cases hends : r.ends with
      | true =>
          simp only [hends, if_true] at h
          refine ⟨[], r, rounds, rfl, nofun, hends, ?_⟩
          split at h
          · rename_i hcancel
            obtain rfl := Option.some.inj h
            exact ⟨rfl, fun hne ↦ absurd hcancel hne⟩
          · obtain rfl := Option.some.inj h
            refine ⟨rfl, fun _ hd ↦ ?_⟩
            show outData ((bufs.get 1).op _).ops = _
            rw [outData_op_putOut, hd]
            rfl
      | false =>
          simp only [hends, Bool.false_eq_true, if_false] at h
          obtain ⟨pre, r', post, hrounds, hpre, hr, hres, hout⟩ := ih h
          refine ⟨r :: pre, r', post, by rw [hrounds]; rfl,
            List.forall_mem_cons.mpr ⟨hends, hpre⟩, hr, hres, fun hne hd ↦ ?_⟩
          rw [hout hne hd, outData_op_putOut, List.flatMap_cons, List.append_assoc]
          rfl

theorem binLoop_result : (ippBinLoop bufs rounds).map Outcome.result =
    (rounds.find? IppRound.ends).map IppRound.endState := by
  induction rounds generalizing bufs with
  | nil => rfl
  | cons r rounds ih =>
      unfold ippBinLoop
      cases hends : r.ends with
      | true =>
          rw [List.find?_cons_of_pos hends, if_pos rfl]
          split <;> rfl
      | false =>
          rw [List.find?_cons_of_neg (by rw [hends]; exact Bool.false_ne_true)]
          exact ih

/-- The halves of a block are converted as one. -/
theorem putHalves_spec {keepCR : Bool} {pbuf0 pbuf1 : Nat} (hd : data ≠ []) :
    outData (putHalves keepCR pbuf0 pbuf1 data bufs).2.ops ++
        (processCRLF (putHalves keepCR pbuf0 pbuf1 data bufs).1 s).2 =
      outData bufs.ops ++ (processCRLF keepCR (data ++ s)).2 := by
  have hpos := List.length_pos_iff.mpr hd
  unfold putHalves
  split
  · rename_i hlong
    have htake : data.take halfBlock ≠ [] := by
      refine List.length_pos_iff.mp ?_
      rw [List.length_take]
      exact Nat.lt_min.mpr ⟨by decide, hpos⟩
    have hdrop : data.drop halfBlock ≠ [] := by
      refine List.length_pos_iff.mp ?_
      rw [List.length_drop]
      omega
    rw [outData_op_putOut, outData_op_putOut]
    conv_rhs => rw [← List.take_append_drop halfBlock data, List.append_assoc]
    rw [processCRLF_append _ htake, processCRLF_append _ hdrop]
    simp only [List.append_assoc]
  · rename_i hshort
    rw [outData_op_putIn, outData_op_putOut, List.take_of_length_le (by omega),
      processCRLF_append _ hd, List.append_assoc]

theorem txtLoop_eq_some {pbuf2 : Nat} {keepCR : Bool}
    (h : ippTxtLoop pbuf2 keepCR bufs rounds = some o) :
    ∃ pre r post, rounds = pre ++ r :: post ∧ (∀ x ∈ pre, x.ends = false) ∧ r.ends = true ∧
      o.result = r.endState ∧ (r.endState ≠ .cancel →
        outData o.bufs.ops =
          outData bufs.ops ++ (processCRLF keepCR (pre.flatMap IppRound.data)).2) := by
  induction rounds generalizing keepCR bufs with
  | nil => cases h
  | cons r rounds ih =>
      unfold ippTxtLoop at h
      cases hends : r.ends with
      | true =>
          simp only [hends, if_true] at h
          obtain rfl := Option.some.inj h
          refine ⟨[], r, rounds, rfl, nofun, hends, rfl, fun hne ↦ ?_⟩
          rw [outData_op_putIn, outData_op_putIn, if_neg hne, outData_op_putOut]
          show outData bufs.ops ++ [] = outData bufs.ops ++ (processCRLF keepCR []).2
          unfold processCRLF
          simp [convertLoop]
      | false =>
          simp only [hends, Bool.false_eq_true, if_false] at h
          obtain ⟨pre, r', post, hrounds, hpre, hr, hres, hout⟩ := ih h
          refine ⟨r :: pre, r', post, by rw [hrounds]; rfl,
            List.forall_mem_cons.mpr ⟨hends, hpre⟩, hr, hres, fun hne ↦ ?_⟩
          rw [hout hne, putHalves_spec (ends_eq_false.mp hends).1, List.flatMap_cons]
          rfl

theorem txtLoop_result {pbuf2 : Nat} {keepCR : Bool} :
    (ippTxtLoop pbuf2 keepCR bufs rounds).map Outcome.result =
      (rounds.find? IppRound.ends).map IppRound.endState := by
  induction rounds generalizing keepCR bufs with
  | nil => rfl
  | cons r rounds ih =>
      unfold ippTxtLoop
      cases hends : r.ends with
      | true => rw [List.find?_cons_of_pos hends, if_pos rfl]; rfl
      | false =>
          rw [List.find?_cons_of_neg (by rw [hends]; exact Bool.false_ne_true)]
          exact ih

/-! ## Every job -/

theorem arriving_failed (h : rs.head?.map Recv.isPiece = some false) : arriving rs = [] := by
  cases rs with
  | nil => rfl
  | cons r rs =>
      have hr : r.isPiece = false := Option.some.inj h
      unfold arriving
      rw [List.takeWhile_cons_of_neg (by rw [hr]; exact Bool.false_ne_true)]
      rfl

theorem httpRead_failed (old : Nat → UInt8) (length : Int) (hchunked : b.chunked = true)
    (hzero : b.qsize ≤ 0) (hcnt : b.network.ibufCnt = 0) (h : rs.head?.map Recv.isPiece = some false) :
    ∃ f rs', httpRead old b length rs = some ([], { b with network := f }, rs') := by
  cases rs with
  | nil => cases h
  | cons r rs =>
      have hr : r.isPiece = false := Option.some.inj h
      refine ⟨b.network.fill r, rs, ?_⟩
      simp [httpRead, hchunked, hzero, zotFgets, refill, hcnt, hr]

/-- A connection that fails where the size of a chunk is due leaves the body incomplete, and the
job does not end as cancelled. -/
theorem failsAtSize_round (ht : b.timedOut = false) (h : FailsAtSize b calls rs) :
    (∃ r, (httpRounds b calls rs).find? IppRound.ends = some r ∧ r.endState ≠ .cancel) ∧
      ¬ ∃ doc, WholeBody b rs doc := by
  induction calls generalizing b rs with
  | nil => exact h.elim
  | cons c cs ih =>
      unfold httpRounds
      rcases h with ⟨hchunked, hzero, hcnt, hfail⟩ | ⟨hread, hrest⟩
      · obtain ⟨f, rs', hcall⟩ := httpRead_failed c.old Spooler.blockSize
          hchunked hzero hcnt hfail
        rw [hcall]
        refine ⟨⟨_, List.find?_cons_of_pos rfl, ?_⟩, ?_⟩
        · unfold IppRound.endState
          simp only [ht]
          cases c.aborting <;> simp
        · rintro ⟨doc, hdoc⟩
          unfold WholeBody at hdoc
          have hq : b.qsize.toNat = 0 := by omega
          rw [if_pos hchunked, hq, received, ZotFile.buffered_eq_nil hcnt,
            arriving_failed hfail] at hdoc
          obtain ⟨line, rest, n, hcut, -⟩ := hdoc.inv_zero
          cases hcut
      · cases hcall : httpRead c.old b Spooler.blockSize rs with
        | none =>
            rw [hcall] at hrest
            exact hrest.elim
        | some x =>
            obtain ⟨data, b', rs'⟩ := x
            simp only [hcall] at hrest
            obtain ⟨hd, ha, hnext⟩ := hrest
            have hc := (httpRead_spec hread hcall).resolve_left fun h ↦ hd h.1
            obtain ⟨⟨r, hr, hst⟩, hnot⟩ := ih (hc.timedOut.trans ht) hnext
            refine ⟨⟨r, ?_, hst⟩, ?_⟩
            · have hends : (⟨data, b'.timedOut, c.aborting⟩ : IppRound).ends = false :=
                ends_eq_false.mpr ⟨hd, ha⟩
              rw [List.find?_cons_of_neg (by rw [hends]; exact Bool.false_ne_true)]
              exact hr
            · rintro ⟨doc, hdoc⟩
              obtain ⟨doc', -, hdoc'⟩ := (hc.whole doc).mp hdoc
              exact hnot ⟨doc', hdoc'⟩

/-- A job that is whole unless it is cancelled is cancelled if the connection fails before. -/
theorem faithful_of_whole {job : Option (Outcome JobState)} {convert : List UInt8 → List UInt8}
    (hok : ReadsOk b calls rs)
    (hres : job.map Outcome.result =
      ((httpRounds b calls rs).find? IppRound.ends).map IppRound.endState)
    (hwhole : ∀ o ∈ job, o.result ≠ .cancel →
      ∃ doc, WholeBody b rs doc ∧ outData o.bufs.ops = convert doc) :
    Faithful b calls rs job convert := by
  refine ⟨hwhole, fun hfail hlen hnot ↦ ?_⟩
  have hends := List.find?_isSome.mpr (rounds_end hok hfail hlen)
  obtain ⟨r, hr⟩ := Option.isSome_iff_exists.mp hends
  rw [hr] at hres
  obtain ⟨o, ho, -⟩ := Option.map_eq_some_iff.mp hres
  refine ⟨o, ho, ?_⟩
  by_contra hne
  obtain ⟨doc, hw, -⟩ := hwhole o ho hne
  exact hnot ⟨doc, hw⟩

theorem faithful_bin (hok : ReadsOk b calls rs) :
    Faithful b calls rs (printBINJob b calls rs) id := by
  refine faithful_of_whole hok binLoop_result fun o ho hne ↦ ?_
  obtain ⟨pre, r, post, hrounds, hpre, hr, hres, hout⟩ := binLoop_eq_some ho
  rw [hres] at hne
  obtain ⟨hd, hw⟩ := rounds_whole hok hrounds hpre hr hne
  exact ⟨_, hw, hout hne hd⟩

theorem faithful_txt (hok : ReadsOk b calls rs) :
    Faithful b calls rs (printTXTJob b calls rs) fun doc ↦ (processCRLF false doc).2 := by
  refine faithful_of_whole hok txtLoop_result fun o ho hne ↦ ?_
  obtain ⟨pre, r, post, hrounds, hpre, hr, hres, hout⟩ := txtLoop_eq_some ho
  rw [hres] at hne
  exact ⟨_, (rounds_whole hok hrounds hpre hr hne).2, hout hne⟩

/-- A job that takes a failed connection for the end of the body is not faithful. -/
theorem not_faithful {job : Option (Outcome JobState)} {convert : List UInt8 → List UInt8}
    (ht : b.timedOut = false) (hfail : FailsAtSize b calls rs)
    (hres : job.map Outcome.result =
      ((httpRounds b calls rs).find? IppRound.ends).map IppRound.endState) :
    ¬ Faithful b calls rs job convert := by
  obtain ⟨⟨r, hr, hst⟩, hnot⟩ := failsAtSize_round ht hfail
  rw [hr] at hres
  obtain ⟨o, ho, hor⟩ := Option.map_eq_some_iff.mp hres
  intro h
  obtain ⟨doc, hw, -⟩ := h.whole o ho (by rw [hor]; exact hst)
  exact hnot ⟨doc, hw⟩

theorem readBody_length {length : Int} (h : b.chunked = false)
    (hread : readBody old b length rs = some (data, b', rs')) : b'.chunked = false := by
  unfold readBody at hread
  simp only [h, Bool.false_eq_true, false_and, if_false] at hread
  split at hread
  · obtain ⟨-, rfl, -⟩ := Prod.mk.inj (Option.some.inj hread) |>.imp_right Prod.mk.inj
    exact h
  split at hread
  · cases hread
  split at hread
  · obtain ⟨-, rfl, -⟩ := Prod.mk.inj (Option.some.inj hread) |>.imp_right Prod.mk.inj
    rfl
  · obtain ⟨-, rfl, -⟩ := Prod.mk.inj (Option.some.inj hread) |>.imp_right Prod.mk.inj
    rfl

/-- A body with a given length has no framing lines. -/
theorem readsOk_of_length (h : b.chunked = false) : ReadsOk b calls rs := by
  induction calls generalizing b rs with
  | nil => trivial
  | cons c cs ih =>
      refine ⟨fun hchunked ↦ absurd (h.symm.trans hchunked) Bool.false_ne_true, ?_⟩
      cases hcall : httpRead c.old b Spooler.blockSize rs with
      | none => trivial
      | some x =>
          obtain ⟨data, b', rs'⟩ := x
          unfold httpRead at hcall
          simp only [h, Bool.false_eq_true, false_and, if_false] at hcall
          exact Or.inr (Or.inr (ih (readBody_length h hcall)))

/-- If the framing lines that a job reads have arrived whole, then it ends in another state than
cancelled only with the whole document, which it has put out, and is cancelled if the connection
fails before; a body with a given length has no framing lines.  If the connection fails where the
size of a chunk is due, it is not so. -/
theorem job_faithful_of_readsOk (b : IppBody) (calls : List Call) (rs : List Recv) :
    (b.chunked = false → ReadsOk b calls rs) ∧
    (ReadsOk b calls rs → Faithful b calls rs (printBINJob b calls rs) id ∧
      Faithful b calls rs (printTXTJob b calls rs) fun doc ↦ (processCRLF false doc).2) ∧
    (b.timedOut = false → FailsAtSize b calls rs →
      ¬ Faithful b calls rs (printBINJob b calls rs) id ∧
      ¬ Faithful b calls rs (printTXTJob b calls rs) fun doc ↦ (processCRLF false doc).2) :=
  ⟨readsOk_of_length, fun hok ↦ ⟨faithful_bin hok, faithful_txt hok⟩, fun ht hfail ↦
    ⟨not_faithful ht hfail binLoop_result, not_faithful ht hfail txtLoop_result⟩⟩

/-- A Print-Job whose attributes ended with a chunk. -/
def nextChunk : IppBody :=
  { chunked := true, qsize := 0, timedOut := false, network := zotFopen fun _ ↦ 0 }

def fiveCalls : List Call := List.replicate 5 { old := fun _ ↦ 0, aborting := false }

/-- Two chunks, of which the first arrives in two pieces. -/
def twoChunks : List Recv :=
  [.piece ⟨[0x33, 0x0D, 0x0A, 0x61, 0x62], by decide, by decide⟩,
    .piece ⟨[0x63, 0x0D, 0x0A, 0x32, 0x0D, 0x0A, 0x64, 0x65, 0x0D, 0x0A, 0x30, 0x0D, 0x0A, 0x0D,
      0x0A], by decide, by decide⟩]

theorem job_faithful_two_chunks :
    (printBINJob nextChunk fiveCalls twoChunks).map (fun o ↦ (o.result, outData o.bufs.ops)) =
        some (.process, [0x61, 0x62, 0x63, 0x64, 0x65]) ∧
      Faithful nextChunk fiveCalls twoChunks (printBINJob nextChunk fiveCalls twoChunks) id :=
  ⟨by decide,
    ((job_faithful_of_readsOk nextChunk fiveCalls twoChunks).2.1 (by decide)).1⟩

/-- One chunk, and then the client closes the connection. -/
def oneChunk : List Recv :=
  [.piece ⟨[0x33, 0x0D, 0x0A, 0x61, 0x62, 0x63, 0x0D, 0x0A], by decide, by decide⟩, .closed]

/-- The job is not cancelled, so that it ends as complete. -/
theorem lost_connection_completes_job :
    (printBINJob nextChunk fiveCalls oneChunk).map (fun o ↦ (o.result, outData o.bufs.ops)) =
        some (.process, [0x61, 0x62, 0x63]) ∧
      ¬ Faithful nextChunk fiveCalls oneChunk (printBINJob nextChunk fiveCalls oneChunk) id :=
  ⟨by decide, not_faithful rfl (by decide) binLoop_result⟩

end PrintServer.Ipp
