import PrintServer.Ipp.WholeBody
import PrintServer.Lib.ChunkedReader

/-!
# De-chunking

What successive calls of `httpRead` return of a body, with a Content-Length or in chunks, however
it is cut into pieces.
-/

namespace PrintServer.Ipp

open Lib Http

variable {f : ZotFile} {b b' : IppBody} {rs rs' : List Recv} {old : Nat → UInt8}
  {line data doc rest missing : List UInt8} {length : Int}

/-- A call of `httpRead`, with what its array `len` holds. -/
structure ReadCall where
  old : Nat → UInt8
  length : Int

/-- Each call of a run returns the next bytes of the body, as many as fit.  One that returns
nothing is at the end of the body, and only `rest` is then unread; or it has timed out, and the
bytes `missing` of the body never arrive. -/
def Exact (missing rest : List UInt8) :
    IppBody → List ReadCall → List Recv → List UInt8 → Prop
  | _, [], _, _ => True
  | b, c :: cs, rs, doc =>
      match httpRead c.old b c.length rs with
      | none => missing ≠ []
      | some (data, b', rs') =>
          (data.length : Int) ≤ max 0 c.length ∧ data <+: doc ∧
            (data = [] → (b'.timedOut = true ∧ missing ≠ []) ∨
              (doc = [] ∧ missing = [] ∧ received b'.network rs' = rest)) ∧
            Exact missing rest b' cs rs' (doc.drop data.length)

/-- If the next line is the size 0, the empty line behind it has arrived whole. -/
def LastOk (b : IppBody) (rs : List Recv) : Prop :=
  b.chunked = true → b.qsize ≤ 0 → LineWhole (fun line rest rs ↦ chunkSize line = some 0 →
    LineWhole (fun line _ _ ↦ line = []) rest rs) b.network.buffered rs

/-- A call that asks for bytes, with all of the lines that it reads. -/
def CallOk (b : IppBody) (length : Int) (rs : List Recv) : Prop :=
  0 < length ∧ 0 ≤ b.network.ibufCnt ∧ ReadOk b rs ∧ LastOk b rs

/-- `CallOk` for every call up to the one that returns nothing. -/
def CallsOk : IppBody → List ReadCall → List Recv → Prop
  | _, [], _ => True
  | b, c :: cs, rs =>
      CallOk b c.length rs ∧
        match httpRead c.old b c.length rs with
        | none => True
        | some (data, b', rs') => data = [] ∨ CallsOk b' cs rs'

instance (b : IppBody) (rs : List Recv) : Decidable (LastOk b rs) := by
  unfold LastOk
  infer_instance

instance (b : IppBody) (length : Int) (rs : List Recv) : Decidable (CallOk b length rs) := by
  unfold CallOk
  infer_instance

instance decidableCallsOk : ∀ (b : IppBody) (calls : List ReadCall) (rs : List Recv),
    Decidable (CallsOk b calls rs)
  | _, [], _ => isTrue trivial
  | b, c :: cs, rs =>
      have : Decidable (match httpRead c.old b c.length rs with
          | none => True
          | some (data, b', rs') => data = [] ∨ CallsOk b' cs rs') :=
        match httpRead c.old b c.length rs with
        | none => isTrue trivial
        | some (_, b', rs') =>
            have := decidableCallsOk b' cs rs'
            inferInstance
      inferInstanceAs (Decidable (_ ∧ _))

instance decidableExact (missing rest : List UInt8) : ∀ (b : IppBody) (calls : List ReadCall)
    (rs : List Recv) (doc : List UInt8), Decidable (Exact missing rest b calls rs doc)
  | _, [], _, _ => isTrue trivial
  | b, c :: cs, rs, doc =>
      have : Decidable (match httpRead c.old b c.length rs with
          | none => missing ≠ []
          | some (data, b', rs') =>
              (data.length : Int) ≤ max 0 c.length ∧ data <+: doc ∧
                (data = [] → (b'.timedOut = true ∧ missing ≠ []) ∨
                  (doc = [] ∧ missing = [] ∧ received b'.network rs' = rest)) ∧
                Exact missing rest b' cs rs' (doc.drop data.length)) :=
        match httpRead c.old b c.length rs with
        | none => inferInstance
        | some (data, b', rs') =>
            have := decidableExact missing rest b' cs rs' (doc.drop data.length)
            inferInstance
      this

/-! ## One call -/

/-- The result of a call against the bytes that arrive: it waits or times out if they do not
suffice. -/
def Called (chunked : Bool) (n : Nat) (s : List UInt8) (length : Int) (timedOut : Bool) :
    Option (List UInt8 × IppBody × List Recv) → Prop
  | none => Short chunked n s
  | some (data, b', rs') =>
      (data.length : Int) ≤ max 0 length ∧
        ((data = [] ∧ b'.chunked = false ∧ b'.qsize = 0 ∧ b'.timedOut = true ∧
            Short chunked n s) ∨
          (Takes chunked n s data b'.chunked b'.qsize.toNat (received b'.network rs') ∧
            b'.timedOut = timedOut ∧ 0 ≤ b'.network.ibufCnt))

theorem dropLine_waits (h : dropLine old b rs = none) : received b.network rs = [] := by
  unfold dropLine at h
  split at h
  · exact zotFgets_waits ‹_›
  · cases h

/-- A call of `zot_recv` for some bytes copies some, unless none arrive. -/
theorem zotRecv_nonpos {n : Int} {f' : ZotFile} (hlen : 0 < length) (hcnt : 0 ≤ f.ibufCnt)
    (h : zotRecv f length rs = some ((n, data), f', rs')) (hn : n ≤ 0) : received f rs = [] := by
  unfold zotRecv at h
  split at h
  · cases h
  · exact refill_failed ‹_›
  · rename_i g _ hfill
    have hpos := refill_cnt hcnt hfill
    obtain ⟨⟨rfl, -⟩, -⟩ : (min length g.ibufCnt = n ∧ _) ∧ _ := by simpa using h
    omega

/-- A call that reads from a chunk, or from a body with a given length. -/
theorem readBody_called (old : Nat → UInt8) (hpos : 0 < b.qsize) (hlen : 0 < length)
    (hcnt : 0 ≤ b.network.ibufCnt)
    (hok : b.chunked = true → ChunkEndOk b.qsize.toNat b.network.buffered rs) :
    Called b.chunked b.qsize.toNat (received b.network rs) length b.timedOut
      (readBody old b length rs) := by
  unfold readBody
  rw [if_neg (by omega)]
  split
  · rename_i hrecv
    show Short _ _ _
    rw [zotRecv_waits hrecv]
    exact .empty (.inr (by omega))
  rename_i n d f rs₁ hrecv
  split
  · rename_i hn
    refine ⟨Int.le_max_left 0 length, .inl ⟨rfl, rfl, rfl, rfl, ?_⟩⟩
    rw [zotRecv_nonpos (by omega) hcnt hrecv hn]
    exact .empty (.inr (by omega))
  rename_i hn
  obtain ⟨hd, hle, hreads, hfound⟩ := zotRecv_pos (by omega) hrecv
  have hne : d ≠ [] := by
    rintro rfl
    rw [List.length_nil] at hd
    omega
  have hfits : (d.length : Int) ≤ max 0 length := by omega
  dsimp only
  split
  · -- the chunk ends
    rename_i hend
    obtain ⟨hchunked, hzero⟩ := hend
    have hq : b.qsize.toNat = d.length := by omega
    have hwhole := chunkEnd_found (List.append_ne_nil_of_left_ne_nil hne _) hfound
      (by rw [hq, List.length_append]; omega) (hok hchunked)
    rw [hq, List.drop_left] at hwhole
    cases hdrop : dropLine old { b with qsize := b.qsize - n, network := f } rs₁ with
    | none =>
        show Short _ _ _
        rw [hchunked, hq, hreads.bytes, dropLine_waits hdrop, List.append_nil]
        exact .chunk hne
    | some r =>
        obtain ⟨b₁, rs₂⟩ := r
        obtain ⟨hc, hq', ht, hline⟩ := dropLine_empty hreads.cnt hwhole hdrop
        have hzero' : b₁.qsize.toNat = 0 := by
          rw [hq']
          show (b.qsize - n).toNat = 0
          omega
        have hc' : b₁.chunked = true := hc.trans hchunked
        refine ⟨hfits, .inr ⟨?_, ht, hline.cnt⟩⟩
        rw [hchunked, hq, hreads.bytes, hline.bytes, hc', hzero']
        exact .chunk hne
  · rename_i hmore
    refine ⟨hfits, .inr ⟨?_, rfl, hreads.cnt⟩⟩
    have hq : b.qsize.toNat = d.length + (b.qsize - n).toNat := by omega
    rw [hreads.bytes, hq]
    by_cases hrest : (b.qsize - n).toNat = 0
    · have hchunked : b.chunked = false := by
        by_contra hc
        exact hmore ⟨by simpa using hc, by omega⟩
      show Takes _ _ _ d b.chunked (b.qsize - n).toNat _
      rw [hrest, hchunked]
      exact .whole hne
    · exact .part hne hrest

/-- The result of a call that has the line behind the size 0 to drop. -/
def Ended (b : IppBody) (s : List UInt8) : Option (List UInt8 × IppBody × List Recv) → Prop
  | none => s = []
  | some (data, b', rs') =>
      data = [] ∧ b'.chunked = false ∧ b'.qsize = b.qsize ∧ b'.timedOut = b.timedOut ∧
        0 ≤ b'.network.ibufCnt ∧ s = 0x0D :: 0x0A :: received b'.network rs'

/-- A call at the end of a body in chunks, behind the size 0. -/
theorem readBody_last (old : Nat → UInt8) (length : Int) (hzero : b.qsize ≤ 0)
    (hchunked : b.chunked = true) (hcnt : 0 ≤ b.network.ibufCnt)
    (hok : LineWhole (fun line _ _ ↦ line = []) b.network.buffered rs) :
    Ended b (received b.network rs) (readBody old b length rs) := by
  unfold readBody
  rw [if_pos hzero, if_pos hchunked]
  cases hdrop : dropLine old { b with chunked := false } rs with
  | none => exact dropLine_waits (b := { b with chunked := false }) hdrop
  | some r =>
      obtain ⟨b₁, rs₁⟩ := r
      obtain ⟨hc, hq, ht, hline⟩ :=
        dropLine_empty (b := { b with chunked := false }) hcnt hok hdrop
      exact ⟨rfl, hc, hq, ht, hline.cnt, hline.bytes⟩

/-- A call that first reads the size of a chunk. -/
theorem Called.size {n : Nat} {s t : List UInt8} {timedOut : Bool}
    {r : Option (List UInt8 × IppBody × List Recv)} (hcut : cutLine s = some (line, t))
    (hsize : chunkSize line = some n) (hn : n ≠ 0) (h : Called true n t length timedOut r) :
    Called true 0 s length timedOut r := by
  cases r with
  | none => exact Short.size hcut hsize hn h
  | some r =>
      obtain ⟨hfits, ⟨hd, hc, hq, ht, hshort⟩ | ⟨htakes, hsame⟩⟩ := h
      · exact ⟨hfits, .inl ⟨hd, hc, hq, ht, Short.size hcut hsize hn hshort⟩⟩
      · exact ⟨hfits, .inr ⟨Takes.size hcut hsize hn htakes, hsame⟩⟩

/-- What a call returns whose lines have arrived whole. -/
theorem httpRead_called (old : Nat → UInt8) (hok : CallOk b length rs) :
    Called b.chunked b.qsize.toNat (received b.network rs) length b.timedOut
      (httpRead old b length rs) := by
  obtain ⟨hlen, hcnt, hread, hlast⟩ := hok
  unfold httpRead
  split
  · rename_i hsize
    obtain ⟨hchunked, hzero⟩ := hsize
    have hline := (hread hchunked).2
    rw [if_pos hzero] at hline
    have hq : b.qsize.toNat = 0 := by omega
    cases hfgets : zotFgets old 64 b.network rs with
    | none =>
        show Short _ _ _
        rw [hchunked, hq, zotFgets_waits hfgets]
        exact .empty (.inl rfl)
    | some r =>
        obtain ⟨stored, f, rs₁⟩ := r
        obtain ⟨line, rfl, hcrlf, hsize, hreads⟩ := fgets_whole hcnt hline hfgets
        obtain ⟨line', hstored, -, hlast', -⟩ := fgets_whole hcnt (hlast hchunked hzero) hfgets
        obtain rfl : line = line' := by simpa using hstored
        unfold SizeLineOk at hsize
        split at hsize
        · exact hsize.elim
        rename_i n hn
        have hcut : cutLine (received b.network rs) = some (line, received f rs₁) := by
          rw [hreads.bytes, List.append_assoc]
          exact cutLine_line hcrlf
        show Called _ _ _ _ _ (readBody _
          { b with qsize := strtol16 (line ++ [0x0A]), network := f } length rs₁)
        rw [strtol16_line hn hsize.1, hq]
        by_cases hzero' : n = 0
        · subst hzero'
          have hend := readBody_last (b := { b with qsize := (0 : Nat), network := f })
            (storeLen old (line ++ [0x0A])) length (Int.le_refl 0) hchunked
            hreads.cnt (hlast' hn)
          cases hbody : readBody (storeLen old (line ++ [0x0A]))
              { b with qsize := (0 : Nat), network := f } length rs₁ with
          | none =>
            rw [hbody] at hend
            rw [hchunked]
            rw [show received f rs₁ = [] from hend] at hcut
            exact .last hcut hn
          | some r =>
            obtain ⟨data, b₁, rs₂⟩ := r
            rw [hbody] at hend
            obtain ⟨rfl, hc, hq', ht, hcnt', hbytes⟩ := hend
            refine ⟨Int.le_max_left 0 length, .inr ⟨?_, ht, hcnt'⟩⟩
            rw [hbytes] at hcut
            rw [hchunked, hc, hq']
            exact .last hcut hn
        · have hbody := readBody_called (b := { b with qsize := n, network := f })
            (storeLen old (line ++ [0x0A])) (by show (0 : Int) < n; omega) hlen
            hreads.cnt (fun _ ↦ by
              show ChunkEndOk ((n : Int).toNat) f.buffered rs₁
              rw [Int.toNat_natCast]
              exact hsize.2 hzero')
          rw [hchunked]
          rw [Int.toNat_natCast] at hbody
          exact Called.size hcut hn hzero' (hchunked ▸ hbody)
  · rename_i hsize
    by_cases hpos : 0 < b.qsize
    · refine readBody_called old hpos hlen hcnt fun hchunked ↦ ?_
      have hend := (hread hchunked).2
      rwa [if_neg (by omega)] at hend
    · -- a body with a given length, all of it read
      have hchunked : b.chunked = false := by
        by_contra hc
        exact hsize ⟨by simpa using hc, by omega⟩
      have hq : b.qsize.toNat = 0 := by omega
      have heq : readBody old b length rs = some ([], b, rs) := by
        unfold readBody
        rw [if_pos (by omega), hchunked]
        rfl
      rw [heq]
      refine ⟨Int.le_max_left 0 length, .inr ⟨?_, rfl, hcnt⟩⟩
      rw [hchunked, hq]
      exact .ended

/-! ## Every call -/

/-- Where no bytes are to come a call returns nothing and changes nothing. -/
theorem exact_of_ended (hchunked : b.chunked = false) (hq : b.qsize ≤ 0)
    (hend : (b.timedOut = true ∧ missing ≠ []) ∨
      (doc = [] ∧ missing = [] ∧ received b.network rs = rest)) (calls : List ReadCall) :
    Exact missing rest b calls rs doc := by
  induction calls with
  | nil => trivial
  | cons c cs ih =>
      have hcall : httpRead c.old b c.length rs = some ([], b, rs) := by
        unfold httpRead readBody
        rw [hchunked, if_pos hq]
        rfl
      unfold Exact
      rw [hcall]
      exact ⟨Int.le_max_left 0 c.length, List.nil_prefix, fun _ ↦ hend, ih⟩

/-- The invariant is that the bytes that arrive, with the missing ones behind them, are the rest
of the body. -/
theorem exact_of_callsOk {calls : List ReadCall}
    (hbody : Body 64 b.chunked b.qsize.toNat (received b.network rs ++ missing) doc rest)
    (hmissing : missing = [] ∨ rest = []) (hok : CallsOk b calls rs) :
    Exact missing rest b calls rs doc := by
  induction calls generalizing b rs doc with
  | nil => trivial
  | cons c cs ih =>
      obtain ⟨hcall, hrest⟩ := hok
      have hcalled := httpRead_called c.old hcall
      have hwhole : Short b.chunked b.qsize.toNat (received b.network rs) → missing ≠ [] := by
        rintro hshort rfl
        rw [List.append_nil] at hbody
        exact hbody.not_short hshort
      unfold Exact
      cases hr : httpRead c.old b c.length rs with
      | none =>
          rw [hr] at hcalled
          exact hwhole hcalled
      | some r =>
          obtain ⟨data, b', rs'⟩ := r
          rw [hr] at hcalled
          simp only [hr] at hrest
          obtain ⟨hfits, ⟨rfl, hc, hq, ht, hshort⟩ | ⟨htakes, -⟩⟩ := hcalled
          · have hend := Or.inl (b := doc = [] ∧ missing = [] ∧ received b'.network rs' = rest)
              (And.intro ht (hwhole hshort))
            exact ⟨hfits, List.nil_prefix, fun _ ↦ hend, exact_of_ended hc (by omega) hend cs⟩
          · obtain ⟨doc', rfl, hbody', hnil⟩ := hbody.takes (htakes.append missing)
            have hdrop : (data ++ doc').drop data.length = doc' := List.drop_left
            have hfront : data <+: data ++ doc' := List.prefix_append data doc'
            by_cases hd : data = []
            · obtain ⟨hc, hq⟩ := htakes.of_nil hd
              obtain ⟨hdoc, hunread⟩ := hnil hd
              have hall : missing = [] := by
                rcases hmissing with h | rfl
                · exact h
                · exact (List.append_eq_nil_iff.mp hunread).2
              rw [hall, List.append_nil] at hunread
              have hend : doc' = [] := (List.append_eq_nil_iff.mp hdoc).2
              refine ⟨hfits, hfront, fun _ ↦ .inr ⟨hdoc, hall, hunread⟩, ?_⟩
              rw [hdrop]
              exact exact_of_ended hc (by omega) (.inr ⟨hend, hall, hunread⟩) cs
            · refine ⟨hfits, hfront, fun hnil ↦ absurd hnil hd, ?_⟩
              rw [hdrop]
              exact ih hbody' (hrest.resolve_left hd)

/-- A body with a given length has no lines. -/
theorem callsOk_of_length {calls : List ReadCall} (hchunked : b.chunked = false)
    (hcnt : 0 ≤ b.network.ibufCnt) (hlen : ∀ c ∈ calls, 0 < c.length) : CallsOk b calls rs := by
  induction calls generalizing b rs with
  | nil => trivial
  | cons c cs ih =>
      obtain ⟨hc, hcs⟩ := List.forall_mem_cons.mp hlen
      have hnot : b.chunked ≠ true := by
        rw [hchunked]
        exact Bool.false_ne_true
      have hok : CallOk b c.length rs :=
        ⟨hc, hcnt, fun h ↦ absurd h hnot, fun h ↦ absurd h hnot⟩
      have hcalled := httpRead_called c.old hok
      refine ⟨hok, ?_⟩
      cases hr : httpRead c.old b c.length rs with
      | none => trivial
      | some r =>
          obtain ⟨data, b', rs'⟩ := r
          rw [hr, hchunked] at hcalled
          obtain ⟨-, ⟨hd, -⟩ | ⟨htakes, -, hcnt'⟩⟩ := hcalled
          · exact .inl hd
          · exact .inr (ih htakes.chunked_eq_false hcnt' hcs)

/-- If every call of a run asks for bytes and the lines that it reads have arrived whole, then the
calls return the bytes of the body, each once and in order, and the one at its end leaves unread
what follows the body.  A body with a given length has no such lines. -/
theorem body_exact_of_callsOk (b : IppBody) (calls : List ReadCall) (rs : List Recv)
    (doc rest missing : List UInt8)
    (hbody : Body 64 b.chunked b.qsize.toNat (received b.network rs ++ missing) doc rest)
    (hmissing : missing = [] ∨ rest = []) :
    (b.chunked = false → 0 ≤ b.network.ibufCnt → (∀ c ∈ calls, 0 < c.length) →
      CallsOk b calls rs) ∧
    (CallsOk b calls rs → Exact missing rest b calls rs doc) :=
  ⟨callsOk_of_length, exact_of_callsOk hbody hmissing⟩

/-- Five calls for up to four bytes each. -/
def fourByteCalls : List ReadCall := List.replicate 5 { old := fun _ ↦ 0, length := 4 }

/-- "B;a" and eleven bytes, the last one in a piece of its own with the end of the body. -/
def elevenBytes : List Recv :=
  [.piece ⟨[0x42, 0x3B, 0x61, 0x0D, 0x0A] ++ List.replicate 10 0x78, by decide, by decide⟩,
    .piece ⟨[0x79, 0x0D, 0x0A, 0x30, 0x0D, 0x0A, 0x0D, 0x0A], by decide, by decide⟩]

theorem body_exact_eleven_bytes :
    Exact [] [] nextChunk fourByteCalls elevenBytes (List.replicate 10 0x78 ++ [0x79]) :=
  (body_exact_of_callsOk nextChunk fourByteCalls elevenBytes (List.replicate 10 0x78 ++ [0x79])
    [] [] (.size (rfl : cutLine _ = some ([0x42, 0x3B, 0x61], _)) (by decide) rfl (by decide)
      (.data (d := List.replicate 10 0x78 ++ [0x79]) (by decide)
        (.last (rfl : cutLine _ = some ([0x30], _)) (by decide) rfl)))
    (.inl rfl)).2 (by decide)

/-- "3" and "abc", with a border of two pieces in the line of the size. -/
def cutSizeLine : List Recv :=
  [.piece ⟨[0x33], by decide, by decide⟩,
    .piece ⟨[0x0D, 0x0A, 0x61, 0x62, 0x63, 0x0D, 0x0A, 0x30, 0x0D, 0x0A, 0x0D, 0x0A], by decide,
      by decide⟩]

/-- The line end is taken for the first two bytes of the body. -/
theorem cut_size_line_misread :
    Body 64 nextChunk.chunked nextChunk.qsize.toNat
        (received nextChunk.network cutSizeLine ++ []) [0x61, 0x62, 0x63] [] ∧
      ¬ Exact [] [] nextChunk fourByteCalls cutSizeLine [0x61, 0x62, 0x63] := by
  constructor
  · exact .size (rfl : cutLine _ = some ([0x33], _)) (by decide) rfl (by decide)
      (.data (d := [0x61, 0x62, 0x63]) (by decide)
        (.last (rfl : cutLine _ = some ([0x30], _)) (by decide) rfl))
  · decide

/-- The bytes of "11", "10", five lines "0" and "0;x" with borders behind the first "1" and behind
"0;".  The size 11 is read as 1, and the start of the body as the next size. -/
def cutTwice : List Recv :=
  [.piece ⟨[0x31], by decide, by decide⟩,
    .piece ⟨[0x31, 0x0D, 0x0A, 0x31, 0x30, 0x0D, 0x0A, 0x30, 0x0D, 0x0A, 0x30, 0x0D, 0x0A, 0x30,
      0x0D, 0x0A, 0x30, 0x0D, 0x0A, 0x30, 0x0D, 0x0A, 0x30, 0x3B], by decide, by decide⟩,
    .piece ⟨[0x78, 0x0D, 0x0A, 0x0D, 0x0A], by decide, by decide⟩]

-- what is misread may still be the body, by accident
example : let calls := List.replicate 4 { old := fun _ ↦ 0, length := 20 }
    ¬ CallsOk nextChunk calls cutTwice ∧
      Exact [] [] nextChunk calls cutTwice [0x31, 0x30, 0x0D, 0x0A, 0x30, 0x0D, 0x0A, 0x30, 0x0D,
        0x0A, 0x30, 0x0D, 0x0A, 0x30, 0x0D, 0x0A, 0x30] := by
  decide

end PrintServer.Ipp
