import PrintServer.Http.Decimal
import PrintServer.Http.Form
import PrintServer.Http.Head
import PrintServer.Http.PasswordGate

/-!
# A form on a connection

A form comes as the query of a GET or as the body of a POST.  The body is read with one call of
`zot_fgets`, so that all of it is read only if it is in one piece.
-/

namespace PrintServer.Http

variable {ε : Type}

/-- A header of a request that sends a form, with a body of `n` bytes for a POST. -/
structure FormHeader (post : Bool) (n : Nat) (l : Str) : Prop where
  line : HeadLine l
  colon : chr ':' ∈ l
  contentType : isHeader l "Content-Type:" = true →
    strstr (l.drop 13) (bytes "application/ipp") = none ∧
      strstr (l.drop 13) (bytes "multipart/form-data") = none
  contentLength : post = true → isHeader l "Content-Length:" = true →
    ∃ k s, l.drop 15 = List.replicate k (chr ' ') ++ s ∧ IsDigits s ∧ decimalValue s = n

/-- A form and the request that sends it; `path` is the part of the URL behind the first slash. -/
structure FormRequest where
  post : Bool
  path : Str
  version : Str
  headers : List Str
  pairs : Pairs
  sent : Str

namespace FormRequest

def requestLine (r : FormRequest) : Str :=
  requestText (formMethod r.post) (r.path ++ if !r.post then chr '?' :: r.sent else []) r.version

def head (r : FormRequest) : List Str := r.requestLine :: r.headers

def body (r : FormRequest) : Str := if r.post then r.sent else []

def bytes (r : FormRequest) : List UInt8 := headBytes r.head ++ r.body

/-- A request that sends the form. -/
structure WellFormed (r : FormRequest) : Prop where
  path : chr ' ' ∉ r.path ∧ chr '?' ∉ r.path
  line : HeadLine r.requestLine
  headers : ∀ l ∈ r.headers, FormHeader r.post r.sent.length l
  length : r.post = true → ∃ l ∈ r.headers, isHeader l "Content-Length:" = true
  pairs : FormPairs r.pairs
  submits : Submits r.pairs r.sent
  nonempty : r.post = true → r.sent ≠ []

/-- Each line of the head is in one piece. -/
def HeadWhole (r : FormRequest) (ps : List Piece) : Prop :=
  LinesWhole (List.replicate (r.headers.length + 2) hlinelen) [] ps

/-- The body is in one piece, too. -/
def BodyWhole (r : FormRequest) (ps : List Piece) : Prop :=
  LinesWhole (List.replicate (r.headers.length + 2) hlinelen ++ [r.sent.length + 1]) [] ps

end FormRequest

/-- The query that `CGIBoxSetting` is given is that of the form, and its loop leaves the pointers
as the form says, whatever lies behind the query. -/
def FormReceived (env : HttpEnv ε) (behind : Nat → UInt8) (ps : List Piece) (form : Pairs) : Prop :=
  (∃ rq, Handles env behind (ps.map .piece) (.of (.request rq)) ∧
    rq.query = some (formQuery form)) ∧
  ∀ after, PointsTo (parseQuery (formQuery form ++ 0 :: after)) form

/-- `CGIBoxSetting` is given the query of a request that passes the password check. -/
theorem answer_form {env : HttpEnv ε} {box : Box ε} {rq : ReqInfo} {query : Str}
    (hq : rq.query = some query) (h : diagnosticMode env box ∨ authorization env box rq) :
    (answer env box (.request rq)).head? =
      some (.cgiBoxSetting query, (env.cgiBoxSetting box query).2) := by
  have hpass : ¬ (¬ diagnosticMode env box ∧ ¬ authorization env box rq) := by
    rintro ⟨hd, ha⟩
    exact h.elim hd ha
  simp only [answer, if_neg hpass, hq]
  rfl

variable {env : HttpEnv ε} {b s e l : List UInt8} {ps : List Piece} {f : ZotFile}
  {rs : List Recv} {lens : List Nat} {post : Bool} {n : Nat}

/-! ## The headers of a form -/

theorem isHeader_text (h : Text b l) (name : String) : isHeader b name = isHeader l name := by
  have hl : cstr l 0 = l := by
    unfold cstr
    rw [List.drop_zero, List.takeWhile_eq_self_iff]
    intro c hc
    have hne : c ≠ 0 := fun h0 ↦ h.1 (h0 ▸ hc)
    simpa using hne
  unfold isHeader
  rw [h.cstr_zero, hl]

/-- A string that ends before the name is the front of it. -/
theorem strnicmp_prefix {s pat : Str} (h : strnicmp s pat pat.length = 0) :
    pat.length ≤ s.length ∨ s.map tolower <+: pat.dropLast.map tolower := by
  induction pat generalizing s with
  | nil => exact .inl (Nat.zero_le _)
  | cons d pat ih =>
      cases s with
      | nil => exact .inr (List.nil_prefix)
      | cons c s =>
          simp only [List.length_cons, strnicmp] at h
          split at h
          · rename_i hcd
            rcases ih h with hle | hpre
            · exact .inl (Nat.succ_le_succ hle)
            · cases pat with
              | nil => exact .inl (by simp)
              | cons d' pat =>
                  right
                  rw [List.dropLast_cons_of_ne_nil (by simp), List.map_cons, List.map_cons, hcd]
                  exact (List.prefix_cons_inj _).mpr hpre
          · split at h <;> cases h

/-- A header with a colon is as long as the name that it has. -/
theorem length_le_of_isHeader (hl : Text b l) (hcolon : chr ':' ∈ l) {name : String}
    (hname : chr ':' ∉ (bytes name).dropLast.map tolower) (h : isHeader b name = true) :
    (bytes name).length ≤ l.length := by
  unfold isHeader at h
  rw [hl.cstr_zero, decide_eq_true_iff] at h
  rcases strnicmp_prefix h with hle | hpre
  · exact hle
  · have hmem : tolower (chr ':') ∈ l.map tolower := List.mem_map_of_mem hcolon
    exact absurd (hpre.mem hmem) hname

/-- `qsize` for a body of `n` bytes. -/
def announced (n : Nat) : Int32 := Int32.ofInt (min 2147483647 n)

/-- The state of the header loop in a request that sends a form; `seen` when the length of the
body has been read. -/
structure FormState (rq : ReqInfo) (n : Nat) (seen : Bool) (h : Headers) : Prop where
  method : h.rq.method = rq.method
  query : h.rq.query = rq.query
  boundary : h.rq.boundary = none
  ippreq : h.ippreq = false
  qsize : rq.method = .post → seen = true → h.qsize = announced n

theorem FormState.ite {rq : ReqInfo} {seen : Bool} {c : Prop} [Decidable c] {h h' : Headers}
    (hpos : c → FormState rq n seen h) (hneg : ¬ c → FormState rq n seen h') :
    FormState rq n seen (if c then h else h') := by
  split
  · exact hpos ‹_›
  · exact hneg ‹_›

theorem FormState.headerLine {rq : ReqInfo} {seen : Bool} {h : Headers}
    (hst : FormState rq n seen h) (hl : FormHeader post n l) (hpost : rq.method = .post → post)
    (ht : Text h.inlineBuf l) :
    FormState rq n (seen || isHeader l "Content-Length:") (headerLine env h) := by
  obtain ⟨hm, hq, hb, hi, hn⟩ := hst
  have hlen {name : String} (hname : chr ':' ∉ (bytes name).dropLast.map tolower)
      (hh : isHeader h.inlineBuf name = true) : (bytes name).length ≤ l.length :=
    length_le_of_isHeader ht hl.colon hname hh
  by_cases hcl : isHeader h.inlineBuf "Content-Length:" = true
  · have hlen15 : 15 ≤ l.length := hlen (by decide) hcl
    unfold Http.headerLine
    rw [if_pos hcl]
    refine ⟨hm, hq, hb, hi, fun hpost' _ ↦ ?_⟩
    obtain ⟨k, s, htext, hs, rfl⟩ := hl.contentLength (hpost hpost')
      (by rwa [isHeader_text ht] at hcl)
    change atol (cstr h.inlineBuf 15) = _
    rw [ht.cstr_eq hlen15, htext, atol_blanks hs]
    rfl
  · have hseen : (seen || isHeader l "Content-Length:") = seen := by
      rw [isHeader_text ht] at hcl
      rw [Bool.eq_false_iff.mpr hcl, Bool.or_false]
    have hcontent (hct : isHeader h.inlineBuf "Content-Type:" = true) :
        strstr (cstr h.inlineBuf 13) (bytes "application/ipp") = none ∧
          strstr (cstr h.inlineBuf 13) (bytes "multipart/form-data") = none := by
      have hlen13 : 13 ≤ l.length := hlen (by decide) hct
      rw [ht.cstr_eq hlen13]
      exact hl.contentType (by rwa [isHeader_text ht] at hct)
    rw [hseen]
    unfold Http.headerLine
    rw [if_neg hcl]
    refine .ite (fun _ ↦ ⟨hm, hq, hb, hi, hn⟩) fun _ ↦ ?_
    refine .ite (fun _ ↦ ⟨hm, hq, hb, hi, hn⟩) fun _ ↦ ?_
    refine .ite (fun _ ↦ ⟨hm, hq, hb, hi, hn⟩) fun _ ↦ ?_
    refine .ite (fun _ ↦ ⟨hm, hq, hb, hi, hn⟩) fun _ ↦ ?_
    refine .ite (fun _ ↦ ⟨hm, hq, hb, hi, hn⟩) fun _ ↦ ?_
    refine .ite (fun hct ↦ ?_) fun _ ↦ ?_
    · obtain ⟨hipp, hform⟩ := hcontent hct
      dsimp only
      rw [hipp, hform]
      exact ⟨hm, hq, hb, rfl, hn⟩
    · exact .ite (fun _ ↦ ⟨hm, hq, hb, hi, hn⟩) fun _ ↦ ⟨hm, hq, hb, hi, hn⟩

/-- The state at the blank line. -/
theorem FormState.headersAfter {rq : ReqInfo} {ls : List Str} {seen : Bool} {h : Headers}
    (hst : FormState rq n seen h) (hls : ∀ l ∈ ls, FormHeader post n l)
    (hpost : rq.method = .post → post) :
    FormState rq n (seen || ls.any (isHeader · "Content-Length:")) (headersAfter env h ls) := by
  induction ls generalizing seen h with
  | nil =>
      rw [List.any_nil, Bool.or_false]
      exact ⟨hst.method, hst.query, hst.boundary, hst.ippreq, hst.qsize⟩
  | cons l ls ih =>
      obtain ⟨hl, hrest⟩ := List.forall_mem_cons.mp hls
      have hst' : FormState rq n seen
          { h with inlineBuf := rip (store (l ++ [chr '\n']) h.inlineBuf) } :=
        ⟨hst.method, hst.query, hst.boundary, hst.ippreq, hst.qsize⟩
      rw [List.any_cons, ← Bool.or_assoc]
      exact ih (hst'.headerLine hl hpost (text_rip_line hl.line _)) hrest

/-! ## The body -/

/-- A body without line ends is read up to the end of the piece. -/
theorem fgetsLoop_body (old : Nat → UInt8) {m i : Nat} (hb : f.buffered = b) (hne : b ≠ [])
    (hplain : ∀ c ∈ b, c ≠ chr '\r' ∧ c ≠ chr '\n') : (fgetsLoop old m i f).1 = b.take m := by
  induction m generalizing f b i with
  | zero => rfl
  | succ m ih =>
      obtain ⟨c, b, rfl⟩ := List.exists_cons_of_ne_nil hne
      obtain ⟨hc, hb', hcnt⟩ := ZotFile.of_buffered_cons hb
      obtain ⟨⟨hcr, hlf⟩, hrest⟩ := List.forall_mem_cons.mp hplain
      have hcr' : ¬ c = 0x0D := hcr
      have hlf' : ¬ c = 0x0A := hlf
      cases b with
      | nil =>
          have hcnt' : f.advance.ibufCnt = 0 := by
            change f.ibufCnt - 1 = 0
            rw [hcnt]
            rfl
          simp [fgetsLoop, hc, hcr', hcnt']
      | cons d b =>
          have hmore : f.advance.ibufCnt ≠ 0 := by
            change f.ibufCnt - 1 ≠ 0
            rw [hcnt, List.length_cons]
            omega
          have hread := ih (i := i + 1) hb' (List.cons_ne_nil d b) hrest
          simp [fgetsLoop, hc, hcr', hlf', hmore, hread]

theorem Encodes.plain_sent {s e : Str} (h : Encodes s e) :
    ∀ c ∈ e, c ≠ 0 ∧ c ≠ chr '\r' ∧ c ≠ chr '\n' ∧ c ≠ chr ' ' := by
  have hplain : ∀ c : UInt8, plain c = true →
      c ≠ 0 ∧ c ≠ chr '\r' ∧ c ≠ chr '\n' ∧ c ≠ chr ' ' := by
    refine forall_byte ?_
    decide +kernel
  have hhex : ∀ c : UInt8, (Lib.hexDigit c).isSome = true →
      c ≠ 0 ∧ c ≠ chr '\r' ∧ c ≠ chr '\n' ∧ c ≠ chr ' ' := by
    refine forall_byte ?_
    decide +kernel
  induction h with
  | nil => exact fun _ hc ↦ by cases hc
  | char hc _ ih => exact List.forall_mem_cons.mpr ⟨hplain _ hc, ih⟩
  | blank _ ih => exact List.forall_mem_cons.mpr ⟨by decide, ih⟩
  | amp _ ih => exact List.forall_mem_cons.mpr ⟨by decide, ih⟩
  | escape ha hb _ ih =>
      refine List.forall_mem_cons.mpr ⟨by decide, List.forall_mem_cons.mpr ⟨hhex _ ?_,
        List.forall_mem_cons.mpr ⟨hhex _ ?_, ih⟩⟩⟩
      · rw [ha]
        rfl
      · rw [hb]
        rfl

theorem lineLength_plain (hs : ∀ c ∈ s, c ≠ chr '\r' ∧ c ≠ chr '\n') (m : Nat) :
    lineLength m s = min m s.length := by
  induction s generalizing m with
  | nil => cases m <;> rfl
  | cons c s ih =>
      obtain ⟨⟨hcr, hlf⟩, hrest⟩ := List.forall_mem_cons.mp hs
      have hcr' : ¬ c = 0x0D := hcr
      have hlf' : ¬ c = 0x0A := hlf
      cases m with
      | zero => simp [lineLength]
      | succ m =>
          simp only [lineLength, hcr', hlf', if_false, ih hrest, List.length_cons]
          omega

theorem toInt_announced (n : Nat) : (announced n).toInt = min 2147483647 n := by
  have hle : min 2147483647 n ≤ 2147483647 := Nat.min_le_left _ _
  have hcast : min 2147483647 (n : Int) = ((min 2147483647 n : Nat) : Int) := by omega
  unfold announced
  rw [hcast]
  generalize min 2147483647 n = m at hle ⊢
  have hlow : -2 ^ 31 ≤ (m : Int) := by omega
  have hhigh : (m : Int) < 2 ^ 31 := by omega
  exact Int32.toInt_ofInt_of_le hlow hhigh

/-- The call of `zot_fgets` for the body: it returns what is left of the piece, up to the length
that was announced. -/
theorem formFrom_body {h : Headers} {sent : Str} (hh : Holds f rs b ps)
    (hs : stream b ps = sent) (hne : sent ≠ [])
    (hplain : ∀ c ∈ sent, c ≠ 0 ∧ c ≠ chr '\r' ∧ c ≠ chr '\n')
    (hpost : h.rq.method = .post) (hi : h.ippreq = false) (hb : h.rq.boundary = none)
    (hq : h.qsize ≠ 0) :
    ∃ t, t = (nextPiece b ps).1.take ((h.qsize + 1).toInt.toNat - 1) ∧
      formFrom env h f rs = some (.of (.request { h.rq with
        query := if t = [] then h.rq.query else some (decode env.heap t false) })) := by
  rcases refill_pieces hh with ⟨rfl, rfl, -⟩ | ⟨f', rs', hfill, hh', hne'⟩
  · exact absurd hs.symm hne
  · have hmem : ∀ c ∈ (nextPiece b ps).1, c ∈ sent := by
      intro c hc
      rw [← hs, ← stream_nextPiece]
      exact List.mem_append_left _ hc
    have hread := fgetsLoop_body (contents env.heap) (m := (h.qsize + 1).toInt.toNat - 1) (i := 0)
      hh'.buffered hne' fun c hc ↦ (hplain c (hmem c hc)).2
    refine ⟨_, rfl, ?_⟩
    have hnul : 0 ∉ (nextPiece b ps).1.take ((h.qsize + 1).toInt.toNat - 1) := fun h0 ↦
      (hplain 0 (hmem 0 (List.mem_of_mem_take h0))).1 rfl
    generalize (nextPiece b ps).1.take ((h.qsize + 1).toInt.toNat - 1) = t at hread hnul ⊢
    unfold formFrom zotFgets
    simp only [hfill, hread, Option.toList_some]
    unfold endOfHeaders
    simp only [hi, hpost, hb, (text_store hnul []).cstr_zero]
    simp [hq]

namespace FormRequest

variable {r : FormRequest} {behind : Nat → UInt8}

/-- The head of the request is read. -/
theorem receiveFrom_head (hr : r.WellFormed) (hps : ps.flatMap Piece.bytes = r.bytes)
    (hhead : r.HeadWhole ps) :
    ∃ rq h f rs b ps', (∀ fuel, receiveFrom env (fuel + (r.headers.length + 1)) (zotFopen behind)
        (ps.map .piece) = endOfHeadersFrom env fuel h f rs) ∧
      FormState rq r.sent.length (r.headers.any (isHeader · "Content-Length:")) h ∧
      rq.method = (if r.post then .post else .get) ∧
      rq.query = (if (!r.post) = true ∧ r.sent ≠ [] then some (decode env.heap r.sent false)
        else none) ∧
      Holds f rs b ps' ∧ b.length ≤ ibufSize ∧ stream b ps' = r.body ∧
      ∀ lens, LinesWhole (List.replicate (r.headers.length + 2) hlinelen ++ lens) [] ps ↔
        LinesWhole lens b ps' := by
  have hs : stream [] ps = r.requestLine ++ 0x0D :: 0x0A :: (headBytes r.headers ++ r.body) := by
    change ps.flatMap Piece.bytes = _
    rw [hps]
    simp [bytes, headBytes, head]
  obtain ⟨f₁, rs₁, b₁, ps₁, hcall, hh₁, hb₁, hs₁, hwhole₁⟩ :=
    zotFgets_headLine (contents env.heap) hr.line (holds_zotFopen behind ps) (Nat.zero_le _) hs
      hhead
  obtain ⟨url, buf, hline⟩ := @requestLine_text _ env r.post _ _ _ (!r.post) hr.path
    (fun h ↦ (hr.submits.encodes.plain_sent _ h).2.2.2 rfl) hr.line
  generalize hrq : ReqInfo.mk _ _ _ _ _ _ _ _ _ _ = rq at hline
  have hlines : ∀ l ∈ r.headers, HeadLine l ∧ l ≠ [] := fun l hl ↦
    ⟨(hr.headers l hl).line, List.ne_nil_of_mem (hr.headers l hl).colon⟩
  obtain ⟨f, rs, b, ps', hloop, hh, hb, hs', hwhole⟩ :=
    headerLoopFrom_headers env hlines ⟨rq, false, false, 0, buf⟩ hh₁ hb₁ hs₁ ((hwhole₁ _).mp hhead)
  have hst : FormState rq r.sent.length false ⟨rq, false, false, 0, buf⟩ :=
    ⟨rfl, rfl, by rw [← hrq], rfl, fun _ h ↦ by cases h⟩
  have hpost : rq.method = .post → r.post = true := by
    rw [← hrq]
    cases r.post <;> simp
  have hst' := @FormState.headersAfter _ env _ _ _ _ _ _ hst hr.headers hpost
  rw [Bool.false_or] at hst'
  refine ⟨rq, _, f, rs, b, ps', fun fuel ↦ ?_, hst', by rw [← hrq], by rw [← hrq], hh, hb, hs',
    fun lens ↦ (hwhole₁ _).trans (hwhole lens)⟩
  rw [receiveFrom_line hcall hline (by rw [← hrq]; cases r.post <;> simp) (by rw [← hrq]; simp)
    (by rw [← hrq]; cases r.post <;> simp)]
  exact hloop fuel

theorem query_ne_nul (hr : r.WellFormed) : 0 ∉ formQuery r.pairs :=
  formQuery_no_nul hr.pairs.pairOk

theorem sent_eq_nil_iff (hr : r.WellFormed) : r.sent = [] ↔ r.pairs = [] := by
  have hsub := hr.submits
  generalize r.pairs = ps, r.sent = e at hsub
  cases hsub <;> simp

/-- A GET hands on its query. -/
theorem handles_get (hr : r.WellFormed) (hps : ps.flatMap Piece.bytes = r.bytes)
    (hhead : r.HeadWhole ps) (hget : r.post = false) :
    ∃ rq, Handles env behind (ps.map .piece) (.of (.request rq)) ∧
      rq.query = if r.pairs = [] then none else some (formQuery r.pairs) := by
  obtain ⟨rq, h, f, rs, b, ps', hrun, hst, hm, hq, -⟩ :=
    @receiveFrom_head _ env _ _ behind hr hps hhead
  have hmethod : h.rq.method = .get := by
    rw [hst.method, hm, hget]
    rfl
  have hno : ¬ (h.qsize ≠ 0 ∧ h.rq.method = .post) := by
    rintro ⟨-, hp⟩
    cases hmethod.symm.trans hp
  refine ⟨h.rq, ⟨0 + (r.headers.length + 1), ?_⟩, ?_⟩
  · rw [hrun, endOfHeadersFrom, if_neg fun hc ↦ hno hc.2]
    unfold endOfHeaders
    rw [hst.ippreq, if_neg (by simp), if_neg hno]
  · rw [hst.query, hq, hget, decode_encodes _ hr.submits.encodes (query_ne_nul hr)]
    simp only [Bool.not_false, true_and, Ne, sent_eq_nil_iff hr, ite_not]

/-- A POST hands on what is left of the piece in which its body begins. -/
theorem handles_post (hr : r.WellFormed) (hps : ps.flatMap Piece.bytes = r.bytes)
    (hhead : r.HeadWhole ps) (hpost : r.post = true) :
    ∃ rq t, Handles env behind (ps.map .piece) (.of (.request rq)) ∧ t <+: r.sent ∧
      (r.BodyWhole ps ↔ t = r.sent) ∧
      rq.query = if t = [] then none else some (decode env.heap t false) := by
  obtain ⟨rq, h, f, rs, b, ps', hrun, hst, hm, hq, hh, hb, hs, hwhole⟩ :=
    @receiveFrom_head _ env _ _ behind hr hps hhead
  have hmethod : rq.method = .post := by
    rw [hm, hpost]
    rfl
  have hbody : r.body = r.sent := by
    rw [body, hpost]
    rfl
  have hseen : (r.headers.any (isHeader · "Content-Length:")) = true := by
    obtain ⟨l, hl, hcl⟩ := hr.length hpost
    exact List.any_eq_true.mpr ⟨l, hl, hcl⟩
  have hsize : h.qsize = announced r.sent.length := hst.qsize hmethod hseen
  have hpos : 0 < r.sent.length := List.length_pos_iff.mpr (hr.nonempty hpost)
  have hplain := hr.submits.encodes.plain_sent
  have hsize0 : h.qsize ≠ 0 := by
    intro h0
    have hint := toInt_announced r.sent.length
    rw [← hsize, h0] at hint
    simp at hint
    omega
  obtain ⟨t, ht, hform⟩ := @formFrom_body _ env _ _ _ _ _ _ hh (hs.trans hbody) (hr.nonempty hpost)
    (fun c hc ↦ ⟨(hplain c hc).1, (hplain c hc).2.1, (hplain c hc).2.2.1⟩)
    (hst.method.trans hmethod) hst.ippreq hst.boundary hsize0
  have hfront : (nextPiece b ps').1 <+: r.sent := by
    rw [← hbody, ← hs, ← stream_nextPiece]
    exact List.prefix_append _ _
  refine ⟨{ h.rq with query := if t = [] then h.rq.query else some (decode env.heap t false) },
    t, ⟨0 + (r.headers.length + 1), ?_⟩, ?_, ?_, ?_⟩
  · rw [hrun, endOfHeadersFrom, if_pos ⟨by simp [hst.ippreq], hsize0, hst.method.trans hmethod⟩,
      hst.boundary]
    exact hform
  · rw [ht]
    exact (List.take_prefix _ _).trans hfront
  · have hend : lineEnd (r.sent.length + 1) (nextPiece b ps') = r.sent.length := by
      rw [lineEnd_nextPiece, hs, hbody, Nat.add_sub_cancel,
        lineLength_plain fun c hc ↦ ⟨(hplain c hc).2.1, (hplain c hc).2.2.1⟩, Nat.min_self]
    have hiff : r.BodyWhole ps ↔ r.sent.length ≤ (nextPiece b ps').1.length := by
      unfold BodyWhole
      rw [hwhole, LinesWhole, hend]
      exact and_iff_left trivial
    rw [hiff]
    constructor
    · intro hle
      have hall : (nextPiece b ps').1 = r.sent :=
        hfront.eq_of_length (Nat.le_antisymm hfront.length_le hle)
      have hshort : r.sent.length ≤ ibufSize := by
        rw [← hall]
        exact length_nextPiece hb
      have hroom : (h.qsize + 1).toInt.toNat - 1 = r.sent.length := by
        have hint := toInt_announced r.sent.length
        rw [Nat.min_eq_right (Nat.le_trans hshort (by decide)), ← hsize] at hint
        rw [Int32.toInt_add, hint, Int.bmod_eq_of_le (by simp; omega) (by
          simp only [ibufSize] at hshort
          simp
          omega)]
        simp
      rw [ht, hroom, hall, List.take_length]
    · intro hsent
      rw [← hsent, ht, List.length_take]
      exact Nat.min_le_right _ _
  · change (if t = [] then h.rq.query else _) = _
    rw [hst.query, hq, hpost]
    simp

end FormRequest

/-- A body that is not in one piece is not received. -/
theorem FormReceived.bodyWhole {behind : Nat → UInt8} {r : FormRequest} (hr : r.WellFormed)
    (hps : ps.flatMap Piece.bytes = r.bytes) (hhead : r.HeadWhole ps) (hpost : r.post = true)
    (h : FormReceived env behind ps r.pairs) : r.BodyWhole ps := by
  obtain ⟨rq, t, hrq, hpre, hwhole, hq⟩ :=
    @FormRequest.handles_post _ env _ _ behind hr hps hhead hpost
  obtain ⟨⟨rq', hrq', hq'⟩, -⟩ := h
  obtain rfl : rq = rq' := by
    have heq := congrArg Handled.received (hrq.unique hrq')
    simpa using heq
  rw [hwhole]
  by_contra hcut
  -- what was read is the front of the form, and decodes to something else
  rw [hq] at hq'
  split at hq'
  · cases hq'
  · exact decode_ne_of_prefix env.heap hr.submits.encodes (FormRequest.query_ne_nul hr) hpre hcut
      (Option.some.inj hq')

/-- A form without an item is not received. -/
theorem FormReceived.pairs_ne_nil {behind : Nat → UInt8} {r : FormRequest} (hr : r.WellFormed)
    (hps : ps.flatMap Piece.bytes = r.bytes) (hhead : r.HeadWhole ps)
    (h : FormReceived env behind ps r.pairs) : r.pairs ≠ [] := by
  cases hpost : r.post with
  | false =>
      obtain ⟨rq, hrq, hq⟩ :=
        @FormRequest.handles_get _ env _ _ behind hr hps hhead hpost
      obtain ⟨⟨rq', hrq', hq'⟩, -⟩ := h
      obtain rfl : rq = rq' := by
        have heq := congrArg Handled.received (hrq.unique hrq')
        simpa using heq
      intro hnil
      rw [hq, if_pos hnil] at hq'
      cases hq'
  | true => exact fun hnil ↦ hr.nonempty hpost ((FormRequest.sent_eq_nil_iff hr).mpr hnil)

/-- Where the lines of the head are whole, the form is received if and only if it has an item, its
items are those of the form, its last value does not end with a line feed, and the body of a POST
is in one piece. -/
theorem form_received_iff (env : HttpEnv ε) (behind : Nat → UInt8) (r : FormRequest)
    (ps : List Piece) (hr : r.WellFormed) (hps : ps.flatMap Piece.bytes = r.bytes)
    (hhead : r.HeadWhole ps) :
    FormReceived env behind ps r.pairs ↔
      r.pairs ≠ [] ∧ SplitOk r.pairs ∧ (r.post = true → r.BodyWhole ps) := by
  constructor
  · intro h
    exact ⟨h.pairs_ne_nil hr hps hhead, (pointsTo_parseQuery_iff hr.pairs []).mp (h.2 []),
      fun hpost ↦ h.bodyWhole hr hps hhead hpost⟩
  · rintro ⟨hne, hsplit, hbody⟩
    refine ⟨?_, fun after ↦ (pointsTo_parseQuery_iff hr.pairs after).mpr hsplit⟩
    cases hpost : r.post with
    | false =>
        obtain ⟨rq, hrq, hq⟩ :=
          @FormRequest.handles_get _ env _ _ behind hr hps hhead hpost
        exact ⟨rq, hrq, by rw [hq, if_neg hne]⟩
    | true =>
        obtain ⟨rq, t, hrq, -, hwhole, hq⟩ :=
          @FormRequest.handles_post _ env _ _ behind hr hps hhead hpost
        obtain rfl := hwhole.mp (hbody hpost)
        refine ⟨rq, hrq, ?_⟩
        rw [hq, if_neg (hr.nonempty hpost),
          decode_encodes _ hr.submits.encodes (FormRequest.query_ne_nul hr)]

/-- The form `DHCP=ON`, sent with POST. -/
def dhcpForm : FormRequest where
  post := true
  path := Http.bytes "SETUP.HTM"
  version := Http.bytes "1"
  headers := [Http.bytes "Content-Length: 7"]
  pairs := [(Http.bytes "DHCP", Http.bytes "ON")]
  sent := Http.bytes "DHCP=ON"

theorem dhcpForm_wellFormed : dhcpForm.WellFormed where
  path := by decide +kernel
  line := ⟨by decide +kernel, by decide +kernel⟩
  headers := by
    intro l hl
    obtain rfl := List.mem_singleton.mp hl
    exact ⟨⟨by decide +kernel, by decide +kernel⟩, by decide +kernel, by decide +kernel,
      fun _ _ ↦ ⟨1, Http.bytes "7", by decide +kernel, ⟨by decide +kernel, by decide +kernel⟩,
        by decide +kernel⟩⟩
  length := fun _ ↦ ⟨_, List.mem_singleton_self _, by decide +kernel⟩
  pairs := ⟨by decide +kernel, by decide +kernel, by decide +kernel⟩
  submits := by
    have hsent : dhcpForm.sent = Http.bytes "DHCP" ++ chr '=' :: Http.bytes "ON" := by
      decide +kernel
    rw [hsent]
    exact .last (encodes_plain (by decide +kernel)) (encodes_plain (by decide +kernel))
  nonempty := by decide +kernel

theorem form_received_one_piece :
    FormReceived sampleEnv (fun _ ↦ 0) [⟨dhcpForm.bytes, by decide, by decide⟩] dhcpForm.pairs :=
  (form_received_iff sampleEnv _ dhcpForm _ dhcpForm_wellFormed (by simp)
    (by unfold FormRequest.HeadWhole; decide)).mpr
    ⟨by decide, ⟨by decide +kernel, by decide⟩, fun _ ↦ by unfold FormRequest.BodyWhole; decide⟩

/-- The same request, cut behind `DHCP=`. -/
def cutForm : List Piece :=
  [⟨headBytes dhcpForm.head ++ bytes "DHCP=", by decide, by decide⟩,
    ⟨bytes "ON", by decide, by decide⟩]

theorem cut_form_not_received :
    dhcpForm.WellFormed ∧ cutForm.flatMap Piece.bytes = dhcpForm.bytes ∧
      ¬ FormReceived sampleEnv (fun _ ↦ 0) cutForm dhcpForm.pairs := by
  have hbytes : cutForm.flatMap Piece.bytes = dhcpForm.bytes := by decide
  refine ⟨dhcpForm_wellFormed, hbytes, fun h ↦ ?_⟩
  have hwhole := h.bodyWhole dhcpForm_wellFormed hbytes
    (by unfold FormRequest.HeadWhole; decide) rfl
  revert hwhole
  unfold FormRequest.BodyWhole
  decide

end PrintServer.Http
