import Mathlib.Algebra.Order.Ring.Int
import PrintServer.Http.FormReceived
import PrintServer.Http.Upload

/-!
# A firmware upload on a connection

The length of the payload is what is left of Content-Length after an estimate of the octets around
the payload: the boundary and eight, and for each string that `zot_fgets` returns for the part
headers its length and one.
-/

namespace PrintServer.Http

variable {ε : Type} {env : HttpEnv ε} {f f' : ZotFile} {rs rs' : List Recv} {fuel : Nat}
  {b : List UInt8} {ps : List Piece} {behind : Nat → UInt8}

/-! ## What is left of Content-Length -/

/-- The strings that the calls of `zot_fgets` into the array `b` return, up to a blank line. -/
inductive PartLines : List UInt8 → ZotFile → List Recv → List Str → Prop
  | blank {b : List UInt8} {f f' : ZotFile} {rs rs' : List Recv} {line : List UInt8}
      (hcall : zotFgets (contents b) hlinelen f rs = some (some line, f', rs'))
      (hblank : cstr (rip (store line b)) 0 = []) : PartLines b f rs [cstr (store line b) 0]
  | more {b : List UInt8} {f f' : ZotFile} {rs rs' : List Recv} {line : List UInt8}
      {ls : List Str}
      (hcall : zotFgets (contents b) hlinelen f rs = some (some line, f', rs'))
      (hne : cstr (rip (store line b)) 0 ≠ []) (hmore : PartLines (rip (store line b)) f' rs' ls) :
      PartLines b f rs (cstr (store line b) 0 :: ls)

/-- The octets that the strings are taken for. -/
def partSize (ls : List Str) : Nat := (ls.map fun l ↦ l.length + 1).sum

/-- The header loop comes to the blank line of an upload: its state there, the boundary and the
strings of the part headers. -/
inductive UploadHeaders (env : HttpEnv ε) :
    Headers → ZotFile → List Recv → Headers → Str → List Str → Prop
  | blank {h : Headers} {f f' : ZotFile} {rs rs' : List Recv} {line : List UInt8}
      {boundary : Str} {ls : List Str}
      (hcall : zotFgets (contents h.inlineBuf) hlinelen f rs = some (some line, f', rs'))
      (hblank : cstr (rip (store line h.inlineBuf)) 0 = [])
      (hpost : ¬ h.ippreq ∧ h.qsize ≠ 0 ∧ h.rq.method = .post)
      (hboundary : h.rq.boundary = some boundary)
      (hparts : PartLines (rip (store line h.inlineBuf)) f' rs' ls) :
      UploadHeaders env h f rs h boundary ls
  | header {h h' : Headers} {f f' : ZotFile} {rs rs' : List Recv} {line : List UInt8}
      {boundary : Str} {ls : List Str}
      (hcall : zotFgets (contents h.inlineBuf) hlinelen f rs = some (some line, f', rs'))
      (hne : cstr (rip (store line h.inlineBuf)) 0 ≠ [])
      (hmore : UploadHeaders env
        (headerLine env { h with inlineBuf := rip (store line h.inlineBuf) }) f' rs' h' boundary
          ls) :
      UploadHeaders env h f rs h' boundary ls

/-- What is left of Content-Length for the payload. -/
def payloadSize (h : Headers) (boundary : Str) (ls : List Str) : Int32 :=
  h.qsize - Int32.ofNat (boundary.length + 8) - Int32.ofNat (partSize ls)

theorem readPartHeaders_of_partLines {tsize : Int32} {t : Option Int32} {ls : List Str}
    (hp : PartLines b f rs ls) (h : readPartHeaders fuel b tsize f rs = some (t, f', rs')) :
    t = some (tsize + Int32.ofNat (partSize ls)) := by
  induction hp generalizing fuel tsize with
  | blank hcall hblank =>
      cases fuel with
      | zero => cases h
      | succ fuel =>
          simp only [readPartHeaders, hcall, if_pos hblank] at h
          obtain ⟨rfl, -⟩ : _ = t ∧ _ := by simpa using h
          simp [partSize, Int32.ofNat_add, Int32.add_assoc]
  | more hcall hne hmore ih =>
      cases fuel with
      | zero => cases h
      | succ fuel =>
          simp only [readPartHeaders, hcall, if_neg hne] at h
          rw [ih h]
          simp [partSize, Int32.ofNat_add, Int32.add_assoc]

theorem partLines_of_readPartHeaders {tsize t : Int32}
    (h : readPartHeaders fuel b tsize f rs = some (some t, f', rs')) :
    ∃ ls, PartLines b f rs ls := by
  induction fuel generalizing b tsize f rs with
  | zero => cases h
  | succ fuel ih =>
      unfold readPartHeaders at h
      split at h
      · cases h
      · simp at h
      · rename_i hcall
        simp only at h
        split at h
        · rename_i hblank
          exact ⟨_, .blank hcall hblank⟩
        · rename_i hne
          obtain ⟨ls, hls⟩ := ih h
          exact ⟨_, .more hcall hne hls⟩

/-! ## Any request -/

/-- What holds of every handler that has ended: it hands on no more than `n` bytes, and it calls
`zot_recv` with a negative length if and only if `short`. -/
structure Bounded (n : Nat) (short : Prop) (r : Handled) : Prop where
  bsize : r.bsize.toInt ≤ n
  lens : (∀ len ∈ r.recvLens, 0 ≤ len) ↔ ¬ short

theorem bounded_of {n : Nat} {short : Prop} {r : Received} (hshort : ¬ short) :
    Bounded n short (.of r) :=
  ⟨Int.natCast_nonneg n, iff_of_true (fun _ h ↦ absurd h List.not_mem_nil) hshort⟩

theorem Bounded.mono {n m : Nat} {short : Prop} {r : Handled} (h : Bounded n short r)
    (hle : n ≤ m) : Bounded m short r :=
  ⟨Int.le_trans h.bsize (Int.ofNat_le.mpr hle), h.lens⟩

theorem uploadFrom_bounded {h : Headers} {boundary : Str} {r : Handled}
    (hr : uploadFrom env fuel h boundary f rs = some r) :
    Bounded (left f rs)
      (∃ ls, PartLines h.inlineBuf f rs ls ∧ payloadSize h boundary ls < 0) r := by
  unfold uploadFrom at hr
  split at hr
  · cases hr
  · rename_i hparts
    obtain rfl := Option.some.inj hr
    refine bounded_of ?_
    rintro ⟨ls, hls, -⟩
    cases readPartHeaders_of_partLines hls hparts
  · rename_i tsize f₁ rs₁ hparts
    obtain ⟨u, hread, rfl⟩ := Option.map_eq_some_iff.mp hr
    obtain ⟨hbsize, hle, hlens⟩ := readUpload_run (Upload.Ok.init _) hread
    obtain ⟨ls, hls⟩ := partLines_of_readPartHeaders hparts
    have hleft := readPartHeaders_left hparts
    rw [List.length_nil] at hle
    refine ⟨by rw [hbsize]; omega, hlens.trans ?_⟩
    have htsize (ls : List Str) (hls : PartLines h.inlineBuf f rs ls) :
        tsize = Int32.ofNat (partSize ls) := by
      have ht := Option.some.inj (readPartHeaders_of_partLines hls hparts)
      rwa [Int32.zero_add] at ht
    constructor
    · rintro ⟨-, hq⟩ ⟨ls, hls, hneg⟩
      have hq' := hq rfl
      rw [htsize ls hls] at hq'
      exact Int32.not_lt.mpr hq' hneg
    · intro hshort
      refine ⟨fun _ h ↦ absurd h List.not_mem_nil, fun _ ↦ ?_⟩
      rw [htsize ls hls]
      exact Int32.not_lt.mp fun hneg ↦ hshort ⟨ls, hls, hneg⟩

/-- The upload behind the blank line is the only one. -/
theorem endOfHeadersFrom_bounded {h : Headers} {r : Handled}
    (hr : endOfHeadersFrom env fuel h f rs = some r) :
    Bounded (left f rs) (∃ boundary ls, (¬ h.ippreq ∧ h.qsize ≠ 0 ∧ h.rq.method = .post) ∧
      h.rq.boundary = some boundary ∧ PartLines h.inlineBuf f rs ls ∧
        payloadSize h boundary ls < 0) r := by
  unfold endOfHeadersFrom at hr
  split at hr
  · rename_i hpost
    cases hb : h.rq.boundary with
    | none =>
        simp only [hb, formFrom] at hr
        split at hr
        · cases hr
        · obtain rfl := Option.some.inj hr
          refine bounded_of ?_
          rintro ⟨boundary, ls, -, hb', -⟩
          cases hb'
    | some boundary =>
        simp only [hb] at hr
        obtain ⟨hbsize, hlens⟩ := uploadFrom_bounded hr
        refine ⟨hbsize, hlens.trans (not_congr ?_)⟩
        constructor
        · rintro ⟨ls, hls, hneg⟩
          exact ⟨boundary, ls, hpost, rfl, hls, hneg⟩
        · rintro ⟨boundary', ls, -, hb', hls, hneg⟩
          obtain rfl := Option.some.inj hb'
          exact ⟨ls, hls, hneg⟩
  · rename_i hpost
    obtain rfl := Option.some.inj hr
    refine bounded_of ?_
    rintro ⟨boundary, ls, hpost', -⟩
    exact hpost hpost'

/-- The header loop comes to an upload for which too little is announced. -/
def Short (env : HttpEnv ε) (h : Headers) (f : ZotFile) (rs : List Recv) : Prop :=
  ∃ h' boundary ls, UploadHeaders env h f rs h' boundary ls ∧ payloadSize h' boundary ls < 0

theorem headerLoopFrom_bounded {h : Headers} {r : Handled}
    (hr : headerLoopFrom env fuel h f rs = some r) :
    Bounded (left f rs) (Short env h f rs) r := by
  induction fuel generalizing h f rs with
  | zero => cases hr
  | succ fuel ih =>
      unfold headerLoopFrom at hr
      split at hr
      · cases hr
      · rename_i hnull
        obtain rfl := Option.some.inj hr
        refine bounded_of ?_
        rintro ⟨h', boundary, ls, hup, -⟩
        cases hup with
        | blank hcall => simp [hnull] at hcall
        | header hcall => simp [hnull] at hcall
      · rename_i line f₁ rs₁ hcall
        have hleft := zotFgets_left hcall
        simp only at hr
        split at hr
        · rename_i hblank
          obtain ⟨hbsize, hlens⟩ := (endOfHeadersFrom_bounded hr).mono hleft
          refine ⟨hbsize, hlens.trans (not_congr ?_)⟩
          constructor
          · rintro ⟨boundary, ls, hpost, hb, hls, hneg⟩
            exact ⟨_, boundary, ls, .blank hcall hblank hpost hb hls, hneg⟩
          · rintro ⟨h', boundary, ls, hup, hneg⟩
            cases hup with
            | blank hcall' hblank' hpost hb hls =>
                rw [hcall] at hcall'
                obtain ⟨rfl, rfl, rfl⟩ : line = _ ∧ f₁ = _ ∧ rs₁ = _ := by simpa using hcall'
                exact ⟨boundary, ls, hpost, hb, hls, hneg⟩
            | header hcall' hne =>
                rw [hcall] at hcall'
                obtain ⟨rfl, rfl, rfl⟩ : line = _ ∧ f₁ = _ ∧ rs₁ = _ := by simpa using hcall'
                exact absurd hblank hne
        · rename_i hne
          obtain ⟨hbsize, hlens⟩ := (ih hr).mono hleft
          refine ⟨hbsize, hlens.trans (not_congr ?_)⟩
          constructor
          · rintro ⟨h', boundary, ls, hup, hneg⟩
            exact ⟨h', boundary, ls, .header hcall hne hup, hneg⟩
          · rintro ⟨h', boundary, ls, hup, hneg⟩
            cases hup with
            | blank hcall' hblank =>
                rw [hcall] at hcall'
                obtain ⟨rfl, rfl, rfl⟩ : line = _ ∧ f₁ = _ ∧ rs₁ = _ := by simpa using hcall'
                exact absurd hblank hne
            | header hcall' hne' hup =>
                rw [hcall] at hcall'
                obtain ⟨rfl, rfl, rfl⟩ : line = _ ∧ f₁ = _ ∧ rs₁ = _ := by simpa using hcall'
                exact ⟨h', boundary, ls, hup, hneg⟩

/-- A connection brings an upload: the state of the header loop at its blank line, the boundary and
the strings of the part headers. -/
def BringsUpload (env : HttpEnv ε) (behind : Nat → UInt8) (rs : List Recv) (h : Headers)
    (boundary : Str) (ls : List Str) : Prop :=
  ∃ line f rs' rq b hasQuery,
    zotFgets (contents env.heap) hlinelen (zotFopen behind) rs = some (some line, f, rs') ∧
    requestLine env line = (rq, b, hasQuery) ∧
    (rq.method ≠ .unknown ∧ rq.version ≠ 0 ∧ (rq.method = .get ∨ hasQuery = false)) ∧
    UploadHeaders env ⟨rq, false, false, 0, b⟩ f rs' h boundary ls

theorem handles_bounded {r : Handled} (hr : Handles env behind rs r) :
    Bounded (rs.flatMap Recv.bytes).length
      (∃ h boundary ls, BringsUpload env behind rs h boundary ls ∧ payloadSize h boundary ls < 0)
      r := by
  have hopen : left (zotFopen behind) rs = (rs.flatMap Recv.bytes).length := Nat.zero_add _
  obtain ⟨fuel, hr⟩ := hr
  unfold receiveFrom at hr
  split at hr
  · cases hr
  · rename_i hnull
    obtain rfl := Option.some.inj hr
    refine bounded_of ?_
    rintro ⟨h, boundary, ls, ⟨line, f, rs', rq, b, q, hcall, -⟩, -⟩
    rw [hnull] at hcall
    simp at hcall
  · rename_i line f₁ rs₁ hcall
    obtain ⟨rq, b, q, hline⟩ : ∃ rq b q, requestLine env line = (rq, b, q) := ⟨_, _, _, rfl⟩
    simp only [hline] at hr
    -- a second reading of the line is the same
    have hsame {h : Headers} {boundary : Str} {ls : List Str}
        (hb : BringsUpload env behind rs h boundary ls) :
        (rq.method ≠ .unknown ∧ rq.version ≠ 0 ∧ (rq.method = .get ∨ q = false)) ∧
          UploadHeaders env ⟨rq, false, false, 0, b⟩ f₁ rs₁ h boundary ls := by
      obtain ⟨line', f', rs', rq', b', q', hcall', hline', hok, hup⟩ := hb
      rw [hcall] at hcall'
      obtain ⟨rfl, rfl, rfl⟩ : line = line' ∧ f₁ = f' ∧ rs₁ = rs' := by simpa using hcall'
      rw [hline] at hline'
      obtain ⟨rfl, rfl, rfl⟩ : rq = rq' ∧ b = b' ∧ q = q' := by simpa using hline'
      exact ⟨hok, hup⟩
    split at hr
    · rename_i hstop
      obtain rfl := Option.some.inj hr
      refine bounded_of ?_
      rintro ⟨h, boundary, ls, hb, -⟩
      obtain ⟨⟨hm, hv, hq⟩, -⟩ := hsame hb
      rcases hstop with hstop | hstop | hstop | hstop
      · exact hm hstop
      · exact hv hstop.1
      · rcases hq with hget | hq
        · exact hstop.1 hget
        · simp [hq] at hstop
      · exact hv hstop
    · rename_i hgo
      simp only [not_or] at hgo
      obtain ⟨hm, -, hq, hv⟩ := hgo
      have hq' : rq.method = .get ∨ q = false := by
        by_cases hget : rq.method = .get
        · exact .inl hget
        · exact .inr (Bool.eq_false_iff.mpr fun h ↦ hq ⟨hget, h⟩)
      have hbound := (headerLoopFrom_bounded hr).mono (zotFgets_left hcall)
      rw [hopen] at hbound
      refine ⟨hbound.bsize, hbound.lens.trans (not_congr ?_)⟩
      constructor
      · rintro ⟨h, boundary, ls, hup, hneg⟩
        exact ⟨h, boundary, ls, ⟨line, f₁, rs₁, rq, b, q, hcall, hline, ⟨hm, hv, hq'⟩, hup⟩, hneg⟩
      · rintro ⟨h, boundary, ls, hb, hneg⟩
        exact ⟨h, boundary, ls, (hsame hb).2, hneg⟩

/-! ## A well-formed upload -/

/-- The media type `multipart/form-data` with its boundary, quoted or not. -/
def Multipart (contentType boundary : Str) : Prop :=
  ∃ k type gap attr value more,
    contentType = List.replicate k (chr ' ') ++ type ++ gap ++ attr ++ value ++ more ∧
    type.map tolower = bytes "multipart/form-data" ∧
    gap.head? = some (chr ';') ∧ (gap.getLast? = some (chr ';') ∨ gap.getLast? = some (chr ' ')) ∧
    attr.map tolower = bytes "boundary=" ∧
    (value = boundary ∨ value = chr '"' :: boundary ++ [chr '"']) ∧
    (more = [] ∨ more.head? = some (chr ';') ∨ more.head? = some (chr ' '))

/-- The boundary that the header loop takes from a Content-Type. -/
def boundaryText (contentType : Str) : Option Str :=
  ((strstr contentType (bytes "multipart/form-data")).bind fun cp ↦
    strstr (cp.drop 19) (bytes "boundary=")).map fun cp ↦ cp.drop 9

/-- A header of an upload of `n` bytes. -/
structure UploadHeader (contentType : Str) (n : Nat) (l : Str) : Prop where
  colon : chr ':' ∈ l
  contentType : isHeader l "Content-Type:" = true → l.drop 13 = contentType
  contentLength : isHeader l "Content-Length:" = true →
    ∃ k s, l.drop 15 = List.replicate k (chr ' ') ++ s ∧ IsDigits s ∧ decimalValue s = n

/-- An upload with one part, and the request that sends it. -/
structure UploadRequest where
  path : Str
  version : Str
  headers : List Str
  contentType : Str
  boundary : Str
  partHeaders : List Str
  payload : List UInt8
  epilogue : List UInt8

namespace UploadRequest

def requestLine (r : UploadRequest) : Str := requestText (Http.bytes "POST") r.path r.version

def head (r : UploadRequest) : List Str := r.requestLine :: r.headers

/-- The lines in front of the payload. -/
def partLines (r : UploadRequest) : List Str := (Http.bytes "--" ++ r.boundary) :: r.partHeaders

/-- What follows the payload. -/
def closing (r : UploadRequest) : List UInt8 :=
  [0x0D, 0x0A] ++ Http.bytes "--" ++ r.boundary ++ Http.bytes "--" ++ r.epilogue

def body (r : UploadRequest) : List UInt8 := headBytes r.partLines ++ (r.payload ++ r.closing)

def bytes (r : UploadRequest) : List UInt8 := headBytes r.head ++ r.body

structure WellFormed (r : UploadRequest) : Prop where
  path : chr ' ' ∉ r.path ∧ chr '?' ∉ r.path
  plain : ∀ l ∈ r.head ++ r.partLines, ∀ c ∈ l, c ≠ 0 ∧ c ≠ chr '\r' ∧ c ≠ chr '\n'
  headers : ∀ l ∈ r.headers, UploadHeader r.contentType r.body.length l
  length : ∃ l ∈ r.headers, isHeader l "Content-Length:" = true
  type : ∃ l ∈ r.headers, isHeader l "Content-Type:" = true
  multipart : Multipart r.contentType r.boundary
  partHeaders : ∀ l ∈ r.partHeaders, l ≠ []

/-- The lines in front of the payload fit `Inline`, and each of them is in one piece. -/
structure LinesOk (r : UploadRequest) (ps : List Piece) : Prop where
  fits : ∀ l ∈ r.head ++ r.partLines, l.length + 2 ≤ hlinelen
  whole : LinesWhole
    (List.replicate (r.headers.length + 2) hlinelen ++
      List.replicate (r.partLines.length + 1) hlinelen) [] ps

/-- The octets that `httpd` leaves out of Content-Length are those around the payload; `text` is
the boundary that it takes from the Content-Type. -/
def LengthOk (r : UploadRequest) (text : Str) : Prop :=
  announced r.body.length =
    Int32.ofNat (r.payload.length + (text.length + 8) + (headBytes r.partLines).length)

end UploadRequest

/-- The upload is extracted if the Content-Type is not taken for that of IPP, a boundary is found in
it, there is memory, and the lengths agree. -/
def UploadOk (env : HttpEnv ε) (r : UploadRequest) : Prop :=
  env.allocCode2Memory = true ∧ strstr r.contentType (bytes "application/ipp") = none ∧
    ∃ text, boundaryText r.contentType = some text ∧ r.LengthOk text

/-- `ApUpgradeFirmware` is given the payload and its length. -/
def Extracted (env : HttpEnv ε) (behind : Nat → UInt8) (ps : List Piece) (payload : List UInt8) :
    Prop :=
  ∃ rq lens, Handles env behind (ps.map .piece)
      ⟨.upload rq false payload, lens, Int32.ofNat payload.length⟩ ∧ ∀ len ∈ lens, 0 ≤ len

theorem answer_upload (env : HttpEnv ε) (box : Box ε) (rq : ReqInfo) (data : List UInt8) :
    (answer env box (.upload rq false data)).head? = some (.apUpgradeFirmware data, box) := rfl

namespace UploadRequest

variable {r : UploadRequest} {text : Str}

/-- In a body of less than two gigabytes the lengths agree if and only if what follows the closing
boundary makes up for what precedes it. -/
theorem lengthOk_iff (hr : r.body.length < 2147483648) (ht : text.length ≤ hlinelen) :
    r.LengthOk text ↔ text.length + 2 = r.boundary.length + r.epilogue.length := by
  have hbody : r.body.length = (headBytes r.partLines).length + (r.payload.length +
      (6 + r.boundary.length + r.epilogue.length)) := by
    simp only [body, closing, List.length_append]
    have htwo : (Http.bytes "--").length = 2 := rfl
    have hcrlf : [(0x0D : UInt8), 0x0A].length = 2 := rfl
    omega
  have hline : hlinelen = 896 := rfl
  have hann : announced r.body.length = Int32.ofNat r.body.length := by
    unfold announced
    rw [Int.min_eq_right (by omega), Int32.ofInt_eq_ofNat]
  unfold LengthOk
  rw [hann]
  constructor
  · intro h
    have hint := congrArg (fun x : Int32 ↦ x.toInt % Int32.size) h
    simp only [Int32.toInt_ofNat', Int.bmod_emod] at hint
    have hsize : Int32.size = 4294967296 := rfl
    rw [hsize] at hint
    omega
  · intro h
    congr 1
    omega

/-! ### The headers -/

theorem prefix_of_strnicmp {s pat : Str} (h : strnicmp s pat pat.length = 0)
    (hle : pat.length ≤ s.length) : pat.map tolower <+: s.map tolower := by
  induction pat generalizing s with
  | nil => exact List.nil_prefix
  | cons d pat ih =>
      cases s with
      | nil => cases hle
      | cons c s =>
          simp only [List.length_cons, strnicmp] at h
          split at h
          · rename_i hcd
            rw [List.map_cons, List.map_cons, hcd]
            exact (List.prefix_cons_inj _).mpr (ih h (Nat.le_of_succ_le_succ hle))
          · split at h <;> cases h

/-- A header has one name. -/
theorem isHeader_exclusive {l : Str} (hl : Text b l) (hcolon : chr ':' ∈ l) {name name' : String}
    (hname : chr ':' ∉ (Http.bytes name).dropLast.map tolower)
    (hname' : chr ':' ∉ (Http.bytes name').dropLast.map tolower)
    (hne : ¬ (Http.bytes name).map tolower <+: (Http.bytes name').map tolower ∧
      ¬ (Http.bytes name').map tolower <+: (Http.bytes name).map tolower)
    (h : isHeader b name' = true) : isHeader b name = false := by
  have hfront {name : String} (hname : chr ':' ∉ (Http.bytes name).dropLast.map tolower)
      (h : isHeader b name = true) : (Http.bytes name).map tolower <+: l.map tolower := by
    have hle := length_le_of_isHeader hl hcolon hname h
    unfold isHeader at h
    rw [hl.cstr_zero, decide_eq_true_iff] at h
    exact prefix_of_strnicmp h hle
  rw [Bool.eq_false_iff]
  intro h'
  rcases List.prefix_or_prefix_of_prefix (hfront hname h') (hfront hname' h) with hp | hp
  · exact hne.1 hp
  · exact hne.2 hp

/-- The state of the header loop: whether the length and the type have been read. -/
structure State (r : UploadRequest) (length type : Bool) (h : Headers) : Prop where
  method : h.rq.method = .post
  qsize : length = true → h.qsize = announced r.body.length
  ippreq : type = true →
    h.ippreq = (strstr r.contentType (Http.bytes "application/ipp")).isSome
  boundary : h.rq.boundary = if type then boundaryText r.contentType else none

theorem State.ite {length type : Bool} {c : Prop} [Decidable c] {h h' : Headers}
    (hpos : c → State r length type h) (hneg : ¬ c → State r length type h') :
    State r length type (if c then h else h') := by
  split
  · exact hpos ‹_›
  · exact hneg ‹_›

theorem State.headerLine {length type : Bool} {h : Headers} {l : Str}
    (hst : State r length type h) (hl : UploadHeader r.contentType r.body.length l)
    (ht : Text h.inlineBuf l) :
    State r (length || isHeader l "Content-Length:") (type || isHeader l "Content-Type:")
      (headerLine env h) := by
  obtain ⟨hm, hq, hi, hb⟩ := hst
  rw [← isHeader_text ht, ← isHeader_text ht]
  by_cases hct : isHeader h.inlineBuf "Content-Type:" = true
  · have hnot (name : String) (hname : chr ':' ∉ (Http.bytes name).dropLast.map tolower)
        (hne : ¬ (Http.bytes name).map tolower <+: (Http.bytes "Content-Type:").map tolower ∧
          ¬ (Http.bytes "Content-Type:").map tolower <+: (Http.bytes name).map tolower) :
        isHeader h.inlineBuf name = false :=
      isHeader_exclusive ht hl.colon hname (by decide) hne hct
    have hdrop : cstr h.inlineBuf 13 = r.contentType := by
      have hlen13 : 13 ≤ l.length := length_le_of_isHeader ht hl.colon (by decide) hct
      rw [ht.cstr_eq hlen13]
      exact hl.contentType (by rwa [isHeader_text ht] at hct)
    have hlen : isHeader h.inlineBuf "Content-Length:" = false := hnot _ (by decide) (by decide)
    rw [hct, hlen, Bool.or_true, Bool.or_false]
    unfold Http.headerLine
    simp only [hlen, hct, hdrop, hnot "If-Modified-Since:" (by decide) (by decide),
      hnot "From:" (by decide) (by decide),
      hnot "Referer:" (by decide) (by decide),
      hnot "User-Agent:" (by decide) (by decide),
      hnot "Authorization:" (by decide) (by decide), Bool.false_eq_true, if_false,
      if_true]
    have hold : h.rq.boundary = none ∨ h.rq.boundary = boundaryText r.contentType := by
      rw [hb]
      cases type with
      | false => exact .inl rfl
      | true => exact .inr rfl
    cases hfound : (strstr r.contentType (Http.bytes "multipart/form-data")).bind
        fun cp ↦ strstr (cp.drop 19) (Http.bytes "boundary=") with
    | none =>
        have htext : boundaryText r.contentType = none := by
          unfold boundaryText
          rw [hfound]
          rfl
        rw [htext, or_self] at hold
        exact ⟨hm, hq, fun _ ↦ rfl, by rw [if_pos rfl, htext]; exact hold⟩
    | some cp =>
        have htext : boundaryText r.contentType = some (cp.drop 9) := by
          unfold boundaryText
          rw [hfound]
          rfl
        exact ⟨hm, hq, fun _ ↦ rfl, by rw [if_pos rfl, htext]⟩
  · rw [Bool.eq_false_iff.mpr hct, Bool.or_false]
    by_cases hcl : isHeader h.inlineBuf "Content-Length:" = true
    · rw [hcl, Bool.or_true]
      unfold Http.headerLine
      rw [if_pos hcl]
      refine ⟨hm, fun _ ↦ ?_, hi, hb⟩
      obtain ⟨k, s, htext, hs, hvalue⟩ := hl.contentLength (by rwa [isHeader_text ht] at hcl)
      have hlen15 : 15 ≤ l.length := length_le_of_isHeader ht hl.colon (by decide) hcl
      change atol (cstr h.inlineBuf 15) = _
      rw [ht.cstr_eq hlen15, htext, atol_blanks hs, hvalue]
      rfl
    · rw [Bool.eq_false_iff.mpr hcl, Bool.or_false]
      unfold Http.headerLine
      rw [if_neg hcl]
      refine .ite (fun _ ↦ ⟨hm, hq, hi, hb⟩) fun _ ↦ ?_
      refine .ite (fun _ ↦ ⟨hm, hq, hi, hb⟩) fun _ ↦ ?_
      refine .ite (fun _ ↦ ⟨hm, hq, hi, hb⟩) fun _ ↦ ?_
      refine .ite (fun _ ↦ ⟨hm, hq, hi, hb⟩) fun _ ↦ ?_
      refine .ite (fun _ ↦ ⟨hm, hq, hi, hb⟩) fun _ ↦ ?_
      rw [if_neg hct]
      exact .ite (fun _ ↦ ⟨hm, hq, hi, hb⟩) fun _ ↦ ⟨hm, hq, hi, hb⟩

theorem State.headersAfter {ls : List Str} {length type : Bool} {h : Headers}
    (hst : State r length type h)
    (hls : ∀ l ∈ ls, HeadLine l ∧ UploadHeader r.contentType r.body.length l) :
    State r (length || ls.any (isHeader · "Content-Length:"))
      (type || ls.any (isHeader · "Content-Type:")) (headersAfter env h ls) := by
  induction ls generalizing length type h with
  | nil =>
      rw [List.any_nil, List.any_nil, Bool.or_false, Bool.or_false]
      exact ⟨hst.method, hst.qsize, hst.ippreq, hst.boundary⟩
  | cons l ls ih =>
      obtain ⟨⟨hline, hl⟩, hrest⟩ := List.forall_mem_cons.mp hls
      have hst' : State r length type
          { h with inlineBuf := rip (store (l ++ [chr '\n']) h.inlineBuf) } :=
        ⟨hst.method, hst.qsize, hst.ippreq, hst.boundary⟩
      rw [List.any_cons, List.any_cons, ← Bool.or_assoc, ← Bool.or_assoc]
      exact ih (hst'.headerLine hl (text_rip_line hline _)) hrest

/-! ### The part headers -/

/-- The string of a line, with its line feed. -/
theorem length_cstr_line {l : Str} (hl : HeadLine l) (b : List UInt8) :
    (cstr (store (l ++ [chr '\n']) b) 0).length = l.length + 1 := by
  have hnul : 0 ∉ l ++ [chr '\n'] := by
    intro h
    rcases List.mem_append.mp h with h | h
    · exact (hl.plain 0 h).1 rfl
    · cases List.mem_singleton.mp h
  rw [(text_store hnul b).cstr_zero, List.length_append]
  rfl

theorem readPartHeaders_lines {ls : List Str} (hls : ∀ l ∈ ls, HeadLine l ∧ l ≠ [])
    (buf : List UInt8) (tsize : Int32) {s : List UInt8} (hh : Holds f rs b ps)
    (hb : b.length ≤ ibufSize) (hs : stream b ps = headBytes ls ++ s)
    (hwhole : LinesWhole (List.replicate (ls.length + 1) hlinelen) b ps) :
    ∃ f' rs' b' ps', (∀ fuel, readPartHeaders (fuel + (ls.length + 1)) buf tsize f rs =
        some (some (tsize + Int32.ofNat (headBytes ls).length), f', rs')) ∧
      Holds f' rs' b' ps' ∧ stream b' ps' = s := by
  induction ls generalizing buf tsize f rs b ps with
  | nil =>
      have hblank : HeadLine [] := ⟨by decide, fun _ hc ↦ by cases hc⟩
      obtain ⟨f', rs', b', ps', hcall, hh', -, hs', -⟩ :=
        zotFgets_headLine (contents buf) hblank hh hb hs hwhole
      refine ⟨f', rs', b', ps', fun fuel ↦ ?_, hh', hs'⟩
      have hempty := (text_rip_line hblank buf).cstr_zero
      have hlen := length_cstr_line hblank buf
      rw [List.nil_append] at hcall hempty hlen
      change readPartHeaders (fuel + 1) buf tsize f rs = _
      unfold readPartHeaders
      simp only [hcall, hempty, if_true, hlen]
      rw [Int32.add_assoc]
      rfl
  | cons l ls ih =>
      obtain ⟨⟨hl, hne⟩, hrest⟩ := List.forall_mem_cons.mp hls
      have hs₁ : stream b ps = l ++ 0x0D :: 0x0A :: (headBytes ls ++ s) := by
        rw [hs]
        simp [headBytes]
      obtain ⟨f₁, rs₁, b₁, ps₁, hcall, hh₁, hb₁, hs₁, hwhole₁⟩ :=
        zotFgets_headLine (contents buf) hl hh hb hs₁ hwhole
      obtain ⟨f', rs', b', ps', hloop, hh', hs'⟩ := ih hrest
        (rip (store (l ++ [chr '\n']) buf)) (tsize + Int32.ofNat (l.length + 1) + 1)
        hh₁ hb₁ hs₁ ((hwhole₁ _).mp hwhole)
      refine ⟨f', rs', b', ps', fun fuel ↦ ?_, hh', hs'⟩
      have htext := (text_rip_line hl buf).cstr_zero
      have hsum : tsize + Int32.ofNat (l.length + 1) + 1 + Int32.ofNat (headBytes ls).length =
          tsize + Int32.ofNat (headBytes (l :: ls)).length := by
        have hlen : (headBytes (l :: ls)).length = l.length + 1 + 1 + (headBytes ls).length := by
          simp [headBytes]
          omega
        rw [hlen]
        simp only [Int32.ofNat_add, Int32.add_assoc]
        rfl
      change readPartHeaders (fuel + (ls.length + 1) + 1) buf tsize f rs = _
      conv_lhs => unfold readPartHeaders
      simp only [hcall, htext, if_neg hne, length_cstr_line hl]
      rw [← hsum]
      exact hloop fuel

/-! ### The whole request -/

/-- The head of the request is read. -/
theorem receiveFrom_head (hr : r.WellFormed) (hps : ps.flatMap Piece.bytes = r.bytes)
    (hlines : r.LinesOk ps) :
    ∃ h f rs b ps', (∀ fuel, receiveFrom env (fuel + (r.headers.length + 1)) (zotFopen behind)
        (ps.map .piece) = endOfHeadersFrom env fuel h f rs) ∧
      State r true true h ∧ Holds f rs b ps' ∧ b.length ≤ ibufSize ∧ stream b ps' = r.body ∧
      LinesWhole (List.replicate (r.partLines.length + 1) hlinelen) b ps' := by
  have hline (l : Str) (hl : l ∈ r.head ++ r.partLines) : HeadLine l :=
    ⟨hlines.fits l hl, hr.plain l hl⟩
  have hmem (l : Str) (hl : l ∈ r.headers) : l ∈ r.head ++ r.partLines :=
    List.mem_append_left _ (List.mem_cons_of_mem _ hl)
  have hs : stream [] ps = r.requestLine ++ 0x0D :: 0x0A :: (headBytes r.headers ++ r.body) := by
    change ps.flatMap Piece.bytes = _
    rw [hps]
    simp [bytes, headBytes, head]
  have htext : r.requestLine = requestText (formMethod true)
      (r.path ++ if false = true then chr '?' :: [] else []) r.version := by
    simp [requestLine, formMethod]
  have hfirst : HeadLine r.requestLine := hline _ (List.mem_append_left _ List.mem_cons_self)
  have hwhole : LinesWhole (hlinelen :: (List.replicate (r.headers.length + 1) hlinelen ++
      List.replicate (r.partLines.length + 1) hlinelen)) [] ps := hlines.whole
  obtain ⟨f₁, rs₁, b₁, ps₁, hcall, hh₁, hb₁, hs₁, hwhole₁⟩ :=
    zotFgets_headLine (contents env.heap) hfirst (holds_zotFopen behind ps) (Nat.zero_le _) hs
      hwhole
  obtain ⟨url, buf, hrequest⟩ := @requestLine_text _ env true _ _ _ false hr.path
    List.not_mem_nil (htext ▸ hfirst)
  rw [← htext] at hrequest
  generalize hrq : ReqInfo.mk _ _ _ _ _ _ _ _ _ _ = rq at hrequest
  have hheaders : ∀ l ∈ r.headers, HeadLine l ∧ l ≠ [] := fun l hl ↦
    ⟨hline l (hmem l hl), List.ne_nil_of_mem (hr.headers l hl).colon⟩
  have hwhole' := (hwhole₁ _).mp hwhole
  obtain ⟨f, rs, b, ps', hloop, hh, hb, hs', hwhole₂⟩ :=
    headerLoopFrom_headers env hheaders ⟨rq, false, false, 0, buf⟩ hh₁ hb₁ hs₁
      hwhole'.of_append
  have hst : State r false false ⟨rq, false, false, 0, buf⟩ :=
    ⟨by rw [← hrq]; rfl, fun h ↦ absurd h Bool.false_ne_true,
      fun h ↦ absurd h Bool.false_ne_true, by rw [← hrq]; rfl⟩
  have hst' := @State.headersAfter _ env _ r.headers _ _ _ hst fun l hl ↦
    ⟨hline l (hmem l hl), hr.headers l hl⟩
  have hlen : r.headers.any (isHeader · "Content-Length:") = true := by
    obtain ⟨l, hl, hcl⟩ := hr.length
    exact List.any_eq_true.mpr ⟨l, hl, hcl⟩
  have htype : r.headers.any (isHeader · "Content-Type:") = true := by
    obtain ⟨l, hl, hct⟩ := hr.type
    exact List.any_eq_true.mpr ⟨l, hl, hct⟩
  rw [hlen, htype] at hst'
  refine ⟨_, f, rs, b, ps', fun fuel ↦ ?_, hst', hh, hb, hs', (hwhole₂ _).mp hwhole'⟩
  rw [receiveFrom_line hcall hrequest (by rw [← hrq]; simp) (by rw [← hrq]; simp) (.inr rfl)]
  exact hloop fuel

theorem announced_ne_zero (r : UploadRequest) : announced r.body.length ≠ 0 := by
  intro h
  have hpos : 0 < r.body.length := by
    unfold body headBytes
    simp only [List.length_append, List.length_cons]
    omega
  have hint := toInt_announced r.body.length
  rw [h, Int32.toInt_zero] at hint
  omega

/-- What the handler leaves for the payload is its length. -/
theorem lengthOk_iff_left : r.LengthOk text ↔
    announced r.body.length - Int32.ofNat (text.length + 8) -
      Int32.ofNat (headBytes r.partLines).length = Int32.ofNat r.payload.length := by
  unfold LengthOk
  rw [Int32.sub_eq_iff_eq_add, Int32.sub_eq_iff_eq_add, Int32.ofNat_add, Int32.ofNat_add,
    Int32.add_assoc, Int32.add_comm (Int32.ofNat (text.length + 8)), ← Int32.add_assoc]

/-- A request that is not taken for an upload. -/
theorem endOfHeadersFrom_no_upload {h : Headers} {rd : Handled}
    (hno : h.ippreq = true ∨ h.rq.boundary = none)
    (hr : endOfHeadersFrom env fuel h f rs = some rd) (rq : ReqInfo) (reject : Bool)
    (data : List UInt8) : rd.received ≠ .upload rq reject data := by
  obtain ⟨lines, body, heq⟩ := endOfHeaders_of_from hr
  rw [← heq]
  unfold endOfHeaders
  by_cases hipp : h.ippreq = true
  · rw [if_pos hipp]
    split_ifs <;> exact fun h ↦ by cases h
  · rw [if_neg hipp, hno.resolve_left hipp]
    cases lines with
    | nil => split <;> exact fun h ↦ by cases h
    | cons line lines => split <;> exact fun h ↦ by cases h

/-- The upload of a request whose lines are read. -/
theorem uploadFrom_lines {h : Headers} (hst : State r true true h)
    (hplain : ∀ l ∈ r.partLines, HeadLine l ∧ l ≠ []) (hh : Holds f rs b ps)
    (hb : b.length ≤ ibufSize) (hs : stream b ps = r.body)
    (hwhole : LinesWhole (List.replicate (r.partLines.length + 1) hlinelen) b ps) :
    ∃ f' rs' b' ps', Holds f' rs' b' ps' ∧ stream b' ps' = r.payload ++ r.closing ∧
      ∀ fuel, uploadFrom env (fuel + (r.partLines.length + 1)) h text f rs =
        (readUpload (announced r.body.length - Int32.ofNat (text.length + 8) -
            Int32.ofNat (headBytes r.partLines).length) (fuel + (r.partLines.length + 1))
          ⟨[], 0, []⟩ f' rs').map fun u ↦
          ⟨.upload h.rq (!env.allocCode2Memory || announced r.body.length -
              Int32.ofNat (text.length + 8) - Int32.ofNat (headBytes r.partLines).length >
                code2MaxSize * upgradeBlockSize) u.temp, u.lens, u.bsize⟩ := by
  obtain ⟨f', rs', b', ps', hparts, hh', hs'⟩ :=
    readPartHeaders_lines hplain h.inlineBuf 0 hh hb hs hwhole
  refine ⟨f', rs', b', ps', hh', hs', fun fuel ↦ ?_⟩
  unfold uploadFrom
  simp only [hparts, hst.qsize rfl, Int32.zero_add]

/-- A well-formed upload whose lines are read is extracted if and only if `UploadOk`. -/
theorem extracted_iff (hr : r.WellFormed) (hps : ps.flatMap Piece.bytes = r.bytes)
    (hlines : r.LinesOk ps) (hsize : r.payload.length ≤ upgradeMaxsize) :
    Extracted env behind ps r.payload ↔ UploadOk env r := by
  obtain ⟨h, f, rs, b, ps', hrun, hst, hh, hb, hs, hwhole⟩ :=
    @receiveFrom_head _ env _ behind _ hr hps hlines
  have hplain : ∀ l ∈ r.partLines, HeadLine l ∧ l ≠ [] := fun l hl ↦
    ⟨⟨hlines.fits l (List.mem_append_right _ hl), hr.plain l (List.mem_append_right _ hl)⟩, by
      rcases List.mem_cons.mp hl with rfl | hl
      · exact fun h ↦ by cases h
      · exact hr.partHeaders l hl⟩
  have hipp := hst.ippreq rfl
  have hbound : h.rq.boundary = boundaryText r.contentType := hst.boundary
  have hmax : upgradeMaxsize = 786432 := rfl
  have hpost : h.qsize ≠ 0 ∧ h.rq.method = .post :=
    ⟨by rw [hst.qsize rfl]; exact r.announced_ne_zero, hst.method⟩
  constructor
  · rintro ⟨rq, lens, ⟨fuel, hrd⟩, hnonneg⟩
    have hrd' := receiveFrom_mono
      (m := fuel + (r.partLines.length + 1) + (r.headers.length + 1)) (by omega) hrd
    rw [hrun] at hrd'
    -- a print job, or a request without a boundary, extracts nothing
    have hno (hno : h.ippreq = true ∨ h.rq.boundary = none) : False :=
      endOfHeadersFrom_no_upload hno hrd' _ _ _ rfl
    have hipp' : h.ippreq = false := Bool.eq_false_iff.mpr fun hi ↦ hno (.inl hi)
    cases htext : h.rq.boundary with
    | none => exact (hno (.inr htext)).elim
    | some text =>
        obtain ⟨f', rs', b', ps'', hh', hs', hup⟩ :=
          @uploadFrom_lines _ env _ _ _ _ _ text _ hst hplain hh hb hs hwhole
        rw [endOfHeadersFrom, if_pos ⟨by simp [hipp'], hpost⟩] at hrd'
        simp only [htext, hup] at hrd'
        generalize hq : announced r.body.length - Int32.ofNat (text.length + 8) -
          Int32.ofNat (headBytes r.partLines).length = qsize at hrd'
        obtain ⟨u, hread, hu⟩ := Option.map_eq_some_iff.mp hrd'
        obtain ⟨⟨-, hrej, hdata⟩, rfl, hbsize⟩ : (h.rq = rq ∧
            (!env.allocCode2Memory || decide (qsize > code2MaxSize * upgradeBlockSize)) = false ∧
            u.temp = r.payload) ∧ u.lens = lens ∧ u.bsize = Int32.ofNat r.payload.length := by
          simpa using hu
        obtain ⟨-, -, hlens⟩ := readUpload_run (Upload.Ok.init qsize) hread
        have hq0 : 0 ≤ qsize := (hlens.mp hnonneg).2 rfl
        -- the loop copies as much as the header says, so what it says is the length of the payload
        have hend := readUpload_end (Upload.Ok.init qsize)
          (by simpa [Int32.le_iff_toInt_le] using hq0) hh' hread
        rw [hdata] at hend
        have hqsize : qsize = Int32.ofNat r.payload.length := by
          rw [← Int32.toInt_inj, Int32.toInt_ofNat_of_lt (by omega)]
          omega
        refine ⟨?_, ?_, text, by rw [← hbound, htext], ?_⟩
        · simpa using (Bool.or_eq_false_iff.mp hrej).1
        · rw [hipp'] at hipp
          exact Option.not_isSome_iff_eq_none.mp (by rw [← hipp]; exact Bool.false_ne_true)
        · rw [lengthOk_iff_left, hq, hqsize]
  · rintro ⟨halloc, hnoipp, text, htext, hlen⟩
    obtain ⟨f', rs', b', ps'', hh', hs', hup⟩ :=
      @uploadFrom_lines _ env _ _ _ _ _ text _ hst hplain hh hb hs hwhole
    rw [lengthOk_iff_left] at hlen
    rw [hlen] at hup
    have hint : (Int32.ofNat r.payload.length).toInt = r.payload.length :=
      Int32.toInt_ofNat_of_lt (by omega)
    -- the body goes on behind the payload, and the loop ends by its length
    have hclosing : r.payload ++ r.closing ≠ [] := by
      simp [closing]
    obtain ⟨fuel, u, hread, htemp⟩ := readUpload_stream (Upload.Ok.init _) hint hsize
      (Nat.zero_le _) hh' (by rwa [hs']) (by rw [hs', List.length_append]; omega)
    rw [hs'] at htemp
    have hpayload : u.temp = r.payload := by
      rw [htemp]
      exact List.take_left
    obtain ⟨hbsize, -, hlens⟩ := readUpload_run (Upload.Ok.init _) hread
    have hbsize' : u.bsize = Int32.ofNat r.payload.length := by
      rw [← Int32.toInt_inj, hbsize, hpayload, hint]
    have hreject : (!env.allocCode2Memory ||
        decide (Int32.ofNat r.payload.length > code2MaxSize * upgradeBlockSize)) = false := by
      rw [halloc, Bool.not_true, Bool.false_or, decide_eq_false_iff_not, gt_iff_lt,
        Int32.lt_iff_toInt_lt, toInt_upgradeMaxsize, hint]
      omega
    refine ⟨h.rq, u.lens, ⟨fuel + (r.partLines.length + 1) + (r.headers.length + 1), ?_⟩,
      hlens.mpr ⟨fun _ h ↦ absurd h List.not_mem_nil, fun _ ↦ ?_⟩⟩
    · rw [hrun, endOfHeadersFrom, if_pos ⟨by rw [hipp, hnoipp]; simp, hpost⟩]
      simp only [hbound, htext, hup, readUpload_mono (Nat.le_add_right _ _) hread, hreject,
        Option.map_some, hpayload, hbsize']
    · rw [Int32.le_iff_toInt_le, hint, Int32.toInt_zero]
      exact Int.natCast_nonneg _

end UploadRequest

/-- Where the lines in front of the payload are read whole, an upload is extracted if and only if
`UploadOk`.  On any connection no more is handed on than was received, and `zot_recv` is called with
a negative length if and only if less is announced than the octets that are left out. -/
theorem upload_extracted_iff (env : HttpEnv ε) (behind : Nat → UInt8) :
    (∀ (r : UploadRequest) (ps : List Piece), r.WellFormed → ps.flatMap Piece.bytes = r.bytes →
      r.LinesOk ps → r.payload.length ≤ upgradeMaxsize →
      (Extracted env behind ps r.payload ↔ UploadOk env r)) ∧
    ∀ (rs : List Recv) (r : Handled), Handles env behind rs r →
      r.bsize.toInt ≤ (rs.flatMap Recv.bytes).length ∧
      ((∀ len ∈ r.recvLens, 0 ≤ len) ↔
        ∀ h boundary ls, BringsUpload env behind rs h boundary ls →
          0 ≤ payloadSize h boundary ls) := by
  refine ⟨fun r ps hr hps hlines hsize ↦ UploadRequest.extracted_iff hr hps hlines hsize,
    fun rs r hr ↦ ?_⟩
  obtain ⟨hbsize, hlens⟩ := handles_bounded hr
  refine ⟨hbsize, hlens.trans ?_⟩
  constructor
  · intro hshort h boundary ls hb
    exact Int32.not_lt.mp fun hneg ↦ hshort ⟨h, boundary, ls, hb, hneg⟩
  · rintro hall ⟨h, boundary, ls, hb, hneg⟩
    exact Int32.not_lt.mpr (hall h boundary ls hb) hneg

/-- A firmware of three bytes. -/
def sampleUpload : UploadRequest where
  path := []
  version := bytes "0"
  headers := [bytes "Content-Type:multipart/form-data;boundary=B", bytes "Content-Length:24"]
  contentType := bytes "multipart/form-data;boundary=B"
  boundary := bytes "B"
  partHeaders := [bytes "N:x"]
  payload := [1, 2, 3]
  epilogue := [0x0D, 0x0A]

theorem sampleUpload_wellFormed : sampleUpload.WellFormed where
  path := by decide +kernel
  plain := by decide +kernel
  headers := by
    intro l hl
    rcases List.mem_cons.mp hl with rfl | hl
    · exact ⟨by decide +kernel, fun _ ↦ by decide +kernel, fun h ↦ absurd h (by decide +kernel)⟩
    · obtain rfl := List.mem_singleton.mp hl
      exact ⟨by decide +kernel, fun h ↦ absurd h (by decide +kernel),
        fun _ ↦ ⟨0, bytes "24", by decide +kernel, ⟨by decide +kernel, by decide +kernel⟩,
          by decide +kernel⟩⟩
  length := ⟨_, List.mem_cons_of_mem _ List.mem_cons_self, by decide +kernel⟩
  type := ⟨_, List.mem_cons_self, by decide +kernel⟩
  multipart := ⟨0, bytes "multipart/form-data", bytes ";", bytes "boundary=", bytes "B", [],
    by decide +kernel, by decide +kernel, by decide +kernel, by decide +kernel, by decide +kernel,
    .inl rfl, .inl rfl⟩
  partHeaders := by decide +kernel

theorem upload_extracted_one_piece :
    Extracted sampleEnv (fun _ ↦ 0) [⟨sampleUpload.bytes, by decide, by decide⟩] [1, 2, 3] :=
  ((upload_extracted_iff sampleEnv fun _ ↦ 0).1 sampleUpload _ sampleUpload_wellFormed (by simp)
    ⟨by decide, by decide⟩ (by decide)).mpr
    ⟨rfl, by decide +kernel, bytes "B", by decide +kernel,
      (UploadRequest.lengthOk_iff (by decide) (by decide)).mpr (by decide)⟩

/-- The same request, cut behind the first letter of the part header. -/
def cutUpload : List Piece :=
  [⟨headBytes sampleUpload.head ++ bytes "--B" ++ [0x0D, 0x0A] ++ bytes "N", by decide, by decide⟩,
    ⟨bytes ":x" ++ [0x0D, 0x0A, 0x0D, 0x0A] ++ sampleUpload.payload ++ sampleUpload.closing,
      by decide, by decide⟩]

/-- The part header counts for one octet too many, and the last byte of the firmware is lost. -/
theorem cut_upload_not_extracted :
    sampleUpload.WellFormed ∧ cutUpload.flatMap Piece.bytes = sampleUpload.bytes ∧
      ¬ Extracted sampleEnv (fun _ ↦ 0) cutUpload sampleUpload.payload := by
  refine ⟨sampleUpload_wellFormed, by decide +kernel, ?_⟩
  rintro ⟨rq, lens, hr, -⟩
  have hbsize : (receiveFrom sampleEnv 9 (zotFopen fun _ ↦ 0) (cutUpload.map .piece)).map
      Handled.bsize = some 2 := by decide +kernel
  obtain ⟨r, hrun, hr2⟩ := Option.map_eq_some_iff.mp hbsize
  have heq : (3 : Int32) = r.bsize := congrArg Handled.bsize (hr.unique ⟨9, hrun⟩)
  rw [hr2] at heq
  exact absurd heq (by decide)

end PrintServer.Http
