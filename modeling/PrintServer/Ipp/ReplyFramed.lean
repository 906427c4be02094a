import PrintServer.Ipp.Reply

/-!
# The framing of the responses of ippd

The length in the header of a response is that of the body, and the response is put together inside
its buffer, if and only if the language that the client has chosen leaves room for it: the buffer
has 512 bytes, or those of the greater one of two groups that the language is no part of.
-/

namespace PrintServer.Ipp

open Http (Str bytes chr)

/-! ## The property -/

/-- The length that was sent is that of the body, if no send fails, and all writes lie inside the
buffer. -/
structure Sent.Framed (obj : IppReply) (s : Sent) : Prop where
  counted : s.complete = true →
    ∃ header, s.lines = header ++ [contentLength s.body.flatten.length, crlf]
  inside : ∀ w ∈ s.writes, 0 ≤ w.1 ∧ w.1 + w.2 ≤ obj.maxBufSize

/-- The length of the language, as an `int16`. -/
def IppReply.languageLen (obj : IppReply) : Int :=
  (Int16.ofNat (obj.language.getD ippDefaultLanguage).length).toInt

/-- The operation group is no longer than an `int16` can say, and fits behind offset 80. -/
def IppReply.Fits (obj : IppReply) : Prop :=
  let size := 64 + (obj.charset.getD ippDefaultCharset).length + obj.languageLen
  0 ≤ obj.languageLen ∧ size ≤ 32767 ∧ 80 + size ≤ obj.maxBufSize

/-! ## Groups -/

variable {obj : IppReply} {b : RespBuf} {pf : IppBuf} {r : Request}

@[simp] theorem data_ippAppend (data : List UInt8) :
    (ippAppend pf data).data = pf.data ++ data := by
  unfold ippAppend
  split
  · rfl
  · rfl

/-- A group has what was appended to it. -/
theorem data_appends (pieces : List (List UInt8)) :
    (pieces.foldl ippAppend pf).data = pf.data ++ pieces.flatten := by
  induction pieces generalizing pf with
  | nil => exact (List.append_nil _).symm
  | cons data pieces ih => rw [List.foldl_cons, ih, data_ippAppend, List.append_assoc,
      List.flatten_cons]

/-- As much is sent of a group as its size in a `uint16` says. -/
theorem length_take_pfBufsiz : (pf.data.take (pfBufsiz pf).toNat).length = (pfBufsiz pf).toNat := by
  apply List.length_take_of_le
  rw [pfBufsiz, UInt16.toNat_ofNat']
  exact Nat.mod_le _ _

theorem respGroupSize_cases (obj : IppReply) :
    obj.respGroupSize = 0 ∨ obj.respGroupSize = pfBufsiz obj.respGroup := by
  unfold IppReply.respGroupSize
  split
  · split
    · exact .inl rfl
    · exact .inr rfl
  · exact .inl rfl

theorem length_take_respGroupSize (obj : IppReply) :
    (obj.respGroup.data.take obj.respGroupSize.toNat).length = obj.respGroupSize.toNat := by
  rcases respGroupSize_cases obj with h | h
  · rw [h]
    rfl
  · rw [h]
    exact length_take_pfBufsiz

theorem maxBufSize_bounds (obj : IppReply) : 512 ≤ obj.maxBufSize ∧ obj.maxBufSize < 65536 := by
  have hun := (pfBufsiz obj.unSupportGroup).toNat_lt
  have hresp := obj.respGroupSize.toNat_lt
  unfold IppReply.maxBufSize
  omega

/-! ## Charset -/

/-- The charset of a request is one of the two that are compared with. -/
theorem texts_charset (r : Request) :
    r.texts.1 = none ∨ r.texts.1 = some ippDefaultCharset ∨
      r.texts.1 = some ippSecondCharset := by
  unfold Request.texts
  split
  · exact .inl rfl
  · split
    · split
      · rename_i h
        split
        · exact .inr h.2.2
        · exact .inr h.2.2
      · exact .inl rfl
    · exact .inl rfl

theorem length_charset (h : obj.charset = none ∨ obj.charset = some ippDefaultCharset ∨
      obj.charset = some ippSecondCharset) :
    (obj.charset.getD ippDefaultCharset).length = 5 ∨
      (obj.charset.getD ippDefaultCharset).length = 8 := by
  rcases h with h | h | h
  · rw [h]
    exact .inl (by decide)
  · rw [h]
    exact .inl (by decide)
  · rw [h]
    exact .inr (by decide)

/-! ## Writes -/

@[simp] theorem writes_copy (o : Int) (src : Nat → UInt8) (n : Nat) :
    (b.copy o src n).writes = b.writes ++ [(o, n)] := rfl

@[simp] theorem writes_put (o : Int) (bs : List UInt8) :
    (b.put o bs).writes = b.writes ++ [(o, bs.length)] := rfl

@[simp] theorem writes_text (o : Int) (text : Str) (len : Int16) :
    (b.text o text len).writes = b.writes ++ [(o, sizeT len.toInt)] := rfl

@[simp] theorem writes_print (line : Str) :
    (b.print line).writes = b.writes ++ [(0, line.length + 1)] := by
  rw [RespBuf.print, writes_put, List.length_append, List.length_singleton]

@[simp] theorem length_nset16 (n : UInt16) : (nset16 n).length = 2 := rfl

@[simp] theorem length_nset32 (n : UInt32) : (nset32 n).length = 4 := rfl

/-- `FileSize` behind the charset. -/
theorem fileSize_charset {c : Nat} (hc : c = 5 ∨ c = 8) :
    (32 + Int16.ofNat c).toInt = 32 + c ∧ (32 + Int16.ofNat c + 1).toInt = 33 + c ∧
      (32 + Int16.ofNat c + 1 + 2).toInt = 35 + c ∧
      (32 + Int16.ofNat c + 1 + 2 + 27).toInt = 62 + c ∧
      (32 + Int16.ofNat c + 1 + 2 + 27 + 2).toInt = 64 + c ∧
      sizeT (Int16.ofNat c).toInt = c := by
  rcases hc with rfl | rfl
  · decide
  · decide

/-- The writes of the operation group, for a charset of `c` bytes and a language of `len`. -/
def groupWrites (base : Int) (c : Nat) (len : Int) : List (Int × Nat) :=
  [(base, 2), (base + 2, 2), (base + 4, 4), (base + 8, 1), (base + 9, 1), (base + 10, 2),
    (base + 12, 18), (base + 30, 2), (base + 32, c), (base + (32 + c), 1), (base + (33 + c), 2),
    (base + (35 + c), 27), (base + (62 + c), 2), (base + (64 + c), sizeT len)]

theorem ippSetRespBuf_spec (base : Int)
    (hc : (obj.charset.getD ippDefaultCharset).length = 5 ∨
      (obj.charset.getD ippDefaultCharset).length = 8) :
    (ippSetRespBuf base obj b).1.writes =
        b.writes ++ groupWrites base (obj.charset.getD ippDefaultCharset).length obj.languageLen ∧
      (ippSetRespBuf base obj b).2.toInt =
        (64 + (obj.charset.getD ippDefaultCharset).length + obj.languageLen).bmod 65536 := by
  obtain ⟨h32, h33, h35, h62, h64, hsize⟩ := fileSize_charset hc
  have hattributes : (bytes "attributes-charset").length = 18 := by decide
  have hlanguage : (bytes "attributes-natural-language").length = 27 := by decide
  constructor
  · simp only [ippSetRespBuf, writes_put, writes_text, h32, h33, h35, h62, h64, hsize,
      length_nset16, length_nset32, hattributes, hlanguage, List.length_singleton, groupWrites,
      List.append_assoc, List.singleton_append]
    rfl
  · simp only [ippSetRespBuf]
    rw [Int16.toInt_add, h64]
    rfl

/-! ## The response -/

theorem length_printInt {n : Int} (h : n.natAbs < 1000000) : (printInt n).length ≤ 7 := by
  have hdigits : (Nat.toDigits 10 n.natAbs).length ≤ 6 :=
    (Nat.length_toDigits_le_iff (by decide) (by decide)).mpr h
  unfold printInt
  split
  · rw [List.length_cons, List.length_map]
    omega
  · rw [List.length_map]
    omega

theorem length_contentLength {n : Int} (h : n.natAbs < 1000000) :
    (contentLength n).length ≤ 25 := by
  have hprint := length_printInt h
  have hline : (bytes "Content-Length: ").length = 16 := by decide
  have hcrlf : crlf.length = 2 := rfl
  rw [contentLength, List.length_append, List.length_append]
  omega

variable {send : Nat → Bool} {old : Int → UInt8} {httpHeaders : List Str} {s : Sent}

/-- The length of the operation group, as `ippSetRespBuf` returns it. -/
def IppReply.cnt (obj : IppReply) : Int :=
  (64 + (obj.charset.getD ippDefaultCharset).length + obj.languageLen).bmod 65536

theorem buffer_spec
    (hc : (obj.charset.getD ippDefaultCharset).length = 5 ∨
      (obj.charset.getD ippDefaultCharset).length = 8) :
    (obj.buffer old).1.writes = [(0, 63), (0, 32)] ++
        groupWrites 80 (obj.charset.getD ippDefaultCharset).length obj.languageLen ++
          [(0, (contentLength (obj.length obj.cnt)).length + 1), (0, sizeT obj.cnt)] ∧
      (obj.buffer old).2 = obj.cnt := by
  obtain ⟨hwrites, hcnt⟩ := ippSetRespBuf_spec
    (b := (RespBuf.print ⟨old, []⟩ cacheControl).print contentType) 80 hc
  have hcache : cacheControl.length = 62 := by decide
  have htype : contentType.length = 31 := by decide
  constructor
  · unfold IppReply.buffer
    dsimp only
    rw [writes_copy, writes_print, hwrites, hcnt, writes_print, writes_print, hcache, htype,
      List.append_assoc]
    rfl
  · exact hcnt

/-- If no send fails, all is sent. -/
theorem sendAll_complete {i : Nat} {ds : List (List UInt8)} (h : (sendAll send i ds).2 = true) :
    (sendAll send i ds).1 = ds := by
  induction ds generalizing i with
  | nil => rfl
  | cons data rest ih =>
      unfold sendAll at h ⊢
      by_cases hi : send i = true
      · rw [if_pos hi] at h ⊢
        exact congrArg (data :: ·) (ih h)
      · rw [if_neg hi] at h
        cases h

theorem length_ite_group {n : UInt16} {group : List UInt8} (h : group.length = n.toNat) :
    (if n ≠ 0 then [group] else []).flatten.length = n.toNat := by
  split
  · rw [List.flatten_singleton, h]
  · rename_i hzero
    rw [not_not.mp hzero]
    rfl

/-- Where the operation group has a length, the header counts what is sent. -/
theorem counted_of_cnt (hcnt : 0 ≤ (obj.buffer old).2)
    (hs : ippSendResp true send old httpHeaders obj = some s) (hall : s.complete = true) :
    ∃ header, s.lines = header ++ [contentLength s.body.flatten.length, crlf] := by
  rw [ippSendResp, if_pos rfl] at hs
  obtain rfl := Option.some.inj hs
  refine ⟨httpHeaders ++ [cacheControl, contentType], ?_⟩
  dsimp only at hall ⊢
  have hlength (group : List UInt8) (hgroup : group.length = (obj.buffer old).2.toNat) :
      (([group] ++
        (if pfBufsiz obj.unSupportGroup ≠ 0 then
          [obj.unSupportGroup.data.take (pfBufsiz obj.unSupportGroup).toNat] else []) ++
        (if obj.respGroupSize ≠ 0 then
          [obj.respGroup.data.take obj.respGroupSize.toNat] else []) ++
        [[ippTagEnd]]).flatten.length : Int) = obj.length (obj.buffer old).2 := by
    simp only [List.flatten_append, List.length_append, List.flatten_singleton,
      length_ite_group length_take_pfBufsiz,
      length_ite_group (length_take_respGroupSize obj), hgroup, List.length_singleton]
    unfold IppReply.length
    omega
  rw [sendAll_complete hall, hlength _ (by rw [List.length_map, List.length_range]),
    List.append_assoc]
  rfl

theorem cnt_cases (hc : (obj.charset.getD ippDefaultCharset).length = 5 ∨
      (obj.charset.getD ippDefaultCharset).length = 8) :
    let size := 64 + (obj.charset.getD ippDefaultCharset).length + obj.languageLen
    (obj.cnt = size ∧ size ≤ 32767) ∨ (obj.cnt = size - 65536 ∧ 32767 < size) := by
  have hlo : -2 ^ 15 ≤ obj.languageLen := Int16.le_toInt _
  have hhi : obj.languageLen < 2 ^ 15 := Int16.toInt_lt _
  dsimp only
  rw [IppReply.cnt, Int.bmod_def]
  omega

/-- The writes lie inside the buffer if and only if the operation group fits. -/
theorem inside_iff
    (hc : (obj.charset.getD ippDefaultCharset).length = 5 ∨
      (obj.charset.getD ippDefaultCharset).length = 8) :
    (∀ w ∈ (obj.buffer old).1.writes, 0 ≤ w.1 ∧ w.1 + w.2 ≤ (obj.maxBufSize : Int)) ↔
      obj.Fits := by
  have hcnt := cnt_cases hc
  have hlo : -2 ^ 15 ≤ obj.languageLen := Int16.le_toInt _
  have hhi : obj.languageLen < 2 ^ 15 := Int16.toInt_lt _
  obtain ⟨hmin, hmax⟩ := maxBufSize_bounds obj
  have hun := (pfBufsiz obj.unSupportGroup).toNat_lt
  have hresp := obj.respGroupSize.toNat_lt
  have hline : (contentLength (obj.length obj.cnt)).length ≤ 25 := by
    apply length_contentLength
    unfold IppReply.length
    omega
  rw [(buffer_spec hc).1]
  unfold IppReply.Fits
  dsimp only at hcnt ⊢
  generalize (obj.charset.getD ippDefaultCharset).length = c at *
  generalize obj.languageLen = len at *
  generalize obj.cnt = cnt at *
  constructor
  · intro h
    have htext := h (80 + (64 + c), sizeT len) (by simp [groupWrites])
    have hmove := h (0, sizeT cnt) (by simp)
    unfold sizeT at htext hmove
    omega
  · intro hfits
    simp only [groupWrites, List.forall_mem_append, List.forall_mem_cons, List.not_mem_nil,
      false_implies, implies_true, and_true]
    unfold sizeT
    omega

/-! ## Requests -/

/-- Whatever a request and what came of it, the response is framed if and only if its operation
group fits; without memory for the buffer nothing is sent. -/
theorem response_framed_iff (malloc : Bool) (send : Nat → Bool) (old : Int → UInt8)
    (httpHeaders : List Str) (r : Request) (version retCode : UInt16) (id : UInt32)
    (unSupport resp : List (List UInt8)) :
    (∀ s, ippSendResp malloc send old httpHeaders
          (r.answered version retCode id unSupport resp) = some s →
        s.Framed (r.answered version retCode id unSupport resp)) ↔
      (malloc = true → (r.answered version retCode id unSupport resp).Fits) := by
  generalize hobj : r.answered version retCode id unSupport resp = obj
  have hc : (obj.charset.getD ippDefaultCharset).length = 5 ∨
      (obj.charset.getD ippDefaultCharset).length = 8 := by
    subst hobj
    exact length_charset (texts_charset r)
  cases malloc with
  | false => exact iff_of_true (fun s hs ↦ by cases hs) fun h ↦ by cases h
  | true =>
      constructor
      · intro h _
        exact (inside_iff hc).mp (h _ rfl).inside
      · intro hfits s hs
        have hcnt : 0 ≤ (obj.buffer old).2 := by
          have hsize := cnt_cases hc
          obtain ⟨hlen, hsmall, -⟩ := hfits rfl
          rw [(buffer_spec hc).2]
          dsimp only at hsize hsmall
          omega
        refine ⟨counted_of_cnt hcnt hs, ?_⟩
        have hinside := (@inside_iff obj old hc).mpr (hfits rfl)
        rw [ippSendResp, if_pos rfl] at hs
        obtain rfl := Option.some.inj hs
        exact hinside

/-- A moment without jobs. -/
def noJobs : Moment where
  obj _ := ⟨0, .pending, none⟩
  chain := []
  named p hp := by cases hp
  jobsNo := 0
  malloc _ := true

/-- A request whose language has `n` letters, for an operation that is not supported. -/
def longLanguage (n : Nat) : Request where
  head := [1, 1, 0, 0x40, 0, 0, 0, 1]
  docType := .binary
  arrivals := [⟨.group 1, noJobs⟩,
    ⟨.attribute ⟨0x47, bytes "attributes-charset", .string (bytes "utf-8")⟩, noJobs⟩,
    ⟨.attribute ⟨0x48, bytes "attributes-natural-language", .string (List.replicate n 0x65)⟩,
      noJobs⟩]
  last := noJobs

/-- A language of 364 letters is one too long for the 512 bytes. -/
theorem response_overruns :
    ∃ s, ippSendResp true (fun _ ↦ true) (fun _ ↦ 0) []
        ((longLanguage 364).answered 1 0x501 0x01000000 [] []) = some s ∧
      ¬ s.Framed ((longLanguage 364).answered 1 0x501 0x01000000 [] []) := by
  refine ⟨_, rfl, fun hframed ↦ ?_⟩
  have hfits := (inside_iff (.inl (by decide))).mp hframed.inside
  unfold IppReply.Fits at hfits
  exact absurd hfits (by (set_option maxRecDepth 8000 in decide))

end PrintServer.Ipp
