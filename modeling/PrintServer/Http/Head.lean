import PrintServer.Http.Connection
import PrintServer.Http.EchoName
import PrintServer.Http.Lines

/-!
# The head of a request

What the first calls of `zot_fgets` make of a request line and headers whose lines arrive whole.
-/

namespace PrintServer.Http

variable {ε : Type} {env : HttpEnv ε} {b s t l : List UInt8} {ps : List Piece} {f : ZotFile}
  {rs : List Recv} {lens : List Nat}

/-- The buffer holds the C string `s`. -/
def Text (b s : List UInt8) : Prop := 0 ∉ s ∧ ∃ t, b = s ++ 0 :: t

namespace Text

theorem cstr_eq (h : Text b s) {k : Nat} (hk : k ≤ s.length) : cstr b k = s.drop k := by
  obtain ⟨hs, t, rfl⟩ := h
  have hdrop : (s ++ 0 :: t).drop k = s.drop k ++ 0 :: t := List.drop_append_of_le_length hk
  have hs' : 0 ∉ s.drop k := fun h ↦ hs (List.mem_of_mem_drop h)
  have hcstr : cstr (s.drop k ++ 0 :: t) 0 = s.drop k := by
    rw [cstr_append hs']
    simp [cstr]
  change List.takeWhile _ _ = _
  rw [hdrop]
  exact hcstr

theorem cstr_zero (h : Text b s) : cstr b 0 = s := by
  rw [h.cstr_eq (Nat.zero_le _), List.drop_zero]

/-- A NUL is written over a character of the string. -/
theorem set (h : Text b s) {k : Nat} (hk : k < s.length) : Text (b.set k 0) (s.take k) := by
  obtain ⟨hs, t, rfl⟩ := h
  refine ⟨fun h ↦ hs (List.mem_of_mem_take h), s.drop (k + 1) ++ 0 :: t, ?_⟩
  rw [List.set_append_left _ _ hk, List.set_eq_take_append_cons_drop, if_pos hk]
  simp

end Text

theorem text_store (hs : 0 ∉ s) (b : List UInt8) : Text (store s b) s := ⟨hs, _, rfl⟩

theorem cutAt_of_notMem (h : Text b s) {c : UInt8} (hc : c ∉ s) : cutAt c b = b := by
  unfold cutAt
  rw [h.cstr_zero, List.idxOf?_eq_none_iff.mpr hc]

/-- A line of a head, which fits `Inline` with its line feed. -/
structure HeadLine (l : Str) : Prop where
  fits : l.length + 2 ≤ hlinelen
  plain : ∀ c ∈ l, c ≠ 0 ∧ c ≠ chr '\r' ∧ c ≠ chr '\n'

/-- `fgets` and `rip` leave the text of the line in `Inline`. -/
theorem text_rip_line (h : HeadLine l) (b : List UInt8) :
    Text (rip (store (l ++ [chr '\n']) b)) l := by
  have hnul : 0 ∉ l := fun hc ↦ (h.plain 0 hc).1 rfl
  have hlf : chr '\n' ∉ l := fun hc ↦ (h.plain _ hc).2.2 rfl
  have hcr : chr '\r' ∉ l := fun hc ↦ (h.plain _ hc).2.1 rfl
  have hline : Text (store (l ++ [chr '\n']) b) (l ++ [chr '\n']) := by
    refine text_store ?_ b
    simp [hnul, (by decide : ¬ 0 = chr '\n')]
  have hcut : Text (cutAt (chr '\n') (store (l ++ [chr '\n']) b)) l := by
    have hidx : (l ++ [chr '\n']).idxOf? (chr '\n') = some l.length := by
      rw [List.idxOf?_eq_some_iff]
      refine ⟨by simp, by simp, fun j hj ↦ ?_⟩
      rw [List.getElem_append_left hj]
      exact fun heq ↦ hlf (heq ▸ List.getElem_mem hj)
    unfold cutAt
    rw [hline.cstr_zero, hidx]
    have hset := hline.set (k := l.length) (by simp)
    rwa [List.take_left] at hset
  unfold rip
  rw [cutAt_of_notMem hcut hcr]
  exact hcut

/-! ## Whole lines -/

theorem lineText_line {n : Nat} (hl : ∀ c ∈ l, c ≠ chr '\r' ∧ c ≠ chr '\n') (hn : l.length < n) :
    lineText n (l ++ 0x0D :: 0x0A :: s) = l ++ [0x0A] ∧
      lineLength n (l ++ 0x0D :: 0x0A :: s) = l.length + 2 := by
  induction l generalizing n with
  | nil =>
      obtain ⟨n, rfl⟩ : ∃ k, n = k + 1 := ⟨n - 1, by simp at hn; omega⟩
      exact ⟨rfl, rfl⟩
  | cons c l ih =>
      obtain ⟨n, rfl⟩ : ∃ k, n = k + 1 := ⟨n - 1, by simp at hn; omega⟩
      obtain ⟨⟨hcr, hlf⟩, hrest⟩ := List.forall_mem_cons.mp hl
      have hcr' : ¬ c = 0x0D := hcr
      have hlf' : ¬ c = 0x0A := hlf
      obtain ⟨htext, hlen⟩ := ih hrest (n := n) (by simpa using hn)
      simp [lineText, lineLength, hcr', hlf', htext, hlen]

theorem crLf_line_end (hl : ∀ c ∈ l, c ≠ chr '\r') : crLf (l ++ [0x0D, 0x0A]) := by
  induction l with
  | nil => rfl
  | cons c l ih =>
      obtain ⟨hc, hrest⟩ := List.forall_mem_cons.mp hl
      have hc' : ¬ c = 0x0D := hc
      have htail := ih hrest
      obtain ⟨d, t, ht⟩ := List.exists_cons_of_ne_nil (l := l ++ [0x0D, 0x0A]) (by simp)
      rw [ht] at htail
      rw [List.cons_append, ht]
      simp [crLf, hc', htail]

theorem length_nextPiece (hb : b.length ≤ ibufSize) : (nextPiece b ps).1.length ≤ ibufSize := by
  cases b with
  | nil =>
      cases ps with
      | nil => exact Nat.zero_le _
      | cons p ps => exact p.le
  | cons c b => exact hb

/-- One line of a head is read. -/
theorem zotFgets_headLine (old : Nat → UInt8) (hl : HeadLine l) (hh : Holds f rs b ps)
    (hb : b.length ≤ ibufSize) (hs : stream b ps = l ++ 0x0D :: 0x0A :: s)
    (hwhole : LinesWhole (hlinelen :: lens) b ps) :
    ∃ f' rs' b' ps', zotFgets old hlinelen f rs = some (some (l ++ [chr '\n']), f', rs') ∧
      Holds f' rs' b' ps' ∧ b'.length ≤ ibufSize ∧ stream b' ps' = s ∧
      ∀ lens, LinesWhole (hlinelen :: lens) b ps ↔ LinesWhole lens b' ps' := by
  obtain ⟨hk, -⟩ := hwhole
  rcases refill_pieces hh with ⟨rfl, rfl, -⟩ | ⟨f', rs', hfill, hh', hne⟩
  · have hlen := congrArg List.length hs
    simp [stream] at hlen
  · obtain ⟨htext, hlen⟩ := lineText_line (s := s) (n := hlinelen - 1)
      (fun c hc ↦ (hl.plain c hc).2) (by have := hl.fits; simp only [hlinelen] at this ⊢; omega)
    have hend : lineEnd hlinelen (nextPiece b ps) = l.length + 2 := by
      rw [lineEnd_nextPiece, hs, hlen]
    have hline : (l ++ 0x0D :: 0x0A :: s).take (l.length + 2) = l ++ [0x0D, 0x0A] := by
      rw [List.take_append, List.take_of_length_le (by omega)]
      simp
    have hcr : crLf ((stream (nextPiece b ps).1 (nextPiece b ps).2).take
        (lineEnd hlinelen (nextPiece b ps))) := by
      rw [stream_nextPiece, hend, hs, hline]
      exact crLf_line_end fun c hc ↦ (hl.plain c hc).2.1
    have hcall := zotFgets_whole ⟨hlinelen, old⟩ (nextPiece b ps).2 hfill hh'.buffered hne hcr hk
    refine ⟨_, _, _, _, ?_, hh'.skip hk, ?_, ?_, fun lens ↦ and_iff_right hk⟩
    · rw [hcall, stream_nextPiece, hs, htext]
      rfl
    · rw [List.length_drop]
      exact Nat.le_trans (Nat.sub_le _ _) (length_nextPiece hb)
    · rw [stream_drop _ hk, stream_nextPiece, hend, hs]
      simp [List.drop_append]

/-! ## The headers -/

/-- The lines of a head, each with CR LF, and the blank line. -/
def headBytes (ls : List Str) : List UInt8 :=
  (ls.flatMap fun l ↦ l ++ [0x0D, 0x0A]) ++ [0x0D, 0x0A]

/-- The state of the header loop at the blank line behind `ls`. -/
def headersAfter (env : HttpEnv ε) (h : Headers) : List Str → Headers
  | [] => { h with inlineBuf := rip (store [chr '\n'] h.inlineBuf) }
  | l :: ls =>
      headersAfter env
        (headerLine env { h with inlineBuf := rip (store (l ++ [chr '\n']) h.inlineBuf) }) ls

/-- The header loop reads its headers, and goes on behind the blank line. -/
theorem headerLoopFrom_headers (env : HttpEnv ε) {ls : List Str}
    (hls : ∀ l ∈ ls, HeadLine l ∧ l ≠ [])
    (h : Headers) (hh : Holds f rs b ps) (hb : b.length ≤ ibufSize)
    (hs : stream b ps = headBytes ls ++ s)
    (hwhole : LinesWhole (List.replicate (ls.length + 1) hlinelen) b ps) :
    ∃ f' rs' b' ps', (∀ fuel, headerLoopFrom env (fuel + (ls.length + 1)) h f rs =
        endOfHeadersFrom env fuel (headersAfter env h ls) f' rs') ∧
      Holds f' rs' b' ps' ∧ b'.length ≤ ibufSize ∧ stream b' ps' = s ∧
      ∀ lens, LinesWhole (List.replicate (ls.length + 1) hlinelen ++ lens) b ps ↔
        LinesWhole lens b' ps' := by
  induction ls generalizing h f rs b ps with
  | nil =>
      have hblank : HeadLine [] := ⟨by decide, fun _ hc ↦ by cases hc⟩
      obtain ⟨f', rs', b', ps', hcall, hh', hb', hs', hwhole'⟩ :=
        zotFgets_headLine (contents h.inlineBuf) hblank hh hb hs hwhole
      refine ⟨f', rs', b', ps', fun fuel ↦ ?_, hh', hb', hs', hwhole'⟩
      have hempty : cstr (rip (store [chr '\n'] h.inlineBuf)) 0 = [] :=
        (text_rip_line hblank h.inlineBuf).cstr_zero
      rw [List.nil_append] at hcall
      change headerLoopFrom env (fuel + 1) h f rs = _
      conv_lhs => unfold headerLoopFrom
      rw [hcall]
      simp only [hempty, if_true]
      rfl
  | cons l ls ih =>
      obtain ⟨⟨hl, hne⟩, hrest⟩ := List.forall_mem_cons.mp hls
      have hs₁ : stream b ps = l ++ 0x0D :: 0x0A :: (headBytes ls ++ s) := by
        rw [hs]
        simp [headBytes]
      obtain ⟨f₁, rs₁, b₁, ps₁, hcall, hh₁, hb₁, hs₁, hwhole₁⟩ :=
        zotFgets_headLine (contents h.inlineBuf) hl hh hb hs₁ hwhole
      obtain ⟨f', rs', b', ps', hloop, hh', hb', hs', hwhole'⟩ := ih hrest
        (headerLine env { h with inlineBuf := rip (store (l ++ [chr '\n']) h.inlineBuf) })
        hh₁ hb₁ hs₁ ((hwhole₁ _).mp hwhole)
      refine ⟨f', rs', b', ps', fun fuel ↦ ?_, hh', hb', hs',
        fun lens ↦ (hwhole₁ _).trans (hwhole' lens)⟩
      have htext := (text_rip_line hl h.inlineBuf).cstr_zero
      change headerLoopFrom env (fuel + (ls.length + 1) + 1) h f rs = _
      conv_lhs => unfold headerLoopFrom
      rw [hcall]
      simp only [htext, if_neg hne]
      exact hloop fuel

/-! ## Request lines -/

/-- The text does not occur from a character on. -/
theorem strstr_append {c : UInt8} {pat a : Str} (ha : c ∉ a) (s : Str) :
    strstr (a ++ s) (c :: pat) = strstr s (c :: pat) := by
  induction a with
  | nil => rfl
  | cons d a ih =>
      have hd : ¬ (c == d) = true := by
        simp only [beq_iff_eq]
        rintro rfl
        exact ha List.mem_cons_self
      rw [List.cons_append]
      conv_lhs => unfold strstr
      simp only [List.isPrefixOf, hd, Bool.false_and, Bool.false_eq_true, if_false]
      exact ih fun h ↦ ha (List.mem_cons_of_mem d h)

theorem strstr_self (pat s : Str) : strstr (pat ++ s) pat = some (pat ++ s) := by
  unfold strstr
  rw [if_pos (List.isPrefixOf_iff_prefix.mpr (List.prefix_append pat s))]

/-- The text of a request line; `target` is the part of the URL behind the first slash. -/
def requestText (method target version : Str) : Str :=
  method ++ chr ' ' :: chr '/' :: (target ++ (bytes " HTTP/1." ++ version))

theorem strstr_http {m target version : Str} (hm : chr ' ' ∉ m) (ht : chr ' ' ∉ target) :
    strstr (requestText m target version) (bytes " HTTP/1.") =
      some (bytes " HTTP/1." ++ version) := by
  have hpat : bytes " HTTP/1." = chr ' ' :: bytes "HTTP/1." := by decide
  have hslash : chr ' ' ∉ chr '/' :: target := by
    rintro (_ | ⟨_, h⟩)
    exact ht h
  have hskip (s : Str) : strstr (chr ' ' :: chr '/' :: s) (bytes " HTTP/1.") =
      strstr (chr '/' :: s) (bytes " HTTP/1.") := by
    conv_lhs => unfold strstr
    rw [if_neg (by simp [List.isPrefixOf, bytes, chr])]
  have hself := strstr_self (bytes " HTTP/1.") version
  unfold requestText
  rw [hpat] at hskip hself ⊢
  rw [strstr_append hm, hskip, ← List.cons_append, strstr_append hslash, hself]

theorem skipnonwhite_append {m : Str} (hm : ∀ c ∈ m, c ≠ 0 ∧ isBlank c = false) (s : Str) :
    skipnonwhite (m ++ chr ' ' :: s) = chr ' ' :: s := by
  unfold skipnonwhite
  rw [List.dropWhile_append_of_pos (by simpa using hm), List.dropWhile_cons_of_neg (by decide)]

/-- The methods of a form. -/
def formMethod (post : Bool) : Str := if post then bytes "POST" else bytes "GET"

theorem formMethod_plain (post : Bool) : (∀ c ∈ formMethod post, c ≠ 0 ∧ isBlank c = false) ∧
    chr ' ' ∉ formMethod post ∧ chr '?' ∉ formMethod post := by
  cases post <;> decide +kernel

/-- What `httpd` takes from a request line. -/
theorem requestLine_text (env : HttpEnv ε) {post : Bool} {path query version : Str} (q : Bool)
    (hpath : chr ' ' ∉ path ∧ chr '?' ∉ path) (hquery : chr ' ' ∉ query)
    (hline : HeadLine (requestText (formMethod post)
      (path ++ if q then chr '?' :: query else []) version)) :
    ∃ url b, requestLine env (requestText (formMethod post)
        (path ++ if q then chr '?' :: query else []) version ++ [chr '\n']) =
      ({ method := if post then .post else .get, version := 1, url := url
         query := if q = true ∧ query ≠ [] then some (decode env.heap query false) else none
         newcheck := none, fromHdr := none, referer := none, agent := none, passwd := none
         boundary := none }, b, q) := by
  obtain ⟨hplain, hmblank, hmq⟩ := formMethod_plain post
  generalize hm : formMethod post = m at *
  generalize htarget : (path ++ if q then chr '?' :: query else []) = target at *
  have htblank : chr ' ' ∉ target := by
    rw [← htarget]
    cases q <;> simp [hpath.1, hquery, (by decide : ¬ chr ' ' = chr '?')]
  -- `strstr` finds the blank in front of the version
  have hlen : (requestText m target version).length - (bytes " HTTP/1." ++ version).length =
      (m ++ chr ' ' :: chr '/' :: target).length := by
    simp only [requestText, List.length_append, List.length_cons]
    omega
  have htake : (requestText m target version).take (m ++ chr ' ' :: chr '/' :: target).length =
      m ++ chr ' ' :: chr '/' :: target := by
    have hsplit : requestText m target version =
        (m ++ chr ' ' :: chr '/' :: target) ++ (bytes " HTTP/1." ++ version) := by
      simp [requestText]
    rw [hsplit, List.take_left]
  have htext := text_rip_line hline env.heap
  unfold requestLine
  generalize rip (store (requestText m target version ++ [chr '\n']) env.heap) = b₀ at htext ⊢
  have hcut : Text (b₀.set (m ++ chr ' ' :: chr '/' :: target).length 0)
      (m ++ chr ' ' :: chr '/' :: target) := by
    have hset := htext.set (k := (m ++ chr ' ' :: chr '/' :: target).length) (by
      have hhttp : 0 < (bytes " HTTP/1." ++ version).length := by simp [bytes]
      rw [← hlen]
      have hle : (bytes " HTTP/1." ++ version).length ≤ (requestText m target version).length := by
        simp only [requestText, List.length_append, List.length_cons]
        omega
      omega)
    rwa [htake] at hset
  simp only [htext.cstr_zero, strstr_http hmblank htblank, hlen]
  generalize b₀.set (m ++ chr ' ' :: chr '/' :: target).length 0 = b₁ at hcut ⊢
  have hskip := skipnonwhite_append hplain (chr '/' :: target)
  -- `skipnonwhite` stops behind the method
  have hmethod : (m ++ chr ' ' :: chr '/' :: target).length -
      (chr ' ' :: chr '/' :: target).length = m.length := by
    rw [List.length_append, Nat.add_sub_cancel]
  have hcp : cstr b₁ m.length = chr ' ' :: chr '/' :: target := by
    rw [hcut.cstr_eq (by simp), List.drop_left]
  have hpath' : ∀ c ∈ chr ' ' :: chr '/' :: path, decide (c ≠ chr '?') = true := by
    intro c hc
    rw [decide_eq_true_eq]
    rintro rfl
    simp [hpath.2, (by decide : ¬ chr '?' = chr ' '), (by decide : ¬ chr '?' = chr '/')] at hc
  have hsplit : chr ' ' :: chr '/' :: target =
      (chr ' ' :: chr '/' :: path) ++ if q then chr '?' :: query else [] := by
    rw [← htarget]
    rfl
  -- the path ends at the first `?`
  have hwhile : (chr ' ' :: chr '/' :: target).takeWhile (fun c ↦ decide (c ≠ chr '?')) =
      chr ' ' :: chr '/' :: path := by
    rw [hsplit, List.takeWhile_append_of_pos hpath']
    cases q <;> simp
  have hmem : decide (chr '?' ∈ chr ' ' :: chr '/' :: target) = q := by
    rw [hsplit]
    have hnot : chr '?' ∉ chr ' ' :: chr '/' :: path := fun h ↦ by simpa using hpath' _ h
    cases q <;> simp [hnot] at hnot ⊢
  have hquery' : (chr ' ' :: chr '/' :: target).drop ((chr ' ' :: chr '/' :: path).length + 1) =
      if q then query else [] := by
    rw [hsplit]
    cases q <;> simp [List.drop_append]
  -- the query and the path are cut off
  have hb₂ : Text (if q = true then
      b₁.set (m.length + (chr ' ' :: chr '/' :: path).length) 0 else b₁)
      (m ++ chr ' ' :: chr '/' :: path) := by
    cases q with
    | false =>
        rw [← htarget] at hcut
        simpa using hcut
    | true =>
        have hset := hcut.set (k := m.length + (chr ' ' :: chr '/' :: path).length) (by
          rw [hsplit]
          simp)
        rw [hsplit, ← List.append_assoc, ← List.length_append, List.take_left,
          List.length_append] at hset
        exact hset
  simp only [hcut.cstr_zero, hskip, hmethod, hcp, hwhile, hmem, hquery']
  generalize (if q = true then b₁.set (m.length + (chr ' ' :: chr '/' :: path).length) 0 else b₁)
    = b₂ at hb₂ ⊢
  have hb₃ : Text (b₂.set m.length 0) m := by
    have hset := hb₂.set (k := m.length) (by simp)
    rwa [List.take_left] at hset
  have hmethod' : (if m = bytes "GET" then Method.get else if m = bytes "HEAD" then Method.head
      else if m = bytes "POST" then Method.post else Method.unknown) =
      if post then .post else .get := by
    rw [← hm]
    cases post <;> decide
  -- an empty query is no query
  have hq : (if (if q then query else []) = [] then none
      else some (decode env.heap (if q then query else []) false)) =
      if q = true ∧ query ≠ [] then some (decode env.heap query false) else none := by
    cases q with
    | false => simp
    | true => by_cases hne : query = [] <;> simp [hne]
  simp only [hb₃.cstr_zero, hmethod', hq, Option.isSome_some, if_true]
  exact ⟨_, _, rfl⟩

/-- A request line after which the headers are read. -/
theorem receiveFrom_line {line b : List UInt8} {f' : ZotFile} {rs' : List Recv} {rq : ReqInfo}
    {q : Bool} {fuel : Nat}
    (hcall : zotFgets (contents env.heap) hlinelen f rs = some (some line, f', rs'))
    (hline : requestLine env line = (rq, b, q)) (hm : rq.method ≠ .unknown)
    (hv : rq.version ≠ 0) (hq : rq.method = .get ∨ q = false) :
    receiveFrom env fuel f rs = headerLoopFrom env fuel ⟨rq, false, false, 0, b⟩ f' rs' := by
  have hgo : ¬ (rq.method = .unknown ∨ (rq.version = 0 ∧ (rq.method ≠ .get ∨ q = true)) ∨
      (rq.method ≠ .get ∧ q = true) ∨ rq.version = 0) := by
    rintro (h | h | h | h)
    · exact hm h
    · exact hv h.1
    · exact hq.elim h.1 fun hq ↦ by simp [hq] at h
    · exact hv h
  unfold receiveFrom
  rw [hcall]
  simp only [hline, if_neg hgo]

end PrintServer.Http
