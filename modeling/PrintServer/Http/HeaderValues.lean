import PrintServer.Http.Head
import PrintServer.Lib.Owned

/-!
# The copies of header values

The calls of `strdup` in the header loop of `httpd` and the releases at `quit0`.  The argument of a
call is a fixed index of `Inline`, where the end of an earlier line may still stand behind the
current one, or, for If-Modified-Since, a character of it.
-/

namespace PrintServer.Http

open Lib

/-- The members of `rq` that own a copy of a header value. -/
inductive Field
  | newcheck
  | fromHdr
  | referer
  | agent
  | passwd
  | boundary
deriving DecidableEq

/-- In the order of the releases. -/
def Field.all : List Field := [.newcheck, .fromHdr, .referer, .agent, .passwd, .boundary]

def ReqInfo.value (rq : ReqInfo) : Field → Option Str
  | .newcheck => rq.newcheck
  | .fromHdr => rq.fromHdr
  | .referer => rq.referer
  | .agent => rq.agent
  | .passwd => rq.passwd
  | .boundary => rq.boundary

/-- The argument of `strdup`: an index of `Inline`, or a character taken as an address. -/
inductive Source
  | inline (k : Nat)
  | address (a : UInt8)
deriving DecidableEq

def Source.text (lowText : UInt8 → Str) (b : List UInt8) : Source → Str
  | .inline k => cstr b k
  | .address a => lowText a

/-- The text behind `boundary=` in the value of a Content-Type. -/
def boundaryOf (s : Str) : Option Str :=
  ((strstr s (bytes "multipart/form-data")).bind fun cp ↦
    strstr (cp.drop 19) (bytes "boundary=")).map (·.drop 9)

/-- The call of `strdup` for the header line in `Inline`. -/
def strdupCall (b : List UInt8) : Option (Field × Source) :=
  if isHeader b "Content-Length:" then none
  else if isHeader b "If-Modified-Since:" then some (.newcheck, .address (b.getD 19 0))
  else if isHeader b "From:" then some (.fromHdr, .inline 6)
  else if isHeader b "Referer:" then some (.referer, .inline 9)
  else if isHeader b "User-Agent:" then some (.agent, .inline 12)
  else if isHeader b "Authorization:" then some (.passwd, .inline 21)
  else if isHeader b "Content-Type:" then
    (boundaryOf (cstr b 13)).map fun cp ↦
      (.boundary, .inline (13 + ((cstr b 13).length - cp.length)))
  else none

/-- What a call of `fgets` stores, and whether `strdup` finds memory for a copy from it.  It is the
header line `whole` of the request, or a part of it: the rest may be behind the end of `Inline` or
in the next piece. -/
structure HeaderRead where
  line : List UInt8
  whole : Str
  memory : Bool

/-- The reads before the blank line, each with what `Inline` then holds as its line. -/
def inlineReads : List HeaderRead → List UInt8 → List HeaderRead
  | [], _ => []
  | r :: rs, b =>
      let b := rip (store r.line b)
      if cstr b 0 = [] then [] else { r with line := b } :: inlineReads rs b

/-- The assignments to the members of `rq` in the header loop. -/
def dups (lowText : UInt8 → Str) (rs : List HeaderRead) : List (Field × Option Str) :=
  rs.filterMap fun r ↦ (strdupCall r.line).map fun c ↦
    (c.1, if r.memory then some (c.2.text lowText r.line) else none)

/-- The members of `rq` behind the header loop. -/
def headerValues (lowText : UInt8 → Str) (reads : List HeaderRead) (old : List UInt8) :
    Owned Field Str :=
  Owned.empty.run (dups lowText (inlineReads reads old))

/-! ## The property -/

def Field.name : Field → String
  | .newcheck => "If-Modified-Since:"
  | .fromHdr => "From:"
  | .referer => "Referer:"
  | .agent => "User-Agent:"
  | .passwd => "Authorization:"
  | .boundary => "Content-Type:"

/-- The length of the separator behind the name. -/
def Field.separator : Field → Nat
  | .passwd => 7
  | .boundary => 0
  | _ => 1

/-- A header line of this name. -/
def named (name : String) (line : Str) : Prop :=
  (line.take (bytes name).length).map tolower = (bytes name).map tolower

instance (name : String) (line : Str) : Decidable (named name line) :=
  inferInstanceAs (Decidable (_ = _))

/-- The value that a line gives to a member. -/
def Field.valueIn (f : Field) (line : Str) : Option Str :=
  if named f.name line then
    let value := line.drop ((bytes f.name).length + f.separator)
    if f = .boundary then boundaryOf value else some value
  else none

/-- The argument of `strdup` points into the current line. -/
def Source.Inside (b : List UInt8) : Source → Prop
  | .inline k => k ≤ (cstr b 0).length
  | .address _ => False

structure ValuesSound (lowText : UInt8 → Str) (reads : List HeaderRead) (old : List UInt8) :
    Prop where
  inside : ∀ r ∈ inlineReads reads old, ∀ f src, strdupCall r.line = some (f, src) →
    src.Inside r.line ∧ f.valueIn r.whole = some (src.text lowText r.line)
  copied : ∀ f v, (headerValues lowText reads old).value f = some v →
    ∃ r ∈ inlineReads reads old, f.valueIn r.whole = some v
  released : ∀ i < (headerValues lowText reads old).made.length,
    ((headerValues lowText reads old).released Field.all).count i = 1

/-! ## When it holds -/

def headerNames : List String :=
  ["Content-Length:", "If-Modified-Since:", "From:", "Referer:", "User-Agent:", "Authorization:",
    "Content-Type:", "Transfer-Encoding:"]

/-- The header that a line is taken for: `strnicmp` accepts the beginning of a name too. -/
def takenFor (b : List UInt8) : Option String := headerNames.find? (isHeader b)

/-- The member that a line sets. -/
def fieldOf (b : List UInt8) : Option Field :=
  Field.all.find? fun f ↦
    takenFor b = some f.name ∧ (f = .boundary → (boundaryOf (cstr b 13)).isSome)

/-- The line is not taken for If-Modified-Since, and it reaches up to the value of the header that
it is taken for. -/
structure LineClean (b : List UInt8) : Prop where
  since : takenFor b ≠ some Field.newcheck.name
  long : ∀ f ∈ [Field.fromHdr, .referer, .agent, .passwd], takenFor b = some f.name →
    (bytes f.name).length + f.separator ≤ (cstr b 0).length
  type : takenFor b = some Field.boundary.name → (boundaryOf (cstr b 13)).isSome →
    (bytes Field.boundary.name).length ≤ (cstr b 0).length

/-- The lines are clean, a part of a line gives no other value than the whole, and no line sets a
member that has a copy. -/
structure HeadersClean (reads : List HeaderRead) (old : List UInt8) : Prop where
  line : ∀ r ∈ inlineReads reads old, LineClean r.line
  whole : ∀ r ∈ inlineReads reads old, ∀ f, fieldOf r.line = some f →
    f.valueIn r.whole = f.valueIn (cstr r.line 0)
  once : (inlineReads reads old).Pairwise fun p q ↦
    ∀ f, fieldOf p.line = some f → fieldOf q.line = some f → p.memory = false

variable {b : List UInt8} {f : Field} {src : Source} {lowText : UInt8 → Str}

/-! ## Names -/

theorem map_tolower_of_strnicmp {name line : Str} (h : strnicmp line name name.length = 0)
    (hlen : name.length ≤ line.length) :
    (line.take name.length).map tolower = name.map tolower := by
  induction name generalizing line with
  | nil => rfl
  | cons c name ih =>
      cases line with
      | nil => cases hlen
      | cons d line =>
          rw [List.length_cons] at h hlen
          unfold strnicmp at h
          split at h
          · rename_i heq
            have htail := ih h (Nat.le_of_succ_le_succ hlen)
            rw [List.length_cons, List.take_succ_cons, List.map_cons, List.map_cons, heq, htail]
          · split at h <;> cases h

theorem named_of_isHeader {name : String} (h : isHeader b name)
    (hlen : (bytes name).length ≤ (cstr b 0).length) : named name (cstr b 0) :=
  map_tolower_of_strnicmp (of_decide_eq_true h) hlen

theorem isHeader_of_takenFor {name : String} (h : takenFor b = some name) : isHeader b name :=
  List.find?_some h

/-- The argument of `strdup` for the header of a member. -/
def Field.source (b : List UInt8) : Field → Option Source
  | .newcheck => some (.address (b.getD 19 0))
  | .boundary => (boundaryOf (cstr b 13)).map fun cp ↦
      .inline (13 + ((cstr b 13).length - cp.length))
  | f => some (.inline ((bytes f.name).length + f.separator))

/-- The calls, by the header that the line is taken for. -/
theorem strdupCall_eq : strdupCall b = (takenFor b).bind fun name ↦
    (Field.all.find? (·.name = name)).bind fun f ↦ (f.source b).map (f, ·) := by
  unfold strdupCall takenFor headerNames
  simp only [List.find?_cons]
  by_cases hlen : isHeader b "Content-Length:"
  · simp [hlen, Field.all, Field.name]
  by_cases hsince : isHeader b "If-Modified-Since:"
  · simp [hlen, hsince, Field.all, Field.name, Field.source]
  by_cases hfrom : isHeader b "From:"
  · simp [hlen, hsince, hfrom, Field.all, Field.name, Field.source, bytes, Field.separator]
  by_cases href : isHeader b "Referer:"
  · simp [hlen, hsince, hfrom, href, Field.all, Field.name, Field.source, bytes, Field.separator]
  by_cases hagent : isHeader b "User-Agent:"
  · simp [hlen, hsince, hfrom, href, hagent, Field.all, Field.name, Field.source, bytes,
      Field.separator]
  by_cases hauth : isHeader b "Authorization:"
  · simp [hlen, hsince, hfrom, href, hagent, hauth, Field.all, Field.name, Field.source, bytes,
      Field.separator]
  by_cases htype : isHeader b "Content-Type:"
  · simp [hlen, hsince, hfrom, href, hagent, hauth, htype, Field.all, Field.name, Field.source]
    rfl
  · cases htransfer : isHeader b "Transfer-Encoding:" <;>
      simp [hlen, hsince, hfrom, href, hagent, hauth, htype, Field.all, Field.name]

theorem strdupCall_iff :
    strdupCall b = some (f, src) ↔ takenFor b = some f.name ∧ f.source b = some src := by
  rw [strdupCall_eq]
  constructor
  · intro h
    obtain ⟨name, hname, hcall⟩ := Option.bind_eq_some_iff.mp h
    obtain ⟨g, hg, hsource⟩ := Option.bind_eq_some_iff.mp hcall
    obtain ⟨src', hsrc, heq⟩ := Option.map_eq_some_iff.mp hsource
    have hgname : g.name = name := by simpa using List.find?_some hg
    obtain ⟨rfl, rfl⟩ := Prod.mk.inj heq
    exact ⟨hgname ▸ hname, hsrc⟩
  · intro ⟨hname, hsource⟩
    have hfind : Field.all.find? (·.name = f.name) = some f := by
      cases f <;> decide
    rw [hname, Option.bind_some, hfind, Option.bind_some, hsource]
    rfl

/-! ## Pointers -/

/-- A later index of the same string. -/
theorem cstr_add {k m : Nat} (h : m ≤ (cstr b k).length) : cstr b (k + m) = (cstr b k).drop m := by
  have hgen : ∀ (s : List UInt8) (m : Nat), m ≤ (s.takeWhile (· ≠ 0)).length →
      (s.drop m).takeWhile (· ≠ 0) = (s.takeWhile (· ≠ 0)).drop m := by
    intro s
    induction s with
    | nil =>
        intro m _
        simp
    | cons c s ih =>
        intro m hm
        cases m with
        | zero => rfl
        | succ m =>
            by_cases hc : c = 0
            · simp [hc] at hm
            · simp only [List.takeWhile_cons, ne_eq, hc, not_false_eq_true, decide_true,
                if_true, List.length_cons] at hm ⊢
              exact ih m (Nat.le_of_succ_le_succ hm)
  have hdrop := hgen (b.drop k) m h
  rw [List.drop_drop] at hdrop
  exact hdrop

theorem cstr_of_le {k : Nat} (h : k ≤ (cstr b 0).length) : cstr b k = (cstr b 0).drop k := by
  have hadd := cstr_add h
  rwa [Nat.zero_add] at hadd

theorem strstr_suffix {s pat cp : Str} (h : strstr s pat = some cp) : cp <:+ s := by
  induction s with
  | nil =>
      unfold strstr at h
      split at h
      · cases h
        exact List.suffix_refl _
      · cases h
  | cons c s ih =>
      unfold strstr at h
      split at h
      · cases h
        exact List.suffix_refl _
      · exact (ih h).trans (List.suffix_cons c s)

theorem boundaryOf_suffix {s cp : Str} (h : boundaryOf s = some cp) : cp <:+ s := by
  obtain ⟨at_, hat, rfl⟩ := Option.map_eq_some_iff.mp h
  obtain ⟨form, hform, hbound⟩ := Option.bind_eq_some_iff.mp hat
  have htail : at_ <:+ form.drop 19 := strstr_suffix hbound
  exact (List.drop_suffix 9 at_).trans
    (htail.trans ((List.drop_suffix 19 form).trans (strstr_suffix hform)))

/-- Where the text of a boundary starts. -/
theorem cstr_boundary {cp : Str} (h : boundaryOf (cstr b 13) = some cp) :
    cstr b (13 + ((cstr b 13).length - cp.length)) = cp := by
  rw [cstr_add (Nat.sub_le _ _)]
  exact (List.suffix_iff_eq_drop.mp (boundaryOf_suffix h)).symm

theorem boundary_inside_iff (cp : Str) :
    13 + ((cstr b 13).length - cp.length) ≤ (cstr b 0).length ↔ 13 ≤ (cstr b 0).length := by
  constructor
  · omega
  · intro hlong
    have hlen := congrArg List.length (cstr_of_le hlong)
    rw [List.length_drop] at hlen
    omega

/-- A clean line is one from which every call copies a part of it. -/
theorem lineClean_iff :
    LineClean b ↔ ∀ f src, strdupCall b = some (f, src) → src.Inside b := by
  constructor
  · intro hclean f src hcall
    obtain ⟨hname, hsource⟩ := strdupCall_iff.mp hcall
    cases f with
    | newcheck => exact absurd hname hclean.since
    | boundary =>
        obtain ⟨cp, hcp, rfl⟩ := Option.map_eq_some_iff.mp hsource
        have hlong := hclean.type hname (by rw [hcp]; rfl)
        exact (boundary_inside_iff cp).mpr hlong
    | fromHdr | referer | agent | passwd =>
        have hlong := hclean.long _ (by decide) hname
        cases hsource
        exact hlong
  · intro hall
    refine ⟨fun hname ↦ ?_, fun f hf hname ↦ ?_, fun hname hsome ↦ ?_⟩
    · exact hall _ _ (strdupCall_iff.mpr ⟨hname, rfl⟩)
    · have hsource : f.source b = some (.inline ((bytes f.name).length + f.separator)) := by
        cases f with
        | newcheck | boundary => exact absurd hf (by decide)
        | fromHdr | referer | agent | passwd => rfl
      exact hall _ _ (strdupCall_iff.mpr ⟨hname, hsource⟩)
    · obtain ⟨cp, hcp⟩ := Option.isSome_iff_exists.mp hsome
      have hsource : Field.boundary.source b =
          some (.inline (13 + ((cstr b 13).length - cp.length))) := by
        show Option.map _ (boundaryOf (cstr b 13)) = _
        rw [hcp]
        rfl
      exact (boundary_inside_iff cp).mp (hall _ _ (strdupCall_iff.mpr ⟨hname, hsource⟩))

/-- What is copied from inside a line is the value that the line gives. -/
theorem valueIn_of_inside (hcall : strdupCall b = some (f, src)) (hin : src.Inside b) :
    f.valueIn (cstr b 0) = some (src.text lowText b) := by
  obtain ⟨hname, hsource⟩ := strdupCall_iff.mp hcall
  have hheader := isHeader_of_takenFor hname
  cases f with
  | newcheck =>
      cases hsource
      exact hin.elim
  | boundary =>
      obtain ⟨cp, hcp, rfl⟩ := Option.map_eq_some_iff.mp hsource
      have hlong : 13 ≤ (cstr b 0).length := (boundary_inside_iff cp).mp hin
      show (if named _ _ then boundaryOf ((cstr b 0).drop 13) else none) = some (cstr b _)
      rw [if_pos (named_of_isHeader hheader hlong), ← cstr_of_le hlong, hcp, cstr_boundary hcp]
  | fromHdr | referer | agent | passwd =>
      cases hsource
      have hlong := Nat.le_trans (Nat.le_add_right _ _) hin
      unfold Field.valueIn
      rw [if_pos (named_of_isHeader hheader hlong)]
      exact congrArg some (cstr_of_le hin).symm

/-! ## The whole loop -/

theorem fieldOf_eq : fieldOf b = (strdupCall b).map Prod.fst := by
  have hiff (f : Field) : (takenFor b = some f.name ∧
      (f = .boundary → (boundaryOf (cstr b 13)).isSome)) ↔ ∃ src, strdupCall b = some (f, src) := by
    simp only [strdupCall_iff, exists_and_left, ← Option.isSome_iff_exists]
    cases f <;> simp [Field.source]
  cases hcall : strdupCall b with
  | none =>
      apply List.find?_eq_none.mpr
      intro f _ hf
      obtain ⟨src, hsrc⟩ := (hiff f).mp (of_decide_eq_true hf)
      rw [hcall] at hsrc
      cases hsrc
  | some c =>
      obtain ⟨f, src⟩ := c
      cases hfind : fieldOf b with
      | none =>
          have hnot := List.find?_eq_none.mp hfind f (by cases f <;> decide)
          exact absurd (decide_eq_true ((hiff f).mpr ⟨src, hcall⟩)) hnot
      | some g =>
          obtain ⟨src', hsrc'⟩ := (hiff g).mp
            (by simpa [imp_iff_not_or] using List.find?_some hfind)
          rw [hcall] at hsrc'
          cases hsrc'
          rfl

theorem nodup_all : Field.all.Nodup := by decide

theorem mem_all (f : Field) : f ∈ Field.all := by cases f <;> decide

/-- No member is assigned over a copy if and only if no line sets a member that has one. -/
theorem pairwise_dups {rs : List HeaderRead} :
    (dups lowText rs).Pairwise (fun a a' ↦ a.1 = a'.1 → a.2 = none) ↔
      rs.Pairwise fun p q ↦
        ∀ f, fieldOf p.line = some f → fieldOf q.line = some f → p.memory = false := by
  unfold dups
  rw [List.pairwise_filterMap]
  apply iff_of_eq
  congr 1
  ext p q
  rw [fieldOf_eq, fieldOf_eq]
  constructor
  · intro h f hp hq
    obtain ⟨c, hc, rfl⟩ := Option.map_eq_some_iff.mp hp
    obtain ⟨c', hc', heq⟩ := Option.map_eq_some_iff.mp hq
    have hnone := h _ (by rw [hc]; rfl) _ (by rw [hc']; rfl) heq.symm
    simpa using hnone
  · intro h a ha a' ha' heq
    obtain ⟨c, hc, rfl⟩ := Option.map_eq_some_iff.mp ha
    obtain ⟨c', hc', rfl⟩ := Option.map_eq_some_iff.mp ha'
    have hfalse := h c.1 (by rw [hc]; rfl) (by rw [hc']; exact congrArg some heq.symm)
    simp [hfalse]

/-! ## The loop of httpd -/

/-- What a line does to the members of `rq`. -/
theorem headerLine_value {ε : Type} (env : HttpEnv ε) (h : Headers) (f : Field) :
    (headerLine env h).rq.value f = match strdupCall h.inlineBuf with
      | some (g, src) =>
          if f = g then some (src.text env.lowText h.inlineBuf) else h.rq.value f
      | none => h.rq.value f := by
  have hbound : (boundaryOf (cstr h.inlineBuf 13)) =
      ((strstr (cstr h.inlineBuf 13) (bytes "multipart/form-data")).bind fun cp ↦
        strstr (cp.drop 19) (bytes "boundary=")).map (·.drop 9) := rfl
  unfold headerLine strdupCall
  by_cases hlen : isHeader h.inlineBuf "Content-Length:"
  · simp only [hlen, if_true]
  by_cases hsince : isHeader h.inlineBuf "If-Modified-Since:"
  · simp only [hlen, hsince, if_true]
    cases f <;> rfl
  by_cases hfrom : isHeader h.inlineBuf "From:"
  · simp only [hlen, hsince, hfrom, if_true]
    cases f <;> rfl
  by_cases href : isHeader h.inlineBuf "Referer:"
  · simp only [hlen, hsince, hfrom, href, if_true]
    cases f <;> rfl
  by_cases hagent : isHeader h.inlineBuf "User-Agent:"
  · simp only [hlen, hsince, hfrom, href, hagent, if_true]
    cases f <;> rfl
  by_cases hauth : isHeader h.inlineBuf "Authorization:"
  · simp only [hlen, hsince, hfrom, href, hagent, hauth, if_true]
    cases f <;> rfl
  by_cases htype : isHeader h.inlineBuf "Content-Type:"
  · simp only [hlen, hsince, hfrom, href, hagent, hauth, htype, if_true]
    cases hcp : (strstr (cstr h.inlineBuf 13) (bytes "multipart/form-data")).bind fun cp ↦
        strstr (cp.drop 19) (bytes "boundary=") with
    | none =>
        rw [hcp] at hbound
        rw [hbound]
        rfl
    | some cp =>
        rw [hcp] at hbound
        have htext := cstr_boundary hbound
        rw [hbound]
        cases f with
        | boundary => exact congrArg some htext.symm
        | newcheck | fromHdr | referer | agent | passwd => rfl
  · simp only [hlen, hsince, hfrom, href, hagent, hauth, htype, Bool.false_eq_true, if_false]
    split <;> rfl

theorem headerLine_inlineBuf {ε : Type} (env : HttpEnv ε) (h : Headers) :
    (headerLine env h).inlineBuf = h.inlineBuf := by
  unfold headerLine
  dsimp only
  repeat' split
  all_goals rfl

def Received.rq : Received → Option ReqInfo
  | .upload rq _ _ | .request rq => some rq
  | _ => none

theorem endOfHeaders_value {ε : Type} {env : HttpEnv ε} {h : Headers} {lines : List (List UInt8)}
    {body : List (Option (List UInt8))} {rq : ReqInfo}
    (hrq : (endOfHeaders env h lines body).rq = some rq) (f : Field) :
    rq.value f = h.rq.value f := by
  unfold endOfHeaders at hrq
  repeat' split at hrq
  all_goals cases hrq
  all_goals cases f <;> rfl

/-- A line that is read as a whole, with memory for a copy. -/
def HeaderRead.of (line : List UInt8) : HeaderRead := ⟨line, cstr (rip (store line [])) 0, true⟩

/-- The loop of `httpd` sets the members to these values, as long as there is memory. -/
theorem headerLoop_values {ε : Type} {env : HttpEnv ε} {body : List (Option (List UInt8))}
    {lines : List (List UInt8)} {h : Headers} {rq : ReqInfo} {s : Owned Field Str}
    (hs : s.Inv) (hagree : ∀ f, h.rq.value f = s.value f)
    (hrq : (headerLoop env body lines h).rq = some rq) (f : Field) :
    rq.value f = (s.run (dups env.lowText
      (inlineReads (lines.map .of) h.inlineBuf))).value f := by
  induction lines generalizing h s with
  | nil =>
      cases hrq
      exact hagree f
  | cons line lines ih =>
      unfold headerLoop at hrq
      have hreads : inlineReads ((line :: lines).map .of) h.inlineBuf =
          if cstr (rip (store line h.inlineBuf)) 0 = [] then []
          else { HeaderRead.of line with line := rip (store line h.inlineBuf) } ::
            inlineReads (lines.map .of) (rip (store line h.inlineBuf)) := rfl
      rw [hreads]
      by_cases hblank : cstr (rip (store line h.inlineBuf)) 0 = []
      · simp only [hblank, if_true] at hrq ⊢
        exact (endOfHeaders_value hrq f).trans (hagree f)
      · simp only [hblank, if_false] at hrq ⊢
        have hline := headerLine_value env { h with inlineBuf := rip (store line h.inlineBuf) }
        cases hcall : strdupCall (rip (store line h.inlineBuf)) with
        | none =>
            simp only [hcall] at hline
            have hrest := ih hs (fun f ↦ (hline f).trans (hagree f)) hrq
            rw [hrest, headerLine_inlineBuf]
            simp [dups, hcall]
        | some c =>
            obtain ⟨g, src⟩ := c
            simp only [hcall] at hline
            have hafter (f : Field) := (hline f).trans
              (Eq.trans (by rw [hagree f]) (Owned.value_assign hs).symm)
            have hrest := ih (hs.assign _) hafter hrq
            rw [hrest, headerLine_inlineBuf]
            simp [dups, hcall, Owned.run, HeaderRead.of]

/-- The members of `rq` are copies from their own lines, each released once, if and only if every
line reaches up to its value, no part of a line stands for another value than the line, and no
member is set over a copy. -/
theorem header_values_iff (lowText : UInt8 → Str) (reads : List HeaderRead) (old : List UInt8) :
    ValuesSound lowText reads old ↔ HeadersClean reads old := by
  have honce := (@Owned.released_once_iff _ _ (dups lowText (inlineReads reads old)) _ _
    nodup_all mem_all).trans pairwise_dups
  constructor
  · intro hsound
    refine ⟨fun r hr ↦ lineClean_iff.mpr fun f src hcall ↦ (hsound.inside r hr f src hcall).1,
      fun r hr f hf ↦ ?_, honce.mp hsound.released⟩
    rw [fieldOf_eq] at hf
    obtain ⟨⟨g, src⟩, hcall, rfl⟩ := Option.map_eq_some_iff.mp hf
    obtain ⟨hin, hwhole⟩ := hsound.inside r hr g src hcall
    exact hwhole.trans (valueIn_of_inside hcall hin).symm
  · intro hclean
    have hinside : ∀ r ∈ inlineReads reads old, ∀ f src, strdupCall r.line = some (f, src) →
        src.Inside r.line ∧ f.valueIn r.whole = some (src.text lowText r.line) := by
      intro r hr f src hcall
      have hin := lineClean_iff.mp (hclean.line r hr) f src hcall
      have hfield : fieldOf r.line = some f := by
        rw [fieldOf_eq, hcall]
        rfl
      exact ⟨hin, (hclean.whole r hr f hfield).trans (valueIn_of_inside hcall hin)⟩
    refine ⟨hinside, fun f v hv ↦ ?_, honce.mpr hclean.once⟩
    obtain ⟨r, hr, hdup⟩ := List.mem_filterMap.mp (Owned.value_run hv)
    obtain ⟨⟨g, src⟩, hcall, heq⟩ := Option.map_eq_some_iff.mp hdup
    obtain ⟨rfl, htext⟩ := Prod.mk.inj heq
    refine ⟨r, hr, ?_⟩
    rw [(hinside r hr g src hcall).2]
    split at htext
    · exact htext
    · cases htext

/-- A password that is the end of the line before, behind an Authorization line that has none. -/
def stalePassword : List HeaderRead :=
  [.of (bytes "X-Forwarded-For: 1.1.YWRtaW46\n"), .of (bytes "Authorization:\n")]

theorem stale_password :
    (headerValues (fun _ ↦ []) stalePassword []).value .passwd = some (bytes "YWRtaW46") ∧
      ¬ ValuesSound (fun _ ↦ []) stalePassword [] := by
  refine ⟨by decide, fun h ↦ ?_⟩
  have hlast : ∃ r ∈ inlineReads stalePassword [],
      strdupCall r.line = some (.passwd, .inline 21) ∧ (cstr r.line 0).length < 21 := by
    decide
  obtain ⟨r, hr, hcall, hshort⟩ := hlast
  have hin : 21 ≤ (cstr r.line 0).length := (h.inside r hr _ _ hcall).1
  omega

end PrintServer.Http
