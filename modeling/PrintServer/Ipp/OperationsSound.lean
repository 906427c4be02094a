import PrintServer.Ipp.Operations

/-!
# When an IPP request is sound

`ippGetURIFileName` gives NULL for a URI without a file, and its callers compare what it gives.
Cancel-Job keeps the flag of a job that was found while it loses the job, and Get-Jobs compares with
a name that the request need not give.
-/

namespace PrintServer.Ipp

open Http (Str bytes chr stricmp)
open Lib

/-! ## What the requests have to meet -/

/-- Behind its first `/` the URI has a file, or behind the next one where that `/` is doubled. -/
def NamesFile (uri : Str) : Prop :=
  ∃ front rest, uri = front ++ chr '/' :: rest ∧ chr '/' ∉ front ∧
    (rest.head? = some (chr '/') → chr '/' ∈ rest.tail)

/-- The value of an attribute of tag uri names a file. -/
def UriFound (a : Attribute) : Prop := a.tag = ippTagUri → ∀ uri ∈ a.text, NamesFile uri

/-- What `printer-uri` is for, under the name that the loop gives the attribute. -/
def PrinterUriOk (id : Option Attr) (a : Attribute) : Prop := id = some .printerUri → UriFound a

/-- A `job-uri` is compared with those of the jobs that are listed. -/
def JobUriOk (id : Option Attr) (a : Attribute) (now : Moment) : Prop :=
  id = some .jobUri → now.chain ≠ [] → UriFound a

/-- The attribute of what arrives; a value without a name is one more of the attribute before it. -/
def Arrival.id (attribId : Option Attr) (x : Arrival) : Option Attr :=
  match x.got with
  | .group _ => attribId
  | .attribute a => a.idKept attribId

/-- The attribute that a value without a name behind `front` belongs to. -/
def idBehind (front : List Arrival) : Option Attr := front.foldl Arrival.id none

def Arrival.given (attr : Attr) (attribId : Option Attr) (x : Arrival) :
    List (Attribute × Moment) :=
  match x.got with
  | .group _ => []
  | .attribute a => if a.idKept attribId = some attr then [(a, x.now)] else []

def givenFrom (attr : Attr) : Option Attr → List Arrival → List (Attribute × Moment)
  | _, [] => []
  | attribId, x :: xs => x.given attr attribId ++ givenFrom attr (x.id attribId) xs

/-- The values that a request gives for an attribute. -/
def given (attr : Attr) (xs : List Arrival) : List (Attribute × Moment) := givenFrom attr none xs

section

variable {σ : Type}

/-- The condition of a turn behind `front`, by what `ippGetAttribute` gave. -/
def ArrivalOk (ok : List Arrival → Attribute → Moment → Prop)
    (okEnd : List Arrival → Bool → Moment → Prop) (front : List Arrival) (x : Arrival) : Prop :=
  match x.got with
  | .group tag =>
      (tag = ippTagZero → okEnd front false x.now) ∧ (tag = ippTagEnd → okEnd front true x.now)
  | .attribute a => ok front a x.now

/-- Each attribute that is looked at meets `ok` behind what came before it, and the end `okEnd`. -/
def AttributesMeet (turn : σ → Attribute → Moment → Checked (Turn σ Response))
    (finish : σ → Bool → Moment → Checked Response)
    (ok : List Arrival → Attribute → Moment → Prop) (okEnd : List Arrival → Bool → Moment → Prop)
    (last : Moment) : σ → List Arrival → Prop :=
  TurnsMeet (attributeTurn turn finish) (ArrivalOk ok okEnd) (fun front ↦ okEnd front false last) []

end

/-- Whether an attribute that designates the job to cancel is other than the `job-id` of no job. -/
def Arrival.designates (x : Arrival) : Option Bool :=
  match x.got with
  | .group _ => none
  | .attribute a =>
      if a.id = some .jobId then some (findJobId a x.now).isSome
      else if a.id = some .jobUri then some true
      else none

/-- The last attribute that designates a job is not the `job-id` of no job. -/
def CancelEndOk (xs : List Arrival) (_ : Bool) (_ : Moment) : Prop :=
  (xs.filterMap Arrival.designates).getLast? ≠ some false

/-- The last value of `which-jobs` is `completed`. -/
def AsksCompleted (xs : List Arrival) : Prop :=
  ∃ x ∈ (given .whichJob xs).getLast?, x.1.text = some (bytes "completed")

/-- The smallest value of `limit`, where it is below the default. -/
def smallestLimit (xs : List Arrival) : Int :=
  ((given .limit xs).map (·.1.value.int)).foldl min 3

/-- Where the jobs of a user are asked for, a name of the user has been kept: one was given, and
`strdup` had memory for it. -/
def JobsEndOk (xs : List Arrival) (tagEnd : Bool) (now : Moment) : Prop :=
  tagEnd = true → ¬ AsksCompleted xs → now.chain ≠ [] → smallestLimit xs ≠ 0 →
    (∃ x ∈ given .myJob xs, x.1.value.bool = true) →
    ∃ x ∈ given .userName xs, x.2.malloc 0 = true

variable (port : Nat)

/-- The condition on the attributes behind the language, by the operation. -/
def OperationOk (r : Request) (first : Moment) (xs : List Arrival) : Prop :=
  let op := (r.head.getD 2 0).toNat * 256 + (r.head.getD 3 0).toNat
  if op = 0x02 ∨ op = 0x04 then
    ¬ (r.head.getD 3 0 = ippPrintJob ∧ first.jobsNo.toNat ≥ ippMaxUser) →
      AttributesMeet (printAttribute port r.docType (r.head.getD 3 0))
        (printFinish (r.head.getD 3 0)) (fun _ a _ ↦ PrinterUriOk a.id a) (fun _ _ _ ↦ True)
        r.last {} xs
  else if op = 0x08 then
    AttributesMeet (cancelAttribute port r.docType) cancelFinish
      (fun _ a now ↦ PrinterUriOk a.id a ∧ JobUriOk a.id a now) CancelEndOk r.last {} xs
  else if op = 0x09 then
    AttributesMeet (jobAttributeAttribute port r.docType) jobAttributeFinish
      (fun front a now ↦ PrinterUriOk (a.idKept (idBehind front)) a ∧
        JobUriOk (a.idKept (idBehind front)) a now)
      (fun _ _ _ ↦ True) r.last {} xs
  else if op = 0x0A then
    AttributesMeet (jobsAttribute port r.docType) jobsFinish
      (fun front a _ ↦ PrinterUriOk (a.idKept (idBehind front)) a) JobsEndOk r.last {} xs
  else if op = 0x0B then
    AttributesMeet (printerAttribute port r.docType) printerFinish
      (fun front a _ ↦ PrinterUriOk (a.idKept (idBehind front)) a) (fun _ _ _ ↦ True) r.last {} xs
  else True

/-- The request gets as far as its operation. -/
structure Reaches (r : Request) (first : Moment) (xs : List Arrival) : Prop where
  length : 8 ≤ r.head.length
  version : r.head.getD 0 0 = 1
  attributes : ∃ m₁ m₂ charset language,
    r.arrivals = ⟨.group ippTagOperation, m₁⟩ :: ⟨.attribute charset, m₂⟩ ::
      ⟨.attribute language, first⟩ :: xs ∧ charsetOk charset = .ok .ok ∧
      language.tag = ippTagLanguage

def RequestOk (r : Request) : Prop := ∀ first xs, Reaches r first xs → OperationOk port r first xs

/-! ## Strings -/

@[simp] theorem sound_passed_iff (p : Option Str) : Sound (passed p) ↔ p ≠ none := by
  cases p with
  | none => simp [passed]
  | some s => simp [passed]

/-- A comparison of two strings, whatever is made of it. -/
theorem sound_both_iff {β : Type} (f : Str → Str → β) (p q : Option Str) :
    Sound (do return f (← passed p) (← passed q) : Checked β) ↔ p ≠ none ∧ q ≠ none := by
  cases p with
  | none => simp [passed, Sound.bind_iff]
  | some s =>
    have hq : Sound (do return f s (← passed q) : Checked β) ↔ q ≠ none := by
      rw [Sound.bind_iff_left _ fun t ↦ Sound.of_pure (f s t), sound_passed_iff]
    rw [and_iff_right (Option.some_ne_none s), ← hq]
    rfl

theorem sound_cStricmp_iff (p q : Option Str) : Sound (cStricmp p q) ↔ p ≠ none ∧ q ≠ none :=
  sound_both_iff stricmp p q

theorem sound_cStrcmp_iff (p q : Option Str) : Sound (cStrcmp p q) ↔ p ≠ none ∧ q ≠ none :=
  sound_both_iff (fun s t ↦ decide (s = t)) p q

theorem sound_isOneOf {p : Option Str} (hp : p ≠ none) (s t : Str) : Sound (isOneOf p s t) := by
  have hcmp (s : Str) : Sound (cStrcmp p (some s)) :=
    (sound_cStrcmp_iff p (some s)).mpr ⟨hp, Option.some_ne_none s⟩
  rw [isOneOf, Sound.bind_iff, and_iff_right (hcmp s)]
  intro equal _
  rw [Sound.ite_iff]
  exact ⟨fun _ ↦ Sound.of_pure true, fun _ ↦ hcmp t⟩

theorem sound_cStrdup_iff (malloc : Bool) (p : Option Str) :
    Sound (cStrdup malloc p) ↔ p ≠ none := by
  rw [cStrdup, Sound.bind_iff_left _ fun s ↦ Sound.of_pure (if malloc then some s else none),
    sound_passed_iff]

theorem sound_written {size : Nat} {s : Str} (h : s.length + 1 ≤ size) :
    Sound (written size s) := by
  rw [written, if_pos h]
  exact Sound.ok s

/-- A tag of strings has set the pointer to the text. -/
theorem text_ne_none {a : Attribute} (h : kindOf a.tag = .string ∨ kindOf a.tag = .language) :
    a.text ≠ none := by
  obtain ⟨tag, name, value⟩ := a
  have hval {k : Kind} (v : Value k) (hk : k = .string ∨ k = .language) : v.text ≠ none := by
    cases v with
    | string text => exact Option.some_ne_none _
    | language charset text => exact Option.some_ne_none _
    | _ => simp at hk
  exact hval value h

/-! ## URIs -/

theorem strchr_eq_none {s : Str} {c : UInt8} : strchr s c = none ↔ c ∉ s := by
  rw [strchr]
  split
  · rename_i h
    rw [List.dropWhile_eq_nil_iff] at h
    exact iff_of_true rfl fun hc ↦ by simpa using h c hc
  · rename_i h
    apply iff_of_false (Option.some_ne_none _)
    rw [List.dropWhile_eq_nil_iff] at h
    simpa using h

theorem strchr_append {front rest : Str} {c : UInt8} (h : c ∉ front) :
    strchr (front ++ c :: rest) c = some (c :: rest) := by
  have hfront : ∀ x ∈ front, decide (x ≠ c) = true := fun x hx ↦ by
    simpa using ne_of_mem_of_not_mem hx h
  rw [strchr, List.dropWhile_append_of_pos hfront, List.dropWhile_cons_of_neg (by simp)]
  simp

theorem fileName_isSome_iff (uri : Str) :
    ippGetURIFileName uri ≠ none ↔ NamesFile uri := by
  by_cases h : chr '/' ∈ uri
  · obtain ⟨front, rest, rfl, hfront⟩ := List.eq_append_cons_of_mem h
    have hunique : NamesFile (front ++ chr '/' :: rest) ↔
        (rest.head? = some (chr '/') → chr '/' ∈ rest.tail) := by
      constructor
      · rintro ⟨front', rest', heq, hfront', hrest⟩
        have h1 : strchr (front ++ chr '/' :: rest) (chr '/') = some (chr '/' :: rest) :=
          strchr_append hfront
        rw [heq, strchr_append hfront', Option.some.injEq, List.cons.injEq] at h1
        exact h1.2 ▸ hrest
      · intro hrest
        exact ⟨front, rest, rfl, hfront, hrest⟩
    rw [ippGetURIFileName, strchr_append hfront, hunique]
    cases rest with
    | nil => simp [chr]
    | cons c rest =>
      by_cases hc : c = chr '/'
      · simp [hc, strchr_eq_none]
      · simp [hc]
  · rw [ippGetURIFileName, strchr_eq_none.mpr h]
    apply iff_of_false
    · exact fun hn ↦ hn rfl
    · rintro ⟨front, rest, rfl, -, -⟩
      simp at h

theorem sound_destPortLoop_iff (p : Option Str) {n : Nat} (hn : n ≠ 0) (i : Nat) (q : Str) :
    Sound (destPortLoop p n i q) ↔ p ≠ none := by
  induction n generalizing i q with
  | zero => contradiction
  | succ n ih =>
    rw [destPortLoop, Sound.bind_iff, sound_cStricmp_iff]
    constructor
    · intro h
      exact h.1.1
    · intro hp
      refine ⟨⟨hp, Option.some_ne_none _⟩, fun c _ ↦ ?_⟩
      rw [Sound.ite_iff]
      refine ⟨fun _ ↦ Sound.ok i, fun _ ↦ ?_⟩
      by_cases hzero : n = 0
      · rw [hzero]
        exact Sound.ok (i + 1)
      · exact (ih hzero _ _).mpr hp

theorem bytes_length_formats : ippBinPrinterUriFormat.length = 3 ∧
    ippTxtPrinterExtFormat.length = 4 ∧ (bytes "/job").length = 4 := by decide

/-- The name of the printer fits its array, with the extension or without. -/
theorem sound_printerName (docType : DocType) : Sound (printerName docType) := by
  cases docType with
  | binary => exact ⟨ippBinPrinterUriFormat, by decide⟩
  | text => exact ⟨ippBinPrinterUriFormat ++ ippTxtPrinterExtFormat, by decide⟩

theorem sound_ippValidDestPort_iff {uri : Option Str} (docType : DocType) (h : uri ≠ none) :
    Sound (ippValidDestPort uri docType) ↔ ∀ s ∈ uri, NamesFile s := by
  obtain ⟨s, rfl⟩ := Option.ne_none_iff_exists'.mp h
  rw [ippValidDestPort, Sound.bind_iff, and_iff_right (sound_printerName docType)]
  have hloop (q : Str) : Sound (do
      let p := ippGetURIFileName (← passed (some s))
      destPortLoop p numOfPrnPort 0 q) ↔ NamesFile s := by
    rw [← fileName_isSome_iff]
    exact sound_destPortLoop_iff _ Nat.one_ne_zero 0 q
  obtain ⟨q, hq⟩ := sound_printerName docType
  constructor
  · intro h t ht
    cases ht
    exact (hloop q).mp (h q hq)
  · intro h q _
    exact (hloop q).mpr (h s rfl)

theorem length_jobUri (docType : DocType) (jobId : UInt16) :
    (jobUri docType jobId).length + 1 ≤ 20 := by
  obtain ⟨hbin, htxt, hjob⟩ := bytes_length_formats
  have hext : (if docType = .binary then [] else ippTxtPrinterExtFormat : Str).length ≤ 4 := by
    split
    · exact Nat.zero_le 4
    · exact htxt.le
  have hdigits : (Nat.toDigits 10 jobId.toNat).length ≤ 5 :=
    (Nat.length_toDigits_le_iff (by decide) (by decide)).mpr
      (jobId.toNat_lt.trans (by decide))
  have hid : (threeDigits jobId.toNat).length ≤ 5 := by
    simp only [threeDigits, List.length_append, List.length_replicate, List.length_map]
    omega
  simp only [jobUri, List.length_append]
  omega

/-- The URI of each job fits, and is compared with the file of the URI. -/
theorem sound_destJobLoop_iff (port : Nat) (p : Option Str) (docType : DocType)
    (obj : Nat → ListedJob) (jobs : List Nat) :
    Sound (destJobLoop port p docType obj jobs) ↔ (jobs ≠ [] → p ≠ none) := by
  induction jobs with
  | nil => exact iff_of_true (Sound.of_pure none) fun h ↦ absurd rfl h
  | cons job jobs ih =>
    rw [destJobLoop, Sound.bind_iff,
      and_iff_right (sound_written (length_jobUri docType (obj job).jobId))]
    have hturn (q : Str) : Sound (do
        if (← cStricmp (some (setPort q port)) p) = 0 then return some job
        destJobLoop port p docType obj jobs) ↔ p ≠ none := by
      rw [Sound.bind_iff, sound_cStricmp_iff]
      constructor
      · intro h
        exact h.1.2
      · intro hp
        refine ⟨⟨Option.some_ne_none _, hp⟩, fun c _ ↦ ?_⟩
        rw [Sound.ite_iff]
        exact ⟨fun _ ↦ Sound.of_pure (some job), fun _ ↦ ih.mpr fun _ ↦ hp⟩
    obtain ⟨q, hq⟩ := sound_written (length_jobUri docType (obj job).jobId)
    constructor
    · intro h _
      exact (hturn q).mp (h q hq)
    · intro h q _
      exact (hturn q).mpr (h (List.cons_ne_nil job jobs))

theorem sound_ippValidDestJob_iff (port : Nat) {uri : Option Str} (docType : DocType) (m : Moment)
    (h : uri ≠ none) : Sound (ippValidDestJob port uri docType m) ↔
      (m.chain ≠ [] → ∀ s ∈ uri, NamesFile s) := by
  obtain ⟨s, rfl⟩ := Option.ne_none_iff_exists'.mp h
  have hloop : Sound (ippValidDestJob port (some s) docType m) ↔
      (m.chain ≠ [] → NamesFile s) := by
    rw [← fileName_isSome_iff]
    exact sound_destJobLoop_iff port _ docType m.obj m.chain
  rw [hloop]
  exact ⟨fun hs hc t ht ↦ Option.some.inj ht ▸ hs hc, fun hs hc ↦ hs hc s rfl⟩

/-! ## Attributes -/

theorem kindOf_uri {a : Attribute} (h : a.tag = ippTagUri) : kindOf a.tag = .string := by
  rw [h]
  decide

theorem kindOf_name {a : Attribute} (h : nameStatus a = .ok) :
    kindOf a.tag = .string ∨ kindOf a.tag = .language := by
  rw [nameStatus] at h
  split at h
  · exact nomatch h
  · rename_i htag
    rw [not_and_or, not_not, not_not] at htag
    rcases htag with htag | htag
    · exact .inl (by rw [htag]; decide)
    · exact .inr (by rw [htag]; decide)

theorem sound_printerUri_iff (port : Nat) (docType : DocType) (a : Attribute) :
    Sound (printerUri port docType a) ↔ UriFound a := by
  rw [printerUri, UriFound]
  by_cases htag : a.tag = ippTagUri
  · have hport := sound_ippValidDestPort_iff docType (text_ne_none (.inl (kindOf_uri htag)))
    rw [if_neg (not_not.mpr htag), ← hport]
    simp only [htag, true_implies]
    exact Sound.bind_iff_left _ fun i ↦ Sound.of_pure (if i ≠ port then Status.badRequest else .ok)
  · rw [if_pos htag]
    exact iff_of_true (Sound.of_pure Status.badRequest) fun h ↦ absurd h htag

/-- A status by the tag and then by the text, where the tag is one of strings. -/
theorem sound_textStatus {a : Attribute} {tag : UInt8} (htag : kindOf tag = .string) (s t : Str)
    (known unknown : Status) :
    Sound (do
      if a.tag ≠ tag then return .badRequest
      return if ← isOneOf a.text s t then known else unknown : Checked Status) := by
  rw [Sound.ite_iff]
  refine ⟨fun _ ↦ Sound.of_pure Status.badRequest, fun h ↦ ?_⟩
  have htext : a.text ≠ none := text_ne_none (.inl (by rw [not_not.mp h, htag]))
  exact (Sound.bind_iff_left _ fun b ↦ Sound.of_pure (if b then known else unknown)).mpr
    (sound_isOneOf htext s t)

theorem sound_docFormat (a : Attribute) : Sound (docFormat a) :=
  sound_textStatus (by decide) _ _ .ok .documentFormat

theorem sound_charsetOk (a : Attribute) : Sound (charsetOk a) :=
  sound_textStatus (by decide) _ _ .ok .charset

variable {σ : Type}

/-- A status that is only handed on. -/
theorem sound_goOn (x : Checked Status) (f : Status → Turn σ Response) :
    Sound (do return f (← x)) ↔ Sound x :=
  Sound.bind_iff_left x fun retCode ↦ Sound.of_pure (f retCode)

/-- A loop over the attributes is sound where its turns and its end are; `r` says what it keeps of
the attributes in front, of which a group's tag changes nothing. -/
theorem sound_attributeLoop_iff {turn : σ → Attribute → Moment → Checked (Turn σ Response)}
    {finish : σ → Bool → Moment → Checked Response}
    {ok : List Arrival → Attribute → Moment → Prop} {okEnd : List Arrival → Bool → Moment → Prop}
    {r : List Arrival → σ → Prop}
    (hturn : ∀ front s a now, r front s → (Sound (turn s a now) ↔ ok front a now))
    (hgroup : ∀ front s tag now, r front s → r (front ++ [⟨.group tag, now⟩]) s)
    (hnext : ∀ front s a now t, r front s → turn s a now = .ok (.next t) →
      r (front ++ [⟨.attribute a, now⟩]) t)
    (hfinish : ∀ front s tagEnd now, r front s →
      (Sound (finish s tagEnd now) ↔ okEnd front tagEnd now)) (last : Moment) {s : σ}
    (hs : r [] s) (xs : List Arrival) :
    Sound (attributeLoop turn finish last s xs) ↔
      AttributesMeet turn finish ok okEnd last s xs := by
  refine sound_turns_iff (fun front s x hs ↦ ?_) (fun front s x t hs ht ↦ ?_)
    (fun front s hs ↦ hfinish front s false last hs) hs xs
  · obtain ⟨got, now⟩ := x
    match got with
    | .attribute a => exact hturn front s a now hs
    | .group tag =>
      -- either closing tag ends the loop
      have hend := fun tagEnd ↦ hfinish front s tagEnd now hs
      have hne : ippTagEnd ≠ ippTagZero := by decide
      by_cases hzero : tag = ippTagZero
      · simp [attributeTurn, ArrivalOk, hzero, hne.symm, Sound.map_iff, hend]
      · by_cases htag : tag = ippTagEnd
        · simp [attributeTurn, ArrivalOk, htag, hne, Sound.map_iff, hend]
        · simp [attributeTurn, ArrivalOk, hzero, htag]
  · obtain ⟨got, now⟩ := x
    match got with
    | .attribute a => exact hnext front s a now t hs ht
    | .group tag =>
      dsimp only [attributeTurn] at ht
      split at ht
      · obtain ⟨b, -, hb⟩ := map_eq_ok ht
        exact nomatch hb
      split at ht
      · obtain ⟨b, -, hb⟩ := map_eq_ok ht
        exact nomatch hb
      · cases ht
        exact hgroup front s tag now hs

/-- Where the conditions do not ask for what came before. -/
theorem sound_attributeLoop_iff_of_forall
    {turn : σ → Attribute → Moment → Checked (Turn σ Response)}
    {finish : σ → Bool → Moment → Checked Response} {ok : Attribute → Moment → Prop}
    {okEnd : Bool → Moment → Prop} (hturn : ∀ s a now, Sound (turn s a now) ↔ ok a now)
    (hfinish : ∀ s tagEnd now, Sound (finish s tagEnd now) ↔ okEnd tagEnd now) (last : Moment)
    (s : σ) (xs : List Arrival) :
    Sound (attributeLoop turn finish last s xs) ↔
      AttributesMeet turn finish (fun _ ↦ ok) (fun _ ↦ okEnd) last s xs :=
  @sound_attributeLoop_iff _ turn finish (fun _ ↦ ok) (fun _ ↦ okEnd) (fun _ _ ↦ True)
    (fun _ s a now _ ↦ hturn s a now) (fun _ _ _ _ _ ↦ trivial) (fun _ _ _ _ _ _ _ ↦ trivial)
    (fun _ s tagEnd now _ ↦ hfinish s tagEnd now) last s trivial xs

/-! What the arrivals in front give -/

section Front

variable {front : List Arrival} {a : Attribute} {now : Moment} {attr : Attr}

theorem idBehind_concat (x : Arrival) : idBehind (front ++ [x]) = x.id (idBehind front) :=
  List.foldl_concat Arrival.id none x front

@[simp] theorem idBehind_group (tag : UInt8) :
    idBehind (front ++ [⟨.group tag, now⟩]) = idBehind front := idBehind_concat _

@[simp] theorem idBehind_attribute :
    idBehind (front ++ [⟨.attribute a, now⟩]) = a.idKept (idBehind front) := idBehind_concat _

theorem givenFrom_append (attribId : Option Attr) (xs ys : List Arrival) :
    givenFrom attr attribId (xs ++ ys) =
      givenFrom attr attribId xs ++ givenFrom attr (xs.foldl Arrival.id attribId) ys := by
  induction xs generalizing attribId with
  | nil => rfl
  | cons x xs ih =>
    rw [List.cons_append, givenFrom, ih, givenFrom, List.append_assoc]
    rfl

theorem given_concat (x : Arrival) :
    given attr (front ++ [x]) = given attr front ++ x.given attr (idBehind front) := by
  rw [given, givenFrom_append, givenFrom, givenFrom, List.append_nil]
  rfl

theorem given_group (tag : UInt8) :
    given attr (front ++ [⟨.group tag, now⟩]) = given attr front := by
  rw [given_concat]
  exact List.append_nil _

theorem given_self (h : a.idKept (idBehind front) = some attr) :
    given attr (front ++ [⟨.attribute a, now⟩]) = given attr front ++ [(a, now)] := by
  rw [given_concat]
  show _ ++ (if a.idKept (idBehind front) = some attr then [(a, now)] else []) = _
  rw [if_pos h]

theorem given_of_ne (h : a.idKept (idBehind front) ≠ some attr) :
    given attr (front ++ [⟨.attribute a, now⟩]) = given attr front := by
  rw [given_concat]
  show _ ++ (if a.idKept (idBehind front) = some attr then [(a, now)] else []) = _
  rw [if_neg h, List.append_nil]

end Front

theorem goOn_eq_next {retCode : Status} {unsupport : List Attribute} {s t : σ}
    (h : goOn retCode unsupport s = .next t) : retCode = .ok ∧ t = s := by
  rw [goOn] at h
  split at h
  · rename_i hok
    cases h
    exact ⟨hok, rfl⟩
  · exact nomatch h

/-! ## The operations -/

variable (port : Nat) (docType : DocType)

theorem sound_keptName (ippreq : UInt8) {text : Option Str} (h : text ≠ none) (malloc : Bool)
    (old : Option Str) : Sound (keptName ippreq text malloc old) := by
  rw [keptName, Sound.ite_iff, sound_cStrdup_iff]
  exact ⟨fun _ ↦ h, fun _ ↦ Sound.of_pure old⟩

variable {a : Attribute}

theorem printerUriOk_self : PrinterUriOk (some .printerUri) a ↔ UriFound a := by
  rw [PrinterUriOk, forall_prop_of_true rfl]

theorem PrinterUriOk.of_ne {id : Option Attr} (h : id ≠ some .printerUri) : PrinterUriOk id a :=
  fun hid ↦ absurd hid h

theorem jobUriOk_self {now : Moment} :
    JobUriOk (some .jobUri) a now ↔ (now.chain ≠ [] → UriFound a) := by
  rw [JobUriOk, forall_prop_of_true rfl]

theorem JobUriOk.of_ne {id : Option Attr} {now : Moment} (h : id ≠ some .jobUri) :
    JobUriOk id a now := fun hid ↦ absurd hid h

/-- A turn that refuses the attribute, or goes on where it does not. -/
theorem sound_refuse {c : Prop} [Decidable c] (retCode : Status) (unsupport : List Attribute)
    (s : σ) {x : Checked (Turn σ Response)} (h : ¬c → Sound x) :
    Sound (if c then return goOn retCode unsupport s else x) := by
  rw [Sound.ite_iff]
  exact ⟨fun _ ↦ Sound.of_pure (goOn retCode unsupport s), h⟩

/-- A name is kept, whatever becomes of it. -/
theorem sound_keepName (ippreq : UInt8) (malloc : Bool) (old : Option Str)
    (unsupport : List Attribute) (s : σ) (f : Option Str → Turn σ Response) :
    Sound (do
      if nameStatus a ≠ .ok then return goOn .badRequest unsupport s
      let name ← keptName ippreq a.text malloc old
      return f name : Checked (Turn σ Response)) := by
  apply sound_refuse
  intro h
  rw [Sound.bind_iff_left _ fun name ↦ Sound.of_pure (f name)]
  exact sound_keptName ippreq (text_ne_none (kindOf_name (not_not.mp h))) malloc old

theorem sound_printAttribute_iff (ippreq : UInt8) (s : PrintVars) (a : Attribute) (now : Moment) :
    Sound (printAttribute port docType ippreq s a now) ↔ PrinterUriOk a.id a := by
  rw [printAttribute]
  generalize a.id = id
  match id with
  | some .printerUri =>
      rw [printerUriOk_self, ← sound_printerUri_iff port docType]
      exact sound_goOn _ fun retCode ↦ goOn retCode s.unsupport s
  | some .userName =>
      refine iff_of_true ?_ (.of_ne (by decide))
      exact sound_keepName ippreq (now.malloc 0) s.userName s.unsupport s _
  | some .jobName =>
      refine iff_of_true ?_ (.of_ne (by decide))
      exact sound_keepName ippreq (now.malloc 0) s.jobName s.unsupport s _
  | some .fidelity =>
      refine iff_of_true ?_ (.of_ne (by decide))
      exact sound_refuse _ _ _ fun _ ↦ Sound.of_pure _
  | some .docFormat =>
      refine iff_of_true ?_ (.of_ne (by decide))
      exact (sound_goOn _ fun retCode ↦ goOn retCode s.unsupport s).mpr (sound_docFormat a)
  | some .docName => exact iff_of_true (Sound.of_pure _) (.of_ne (by decide))
  | none | some .jobId | some .jobUri | some .limit | some .whichJob | some .myJob
  | some .requestAttrib => exact iff_of_true (Sound.of_pure _) (.of_ne (by decide))

theorem sound_printFinish (ippreq : UInt8) (s : PrintVars) (tagEnd : Bool) (now : Moment) :
    Sound (printFinish ippreq s tagEnd now) := by
  rw [printFinish]
  simp only [Sound.ite_iff]
  simp

theorem sound_ippPrintValidateJob_iff (ippreq : UInt8) (first last : Moment) (xs : List Arrival) :
    Sound (ippPrintValidateJob port docType ippreq first last xs) ↔
      (¬ (ippreq = ippPrintJob ∧ first.jobsNo.toNat ≥ ippMaxUser) →
        AttributesMeet (printAttribute port docType ippreq) (printFinish ippreq)
          (fun _ a _ ↦ PrinterUriOk a.id a) (fun _ _ _ ↦ True) last {} xs) := by
  rw [ippPrintValidateJob, Sound.ite_iff, and_iff_right fun _ ↦ Sound.of_pure _,
    sound_attributeLoop_iff_of_forall (sound_printAttribute_iff port docType ippreq) fun s tagEnd now ↦
      iff_true_intro (sound_printFinish ippreq s tagEnd now)]

/-- The search for the job of a URI, whatever becomes of it. -/
theorem sound_jobUri_iff (now : Moment) (unsupport : List Attribute) (s : σ)
    (f : Option Nat → Checked (Turn σ Response)) (hf : ∀ prnJob, Sound (f prnJob)) :
    Sound (do
      if a.tag ≠ ippTagUri then return goOn .badRequest unsupport s
      let prnJob ← ippValidDestJob port a.text docType now
      f prnJob : Checked (Turn σ Response)) ↔ (now.chain ≠ [] → UriFound a) := by
  by_cases htag : a.tag = ippTagUri
  · rw [if_neg (not_not.mpr htag), Sound.bind_iff_left _ hf,
      sound_ippValidDestJob_iff port docType now (text_ne_none (.inl (kindOf_uri htag)))]
    simp only [UriFound, htag, true_implies]
  · rw [if_pos htag]
    exact iff_of_true (Sound.of_pure _) fun _ h ↦ absurd h htag

theorem sound_cancelAttribute_iff (s : CancelVars) (a : Attribute) (now : Moment) :
    Sound (cancelAttribute port docType s a now) ↔
      PrinterUriOk a.id a ∧ JobUriOk a.id a now := by
  rw [cancelAttribute]
  generalize a.id = id
  match id with
  | some .printerUri =>
      rw [and_iff_left (JobUriOk.of_ne (by decide)), printerUriOk_self,
        ← sound_printerUri_iff port docType]
      exact sound_goOn _ fun retCode ↦ goOn retCode s.unsupport { s with prnUri := true }
  | some .jobId =>
      refine iff_of_true ?_ ⟨.of_ne (by decide), .of_ne (by decide)⟩
      exact sound_refuse _ _ _ fun _ ↦ Sound.of_pure _
  | some .jobUri =>
      rw [and_iff_right (PrinterUriOk.of_ne (by decide)), jobUriOk_self]
      apply sound_jobUri_iff port docType now
      intro prnJob
      rw [Sound.ite_iff]
      exact ⟨fun _ ↦ Sound.of_pure _, fun _ ↦ Sound.of_pure _⟩
  | some .userName =>
      exact iff_of_true (Sound.of_pure _) ⟨.of_ne (by decide), .of_ne (by decide)⟩
  | none | some .jobName | some .fidelity | some .docFormat | some .docName | some .limit
  | some .whichJob | some .myJob | some .requestAttrib =>
      exact iff_of_true (Sound.of_pure _) ⟨.of_ne (by decide), .of_ne (by decide)⟩

theorem sound_jobRead_iff (prnJob : Option Nat) : Sound (jobRead prnJob) ↔ prnJob ≠ none := by
  cases prnJob with
  | none => simp [jobRead]
  | some p => simp [jobRead]

theorem sound_cancelFinish_iff (s : CancelVars) (tagEnd : Bool) (now : Moment) :
    Sound (cancelFinish s tagEnd now) ↔ (s.cancelJob = true → s.prnJob ≠ none) := by
  rw [cancelFinish, Sound.ite_iff, and_iff_left fun _ ↦ Sound.of_pure _]
  apply imp_congr_right
  intro _
  rw [Sound.bind_iff_left, sound_jobRead_iff]
  intro prnJob
  simp only [Sound.ite_iff]
  simp

/-- What the flag and the pointer say of the attributes in front: the flag is set by the first one
that designates a job, which the loop only passes with a job found. -/
structure CancelRel (front : List Arrival) (s : CancelVars) : Prop where
  flag : s.cancelJob = (front.filterMap Arrival.designates).any fun _ ↦ true
  job : s.cancelJob = true →
    (front.filterMap Arrival.designates).getLast? = some s.prnJob.isSome

namespace CancelRel

variable {front : List Arrival} {s t : CancelVars} {now : Moment}

theorem finish_iff (h : CancelRel front s) :
    (s.cancelJob = true → s.prnJob ≠ none) ↔
      (front.filterMap Arrival.designates).getLast? ≠ some false := by
  cases hflag : s.cancelJob with
  | true =>
    rw [h.job hflag, Option.some_inj.ne, forall_prop_of_true rfl]
    cases s.prnJob <;> simp
  | false =>
    have hempty := h.flag
    rw [hflag] at hempty
    cases hlist : front.filterMap Arrival.designates with
    | nil => simp
    | cons b bs =>
      rw [hlist] at hempty
      exact nomatch hempty

/-- An attribute that designates no job. -/
theorem other (h : CancelRel front s) {x : Arrival} (hx : x.designates = none)
    (hflag : t.cancelJob = s.cancelJob) (hjob : t.prnJob = s.prnJob) :
    CancelRel (front ++ [x]) t := by
  have hsame : (front ++ [x]).filterMap Arrival.designates =
      front.filterMap Arrival.designates := by
    simp [hx]
  constructor
  · rw [hsame, hflag]
    exact h.flag
  · rw [hsame, hflag, hjob]
    exact h.job

/-- An attribute that designates one, found or not. -/
theorem designated {x : Arrival} (hx : x.designates = some t.prnJob.isSome)
    (hflag : t.cancelJob = true) : CancelRel (front ++ [x]) t := by
  have hlast : (front ++ [x]).filterMap Arrival.designates =
      front.filterMap Arrival.designates ++ [t.prnJob.isSome] := by
    simp [hx]
  constructor
  · rw [hlast, hflag]
    simp
  · intro _
    rw [hlast, List.getLast?_concat]

theorem next (h : CancelRel front s)
    (ht : cancelAttribute port docType s a now = .ok (.next t)) :
    CancelRel (front ++ [⟨.attribute a, now⟩]) t := by
  have hother {id : Option Attr} (hid : a.id = id) (hne : id ≠ some .jobId)
      (hne' : id ≠ some .jobUri) : Arrival.designates ⟨.attribute a, now⟩ = none := by
    show (if a.id = some .jobId then _ else if a.id = some .jobUri then _ else none) = none
    rw [hid, if_neg hne, if_neg hne']
  rw [cancelAttribute] at ht
  split at ht
  · rename_i hid
    obtain ⟨retCode, -, ht⟩ := bind_eq_ok ht
    obtain ⟨-, rfl⟩ := goOn_eq_next (Except.ok.inj ht)
    exact h.other (hother hid (by decide) (by decide)) rfl rfl
  · rename_i hid
    split at ht
    · exact nomatch (goOn_eq_next (Except.ok.inj ht)).1
    · obtain ⟨hfound, rfl⟩ := goOn_eq_next (Except.ok.inj ht)
      split at hfound
      · rename_i hflag
        exact designated (if_pos hid) hflag
      · exact nomatch hfound
  · rename_i hid
    split at ht
    · exact nomatch (goOn_eq_next (Except.ok.inj ht)).1
    · obtain ⟨prnJob, -, ht⟩ := bind_eq_ok ht
      split at ht
      · exact nomatch (goOn_eq_next (Except.ok.inj ht)).1
      · rename_i hfound
        cases ht
        -- the address names a listed job
        refine designated ?_ rfl
        show (if a.id = some .jobId then _ else if a.id = some .jobUri then some true else none) = _
        rw [hid, if_neg (by decide), if_pos rfl, Option.some_inj]
        exact (Option.isSome_iff_ne_none.mpr hfound).symm
  · rename_i hid
    obtain ⟨-, rfl⟩ := goOn_eq_next (Except.ok.inj ht)
    exact h.other (hother hid (by decide) (by decide)) rfl rfl
  · rename_i hjobId hjobUri _
    cases ht
    exact h.other (hother rfl hjobId hjobUri) rfl rfl

end CancelRel

theorem sound_ippCancelJob_iff (last : Moment) (xs : List Arrival) :
    Sound (ippCancelJob port docType last xs) ↔
      AttributesMeet (cancelAttribute port docType) cancelFinish
        (fun _ a now ↦ PrinterUriOk a.id a ∧ JobUriOk a.id a now) CancelEndOk last {} xs :=
  sound_attributeLoop_iff (r := CancelRel)
    (fun _ s a now _ ↦ sound_cancelAttribute_iff port docType s a now)
    (fun _ _ _ _ hs ↦ hs.other rfl rfl rfl) (fun _ _ _ _ _ hs ht ↦ hs.next port docType ht)
    (fun _ s tagEnd now hs ↦ (sound_cancelFinish_iff s tagEnd now).trans hs.finish_iff) last
    ⟨rfl, fun h ↦ absurd h Bool.false_ne_true⟩ xs

theorem sound_jobAttributeAttribute_iff (s : JobAttributeVars) (a : Attribute) (now : Moment) :
    Sound (jobAttributeAttribute port docType s a now) ↔
      PrinterUriOk (a.idKept s.attribId) a ∧ JobUriOk (a.idKept s.attribId) a now := by
  rw [jobAttributeAttribute]
  generalize a.idKept s.attribId = id
  match id with
  | some .printerUri =>
      rw [and_iff_left (JobUriOk.of_ne (by decide)), printerUriOk_self,
        ← sound_printerUri_iff port docType]
      exact sound_goOn _ fun retCode ↦ goOn retCode s.unsupport _
  | some .jobId | some .requestAttrib =>
      refine iff_of_true ?_ ⟨.of_ne (by decide), .of_ne (by decide)⟩
      exact sound_refuse _ _ _ fun _ ↦ Sound.of_pure _
  | some .jobUri =>
      rw [and_iff_right (PrinterUriOk.of_ne (by decide)), jobUriOk_self]
      exact sound_jobUri_iff port docType now _ _ _ fun _ ↦ Sound.of_pure _
  | none | some .userName | some .jobName | some .fidelity | some .docFormat | some .docName
  | some .limit | some .whichJob | some .myJob =>
      exact iff_of_true (Sound.of_pure _) ⟨.of_ne (by decide), .of_ne (by decide)⟩

/-- The pointer is tested before the attributes of the job are answered. -/
theorem sound_jobAttributeFinish (s : JobAttributeVars) (tagEnd : Bool) (now : Moment) :
    Sound (jobAttributeFinish s tagEnd now) := by
  rw [jobAttributeFinish, Sound.ite_iff]
  refine ⟨fun _ ↦ Sound.of_pure _, fun h ↦ ?_⟩
  rw [Sound.bind_iff_left _ fun _ ↦ Sound.of_pure _, sound_jobRead_iff]
  exact (not_or.mp h).2

theorem jobAttributeAttribute_attribId {s t : JobAttributeVars} {now : Moment}
    (h : jobAttributeAttribute port docType s a now = .ok (.next t)) :
    t.attribId = a.idKept s.attribId := by
  rw [jobAttributeAttribute] at h
  generalize a.idKept s.attribId = id at h ⊢
  match id with
  | some .printerUri =>
      obtain ⟨retCode, -, h⟩ := bind_eq_ok h
      rw [(goOn_eq_next (Except.ok.inj h)).2]
  | some .jobId =>
      dsimp only at h
      split at h <;> rw [(goOn_eq_next (Except.ok.inj h)).2]
  | some .jobUri =>
      dsimp only at h
      split at h
      · rw [(goOn_eq_next (Except.ok.inj h)).2]
      · obtain ⟨prnJob, -, h⟩ := bind_eq_ok h
        rw [(goOn_eq_next (Except.ok.inj h)).2]
  | some .requestAttrib =>
      dsimp only at h
      split at h
      · rw [(goOn_eq_next (Except.ok.inj h)).2]
      · cases h
        rfl
  | some .userName => rw [(goOn_eq_next (Except.ok.inj h)).2]
  | none | some .jobName | some .fidelity | some .docFormat | some .docName | some .limit
  | some .whichJob | some .myJob =>
      cases h
      rfl

theorem sound_ippGetJobAttribute_iff (last : Moment) (xs : List Arrival) :
    Sound (ippGetJobAttribute port docType last xs) ↔
      AttributesMeet (jobAttributeAttribute port docType) jobAttributeFinish
        (fun front a now ↦ PrinterUriOk (a.idKept (idBehind front)) a ∧
          JobUriOk (a.idKept (idBehind front)) a now) (fun _ _ _ ↦ True) last {} xs :=
  sound_attributeLoop_iff (r := fun front (s : JobAttributeVars) ↦ s.attribId = idBehind front)
    (fun _ s a now hs ↦ hs ▸ sound_jobAttributeAttribute_iff port docType s a now)
    (fun _ _ tag _ hs ↦ hs.trans (idBehind_group tag).symm)
    (fun _ _ _ _ _ hs ht ↦ by
      rw [jobAttributeAttribute_attribId port docType ht, hs, idBehind_attribute])
    (fun _ s tagEnd now _ ↦ iff_true_intro (sound_jobAttributeFinish s tagEnd now)) last rfl xs

theorem sound_whichJobs (s : JobsVars) {a : Attribute} (h : a.text ≠ none) :
    Sound (whichJobs s a) := by
  have hcmp (t : Str) : Sound (cStrcmp a.text (some t)) :=
    (sound_cStrcmp_iff a.text (some t)).mpr ⟨h, Option.some_ne_none t⟩
  rw [whichJobs, Sound.bind_iff, and_iff_right (hcmp _)]
  intro completed _
  rw [Sound.ite_iff]
  refine ⟨fun _ ↦ Sound.of_pure _, fun _ ↦ ?_⟩
  rw [Sound.bind_iff, and_iff_right (hcmp _)]
  intro notCompleted _
  rw [Sound.ite_iff]
  exact ⟨fun _ ↦ Sound.of_pure _, fun _ ↦ Sound.of_pure _⟩

theorem sound_jobsAttribute_iff (s : JobsVars) (a : Attribute) (now : Moment) :
    Sound (jobsAttribute port docType s a now) ↔ PrinterUriOk (a.idKept s.attribId) a := by
  rw [jobsAttribute]
  generalize a.idKept s.attribId = id
  match id with
  | some .printerUri =>
      rw [printerUriOk_self, ← sound_printerUri_iff port docType]
      exact sound_goOn _ fun retCode ↦ goOn retCode s.unsupport _
  | some .userName =>
      refine iff_of_true (sound_refuse _ _ _ fun h ↦ ?_) (.of_ne (by decide))
      rw [Sound.bind_iff_left _ fun _ ↦ Sound.of_pure _, sound_cStrdup_iff]
      exact text_ne_none (kindOf_name (not_not.mp (not_or.mp h).1))
  | some .whichJob =>
      refine iff_of_true (sound_refuse _ _ _ fun h ↦ ?_) (.of_ne (by decide))
      apply sound_whichJobs
      apply text_ne_none
      left
      rw [not_not.mp h]
      decide
  | some .requestAttrib | some .limit | some .myJob =>
      exact iff_of_true (sound_refuse _ _ _ fun _ ↦ Sound.of_pure _) (.of_ne (by decide))
  | none | some .jobName | some .fidelity | some .jobId | some .jobUri | some .docFormat
  | some .docName => exact iff_of_true (Sound.of_pure _) (.of_ne (by decide))

theorem sound_jobAsked_iff {myJobOnly : Bool} {userName reqUserName : Option Str} {limit : Int}
    (h : userName ≠ none) : Sound (jobAsked myJobOnly userName reqUserName limit) ↔
      (limit ≠ 0 → myJobOnly = true → reqUserName ≠ none) := by
  rw [jobAsked, Sound.ite_iff, and_iff_right fun _ ↦ Sound.of_pure false]
  apply imp_congr_right
  intro _
  rw [Sound.ite_iff, and_iff_right fun _ ↦ Sound.of_pure true, not_not, sound_cStrcmp_iff,
    and_iff_right h]

/-- The first job decides: behind it the limit is 0 or the user is known. -/
theorem sound_jobsLoop_iff {myJobOnly : Bool} {reqUserName : Option Str} {vals : List Nat}
    {obj : Nat → ListedJob} {jobs : List Nat} (hnamed : ∀ p ∈ jobs, (obj p).userName ≠ none)
    (limit : Int) : Sound (jobsLoop myJobOnly reqUserName vals obj jobs limit) ↔
      (jobs ≠ [] → limit ≠ 0 → myJobOnly = true → reqUserName ≠ none) := by
  induction jobs generalizing limit with
  | nil => exact iff_of_true (Sound.of_pure []) fun h ↦ absurd rfl h
  | cons job jobs ih =>
    obtain ⟨hjob, hjobs⟩ := List.forall_mem_cons.mp hnamed
    rw [jobsLoop, Sound.bind_iff, sound_jobAsked_iff hjob]
    constructor
    · intro h _
      exact h.1
    · intro h
      have hasked := h (List.cons_ne_nil job jobs)
      refine ⟨hasked, fun asked heq ↦ ?_⟩
      rw [Sound.ite_iff]
      constructor
      · intro htrue
        have hlimit : limit ≠ 0 := by
          intro hzero
          rw [jobAsked, if_pos hzero] at heq
          cases heq
          exact nomatch htrue
        rw [Sound.bind_iff_left _ fun _ ↦ Sound.of_pure _, ih hjobs]
        exact fun _ _ ↦ hasked hlimit
      · intro _
        rw [ih hjobs]
        exact fun _ ↦ hasked

theorem sound_jobsFinish_iff (s : JobsVars) (tagEnd : Bool) (now : Moment) :
    Sound (jobsFinish s tagEnd now) ↔ (tagEnd = true → ¬ s.completed = true → now.chain ≠ [] →
      s.limit ≠ 0 → s.myJobOnly = true → s.reqUserName ≠ none) := by
  rw [jobsFinish, Sound.ite_iff, and_iff_right fun _ ↦ Sound.of_pure _, not_not]
  apply imp_congr_right
  intro _
  rw [Sound.bind_iff_left _ fun _ ↦ Sound.of_pure _, jobsFound, Sound.ite_iff,
    and_iff_right fun _ ↦ Sound.of_pure [], sound_jobsLoop_iff now.named]

theorem cStrcmp_eq {p : Option Str} {s : Str} {b : Bool} (h : cStrcmp p (some s) = .ok b) :
    b = true ↔ p = some s := by
  cases p with
  | none => exact nomatch h
  | some r =>
    cases h
    simp

theorem cStrdup_ne_none_iff {malloc : Bool} {p name : Option Str}
    (h : cStrdup malloc p = .ok name) : name ≠ none ↔ malloc = true := by
  obtain ⟨s, -, h⟩ := bind_eq_ok h
  cases h
  cases malloc <;> simp

/-- A value that is passed is one of the two that are known. -/
theorem whichJobs_eq_next {s t : JobsVars} (h : whichJobs s a = .ok (.next t)) :
    ∃ completed, t = { s with completed := completed } ∧
      (completed = true ↔ a.text = some (bytes "completed")) := by
  obtain ⟨b, hb, h⟩ := bind_eq_ok h
  split at h
  · rename_i htrue
    cases h
    exact ⟨true, rfl, iff_of_true rfl ((cStrcmp_eq hb).mp htrue)⟩
  · rename_i hfalse
    obtain ⟨b', -, h⟩ := bind_eq_ok h
    split at h
    · cases h
      exact ⟨false, rfl, iff_of_false Bool.false_ne_true ((cStrcmp_eq hb).not.mp hfalse)⟩
    · exact nomatch (goOn_eq_next (Except.ok.inj h)).1

/-- What the variables keep of the attributes in front. -/
structure JobsRel (front : List Arrival) (s : JobsVars) : Prop where
  attribId : s.attribId = idBehind front
  completed : s.completed = true ↔ AsksCompleted front
  limit : s.limit = smallestLimit front
  myJobOnly : s.myJobOnly = true ↔ ∃ x ∈ given .myJob front, x.1.value.bool = true
  reqUserName : s.reqUserName ≠ none ↔ ∃ x ∈ given .userName front, x.2.malloc 0 = true

namespace JobsRel

variable {front : List Arrival} {s t : JobsVars} {now : Moment} {attribId : Option Attr}

/-- The fields whose attribute does not arrive stay as they are. -/
theorem keep (h : JobsRel front s) (hid : a.idKept (idBehind front) = attribId)
    (hattribId : t.attribId = attribId)
    (hcompleted : attribId = some .whichJob ∧ (t.completed = true ↔
      a.text = some (bytes "completed")) ∨ attribId ≠ some .whichJob ∧ t.completed = s.completed)
    (hlimit : attribId = some .limit ∧ t.limit = min s.limit a.value.int ∨
      attribId ≠ some .limit ∧ t.limit = s.limit)
    (hmyJob : attribId = some .myJob ∧ t.myJobOnly = (s.myJobOnly || a.value.bool) ∨
      attribId ≠ some .myJob ∧ t.myJobOnly = s.myJobOnly)
    (huser : attribId = some .userName ∧ (t.reqUserName ≠ none ↔
        s.reqUserName ≠ none ∨ now.malloc 0 = true) ∨
      attribId ≠ some .userName ∧ t.reqUserName = s.reqUserName) :
    JobsRel (front ++ [⟨.attribute a, now⟩]) t := by
  subst hid
  constructor
  · rw [hattribId, idBehind_attribute]
  · rcases hcompleted with ⟨heq, hvalue⟩ | ⟨hne, hsame⟩
    · rw [hvalue, AsksCompleted, given_self heq, List.getLast?_concat]
      simp
    · rw [hsame, h.completed, AsksCompleted, AsksCompleted, given_of_ne hne]
  · rcases hlimit with ⟨heq, hvalue⟩ | ⟨hne, hsame⟩
    · rw [hvalue, h.limit, smallestLimit, smallestLimit, given_self heq, List.map_append,
        List.foldl_append]
      rfl
    · rw [hsame, h.limit, smallestLimit, smallestLimit, given_of_ne hne]
  · rcases hmyJob with ⟨heq, hvalue⟩ | ⟨hne, hsame⟩
    · rw [hvalue, Bool.or_eq_true, h.myJobOnly, given_self heq]
      simp [or_and_right, exists_or]
    · rw [hsame, h.myJobOnly, given_of_ne hne]
  · rcases huser with ⟨heq, hvalue⟩ | ⟨hne, hsame⟩
    · rw [hvalue, h.reqUserName, given_self heq]
      simp [or_and_right, exists_or]
    · rw [hsame, h.reqUserName, given_of_ne hne]

theorem start : JobsRel [] {} where
  attribId := rfl
  completed := iff_of_false Bool.false_ne_true fun ⟨_, hx, _⟩ ↦ nomatch hx
  limit := rfl
  myJobOnly := iff_of_false Bool.false_ne_true fun ⟨_, hx, _⟩ ↦ nomatch hx
  reqUserName := iff_of_false (fun h ↦ h rfl) fun ⟨_, hx, _⟩ ↦ nomatch hx

theorem finish_iff (h : JobsRel front s) (tagEnd : Bool) (now : Moment) :
    (tagEnd = true → ¬ s.completed = true → now.chain ≠ [] → s.limit ≠ 0 → s.myJobOnly = true →
      s.reqUserName ≠ none) ↔ JobsEndOk front tagEnd now := by
  rw [h.completed, h.limit, h.myJobOnly, h.reqUserName, JobsEndOk]

/-- Each turn that goes on does so with the value that has arrived. -/
theorem next (h : JobsRel front s) (ht : jobsAttribute port docType s a now = .ok (.next t)) :
    JobsRel (front ++ [⟨.attribute a, now⟩]) t := by
  rw [jobsAttribute] at ht
  rw [h.attribId] at ht
  generalize hid : a.idKept (idBehind front) = attribId at ht
  match attribId with
  | some .printerUri =>
      obtain ⟨retCode, -, ht⟩ := bind_eq_ok ht
      obtain ⟨-, rfl⟩ := goOn_eq_next (Except.ok.inj ht)
      exact h.keep hid rfl (.inr ⟨by decide, rfl⟩) (.inr ⟨by decide, rfl⟩)
        (.inr ⟨by decide, rfl⟩) (.inr ⟨by decide, rfl⟩)
  | some .userName =>
      dsimp only at ht
      split at ht
      · exact nomatch (goOn_eq_next (Except.ok.inj ht)).1
      · rename_i hname
        obtain ⟨name, hname', ht⟩ := bind_eq_ok ht
        cases ht
        refine h.keep hid rfl (.inr ⟨by decide, rfl⟩) (.inr ⟨by decide, rfl⟩)
          (.inr ⟨by decide, rfl⟩) (.inl ⟨rfl, ?_⟩)
        have hnone : s.reqUserName = none := not_not.mp (not_or.mp hname).2
        rw [cStrdup_ne_none_iff hname', hnone]
        simp
  | some .requestAttrib =>
      dsimp only at ht
      split at ht
      · exact nomatch (goOn_eq_next (Except.ok.inj ht)).1
      · cases ht
        exact h.keep hid rfl (.inr ⟨by decide, rfl⟩) (.inr ⟨by decide, rfl⟩)
          (.inr ⟨by decide, rfl⟩) (.inr ⟨by decide, rfl⟩)
  | some .limit =>
      dsimp only at ht
      split at ht
      · exact nomatch (goOn_eq_next (Except.ok.inj ht)).1
      · cases ht
        exact h.keep hid rfl (.inr ⟨by decide, rfl⟩) (.inl ⟨rfl, rfl⟩)
          (.inr ⟨by decide, rfl⟩) (.inr ⟨by decide, rfl⟩)
  | some .whichJob =>
      dsimp only at ht
      split at ht
      · exact nomatch (goOn_eq_next (Except.ok.inj ht)).1
      · obtain ⟨completed, rfl, hcompleted⟩ := whichJobs_eq_next ht
        exact h.keep hid rfl (.inl ⟨rfl, hcompleted⟩) (.inr ⟨by decide, rfl⟩)
          (.inr ⟨by decide, rfl⟩) (.inr ⟨by decide, rfl⟩)
  | some .myJob =>
      dsimp only at ht
      split at ht
      · exact nomatch (goOn_eq_next (Except.ok.inj ht)).1
      · cases ht
        exact h.keep hid rfl (.inr ⟨by decide, rfl⟩) (.inr ⟨by decide, rfl⟩)
          (.inl ⟨rfl, rfl⟩) (.inr ⟨by decide, rfl⟩)
  | none | some .jobName | some .fidelity | some .jobId | some .jobUri | some .docFormat
  | some .docName =>
      cases ht
      exact h.keep hid rfl (.inr ⟨by decide, rfl⟩) (.inr ⟨by decide, rfl⟩)
        (.inr ⟨by decide, rfl⟩) (.inr ⟨by decide, rfl⟩)

theorem group (h : JobsRel front s) (tag : UInt8) :
    JobsRel (front ++ [⟨.group tag, now⟩]) s := by
  constructor
  · rw [idBehind_group, h.attribId]
  · rw [h.completed, AsksCompleted, AsksCompleted, given_group]
  · rw [h.limit, smallestLimit, smallestLimit, given_group]
  · rw [h.myJobOnly, given_group]
  · rw [h.reqUserName, given_group]

end JobsRel

theorem sound_ippGetJobs_iff (last : Moment) (xs : List Arrival) :
    Sound (ippGetJobs port docType last xs) ↔
      AttributesMeet (jobsAttribute port docType) jobsFinish
        (fun front a _ ↦ PrinterUriOk (a.idKept (idBehind front)) a) JobsEndOk last {} xs :=
  sound_attributeLoop_iff (r := JobsRel)
    (fun _ s a now hs ↦ hs.attribId ▸ sound_jobsAttribute_iff port docType s a now)
    (fun _ _ tag _ hs ↦ hs.group tag) (fun _ _ _ _ _ hs ht ↦ hs.next port docType ht)
    (fun _ s tagEnd now hs ↦ (sound_jobsFinish_iff s tagEnd now).trans (hs.finish_iff tagEnd now))
    last JobsRel.start xs

theorem sound_printerAttribute_iff (s : PrinterVars) (a : Attribute) (now : Moment) :
    Sound (printerAttribute port docType s a now) ↔ PrinterUriOk (a.idKept s.attribId) a := by
  rw [printerAttribute]
  generalize a.idKept s.attribId = id
  match id with
  | some .printerUri =>
      rw [printerUriOk_self, ← sound_printerUri_iff port docType]
      exact sound_goOn _ fun retCode ↦ goOn retCode s.unsupport _
  | some .docFormat =>
      refine iff_of_true ?_ (.of_ne (by decide))
      exact (sound_goOn _ fun retCode ↦ goOn retCode s.unsupport _).mpr (sound_docFormat a)
  | some .requestAttrib =>
      exact iff_of_true (sound_refuse _ _ _ fun _ ↦ Sound.of_pure _) (.of_ne (by decide))
  | none | some .userName | some .jobName | some .fidelity | some .jobId | some .jobUri
  | some .limit | some .whichJob | some .myJob | some .docName =>
      exact iff_of_true (Sound.of_pure _) (.of_ne (by decide))

theorem printerAttribute_attribId {s t : PrinterVars} {now : Moment}
    (h : printerAttribute port docType s a now = .ok (.next t)) :
    t.attribId = a.idKept s.attribId := by
  rw [printerAttribute] at h
  generalize a.idKept s.attribId = id at h ⊢
  match id with
  | some .printerUri | some .docFormat =>
      obtain ⟨retCode, -, h⟩ := bind_eq_ok h
      rw [(goOn_eq_next (Except.ok.inj h)).2]
  | some .requestAttrib =>
      dsimp only at h
      split at h
      · rw [(goOn_eq_next (Except.ok.inj h)).2]
      · cases h
        rfl
  | some .userName => rw [(goOn_eq_next (Except.ok.inj h)).2]
  | none | some .jobName | some .fidelity | some .jobId | some .jobUri | some .limit
  | some .whichJob | some .myJob | some .docName =>
      cases h
      rfl

theorem sound_printerFinish (s : PrinterVars) (tagEnd : Bool) (now : Moment) :
    Sound (printerFinish s tagEnd now) := by
  rw [printerFinish, Sound.ite_iff]
  exact ⟨fun _ ↦ Sound.of_pure _, fun _ ↦ Sound.of_pure _⟩

theorem sound_ippGetPrinterAttr_iff (last : Moment) (xs : List Arrival) :
    Sound (ippGetPrinterAttr port docType last xs) ↔
      AttributesMeet (printerAttribute port docType) printerFinish
        (fun front a _ ↦ PrinterUriOk (a.idKept (idBehind front)) a) (fun _ _ _ ↦ True)
        last {} xs :=
  sound_attributeLoop_iff (r := fun front (s : PrinterVars) ↦ s.attribId = idBehind front)
    (fun _ s a now hs ↦ hs ▸ sound_printerAttribute_iff port docType s a now)
    (fun _ _ tag _ hs ↦ hs.trans (idBehind_group tag).symm)
    (fun _ _ _ _ _ hs ht ↦ by
      rw [printerAttribute_attribId port docType ht, hs, idBehind_attribute])
    (fun _ s tagEnd now _ ↦ iff_true_intro (sound_printerFinish s tagEnd now)) last rfl xs

/-! ## Requests -/

theorem sound_operation_iff (r : Request) (first : Moment) (xs : List Arrival) :
    Sound (operation port r first xs) ↔ OperationOk port r first xs := by
  dsimp only [operation, OperationOk]
  split
  · exact sound_ippPrintValidateJob_iff port r.docType _ first r.last xs
  split
  · exact sound_ippCancelJob_iff port r.docType r.last xs
  split
  · exact sound_ippGetJobAttribute_iff port r.docType r.last xs
  split
  · exact sound_ippGetJobs_iff port r.docType r.last xs
  split
  · exact sound_ippGetPrinterAttr_iff port r.docType r.last xs
  · exact iff_of_true (Sound.of_pure _) trivial

theorem Reaches.unique {r : Request} {first first' : Moment} {xs xs' : List Arrival}
    (h : Reaches r first xs) (h' : Reaches r first' xs') : first' = first ∧ xs' = xs := by
  obtain ⟨m₁, m₂, charset, language, heq, -⟩ := h.attributes
  obtain ⟨m₁', m₂', charset', language', heq', -⟩ := h'.attributes
  rw [heq'] at heq
  simp only [List.cons.injEq, Arrival.mk.injEq] at heq
  exact ⟨heq.2.2.1.2, heq.2.2.2⟩

theorem ippd_of_reaches {r : Request} {first : Moment} {xs : List Arrival}
    (h : Reaches r first xs) : ippd port r = operation port r first xs := by
  obtain ⟨m₁, m₂, charset, language, harrivals, hcharset, hlanguage⟩ := h.attributes
  rw [ippd, if_neg (Nat.not_lt.mpr h.length), if_neg (not_not.mpr h.version), harrivals]
  dsimp only
  rw [if_neg (not_not.mpr rfl), hcharset]
  exact if_neg (not_not.mpr hlanguage)

/-- Before its operation nothing can go wrong. -/
theorem sound_or_reaches (r : Request) :
    Sound (ippd port r) ∨ ∃ first xs, Reaches r first xs := by
  by_cases hlength : r.head.length < 8
  · left
    rw [ippd, if_pos hlength]
    exact Sound.of_pure _
  by_cases hversion : r.head.getD 0 0 ≠ 1
  · left
    rw [ippd, if_neg hlength, if_pos hversion]
    exact Sound.of_pure _
  rw [ippd, if_neg hlength, if_neg hversion]
  split
  · rename_i tag m₁ charset m₂ language now xs harrivals
    by_cases htag : tag ≠ ippTagOperation
    · rw [if_pos htag]
      exact .inl (Sound.of_pure _)
    obtain ⟨retCode, hcharset⟩ := sound_charsetOk charset
    rw [if_neg htag, hcharset]
    by_cases hok : retCode ≠ .ok
    · left
      show Sound (if retCode ≠ .ok then _ else _)
      rw [if_pos hok]
      exact Sound.of_pure _
    by_cases hlanguage : language.tag ≠ ippTagLanguage
    · left
      show Sound (if retCode ≠ .ok then _ else _)
      rw [if_neg hok, if_pos hlanguage]
      exact Sound.of_pure _
    right
    rw [not_not] at htag hok hlanguage
    subst htag hok
    exact ⟨now, xs, Nat.not_lt.mp hlength, not_not.mp hversion, m₁, m₂, charset, language,
      harrivals, hcharset, hlanguage⟩
  · rename_i tag m₁ charset m₂ rest hrest harrivals
    left
    rw [Sound.ite_iff]
    refine ⟨fun _ ↦ Sound.of_pure _, fun _ ↦ ?_⟩
    exact (Sound.bind_iff_left _ fun retCode ↦ Sound.of_pure _).mpr (sound_charsetOk charset)
  · exact .inl (Sound.of_pure _)

/-- A request is sound exactly when the URIs that it compares name files, a Cancel-Job does not lose
the job it found, and a Get-Jobs for the jobs of a user gives the user. -/
theorem sound_ippd_iff (r : Request) : Sound (ippd port r) ↔ RequestOk port r := by
  by_cases h : ∃ first xs, Reaches r first xs
  · obtain ⟨first, xs, hreaches⟩ := h
    rw [ippd_of_reaches port hreaches, sound_operation_iff]
    constructor
    · intro hok first' xs' hreaches'
      obtain ⟨rfl, rfl⟩ := hreaches.unique hreaches'
      exact hok
    · intro hok
      exact hok first xs hreaches
  · have hsound := (sound_or_reaches port r).resolve_right h
    exact iff_of_true hsound fun first xs hreaches ↦ absurd ⟨first, xs, hreaches⟩ h

/-! ## The name of the user of a queued job -/

/-- A job that is queued has the name of its user. -/
def QueuesNamed (r : Response) : Prop :=
  ∀ jobName userName, r.effect = .queue jobName userName → userName ≠ none

/-- The flag of the name and the name. -/
def NameKept (s : PrintVars) : Prop := s.haveUserName = true → s.userName ≠ none

theorem goOn_meets {retCode : Status} {unsupport : List Attribute} {s : PrintVars}
    (h : retCode = .ok → NameKept s) : (goOn retCode unsupport s).Meets NameKept QueuesNamed := by
  rw [goOn]
  split
  · rename_i hok
    exact h hok
  · intro jobName userName heffect
    exact nomatch heffect

theorem printAttribute_meets {s : PrintVars} {a : Attribute} {now : Moment}
    {r : Turn PrintVars Response} (hs : NameKept s)
    (h : printAttribute port docType ippPrintJob s a now = .ok r) :
    r.Meets NameKept QueuesNamed := by
  rw [printAttribute] at h
  generalize a.id = id at h
  match id with
  | some .printerUri | some .docFormat =>
      obtain ⟨retCode, -, h⟩ := bind_eq_ok h
      cases h
      exact goOn_meets fun _ ↦ hs
  | some .userName =>
      dsimp only at h
      split at h
      · cases h
        exact goOn_meets fun _ ↦ hs
      · obtain ⟨userName, -, h⟩ := bind_eq_ok h
        cases h
        refine goOn_meets fun hok _ hnone ↦ ?_
        rw [nameKept, if_pos ⟨rfl, hnone⟩] at hok
        exact nomatch hok
  | some .jobName =>
      dsimp only at h
      split at h
      · cases h
        exact goOn_meets fun _ ↦ hs
      · obtain ⟨jobName, -, h⟩ := bind_eq_ok h
        cases h
        exact goOn_meets fun _ ↦ hs
  | some .fidelity =>
      dsimp only at h
      split at h
      · cases h
        exact goOn_meets fun _ ↦ hs
      · cases h
        exact hs
  | some .docName =>
      cases h
      exact goOn_meets fun _ ↦ hs
  | none | some .jobId | some .jobUri | some .limit | some .whichJob | some .myJob
  | some .requestAttrib =>
      cases h
      exact hs

theorem printFinish_named {s : PrintVars} {tagEnd : Bool} {now : Moment} {r : Response}
    (hs : NameKept s) (h : printFinish ippPrintJob s tagEnd now = .ok r) : QueuesNamed r := by
  intro jobName userName heffect
  rw [printFinish] at h
  split at h
  · cases h
    exact nomatch heffect
  dsimp only at h
  split at h
  · cases h
    exact nomatch heffect
  rw [if_neg (not_not.mpr rfl)] at h
  split at h
  · cases h
    exact nomatch heffect
  split at h
  · cases h
    exact nomatch heffect
  · rename_i hname
    cases h
    cases heffect
    intro hnone
    apply hname
    refine ⟨fun hgiven ↦ hs hgiven ?_, hnone⟩
    rw [defaultName, if_pos hgiven] at hnone
    exact hnone

/-- A Print-Job that is queued has a name for its user. -/
theorem queued_named {first last : Moment} {xs : List Arrival} {r : Response}
    (h : ippPrintValidateJob port docType ippPrintJob first last xs = .ok r) : QueuesNamed r := by
  rw [ippPrintValidateJob] at h
  split at h
  · cases h
    intro jobName userName heffect
    exact nomatch heffect
  have hstart : NameKept {} := fun hgiven ↦ absurd hgiven Bool.false_ne_true
  have hfinish (s : PrintVars) (b : Response) (hs : NameKept s)
      (hb : printFinish ippPrintJob s false last = .ok b) : QueuesNamed b := printFinish_named hs hb
  refine turns_post (fun s x t hs ht ↦ ?_) hfinish hstart h
  obtain ⟨got, now⟩ := x
  match got with
  | .attribute a => exact printAttribute_meets port docType hs ht
  | .group tag =>
    dsimp only [attributeTurn] at ht
    split at ht
    · obtain ⟨b, hb, rfl⟩ := map_eq_ok ht
      exact printFinish_named hs hb
    split at ht
    · obtain ⟨b, hb, rfl⟩ := map_eq_ok ht
      exact printFinish_named hs hb
    · cases ht
      exact hs

/-- An idle server, whose allocations succeed. -/
def idle : Moment := ⟨fun _ ↦ ⟨1, .pending, none⟩, [], (fun _ h ↦ nomatch h), 0, fun _ ↦ true⟩

/-- A server with one job, which has the number 1. -/
def oneListed : Moment :=
  ⟨fun _ ↦ ⟨1, .pending, some (bytes "guest")⟩, [1], fun _ _ ↦ Option.some_ne_none _, 1,
    fun _ ↦ true⟩

def uriAttribute (name uri : Str) : Attribute := ⟨0x45, name, .string uri⟩
def idAttribute (jobId : Int32) : Attribute := ⟨0x21, bytes "job-id", .integer jobId⟩

/-- A request with these attributes, at one moment of the server. -/
def request (op : UInt8) (now : Moment) (attributes : List Attribute) : Request :=
  { head := [1, 0, 0, op, 0, 0, 0, 1]
    docType := .binary
    arrivals := [⟨.group 1, now⟩,
      ⟨.attribute ⟨0x47, bytes "attributes-charset", .string (bytes "utf-8")⟩, now⟩,
      ⟨.attribute ⟨0x48, bytes "attributes-natural-language", .string (bytes "en")⟩, now⟩] ++
      attributes.map (⟨.attribute ·, now⟩) ++ [⟨.group 3, now⟩]
    last := now }

def faultOf (x : Checked Response) : Option Fault :=
  match x with
  | .error fault => some fault
  | .ok _ => none

theorem not_sound_of_fault {x : Checked Response} {fault : Fault} (h : faultOf x = some fault) :
    ¬Sound x := by
  rintro ⟨response, rfl⟩
  exact nomatch h

/-- A Validate-Job for the URI `ipp:lp1`, a Cancel-Job that names the job 1 and then a job 2 that is
not there, and a Get-Jobs for the jobs of a user who is not named. -/
theorem requests_fault :
    ¬Sound (ippd 0 (request 0x04 idle [uriAttribute (bytes "printer-uri") (bytes "ipp:lp1")])) ∧
    ¬Sound (ippd 0 (request 0x08 oneListed
      [uriAttribute (bytes "printer-uri") (bytes "/lp1"), idAttribute 1, idAttribute 2])) ∧
    ¬Sound (ippd 0 (request 0x0A oneListed [⟨0x22, bytes "my-jobs", .boolean 1⟩])) := by
  refine ⟨@not_sound_of_fault _ .nullString ?_, @not_sound_of_fault _ .unsetJob ?_,
    @not_sound_of_fault _ .nullString ?_⟩
  · decide
  · decide
  · decide

end PrintServer.Ipp
