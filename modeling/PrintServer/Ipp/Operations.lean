import PrintServer.Http.CString
import PrintServer.Ipp.Attribute
import PrintServer.Ipp.JobList
import PrintServer.Lib.Checked

/-!
# The operations of ippd

`ippd` and the operations that it calls, with the strings that they compare and the pointer
`ippPrnJob`.  An attribute comes from `ippGetAttribute`; what the list of the jobs holds and whether
an allocation succeeds is asked anew at each of them, as other requests and the worker run between
two attributes.  Of the groups of the response the attributes are kept that go into them.
-/

namespace PrintServer.Ipp

open Http (Str bytes chr stricmp)
open Lib (Turn turns)
open Receive (JobState)

/-- What goes wrong: a string function is given NULL, `ippPrnJob` is read while it points to no job,
or a text is longer than its array. -/
inductive Fault
  | nullString
  | unsetJob
  | overrun
deriving DecidableEq

abbrev Checked := Except Fault

/-! ## The state of the server -/

/-- What requests read of a job that is in the list. -/
structure ListedJob where
  jobId : UInt16
  jobState : JobState
  userName : Option Str

/-- `ippObjList[port]` and `ippJobsNo[port]` at one moment, and the answers of `malloc`; a job is
queued with the name of its user. -/
structure Moment where
  obj : Nat → ListedJob
  chain : List Nat
  named : ∀ p ∈ chain, (obj p).userName ≠ none
  jobsNo : UInt8
  malloc : Nat → Bool

/-! ## Strings -/

/-- A string that a function of the library reads. -/
def passed : Option Str → Checked Str
  | some s => pure s
  | none => throw .nullString

/-- The comparison that `stricmp` makes of what it is given. -/
def cStricmp (p q : Option Str) : Checked Int := do return stricmp (← passed p) (← passed q)

/-- `strcmp`, of which only equality is asked. -/
def cStrcmp (p q : Option Str) : Checked Bool := do return (← passed p) = (← passed q)

/-- Two comparisons, of which the second is made where the first finds a difference. -/
def isOneOf (p : Option Str) (s t : Str) : Checked Bool := do
  if ← cStrcmp p (some s) then return true
  cStrcmp p (some t)

def cStrdup (malloc : Bool) (p : Option Str) : Checked (Option Str) := do
  let s ← passed p
  return if malloc then some s else none

/-- A text that is written to an array, with its NUL. -/
def written (size : Nat) (s : Str) : Checked Str :=
  if s.length + 1 ≤ size then pure s else throw .overrun

def strchr (s : Str) (c : UInt8) : Option Str :=
  let p := s.dropWhile (· ≠ c)
  if p = [] then none else some p

/-! ## URIs -/

inductive DocType
  | binary
  | text
deriving DecidableEq

def ippBinPrinterUriFormat : Str := bytes "lpx"
def ippTxtPrinterExtFormat : Str := bytes "_txt"
def ippMaxPrinterUri : Nat := (ippBinPrinterUriFormat ++ ippTxtPrinterExtFormat).length + 1
def ippPrinterPortPos : Nat := 2
def numOfPrnPort : Nat := 1

/-- `ippGetURIFileName`; behind the first `/` may come the NUL of the string. -/
def ippGetURIFileName (uri : Str) : Option Str :=
  match strchr uri (chr '/') with
  | none => none
  | some p =>
      let p := if p.getD 1 0 = chr '/' then strchr (p.drop 2) (chr '/') else some p
      p.map (·.drop 1)

/-- The digit of a port in the name of its printer. -/
def setPort (q : Str) (port : Nat) : Str := q.set ippPrinterPortPos (UInt8.ofNat port + chr '1')

/-- The loop of `ippValidDestPort`, with `n` ports to come. -/
def destPortLoop (p : Option Str) : Nat → Nat → Str → Checked Nat
  | 0, i, _ => pure i
  | n + 1, i, q => do
      let q := setPort q i
      if (← cStricmp p (some q)) = 0 then return i
      destPortLoop p n (i + 1) q

/-- The `strcpy` and the `strcat` of `ippValidDestPort`. -/
def printerName (docType : DocType) : Checked Str := do
  let q ← written ippMaxPrinterUri ippBinPrinterUriFormat
  if docType = .text then written ippMaxPrinterUri (q ++ ippTxtPrinterExtFormat) else pure q

def ippValidDestPort (uri : Option Str) (docType : DocType) : Checked Nat := do
  let q ← printerName docType
  let p := ippGetURIFileName (← passed uri)
  destPortLoop p numOfPrnPort 0 q

/-- `%03d` -/
def threeDigits (n : Nat) : Str :=
  let ds := (Nat.toDigits 10 n).map chr
  List.replicate (3 - ds.length) (chr '0') ++ ds

/-- What `sprintf` makes of the formats of a job's URI. -/
def jobUri (docType : DocType) (jobId : UInt16) : Str :=
  ippBinPrinterUriFormat ++ (if docType = .binary then [] else ippTxtPrinterExtFormat) ++
    bytes "/job" ++ threeDigits jobId.toNat

/-- The loop of `ippValidDestJob`. -/
def destJobLoop (port : Nat) (p : Option Str) (docType : DocType) (obj : Nat → ListedJob) :
    List Nat → Checked (Option Nat)
  | [] => pure none
  | prnJob :: rest => do
      let q ← written 20 (jobUri docType (obj prnJob).jobId)
      if (← cStricmp (some (setPort q port)) p) = 0 then return some prnJob
      destJobLoop port p docType obj rest

def ippValidDestJob (port : Nat) (uri : Option Str) (docType : DocType) (m : Moment) :
    Checked (Option Nat) := do
  let p := ippGetURIFileName (← passed uri)
  destJobLoop port p docType m.obj m.chain

/-! ## Attributes -/

def ippTagZero : UInt8 := 0x00
def ippTagOperation : UInt8 := 0x01
def ippTagEnd : UInt8 := 0x03
def ippTagInteger : UInt8 := 0x21
def ippTagBoolean : UInt8 := 0x22
def ippTagNamelang : UInt8 := 0x36
def ippTagName : UInt8 := 0x42
def ippTagKeyword : UInt8 := 0x44
def ippTagUri : UInt8 := 0x45
def ippTagCharset : UInt8 := 0x47
def ippTagLanguage : UInt8 := 0x48
def ippTagMimetype : UInt8 := 0x49

/-- `value.string.text`, which only the tags of strings set. -/
def Value.text : {k : Kind} → Value k → Option Str
  | _, .string text => some (cString text)
  | _, .language _ text => some (cString text)
  | _, _ => none

/-- `value.integer` -/
def Value.int : {k : Kind} → Value k → Int
  | _, .integer n => n.toInt
  | _, _ => 0

/-- `value.boolean` -/
def Value.bool : {k : Kind} → Value k → Bool
  | _, .boolean b => b ≠ 0
  | _, _ => false

inductive Attr
  | printerUri | userName | jobName | fidelity | jobId | jobUri | limit | whichJob | myJob
  | requestAttrib | docFormat | docName
deriving DecidableEq

def attribTag : List (Str × Attr) :=
  [(bytes "printer-uri", .printerUri), (bytes "requesting-user-name", .userName),
    (bytes "job-name", .jobName), (bytes "ipp-attribute-fidelity", .fidelity),
    (bytes "job-id", .jobId), (bytes "job-uri", .jobUri), (bytes "limit", .limit),
    (bytes "which-jobs", .whichJob), (bytes "my-jobs", .myJob),
    (bytes "requested-attributes", .requestAttrib), (bytes "document-format", .docFormat),
    (bytes "document-name", .docName)]

def jobTempAttribTag : List (Str × Nat) :=
  [bytes "all", bytes "job-uri", bytes "job-id", bytes "job-printer-uri", bytes "job-name",
    bytes "job-originating-user-name", bytes "job-state", bytes "attributes-charset",
    bytes "attributes-natural-language", bytes "job-description"].zipIdx

def printerDescriptionTag : List (Str × Nat) :=
  [bytes "all", bytes "printer-uri-supported", bytes "uri-security-supported",
    bytes "printer-name", bytes "printer-location", bytes "printer-more-info",
    bytes "printer-make-and-model", bytes "printer-state", bytes "printer-state-reasons",
    bytes "operations-supported", bytes "charset-configured", bytes "charset-supported",
    bytes "natural-language-configured", bytes "generated-natural-language-supported",
    bytes "document-format-default", bytes "document-format-supported",
    bytes "printer-is-accepting-jobs", bytes "pdl-override-supported", bytes "printer-up-time",
    bytes "printer-description"].zipIdx

/-- `ippFindAttribute`: what the table holds for the name. -/
def ippFindAttribute {ι : Type} (attributeTag : List (Str × ι)) (attrib : Option Str) : Option ι :=
  match attrib with
  | none => none
  | some attrib => (attributeTag.find? (·.1 = attrib)).map (·.2)

def Attribute.text (a : Attribute) : Option Str := a.value.text

/-- The attribute that a name designates. -/
def Attribute.id (a : Attribute) : Option Attr := ippFindAttribute attribTag (some (cString a.name))

/-- Where a nameless attribute is one more value of the one before it. -/
def Attribute.idKept (attribId : Option Attr) (a : Attribute) : Option Attr :=
  if cString a.name ≠ [] then a.id else attribId

/-! ## Responses -/

/-- `ipp_status_t` -/
inductive Status
  | ok | okSubst | badRequest | notPossible | notFound | documentFormat | attributes | charset
  | internalError | operationNotSupported | serviceUnavailable | versionNotSupported
deriving DecidableEq

/-- What an operation does to the jobs. -/
inductive JobEffect
  | none
  | queue (jobName userName : Option Str)
  | abort (prnJob : Nat)
  | remove (prnJob : Nat)

/-- The response: `UnSupportGroup` holds attributes of the request, `RespGroup` for each job that is
reported the numbers of its attributes; Get-Printer-Attributes reports about the printer. -/
structure Response where
  retCode : Status
  unSupportGroup : List Attribute := []
  respGroup : List (Option Nat × List Nat) := []
  effect : JobEffect := .none

/-- A result of `ippGetAttribute`, and the moment at which it is looked at. -/
structure Arrival where
  got : Got
  now : Moment

variable {σ : Type}

/-- One of the loops over the attributes: a group's tag is skipped, the end of the attributes and an
error of `ippGetAttribute` leave the loop. -/
def attributeTurn (turn : σ → Attribute → Moment → Checked (Turn σ Response))
    (finish : σ → Bool → Moment → Checked Response) (s : σ) (x : Arrival) :
    Checked (Turn σ Response) :=
  match x.got with
  | .group tag =>
      if tag = ippTagZero then .leave <$> finish s false x.now
      else if tag = ippTagEnd then .leave <$> finish s true x.now
      else return .next s
  | .attribute a => turn s a x.now

/-- The loop and what comes behind it; `last` is the moment of an error of `ippGetAttribute`. -/
def attributeLoop (turn : σ → Attribute → Moment → Checked (Turn σ Response))
    (finish : σ → Bool → Moment → Checked Response) (last : Moment) (s : σ) (xs : List Arrival) :
    Checked Response :=
  turns (attributeTurn turn finish) (fun s ↦ finish s false last) s xs

/-- The next turn, or the way out with an error. -/
def goOn (retCode : Status) (unsupport : List Attribute) (s : σ) : Turn σ Response :=
  if retCode = .ok then .next s else .leave { retCode := retCode, unSupportGroup := unsupport }

variable (port : Nat) (docType : DocType)

/-- `printer-uri` -/
def printerUri (a : Attribute) : Checked Status := do
  if a.tag ≠ ippTagUri then return .badRequest
  return if (← ippValidDestPort a.text docType) ≠ port then .badRequest else .ok

/-- `requesting-user-name`, where it is not kept, and `document-name` -/
def nameStatus (a : Attribute) : Status :=
  if a.tag ≠ ippTagName ∧ a.tag ≠ ippTagNamelang then .badRequest else .ok

/-- `document-format` -/
def docFormat (a : Attribute) : Checked Status := do
  if a.tag ≠ ippTagMimetype then return .badRequest
  return if ← isOneOf a.text (bytes "application/octet-stream") (bytes "text/plain") then .ok
    else .documentFormat

/-! ## Print-Job and Validate-Job -/

def ippPrintJob : UInt8 := 0x02

structure PrintVars where
  fidelity : Bool := false
  unsupport : List Attribute := []
  haveJobName : Bool := false
  haveUserName : Bool := false
  jobName : Option Str := none
  userName : Option Str := none

/-- The copy of a name that a Print-Job keeps: its length is taken first. -/
def keptName (ippreq : UInt8) (text : Option Str) (malloc : Bool) (old : Option Str) :
    Checked (Option Str) :=
  if ippreq = ippPrintJob then cStrdup malloc text else pure old

/-- A kept name, or the status that the failure of its allocation gives. -/
def nameKept (ippreq : UInt8) (name : Option Str) : Status :=
  if ippreq = ippPrintJob ∧ name = none then .internalError else .ok

def printAttribute (ippreq : UInt8) (s : PrintVars) (a : Attribute) (now : Moment) :
    Checked (Turn PrintVars Response) := do
  match a.id with
  | some .printerUri => return goOn (← printerUri port docType a) s.unsupport s
  | some .userName =>
      if nameStatus a ≠ .ok then return goOn .badRequest s.unsupport s
      let userName ← keptName ippreq a.text (now.malloc 0) s.userName
      return goOn (nameKept ippreq userName) s.unsupport
        { s with userName := userName, haveUserName := true }
  | some .jobName =>
      if nameStatus a ≠ .ok then return goOn .badRequest s.unsupport s
      let jobName ← keptName ippreq a.text (now.malloc 0) s.jobName
      return goOn (nameKept ippreq jobName) s.unsupport
        { s with jobName := jobName, haveJobName := true }
  | some .fidelity =>
      if a.tag ≠ ippTagBoolean then return goOn .badRequest s.unsupport s
      return .next { s with fidelity := a.value.bool }
  | some .docFormat => return goOn (← docFormat a) s.unsupport s
  | some .docName => return goOn (nameStatus a) s.unsupport s
  | _ => return .next { s with unsupport := s.unsupport ++ [a] }

/-- The default that stands for a name that was not given. -/
def defaultName (given malloc : Bool) (name : Option Str) (text : Str) : Option Str :=
  if given then name else if malloc then some text else none

def printFinish (ippreq : UInt8) (s : PrintVars) (tagEnd : Bool) (now : Moment) :
    Checked Response := do
  if ¬ tagEnd then return { retCode := .badRequest, unSupportGroup := s.unsupport }
  if s.unsupport ≠ [] ∧ s.fidelity then
    return { retCode := .attributes, unSupportGroup := s.unsupport }
  let retCode : Status := if s.unsupport ≠ [] then .okSubst else .ok
  if ippreq ≠ ippPrintJob then return { retCode := retCode, unSupportGroup := s.unsupport }
  let jobName := defaultName s.haveJobName (now.malloc 0) s.jobName (bytes "Untitled")
  if ¬ s.haveJobName ∧ jobName = none then
    return { retCode := .internalError, unSupportGroup := s.unsupport }
  let userName := defaultName s.haveUserName (now.malloc 1) s.userName (bytes "anonymous")
  if ¬ s.haveUserName ∧ userName = none then
    return { retCode := .internalError, unSupportGroup := s.unsupport }
  return { retCode := retCode, unSupportGroup := s.unsupport, effect := .queue jobName userName }

/-- `ippPrintValidateJob`; `first` is the moment of the call. -/
def ippPrintValidateJob (ippreq : UInt8) (first last : Moment) (xs : List Arrival) :
    Checked Response :=
  if ippreq = ippPrintJob ∧ first.jobsNo.toNat ≥ ippMaxUser then
    pure { retCode := .serviceUnavailable }
  else
    attributeLoop (printAttribute port docType ippreq) (printFinish ippreq) last {} xs

/-! ## Cancel-Job -/

/-- `ippPrnJob` has no value before it is looked up; none also stands for NULL. -/
structure CancelVars where
  unsupport : List Attribute := []
  prnUri : Bool := false
  cancelJob : Bool := false
  prnJob : Option Nat := none

/-- The search for a `job-id`. -/
def findJobId (a : Attribute) (now : Moment) : Option Nat :=
  now.chain.find? fun p ↦ ((now.obj p).jobId.toNat : Int) = a.value.int

/-- `ippPrnJob`, where it is read. -/
def jobRead : Option Nat → Checked Nat
  | some p => pure p
  | none => throw .unsetJob

def cancelAttribute (s : CancelVars) (a : Attribute) (now : Moment) :
    Checked (Turn CancelVars Response) := do
  match a.id with
  | some .printerUri =>
      let retCode ← printerUri port docType a
      return goOn retCode s.unsupport { s with prnUri := true }
  | some .jobId =>
      if a.tag ≠ ippTagInteger ∨ ¬ s.prnUri then return goOn .badRequest s.unsupport s
      let prnJob := findJobId a now
      let cancelJob := s.cancelJob || prnJob.isSome
      return goOn (if cancelJob then .ok else .notFound) s.unsupport
        { s with prnJob := prnJob, cancelJob := cancelJob }
  | some .jobUri =>
      if a.tag ≠ ippTagUri then return goOn .badRequest s.unsupport s
      let prnJob ← ippValidDestJob port a.text docType now
      if prnJob = none then return goOn .notFound s.unsupport s
      return .next { s with prnJob := prnJob, cancelJob := true }
  | some .userName => return goOn (nameStatus a) s.unsupport s
  | _ => return .next { s with unsupport := s.unsupport ++ [a] }

def cancelFinish (s : CancelVars) (tagEnd : Bool) (now : Moment) : Checked Response := do
  if s.cancelJob then
    let prnJob ← jobRead s.prnJob
    let jobState := (now.obj prnJob).jobState
    if jobState = .aborting then return { retCode := .notPossible, unSupportGroup := s.unsupport }
    if ¬ tagEnd then return { retCode := .badRequest, unSupportGroup := s.unsupport }
    return {
      retCode := if s.unsupport ≠ [] then .okSubst else .ok
      unSupportGroup := s.unsupport
      effect := if jobState = .process then .abort prnJob else .remove prnJob }
  else return { retCode := .badRequest, unSupportGroup := s.unsupport }

def ippCancelJob (last : Moment) (xs : List Arrival) : Checked Response :=
  attributeLoop (cancelAttribute port docType) cancelFinish last {} xs

/-! ## Get-Job-Attributes -/

/-- The attributes that a request asks for: `val` is none while it is `IPP_FIND_NO_VALUE`, and a bit
of `requestAttr` is set for each name that was found. -/
structure Wanted where
  ippReqUnsupport : Bool := false
  asked : Bool := false
  requestAttr : Nat := 0

/-- `requested-attributes` -/
def Wanted.ask (w : Wanted) (attributeTag : List (Str × Nat)) (text : Option Str) : Wanted :=
  match ippFindAttribute attributeTag text with
  | some val => { w with asked := true, requestAttr := w.requestAttr ||| 1 <<< val }
  | none => { w with asked := true, ippReqUnsupport := true }

/-- The numbers of a table that are answered; the last entry of each names the whole group. -/
def Wanted.vals (w : Wanted) (attributeTag : List (Str × Nat)) : List Nat :=
  let group := attributeTag.length - 1
  if w.requestAttr.testBit 0 ∨ w.requestAttr.testBit group then
    (List.range attributeTag.length).drop 1
  else (List.range attributeTag.length).filter w.requestAttr.testBit

structure JobAttributeVars where
  unsupport : List Attribute := []
  wanted : Wanted := {}
  prnUri : Bool := false
  attribId : Option Attr := none
  prnJob : Option Nat := none

def jobAttributeAttribute (s : JobAttributeVars) (a : Attribute) (now : Moment) :
    Checked (Turn JobAttributeVars Response) := do
  let attribId := a.idKept s.attribId
  let s := { s with attribId := attribId }
  match attribId with
  | some .printerUri =>
      let retCode ← printerUri port docType a
      return goOn retCode s.unsupport { s with prnUri := true }
  | some .jobId =>
      if a.tag ≠ ippTagInteger ∨ ¬ s.prnUri then return goOn .badRequest s.unsupport s
      let prnJob := findJobId a now
      return goOn (if prnJob = none then .notFound else .ok) s.unsupport { s with prnJob := prnJob }
  | some .jobUri =>
      if a.tag ≠ ippTagUri then return goOn .badRequest s.unsupport s
      let prnJob ← ippValidDestJob port a.text docType now
      return goOn (if prnJob = none then .notFound else .ok) s.unsupport { s with prnJob := prnJob }
  | some .userName => return goOn (nameStatus a) s.unsupport s
  | some .requestAttrib =>
      if a.tag ≠ ippTagKeyword ∨ s.prnJob = none then return goOn .badRequest s.unsupport s
      return .next { s with wanted := s.wanted.ask jobTempAttribTag a.text }
  | _ => return .next { s with unsupport := s.unsupport ++ [a] }

/-- The attributes of a job; without `requested-attributes` they are all answered. -/
def jobAttributeFinish (s : JobAttributeVars) (tagEnd : Bool) (_ : Moment) : Checked Response := do
  if ¬ tagEnd ∨ s.prnJob = none then
    return { retCode := .badRequest, unSupportGroup := s.unsupport }
  let prnJob ← jobRead s.prnJob
  let w := if s.wanted.asked then s.wanted else { s.wanted with requestAttr := 1 }
  return {
    retCode := if s.unsupport ≠ [] ∨ s.wanted.ippReqUnsupport then .okSubst else .ok
    unSupportGroup := s.unsupport
    respGroup := [(some prnJob, w.vals jobTempAttribTag)] }

def ippGetJobAttribute (last : Moment) (xs : List Arrival) : Checked Response :=
  attributeLoop (jobAttributeAttribute port docType) jobAttributeFinish last {} xs

/-! ## Get-Jobs -/

structure JobsVars where
  unsupport : List Attribute := []
  wanted : Wanted := {}
  reqUserName : Option Str := none
  completed : Bool := false
  myJobOnly : Bool := false
  attribId : Option Attr := none
  limit : Int := 3

/-- `which-jobs`; a value that is not known is put into the group under another name. -/
def whichJobs (s : JobsVars) (a : Attribute) : Checked (Turn JobsVars Response) := do
  if ← cStrcmp a.text (some (bytes "completed")) then return .next { s with completed := true }
  if ← cStrcmp a.text (some (bytes "not-completed")) then
    return .next { s with completed := false }
  return goOn .attributes (s.unsupport ++ [{ a with name := bytes "requested-attributes" }]) s

def jobsAttribute (s : JobsVars) (a : Attribute) (now : Moment) :
    Checked (Turn JobsVars Response) := do
  let attribId := a.idKept s.attribId
  let s := { s with attribId := attribId }
  match attribId with
  | some .printerUri => return goOn (← printerUri port docType a) s.unsupport s
  | some .userName =>
      if nameStatus a ≠ .ok ∨ s.reqUserName ≠ none then return goOn .badRequest s.unsupport s
      return .next { s with reqUserName := ← cStrdup (now.malloc 0) a.text }
  | some .requestAttrib =>
      if a.tag ≠ ippTagKeyword then return goOn .badRequest s.unsupport s
      return .next { s with wanted := s.wanted.ask jobTempAttribTag a.text }
  | some .limit =>
      if a.tag ≠ ippTagInteger then return goOn .badRequest s.unsupport s
      return .next { s with limit := min s.limit a.value.int }
  | some .whichJob =>
      if a.tag ≠ ippTagKeyword then return goOn .badRequest s.unsupport s
      whichJobs s a
  | some .myJob =>
      if a.tag ≠ ippTagBoolean then return goOn .badRequest s.unsupport s
      return .next { s with myJobOnly := s.myJobOnly || a.value.bool }
  | _ => return .next { s with unsupport := s.unsupport ++ [a] }

/-- Whether a job is reported; `limit` only has to be another number than 0. -/
def jobAsked (myJobOnly : Bool) (userName reqUserName : Option Str) (limit : Int) : Checked Bool :=
  if limit = 0 then pure false
  else if ¬ myJobOnly then pure true
  else cStrcmp userName reqUserName

/-- The loop over the jobs. -/
def jobsLoop (myJobOnly : Bool) (reqUserName : Option Str) (vals : List Nat)
    (obj : Nat → ListedJob) : List Nat → Int → Checked (List (Option Nat × List Nat))
  | [], _ => return []
  | prnJob :: rest, limit => do
      if ← jobAsked myJobOnly (obj prnJob).userName reqUserName limit then
        let found ← jobsLoop myJobOnly reqUserName vals obj rest (limit - 1)
        return (some prnJob, vals) :: found
      jobsLoop myJobOnly reqUserName vals obj rest limit

/-- The jobs that are reported; none of those that are listed is completed. -/
def jobsFound (s : JobsVars) (now : Moment) : Checked (List (Option Nat × List Nat)) :=
  let vals := if s.wanted.asked then s.wanted.vals jobTempAttribTag else [1, 2]
  if s.completed then pure []
  else jobsLoop s.myJobOnly s.reqUserName vals now.obj now.chain s.limit

def jobsFinish (s : JobsVars) (tagEnd : Bool) (now : Moment) : Checked Response := do
  if ¬ tagEnd then return { retCode := .badRequest, unSupportGroup := s.unsupport }
  let found ← jobsFound s now
  return {
    retCode := if s.unsupport ≠ [] ∨ s.wanted.ippReqUnsupport then .okSubst else .ok
    unSupportGroup := s.unsupport
    respGroup := found }

def ippGetJobs (last : Moment) (xs : List Arrival) : Checked Response :=
  attributeLoop (jobsAttribute port docType) jobsFinish last {} xs

/-! ## Get-Printer-Attributes -/

structure PrinterVars where
  unsupport : List Attribute := []
  wanted : Wanted := {}
  attribId : Option Attr := none

def printerAttribute (s : PrinterVars) (a : Attribute) (_ : Moment) :
    Checked (Turn PrinterVars Response) := do
  let attribId := a.idKept s.attribId
  let s := { s with attribId := attribId }
  match attribId with
  | some .printerUri => return goOn (← printerUri port docType a) s.unsupport s
  | some .userName => return goOn (nameStatus a) s.unsupport s
  | some .requestAttrib =>
      if a.tag ≠ ippTagKeyword then return goOn .badRequest s.unsupport s
      return .next { s with wanted := s.wanted.ask printerDescriptionTag a.text }
  | some .docFormat => return goOn (← docFormat a) s.unsupport s
  | _ => return .next { s with unsupport := s.unsupport ++ [a] }

def printerFinish (s : PrinterVars) (tagEnd : Bool) (_ : Moment) : Checked Response := do
  if ¬ tagEnd then return { retCode := .badRequest, unSupportGroup := s.unsupport }
  let w := if s.wanted.asked then s.wanted else { s.wanted with requestAttr := 1 }
  return {
    retCode := if s.unsupport ≠ [] ∨ s.wanted.ippReqUnsupport then .okSubst else .ok
    unSupportGroup := s.unsupport
    respGroup := [(none, w.vals printerDescriptionTag)] }

def ippGetPrinterAttr (last : Moment) (xs : List Arrival) : Checked Response :=
  attributeLoop (printerAttribute port docType) printerFinish last {} xs

/-! ## Requests -/

/-- A request as it is read: up to eight bytes before the attributes, what `ippGetAttribute` gives
one after the other, and the moment of its error behind that. -/
structure Request where
  head : List UInt8
  docType : DocType
  arrivals : List Arrival
  last : Moment

/-- The charset and the language, which must come first. -/
def charsetOk (a : Attribute) : Checked Status := do
  if a.tag ≠ ippTagCharset then return .badRequest
  return if ← isOneOf a.text (bytes "utf-8") (bytes "us-ascii") then .ok else .charset

/-- The `switch` over the operation. -/
def operation (r : Request) (first : Moment) (xs : List Arrival) : Checked Response :=
  let op := (r.head.getD 2 0).toNat * 256 + (r.head.getD 3 0).toNat
  if op = 0x02 ∨ op = 0x04 then
    ippPrintValidateJob port r.docType (r.head.getD 3 0) first r.last xs
  else if op = 0x08 then ippCancelJob port r.docType r.last xs
  else if op = 0x09 then ippGetJobAttribute port r.docType r.last xs
  else if op = 0x0A then ippGetJobs port r.docType r.last xs
  else if op = 0x0B then ippGetPrinterAttr port r.docType r.last xs
  else pure { retCode := .operationNotSupported }

/-- `ippd`, up to the response. -/
def ippd (r : Request) : Checked Response := do
  if r.head.length < 8 then return { retCode := .badRequest }
  if r.head.getD 0 0 ≠ 1 then return { retCode := .versionNotSupported }
  match r.arrivals with
  | ⟨.group tag, _⟩ :: ⟨.attribute charset, _⟩ :: ⟨.attribute language, now⟩ :: xs =>
      if tag ≠ ippTagOperation then return { retCode := .badRequest }
      let retCode ← charsetOk charset
      if retCode ≠ .ok then return { retCode := retCode }
      if language.tag ≠ ippTagLanguage then return { retCode := .badRequest }
      operation port r now xs
  | ⟨.group tag, _⟩ :: ⟨.attribute charset, _⟩ :: _ =>
      if tag ≠ ippTagOperation then return { retCode := .badRequest }
      let retCode ← charsetOk charset
      return { retCode := if retCode ≠ .ok then retCode else .badRequest }
  | _ => return { retCode := .badRequest }

end PrintServer.Ipp
