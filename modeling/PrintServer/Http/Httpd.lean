import PrintServer.Http.Request

/-!
# The answer of httpd.c

The second half of `httpd`: the upgrade, the form processing or the page, and the actions at
`quit`.  What the handler does is a trace of its calls, each with the settings after it.
-/

namespace PrintServer.Http

variable {ε : Type}

abbrev Trace (ε : Type) := List (HttpEvent × Box ε)

def tHtm : Nat := 0
def tGif : Nat := 1
def tJpg : Nat := 2
def tCss : Nat := 3

/-- The search of `HTTPtypes` for the extension: htm, gif, jpg, css, js and bin. -/
def fileType (env : HttpEnv ε) (url : Str) : Nat :=
  match strrchr url (chr '.') with
  | none => env.otherType
  | some i =>
      let cp := url.drop (i + 1)
      let exts := ["htm", "gif", "jpg", "css", "js", "bin"]
      (exts.findIdx? fun ext ↦ strnicmp (bytes ext) cp ext.length = 0).getD env.otherType

/-! ## Server-side includes -/

/-- `EchoOutput`, of which only these four items change the settings. -/
def echoOutput (box : Box ε) (item : Str) : Box ε :=
  if stricmp (bytes "SysReset") item = 0 then { box with needReset := true }
  else if stricmp (bytes "SysReboot") item = 0 then { box with needReboot := true }
  else if stricmp (bytes "LoadDefault") item = 0 then { box with needLoadDefault := true }
  else if stricmp (bytes "SaveEEPROM") item = 0 then { box with needWriteEEPROM := true }
  else box

/-- The command at the start of the memory `m`: the item that it echoes, and the memory after it.
A command that ends before `var="` reads its item behind its own NUL. -/
def echoItem (m : List UInt8) : Option Str × List UInt8 :=
  let cmdname := skipwhite m
  let cp1 := skipwhite (skipnonwhite cmdname)
  if strnicmp (cstr cmdname 0) (bytes "echo") 4 = 0 ∧ strnicmp (cstr cp1 0) (bytes "var=\"") 5 = 0
  then
    let k := m.length - cp1.length + 5
    let item := cstr m k
    match strrchr item (chr '"') with
    | some i => (some (item.take i), m.set (k + i) 0)
    | none => (some item, m)
  else (none, m)

/-- The items that the line at the start of `m` echoes; `fuel` bounds the commands of a line. -/
def lineItems : Nat → List UInt8 → List Str
  | 0, _ => []
  | fuel + 1, m =>
      let bufptr := cstr m 0
      match strstr bufptr (bytes "<!--#") with
      | none => []
      | some cp1 =>
          let m := m.drop (bufptr.length - cp1.length + 5)
          let cp1 := cp1.drop 5
          match strstr cp1 (bytes "-->") with
          | none => (echoItem m).1.toList
          | some remainder =>
              let i := cp1.length - remainder.length
              let (item, m) := echoItem (m.set i 0)
              item.toList ++ lineItems fuel (m.drop (i + 3))

/-- The lines that `PFSgets` cuts a page into. -/
def pfsLines : Nat → List UInt8 → List (List UInt8)
  | 0, _ => []
  | fuel + 1, page =>
      if page = [] then []
      else
        let text := (page.take (hlinelen - 1)).takeWhile (· ≠ chr '\n')
        let size := min (text.length + 1) (min (hlinelen - 1) page.length)
        page.take size :: pfsLines fuel (page.drop size)

/-- The items that a page echoes, line by line through one buffer. -/
def pageItems (inbuf : List UInt8) : List (List UInt8) → List Str
  | [] => []
  | line :: lines =>
      let inbuf := store line inbuf
      lineItems line.length inbuf ++ pageItems inbuf lines

def echoItems (box : Box ε) : List Str → Trace ε
  | [] => []
  | item :: items =>
      let box := echoOutput box item
      (.echoOutput item, box) :: echoItems box items

def sendhtml (env : HttpEnv ε) (box : Box ε) (page : List UInt8) : Trace ε :=
  echoItems box (pageItems env.heap (pfsLines page.length page))

/-! ## The answer -/

/-- The file that is sent for a url. -/
def fileUrl (url : Str) : Str :=
  if ippCheckPort url < numOfPrnPort then bytes "ipp.htm" else url

/-- The browser has the picture already. -/
def notModified (env : HttpEnv ε) (rq : ReqInfo) (thetype : Nat) : Bool :=
  (thetype = tGif ∨ thetype = tJpg ∨ thetype = tCss) ∧ rq.method ≠ .head ∧
    rq.newcheck.any fun newcheck ↦
      strnicmp newcheck env.lastModified env.lastModified.length = 0

def sendFile (env : HttpEnv ε) (box : Box ε) (rq : ReqInfo) : Trace ε :=
  let url := fileUrl rq.url
  let thetype := fileType env url
  match env.pfs url with
  | none => [(.httpError 404 url, box)]
  | some page =>
      if notModified env rq thetype then [(.httpHeaders 304, box)]
      else
        (.httpHeaders 200, box) ::
          if rq.method = .head then []
          else (.sendPage url, box) :: if thetype = tHtm then sendhtml env box page else []

/-- `DisplayCGIMsg`: a redirection, or an error where there is no such page. -/
def displayCGIMsg (env : HttpEnv ε) (htmlName : Str) : HttpEvent :=
  if (env.pfs htmlName).isSome then .displayCGIMsg htmlName else .httpError 404 htmlName

def processCgi (env : HttpEnv ε) (box : Box ε) (rq : ReqInfo) (query : Str) : Trace ε :=
  let (failed, box) := env.cgiBoxSetting box query
  [(.cgiBoxSetting query, box),
    (displayCGIMsg env (if failed then bytes "ERROR.HTM" else rq.url), box)]

def upgrade (env : HttpEnv ε) (box : Box ε) (rq : ReqInfo) (reject : Bool) (data : List UInt8) :
    Trace ε :=
  if reject then [(displayCGIMsg env (bytes "ERROR.HTM"), box)]
  else
    [(.apUpgradeFirmware data, box),
      (displayCGIMsg env (if env.apUpgradeFirmware data then rq.url else bytes "ERROR.HTM"), box)]

def diagnosticMode (env : HttpEnv ε) (box : Box ε) : Bool :=
  box.eeprom.specialOem = 2 ∧ env.diagFlag

/-- What is done between the header loop and `quit`. -/
def answer (env : HttpEnv ε) (box : Box ε) : Received → Trace ε
  | .quit => []
  | .httpError resp str => [(.httpError resp str, box)]
  | .ippd port => [(.ippd port, box)]
  | .upload rq reject data => upgrade env box rq reject data
  | .request rq =>
      if ¬ diagnosticMode env box ∧ ¬ authorization env box rq then [(.unauthorized, box)]
      else
        match rq.query with
        | some query => processCgi env box rq query
        | none => sendFile env box rq

def Box.pending (box : Box ε) : Bool := box.needReboot || box.needReset

/-- The actions at `quit`, for the flags that are set by then. -/
def quit (env : HttpEnv ε) (box : Box ε) : Trace ε :=
  if box.pending then
    if box.needLoadDefault then
      let box := { box with
        needLoadDefault := false, eeprom := env.resetToDefalutFlash box.eeprom }
      [(.resetToDefalutFlash, box), (.reboot, { box with needReboot := false, needReset := false })]
    else if box.needWriteEEPROM then
      let box := { box with needWriteEEPROM := false, eeprom := env.writeToEEPROM box.eeprom }
      [(.writeToEEPROM, box), (.reboot, { box with needReboot := false, needReset := false })]
    else [(.reboot, { box with needReboot := false, needReset := false })]
  else []

/-- The settings at the end of a trace that started with `box`. -/
def Trace.last (box : Box ε) (t : Trace ε) : Box ε := (t.getLast?.map Prod.snd).getD box

def httpd (env : HttpEnv ε) (box : Box ε) (req : Request) : Trace ε :=
  let t := answer env box (receive env req)
  t ++ quit env (t.last box)

/-! ## The property -/

/-- The value of the Authorization header when the request is handled. -/
def Received.passwd : Received → Option Str
  | .upload rq _ _ | .request rq => rq.passwd
  | _ => none

def Unauthorized (env : HttpEnv ε) (box : Box ε) (req : Request) : Prop :=
  ∀ passwd ∈ (receive env req).passwd, accepted env box passwd = false

def HttpEvent.Harmless (env : HttpEnv ε) : HttpEvent → Prop
  | .apUpgradeFirmware _ | .cgiBoxSetting _ | .writeToEEPROM | .resetToDefalutFlash => False
  | .sendPage url => inAuthFileList env url = true
  | _ => True

/-- No call changes a setting, none is one of the four, and only pages in `AuthFileList` are
sent. -/
def Gated (env : HttpEnv ε) (box : Box ε) (t : Trace ε) : Prop :=
  ∀ p ∈ t, p.1.Harmless env ∧ p.2 = box

/-- `authorization` is passed without a password. -/
def exempt (env : HttpEnv ε) (box : Box ε) (rq : ReqInfo) : Bool :=
  inAuthFileList env rq.url || diagnosticMode env box

/-- A page that can be sent for the request without a password. -/
def sendsPage (env : HttpEnv ε) (rq : ReqInfo) (page : List UInt8) : Prop :=
  env.pfs (fileUrl rq.url) = some page ∧ rq.method ≠ .head ∧
    notModified env rq (fileType env (fileUrl rq.url)) = false

/-- No restart is pending when the request arrives; it is no firmware upload that fits; and where
its url is in `AuthFileList` or the box is in diagnostic mode, it has no query, and the page that
is sent is in `AuthFileList` and has no item that sets a flag. -/
structure GateOk (env : HttpEnv ε) (box : Box ε) (req : Request) : Prop where
  notPending : box.pending = false
  noUpload : ∀ rq data, receive env req ≠ .upload rq false data
  noQuery : ∀ rq, receive env req = .request rq → exempt env box rq = true → rq.query = none
  listed : ∀ rq, receive env req = .request rq → exempt env box rq = true →
    ∀ page, sendsPage env rq page → inAuthFileList env (fileUrl rq.url) = true
  noSetting : ∀ rq, receive env req = .request rq → exempt env box rq = true →
    ∀ page, sendsPage env rq page → fileType env (fileUrl rq.url) = tHtm →
      ∀ item ∈ pageItems env.heap (pfsLines page.length page), echoOutput box item = box

end PrintServer.Http
