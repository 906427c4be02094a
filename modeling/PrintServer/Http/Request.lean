import PrintServer.Http.CString

/-!
# The request line, the headers and authorization of httpd.c

The first half of `httpd`: the request line, the header loop with the firmware upload and the
hand-over to ippd inside it, and `authorization`.  The stream is given by what the calls of
`fgets` store and what the calls of `zot_recv` can copy.
-/

namespace PrintServer.Http

def numOfPrnPort : Nat := 1
def hlinelen : Nat := 768 + 128
def code2MaxSize : Int32 := 768
def upgradeBlockSize : Int32 := 1024
def psIppMode : UInt8 := 0x20

inductive Method
  | head
  | get
  | post
  | unknown
deriving DecidableEq

/-- `struct reqInfo`. -/
structure ReqInfo where
  method : Method
  version : Nat
  url : Str
  query : Option Str
  newcheck : Option Str
  fromHdr : Option Str
  referer : Option Str
  agent : Option Str
  passwd : Option Str
  boundary : Option Str
deriving DecidableEq

/-- The fields of `EEPROM_Data` that httpd reads, and the rest of it. -/
structure Eeprom (ε : Type) where
  ethernetId : List UInt8
  specialOem : UInt8
  rest : ε
deriving DecidableEq

/-- The settings: `EEPROM_Data`, `CurSetupPassword` and the flags `HttpNeed...`. -/
structure Box (ε : Type) where
  eeprom : Eeprom ε
  curSetupPassword : Str
  needReboot : Bool
  needReset : Bool
  needLoadDefault : Bool
  needWriteEEPROM : Bool
deriving DecidableEq

inductive HttpEvent
  | httpError (resp : Nat) (str : Str)
  | unauthorized
  | ippd (port : Nat)
  | apUpgradeFirmware (data : List UInt8)
  | cgiBoxSetting (query : Str)
  | displayCGIMsg (htmlName : Str)
  | httpHeaders (resp : Nat)
  | sendPage (url : Str)
  | echoOutput (item : Str)
  | writeToEEPROM
  | resetToDefalutFlash
  | reboot
deriving DecidableEq

/-- The web pages and the state of the box that a request does not change, and the functions that
httpd calls: `CGIBoxSetting` returns whether it accepted the form, `ApUpgradeFirmware` whether it
accepted the firmware. -/
structure HttpEnv (ε : Type) where
  authFileList : List Str
  pfs : Str → Option (List UInt8)
  lastModified : Str
  psMode : UInt8
  diagFlag : Bool
  authSeed : UInt16
  /-- which operand of the unsequenced `buf[0] * (buf[0] += 7)` is evaluated first -/
  seedFirst : Bool
  /-- the old contents of the buffers -/
  heap : List UInt8
  /-- the text at an address of the first page, for `strdup(Inline[19])` -/
  lowText : UInt8 → Str
  /-- `thetype` for a name without an extension or with an unknown one -/
  otherType : Nat
  allocCode2Memory : Bool
  cgiBoxSetting : Box ε → Str → Bool × Box ε
  apUpgradeFirmware : List UInt8 → Bool
  writeToEEPROM : Eeprom ε → Eeprom ε
  resetToDefalutFlash : Eeprom ε → Eeprom ε

/-- What the calls of `fgets` store until one returns NULL, and what the calls of `zot_recv` for
an upload can copy, `none` for an error. -/
structure Request where
  lines : List (List UInt8)
  body : List (Option (List UInt8))

variable {ε : Type}

/-! ## authorization -/

def basis64 (n : Nat) : UInt8 :=
  (bytes "ABCDEFGHIJKLMNOPQRSTUVWXYZabcdefghijklmnopqrstuvwxyz0123456789+/").getD n 0

def base64encode : List UInt8 → Str
  | a :: b :: c :: s =>
      let n := a.toNat * 65536 + b.toNat * 256 + c.toNat
      basis64 (n / 262144) :: basis64 (n / 4096 % 64) :: basis64 (n / 64 % 64) ::
        basis64 (n % 64) :: base64encode s
  | [a, b] =>
      let n := a.toNat * 1024 + b.toNat * 4
      [basis64 (n / 4096), basis64 (n / 64 % 64), basis64 (n % 64), chr '=']
  | [a] =>
      let n := a.toNat * 16
      [basis64 (n / 64), basis64 (n % 64), chr '=', chr '=']
  | [] => []

def masterPassword : Str := bytes "UHJpbnRTZXJ2ZXJTZXR1cDpTaW1vblNheQ=="

/-- `buf[i+1] ^= buf[i] * (buf[0] += 7)` for `i` from 0 to 6. -/
def scramble (first : Bool) (buf : List UInt8) : List UInt8 :=
  (List.range 7).foldl (fun buf i ↦
    let b0 := buf.getD 0 0 + 7
    let left := if i = 0 ∧ ¬ first then b0 else buf.getD i 0
    (buf.set 0 b0).set (i + 1) (buf.getD (i + 1) 0 ^^^ left * b0)) buf

/-- `buf[i] = (WORD)(buf[i] + (buf[i] >> 4)) % 10 + '0'`, with `buf[i]` a signed char. -/
def toDigit (b : UInt8) : UInt8 :=
  let v : Int := b.toInt8.toInt
  chr '0' + UInt8.ofInt ((v + v / 16) % 65536 % 10)

def seedPassword (env : HttpEnv ε) (box : Box ε) : Str :=
  let buf := UInt8.ofNat env.authSeed.toNat :: UInt8.ofNat (env.authSeed.toNat / 256) ::
    (List.range 6).map (fun i ↦ box.eeprom.ethernetId.getD (5 - i) 0)
  bytes "YWRtaW46" ++ base64encode (((scramble env.seedFirst buf).drop 1).map toDigit)

/-- The values of the Authorization header that `authorization` accepts. -/
def accepted (env : HttpEnv ε) (box : Box ε) (passwd : Str) : Bool :=
  passwd = base64encode (bytes "admin:" ++ box.curSetupPassword) ∨
    passwd = masterPassword ∨ passwd = seedPassword env box

def inAuthFileList (env : HttpEnv ε) (url : Str) : Bool :=
  env.authFileList.any fun authFile ↦ stricmp url authFile = 0

def authorization (env : HttpEnv ε) (box : Box ε) (rq : ReqInfo) : Bool :=
  box.curSetupPassword = [] ∨ inAuthFileList env rq.url ∨ rq.passwd.any (accepted env box)

/-! ## The request line and the headers -/

/-- What the header loop ends with. -/
inductive Received
  | quit
  | httpError (resp : Nat) (str : Str)
  | ippd (port : Nat)
  | upload (rq : ReqInfo) (reject : Bool) (data : List UInt8)
  | request (rq : ReqInfo)

/-- `ippCheckPort`, `numOfPrnPort` when the url is not the one of a port. -/
def ippCheckPort (url : Str) : Nat :=
  if stricmp url (bytes "lp1") = 0 ∨ strnicmp url (bytes "lp1/job%03d") 7 = 0 ∨
      stricmp url (bytes "lp1_txt") = 0 ∨ strnicmp url (bytes "lp1_txt/job%03d") 11 = 0
  then 0 else numOfPrnPort

/-- `rq`, `ippObj->ippreq`, `ippObj->chunked`, `qsize` and `Inline` in the header loop. -/
structure Headers where
  rq : ReqInfo
  ippreq : Bool
  chunked : Bool
  qsize : Int32
  inlineBuf : List UInt8

def isHeader (b : List UInt8) (name : String) : Bool :=
  strnicmp (cstr b 0) (bytes name) (bytes name).length = 0

/-- One header line; the text of a header is read at a fixed index of `Inline`. -/
def headerLine (env : HttpEnv ε) (h : Headers) : Headers :=
  let b := h.inlineBuf
  if isHeader b "Content-Length:" then { h with qsize := atol (cstr b 15) }
  else if isHeader b "If-Modified-Since:" then
    { h with rq := { h.rq with newcheck := some (env.lowText (b.getD 19 0)) } }
  else if isHeader b "From:" then { h with rq := { h.rq with fromHdr := some (cstr b 6) } }
  else if isHeader b "Referer:" then { h with rq := { h.rq with referer := some (cstr b 9) } }
  else if isHeader b "User-Agent:" then { h with rq := { h.rq with agent := some (cstr b 12) } }
  else if isHeader b "Authorization:" then
    { h with rq := { h.rq with passwd := some (cstr b 21) } }
  else if isHeader b "Content-Type:" then
    let h := { h with ippreq := (strstr (cstr b 13) (bytes "application/ipp")).isSome }
    match (strstr (cstr b 13) (bytes "multipart/form-data")).bind
        fun cp ↦ strstr (cp.drop 19) (bytes "boundary=") with
    | some cp => { h with rq := { h.rq with boundary := some (cp.drop 9) } }
    | none => h
  else if isHeader b "Transfer-Encoding:" then
    { h with chunked := (strstr (cstr b 18) (bytes "chunked")).isSome }
  else h

/-- The part headers of an upload, up to the blank line: `tsize`. -/
def uploadHeaders : List (List UInt8) → List UInt8 → Int32 → Option Int32
  | [], _, _ => none
  | line :: lines, b, tsize =>
      let b := store line b
      let tsize := tsize + Int32.ofNat (cstr b 0).length + 1
      if cstr (rip b) 0 = [] then some tsize else uploadHeaders lines (rip b) tsize

/-- The read loop of an upload: what it copies to `UPGRADE_TEMP_ADDRESS`. -/
def uploadBody (qsize : Int32) : List (Option (List UInt8)) → Int32 → List UInt8 → List UInt8
  | some piece :: body, bsize, temp =>
      let len := if qsize - bsize > 1024 then 1024 else qsize - bsize
      let bread := piece.take len.toInt.toNat
      if bread = [] then temp
      else
        let bsize := bsize + Int32.ofNat bread.length
        if bsize > code2MaxSize * upgradeBlockSize ∨ bsize ≥ qsize then temp ++ bread
        else uploadBody qsize body bsize (temp ++ bread)
  -- `zot_recv` fails
  | _, _, temp => temp

/-- The blank line after the headers. -/
def endOfHeaders (env : HttpEnv ε) (h : Headers) (lines : List (List UInt8))
    (body : List (Option (List UInt8))) : Received :=
  if h.ippreq then
    if env.psMode &&& psIppMode = 0 then .httpError 501 h.rq.url
    else if h.rq.method ≠ .post then .httpError 400 (bytes "IPP only accept POST method")
    else if ippCheckPort h.rq.url ≥ numOfPrnPort then .httpError 404 h.rq.url
    else if ¬ h.chunked ∧ h.qsize = 0 then
      .httpError 400 (bytes "POST request Content-Length")
    else .ippd (ippCheckPort h.rq.url)
  else if h.qsize ≠ 0 ∧ h.rq.method = .post then
    match h.rq.boundary with
    | some boundary =>
        let qsize := h.qsize - Int32.ofNat (boundary.length + 4 + 4)
        match uploadHeaders lines h.inlineBuf 0 with
        | none => .quit
        | some tsize =>
            let qsize := qsize - tsize
            let reject := !env.allocCode2Memory || qsize > code2MaxSize * upgradeBlockSize
            .upload h.rq reject (uploadBody qsize body 0 [])
    | none =>
        match lines with
        | [] => .quit
        | line :: _ =>
            let tquery := cstr (store line []) 0
            .request { h.rq with
              query := if tquery = [] then h.rq.query else some (decode env.heap tquery false) }
  else .request h.rq

def headerLoop (env : HttpEnv ε) (body : List (Option (List UInt8))) :
    List (List UInt8) → Headers → Received
  | [], h => .request h.rq
  | line :: lines, h =>
      let h := { h with inlineBuf := rip (store line h.inlineBuf) }
      if cstr h.inlineBuf 0 = [] then endOfHeaders env h lines body
      else headerLoop env body lines (headerLine env h)

/-- The request line: `rq` and the `Inline` that is left. -/
def requestLine (env : HttpEnv ε) (line : List UInt8) : ReqInfo × List UInt8 × Bool :=
  let b := rip (store line env.heap)
  let http := strstr (cstr b 0) (bytes " HTTP/1.")
  let b := match http with
    | some cp => b.set ((cstr b 0).length - cp.length) 0
    | none => b
  let method := (cstr b 0).length - (skipnonwhite (cstr b 0)).length
  let cp := cstr b method
  let path := cp.takeWhile (· ≠ chr '?')
  let hasQuery := decide (chr '?' ∈ cp)
  let queryp := cp.drop (path.length + 1)
  let b := if hasQuery then b.set (method + path.length) 0 else b
  let b := b.set method 0
  ({ method :=
      if cstr b 0 = bytes "GET" then .get
      else if cstr b 0 = bytes "HEAD" then .head
      else if cstr b 0 = bytes "POST" then .post
      else .unknown
     version := if http.isSome then 1 else 0
     url := if path.length > 2 then decode env.heap (path.drop 2) true else bytes "index.htm"
     query := if queryp = [] then none else some (decode env.heap queryp false)
     newcheck := none, fromHdr := none, referer := none, agent := none, passwd := none
     boundary := none }, b, hasQuery)

def receive (env : HttpEnv ε) (req : Request) : Received :=
  match req.lines with
  | [] => .quit
  | line :: lines =>
      let (rq, b, hasQuery) := requestLine env line
      if rq.method = .unknown then .httpError 501 (cstr b 0)
      else if rq.version = 0 ∧ (rq.method ≠ .get ∨ hasQuery) then
        .httpError 400 (bytes "Invalid HTTP/0.9 Request")
      else if rq.method ≠ .get ∧ hasQuery then
        .httpError 400 (bytes "Invalid URI for 'HEAD' or 'POST'")
      else if rq.version = 0 then .request rq
      else headerLoop env req.body lines ⟨rq, false, false, 0, b⟩

end PrintServer.Http
