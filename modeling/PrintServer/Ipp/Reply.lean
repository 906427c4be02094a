import PrintServer.Ipp.Operations

/-!
# Responses of ippd

`ippSendResp` of httpd.c, with `ippSetRespBuf` and `ippAppend` of ippd.c.  The response is put
together in a buffer of `MaxBufSize` bytes, whose writes are kept: the texts of `sprintf` at its
front, and the version, the status and the operation group from offset 80 on.
-/

namespace PrintServer.Ipp

open Http (Str bytes chr)

/-! ## Groups -/

/-- `ippBuf`: `pf_len`, and what lies between `pf_cur` and `pf_end`.  Nothing is consumed, so that
`pf_cur` is `pf_buf`. -/
structure IppBuf where
  len : Nat := 0
  data : List UInt8 := []

def pfMorespace : Nat := 1024

/-- `morespace`, where `realloc` succeeds. -/
def morespace (pf : IppBuf) (data : List UInt8) : IppBuf :=
  let len := pf.len + data.length
  let nsize := (len / pfMorespace + (if len % pfMorespace ≠ 0 then 1 else 0)) * pfMorespace
  { len := nsize, data := pf.data ++ data }

def ippAppend (pf : IppBuf) (data : List UInt8) : IppBuf :=
  if pf.data.length + data.length > pf.len then morespace pf data
  else { pf with data := pf.data ++ data }

/-- `PF_BUFSIZ`, as it is kept in a `uint16`. -/
def pfBufsiz (pf : IppBuf) : UInt16 := UInt16.ofNat pf.data.length

/-! ## The buffer -/

/-- The buffer, and the offset and the number of bytes of each write to it. -/
structure RespBuf where
  data : Int → UInt8
  writes : List (Int × Nat)

/-- `memcpy` of `n` bytes to the offset `o`. -/
def RespBuf.copy (b : RespBuf) (o : Int) (src : Nat → UInt8) (n : Nat) : RespBuf where
  data i := if o ≤ i ∧ i < o + n then src (i - o).toNat else b.data i
  writes := b.writes ++ [(o, n)]

def RespBuf.put (b : RespBuf) (o : Int) (bs : List UInt8) : RespBuf :=
  b.copy o (fun i ↦ bs.getD i 0) bs.length

/-- `sprintf` to the front of the buffer. -/
def RespBuf.print (b : RespBuf) (line : Str) : RespBuf := b.put 0 (line ++ [0])

/-- `ipp_t`, as far as a response is made of it. -/
structure IppReply where
  version : UInt16
  retCode : UInt16
  id : UInt32
  charset : Option Str
  language : Option Str
  unSupportGroup : IppBuf
  respGroup : IppBuf

def ippDefaultCharset : Str := bytes "utf-8"
def ippSecondCharset : Str := bytes "us-ascii"
def ippDefaultLanguage : Str := bytes "en-us"

/-- A number as `NSET16` stores it. -/
def nset16 (n : UInt16) : List UInt8 := [n.toUInt8, (n >>> 8).toUInt8]

def nset32 (n : UInt32) : List UInt8 :=
  [n.toUInt8, (n >>> 8).toUInt8, (n >>> 16).toUInt8, (n >>> 24).toUInt8]

def htons (n : UInt16) : UInt16 := n <<< 8 ||| n >>> 8

/-- `memcpy` of a text: its length is an `int16`, and then a `size_t`. -/
def RespBuf.text (b : RespBuf) (o : Int) (text : Str) (len : Int16) : RespBuf :=
  b.copy o (fun i ↦ text.getD i 0) (sizeT len.toInt)

/-- `ippSetRespBuf` on the part of the buffer from `base` on: `FileSize` is returned. -/
def ippSetRespBuf (base : Int) (obj : IppReply) (b : RespBuf) : RespBuf × Int16 :=
  let b := b.put base (nset16 obj.version)
  let b := b.put (base + 2) (nset16 (htons obj.retCode))
  let b := b.put (base + 4) (nset32 obj.id)
  let b := b.put (base + 8) [ippTagOperation]
  let b := b.put (base + 9) [ippTagCharset]
  let b := b.put (base + 10) (nset16 (htons 18))
  let b := b.put (base + 12) (bytes "attributes-charset")
  let charset := obj.charset.getD ippDefaultCharset
  let len := Int16.ofNat charset.length
  let b := b.put (base + 30) (nset16 (htons len.toUInt16))
  let b := b.text (base + 32) charset len
  let fileSize := 32 + len
  let b := b.put (base + fileSize.toInt) [ippTagLanguage]
  let fileSize := fileSize + 1
  let b := b.put (base + fileSize.toInt) (nset16 (htons 27))
  let fileSize := fileSize + 2
  let b := b.put (base + fileSize.toInt) (bytes "attributes-natural-language")
  let fileSize := fileSize + 27
  let language := obj.language.getD ippDefaultLanguage
  let len := Int16.ofNat language.length
  let b := b.put (base + fileSize.toInt) (nset16 (htons len.toUInt16))
  let fileSize := fileSize + 2
  let b := b.text (base + fileSize.toInt) language len
  (b, fileSize + len)

/-! ## Sending -/

def ippClientBadRequest : UInt16 := 0x400
def ippServerErrorJobCancelled : UInt16 := 0x508

/-- `RespGroupSize`; a group of one byte has only its tag. -/
def IppReply.respGroupSize (obj : IppReply) : UInt16 :=
  if obj.retCode < ippClientBadRequest ∨ obj.retCode = ippServerErrorJobCancelled then
    if pfBufsiz obj.respGroup = 1 then 0 else pfBufsiz obj.respGroup
  else 0

def IppReply.maxBufSize (obj : IppReply) : Nat :=
  max 512 (max (pfBufsiz obj.unSupportGroup).toNat obj.respGroupSize.toNat)

/-- `%d` -/
def printInt (n : Int) : Str :=
  if n < 0 then chr '-' :: (Nat.toDigits 10 n.natAbs).map chr
  else (Nat.toDigits 10 n.natAbs).map chr

def crlf : Str := [0x0D, 0x0A]

def cacheControl : Str :=
  bytes "Pragma: no-cache" ++ crlf ++ bytes "Cache-Control: no-cache" ++ crlf ++
    bytes "Connection: close" ++ crlf

def contentType : Str := bytes "Content-Type: application/ipp" ++ crlf

/-- The line with the length of the body. -/
def contentLength (n : Int) : Str := bytes "Content-Length: " ++ printInt n ++ crlf

/-- The length that is printed; `cnt` is that of the operation group. -/
def IppReply.length (obj : IppReply) (cnt : Int) : Int :=
  cnt + (pfBufsiz obj.unSupportGroup).toNat + obj.respGroupSize.toNat + 1

/-- The buffer, of which the first `cnt` bytes are sent; `old` is what was in it.  Where `memcpy`
overlaps, it copies what was there before. -/
def IppReply.buffer (old : Int → UInt8) (obj : IppReply) : RespBuf × Int :=
  let b := (RespBuf.print ⟨old, []⟩ cacheControl).print contentType
  let r := ippSetRespBuf 80 obj b
  let cnt := r.2.toInt
  let b := r.1.print (contentLength (obj.length cnt))
  (b.copy 0 (fun i ↦ b.data (80 + i)) (sizeT cnt), cnt)

/-- The sends one after the other, until one fails; `send` says which succeed. -/
def sendAll (send : Nat → Bool) : Nat → List (List UInt8) → List (List UInt8) × Bool
  | _, [] => ([], true)
  | i, data :: rest =>
      if send i then
        let r := sendAll send (i + 1) rest
        (data :: r.1, r.2)
      else ([], false)

/-- What a response leaves: the writes to its buffer, the lines of the HTTP header, what was sent
behind them, and whether no send failed. -/
structure Sent where
  writes : List (Int × Nat)
  lines : List Str
  body : List (List UInt8)
  complete : Bool

/-- `ippSendResp`; `httpHeaders` are the lines that `httpHeaders` puts. -/
def ippSendResp (malloc : Bool) (send : Nat → Bool) (old : Int → UInt8) (httpHeaders : List Str)
    (obj : IppReply) : Option Sent :=
  if malloc then
    let unSupportSize := pfBufsiz obj.unSupportGroup
    let respGroupSize := obj.respGroupSize
    let b := obj.buffer old
    let group := (List.range b.2.toNat).map fun i : Nat ↦ b.1.data i
    let unSupport := obj.unSupportGroup.data.take unSupportSize.toNat
    let resp := obj.respGroup.data.take respGroupSize.toNat
    let sent := sendAll send 0
      ([group] ++ (if unSupportSize ≠ 0 then [unSupport] else []) ++
        (if respGroupSize ≠ 0 then [resp] else []) ++ [[ippTagEnd]])
    some {
      writes := b.1.writes
      lines := httpHeaders ++ [cacheControl, contentType, contentLength (obj.length b.2), crlf]
      body := sent.1
      complete := sent.2 }
  else none

/-! ## Requests -/

/-- `Charset` and `Language`, as `ippd` keeps them of a request. -/
def Request.texts (r : Request) : Option Str × Option Str :=
  if r.head.length < 8 ∨ r.head.getD 0 0 ≠ 1 then (none, none)
  else
    match r.arrivals with
    | ⟨.group tag, _⟩ :: ⟨.attribute charset, _⟩ :: rest =>
        if tag = ippTagOperation ∧ charset.tag = ippTagCharset ∧
            (charset.text = some ippDefaultCharset ∨ charset.text = some ippSecondCharset) then
          match rest with
          | ⟨.attribute language, _⟩ :: _ =>
              (charset.text, if language.tag = ippTagLanguage then language.text else none)
          | _ => (charset.text, none)
        else (none, none)
    | _ => (none, none)

/-- The object of a request when its response is sent: the operation, or the job that it started,
has set the status and appended to the groups. -/
def Request.answered (r : Request) (version retCode : UInt16) (id : UInt32)
    (unSupport resp : List (List UInt8)) : IppReply where
  version := version
  retCode := retCode
  id := id
  charset := r.texts.1
  language := r.texts.2
  unSupportGroup := unSupport.foldl ippAppend {}
  respGroup := resp.foldl ippAppend {}

end PrintServer.Ipp
