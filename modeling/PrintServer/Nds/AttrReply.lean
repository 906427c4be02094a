import PrintServer.Lib.ErrorExit
import PrintServer.Nds.SendFrag
import PrintServer.Novell.QueueTable

/-!
# The replies of the directory

`NDSGetPrinterQueue` (ndsqueue.c) asks for the printers of the print server, for the queues of a
printer, for the host server of each queue and for the network address of each file server.  It
parses a reply with a pointer of 32 bits, and a reply is what the memory holds meanwhile: the
lengths in it may lead the pointer anywhere.
-/

namespace PrintServer.Nds

open Lib

/-- The attribute that `NDSRead` asks for. -/
inductive ObjectName
  | printer
  | queue
  | hostServer
  | networkAddress
deriving DecidableEq

/-- What `NDSRead` puts into a buffer of 2048 octets; `mem` is all of the memory. -/
structure Content where
  outlen : Nat
  mem : Nat → UInt8
  outlen_pos : 0 < outlen
  outlen_le : outlen ≤ 2048

/-- A reply in its buffer. -/
structure AttrReply extends Content where
  objectName : ObjectName
  buf : Nat
  buf_lt : buf + 2048 < 2 ^ 32

/-- A pointer has 32 bits. -/
def pointer (n : Nat) : Nat := n % 2 ^ 32

/-- `(skiplen + 3) & ~3` -/
def roundUp (skiplen : Nat) : Nat := (skiplen + 3) % 2 ^ 32 / 4 * 4

/-- What the function does with the octets of a reply. -/
inductive Visit
  /-- `n` octets are read. -/
  | read (p n : Nat)
  /-- An item whose length is at `p` is taken. -/
  | item (p : Nat)
  /-- A name is passed on. -/
  | name (p : Nat)

namespace AttrReply

variable (r : AttrReply)

def bufend : Nat := r.buf + r.outlen

/-- `NGET32` -/
@[irreducible] def dwordAt (p : Nat) : Nat :=
  (r.mem p).toNat + 256 * (r.mem (pointer (p + 1))).toNat +
    65536 * (r.mem (pointer (p + 2))).toNat + 16777216 * (r.mem (pointer (p + 3))).toNat

/-- The octets from `p` on, `n` of them, are octets of the reply. -/
def Inside (p n : Nat) : Prop := r.buf ≤ p ∧ p + n ≤ r.bufend

/-- A name begins in the reply and has its terminator there. -/
def NameInside (p : Nat) : Prop :=
  ∃ k, r.Inside p (2 * k + 2) ∧ r.mem (p + 2 * k) = 0 ∧ r.mem (p + 2 * k + 1) = 0

/-- What is done with the octets at `p` stays inside the reply. -/
def Stays : Visit → Prop
  | .read p n => r.Inside p n
  | .item p => r.Inside p (4 + r.dwordAt p)
  | .name p => r.NameInside p

end AttrReply

/-! ## The function's environment -/

/-- What `NDSRead` returns: at most 0 without a reply. -/
inductive ReadAnswer
  | failed (outlen : Int)
  | reply (c : Content)

/-- What the function meets: where its buffers are, and what its calls give, by their number. -/
structure Surroundings where
  buf : Nat
  buf1 : Nat
  buf_lt : buf + 2048 < 2 ^ 32
  buf1_lt : buf1 + 2048 < 2 ^ 32
  apart : buf + 2048 ≤ buf1 ∨ buf1 + 2048 ≤ buf
  ndsRead : Nat → ObjectName → UInt32 → ReadAnswer
  ndsResolveName : Nat → Except Int UInt32
  malloc : Nat → Bool

/-- `NDStatus` and the calls so far, with all that has been done with the octets of replies. -/
structure Session where
  ndStatus : Nat
  reads : Nat
  resolves : Nat
  mallocs : Nat
  visits : List (AttrReply × Visit)

/-- The exits of the function are those to `GetQErrExit`, with `rc`. -/
abbrev Parse := EStateM Int Session

def Session.seen (s : Session) (r : AttrReply) (v : Visit) : Session :=
  { s with visits := s.visits ++ [(r, v)] }

def visit (r : AttrReply) (v : Visit) : Parse PUnit :=
  modify fun s ↦ s.seen r v

def setNDStatus (status : Nat) : Parse PUnit :=
  modify fun s ↦ { s with ndStatus := status }

/-- A value and the pointer behind it. -/
structure Read where
  value : Nat
  p : Nat

/-- An entry count; -1 is no count. -/
structure Count where
  count : Int
  p : Nat

structure EntryItem where
  level : Nat
  name : Nat
  p : Nat

/-! ## `NDSRead*` -/

variable (r : AttrReply)

def ndsGetDwordLh (p : Nat) : Parse Read := do
  visit r (.read p 4)
  return ⟨r.dwordAt p, pointer (p + 4)⟩

def ndsReadGetAttrCount (p : Nat) : Parse Count := do
  let interaction ← ndsGetDwordLh r p
  let info ← ndsGetDwordLh r interaction.p
  if info.value ≠ 1 then
    return ⟨-1, info.p⟩
  else
    let names ← ndsGetDwordLh r info.p
    return ⟨toInt32 names.value, names.p⟩

def ndsReadEntryCount (syntaxID p : Nat) : Parse Count := do
  let syn ← ndsGetDwordLh r p
  if syn.value ≠ syntaxID then
    return ⟨-1, syn.p⟩
  else
    let skiplen ← ndsGetDwordLh r syn.p
    let entries ← ndsGetDwordLh r (pointer (skiplen.p + roundUp skiplen.value))
    return ⟨toInt32 entries.value, entries.p⟩

def ndsReadGetHostName (p : Nat) : Parse EntryItem := do
  let skiplen ← ndsGetDwordLh r p
  return ⟨0, skiplen.p, pointer (skiplen.p + roundUp skiplen.value)⟩

/-- The third number is the length of the address. -/
def ndsReadGetNetworkAddress (p : Nat) : Parse Nat := do
  let itemLength ← ndsGetDwordLh r p
  let type ← ndsGetDwordLh r itemLength.p
  let length ← ndsGetDwordLh r type.p
  if length.value ≠ 12 then throw ndsNcpPacketLength else return length.p

/-- `Level` is `NULL` for the queues. -/
def ndsReadGetEntryItem (p : Nat) : Parse EntryItem := do
  let skiplen ← ndsGetDwordLh r p
  let next := pointer (skiplen.p + roundUp skiplen.value)
  if r.objectName = .printer then
    visit r (.read skiplen.p 4)
    return ⟨r.dwordAt skiplen.p, pointer (skiplen.p + 12), next⟩
  else
    return ⟨0, pointer (skiplen.p + 12), next⟩

/-! ## The calls -/

def ndsNomem : Int := -301
def ndsInvalidResponse : Int := -330
def ndsNoSuchEntry : Int := -601
def ndsNoSuchObject : Int := -603
def ndsNoQueueAttach : Int := 0x8701

def ndsECanNotGetPrinterObject : Nat := 6
def ndsECanNotGetPrinterEntry : Nat := 8
def ndsECanNotGetQueueEntry : Nat := 9
def ndsECanNotGetFsEntry : Nat := 10
def ndsENoAnyQueueAttached : Nat := 11
def ndsETooManyPrinters : Nat := 12
def ndsETooManyQueue : Nat := 13
def ndsECanNotAttachBinderyQueue : Nat := 14

variable (w : Surroundings)

/-- An allocation, or the exit when there is no memory. -/
def alloc : Parse Nat := do
  let s ← get
  set { s with mallocs := s.mallocs + 1 }
  if w.malloc s.mallocs then return s.mallocs else throw ndsNomem

def ndsRead (objectName : ObjectName) (objectID : UInt32) : Parse ReadAnswer :=
  modifyGet fun s ↦ (w.ndsRead s.reads objectName objectID, { s with reads := s.reads + 1 })

/-- `NDSResolveName` for the name at `p`; `status` is for a name that the directory has not. -/
def ndsResolveName (p status : Nat) : Parse UInt32 := do
  visit r (.name p)
  let s ← get
  set { s with resolves := s.resolves + 1 }
  match w.ndsResolveName s.resolves with
  | .ok id => return id
  | .error rc =>
      setNDStatus (if rc = ndsNoSuchEntry then status else s.ndStatus)
      throw rc

theorem ndsResolveName_eq (p status : Nat) (s : Session) :
    ndsResolveName r w p status s = (match w.ndsResolveName s.resolves with
      | .ok id => (return id : Parse UInt32)
      | .error rc => do
          setNDStatus (if rc = ndsNoSuchEntry then status else s.ndStatus)
          throw rc) { s.seen r (.name p) with resolves := s.resolves + 1 } := rfl

/-! ## `NDSGetPrinterQueue` -/

open Novell (TmpQInfo TmpFSInfo addFileServer numOfPrnPort)

def maxNdsQueuePerPrn : Nat := 16

/-- The head of a reply: `beyond` is the test of the pointer behind each of the two counts, `narrow`
the type of the variable for the second. -/
def readHeader (syntaxID : Nat) (narrow : Int → Int) (beyond : Nat → Bool) : Parse Count := do
  let attrs ← ndsReadGetAttrCount r r.buf
  if attrs.count ≤ 0 ∨ beyond attrs.p then throw ndsNcpPacketLength
  else
    let entries ← ndsReadEntryCount r syntaxID attrs.p
    if narrow entries.count ≤ 0 ∨ beyond entries.p then throw ndsNcpPacketLength
    else return ⟨narrow entries.count, entries.p⟩

/-- The loop over the queues of a printer, with `n` to come. -/
def queueItems : Nat → Nat → Nat → List TmpQInfo → Parse (List TmpQInfo)
  | 0, _, _, queues => return queues
  | n + 1, j, p, queues => do
      let item ← ndsReadGetEntryItem r p
      -- the last item is not tested
      if n ≠ 0 ∧ item.p > r.bufend then throw ndsNcpPacketLength
      else
        visit r (.item p)
        let id ← ndsResolveName r w item.name ndsECanNotGetQueueEntry
        let name ← alloc w
        queueItems n (j + 1) item.p (queues.set j ⟨id, 0, UInt32.ofNat name⟩)

/-- The queues of the printer whose name is at `name`. -/
def readQueues (name : Nat) (queues : List TmpQInfo) : Parse (List TmpQInfo) := do
  let id ← ndsResolveName r w name ndsECanNotGetPrinterEntry
  match ← ndsRead w .queue id with
  | .failed outlen =>
      if outlen = ndsNoSuchObject then return queues
      else
        let s ← get
        setNDStatus (if outlen = toInt16 ndsBufferOverflow then ndsETooManyQueue else s.ndStatus)
        throw ndsInvalidResponse
  | .reply c =>
      let r1 : AttrReply := { c with objectName := .queue, buf := w.buf1, buf_lt := w.buf1_lt }
      let header ← readHeader r1 25 toInt16 (fun p ↦ p > r1.bufend)
      queueItems r1 w (min header.count.toNat maxNdsQueuePerPrn) 0 header.p queues

/-- The loop over the printers, with `n` to come. -/
def printerItems : Nat → Nat → List TmpQInfo → Parse (List TmpQInfo)
  | 0, _, queues => return queues
  | n + 1, p, queues => do
      let item ← ndsReadGetEntryItem r p
      if n ≠ 0 ∧ item.p > r.bufend then throw ndsNcpPacketLength
      else
        visit r (.item p)
        if item.level ≥ numOfPrnPort then printerItems n item.p queues
        else
          let queues ← readQueues r w item.name queues
          printerItems n item.p queues

/-- The host server of a queue; the test of the pointer is a comment. -/
def readHostServer (c : Content) : Parse UInt32 := do
  let r : AttrReply := { c with objectName := .hostServer, buf := w.buf, buf_lt := w.buf_lt }
  let header ← readHeader r 1 id (fun p ↦ p > r.bufend)
  let item ← ndsReadGetHostName r header.p
  visit r (.item header.p)
  ndsResolveName r w item.name ndsECanNotGetFsEntry

/-- What the function knows of the queues behind the loop over them. -/
structure Hosts where
  queues : List TmpQInfo
  fileServers : List TmpFSInfo

/-- The loop over the queues.  A queue without a host server is removed. -/
def hostServers : List TmpQInfo → Hosts → Parse Hosts
  | [], hosts => return hosts
  | q :: queues, hosts => do
      match ← ndsRead w .hostServer q.queueID with
      | .failed _ =>
          setNDStatus ndsECanNotAttachBinderyQueue
          hostServers queues hosts
      | .reply c =>
          let id ← readHostServer w c
          let added := addFileServer 0 id hosts.fileServers
          hostServers queues ⟨hosts.queues ++ [{ q with fsIndex := added.1 }], added.2.1⟩

/-- The address of a file server.  Behind the counts the buffer is tested instead of the pointer. -/
def readNetworkAddress (c : Content) : Parse (List UInt8) := do
  let r : AttrReply := { c with objectName := .networkAddress, buf := w.buf, buf_lt := w.buf_lt }
  let header ← readHeader r 12 id (fun _ ↦ r.buf > r.bufend)
  let p ← ndsReadGetNetworkAddress r header.p
  visit r (.item header.p)
  visit r (.read p 12)
  return (List.range 12).map fun k ↦ r.mem (pointer (p + k))

def networkAddresses : List TmpFSInfo → List (List UInt8) → Parse (List (List UInt8))
  | [], addresses => return addresses
  | server :: servers, addresses => do
      match ← ndsRead w .networkAddress server.fileServerID with
      | .failed _ => throw ndsInvalidResponse
      | .reply c =>
          let address ← readNetworkAddress w c
          networkAddresses servers (addresses ++ [address])

/-- From the network addresses on. -/
def readAddresses (hosts : Hosts) : Parse (Hosts × List (List UInt8)) := do
  if hosts.fileServers = [] then
    let s ← get
    setNDStatus (if s.ndStatus ≠ ndsECanNotAttachBinderyQueue then ndsENoAnyQueueAttached
      else s.ndStatus)
    throw ndsNoQueueAttach
  else
    let _ndsFSInfo ← alloc w
    let addresses ← networkAddresses w hosts.fileServers []
    return (hosts, addresses)

/-- From the host servers on. -/
def readServers (queues : List TmpQInfo) : Parse (Hosts × List (List UInt8)) := do
  let hosts ← hostServers w (queues.takeWhile fun q ↦ q.queueID ≠ 0) ⟨[], []⟩
  readAddresses w hosts

/-- The queues of the printers in the reply `c`. -/
def readPrinters (c : Content) : Parse (List TmpQInfo) := do
  let r : AttrReply := { c with objectName := .printer, buf := w.buf, buf_lt := w.buf_lt }
  let header ← readHeader r 25 toInt16 (fun p ↦ p > r.bufend)
  printerItems r w header.count.toNat header.p
    (List.replicate (maxNdsQueuePerPrn + 1) ⟨0, 0, 0⟩)

/-- `NDSGetPrinterQueue` up to the network addresses. -/
def ndsGetPrinterQueue (printServerID : UInt32) : Parse (Hosts × List (List UInt8)) := do
  let _buf ← alloc w
  let _buf1 ← alloc w
  let _fileServerInfo ← alloc w
  let _queueInfo ← alloc w
  match ← ndsRead w .printer printServerID with
  | .failed outlen =>
      setNDStatus (if outlen = toInt16 ndsBufferOverflow then ndsETooManyPrinters
        else ndsECanNotGetPrinterObject)
      throw ndsInvalidResponse
  | .reply c =>
      let queues ← readPrinters w c
      readServers w queues

end PrintServer.Nds
