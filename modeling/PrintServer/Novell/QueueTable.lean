import PrintServer.Novell.Tables

/-!
# The queues of the NDS mode

`NDSGetPrinterQueue` (ndsqueue.c) reads the host server of every queue that the directory gives for
a port, numbers the file servers as it meets them, links those without a connection into a ring and
builds the PCBs: one for each file server with a queue, in the active list when it is the server
that the directory was read from and in the free list otherwise.
-/

namespace PrintServer.Novell

open Lib

def maxNdsFS : Nat := 32

/-- `NSET32` -/
def nset32 (value : UInt32) : List UInt8 :=
  [value.toUInt8, (value >>> 8).toUInt8, (value >>> 16).toUInt8, (value >>> 24).toUInt8]

/-! ## The queues of a PCB -/

namespace PortPCB

/-- The queue IDs in use. -/
def queueIDs (x : PortPCB) : List (List UInt8) :=
  (List.range x.totalQueue.toNat).map x.pcbQueueInfo

/-- Removing the queue ID at `i`: those behind it move up. -/
def dropQueue (x : PortPCB) (i : Nat) : PortPCB :=
  let info := fun j ↦ if i ≤ j ∧ j + 1 < x.totalQueue.toNat then x.pcbQueueInfo (j + 1)
    else x.pcbQueueInfo j
  let totalQueue := x.totalQueue - 1
  { x with
    totalQueue
    pcbQueueInfo := if totalQueue = 0 then Function.update info 0 (nset32 0) else info }

/-- The loop of `NDSAttachQueueServer` and of `NDSGetRealQueueID`: each turn keeps the queue at `i`
with a new ID, or removes it.  The turns are as many as there are queues. -/
def keepQueues (reply : Nat → List UInt8 → Option (List UInt8)) : Nat → Nat → Nat → PortPCB → PortPCB
  | 0, _, _, x => x
  | turns + 1, n, i, x =>
      match reply n (x.pcbQueueInfo i) with
      | none => keepQueues reply turns (n + 1) i (x.dropQueue i)
      | some id =>
          let x := { x with pcbQueueInfo := Function.update x.pcbQueueInfo i id }
          keepQueues reply turns (n + 1) (i + 1) x

/-- `NDSAttachQueueServer`: `attached n` is the answer to its call of `AttachQueueServer` number
`n`. -/
def attachQueueServer (attached : Nat → Bool) (x : PortPCB) : PortPCB :=
  keepQueues (fun n id ↦ if attached n then some id else none) x.totalQueue.toNat 0 0 x

/-- `NDSGetRealQueueID`: `resolved n` is what `NDSResolveName` makes of the name number `n`. -/
def getRealQueueID (resolved : Nat → Option UInt32) (x : PortPCB) : PortPCB :=
  keepQueues (fun n _ ↦ (resolved n).map nset32) x.totalQueue.toNat 0 0 x

/-- A queue ID behind the last one. -/
def addQueue (x : PortPCB) (id : List UInt8) : PortPCB :=
  { x with
    pcbQueueInfo := Function.update x.pcbQueueInfo x.totalQueue.toNat id
    totalQueue := x.totalQueue + 1 }

end PortPCB

/-! ## File servers -/

/-- `struct TmpFSInfo` -/
structure TmpFSInfo where
  fileServerID : UInt32
  prePrnNO : UInt8

/-- `struct TmpQInfo`; the name is where it was allocated. -/
structure TmpQInfo where
  queueID : UInt32
  fsIndex : UInt8
  queueName : UInt32

/-- What the directory answers about the host server of a queue: no such attribute, anything else
that ends the function, or the file server's ID. -/
inductive HostReply
  | noHost
  | failed
  | server (fileServerID : UInt32)

/-- A file server of a queue of port `i`: its index, the list, and whether the port needs one PCB
more. -/
def addFileServer (i : Nat) (id : UInt32) (fs : List TmpFSInfo) : UInt8 × List TmpFSInfo × Bool :=
  let k := fs.findIdx (·.fileServerID == id)
  if k < maxNdsFS then
    match fs[k]? with
    | none => (UInt8.ofNat k, fs ++ [⟨id, UInt8.ofNat i⟩], true)
    | some old =>
        (UInt8.ofNat k, fs.set k ⟨id, UInt8.ofNat i⟩, decide (old.prePrnNO ≠ UInt8.ofNat i))
  else (nullByte, fs, false)

/-- The loop over the queues of port `i`: the queues with a host server, the file servers and
`PCBCount`. -/
def readHosts (i : Nat) : List (TmpQInfo × HostReply) → List TmpFSInfo → Nat →
    Option (List TmpQInfo × List TmpFSInfo × Nat)
  | [], fs, pcbCount => some ([], fs, pcbCount)
  | (_, .noHost) :: queues, fs, pcbCount => readHosts i queues fs pcbCount
  | (_, .failed) :: _, _, _ => none
  | (q, .server id) :: queues, fs, pcbCount =>
      let (k, fs, more) := addFileServer i id fs
      (readHosts i queues fs (if more then pcbCount + 1 else pcbCount)).map fun r ↦
        ({ q with fsIndex := k } :: r.1, r.2)

/-- The loop over the network addresses: the file servers without a connection are a ring, and the
one with the address of the attached server is `ActiveFSIndex`. -/
def readAddresses (attached : List UInt8) (address : UInt32 → Option (List UInt8)) :
    List TmpFSInfo → Nat → Tables → UInt8 → Option (Tables × UInt8)
  | [], _, t, activeFSIndex => some (t, activeFSIndex)
  | server :: fs, i, t, activeFSIndex =>
      match address server.fileServerID with
      | none => none
      | some p =>
          if p = attached then readAddresses attached address fs (i + 1) t (UInt8.ofNat i)
          else readAddresses attached address fs (i + 1) (t.addNoActive i) activeFSIndex

/-! ## The PCB lists -/

namespace Tables

/-- `*pPCBIndex`: the head of the active or of the free list. -/
def pcbIndex (t : Tables) (i : Nat) (isActive : Bool) : UInt8 :=
  if isActive then t.actPort i else t.freePort i

def setPcbIndex (t : Tables) (i : Nat) (isActive : Bool) (b : UInt8) : Tables :=
  if isActive then t.setActPort i b else t.setFreePort i b

/-- The search for the PCB of a file server, which moves the head itself. -/
def seekPCB (t : Tables) (i k : Nat) : Nat → UInt8 → UInt8
  | 0, b => b
  | fuel + 1, b =>
      if b = nullByte then b
      else if (t.pcb i b.toNat).pFSInfo = some k then b
      else t.seekPCB i k fuel (t.link i b)

/-- A PCB for the first queue of a file server, in front of its list. -/
def newPCB (t : Tables) (i k : Nat) (isActive : Bool) (c : UInt8) : Tables :=
  let t := t.setNext i c (t.pcbIndex i isActive)
  let t := t.setPcbIndex i isActive c
  t.setPCB i c { t.pcb i c.toNat with
    pFSInfo := some k, processRoutine := some .serviceNetWareQueue }

end Tables

/-- The tables while the PCBs of a port are built, `PCBCount` and, for each file server, how many
queues it has had (`PrePrnNO`). -/
structure Building where
  tables : Tables
  pcbCount : Nat
  prePrnNO : UInt8 → UInt8

/-- The turn of the loop for the queue `q` of port `i`. -/
def Building.insertQueue (s : Building) (i : Nat) (activeFSIndex : UInt8) (q : TmpQInfo) : Building :=
  if q.fsIndex = nullByte then s
  else
    let isActive := decide (q.fsIndex = activeFSIndex)
    let k := q.fsIndex.toNat
    let prePrnNO := Function.update s.prePrnNO q.fsIndex (s.prePrnNO q.fsIndex + 1)
    let s :=
      if s.prePrnNO q.fsIndex ≠ 0 then
        let b := s.tables.seekPCB i k 256 (s.tables.pcbIndex i isActive)
        { s with tables := s.tables.setPcbIndex i isActive b, prePrnNO }
      else
        let pcbCount := s.pcbCount - 1
        { tables := s.tables.newPCB i k isActive (UInt8.ofNat pcbCount), pcbCount, prePrnNO }
    let b := s.tables.pcbIndex i isActive
    let id := nset32 (if isActive then q.queueID else q.queueName)
    { s with tables := s.tables.setPCB i b ((s.tables.pcb i b.toNat).addQueue id) }

/-- The PCBs of port `i`. -/
def buildPCBs (i : Nat) (activeFSIndex : UInt8) (queues : List TmpQInfo) (pcbCount : Nat)
    (t : Tables) : Tables :=
  if pcbCount = 0 then t
  else
    let s : Building := ⟨t, pcbCount, fun _ ↦ 0⟩
    let t := (queues.foldl (fun s q ↦ s.insertQueue i activeFSIndex q) s).tables
    t.setCurPort i (t.actPort i)

/-! ## `NDSGetPrinterQueue` -/

/-- What the directory gives: the queues of each port with their host servers, the network address
of the attached server and those of all, and whether it attaches each queue. -/
structure Directory where
  queues : Nat → List (TmpQInfo × HostReply)
  attachedAddress : List UInt8
  address : UInt32 → Option (List UInt8)
  attachQueue : Nat → Nat → Bool

/-- What `NDSGetPrinterQueue` leaves behind when it returns `OKAY`. -/
structure NdsTables where
  tables : Tables
  queues : Nat → List TmpQInfo
  fileServers : List TmpFSInfo
  pcbCount : Nat → Nat
  activeFSIndex : UInt8

def readAllHosts (d : Directory) : List Nat → NdsTables → Option NdsTables
  | [], r => some r
  | i :: ports, r =>
      match readHosts i (d.queues i) r.fileServers 0 with
      | none => none
      | some (queues, fs, pcbCount) =>
          readAllHosts d ports { r with
            queues := Function.update r.queues i queues
            fileServers := fs
            pcbCount := Function.update r.pcbCount i pcbCount }

/-- The heads from `NovellPrintServerInit`, and nothing allocated yet. -/
def ndsInit : Tables where
  pcb _ _ := clearedPCB
  freePort _ := nullByte
  actPort _ := nullByte
  curPort _ := nullByte
  nextFSInfo _ := 0
  noActiveFSInfo := nullByte

/-- `NDSGetPrinterQueue` from the host servers on: `none` is a return that is not `OKAY`. -/
def ndsGetPrinterQueue (d : Directory) : Option NdsTables := do
  let r ← readAllHosts d (List.range numOfPrnPort) ⟨ndsInit, fun _ ↦ [], [], fun _ ↦ 0, nullByte⟩
  if r.fileServers = [] then none
  let (t, activeFSIndex) ←
    readAddresses d.attachedAddress d.address r.fileServers 0 r.tables nullByte
  let t := (List.range numOfPrnPort).foldl
    (fun t i ↦ buildPCBs i activeFSIndex (r.queues i) (r.pcbCount i) t) t
  if activeFSIndex = nullByte then
    some { r with tables := t, activeFSIndex }
  else
    let t := { t with nextFSInfo := Function.update t.nextFSInfo activeFSIndex.toNat nullByte }
    let t := (List.range numOfPrnPort).foldl (fun t i ↦
      let b := t.actPort i
      if b = nullByte then t
      else t.setPCB i b ((t.pcb i b.toNat).attachQueueServer (d.attachQueue i))) t
    some { r with tables := t, activeFSIndex }

end PrintServer.Novell
