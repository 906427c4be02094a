import PrintServer.Lib.Machine
import PrintServer.Novell.Tables

/-!
# The connections of the Bindery mode

`ConnectNetware` tries every file server once, `TryConnectNoAttachFS` tries those without a
connection again, one by one round their ring, and `MoveAttachPortToFreePort` gives the PCBs of a
server that timed out back.  A server that is attached takes a PCB of each port for which it has a
queue (nps3.c).
-/

namespace PrintServer.Novell

open Lib

/-! ## Reading the queues of a print server -/

/-- What one turn of the loop over a QUEUE file meets: `ReadFileData`, then `GetBinderyObjectID`,
then `AttachQueueServer`. -/
inductive QueueReply
  | readFailed
  | readEnd
  | noSuchObject
  | objectFailed
  | noSuchQueue
  | attachFailed
  | attached (queueObjectID : List UInt8)

inductive OpenReply
  | failure
  | okay
  | other
deriving DecidableEq

/-- The answers of the file server about the queues of one port. -/
structure PortReply where
  openFile : OpenReply
  queue : Nat → QueueReply
  closed : Bool

/-- The turns of the loop over the QUEUE file: the PCB and whether the function goes on. -/
def readQueues (reply : Nat → QueueReply) : Nat → Nat → PortPCB → PortPCB × Bool
  | 0, _, x => (x, true)
  | turns + 1, totalQueue, x =>
      match reply totalQueue with
      | .readFailed | .objectFailed | .attachFailed => (x, false)
      | .readEnd => (x, true)
      | .noSuchObject | .noSuchQueue => readQueues reply turns (totalQueue + 1) x
      | .attached queueObjectID =>
          let info := Function.update x.pcbQueueInfo x.totalQueue.toNat queueObjectID
          let x := { x with pcbQueueInfo := info, totalQueue := x.totalQueue + 1 }
          readQueues reply turns (totalQueue + 1) x

namespace Tables

variable (t : Tables) (fs : Nat)

/-- The free PCB at the head goes to the active list. -/
def activate (xPort : Nat) : Tables :=
  let c := t.freePort xPort
  let x := t.pcb xPort c.toNat
  let t := t.setPCB xPort c
    { x with pFSInfo := some fs, processRoutine := some .serviceNetWareQueue }
  let t := t.setFreePort xPort (t.link xPort c)
  let t := (t.setNext xPort c (t.actPort xPort)).setActPort xPort c
  if t.curPort xPort = nullByte then t.setCurPort xPort c else t

/-- The free PCB at the head with the queues that are read into it. -/
def readPort (xPort : Nat) (r : PortReply) : PortPCB × Bool :=
  let x := t.pcb xPort (t.freePort xPort).toNat
  readQueues r.queue maxQueue 0 { x with totalQueue := 0, qCount := 0 }

/-- The turn of the loop of `GetPSQueueID` for one port: whether a queue was attached, and `none`
for a return with `FAILURE`. -/
def attachPort (xPort : Nat) (r : PortReply) : Tables × Option Bool :=
  if t.freePort xPort = nullByte then (t, some false)
  else
    match r.openFile with
    | .failure => (t, some false)
    | .other => (t, none)
    | .okay =>
        let (x, goesOn) := t.readPort xPort r
        let t := t.setPCB xPort (t.freePort xPort) x
        if goesOn ∧ r.closed then
          if x.totalQueue = 0 then (t, some false) else (t.activate fs xPort, some true)
        else (t, none)

/-- The loop of `GetPSQueueID` over the ports, with `AttachQueueOK`. -/
def getPSQueueIDFrom (reply : Nat → PortReply) : List Nat → Nat → Tables → Tables × Bool
  | [], attachQueueOK, t => (t, attachQueueOK ≠ 0)
  | xPort :: ports, attachQueueOK, t =>
      match t.attachPort fs xPort (reply xPort) with
      | (t, none) => (t, false)
      | (t, some attached) =>
          getPSQueueIDFrom reply ports (if attached then attachQueueOK + 1 else attachQueueOK) t

def getPSQueueID (reply : Nat → PortReply) : Tables × Bool :=
  getPSQueueIDFrom fs reply (List.range numOfPrnPort) 0 t

/-- `AttachToFileServer`, with whether it returns `OKAY`: `none` is a failure on the way to
`GetPSQueueID`. -/
def attachToFileServer : Option (Nat → PortReply) → Tables × Bool
  | none => (t, false)
  | some reply => t.getPSQueueID fs reply

/-- `TryConnectNoAttachFS` -/
def tryConnectNoAttachFS (reply : Option (Nat → PortReply)) : Option Tables :=
  if t.noActiveFSInfo = nullByte then some t
  else
    let fs := t.noActiveFSInfo.toNat
    let (t, okay) := t.attachToFileServer fs reply
    let t := if okay then t.removeNoActive fs else some t
    t.map (·.shiftNoActive fs)

/-- `MoveAttachPortToFreePort`: `none` is a current PCB without a file server. -/
def moveAttachPortToFreePort (curServicePort : Nat) : Option Tables :=
  let cur := t.pcb curServicePort (t.curPort curServicePort).toNat
  cur.pFSInfo.map fun pTimeOutFSInfo ↦ (t.moveToFreePort pTimeOutFSInfo).1

end Tables

/-! ## Runs -/

/-- What `BinderyPrintServerInit` links, with the heads from `NovellPrintServerInit` and the ring
from the first line of `ConnectNetware`. -/
def binderyPrintServerInit (serviceFSCount : Nat) : Tables where
  pcb _ j := { clearedPCB with
    nextPortPCB := if j + 1 < serviceFSCount then UInt8.ofNat (j + 1) else nullByte }
  freePort _ := 0
  actPort _ := nullByte
  curPort _ := nullByte
  nextFSInfo _ := 0
  noActiveFSInfo := nullByte

/-- The tables and how many file servers `ConnectNetware` has tried. -/
structure Bindery where
  tables : Tables
  tried : Nat

inductive BinderyEvent
  | connectNetware (reply : Option (Nat → PortReply))
  | tryConnect (reply : Option (Nat → PortReply))
  | timeOut (nPort : Nat)
  | nextQueue (nPort : Nat)

/-- A completed step; an event that cannot take place leaves everything as it is. -/
def binderyStep (serviceFSCount : Nat) (s : Bindery) : BinderyEvent → Option Bindery
  | .connectNetware reply =>
      if s.tried < serviceFSCount then
        let (t, okay) := s.tables.attachToFileServer s.tried reply
        some ⟨if okay then t else t.addNoActive s.tried, s.tried + 1⟩
      else some s
  | .tryConnect reply => (s.tables.tryConnectNoAttachFS reply).map (⟨·, s.tried⟩)
  | .timeOut nPort =>
      if nPort < numOfPrnPort ∧ s.tables.curPort nPort ≠ nullByte then
        (s.tables.moveAttachPortToFreePort nPort).map (⟨·, s.tried⟩)
      else some s
  | .nextQueue nPort =>
      if nPort < numOfPrnPort ∧ s.tables.curPort nPort ≠ nullByte then
        some ⟨s.tables.nextQueue nPort, s.tried⟩
      else some s

def bindery (serviceFSCount : Nat) : Machine Bindery BinderyEvent where
  init := ⟨binderyPrintServerInit serviceFSCount, 0⟩
  step := binderyStep serviceFSCount

/-! ## A server takes a PCB -/

variable {t : Tables} {nPort count fs : Nat} {b c : UInt8} {xs ys ring : List UInt8}

@[simp] theorem readQueues_nextPortPCB (reply : Nat → QueueReply) (turns i : Nat) (x : PortPCB) :
    (readQueues reply turns i x).1.nextPortPCB = x.nextPortPCB := by
  induction turns generalizing i x with
  | zero => rfl
  | succ turns ih =>
      rw [readQueues]
      cases reply i with
      | attached queueObjectID => exact ih _ _
      | noSuchObject => exact ih _ _
      | noSuchQueue => exact ih _ _
      | _ => rfl

@[simp] theorem readQueues_pFSInfo (reply : Nat → QueueReply) (turns i : Nat) (x : PortPCB) :
    (readQueues reply turns i x).1.pFSInfo = x.pFSInfo := by
  induction turns generalizing i x with
  | zero => rfl
  | succ turns ih =>
      rw [readQueues]
      cases reply i with
      | attached queueObjectID => exact ih _ _
      | noSuchObject => exact ih _ _
      | noSuchQueue => exact ih _ _
      | _ => rfl

/-- The first free PCB becomes the first active one. -/
theorem PortLists.activate (h : PortLists t nPort count (c :: xs) ys) (fs : Nat) :
    PortLists (t.activate fs nPort) nPort count xs (c :: ys) ∧
      servers (t.activate fs nPort) nPort (c :: ys) = some fs :: servers t nPort ys := by
  have hc : t.freePort nPort = c := h.free.1
  have hnil : c ≠ nullByte := h.free.2.1
  have hnotin : c ∉ xs ∧ c ∉ ys := by
    have hnd : c ∉ xs ++ ys := (List.nodup_cons.mp h.nodup).1
    rwa [List.mem_append, not_or] at hnd
  -- the PCB names the server, and is taken off the free list
  let x := { t.pcb nPort c.toNat with
    pFSInfo := some fs, processRoutine := some ProcessRoutine.serviceNetWareQueue }
  let t₁ := t.setPCB nPort c x
  have h₁ : PortLists t₁ nPort count (c :: xs) ys := h.setPCB rfl
  let t₂ := t₁.setFreePort nPort (t₁.link nPort c)
  have hfree : Linked (t₂.link nPort) nullByte (t₂.freePort nPort) xs := by
    rw [Tables.freePort_setFreePort]
    exact h₁.free.tail
  have hact : Linked (t₂.link nPort) nullByte (t₂.actPort nPort) ys := h₁.act
  let t₃ := (t₂.setNext nPort c (t₂.actPort nPort)).setActPort nPort c
  have hfree₃ : Linked (t₃.link nPort) nullByte (t₃.freePort nPort) xs :=
    PortLists.setNext_keeps hfree hnotin.1
  have hact₃ : Linked (t₃.link nPort) nullByte (t₃.actPort nPort) (c :: ys) := by
    rw [Tables.actPort_setActPort]
    exact PortLists.setNext_pushes hact hnil hnotin.2
  have hall : ((xs ++ c :: ys).map UInt8.toNat).Perm (List.range count) :=
    (List.perm_middle.map UInt8.toNat).trans h.all
  have hservers : ∀ b : UInt8, (t₃.pcb nPort b.toNat).pFSInfo = (t₁.pcb nPort b.toNat).pFSInfo :=
    fun b ↦ Tables.pFSInfo_setNext
  have hcs : servers t₃ nPort (c :: ys) = some fs :: servers t nPort ys := by
    rw [servers, List.map_cons, hservers, Tables.pcb_setPCB_self]
    refine congrArg (some fs :: ·) (List.map_congr_left fun b hb ↦ ?_)
    rw [hservers, Tables.pcb_setPCB_of_ne]
    rintro rfl
    exact hnotin.2 hb
  have hactivate : t.activate fs nPort =
      if t.curPort nPort = nullByte then t₃.setCurPort nPort c else t₃ := by
    rw [Tables.activate, hc]
    rfl
  rw [hactivate]
  by_cases hcur : t.curPort nPort = nullByte
  · rw [if_pos hcur]
    refine ⟨⟨hfree₃, hact₃, hall, Or.inr ?_⟩, hcs⟩
    rw [Tables.curPort_setCurPort]
    exact List.mem_cons_self
  · rw [if_neg hcur]
    refine ⟨⟨hfree₃, hact₃, hall, Or.inr ?_⟩, hcs⟩
    rcases h.curPort with ⟨-, hnone⟩ | hmem
    · exact absurd hnone hcur
    · exact List.mem_cons_of_mem c hmem

theorem activate_ring : (t.activate fs nPort).nextFSInfo = t.nextFSInfo ∧
    (t.activate fs nPort).noActiveFSInfo = t.noActiveFSInfo := by
  simp only [Tables.activate]
  split <;> exact ⟨rfl, rfl⟩

theorem attachPort_ring (t : Tables) (fs nPort : Nat) (r : PortReply) :
    (t.attachPort fs nPort r).1.nextFSInfo = t.nextFSInfo ∧
      (t.attachPort fs nPort r).1.noActiveFSInfo = t.noActiveFSInfo := by
  rw [Tables.attachPort]
  generalize t.readPort nPort r = q
  split
  · exact ⟨rfl, rfl⟩
  split
  · exact ⟨rfl, rfl⟩
  · exact ⟨rfl, rfl⟩
  · obtain ⟨x, goesOn⟩ := q
    dsimp only
    split
    · split
      · exact ⟨rfl, rfl⟩
      · exact activate_ring
    · exact ⟨rfl, rfl⟩

theorem getPSQueueIDFrom_ring (reply : Nat → PortReply) (ports : List Nat) (n : Nat) :
    (t.getPSQueueIDFrom fs reply ports n).1.nextFSInfo = t.nextFSInfo ∧
      (t.getPSQueueIDFrom fs reply ports n).1.noActiveFSInfo = t.noActiveFSInfo := by
  induction ports generalizing t n with
  | nil => exact ⟨rfl, rfl⟩
  | cons xPort ports ih =>
      have hport := attachPort_ring t fs xPort (reply xPort)
      rw [Tables.getPSQueueIDFrom]
      generalize t.attachPort fs xPort (reply xPort) = r at hport
      obtain ⟨t', _ | attached⟩ := r
      · exact hport
      · exact ⟨(ih _).1.trans hport.1, (ih _).2.trans hport.2⟩

theorem attachToFileServer_ring (t : Tables) (fs : Nat) (reply : Option (Nat → PortReply)) :
    (t.attachToFileServer fs reply).1.nextFSInfo = t.nextFSInfo ∧
      (t.attachToFileServer fs reply).1.noActiveFSInfo = t.noActiveFSInfo := by
  cases reply with
  | none => exact ⟨rfl, rfl⟩
  | some reply => exact getPSQueueIDFrom_ring reply _ 0

/-- The turn for a port gives the server a PCB exactly when a queue was attached. -/
theorem PortLists.attachPort (h : PortLists t nPort count xs ys) (fs : Nat) (r : PortReply) :
    ∃ xs' ys', PortLists (t.attachPort fs nPort r).1 nPort count xs' ys' ∧
      servers (t.attachPort fs nPort r).1 nPort ys' =
        if (t.attachPort fs nPort r).2 = some true then some fs :: servers t nPort ys
        else servers t nPort ys := by
  rw [Tables.attachPort]
  split
  · exact ⟨xs, ys, h, rfl⟩
  rename_i hfree
  split
  · exact ⟨xs, ys, h, rfl⟩
  · exact ⟨xs, ys, h, rfl⟩
  · have hlink : (t.readPort nPort r).1.nextPortPCB = t.link nPort (t.freePort nPort) :=
      readQueues_nextPortPCB ..
    have hserver : (t.readPort nPort r).1.pFSInfo =
        (t.pcb nPort (t.freePort nPort).toNat).pFSInfo := readQueues_pFSInfo ..
    generalize t.readPort nPort r = q at hlink hserver
    obtain ⟨x, goesOn⟩ := q
    have hx : PortLists (t.setPCB nPort (t.freePort nPort) x) nPort count xs ys := h.setPCB hlink
    have hsame : servers (t.setPCB nPort (t.freePort nPort) x) nPort ys = servers t nPort ys :=
      (SameServers.setPCB hserver).servers_eq ys
    dsimp only
    split
    · split
      · exact ⟨xs, ys, hx, hsame⟩
      · obtain ⟨c, xs', rfl⟩ : ∃ c xs', xs = c :: xs' := by
          cases xs with
          | nil => exact absurd h.free hfree
          | cons c xs' => exact ⟨c, xs', rfl⟩
        obtain ⟨hlists, hservers⟩ := hx.activate fs
        exact ⟨xs', c :: ys, hlists, hservers.trans (congrArg _ hsame)⟩
    · exact ⟨xs, ys, hx, hsame⟩

/-- An attempt to attach a server gives it a PCB exactly when it succeeds: there is one port. -/
theorem PortLists.attach (h : PortLists t 0 count xs ys) (fs : Nat)
    (reply : Option (Nat → PortReply)) :
    ∃ xs' ys', PortLists (t.attachToFileServer fs reply).1 0 count xs' ys' ∧
      servers (t.attachToFileServer fs reply).1 0 ys' =
        if (t.attachToFileServer fs reply).2 then some fs :: servers t 0 ys
        else servers t 0 ys := by
  cases reply with
  | none => exact ⟨xs, ys, h, rfl⟩
  | some reply =>
      obtain ⟨xs', ys', hlists, hservers⟩ := h.attachPort fs (reply 0)
      have heq : t.attachToFileServer fs (some reply) =
          match t.attachPort fs 0 (reply 0) with
          | (t', none) => (t', false)
          | (t', some attached) => (t', decide ((if attached then 0 + 1 else 0) ≠ 0)) := rfl
      rw [heq]
      generalize t.attachPort fs 0 (reply 0) = r at hlists hservers
      refine ⟨xs', ys', ?_⟩
      obtain ⟨t', _ | _ | _⟩ := r <;> exact ⟨hlists, hservers⟩

/-- A server that timed out gives its PCB back and is in the ring. -/
theorem PortLists.moveToFreePort (h : PortLists t 0 count xs ys) (hring : NoActive t ring)
    (hfs : fs < 255) (hact : some fs ∈ servers t 0 ys) (hnew : UInt8.ofNat fs ∉ ring) :
    ∃ xs' ys' ring', PortLists (t.moveToFreePort fs).1 0 count xs' ys' ∧
      NoActive (t.moveToFreePort fs).1 ring' ∧ ring'.Perm (UInt8.ofNat fs :: ring) ∧
      (some fs :: servers (t.moveToFreePort fs).1 0 ys').Perm (servers t 0 ys) := by
  obtain ⟨c₀, hc₀, hfs₀⟩ := List.mem_map.mp hact
  obtain ⟨c, hfind⟩ : ∃ c, ys.find? (fun b ↦ (t.pcb 0 b.toNat).pFSInfo = some fs) = some c := by
    rw [← Option.isSome_iff_exists, List.find?_isSome]
    exact ⟨c₀, hc₀, decide_eq_true hfs₀⟩
  obtain ⟨hc, l₁, l₂, rfl, hl⟩ := List.find?_eq_some_iff_append.mp hfind
  have hl' : ∀ b ∈ l₁, (t.pcb 0 b.toNat).pFSInfo ≠ some fs := fun b hb ↦ by
    simpa using hl b hb
  obtain ⟨t', cur, hmove, hlists, hsame⟩ := h.movePort (of_decide_eq_true hc) hl'
  obtain ⟨ring', hring', hperm⟩ := (hring.congr hsame.nextFSInfo hsame.noActiveFSInfo).add hfs hnew
  have heq : (t.moveToFreePort fs).1 = t'.addNoActive fs := by
    have hports : List.range numOfPrnPort = [0] := rfl
    rw [Tables.moveToFreePort, hports, Tables.movePorts, hmove]
    rfl
  rw [heq]
  refine ⟨c :: xs, l₁ ++ l₂, ring', samePorts_addNoActive.portLists hlists, hring', hperm, ?_⟩
  change (some fs :: servers t' 0 (l₁ ++ l₂)).Perm _
  rw [hsame.servers_eq, ← of_decide_eq_true hc]
  exact ((@List.perm_middle _ c l₁ l₂).map fun b ↦ (t.pcb 0 b.toNat).pFSInfo).symm

/-! ## What a run keeps -/

/-- The lists of the port, the ring, and each server that was tried in the ring or active. -/
structure BinderyInv (count : Nat) (s : Bindery) (xs ys ring : List UInt8) : Prop where
  lists : PortLists s.tables 0 count xs ys
  noActive : NoActive s.tables ring
  tried : s.tried ≤ count
  once : (ring.map (some ∘ UInt8.toNat) ++ servers s.tables 0 ys).Perm
    ((List.range s.tried).map some)

namespace BinderyInv

variable {s : Bindery}

theorem lt_tried_of_mem (h : BinderyInv count s xs ys ring) (hb : b ∈ ring) :
    b.toNat < s.tried := by
  have hmem : some b.toNat ∈ (List.range s.tried).map some := by
    rw [← h.once.mem_iff]
    exact List.mem_append_left _ (List.mem_map.mpr ⟨b, hb, rfl⟩)
  simpa using hmem

theorem lt_tried_of_active (h : BinderyInv count s xs ys ring)
    (hfs : some fs ∈ servers s.tables 0 ys) : fs < s.tried := by
  have hmem : some fs ∈ (List.range s.tried).map some := by
    rw [← h.once.mem_iff]
    exact List.mem_append_right _ hfs
  simpa using hmem

theorem nodup (h : BinderyInv count s xs ys ring) :
    (ring.map (some ∘ UInt8.toNat) ++ servers s.tables 0 ys).Nodup :=
  h.once.nodup_iff.mpr (List.nodup_range.map fun _ _ h ↦ Option.some.inj h)

/-- An active server is not in the ring. -/
theorem notMem_of_active (h : BinderyInv count s xs ys ring)
    (hfs : some fs ∈ servers s.tables 0 ys) (hlt : fs < 255) : UInt8.ofNat fs ∉ ring := by
  intro hmem
  have hne := (List.nodup_append.mp h.nodup).2.2 (some fs)
    (List.mem_map.mpr ⟨_, hmem, congrArg some (toNat_ofNat_of_lt hlt)⟩) (some fs) hfs
  exact hne rfl

/-- `ConnectNetware` tries the next server. -/
theorem connectNetware (h : BinderyInv count s xs ys ring) (hcount : count ≤ 255)
    (hlt : s.tried < count) (reply : Option (Nat → PortReply)) :
    ∃ s' xs' ys' ring', binderyStep count s (.connectNetware reply) = some s' ∧
      BinderyInv count s' xs' ys' ring' := by
  have hto : (UInt8.ofNat s.tried).toNat = s.tried := toNat_ofNat_of_lt (by omega)
  have hnew : UInt8.ofNat s.tried ∉ ring := by
    intro hmem
    have := h.lt_tried_of_mem hmem
    omega
  obtain ⟨xs', ys', hlists, hservers⟩ := h.lists.attach s.tried reply
  have hkeep := attachToFileServer_ring s.tables s.tried reply
  have hring := h.noActive.congr hkeep.1 hkeep.2
  have hrange : ((List.range (s.tried + 1)).map some).Perm
      (some s.tried :: (List.range s.tried).map some) := by
    rw [List.range_succ, List.map_append]
    exact List.perm_append_singleton _ _
  simp only [binderyStep, if_pos hlt]
  generalize s.tables.attachToFileServer s.tried reply = r at hlists hservers hring
  obtain ⟨t, _ | _⟩ := r
  · -- no connection: behind the first one of the ring
    obtain ⟨ring', hring', hperm⟩ := hring.add (by omega) hnew
    refine ⟨_, xs', ys', ring', rfl, samePorts_addNoActive.portLists hlists, hring', hlt, ?_⟩
    have hring₁ : (ring'.map (some ∘ UInt8.toNat)).Perm
        (some s.tried :: ring.map (some ∘ UInt8.toNat)) := by
      have hmap := hperm.map (some ∘ UInt8.toNat)
      rwa [List.map_cons, Function.comp_apply, hto] at hmap
    have hsame : servers (t.addNoActive s.tried) 0 ys' = servers s.tables 0 ys := hservers
    simp only [Bool.false_eq_true, if_false]
    rw [hsame]
    exact (hring₁.append_right _).trans ((h.once.cons _).trans hrange.symm)
  · refine ⟨_, xs', ys', ring, rfl, hlists, hring, hlt, ?_⟩
    have hsame : servers t 0 ys' = some s.tried :: servers s.tables 0 ys := hservers
    simp only [if_true]
    rw [hsame]
    exact List.perm_middle.trans ((h.once.cons _).trans hrange.symm)

/-- `TryConnectNoAttachFS` tries the first server of the ring again. -/
theorem tryConnect (h : BinderyInv count s xs ys ring) (reply : Option (Nat → PortReply)) :
    ∃ s' xs' ys' ring', binderyStep count s (.tryConnect reply) = some s' ∧
      BinderyInv count s' xs' ys' ring' := by
  cases ring with
  | nil =>
      have hnil : s.tables.noActiveFSInfo = nullByte := h.noActive
      refine ⟨s, xs, ys, [], ?_, h⟩
      rw [binderyStep, Tables.tryConnectNoAttachFS, if_pos hnil]
      rfl
  | cons b ring =>
      have hb : s.tables.noActiveFSInfo = b := h.noActive.1
      have hnil : b ≠ nullByte := fun hn ↦ h.noActive.2.1 (by simp [← hn])
      obtain ⟨xs', ys', hlists, hservers⟩ := h.lists.attach b.toNat reply
      have hkeep := attachToFileServer_ring s.tables b.toNat reply
      have hring := h.noActive.congr hkeep.1 hkeep.2
      simp only [binderyStep, Tables.tryConnectNoAttachFS, hb, if_neg hnil]
      generalize s.tables.attachToFileServer b.toNat reply = r at hlists hservers hring
      obtain ⟨t, _ | _⟩ := r
      · -- still no connection
        refine ⟨_, xs', ys', ring ++ [b], rfl, samePorts_shiftNoActive.portLists hlists,
          hring.shift, h.tried, ?_⟩
        have hsame : servers (t.shiftNoActive b.toNat) 0 ys' = servers s.tables 0 ys :=
          (samePorts_shiftNoActive.servers_eq ys').trans hservers
        show (_ ++ servers (t.shiftNoActive b.toNat) 0 ys').Perm _
        rw [hsame]
        have hperm : (ring ++ [b]).Perm (b :: ring) := List.perm_append_singleton b ring
        exact ((hperm.map _).append_right _).trans h.once
      · obtain ⟨t', hremove, hports, hring'⟩ := hring.remove
        refine ⟨⟨t'.shiftNoActive b.toNat, s.tried⟩, xs', ys', ring, ?_, ?_, hring', h.tried, ?_⟩
        · simp only [if_true, hremove, Option.map_some]
        · exact samePorts_shiftNoActive.portLists (hports.portLists hlists)
        · have hsame : servers (t'.shiftNoActive b.toNat) 0 ys' =
              some b.toNat :: servers s.tables 0 ys :=
            (samePorts_shiftNoActive.servers_eq ys').trans ((hports.servers_eq ys').trans hservers)
          rw [hsame]
          exact List.perm_middle.trans h.once

/-- `MoveAttachPortToFreePort` for the server of the current PCB. -/
theorem timeOut (h : BinderyInv count s xs ys ring) (hcount : count ≤ 255) (nPort : Nat) :
    ∃ s' xs' ys' ring', binderyStep count s (.timeOut nPort) = some s' ∧
      BinderyInv count s' xs' ys' ring' := by
  by_cases hon : nPort < numOfPrnPort ∧ s.tables.curPort nPort ≠ nullByte
  swap
  · exact ⟨s, xs, ys, ring, if_neg hon, h⟩
  obtain rfl : nPort = 0 := Nat.lt_one_iff.mp hon.1
  have hcur : s.tables.curPort 0 ∈ ys := h.lists.curPort.resolve_left fun hn ↦ hon.2 hn.2
  have hmem : (s.tables.pcb 0 (s.tables.curPort 0).toNat).pFSInfo ∈ servers s.tables 0 ys :=
    List.mem_map.mpr ⟨_, hcur, rfl⟩
  obtain ⟨fs, hfs⟩ : ∃ fs, (s.tables.pcb 0 (s.tables.curPort 0).toNat).pFSInfo = some fs := by
    have hin := h.once.mem_iff.mp (List.mem_append_right (ring.map (some ∘ UInt8.toNat)) hmem)
    obtain ⟨fs, -, hfs⟩ := List.mem_map.mp hin
    exact ⟨fs, hfs.symm⟩
  rw [hfs] at hmem
  have hlt := h.lt_tried_of_active hmem
  have htried := h.tried
  have hnew := h.notMem_of_active hmem (by omega)
  obtain ⟨xs', ys', ring', hlists, hring, hperm, hservers⟩ :=
    h.lists.moveToFreePort h.noActive (by omega) hmem hnew
  refine ⟨⟨(s.tables.moveToFreePort fs).1, s.tried⟩, xs', ys', ring', ?_, hlists, hring, h.tried, ?_⟩
  · rw [binderyStep, if_pos hon, Tables.moveAttachPortToFreePort, hfs]
    rfl
  · have hring₁ : (ring'.map (some ∘ UInt8.toNat)).Perm
        (some fs :: ring.map (some ∘ UInt8.toNat)) := by
      have hmap := hperm.map (some ∘ UInt8.toNat)
      rwa [List.map_cons, Function.comp_apply, toNat_ofNat_of_lt (by omega)] at hmap
    -- the server goes from the active ones to the ring
    apply ((hring₁.append_right _).trans List.perm_middle.symm).trans
    exact (hservers.append_left _).trans h.once

theorem nextQueue (h : BinderyInv count s xs ys ring) (nPort : Nat) :
    ∃ s' xs' ys' ring', binderyStep count s (.nextQueue nPort) = some s' ∧
      BinderyInv count s' xs' ys' ring' := by
  by_cases hon : nPort < numOfPrnPort ∧ s.tables.curPort nPort ≠ nullByte
  swap
  · exact ⟨s, xs, ys, ring, if_neg hon, h⟩
  obtain rfl : nPort = 0 := Nat.lt_one_iff.mp hon.1
  obtain ⟨hlists, hsame⟩ := h.lists.nextQueue hon.2
  refine ⟨⟨s.tables.nextQueue 0, s.tried⟩, xs, ys, ring, if_pos hon, hlists,
    h.noActive.congr hsame.nextFSInfo hsame.noActiveFSInfo, h.tried, ?_⟩
  rw [hsame.servers_eq]
  exact h.once

theorem step (h : BinderyInv count s xs ys ring) (hcount : count ≤ 255) (e : BinderyEvent) :
    ∃ s' xs' ys' ring', binderyStep count s e = some s' ∧ BinderyInv count s' xs' ys' ring' := by
  cases e with
  | connectNetware reply =>
      by_cases hlt : s.tried < count
      · exact h.connectNetware hcount hlt reply
      · exact ⟨s, xs, ys, ring, if_neg hlt, h⟩
  | tryConnect reply => exact h.tryConnect reply
  | timeOut nPort => exact h.timeOut hcount nPort
  | nextQueue nPort => exact h.nextQueue nPort

end BinderyInv

/-- The free list that `BinderyPrintServerInit` links. -/
theorem linked_init (nPort : Nat) (hcount : count ≤ 255) (i : Nat) (hi : i < count) :
    Linked ((binderyPrintServerInit count).link nPort) nullByte (UInt8.ofNat i)
      ((List.range' i (count - i)).map UInt8.ofNat) := by
  obtain ⟨n, hn⟩ : ∃ n, count - i = n + 1 := ⟨count - i - 1, by omega⟩
  induction n generalizing i with
  | zero =>
      rw [hn]
      refine ⟨rfl, ofNat_ne_nullByte (by omega), ?_⟩
      rw [Tables.link, toNat_ofNat_of_lt (by omega)]
      exact if_neg (by omega)
  | succ n ih =>
      have hrest := ih (i + 1) (by omega) (by omega)
      rw [hn, List.range'_succ, List.map_cons]
      rw [show count - (i + 1) = n + 1 by omega] at hrest
      refine ⟨rfl, ofNat_ne_nullByte (by omega), ?_⟩
      rw [Tables.link, toNat_ofNat_of_lt (by omega)]
      rw [show ((binderyPrintServerInit count).pcb nPort i).nextPortPCB = UInt8.ofNat (i + 1) from
        if_pos (by omega)]
      exact hrest

theorem binderyInv_init (hone : 1 ≤ count) (hcount : count ≤ 255) :
    BinderyInv count (bindery count).init ((List.range count).map UInt8.ofNat) [] [] := by
  refine ⟨⟨?_, rfl, ?_, Or.inl ⟨rfl, rfl⟩⟩, rfl, Nat.zero_le count, List.Perm.refl []⟩
  · have hfree := linked_init 0 hcount 0 hone
    rwa [Nat.sub_zero, ← List.range_eq_range'] at hfree
  · rw [List.append_nil, List.map_map]
    apply List.Perm.of_eq
    conv_rhs => rw [← List.map_id (List.range count)]
    exact List.map_congr_left fun i hi ↦ toNat_ofNat_of_lt
      (Nat.lt_of_lt_of_le (List.mem_range.mp hi) hcount)

/-! ## The tables are a partition -/

/-- For every port the free and active lists hold each PCB once and the current PCB is active, or
there is none; every server that was tried is in the ring or has an active PCB, and not both; no
port has two active PCBs of one server. -/
def Partition (count : Nat) (s : Bindery) : Prop :=
  ∃ (free act : Nat → List UInt8) (ring : List UInt8),
    (∀ nPort < numOfPrnPort, PortLists s.tables nPort count (free nPort) (act nPort) ∧
      (s.tables.curPort nPort = nullByte ↔ act nPort = []) ∧
      (servers s.tables nPort (act nPort)).Nodup) ∧
    NoActive s.tables ring ∧ (∀ b ∈ ring, b.toNat < s.tried) ∧
    ∀ fs < s.tried, (UInt8.ofNat fs ∈ ring ↔
      ∀ nPort < numOfPrnPort, some fs ∉ servers s.tables nPort (act nPort))

theorem BinderyInv.partition {s : Bindery} (h : BinderyInv count s xs ys ring)
    (hcount : count ≤ 255) : Partition count s := by
  refine ⟨fun _ ↦ xs, fun _ ↦ ys, ring, fun nPort hport ↦ ?_, h.noActive,
    fun b hb ↦ h.lt_tried_of_mem hb, fun fs hfs ↦ ?_⟩
  · obtain rfl : nPort = 0 := Nat.lt_one_iff.mp hport
    exact ⟨h.lists, h.lists.curPort_eq_nullByte, (List.nodup_append.mp h.nodup).2.1⟩
  · have htried := h.tried
    constructor
    · intro hmem nPort hport hact
      obtain rfl : nPort = 0 := Nat.lt_one_iff.mp hport
      exact h.notMem_of_active hact (by omega) hmem
    · intro hno
      have hin : some fs ∈ ring.map (some ∘ UInt8.toNat) ++ servers s.tables 0 ys := by
        rw [h.once.mem_iff]
        exact List.mem_map.mpr ⟨fs, List.mem_range.mpr hfs, rfl⟩
      rcases List.mem_append.mp hin with hring | hact
      · obtain ⟨b, hb, hbfs⟩ := List.mem_map.mp hring
        rw [← Option.some.inj hbfs, UInt8.ofNat_toNat]
        exact hb
      · exact absurd hact (hno 0 Nat.one_pos)

/-- Whatever the attempts to connect and the time-outs do, nothing is lost from the tables. -/
theorem bindery_partition (hone : 1 ≤ count) (hcount : count ≤ 255) (events : List BinderyEvent) :
    ∃ s, (bindery count).run events = some s ∧ Partition count s := by
  let inv : Bindery → Prop := fun s ↦ ∃ xs ys ring, BinderyInv count s xs ys ring
  have hinit : inv (bindery count).init := ⟨_, _, _, binderyInv_init hone hcount⟩
  have hstep : ∀ s e, inv s → ∃ s', (bindery count).step s e = some s' ∧ inv s' := by
    intro s e ⟨xs, ys, ring, hs⟩
    obtain ⟨s', xs', ys', ring', hnext, hs'⟩ := hs.step hcount e
    exact ⟨s', hnext, xs', ys', ring', hs'⟩
  obtain ⟨s, hrun, xs, ys, ring, hs⟩ := Machine.runFrom_total hstep hinit events
  exact ⟨s, hrun, hs.partition hcount⟩

/-- The server answers with one queue for the port. -/
def oneQueue (_ : Nat) : PortReply where
  openFile := .okay
  queue i := if i = 0 then .attached [0, 0, 0, 1] else .readEnd
  closed := true

theorem bindery_partition_two_servers :
    ∃ s, (bindery 2).run [.connectNetware (some oneQueue), .connectNetware none, .timeOut 0,
      .tryConnect (some oneQueue)] = some s ∧ Partition 2 s :=
  bindery_partition (by decide) (by decide) _

/-- With 256 servers a PCB stands where `NULL_BYTE` ends the free list. -/
theorem last_pcb_not_linked :
    ¬ ∃ s, (bindery 256).run [] = some s ∧ Partition 256 s := by
  rintro ⟨s, hrun, free, act, ring, hports, -⟩
  obtain rfl : (bindery 256).init = s := Option.some.inj hrun
  have hlists := (hports 0 Nat.one_pos).1
  have hact : act 0 = [] := hlists.act.eq_nil_iff.mpr rfl
  have hlen := hlists.all.length_eq
  rw [hact, List.append_nil, List.length_map, List.length_range] at hlen
  exact Nat.lt_irrefl 256 (hlen ▸ length_lt_of_linked hlists.free)

end PrintServer.Novell
