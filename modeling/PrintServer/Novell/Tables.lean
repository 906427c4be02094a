import Mathlib.Data.List.Perm.Subperm
import Mathlib.Logic.Function.Basic
import PrintServer.Lib.LinkedList
import PrintServer.Lib.Ring

/-!
# The connection tables of the NetWare print server

Each mode, Bindery (nps3.c) and NDS (ndsqueue.c), has an array of PCBs for each port, threaded into
a free and an active list by bytes, and an array of file servers, of which those without a
connection form a ring.  `MoveAttachPortToFreePort` and `NDSMoveActivePortToFreePort` are the same
function of these tables.
-/

namespace PrintServer.Novell

open Lib

/-- `NULL_BYTE` -/
def nullByte : UInt8 := 0xFF

def numOfPrnPort : Nat := 1

def maxQueue : Nat := 16

inductive ProcessRoutine
  | serviceNetWareQueue
  | queueToPort
deriving DecidableEq

/-- `PortPCB`.  A file server is named by its index; `none` is a pointer that was not set. -/
structure PortPCB where
  nextPortPCB : UInt8
  pFSInfo : Option Nat
  fileHandle : List UInt8
  readByteOffset : UInt32
  jobNumber : List UInt8
  qCount : UInt8
  totalQueue : UInt8
  pcbQueueInfo : Nat → List UInt8
  processRoutine : Option ProcessRoutine
  clientStation : UInt8
  copies : UInt16

/-- What `calloc` leaves. -/
def clearedPCB : PortPCB :=
  { nextPortPCB := 0, pFSInfo := none, fileHandle := List.replicate 6 0, readByteOffset := 0,
    jobNumber := [0, 0], qCount := 0, totalQueue := 0, pcbQueueInfo := fun _ ↦ [0, 0, 0, 0],
    processRoutine := none, clientStation := 0, copies := 0 }

/-- The tables of one mode: the PCBs, the heads of `PortInfo`, the links of the file servers and
`bNoActiveFSInfo`. -/
structure Tables where
  pcb : Nat → Nat → PortPCB
  freePort : Nat → UInt8
  actPort : Nat → UInt8
  curPort : Nat → UInt8
  nextFSInfo : Nat → UInt8
  noActiveFSInfo : UInt8

namespace Tables

variable (t : Tables) (nPort : Nat)

def link (b : UInt8) : UInt8 := (t.pcb nPort b.toNat).nextPortPCB

def fsLink (b : UInt8) : UInt8 := t.nextFSInfo b.toNat

def setPCB (b : UInt8) (x : PortPCB) : Tables :=
  { t with pcb := Function.update t.pcb nPort (Function.update (t.pcb nPort) b.toNat x) }

def setNext (b next : UInt8) : Tables :=
  t.setPCB nPort b { t.pcb nPort b.toNat with nextPortPCB := next }

def setFreePort (b : UInt8) : Tables := { t with freePort := Function.update t.freePort nPort b }

def setActPort (b : UInt8) : Tables := { t with actPort := Function.update t.actPort nPort b }

def setCurPort (b : UInt8) : Tables := { t with curPort := Function.update t.curPort nPort b }

/-- A file server behind the first one of the ring, which it becomes. -/
def addNoActive (fs : Nat) : Tables :=
  let bCur := UInt8.ofNat fs
  let bNo := if t.noActiveFSInfo = nullByte then bCur else t.noActiveFSInfo
  let links := Function.update t.nextFSInfo fs (t.nextFSInfo bNo.toNat)
  { t with nextFSInfo := Function.update links bNo.toNat bCur, noActiveFSInfo := bCur }

/-- The first file server of the ring is taken out: `none` is a search for the one in front of it
that does not end. -/
def removeNoActive (fs : Nat) : Option Tables :=
  (predecessor t.fsLink t.noActiveFSInfo 256 t.noActiveFSInfo).map fun bPre ↦
    if bPre = t.noActiveFSInfo then { t with noActiveFSInfo := nullByte }
    else { t with nextFSInfo := Function.update t.nextFSInfo bPre.toNat (t.nextFSInfo fs) }

/-- `shift bNoActiveFSInfo to next` -/
def shiftNoActive (fs : Nat) : Tables :=
  if t.noActiveFSInfo = nullByte then t else { t with noActiveFSInfo := t.nextFSInfo fs }

/-- Taking a PCB out of a list, `pre` being the one in front of it. -/
def cutActive (pre cur : UInt8) : Tables :=
  if pre = nullByte then t.setActPort nPort (t.link nPort cur)
  else t.setNext nPort pre (t.link nPort cur)

/-- Taking a PCB out of the free list. -/
def cutFree (pre cur : UInt8) : Tables :=
  if pre = nullByte then t.setFreePort nPort (t.link nPort cur)
  else t.setNext nPort pre (t.link nPort cur)

/-- The search of a list for a PCB of a file server, with the one in front of it. -/
def searchPCB (fs : Nat) (head : UInt8) : Option (UInt8 × UInt8) :=
  search (t.link nPort) nullByte (fun b ↦ (t.pcb nPort b.toNat).pFSInfo = some fs) 256 nullByte head

/-- The turn of the loop for one port, with whether a PCB of the file server was found and whether
it was the current one. -/
def movePort (fs : Nat) : Tables × Bool × Bool :=
  match t.searchPCB nPort fs (t.actPort nPort) with
  | none => (t, false, false)
  | some (pre, cur) =>
      let t := t.cutActive nPort pre cur
      let t := (t.setNext nPort cur (t.freePort nPort)).setFreePort nPort cur
      if cur = t.curPort nPort then (t.setCurPort nPort (t.actPort nPort), true, true)
      else (t, true, false)

/-- The loop over the ports: the tables, `SearchPortOk` and the ports whose current PCB was moved. -/
def movePorts (fs : Nat) : List Nat → Tables → Tables × Nat × List Nat
  | [], t => (t, 0, [])
  | nPort :: ports, t =>
      let (t', found, current) := t.movePort nPort fs
      let (t'', searchPortOk, moved) := movePorts fs ports t'
      (t'', searchPortOk + (if found then 1 else 0), if current then nPort :: moved else moved)

/-- `MoveAttachPortToFreePort`, `NDSMoveActivePortToFreePort`: the tables and the ports whose
current PCB was moved, which the caller releases when NetWare has them. -/
def moveToFreePort (fs : Nat) : Tables × List Nat :=
  let (t', searchPortOk, moved) := movePorts fs (List.range numOfPrnPort) t
  (if searchPortOk ≠ 0 then t'.addNoActive fs else t', moved)

/-- The turn of the loop of `NDSMoveFreePortToActivePort` for one port, up to the first wait for the
network, with the PCB that was moved. -/
def activatePort (fs : Nat) : Tables × Option UInt8 :=
  match t.searchPCB nPort fs (t.freePort nPort) with
  | none => (t, none)
  | some (pre, cur) =>
      let t := t.setPCB nPort cur { t.pcb nPort cur.toNat with qCount := 0 }
      let t := t.cutFree nPort pre cur
      let t' := t.setNext nPort cur (t.actPort nPort)
      let t' := if t.actPort nPort = nullByte then t'.setCurPort nPort cur else t'
      (t'.setActPort nPort cur, some cur)

/-- A queue of the current PCB is finished, or has no job: the next queue, and behind the last one
the next active PCB. -/
def nextQueue : Tables :=
  let cur := t.curPort nPort
  let x := t.pcb nPort cur.toNat
  let x := { x with processRoutine := some .serviceNetWareQueue, qCount := x.qCount + 1 }
  if x.qCount ≥ x.totalQueue then
    let t := t.setPCB nPort cur { x with qCount := 0 }
    t.setCurPort nPort (if x.nextPortPCB = nullByte then t.actPort nPort else x.nextPortPCB)
  else t.setPCB nPort cur x

end Tables

/-! ## The lists of a port -/

variable {t : Tables} {nPort count fs : Nat} {b c next : UInt8} {free act : List UInt8}

namespace Tables

@[simp] theorem link_setFreePort : (t.setFreePort nPort b).link nPort = t.link nPort := rfl
@[simp] theorem link_setActPort : (t.setActPort nPort b).link nPort = t.link nPort := rfl
@[simp] theorem link_setCurPort : (t.setCurPort nPort b).link nPort = t.link nPort := rfl

@[simp] theorem freePort_setFreePort : (t.setFreePort nPort b).freePort nPort = b :=
  Function.update_self ..

@[simp] theorem actPort_setActPort : (t.setActPort nPort b).actPort nPort = b :=
  Function.update_self ..

@[simp] theorem curPort_setCurPort : (t.setCurPort nPort b).curPort nPort = b :=
  Function.update_self ..

theorem pcb_setPCB_self (x : PortPCB) : (t.setPCB nPort b x).pcb nPort b.toNat = x := by
  simp only [setPCB, Function.update_self]

theorem pcb_setPCB_of_ne (x : PortPCB) (h : c ≠ b) :
    (t.setPCB nPort b x).pcb nPort c.toNat = t.pcb nPort c.toNat := by
  have hne : c.toNat ≠ b.toNat := fun hn ↦ h (UInt8.toNat_inj.mp hn)
  simp only [setPCB, Function.update_self, Function.update_of_ne hne]

theorem link_setNext_self : (t.setNext nPort b next).link nPort b = next := by
  rw [link, setNext, pcb_setPCB_self]

theorem link_setNext_of_ne (h : c ≠ b) : (t.setNext nPort b next).link nPort c = t.link nPort c := by
  rw [link, setNext, pcb_setPCB_of_ne _ h, link]

theorem pFSInfo_setNext : ((t.setNext nPort b next).pcb nPort c.toNat).pFSInfo =
    (t.pcb nPort c.toNat).pFSInfo := by
  rw [setNext]
  by_cases h : c = b
  · rw [h, pcb_setPCB_self]
  · rw [pcb_setPCB_of_ne _ h]

theorem link_setPCB {x : PortPCB} (hx : x.nextPortPCB = t.link nPort b) :
    (t.setPCB nPort b x).link nPort = t.link nPort := by
  funext y
  by_cases hy : y = b
  · rw [hy, link, pcb_setPCB_self, hx]
  · rw [link, pcb_setPCB_of_ne x hy, link]

end Tables

/-- The lists of a port with `count` PCBs: acyclic, each PCB in one of them, and the current one
active. -/
structure PortLists (t : Tables) (nPort count : Nat) (xs ys : List UInt8) : Prop where
  free : Linked (t.link nPort) nullByte (t.freePort nPort) xs
  act : Linked (t.link nPort) nullByte (t.actPort nPort) ys
  all : ((xs ++ ys).map UInt8.toNat).Perm (List.range count)
  curPort : (ys = [] ∧ t.curPort nPort = nullByte) ∨ t.curPort nPort ∈ ys

/-- The file servers of the PCBs of a list. -/
def servers (t : Tables) (nPort : Nat) (ys : List UInt8) : List (Option Nat) :=
  ys.map fun b ↦ (t.pcb nPort b.toNat).pFSInfo

/-- What the lists of the PCBs do not touch. -/
structure SameServers (t t' : Tables) (nPort : Nat) : Prop where
  pFSInfo : ∀ b : UInt8, (t'.pcb nPort b.toNat).pFSInfo = (t.pcb nPort b.toNat).pFSInfo
  nextFSInfo : t'.nextFSInfo = t.nextFSInfo
  noActiveFSInfo : t'.noActiveFSInfo = t.noActiveFSInfo

theorem SameServers.servers_eq {t' : Tables} (h : SameServers t t' nPort) (ys : List UInt8) :
    servers t' nPort ys = servers t nPort ys :=
  List.map_congr_left fun b _ ↦ h.pFSInfo b

theorem SameServers.setPCB {x : PortPCB} (hx : x.pFSInfo = (t.pcb nPort b.toNat).pFSInfo) :
    SameServers t (t.setPCB nPort b x) nPort := by
  refine ⟨fun y ↦ ?_, rfl, rfl⟩
  by_cases hy : y = b
  · rw [hy, Tables.pcb_setPCB_self, hx]
  · rw [Tables.pcb_setPCB_of_ne x hy]

/-- What the ring of the file servers does not touch. -/
structure SamePorts (t t' : Tables) : Prop where
  pcb : t'.pcb = t.pcb
  freePort : t'.freePort = t.freePort
  actPort : t'.actPort = t.actPort
  curPort : t'.curPort = t.curPort

theorem SamePorts.servers_eq {t' : Tables} (h : SamePorts t t') (ys : List UInt8) :
    servers t' nPort ys = servers t nPort ys := by
  rw [servers, h.pcb, servers]

theorem SamePorts.portLists {t' : Tables} {xs ys : List UInt8} (hs : SamePorts t t')
    (h : PortLists t nPort count xs ys) : PortLists t' nPort count xs ys := by
  have hlink : t'.link nPort = t.link nPort := by
    funext y
    rw [Tables.link, hs.pcb, Tables.link]
  refine ⟨?_, ?_, h.all, ?_⟩
  · rw [hlink, hs.freePort]
    exact h.free
  · rw [hlink, hs.actPort]
    exact h.act
  · rw [hs.curPort]
    exact h.curPort

theorem samePorts_addNoActive : SamePorts t (t.addNoActive fs) := ⟨rfl, rfl, rfl, rfl⟩

theorem samePorts_shiftNoActive : SamePorts t (t.shiftNoActive fs) := by
  rw [Tables.shiftNoActive]
  split <;> exact ⟨rfl, rfl, rfl, rfl⟩

/-- A byte links fewer than 256 nodes. -/
theorem length_lt_of_nodup {xs : List UInt8} (hx : xs.Nodup) (hnil : nullByte ∉ xs) :
    xs.length < 256 := by
  have hsub : (nullByte :: xs).map UInt8.toNat ⊆ List.range 256 := by
    intro n hn
    obtain ⟨b, -, rfl⟩ := List.mem_map.mp hn
    exact List.mem_range.mpr b.toNat_lt
  have hnd : ((nullByte :: xs).map UInt8.toNat).Nodup :=
    (List.nodup_cons.mpr ⟨hnil, hx⟩).map fun _ _ h ↦ UInt8.toNat_inj.mp h
  have hle := (hnd.subperm hsub).length_le
  rw [List.length_map, List.length_range, List.length_cons] at hle
  omega

theorem length_lt_of_linked {f : UInt8 → UInt8} {xs : List UInt8}
    (h : Linked f nullByte b xs) : xs.length < 256 :=
  length_lt_of_nodup h.nodup fun hm ↦ h.ne_nil hm rfl

namespace PortLists

variable {xs ys l₁ l₂ : List UInt8}

theorem nodup (h : PortLists t nPort count xs ys) : (xs ++ ys).Nodup :=
  (h.all.nodup_iff.mpr List.nodup_range).of_map _

theorem curPort_eq_nullByte (h : PortLists t nPort count xs ys) :
    t.curPort nPort = nullByte ↔ ys = [] := by
  rcases h.curPort with ⟨hact, hcur⟩ | hcur
  · exact iff_of_true hcur hact
  · refine iff_of_false (h.act.ne_nil hcur) fun hact ↦ ?_
    rw [hact] at hcur
    exact List.not_mem_nil hcur

/-- The fields of a PCB behind its link may change. -/
theorem setPCB (h : PortLists t nPort count xs ys) {x : PortPCB}
    (hx : x.nextPortPCB = t.link nPort b) : PortLists (t.setPCB nPort b x) nPort count xs ys := by
  have hlink := Tables.link_setPCB hx
  exact ⟨hlink ▸ h.free, hlink ▸ h.act, h.all, h.curPort⟩

/-- The current PCB after its last queue: the next active one or the first. -/
theorem nextQueue (h : PortLists t nPort count xs ys) (hcur : t.curPort nPort ≠ nullByte) :
    PortLists (t.nextQueue nPort) nPort count xs ys ∧
      SameServers t (t.nextQueue nPort) nPort := by
  simp only [Tables.nextQueue]
  split
  · have hset := h.setPCB (b := t.curPort nPort) (x := { t.pcb nPort (t.curPort nPort).toNat with
      processRoutine := some .serviceNetWareQueue, qCount := 0 }) rfl
    refine ⟨⟨hset.free, hset.act, hset.all, Or.inr ?_⟩, ?_⟩
    · rw [Tables.curPort_setCurPort]
      have hmem : t.curPort nPort ∈ ys := h.curPort.resolve_left fun hn ↦ hcur hn.2
      split
      · rename_i hnext
        cases ys with
        | nil => cases hmem
        | cons y ys => exact h.act.1 ▸ List.mem_cons_self
      · rename_i hnext
        have hinfix := h.act.infix_of_next hmem hnext
        exact hinfix.subset (by simp [Tables.link])
    · let x := { t.pcb nPort (t.curPort nPort).toNat with
        processRoutine := some ProcessRoutine.serviceNetWareQueue, qCount := 0 }
      have hsame : SameServers t (t.setPCB nPort (t.curPort nPort) x) nPort :=
        SameServers.setPCB rfl
      exact ⟨hsame.pFSInfo, rfl, rfl⟩
  · exact ⟨h.setPCB rfl, SameServers.setPCB rfl⟩

/-- Taking a PCB out of a list, with the PCB in front of it as the search leaves it: the other list
stays. -/
theorem cut (h : Linked (t.link nPort) nullByte b (l₁ ++ c :: l₂))
    (hxs : Linked (t.link nPort) nullByte next xs) (hnd : ∀ x ∈ l₁, x ∉ xs) :
    let pre := (nullByte :: l₁).getLast (List.cons_ne_nil _ _)
    (pre = nullByte → Linked (t.link nPort) nullByte (t.link nPort c) (l₁ ++ l₂)) ∧
      (pre ≠ nullByte →
        Linked ((t.setNext nPort pre (t.link nPort c)).link nPort) nullByte b (l₁ ++ l₂) ∧
          Linked ((t.setNext nPort pre (t.link nPort c)).link nPort) nullByte next xs) := by
  rcases l₁.eq_nil_or_concat with rfl | ⟨u, p, rfl⟩
  · exact ⟨fun _ ↦ h.tail, fun hne ↦ absurd rfl hne⟩
  · rw [List.concat_eq_append] at h hnd ⊢
    have hp : p ≠ nullByte := h.ne_nil (by simp)
    have hlast : (nullByte :: (u ++ [p])).getLast (List.cons_ne_nil _ _) = p := by simp
    simp only [hlast]
    refine ⟨fun hn ↦ absurd hn hp, fun _ ↦ ⟨?_, ?_⟩⟩
    · rw [List.append_assoc] at h ⊢
      apply h.splice Tables.link_setNext_self
      exact fun z hz ↦ Tables.link_setNext_of_ne hz
    · apply hxs.congr fun x hx ↦ Tables.link_setNext_of_ne ?_
      rintro rfl
      exact hnd x (by simp) hx

/-- Taking an active PCB out. -/
theorem cutActive (h : PortLists t nPort count xs (l₁ ++ c :: l₂)) :
    let t' := t.cutActive nPort ((nullByte :: l₁).getLast (List.cons_ne_nil _ _)) c
    Linked (t'.link nPort) nullByte (t'.actPort nPort) (l₁ ++ l₂) ∧
      Linked (t'.link nPort) nullByte (t'.freePort nPort) xs := by
  have hdisj := (List.nodup_append.mp h.nodup).2.2
  have hcut := cut h.act h.free fun x hx hxs ↦
    hdisj x hxs x (List.mem_append_left _ hx) rfl
  dsimp only at hcut ⊢
  rw [Tables.cutActive]
  split
  · rename_i hpre
    rw [Tables.actPort_setActPort]
    exact ⟨hcut.1 hpre, h.free⟩
  · rename_i hpre
    exact hcut.2 hpre

/-- Taking a free PCB out. -/
theorem cutFree (h : PortLists t nPort count (l₁ ++ c :: l₂) ys) :
    let t' := t.cutFree nPort ((nullByte :: l₁).getLast (List.cons_ne_nil _ _)) c
    Linked (t'.link nPort) nullByte (t'.freePort nPort) (l₁ ++ l₂) ∧
      Linked (t'.link nPort) nullByte (t'.actPort nPort) ys := by
  have hdisj := (List.nodup_append.mp h.nodup).2.2
  have hcut := cut h.free h.act fun x hx hys ↦
    hdisj x (List.mem_append_left _ hx) x hys rfl
  dsimp only at hcut ⊢
  rw [Tables.cutFree]
  split
  · rename_i hpre
    rw [Tables.freePort_setFreePort]
    exact ⟨hcut.1 hpre, h.act⟩
  · rename_i hpre
    exact hcut.2 hpre

theorem sameServers_cutActive (t : Tables) (nPort : Nat) (b c : UInt8) :
    SameServers t (t.cutActive nPort b c) nPort := by
  by_cases hb : b = nullByte
  · rw [Tables.cutActive, if_pos hb]
    exact ⟨fun _ ↦ rfl, rfl, rfl⟩
  · rw [Tables.cutActive, if_neg hb]
    exact ⟨fun _ ↦ Tables.pFSInfo_setNext, rfl, rfl⟩

/-- A link outside a list may change. -/
theorem setNext_keeps (h : Linked (t.link nPort) nullByte b xs) (hc : c ∉ xs) :
    Linked ((t.setNext nPort c next).link nPort) nullByte b xs := by
  apply h.congr fun z hz ↦ Tables.link_setNext_of_ne ?_
  rintro rfl
  exact hc hz

/-- A PCB in front of a list. -/
theorem setNext_pushes (h : Linked (t.link nPort) nullByte b xs) (hnil : c ≠ nullByte)
    (hc : c ∉ xs) : Linked ((t.setNext nPort c b).link nPort) nullByte c (c :: xs) := by
  apply h.push hnil Tables.link_setNext_self
  intro z hz
  apply Tables.link_setNext_of_ne
  rintro rfl
  exact hc hz

/-- A PCB that is in no list is put in front of the free ones. -/
theorem pushFree (hfree : Linked (t.link nPort) nullByte (t.freePort nPort) xs)
    (hact : Linked (t.link nPort) nullByte (t.actPort nPort) ys) (hnil : c ≠ nullByte)
    (hxs : c ∉ xs) (hys : c ∉ ys) :
    let t' := (t.setNext nPort c (t.freePort nPort)).setFreePort nPort c
    Linked (t'.link nPort) nullByte (t'.freePort nPort) (c :: xs) ∧
      Linked (t'.link nPort) nullByte (t'.actPort nPort) ys := by
  simp only [Tables.link_setFreePort, Tables.freePort_setFreePort]
  exact ⟨setNext_pushes hfree hnil hxs, setNext_keeps hact hys⟩

/-- The PCB of a file server goes from the active to the free list. -/
theorem movePort (h : PortLists t nPort count xs (l₁ ++ c :: l₂))
    (hc : (t.pcb nPort c.toNat).pFSInfo = some fs)
    (hl : ∀ b ∈ l₁, (t.pcb nPort b.toNat).pFSInfo ≠ some fs) :
    ∃ t' cur, t.movePort nPort fs = (t', true, cur) ∧
      PortLists t' nPort count (c :: xs) (l₁ ++ l₂) ∧ SameServers t t' nPort := by
  have hlen := length_lt_of_linked h.act
  rw [List.length_append, List.length_cons] at hlen
  have hsearch : t.searchPCB nPort fs (t.actPort nPort) = _ :=
    h.act.search_eq_some (fun b hb ↦ decide_eq_false (hl b hb)) (decide_eq_true hc) (by omega)
  have hperm : (xs ++ (l₁ ++ c :: l₂)).Perm (c :: (xs ++ (l₁ ++ l₂))) := by
    rw [← List.append_assoc, ← List.append_assoc]
    exact List.perm_middle
  have hnotin := (List.nodup_cons.mp (hperm.nodup_iff.mp h.nodup)).1
  rw [List.mem_append, not_or] at hnotin
  have hcut := h.cutActive
  have hsame := sameServers_cutActive t nPort
    ((nullByte :: l₁).getLast (List.cons_ne_nil _ _)) c
  have hcurPort : (t.cutActive nPort ((nullByte :: l₁).getLast (List.cons_ne_nil _ _)) c).curPort =
      t.curPort := by
    rw [Tables.cutActive]
    split <;> rfl
  have hmove : t.movePort nPort fs =
      let t₁ := t.cutActive nPort ((nullByte :: l₁).getLast (List.cons_ne_nil _ _)) c
      let t₂ := (t₁.setNext nPort c (t₁.freePort nPort)).setFreePort nPort c
      if c = t.curPort nPort then (t₂.setCurPort nPort (t₂.actPort nPort), true, true)
      else (t₂, true, false) := by
    rw [Tables.movePort, hsearch, ← hcurPort]
    rfl
  rw [hmove]
  generalize t.cutActive nPort ((nullByte :: l₁).getLast (List.cons_ne_nil _ _)) c = t₁
    at hcut hsame hcurPort
  have hpush := pushFree hcut.2 hcut.1 (h.act.ne_nil (by simp)) hnotin.1 hnotin.2
  have hsame₂ : SameServers t ((t₁.setNext nPort c (t₁.freePort nPort)).setFreePort nPort c)
      nPort :=
    ⟨fun b ↦ Tables.pFSInfo_setNext.trans (hsame.pFSInfo b), hsame.nextFSInfo,
      hsame.noActiveFSInfo⟩
  have hcur₂ : ((t₁.setNext nPort c (t₁.freePort nPort)).setFreePort nPort c).curPort nPort =
      t.curPort nPort := congrFun hcurPort nPort
  have hall : ((c :: xs ++ (l₁ ++ l₂)).map UInt8.toNat).Perm (List.range count) :=
    (hperm.symm.map UInt8.toNat).trans h.all
  dsimp only at hpush ⊢
  generalize (t₁.setNext nPort c (t₁.freePort nPort)).setFreePort nPort c = t₂
    at hpush hsame₂ hcur₂ ⊢
  by_cases hcc : c = t.curPort nPort
  · -- the port starts over with the first of its active PCBs
    rw [if_pos hcc]
    refine ⟨_, _, rfl, ⟨hpush.1, hpush.2, hall, ?_⟩, hsame₂.pFSInfo, hsame₂.nextFSInfo,
      hsame₂.noActiveFSInfo⟩
    rw [Tables.curPort_setCurPort]
    rcases hys : l₁ ++ l₂ with _ | ⟨z, zs⟩
    · exact Or.inl ⟨rfl, (hpush.2.eq_nil_iff.mp hys)⟩
    · rw [hys] at hpush
      exact Or.inr (hpush.2.1 ▸ List.mem_cons_self)
  · rw [if_neg hcc]
    refine ⟨_, _, rfl, ⟨hpush.1, hpush.2, hall, ?_⟩, hsame₂⟩
    rcases h.curPort with ⟨hnone, -⟩ | hmem
    · simp at hnone
    · have hmem' := List.perm_middle.mem_iff.mp hmem
      refine Or.inr (hcur₂ ▸ (List.mem_cons.mp hmem').resolve_left (Ne.symm hcc))

theorem sameServers_cutFree (t : Tables) (nPort : Nat) (b c : UInt8) :
    SameServers t (t.cutFree nPort b c) nPort := by
  by_cases hb : b = nullByte
  · rw [Tables.cutFree, if_pos hb]
    exact ⟨fun _ ↦ rfl, rfl, rfl⟩
  · rw [Tables.cutFree, if_neg hb]
    exact ⟨fun _ ↦ Tables.pFSInfo_setNext, rfl, rfl⟩

/-- The PCB of a file server goes from the free to the active list. -/
theorem activatePort (h : PortLists t nPort count (l₁ ++ c :: l₂) ys)
    (hc : (t.pcb nPort c.toNat).pFSInfo = some fs)
    (hl : ∀ b ∈ l₁, (t.pcb nPort b.toNat).pFSInfo ≠ some fs) :
    ∃ t', t.activatePort nPort fs = (t', some c) ∧
      PortLists t' nPort count (l₁ ++ l₂) (c :: ys) ∧ SameServers t t' nPort := by
  have hlen := length_lt_of_linked h.free
  rw [List.length_append, List.length_cons] at hlen
  have hsearch : t.searchPCB nPort fs (t.freePort nPort) = _ :=
    h.free.search_eq_some (fun b hb ↦ decide_eq_false (hl b hb)) (decide_eq_true hc) (by omega)
  have hperm : (l₁ ++ c :: l₂ ++ ys).Perm (c :: (l₁ ++ l₂ ++ ys)) := by
    rw [List.append_assoc, List.append_assoc]
    exact List.perm_middle
  have hnotin := (List.nodup_cons.mp (hperm.nodup_iff.mp h.nodup)).1
  rw [List.mem_append, not_or] at hnotin
  have hnil : c ≠ nullByte := h.free.ne_nil (by simp)
  let t₀ := t.setPCB nPort c { t.pcb nPort c.toNat with qCount := 0 }
  have h₀ : PortLists t₀ nPort count (l₁ ++ c :: l₂) ys := h.setPCB rfl
  have hsame₀ : SameServers t t₀ nPort := SameServers.setPCB rfl
  have hcut := h₀.cutFree
  have hsame := sameServers_cutFree t₀ nPort
    ((nullByte :: l₁).getLast (List.cons_ne_nil _ _)) c
  have hkeep : (t₀.cutFree nPort ((nullByte :: l₁).getLast (List.cons_ne_nil _ _)) c).curPort =
      t.curPort := by
    rw [Tables.cutFree]
    split <;> rfl
  have hmove : t.activatePort nPort fs =
      let t₁ := t₀.cutFree nPort ((nullByte :: l₁).getLast (List.cons_ne_nil _ _)) c
      let t₂ := t₁.setNext nPort c (t₁.actPort nPort)
      ((if t₁.actPort nPort = nullByte then t₂.setCurPort nPort c else t₂).setActPort nPort c,
        some c) := by
    rw [Tables.activatePort, hsearch]
  rw [hmove]
  generalize t₀.cutFree nPort ((nullByte :: l₁).getLast (List.cons_ne_nil _ _)) c = t₁
    at hcut hsame hkeep
  have hfree : Linked ((t₁.setNext nPort c (t₁.actPort nPort)).link nPort) nullByte
      ((t₁.setNext nPort c (t₁.actPort nPort)).freePort nPort) (l₁ ++ l₂) :=
    setNext_keeps hcut.1 hnotin.1
  have hact := setNext_pushes hcut.2 hnil hnotin.2
  have hall : ((l₁ ++ l₂ ++ c :: ys).map UInt8.toNat).Perm (List.range count) :=
    ((List.perm_middle.trans hperm.symm).map UInt8.toNat).trans h.all
  have hsame₂ : ∀ b : UInt8, ((t₁.setNext nPort c (t₁.actPort nPort)).pcb nPort b.toNat).pFSInfo =
      (t.pcb nPort b.toNat).pFSInfo :=
    fun b ↦ Tables.pFSInfo_setNext.trans ((hsame.pFSInfo b).trans (hsame₀.pFSInfo b))
  have hcur₂ : (t₁.setNext nPort c (t₁.actPort nPort)).curPort nPort = t.curPort nPort :=
    congrFun hkeep nPort
  have hfs₂ : (t₁.setNext nPort c (t₁.actPort nPort)).nextFSInfo = t.nextFSInfo ∧
      (t₁.setNext nPort c (t₁.actPort nPort)).noActiveFSInfo = t.noActiveFSInfo :=
    ⟨hsame.nextFSInfo, hsame.noActiveFSInfo⟩
  dsimp only at hcut ⊢
  by_cases hempty : t₁.actPort nPort = nullByte
  · -- nothing was active: this PCB is the current one
    rw [if_pos hempty]
    generalize t₁.setNext nPort c (t₁.actPort nPort) = t₂ at hfree hact hsame₂ hfs₂
    refine ⟨_, rfl, ⟨hfree, ?_, hall, Or.inr ?_⟩, hsame₂, hfs₂.1, hfs₂.2⟩
    · rw [Tables.actPort_setActPort]
      exact hact
    · change (t₂.setCurPort nPort c).curPort nPort ∈ c :: ys
      rw [Tables.curPort_setCurPort]
      exact List.mem_cons_self
  · rw [if_neg hempty]
    have hys : ys ≠ [] := fun hn ↦ hempty (hcut.2.eq_nil_iff.mp hn)
    have hmem : t.curPort nPort ∈ ys := h.curPort.resolve_left fun hn ↦ hys hn.1
    generalize t₁.setNext nPort c (t₁.actPort nPort) = t₂ at hfree hact hsame₂ hcur₂ hfs₂
    refine ⟨_, rfl, ⟨hfree, ?_, hall, Or.inr ?_⟩, hsame₂, hfs₂.1, hfs₂.2⟩
    · rw [Tables.actPort_setActPort]
      exact hact
    · change t₂.curPort nPort ∈ c :: ys
      rw [hcur₂]
      exact List.mem_cons_of_mem c hmem

end PortLists

/-! ## The ring of the file servers without a connection -/

section Ring

variable {ring : List UInt8} {p : UInt8}

/-- The ring of the file servers without a connection. -/
def NoActive (t : Tables) (ring : List UInt8) : Prop :=
  Ring t.fsLink nullByte t.noActiveFSInfo ring

theorem NoActive.congr (h : NoActive t ring) {t' : Tables} (hl : t'.nextFSInfo = t.nextFSInfo)
    (hb : t'.noActiveFSInfo = t.noActiveFSInfo) : NoActive t' ring := by
  rw [NoActive, hb]
  exact Ring.congr h fun y _ ↦ congrFun hl y.toNat

theorem NoActive.length_lt (h : NoActive t ring) : ring.length < 256 :=
  length_lt_of_nodup (Ring.nodup h) (Ring.nil_notMem h)

theorem toNat_ofNat_of_lt (hfs : fs < 255) : (UInt8.ofNat fs).toNat = fs := by
  rw [UInt8.toNat_ofNat', Nat.mod_eq_of_lt (by omega)]

theorem ofNat_ne_nullByte (hfs : fs < 255) : UInt8.ofNat fs ≠ nullByte := by
  intro h
  have hnat := congrArg UInt8.toNat h
  rw [toNat_ofNat_of_lt hfs] at hnat
  change fs = 255 at hnat
  omega

/-- The links after a file server was added behind `bNo`. -/
theorem fsLink_addNoActive {y bNo : UInt8} (hfs : fs < 255)
    (hbNo : (if t.noActiveFSInfo = nullByte then UInt8.ofNat fs else t.noActiveFSInfo) = bNo) :
    (t.addNoActive fs).fsLink y =
      if y = bNo then UInt8.ofNat fs
      else if y = UInt8.ofNat fs then t.fsLink bNo
      else t.fsLink y := by
  have hiff : ∀ z : UInt8, y.toNat = z.toNat ↔ y = z := fun z ↦ UInt8.toNat_inj
  have hyfs := hiff (UInt8.ofNat fs)
  rw [toNat_ofNat_of_lt hfs] at hyfs
  simp only [Tables.addNoActive, Tables.fsLink, hbNo, Function.update_apply, hiff, hyfs]

/-- A file server is added to the ring. -/
theorem NoActive.add (h : NoActive t ring) (hfs : fs < 255) (hnew : UInt8.ofNat fs ∉ ring) :
    ∃ ring', NoActive (t.addNoActive fs) ring' ∧ ring'.Perm (UInt8.ofNat fs :: ring) := by
  refine ⟨UInt8.ofNat fs :: (ring.tail ++ ring.head?.toList), ?_, ?_⟩
  swap
  · apply List.Perm.cons
    cases ring with
    | nil => exact List.Perm.refl []
    | cons b ring => exact List.perm_append_singleton b ring
  apply Ring.insert h hnew (ofNat_ne_nullByte hfs)
  · intro y hy
    obtain ⟨l, rfl⟩ : ∃ l, ring = y :: l := ⟨_, List.eq_cons_of_mem_head? hy⟩
    obtain ⟨hb, hnl, -⟩ := id h
    have hnil : t.noActiveFSInfo ≠ nullByte := fun hn ↦ hnl (by simp [← hn, hb])
    have hne : UInt8.ofNat fs ≠ y := fun hn ↦ hnew (by simp [hn])
    have hlink := fun z ↦ fsLink_addNoActive (y := z) hfs ((if_neg hnil).trans hb)
    constructor
    · rw [hlink, if_pos rfl]
    · rw [hlink, if_neg hne, if_pos rfl]
  · rintro rfl
    have hb : t.noActiveFSInfo = nullByte := h
    rw [fsLink_addNoActive hfs (if_pos hb), if_pos rfl]
  · intro y hy
    cases ring with
    | nil => cases hy
    | cons z l =>
        obtain ⟨hb, hnl, hnodup, -⟩ := id h
        have hnil : t.noActiveFSInfo ≠ nullByte := fun hn ↦ hnl (by simp [← hn, hb])
        have hyz : y ≠ z := fun hn ↦ (List.nodup_cons.mp hnodup).1 (hn ▸ hy)
        have hyfs : y ≠ UInt8.ofNat fs := fun hn ↦ hnew (hn ▸ List.mem_cons_of_mem z hy)
        rw [fsLink_addNoActive hfs ((if_neg hnil).trans hb), if_neg hyz, if_neg hyfs]

/-- The next file server of the ring is tried. -/
theorem NoActive.shift (h : NoActive t (b :: ring)) :
    NoActive (t.shiftNoActive b.toNat) (ring ++ [b]) := by
  have hb : t.noActiveFSInfo = b := h.1
  have hnil : t.noActiveFSInfo ≠ nullByte := fun hn ↦ h.2.1 (by simp [← hn, hb])
  rw [Tables.shiftNoActive, if_neg hnil]
  exact Ring.rotate h

/-- The first file server of the ring is taken out of it. -/
theorem NoActive.remove (h : NoActive t (b :: ring)) :
    ∃ t', t.removeNoActive b.toNat = some t' ∧ SamePorts t t' ∧
      NoActive (t'.shiftNoActive b.toNat) ring := by
  have hb : t.noActiveFSInfo = b := h.1
  have hlen := h.length_lt
  rw [List.length_cons] at hlen
  have hpre := @Ring.predecessor_eq _ t.fsLink t.noActiveFSInfo b nullByte ring _ h 256 (by omega)
  rw [Tables.removeNoActive, hpre]
  rcases ring.eq_nil_or_concat with rfl | ⟨u, p, rfl⟩
  · -- the only one in the ring
    refine ⟨{ t with noActiveFSInfo := nullByte }, ?_, ⟨rfl, rfl, rfl, rfl⟩, rfl⟩
    exact congrArg some (if_pos hb.symm)
  · rw [List.concat_eq_append] at h hpre ⊢
    have hpb : p ≠ b := by
      rintro rfl
      exact (List.nodup_cons.mp (Ring.nodup h)).1 (by simp)
    have hpb' : p.toNat ≠ b.toNat := fun hn ↦ hpb (UInt8.toNat_inj.mp hn)
    have hlast : (b :: (u ++ [p])).getLast? = some p := by
      rw [← List.cons_append, List.getLast?_concat]
    refine ⟨{ t with nextFSInfo := Function.update t.nextFSInfo p.toNat (t.nextFSInfo b.toNat) },
      ?_, ⟨rfl, rfl, rfl, rfl⟩, ?_⟩
    · rw [hlast, Option.map_some, if_neg (hb ▸ hpb)]
    · have hnil : t.noActiveFSInfo ≠ nullByte := fun hn ↦ h.2.1 (by simp [← hn, hb])
      rw [Tables.shiftNoActive, if_neg hnil]
      have hfirst : Function.update t.nextFSInfo p.toNat (t.nextFSInfo b.toNat) b.toNat =
          t.fsLink b := Function.update_of_ne (Ne.symm hpb') ..
      change Ring _ nullByte
        (Function.update t.nextFSInfo p.toNat (t.nextFSInfo b.toNat) b.toNat) _
      rw [hfirst]
      apply Ring.remove h
      · exact Function.update_self ..
      · intro y hy
        apply Function.update_of_ne
        intro hn
        have hnd := (List.nodup_cons.mp (Ring.nodup h)).2
        obtain rfl := UInt8.toNat_inj.mp hn
        exact (List.nodup_append.mp hnd).2.2 y hy y List.mem_cons_self rfl

end Ring

end PrintServer.Novell
