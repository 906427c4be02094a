import PrintServer.Novell.QueuesListed

/-!
# The tables of the NDS mode are complete

Every queue with a file server is in the PCB of that server, and every PCB is in a list, if and
only if the queues of each server that is not attached come one after another and the attached one
attaches all of its own.
-/

namespace PrintServer.Novell

open Lib

variable {i n count : Nat} {active : UInt8} {id : UInt32} {d : Directory} {r : NdsTables}
  {fs fs' : List TmpFSInfo} {queues : List (TmpQInfo × HostReply)} {qs : List TmpQInfo}
  {ids : List UInt32}

/-! ## What the directory gives -/

/-- The queues that have a host server. -/
def hosted (queues : List (TmpQInfo × HostReply)) : List (TmpQInfo × UInt32) :=
  queues.filterMap fun x ↦
    match x.2 with
    | .server id => some (x.1, id)
    | _ => none

/-- One more file server, if it is a new one. -/
def meet (ids : List UInt32) (id : UInt32) : List UInt32 := if id ∈ ids then ids else ids ++ [id]

/-- The file servers of the queues of a port, in the order in which they are met. -/
def Directory.servers (d : Directory) (i : Nat) : List UInt32 :=
  ((hosted (d.queues i)).map (·.2)).foldl meet []

/-- The one that the directory is read from. -/
def Directory.attachedServer (d : Directory) (i : Nat) : Option UInt32 :=
  ((d.servers i).filter fun id ↦ d.address id = some d.attachedAddress).getLast?

/-- What a PCB holds of a queue. -/
def Directory.queueId (d : Directory) (i : Nat) (x : TmpQInfo × UInt32) : List UInt8 :=
  nset32 (if some x.2 = d.attachedServer i then x.1.queueID else x.1.queueName)

/-- The queues of each server that is not attached come one after another, and all queues of the
attached one can be attached. -/
structure Directory.Listable (d : Directory) (i : Nat) : Prop where
  contiguous : Contiguous
    (((hosted (d.queues i)).map (·.2)).filter fun id ↦ some id ≠ d.attachedServer i)
  attaches : ∀ n < ((hosted (d.queues i)).filter fun x ↦ some x.2 = d.attachedServer i).length,
    d.attachQueue i n = true

/-! ## The property -/

/-- The file server of a PCB. -/
def NdsTables.server (r : NdsTables) (i : Nat) (b : UInt8) : Option UInt32 :=
  (r.tables.pcb i b.toNat).pFSInfo.bind fun k ↦ r.fileServers[k]?.map (·.fileServerID)

/-- `xs` and `ys` are the free and the active list of a port: its PCBs are in one of them each,
there is one for each file server with a queue, the active ones are those of the attached server,
and each has the queues of its server. -/
structure CompleteLists (d : Directory) (r : NdsTables) (i : Nat) (xs ys : List UInt8) : Prop where
  free : Linked (r.tables.link i) nullByte (r.tables.freePort i) xs
  act : Linked (r.tables.link i) nullByte (r.tables.actPort i) ys
  nodup : (xs ++ ys).Nodup
  all : ∀ b : UInt8, b ∈ xs ++ ys ↔ b.toNat < r.pcbCount i
  owned : ∀ b ∈ xs ++ ys, ∃ x ∈ hosted (d.queues i), r.server i b = some x.2
  owns : ∀ x ∈ hosted (d.queues i), ∃ b ∈ xs ++ ys, r.server i b = some x.2
  one : ∀ b ∈ xs ++ ys, ∀ c ∈ xs ++ ys, r.server i b = r.server i c → b = c
  attached : ∀ b ∈ xs ++ ys, b ∈ ys ↔ r.server i b = d.attachedServer i
  queues : ∀ b ∈ xs ++ ys, ∀ id, r.server i b = some id →
    (r.tables.pcb i b.toNat).queueIDs =
      ((hosted (d.queues i)).filter (·.2 = id)).map (d.queueId i)

def Complete (d : Directory) (r : NdsTables) (i : Nat) : Prop :=
  ∃ xs ys, CompleteLists d r i xs ys

/-! ## The host servers -/

def serverIDs (fs : List TmpFSInfo) : List UInt32 := fs.map (·.fileServerID)

/-- The number of a file server. -/
def fsNumber (ids : List UInt32) (id : UInt32) : UInt8 := UInt8.ofNat (ids.idxOf id)

/-- A queue with the number of its file server. -/
def numbered (ids : List UInt32) (x : TmpQInfo × UInt32) : TmpQInfo :=
  { x.1 with fsIndex := fsNumber ids x.2 }

theorem findIdx_serverIDs (fs : List TmpFSInfo) (id : UInt32) :
    fs.findIdx (·.fileServerID == id) = (serverIDs fs).idxOf id := by
  rw [serverIDs, List.idxOf, List.findIdx_map]
  rfl

/-- A file server is numbered; a new one is put behind the others. -/
theorem addFileServer_spec (hsame : ∀ f ∈ fs, f.prePrnNO = UInt8.ofNat i)
    (hlen : fs.length < maxNdsFS) :
    (addFileServer i id fs).1 = fsNumber (serverIDs fs) id ∧
      serverIDs (addFileServer i id fs).2.1 = meet (serverIDs fs) id ∧
      (addFileServer i id fs).2.2 = decide (id ∉ serverIDs fs) ∧
      ∀ f ∈ (addFileServer i id fs).2.1, f.prePrnNO = UInt8.ofNat i := by
  have hk := findIdx_serverIDs fs id
  have hle : (serverIDs fs).idxOf id ≤ fs.length :=
    List.idxOf_le_length.trans (by rw [serverIDs, List.length_map])
  unfold addFileServer meet
  rw [hk, if_pos (by omega)]
  by_cases hmem : id ∈ serverIDs fs
  · have hlt : (serverIDs fs).idxOf id < fs.length := by
      have hlt := List.idxOf_lt_length_iff.mpr hmem
      rwa [serverIDs, List.length_map] at hlt
    have hget : fs[(serverIDs fs).idxOf id]? = some fs[(serverIDs fs).idxOf id] :=
      List.getElem?_eq_getElem hlt
    have hold : fs[(serverIDs fs).idxOf id].fileServerID = id := by
      have hidx := List.getElem_idxOf (List.idxOf_lt_length_iff.mpr hmem)
      simpa only [serverIDs, List.getElem_map] using hidx
    have hpre := hsame _ (List.getElem_mem hlt)
    rw [hget, if_pos hmem]
    refine ⟨rfl, ?_, ?_, ?_⟩
    · dsimp only
      have hset := List.set_getElem_self (List.idxOf_lt_length_iff.mpr hmem)
      rw [List.getElem_idxOf] at hset
      rw [serverIDs, List.map_set]
      exact hset
    · dsimp only
      rw [hpre]
      simp [hmem]
    · intro f hf
      rcases List.mem_or_eq_of_mem_set hf with hf | rfl
      · exact hsame f hf
      · rfl
  · have hidx : (serverIDs fs).idxOf id = fs.length := by
      rw [List.idxOf_eq_length hmem, serverIDs, List.length_map]
    rw [hidx, List.getElem?_eq_none (Nat.le_refl _), if_neg hmem]
    refine ⟨by rw [fsNumber, hidx], ?_, by simp [hmem], ?_⟩
    · rw [serverIDs, List.map_append]
      rfl
    · intro f hf
      rcases List.mem_append.mp hf with hf | hf
      · exact hsame f hf
      · rw [List.mem_singleton.mp hf]

theorem prefix_meet (ids : List UInt32) (id : UInt32) : ids <+: meet ids id := by
  unfold meet
  split
  · exact List.prefix_rfl
  · exact List.prefix_append _ _

theorem mem_meet : id ∈ meet ids id := by
  unfold meet
  split
  · assumption
  · exact List.mem_append_right _ (List.mem_singleton_self id)

theorem nodup_meet (h : ids.Nodup) : (meet ids id).Nodup := by
  unfold meet
  split
  · exact h
  · rename_i hmem
    exact List.nodup_append.mpr ⟨h, List.nodup_singleton id, fun a ha b hb ↦ by
      rintro rfl
      exact hmem (List.mem_singleton.mp hb ▸ ha)⟩

theorem prefix_foldl_meet (ids l : List UInt32) : ids <+: l.foldl meet ids := by
  induction l generalizing ids with
  | nil => exact List.prefix_rfl
  | cons id l ih => exact (prefix_meet ids id).trans (ih _)

theorem nodup_foldl_meet (h : ids.Nodup) (l : List UInt32) : (l.foldl meet ids).Nodup := by
  induction l generalizing ids with
  | nil => exact h
  | cons id l ih => exact ih (nodup_meet h)

theorem mem_foldl_meet {l : List UInt32} (h : id ∈ l) : id ∈ l.foldl meet ids := by
  induction l generalizing ids with
  | nil => cases h
  | cons x l ih =>
      rcases List.mem_cons.mp h with rfl | h
      · exact (prefix_foldl_meet _ l).subset mem_meet
      · exact ih h

/-- The number of a server stays when others are put behind it. -/
theorem fsNumber_grown {ids ids' : List UInt32} (h : ids <+: ids') (hid : id ∈ ids) :
    fsNumber ids' id = fsNumber ids id := by
  obtain ⟨l, rfl⟩ := h
  rw [fsNumber, List.idxOf_append_of_mem hid, fsNumber]

theorem fsNumber_meet (ids : List UInt32) (id : UInt32) :
    fsNumber (meet ids id) id = fsNumber ids id := by
  unfold meet
  split
  · rfl
  · rename_i h
    rw [fsNumber, List.idxOf_append_of_notMem h, List.idxOf_cons_self, fsNumber,
      List.idxOf_eq_length h, Nat.add_zero]

theorem length_serverIDs (fs : List TmpFSInfo) : (serverIDs fs).length = fs.length :=
  List.length_map _

theorem length_meet (ids : List UInt32) (id : UInt32) :
    (meet ids id).length = ids.length + if id ∈ ids then 0 else 1 := by
  unfold meet
  split
  · rfl
  · rw [List.length_append, List.length_singleton]

/-- The queues with a host server are kept, with the numbers of their servers. -/
theorem readHosts_spec (hsame : ∀ f ∈ fs, f.prePrnNO = UInt8.ofNat i)
    (hlen : fs.length + queues.length ≤ maxNdsFS)
    (h : readHosts i queues fs n = some (qs, fs', count)) :
    serverIDs fs' = ((hosted queues).map (·.2)).foldl meet (serverIDs fs) ∧
      qs = (hosted queues).map (numbered (serverIDs fs')) ∧
      count + fs.length = n + fs'.length := by
  induction queues generalizing fs n qs count with
  | nil =>
      obtain ⟨rfl, rfl, rfl⟩ : qs = [] ∧ fs = fs' ∧ n = count := by
        simpa [readHosts, eq_comm] using h
      exact ⟨rfl, rfl, rfl⟩
  | cons x queues ih =>
      obtain ⟨q, reply⟩ := x
      rw [List.length_cons] at hlen
      cases reply with
      | noHost => exact ih hsame (by omega) h
      | failed => cases h
      | server id =>
          obtain ⟨hk, hids, hmore, hsame'⟩ := @addFileServer_spec i id fs hsame (by omega)
          rw [readHosts] at h
          generalize addFileServer i id fs = added at h hk hids hmore hsame'
          obtain ⟨k, fs₁, more⟩ := added
          dsimp only at h hk hids hmore hsame'
          obtain ⟨⟨qs₁, fs₂, m⟩, hrest, heq⟩ := Option.map_eq_some_iff.mp h
          cases heq
          have hlength := congrArg List.length hids
          rw [length_meet, length_serverIDs, length_serverIDs] at hlength
          have hle : fs₁.length ≤ fs.length + 1 := by
            rw [hlength]
            split
            · omega
            · exact Nat.le_refl _
          obtain ⟨hservers, rfl, hcount⟩ := ih hsame' (by omega) hrest
          rw [hids] at hservers
          refine ⟨hservers, ?_, ?_⟩
          · have hprefix := prefix_foldl_meet (meet (serverIDs fs) id) ((hosted queues).map (·.2))
            rw [← hservers] at hprefix
            have hnumber : k = fsNumber (serverIDs fs') id :=
              (hk.trans (fsNumber_meet _ _).symm).trans (fsNumber_grown hprefix mem_meet).symm
            rw [hnumber]
            rfl
          · rw [hmore] at hcount
            by_cases hin : id ∈ serverIDs fs
            · simp only [hin, not_true_eq_false, decide_false, Bool.false_eq_true,
                if_false] at hcount
              rw [if_pos hin] at hlength
              omega
            · simp only [hin, not_false_eq_true, decide_true, if_true] at hcount
              rw [if_neg hin] at hlength
              omega

/-! ## The attached server -/

/-- Whether a file server has the address that the directory is read from. -/
def IsAttached (d : Directory) (id : UInt32) : Prop := d.address id = some d.attachedAddress

instance (d : Directory) (id : UInt32) : Decidable (IsAttached d id) :=
  inferInstanceAs (Decidable (_ = _))

/-- `ActiveFSIndex` is the number of the last file server with the attached address. -/
theorem readAddresses_spec {t t' : Tables} {a a' : UInt8}
    (h : readAddresses d.attachedAddress d.address fs n t a = some (t', a')) :
    SamePorts t t' ∧
      a' = (((serverIDs fs).zipIdx n).filter fun x ↦ IsAttached d x.1).foldl
        (fun _ x ↦ UInt8.ofNat x.2) a := by
  induction fs generalizing n t a with
  | nil => cases h; exact ⟨⟨rfl, rfl, rfl, rfl⟩, rfl⟩
  | cons f fs ih =>
      rw [readAddresses] at h
      cases haddress : d.address f.fileServerID with
      | none => rw [haddress] at h; cases h
      | some p =>
          rw [haddress] at h
          dsimp only at h
          have hcons : (serverIDs (f :: fs)).zipIdx n =
              (f.fileServerID, n) :: (serverIDs fs).zipIdx (n + 1) := List.zipIdx_cons
          by_cases hp : p = d.attachedAddress
          · rw [if_pos hp] at h
            obtain ⟨hports, ha⟩ := ih h
            have hatt : IsAttached d f.fileServerID := haddress.trans (congrArg some hp)
            refine ⟨hports, ?_⟩
            rw [hcons, List.filter_cons_of_pos (by simpa using hatt), List.foldl_cons]
            exact ha
          · rw [if_neg hp] at h
            obtain ⟨hports, ha⟩ := ih h
            have hatt : ¬ IsAttached d f.fileServerID := fun heq ↦
              hp (Option.some.inj (haddress.symm.trans heq))
            refine ⟨⟨hports.pcb, hports.freePort, hports.actPort, hports.curPort⟩, ?_⟩
            rw [hcons, List.filter_cons_of_neg (by simpa using hatt)]
            exact ha

theorem foldl_last {α β : Type*} (f : α → β) (b : β) (l : List α) :
    l.foldl (fun _ x ↦ f x) b = (l.getLast?.map f).getD b := by
  rcases List.eq_nil_or_concat' l with rfl | ⟨l, x, rfl⟩
  · rfl
  · rw [List.foldl_append, List.getLast?_concat]
    rfl

/-- The number of a file server is `ActiveFSIndex` if it is the attached one. -/
theorem fsNumber_eq_iff (hnodup : ids.Nodup) (hlen : ids.length ≤ maxNdsFS) (hid : id ∈ ids) :
    fsNumber ids id = ((ids.zipIdx 0).filter fun x ↦ IsAttached d x.1).foldl
        (fun _ x ↦ UInt8.ofNat x.2) nullByte ↔
      some id = (ids.filter fun id ↦ d.address id = some d.attachedAddress).getLast? := by
  have hnumber : (fsNumber ids id).toNat = ids.idxOf id := by
    have hlt := List.idxOf_lt_length_iff.mpr hid
    exact UInt8.toNat_ofNat_of_lt' (hlt.trans_le (hlen.trans (by decide)))
  have hfilter : ids.filter (fun id ↦ d.address id = some d.attachedAddress) =
      ((ids.zipIdx 0).filter fun x ↦ IsAttached d x.1).map (·.1) := by
    conv_lhs => rw [← List.zipIdx_map_fst 0 ids, List.filter_map]
    rfl
  rw [hfilter, List.getLast?_map, foldl_last]
  cases hlast : ((ids.zipIdx 0).filter fun x ↦ IsAttached d x.1).getLast? with
  | none =>
      refine iff_of_false (fun heq ↦ ?_) (by simp)
      have hnull := congrArg UInt8.toNat heq
      rw [hnumber] at hnull
      have hlt := List.idxOf_lt_length_iff.mpr hid
      have h255 : ids.idxOf id = 255 := hnull
      have h32 : ids.length ≤ 32 := hlen
      omega
  | some x =>
      obtain ⟨id', j⟩ := x
      have hmem := List.mem_of_mem_filter (List.mem_of_getLast? hlast)
      have hget : ids[j]? = some id' := List.mk_mem_zipIdx_iff_getElem?.mp hmem
      obtain ⟨hj, rfl⟩ := List.getElem?_eq_some_iff.mp hget
      have hjnat : (UInt8.ofNat j).toNat = j :=
        UInt8.toNat_ofNat_of_lt' (hj.trans_le (hlen.trans (by decide)))
      dsimp only [Option.map_some, Option.getD_some]
      rw [← UInt8.toNat_inj, hnumber, hjnat, Option.some_inj]
      constructor
      · rintro rfl
        exact (List.getElem_idxOf hj).symm
      · rintro rfl
        exact hnodup.idxOf_getElem j hj

/-! ## How many PCBs there are -/

theorem unmet_congr {α : Type*} [DecidableEq α] {met met' l : List α}
    (h : ∀ x, x ∈ met ↔ x ∈ met') : unmet met l = unmet met' l := by
  induction l generalizing met met' with
  | nil => rfl
  | cons x l ih =>
      have hnext (y : α) : y ∈ met ++ [x] ↔ y ∈ met' ++ [x] := by
        rw [List.mem_append, List.mem_append, h]
      rw [unmet, unmet, ih hnext]
      simp only [h]

theorem length_foldl_meet (l : List UInt32) :
    (l.foldl meet ids).length = ids.length + unmet ids l := by
  induction l generalizing ids with
  | nil => rfl
  | cons id l ih =>
      have hmet (x : UInt32) : x ∈ meet ids id ↔ x ∈ ids ++ [id] := by
        unfold meet
        split
        · rename_i h
          rw [List.mem_append, List.mem_singleton]
          exact ⟨.inl, fun hx ↦ hx.elim (fun hx ↦ hx) fun hx ↦ hx ▸ h⟩
        · rfl
      rw [List.foldl_cons, ih, length_meet, unmet, unmet_congr hmet]
      omega

theorem unmet_map {α β : Type*} [DecidableEq α] [DecidableEq β] {f : α → β} {met l : List α}
    (hf : ∀ x ∈ met ++ l, ∀ y ∈ met ++ l, f x = f y → x = y) :
    unmet (met.map f) (l.map f) = unmet met l := by
  induction l generalizing met with
  | nil => rfl
  | cons x l ih =>
      have hmem : f x ∈ met.map f ↔ x ∈ met := by
        constructor
        · intro h
          obtain ⟨y, hy, heq⟩ := List.mem_map.mp h
          exact hf y (by simp [hy]) x (by simp) heq ▸ hy
        · exact List.mem_map_of_mem
      have hnext := @ih (met ++ [x]) (by rwa [List.append_assoc])
      rw [List.map_append] at hnext
      rw [List.map_cons, unmet, unmet]
      exact congrArg₂ (· + ·) (by simp only [hmem]) hnext

theorem unmet_le {α : Type*} [DecidableEq α] (met l : List α) : unmet met l ≤ l.length := by
  induction l generalizing met with
  | nil => exact Nat.le_refl 0
  | cons x l ih =>
      have hrest := ih (met ++ [x])
      rw [unmet, List.length_cons]
      split
      · omega
      · omega

theorem toNat_fsNumber (hlen : ids.length ≤ maxNdsFS) (hid : id ∈ ids) :
    (fsNumber ids id).toNat = ids.idxOf id :=
  UInt8.toNat_ofNat_of_lt'
    ((List.idxOf_lt_length_iff.mpr hid).trans_le (hlen.trans (by decide)))

/-- Different servers have different numbers. -/
theorem fsNumber_inj {id' : UInt32} (hlen : ids.length ≤ maxNdsFS) (hid : id ∈ ids)
    (hid' : id' ∈ ids) (h : fsNumber ids id = fsNumber ids id') : id = id' := by
  have hidx : ids.idxOf id = ids.idxOf id' := by
    rw [← toNat_fsNumber hlen hid, ← toNat_fsNumber hlen hid', h]
  exact (List.idxOf_inj hid).mp hidx

/-! ## `NDSAttachQueueServer` -/

variable {x : PortPCB} {attached : Nat → Bool}

/-- The loop of `NDSAttachQueueServer`. -/
def attachQueues (attached : Nat → Bool) (turns n k : Nat) (x : PortPCB) : PortPCB :=
  x.keepQueues (fun n id ↦ if attached n then some id else none) turns n k

theorem attachQueues_succ (turns n k : Nat) (x : PortPCB) :
    attachQueues attached (turns + 1) n k x =
      if attached n then attachQueues attached turns (n + 1) (k + 1) x
      else attachQueues attached turns (n + 1) k (x.dropQueue k) := by
  rw [attachQueues, PortPCB.keepQueues]
  cases attached n with
  | false => rfl
  | true =>
      simp only [if_true, Function.update_eq_self]
      rfl

/-- With every queue attached, nothing changes. -/
theorem attachQueues_all {turns k : Nat} (h : ∀ m < turns, attached (n + m) = true) :
    attachQueues attached turns n k x = x := by
  induction turns generalizing n k with
  | zero => rfl
  | succ turns ih =>
      have hn : attached n = true := h 0 (Nat.succ_pos turns)
      rw [attachQueues_succ, if_pos hn]
      apply ih
      intro m hm
      rw [Nat.add_assoc, Nat.add_comm 1 m]
      exact h (m + 1) (Nat.succ_lt_succ hm)

theorem totalQueue_dropQueue {k : Nat} (h : 0 < x.totalQueue.toNat) :
    (x.dropQueue k).totalQueue.toNat = x.totalQueue.toNat - 1 := by
  change (x.totalQueue - 1).toNat = _
  exact UInt8.toNat_sub_of_le _ _ (UInt8.le_iff_toNat_le.mpr h)

/-- A queue that is not attached is removed. -/
theorem totalQueue_attachQueues {attached : Nat → Bool} {turns n k : Nat}
    (hturns : turns ≤ x.totalQueue.toNat) :
    (attachQueues attached turns n k x).totalQueue.toNat +
      ((List.range' n turns).filter fun m ↦ ¬ attached m).length = x.totalQueue.toNat := by
  induction turns generalizing n k x with
  | zero => rfl
  | succ turns ih =>
      rw [attachQueues_succ, List.range'_succ]
      cases hn : attached n with
      | true =>
          rw [if_pos rfl, List.filter_cons_of_neg (by simp [hn])]
          exact ih (by omega)
      | false =>
          rw [if_neg Bool.false_ne_true, List.filter_cons_of_pos (by simp [hn]), List.length_cons]
          have hdrop := totalQueue_dropQueue (x := x) (k := k) (by omega)
          have hrest := ih (n := n + 1) (k := k) (x := x.dropQueue k) (by omega)
          omega

theorem link_attachQueues (attached : Nat → Bool) (turns n k : Nat) (x : PortPCB) :
    (attachQueues attached turns n k x).nextPortPCB = x.nextPortPCB ∧
      (attachQueues attached turns n k x).pFSInfo = x.pFSInfo := by
  induction turns generalizing n k x with
  | zero => exact ⟨rfl, rfl⟩
  | succ turns ih =>
      rw [attachQueues_succ]
      split
      · exact ih _ _ x
      · exact ih _ _ (x.dropQueue k)

theorem attachQueueServer_eq (attached : Nat → Bool) (x : PortPCB) :
    x.attachQueueServer attached = attachQueues attached x.totalQueue.toNat 0 0 x := rfl

/-- The queues of a PCB stay if and only if all are attached. -/
theorem length_attachQueueServer :
    (x.attachQueueServer attached).queueIDs.length = x.queueIDs.length ↔
      ∀ m < x.queueIDs.length, attached m = true := by
  have htotal := @totalQueue_attachQueues x attached _ 0 0 (Nat.le_refl x.totalQueue.toNat)
  rw [attachQueueServer_eq, length_queueIDs, length_queueIDs]
  constructor
  · intro h m hm
    have hnil : (List.range' 0 x.totalQueue.toNat).filter (fun m ↦ ¬ attached m) = [] :=
      List.eq_nil_of_length_eq_zero (by omega)
    have hat := List.filter_eq_nil_iff.mp hnil m (by simpa using hm)
    simpa using hat
  · intro h
    rw [attachQueues_all]
    intro m hm
    rw [Nat.zero_add]
    exact h m hm

/-! ## `NDSGetPrinterQueue` -/

/-- The active PCB of a port is attached. -/
def attachFirst (d : Directory) (i : Nat) (t : Tables) : Tables :=
  let b := t.actPort i
  if b = nullByte then t
  else t.setPCB i b ((t.pcb i b.toNat).attachQueueServer (d.attachQueue i))

theorem ndsGetPrinterQueue_cases (h : ndsGetPrinterQueue d = some r) :
    ∃ t next, readHosts 0 (d.queues 0) [] 0 = some (r.queues 0, r.fileServers, r.pcbCount 0) ∧
      readAddresses d.attachedAddress d.address r.fileServers 0 ndsInit nullByte =
        some (t, r.activeFSIndex) ∧
      r.tables =
        if r.activeFSIndex = nullByte then
          buildPCBs 0 r.activeFSIndex (r.queues 0) (r.pcbCount 0) t
        else attachFirst d 0
          { buildPCBs 0 r.activeFSIndex (r.queues 0) (r.pcbCount 0) t with
            nextFSInfo := next } := by
  have hrange : List.range numOfPrnPort = [0] := rfl
  rw [ndsGetPrinterQueue, hrange, readAllHosts] at h
  dsimp only at h
  cases hread : readHosts 0 (d.queues 0) [] 0 with
  | none => rw [hread] at h; cases h
  | some x =>
      obtain ⟨qs, fs, count⟩ := x
      rw [hread] at h
      simp only [readAllHosts, Option.bind_eq_bind, Option.bind_some] at h
      split at h
      · cases h
      · cases haddr : readAddresses d.attachedAddress d.address fs 0 ndsInit nullByte with
        | none => rw [haddr] at h; cases h
        | some y =>
            obtain ⟨t, active⟩ := y
            rw [haddr] at h
            simp only [Option.bind_some, List.foldl_cons, List.foldl_nil,
              Function.update_self] at h
            split at h
            · rename_i hnull
              cases h
              refine ⟨t, fun _ ↦ 0, rfl, haddr, ?_⟩
              rw [if_pos hnull]
              rfl
            · rename_i hnull
              cases h
              refine ⟨t, Function.update (buildPCBs 0 active qs count t).nextFSInfo active.toNat
                nullByte, rfl, haddr, ?_⟩
              rw [if_neg hnull]
              rfl

/-- What the tables have when the lists are built, and the active PCB is attached. -/
structure Attached (d : Directory) (i : Nat) (active : UInt8) (t t' : Tables) : Prop where
  link : t'.link i = t.link i
  freePort : t'.freePort i = t.freePort i
  actPort : t'.actPort i = t.actPort i
  pFSInfo : ∀ b : UInt8, (t'.pcb i b.toNat).pFSInfo = (t.pcb i b.toNat).pFSInfo
  queueIDs : ∀ b : UInt8, (t'.pcb i b.toNat).queueIDs =
    if active ≠ nullByte ∧ b = t.actPort i ∧ b ≠ nullByte
    then ((t.pcb i b.toNat).attachQueueServer (d.attachQueue i)).queueIDs
    else (t.pcb i b.toNat).queueIDs

theorem attached_attachFirst {t : Tables} (hactive : active ≠ nullByte) :
    Attached d i active t (attachFirst d i t) := by
  unfold attachFirst
  dsimp only
  by_cases hb : t.actPort i = nullByte
  · rw [if_pos hb]
    refine ⟨rfl, rfl, rfl, fun _ ↦ rfl, fun b ↦ ?_⟩
    rw [if_neg]
    rintro ⟨-, rfl, hne⟩
    exact hne hb
  · rw [if_neg hb]
    have hkept := link_attachQueues (d.attachQueue i)
      (t.pcb i (t.actPort i).toNat).totalQueue.toNat 0 0 (t.pcb i (t.actPort i).toNat)
    refine ⟨Tables.link_setPCB hkept.1, rfl, rfl, (SameServers.setPCB hkept.2).pFSInfo, fun b ↦ ?_⟩
    by_cases hbh : b = t.actPort i
    · rw [hbh, Tables.pcb_setPCB_self, if_pos ⟨hactive, rfl, hb⟩]
    · rw [Tables.pcb_setPCB_of_ne _ hbh, if_neg fun h ↦ hbh h.2.1]

theorem attached_refl {t : Tables} (hactive : active = nullByte) : Attached d i active t t :=
  ⟨rfl, rfl, rfl, fun _ ↦ rfl, fun _ ↦ (if_neg fun h ↦ h.1 hactive).symm⟩

/-- The loop that builds the PCBs. -/
def built (active : UInt8) (qs : List TmpQInfo) (count : Nat) (t : Tables) : Building :=
  qs.foldl (fun s q ↦ s.insertQueue 0 active q) ⟨t, count, fun _ ↦ 0⟩

theorem attached_built {t : Tables} {next : Nat → UInt8} (hnil : count = 0 → qs = []) :
    Attached d 0 active (built active qs count t).tables
      (if active = nullByte then buildPCBs 0 active qs count t
        else attachFirst d 0 { buildPCBs 0 active qs count t with nextFSInfo := next }) := by
  have hbuild : (buildPCBs 0 active qs count t).pcb = (built active qs count t).tables.pcb ∧
      (buildPCBs 0 active qs count t).freePort = (built active qs count t).tables.freePort ∧
      (buildPCBs 0 active qs count t).actPort = (built active qs count t).tables.actPort := by
    unfold buildPCBs
    by_cases hcount : count = 0
    · rw [if_pos hcount, hnil hcount]
      exact ⟨rfl, rfl, rfl⟩
    · rw [if_neg hcount]
      exact ⟨rfl, rfl, rfl⟩
  generalize buildPCBs 0 active qs count t = t' at hbuild ⊢
  obtain ⟨hpcb, hfree, hact⟩ := hbuild
  obtain ⟨pcb, freePort, actPort, curPort, nextFSInfo, noActiveFSInfo⟩ := t'
  dsimp only at hpcb hfree hact
  subst hpcb hfree hact
  by_cases hactive : active = nullByte
  · rw [if_pos hactive]
    obtain ⟨hlink, hf, ha, hfs, hq⟩ := @attached_refl 0 active d (built active qs count t).tables
      hactive
    exact ⟨hlink, hf, ha, hfs, hq⟩
  · rw [if_neg hactive]
    have hatt := @attached_attachFirst 0 active d
      ⟨(built active qs count t).tables.pcb, (built active qs count t).tables.freePort,
        (built active qs count t).tables.actPort, curPort, next, noActiveFSInfo⟩ hactive
    exact ⟨hatt.link, hatt.freePort, hatt.actPort, hatt.pFSInfo, hatt.queueIDs⟩

/-- The queues of a port, with the numbers of their file servers. -/
def Directory.numbered (d : Directory) (i : Nat) : List TmpQInfo :=
  (hosted (d.queues i)).map (PrintServer.Novell.numbered (d.servers i))

/-- What `NDSGetPrinterQueue` makes of a directory; `s` is where the PCBs are built. -/
structure Outcome (d : Directory) (r : NdsTables) (s : Building) : Prop where
  ids : serverIDs r.fileServers = d.servers 0
  few : (d.servers 0).length ≤ maxNdsFS
  count : r.pcbCount 0 = (d.servers 0).length
  active : ∀ id ∈ d.servers 0,
    fsNumber (d.servers 0) id = r.activeFSIndex ↔ some id = d.attachedServer 0
  attached : Attached d 0 r.activeFSIndex s.tables r.tables
  allBuilt : s.pcbCount = 0
  run : (Contiguous (unattached r.activeFSIndex (d.numbered 0)) ∧
      ∃ xs ys, Listed s 0 r.activeFSIndex (d.servers 0).length (d.numbered 0) xs ys) ∨
    (¬ Contiguous (unattached r.activeFSIndex (d.numbered 0)) ∧
      ∃ b xs ys, Lost s 0 (d.servers 0).length b xs ys)

theorem mem_servers {x : TmpQInfo × UInt32} (hx : x ∈ hosted (d.queues i)) :
    x.2 ∈ d.servers i :=
  mem_foldl_meet (List.mem_map_of_mem hx)

theorem outcome (h : ndsGetPrinterQueue d = some r) (hlen : (d.queues 0).length ≤ maxQueue) :
    ∃ s, Outcome d r s := by
  obtain ⟨t, next, hread, haddr, htables⟩ := ndsGetPrinterQueue_cases h
  have hmax : maxQueue ≤ maxNdsFS := by decide
  obtain ⟨hids, hqs, hcount⟩ := readHosts_spec
    (fun f hf ↦ absurd hf List.not_mem_nil)
    (by rw [List.length_nil, Nat.zero_add]; exact hlen.trans hmax) hread
  have hservers : serverIDs r.fileServers = d.servers 0 := hids
  have hhosted : (hosted (d.queues 0)).length ≤ maxQueue :=
    (List.length_filterMap_le _ _).trans hlen
  have hunmet : (d.servers 0).length = unmet [] ((hosted (d.queues 0)).map (·.2)) := by
    rw [Directory.servers, length_foldl_meet, List.length_nil, Nat.zero_add]
  have hfew : (d.servers 0).length ≤ maxQueue := by
    rw [hunmet]
    exact (unmet_le _ _).trans (by rwa [List.length_map])
  have hcount' : r.pcbCount 0 = (d.servers 0).length := by
    rw [← hservers, length_serverIDs]
    simpa using hcount
  have hqs' : r.queues 0 = d.numbered 0 := by rw [hqs, hservers, Directory.numbered]
  have hnodup : (d.servers 0).Nodup := nodup_foldl_meet List.nodup_nil _
  obtain ⟨hports, hactive⟩ := readAddresses_spec haddr
  have hnone : r.pcbCount 0 = 0 → r.queues 0 = [] := by
    intro hzero
    rw [hqs', Directory.numbered, List.map_eq_nil_iff]
    apply List.eq_nil_iff_forall_not_mem.mpr
    intro x hx
    have hpos := List.length_pos_of_mem (mem_servers hx)
    omega
  have hfs : fsIndices (d.numbered 0) =
      ((hosted (d.queues 0)).map (·.2)).map (fsNumber (d.servers 0)) := by
    rw [fsIndices, Directory.numbered, List.map_map, List.map_map]
    rfl
  -- a number is a place among at most sixteen servers, so never `NULL_BYTE`
  have hnull (q : TmpQInfo) (hq : q ∈ d.numbered 0) : q.fsIndex ≠ nullByte := by
    obtain ⟨x, hx, rfl⟩ := List.mem_map.mp hq
    intro heq
    have hlt := List.idxOf_lt_length_iff.mpr (mem_servers hx)
    have hsmall : (d.servers 0).idxOf x.2 < 16 := hlt.trans_le hfew
    have hnat := congrArg UInt8.toNat heq
    have hidx : (fsNumber (d.servers 0) x.2).toNat = (d.servers 0).idxOf x.2 :=
      UInt8.toNat_ofNat_of_lt' (hsmall.trans (by decide))
    have h255 : (fsNumber (d.servers 0) x.2).toNat = 255 := hnat
    omega
  -- in front of the loop no block is in use
  have hlisted : Listed ⟨t, r.pcbCount 0, fun _ ↦ 0⟩ 0 r.activeFSIndex (d.servers 0).length []
      [] [] := by
    have hheads : t.freePort 0 = nullByte ∧ t.actPort 0 = nullByte := by
      rw [hports.freePort, hports.actPort]
      exact ⟨rfl, rfl⟩
    refine ⟨hheads.1, hheads.2, List.nodup_nil, fun b ↦ ?_, hcount'.le, fun b _ ↦ ?_, ?_, ?_,
      ?_, ?_, ?_, ?_⟩
    · dsimp only
      refine iff_of_false List.not_mem_nil ?_
      omega
    · rw [hports.pcb]
      rfl
    · exact fun b hb ↦ absurd hb List.not_mem_nil
    · exact fun k hk ↦ absurd hk List.not_mem_nil
    · exact fun b hb ↦ absurd hb List.not_mem_nil
    · exact fun b hb ↦ absurd hb List.not_mem_nil
    · exact fun b hb ↦ absurd hb List.not_mem_nil
    · intro k hk
      cases hk
  have htallied : Tallied ⟨t, r.pcbCount 0, fun _ ↦ 0⟩ [] (d.numbered 0) := by
    refine ⟨fun k ↦ rfl, ?_⟩
    dsimp only
    rw [hcount', hunmet, hfs]
    refine (@unmet_map _ _ _ _ _ [] _ fun x hx y hy heq ↦ ?_).symm
    have hmem {z : UInt32} (hz : z ∈ (hosted (d.queues 0)).map (·.2)) : z ∈ d.servers 0 :=
      mem_foldl_meet hz
    exact fsNumber_inj (hfew.trans hmax) (hmem hx) (hmem hy) heq
  have hshort : ([] ++ d.numbered 0).length < 256 := by
    rw [List.nil_append, Directory.numbered, List.length_map]
    exact hhosted.trans_lt (by decide)
  -- all turns of the loop from there
  have hrun := hlisted.run (hfew.trans_lt (by decide)) htallied hnull hshort
  refine ⟨built r.activeFSIndex (r.queues 0) (r.pcbCount 0) t, ⟨hservers, hfew.trans hmax, hcount',
    ?_, ?_, ?_, ?_⟩⟩
  · intro id hid
    rw [hservers] at hactive
    rw [hactive]
    exact fsNumber_eq_iff hnodup (hfew.trans hmax) hid
  · rw [htables]
    exact attached_built hnone
  · rw [hqs']
    exact htallied.run hnull hshort.le
  · have hnil : Contiguous (unattached r.activeFSIndex []) := Contiguous.nil
    rw [turnsOk_iff hnil, List.nil_append] at hrun
    rw [hqs']
    exact hrun

/-! ## Completeness -/

section Outcome

variable {s : Building} {b : UInt8} {xs ys : List UInt8}

/-- The file server of a PCB, by its number and by its ID. -/
theorem Outcome.server_iff (o : Outcome d r s) (hid : id ∈ d.servers 0) :
    r.server 0 b = some id ↔ s.owner 0 b = some (fsNumber (d.servers 0) id).toNat := by
  have hnodup : (d.servers 0).Nodup := nodup_foldl_meet List.nodup_nil _
  have hget (k : Nat) : r.fileServers[k]?.map (·.fileServerID) = (d.servers 0)[k]? := by
    rw [← o.ids, serverIDs, List.getElem?_map]
  rw [NdsTables.server, o.attached.pFSInfo, Option.bind_eq_some_iff, toNat_fsNumber o.few hid]
  constructor
  · rintro ⟨k, hk, hserver⟩
    rw [hget] at hserver
    obtain ⟨hlt, rfl⟩ := List.getElem?_eq_some_iff.mp hserver
    rw [hnodup.idxOf_getElem k hlt]
    exact hk
  · intro hk
    refine ⟨_, hk, ?_⟩
    rw [hget]
    exact List.getElem?_idxOf hid

theorem Outcome.contiguous_iff (o : Outcome d r s) :
    Contiguous (unattached r.activeFSIndex (d.numbered 0)) ↔
      Contiguous
        (((hosted (d.queues 0)).map (·.2)).filter fun id ↦ some id ≠ d.attachedServer 0) := by
  have hmem {id : UInt32} (h : id ∈ (hosted (d.queues 0)).map (·.2)) : id ∈ d.servers 0 :=
    mem_foldl_meet h
  have heq : unattached r.activeFSIndex (d.numbered 0) =
      (((hosted (d.queues 0)).map (·.2)).filter
        fun id ↦ some id ≠ d.attachedServer 0).map (fsNumber (d.servers 0)) := by
    have hfs : fsIndices (d.numbered 0) =
        ((hosted (d.queues 0)).map (·.2)).map (fsNumber (d.servers 0)) := by
      rw [fsIndices, Directory.numbered, List.map_map, List.map_map]
      rfl
    rw [unattached, hfs, List.filter_map]
    congr 1
    apply List.filter_congr
    intro id hid
    simp only [Function.comp_apply, ne_eq, o.active id (hmem hid)]
  rw [heq]
  apply Contiguous.map_iff
  intro x hx y hy h
  exact fsNumber_inj o.few (hmem (List.mem_of_mem_filter hx)) (hmem (List.mem_of_mem_filter hy)) h

/-- What the PCB of a file server is given of its queues. -/
theorem Outcome.queues_eq (o : Outcome d r s) (hid : id ∈ d.servers 0) :
    ((d.numbered 0).filter (·.fsIndex = fsNumber (d.servers 0) id)).map
        (queueText r.activeFSIndex) =
      ((hosted (d.queues 0)).filter (·.2 = id)).map (d.queueId 0) := by
  rw [Directory.numbered, List.filter_map, List.map_map]
  have hfilter : (hosted (d.queues 0)).filter
      ((fun q : TmpQInfo ↦ decide (q.fsIndex = fsNumber (d.servers 0) id)) ∘
        PrintServer.Novell.numbered (d.servers 0)) = (hosted (d.queues 0)).filter (·.2 = id) := by
    apply List.filter_congr
    intro x hx
    apply decide_eq_decide.mpr
    exact ⟨fsNumber_inj o.few (mem_servers hx) hid,
      fun h ↦ congrArg (fsNumber (d.servers 0)) h⟩
  rw [hfilter]
  apply List.map_congr_left
  intro x hx
  have hmem := mem_servers (List.mem_of_mem_filter hx)
  have hactive := o.active x.2 hmem
  dsimp only [Function.comp_apply, queueText, Directory.queueId, PrintServer.Novell.numbered]
  simp only [hactive]

/-- The file server of a PCB that is in a list. -/
theorem Outcome.owned (o : Outcome d r s)
    (h : Listed s 0 r.activeFSIndex (d.servers 0).length (d.numbered 0) xs ys) (hb : b ∈ xs ++ ys) :
    ∃ x ∈ hosted (d.queues 0), r.server 0 b = some x.2 := by
  obtain ⟨k, hk, howner⟩ := h.owned b hb
  obtain ⟨q, hq, rfl⟩ := List.mem_map.mp hk
  obtain ⟨x, hx, rfl⟩ := List.mem_map.mp hq
  exact ⟨x, hx, (o.server_iff (mem_servers hx)).mpr howner⟩

theorem Outcome.attached_iff (o : Outcome d r s)
    (h : Listed s 0 r.activeFSIndex (d.servers 0).length (d.numbered 0) xs ys) (hb : b ∈ xs ++ ys) :
    b ∈ ys ↔ r.server 0 b = d.attachedServer 0 := by
  obtain ⟨x, hx, hserver⟩ := o.owned h hb
  have hmem := mem_servers hx
  rw [h.attached b hb, (o.server_iff hmem).mp hserver, hserver, ← o.active x.2 hmem,
    Option.some_inj, UInt8.toNat_inj]

/-- The queues that are attached are those of the active PCB. -/
theorem Outcome.queueIDs_eq (o : Outcome d r s)
    (h : Listed s 0 r.activeFSIndex (d.servers 0).length (d.numbered 0) xs ys) (hb : b ∈ xs ++ ys) :
    (r.tables.pcb 0 b.toNat).queueIDs =
      if b ∈ ys then ((s.tables.pcb 0 b.toNat).attachQueueServer (d.attachQueue 0)).queueIDs
      else (s.tables.pcb 0 b.toNat).queueIDs := by
  have hiff : (r.activeFSIndex ≠ nullByte ∧ b = s.tables.actPort 0 ∧ b ≠ nullByte) ↔ b ∈ ys := by
    constructor
    · rintro ⟨-, hhead, hnull⟩
      have hact := h.act
      cases ys with
      | nil => exact absurd (hhead.trans hact) hnull
      | cons y ys => exact hhead.trans hact.1 ▸ List.mem_cons_self
    · intro hys
      obtain ⟨x, hx, hserver⟩ := o.owned h hb
      have hmem := mem_servers hx
      have howner := (h.attached b hb).mp hys
      have hnumber := toNat_fsNumber o.few hmem
      rw [(o.server_iff hmem).mp hserver, Option.some_inj] at howner
      refine ⟨?_, ?_, h.act.ne_nil hys⟩
      · intro hnull
        have hlt := List.idxOf_lt_length_iff.mpr hmem
        have hfew : (d.servers 0).length ≤ 32 := o.few
        have h255 : r.activeFSIndex.toNat = 255 := congrArg UInt8.toNat hnull
        omega
      · have hact := h.act
        have hone := h.one b hb
        cases ys with
        | nil => cases hys
        | cons y ys =>
            have hy : y ∈ xs ++ y :: ys := List.mem_append_right _ List.mem_cons_self
            have hyowner := (h.attached y hy).mp List.mem_cons_self
            exact (hone y hy (((h.attached b hb).mp hys).trans hyowner.symm)).trans hact.1.symm
  rw [o.attached.queueIDs]
  simp only [hiff]

/-- How many queues the active PCB has before it is attached. -/
theorem Outcome.length_active (o : Outcome d r s)
    (h : Listed s 0 r.activeFSIndex (d.servers 0).length (d.numbered 0) xs ys) (hb : b ∈ xs ++ ys)
    (hys : b ∈ ys) : (s.tables.pcb 0 b.toNat).queueIDs.length =
      ((hosted (d.queues 0)).filter fun x ↦ some x.2 = d.attachedServer 0).length := by
  obtain ⟨x, hx, hserver⟩ := o.owned h hb
  have hmem := mem_servers hx
  rw [h.queues b hb _ ((o.server_iff hmem).mp hserver), o.queues_eq hmem, List.length_map,
    ← (o.attached_iff h hb).mp hys, hserver]
  simp only [Option.some_inj]

theorem Outcome.complete_listable (o : Outcome d r s) : Complete d r 0 ↔ d.Listable 0 := by
  have hlinks := o.attached.link
  rcases o.run with ⟨hcont, xs, ys, h⟩ | ⟨hcont, b, xs, ys, h⟩
  · constructor
    · rintro ⟨xs', ys', hc⟩
      refine ⟨o.contiguous_iff.mp hcont, fun n hn ↦ ?_⟩
      obtain ⟨x, hx⟩ := List.exists_mem_of_length_pos (Nat.zero_lt_of_lt hn)
      obtain ⟨hx, hserver⟩ := List.mem_filter.mp hx
      have hfree := hc.free
      have hact := hc.act
      rw [hlinks, o.attached.freePort] at hfree
      rw [hlinks, o.attached.actPort] at hact
      obtain rfl := hfree.unique h.free
      obtain rfl := hact.unique h.act
      obtain ⟨b, hb, hbx⟩ := hc.owns x hx
      have hys : b ∈ ys' := (hc.attached b hb).mpr (hbx.trans (of_decide_eq_true hserver))
      have hqueues := congrArg List.length (hc.queues b hb _ hbx)
      have hlength := o.length_active h hb hys
      rw [o.queueIDs_eq h hb, if_pos hys, List.length_map] at hqueues
      have heq : ((hosted (d.queues 0)).filter (·.2 = x.2)).length =
          (s.tables.pcb 0 b.toNat).queueIDs.length := by
        rw [hlength, ← of_decide_eq_true hserver]
        simp only [Option.some_inj]
      exact length_attachQueueServer.mp (hqueues.trans heq) n (hlength ▸ hn)
    · intro hlistable
      refine ⟨xs, ys, ?_, ?_, h.nodup, fun b ↦ ?_, fun b hb ↦ o.owned h hb, fun x hx ↦ ?_,
        fun b hb c hc heq ↦ ?_, fun b hb ↦ o.attached_iff h hb, fun b hb id hid ↦ ?_⟩
      · rw [hlinks, o.attached.freePort]
        exact h.free
      · rw [hlinks, o.attached.actPort]
        exact h.act
      · rw [h.all, o.allBuilt, o.count]
        exact ⟨fun hb ↦ hb.2, fun hb ↦ ⟨Nat.zero_le _, hb⟩⟩
      · obtain ⟨b, hb, howner⟩ := h.owns (fsNumber (d.servers 0) x.2)
          (List.mem_map.mpr ⟨_, List.mem_map_of_mem hx, rfl⟩)
        exact ⟨b, hb, (o.server_iff (mem_servers hx)).mpr howner⟩
      · obtain ⟨x, hx, hbx⟩ := o.owned h hb
        have howner := (o.server_iff (mem_servers hx)).mp hbx
        have howner' := (o.server_iff (mem_servers hx)).mp (heq ▸ hbx)
        exact h.one b hb c hc (howner.trans howner'.symm)
      · obtain ⟨x, hx, hbx⟩ := o.owned h hb
        obtain rfl : x.2 = id := Option.some.inj (hbx.symm.trans hid)
        have hmem := mem_servers hx
        rw [← o.queues_eq hmem, ← h.queues b hb _ ((o.server_iff hmem).mp hbx),
          o.queueIDs_eq h hb]
        split
        · rename_i hys
          have hall : ∀ m < (s.tables.pcb 0 b.toNat).totalQueue.toNat,
              d.attachQueue 0 (0 + m) = true := by
            intro m hm
            rw [Nat.zero_add]
            apply hlistable.attaches
            rwa [← o.length_active h hb hys, length_queueIDs]
          rw [attachQueueServer_eq, attachQueues_all hall]
        · rfl
  · refine iff_of_false ?_ fun hlistable ↦ hcont (o.contiguous_iff.mpr hlistable.contiguous)
    rintro ⟨xs', ys', hc⟩
    have hfree := hc.free
    have hact := hc.act
    rw [hlinks, o.attached.freePort] at hfree
    rw [hlinks, o.attached.actPort] at hact
    obtain rfl := hfree.unique h.free
    obtain rfl := hact.unique h.act
    exact h.out ((hc.all b).mpr (o.count ▸ h.built.2))

end Outcome

/-- The tables that `NDSGetPrinterQueue` leaves are complete if and only if no queue of a server
that is not attached comes behind those of another one, and every queue of the attached server
can be attached. -/
theorem tables_complete_iff (h : ndsGetPrinterQueue d = some r)
    (hlen : ∀ i, (d.queues i).length ≤ maxQueue) (hi : i < numOfPrnPort) :
    Complete d r i ↔ d.Listable i := by
  obtain rfl : i = 0 := Nat.lt_one_iff.mp hi
  obtain ⟨s, o⟩ := outcome h (hlen 0)
  exact o.complete_listable

/-- Three queues, of the file servers 1, 2 and 1, in a directory that is read from `attached`. -/
def threeQueues (attached : UInt8) : Directory where
  queues _ := [(⟨11, 0, 0x1000⟩, .server 1), (⟨12, 0, 0x1010⟩, .server 2),
    (⟨13, 0, 0x1020⟩, .server 1)]
  attachedAddress := List.replicate 12 attached
  address id := some (List.replicate 12 id.toUInt8)
  attachQueue _ _ := true

theorem tables_complete_threeQueues :
    ∃ r, ndsGetPrinterQueue (threeQueues 2) = some r ∧ Complete (threeQueues 2) r 0 := by
  obtain ⟨r, hr⟩ := Option.isSome_iff_exists.mp
    (by decide : (ndsGetPrinterQueue (threeQueues 2)).isSome = true)
  have hlen (i : Nat) : ((threeQueues 2).queues i).length ≤ maxQueue := (by decide : 3 ≤ 16)
  refine ⟨r, hr, (tables_complete_iff hr hlen (by decide)).mpr ⟨?_, fun _ _ ↦ rfl⟩⟩
  have hids : (((hosted ((threeQueues 2).queues 0)).map (·.2)).filter
      fun id ↦ some id ≠ (threeQueues 2).attachedServer 0) = [] ++ [1] ++ [1] := by decide
  rw [hids]
  exact (Contiguous.nil.snoc_fresh List.not_mem_nil).snoc_last rfl

/-- When neither is attached, the queue 13 moves the head of the free list from the PCB of the
server 2 to that of the server 1. -/
theorem threeQueues_not_complete :
    ∃ r, ndsGetPrinterQueue (threeQueues 3) = some r ∧ ¬ Complete (threeQueues 3) r 0 := by
  obtain ⟨r, hr⟩ := Option.isSome_iff_exists.mp
    (by decide : (ndsGetPrinterQueue (threeQueues 3)).isSome = true)
  obtain ⟨s, o⟩ := outcome hr (by decide)
  refine ⟨r, hr, fun hcomplete ↦ ?_⟩
  have hcont := (o.complete_listable.mp hcomplete).contiguous
  exact absurd (hcont [] 1 [2] [] (by decide) 2 (by decide)) (by decide)

end PrintServer.Novell
