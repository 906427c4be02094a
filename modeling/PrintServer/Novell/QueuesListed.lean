import Mathlib.Data.List.GetD
import PrintServer.Lib.Contiguous
import PrintServer.Novell.QueueTable

/-!
# The loop that builds the PCBs of a port

The search for the PCB of a file server moves the head of its list, so that the PCBs it passes are
in no list any more.  It passes none if the PCB is the first one, which it is if the queues of
each file server come one after another.
-/

namespace PrintServer.Novell

open Lib

variable {i count : Nat} {active b c k : UInt8} {t : Tables} {s : Building} {q : TmpQInfo}
  {done rest : List TmpQInfo} {xs ys zs : List UInt8}

/-! ## How many PCBs are to come -/

/-- How many elements a list has that are not among those before them. -/
def unmet {α : Type*} [DecidableEq α] : List α → List α → Nat
  | _, [] => 0
  | met, x :: xs => (if x ∈ met then 0 else 1) + unmet (met ++ [x]) xs

/-- The file servers of queues. -/
def fsIndices (qs : List TmpQInfo) : List UInt8 := qs.map (·.fsIndex)

@[simp] theorem fsIndices_snoc : fsIndices (done ++ [q]) = fsIndices done ++ [q.fsIndex] := by
  rw [fsIndices, List.map_append]
  rfl

@[simp] theorem fsIndices_cons : fsIndices (q :: rest) = q.fsIndex :: fsIndices rest := rfl

/-- `PrePrnNO` counts the queues of a file server, and `PCBCount` the file servers to come. -/
structure Tallied (s : Building) (done rest : List TmpQInfo) : Prop where
  seen : ∀ k, s.prePrnNO k = UInt8.ofNat ((fsIndices done).count k)
  left : s.pcbCount = unmet (fsIndices done) (fsIndices rest)

/-- The turns for a queue of a known and of a new file server. -/
def Building.seekTurn (s : Building) (i : Nat) (active : UInt8) (q : TmpQInfo) : Tables :=
  let isActive := decide (q.fsIndex = active)
  s.tables.setPcbIndex i isActive
    (s.tables.seekPCB i q.fsIndex.toNat 256 (s.tables.pcbIndex i isActive))

/-- The queue at the PCB in front. -/
def Tables.addToFirst (t : Tables) (i : Nat) (active : UInt8) (q : TmpQInfo) : Tables :=
  let isActive := decide (q.fsIndex = active)
  let b := t.pcbIndex i isActive
  t.setPCB i b ((t.pcb i b.toNat).addQueue (nset32 (if isActive then q.queueID else q.queueName)))

theorem insertQueue_seen (hnull : q.fsIndex ≠ nullByte) (hseen : s.prePrnNO q.fsIndex ≠ 0) :
    s.insertQueue i active q = {
      tables := (s.seekTurn i active q).addToFirst i active q
      pcbCount := s.pcbCount
      prePrnNO := Function.update s.prePrnNO q.fsIndex (s.prePrnNO q.fsIndex + 1) } := by
  unfold Building.insertQueue
  rw [if_neg hnull]
  dsimp only
  rw [if_pos hseen]
  rfl

theorem insertQueue_new (hnull : q.fsIndex ≠ nullByte) (hseen : s.prePrnNO q.fsIndex = 0) :
    s.insertQueue i active q = {
      tables := (s.tables.newPCB i q.fsIndex.toNat (decide (q.fsIndex = active))
        (UInt8.ofNat (s.pcbCount - 1))).addToFirst i active q
      pcbCount := s.pcbCount - 1
      prePrnNO := Function.update s.prePrnNO q.fsIndex (s.prePrnNO q.fsIndex + 1) } := by
  unfold Building.insertQueue
  rw [if_neg hnull]
  dsimp only
  rw [if_neg (not_not.mpr hseen)]
  rfl

theorem Tallied.prePrnNO_ne_iff (h : Tallied s done rest) (hlen : done.length < 256) :
    s.prePrnNO k ≠ 0 ↔ k ∈ fsIndices done := by
  have hcount : (fsIndices done).count k < 256 :=
    List.count_le_length.trans_lt (by rwa [fsIndices, List.length_map])
  rw [h.seen, ← List.count_pos_iff, ne_eq, ← UInt8.toNat_inj, UInt8.toNat_ofNat_of_lt' hcount,
    Nat.pos_iff_ne_zero]
  rfl

theorem Tallied.pcbCount_pos (h : Tallied s done (q :: rest)) (hnew : q.fsIndex ∉ fsIndices done) :
    0 < s.pcbCount := by
  have hleft := h.left
  rw [fsIndices_cons, unmet, if_neg hnew] at hleft
  omega

theorem Tallied.turn (i : Nat) (active : UInt8) (h : Tallied s done (q :: rest))
    (hnull : q.fsIndex ≠ nullByte) (hlen : done.length < 256) :
    Tallied (s.insertQueue i active q) (done ++ [q]) rest := by
  have hseen (k : UInt8) : Function.update s.prePrnNO q.fsIndex (s.prePrnNO q.fsIndex + 1) k =
      UInt8.ofNat ((fsIndices (done ++ [q])).count k) := by
    rw [fsIndices_snoc, List.count_append]
    by_cases hk : k = q.fsIndex
    · rw [hk, Function.update_self, h.seen, List.count_singleton_self, UInt8.ofNat_add]
      rfl
    · rw [Function.update_of_ne hk, h.seen, List.count_singleton,
        if_neg (by simpa using Ne.symm hk),
        Nat.add_zero]
  have hleft := h.left
  rw [fsIndices_cons, unmet] at hleft
  by_cases hmem : q.fsIndex ∈ fsIndices done
  · rw [insertQueue_seen hnull ((h.prePrnNO_ne_iff hlen).mpr hmem)]
    refine ⟨hseen, ?_⟩
    rw [if_pos hmem, Nat.zero_add] at hleft
    rw [fsIndices_snoc]
    exact hleft
  · rw [insertQueue_new hnull (not_not.mp fun hne ↦ hmem ((h.prePrnNO_ne_iff hlen).mp hne))]
    refine ⟨hseen, ?_⟩
    rw [if_neg hmem] at hleft
    rw [fsIndices_snoc]
    dsimp only
    rw [hleft, Nat.add_sub_cancel_left]

/-! ## The lists -/

/-- The text of a queue: its ID when its file server is the attached one, else where its name is. -/
def queueText (active : UInt8) (q : TmpQInfo) : List UInt8 :=
  nset32 (if q.fsIndex = active then q.queueID else q.queueName)

/-- The file servers of queues that are not those of the attached one. -/
def unattached (active : UInt8) (qs : List TmpQInfo) : List UInt8 :=
  (fsIndices qs).filter fun k ↦ k ≠ active

/-- The file server of a PCB. -/
def Building.owner (s : Building) (i : Nat) (b : UInt8) : Option Nat :=
  (s.tables.pcb i b.toNat).pFSInfo

/-- The PCBs of a port while the queues `done` have come: `xs` and `ys` are the two lists. -/
structure Listed (s : Building) (i : Nat) (active : UInt8) (count : Nat) (done : List TmpQInfo)
    (xs ys : List UInt8) : Prop where
  free : Linked (s.tables.link i) nullByte (s.tables.freePort i) xs
  act : Linked (s.tables.link i) nullByte (s.tables.actPort i) ys
  nodup : (xs ++ ys).Nodup
  all : ∀ b : UInt8, b ∈ xs ++ ys ↔ s.pcbCount ≤ b.toNat ∧ b.toNat < count
  room : s.pcbCount ≤ count
  cleared : ∀ b : UInt8, b.toNat < s.pcbCount → s.tables.pcb i b.toNat = clearedPCB
  owned : ∀ b ∈ xs ++ ys, ∃ k ∈ fsIndices done, s.owner i b = some k.toNat
  owns : ∀ k ∈ fsIndices done, ∃ b ∈ xs ++ ys, s.owner i b = some k.toNat
  one : ∀ b ∈ xs ++ ys, ∀ c ∈ xs ++ ys, s.owner i b = s.owner i c → b = c
  attached : ∀ b ∈ xs ++ ys, b ∈ ys ↔ s.owner i b = some active.toNat
  queues : ∀ b ∈ xs ++ ys, ∀ k : UInt8, s.owner i b = some k.toNat →
    (s.tables.pcb i b.toNat).queueIDs = (done.filter (·.fsIndex = k)).map (queueText active)
  first : ∀ k, (unattached active done).getLast? = some k →
    ∃ b xs', xs = b :: xs' ∧ s.owner i b = some k.toNat

/-- A PCB that is in no list, behind those that are still to come. -/
structure Lost (s : Building) (i count : Nat) (b : UInt8) (xs ys : List UInt8) : Prop where
  free : Linked (s.tables.link i) nullByte (s.tables.freePort i) xs
  act : Linked (s.tables.link i) nullByte (s.tables.actPort i) ys
  known : ∀ c ∈ xs ++ ys, s.pcbCount ≤ c.toNat
  built : s.pcbCount ≤ b.toNat ∧ b.toNat < count
  out : b ∉ xs ++ ys

/-! ## A queue of a known file server -/

theorem queueIDs_addQueue {x : PortPCB} {id : List UInt8} (h : x.totalQueue.toNat < 255) :
    (x.addQueue id).queueIDs = x.queueIDs ++ [id] := by
  have htotal : (x.totalQueue + 1).toNat = x.totalQueue.toNat + 1 := by
    rw [UInt8.toNat_add]
    exact Nat.mod_eq_of_lt (by simpa using Nat.succ_lt_succ h)
  unfold PortPCB.queueIDs PortPCB.addQueue
  dsimp only
  rw [htotal, List.range_succ, List.map_append, List.map_singleton, Function.update_self]
  congr 1
  apply List.map_congr_left
  intro j hj
  rw [Function.update_of_ne (List.mem_range.mp hj).ne]

theorem length_queueIDs (x : PortPCB) : x.queueIDs.length = x.totalQueue.toNat := by
  rw [PortPCB.queueIDs, List.length_map, List.length_range]

theorem addToFirst_eq (hb : t.pcbIndex i (decide (q.fsIndex = active)) = b) :
    t.addToFirst i active q =
      t.setPCB i b ((t.pcb i b.toNat).addQueue (queueText active q)) := by
  subst hb
  unfold Tables.addToFirst queueText
  simp only [decide_eq_true_eq]

/-- The first PCB of a list is found at once. -/
theorem seekPCB_first (h : (t.pcb i b.toNat).pFSInfo = some k.toNat) :
    t.seekPCB i k.toNat 256 b = b := by
  rw [Tables.seekPCB, if_pos h, ite_self]

theorem setPcbIndex_self (isActive : Bool) :
    t.setPcbIndex i isActive (t.pcbIndex i isActive) = t := by
  cases isActive with
  | false =>
      simp only [Tables.setPcbIndex, Tables.pcbIndex, Bool.false_eq_true, if_false,
        Tables.setFreePort, Function.update_eq_self]
  | true => simp only [Tables.setPcbIndex, Tables.pcbIndex, if_true, Tables.setActPort,
      Function.update_eq_self]

/-- A known file server is that of the last queue, among those that are not attached. -/
def TurnOk (active : UInt8) (done : List TmpQInfo) (q : TmpQInfo) : Prop :=
  q.fsIndex ≠ active → q.fsIndex ∈ fsIndices done →
    (unattached active done).getLast? = some q.fsIndex

theorem mem_unattached : k ∈ unattached active done ↔ k ∈ fsIndices done ∧ k ≠ active := by
  simp [unattached]

/-- The PCB of a known file server is then the first of its list. -/
theorem Listed.pcbIndex (h : Listed s i active count done xs ys) (hok : TurnOk active done q)
    (hmem : q.fsIndex ∈ fsIndices done) :
    ∃ b ∈ xs ++ ys, s.tables.pcbIndex i (decide (q.fsIndex = active)) = b ∧
      s.owner i b = some q.fsIndex.toNat := by
  by_cases hactive : q.fsIndex = active
  · obtain ⟨b, hb, howner⟩ := h.owns _ hmem
    have hys : b ∈ ys := (h.attached b hb).mpr (hactive ▸ howner)
    refine ⟨b, hb, ?_, howner⟩
    rw [decide_eq_true hactive]
    cases ys with
    | nil => cases hys
    | cons y ys =>
        have hy : y ∈ xs ++ y :: ys := List.mem_append_right _ List.mem_cons_self
        have hyowner := (h.attached y hy).mp List.mem_cons_self
        have hyb := h.one y hy b hb (hyowner.trans (hactive ▸ howner).symm)
        exact h.act.1.trans hyb
  · obtain ⟨b, xs', rfl, howner⟩ := h.first _ (hok hactive hmem)
    refine ⟨b, List.mem_append_left _ List.mem_cons_self, ?_, howner⟩
    rw [decide_eq_false hactive]
    exact h.free.1

theorem mem_snoc_iff {l : List UInt8} {j : UInt8} (h : k ∈ l) : j ∈ l ++ [k] ↔ j ∈ l := by
  rw [List.mem_append, List.mem_singleton]
  exact ⟨fun hj ↦ hj.elim id fun hk ↦ hk ▸ h, .inl⟩

theorem filter_snoc (k : UInt8) :
    (done ++ [q]).filter (·.fsIndex = k) =
      done.filter (·.fsIndex = k) ++ if q.fsIndex = k then [q] else [] := by
  rw [List.filter_append]
  by_cases h : q.fsIndex = k
  · simp [h]
  · simp [h]

theorem unattached_snoc : unattached active (done ++ [q]) =
    unattached active done ++ if q.fsIndex = active then [] else [q.fsIndex] := by
  rw [unattached, fsIndices_snoc, List.filter_append, List.filter_singleton]
  by_cases h : q.fsIndex = active
  · simp [unattached, h]
  · simp [unattached, h]

theorem Listed.turn_seen (h : Listed s i active count done xs ys)
    (htallied : Tallied s done (q :: rest)) (hnull : q.fsIndex ≠ nullByte)
    (hlen : done.length < 255) (hok : TurnOk active done q) (hmem : q.fsIndex ∈ fsIndices done) :
    Listed (s.insertQueue i active q) i active count (done ++ [q]) xs ys := by
  obtain ⟨b, hb, hfirst, howner⟩ := h.pcbIndex hok hmem
  have hturn : s.seekTurn i active q = s.tables := by
    unfold Building.seekTurn
    dsimp only
    rw [hfirst, seekPCB_first howner, ← hfirst, setPcbIndex_self]
  rw [insertQueue_seen hnull ((htallied.prePrnNO_ne_iff (by omega)).mpr hmem), hturn,
    addToFirst_eq hfirst]
  have hqueues := h.queues b hb _ howner
  have htotal : (s.tables.pcb i b.toNat).totalQueue.toNat < 255 := by
    rw [← length_queueIDs, hqueues, List.length_map]
    exact (List.length_filter_le _ _).trans_lt hlen
  let x := (s.tables.pcb i b.toNat).addQueue (queueText active q)
  have hlink : (s.tables.setPCB i b x).link i = s.tables.link i := Tables.link_setPCB rfl
  have hpcb (c : UInt8) (hc : c ≠ b) :
      (s.tables.setPCB i b x).pcb i c.toNat = s.tables.pcb i c.toNat :=
    Tables.pcb_setPCB_of_ne x hc
  have howns (c : UInt8) : ((s.tables.setPCB i b x).pcb i c.toNat).pFSInfo = s.owner i c := by
    by_cases hc : c = b
    · rw [hc, Tables.pcb_setPCB_self]
      rfl
    · rw [hpcb c hc]
      rfl
  constructor
  · exact hlink ▸ h.free
  · exact hlink ▸ h.act
  · exact h.nodup
  · exact h.all
  · exact h.room
  · intro c hc
    rw [hpcb c (by rintro rfl; exact Nat.not_le_of_lt hc ((h.all c).mp hb).1)]
    exact h.cleared c hc
  · intro c hc
    obtain ⟨k, hk, hck⟩ := h.owned c hc
    refine ⟨k, ?_, (howns c).trans hck⟩
    rw [fsIndices_snoc]
    exact List.mem_append_left _ hk
  · intro k hk
    rw [fsIndices_snoc, mem_snoc_iff hmem] at hk
    obtain ⟨c, hc, hck⟩ := h.owns k hk
    exact ⟨c, hc, (howns c).trans hck⟩
  · intro c hc c' hc' heq
    exact h.one c hc c' hc' ((howns c).symm.trans (heq.trans (howns c')))
  · intro c hc
    rw [Building.owner, howns]
    exact h.attached c hc
  · intro c hc k hk
    rw [Building.owner, howns] at hk
    rw [filter_snoc, List.map_append]
    by_cases hcb : c = b
    · subst hcb
      have hkq : q.fsIndex = k := UInt8.toNat_inj.mp (Option.some.inj (howner.symm.trans hk))
      rw [Tables.pcb_setPCB_self, if_pos hkq, queueIDs_addQueue htotal, h.queues c hc k hk]
      rfl
    · have hkq : q.fsIndex ≠ k := by
        rintro rfl
        exact hcb (h.one c hc b hb (hk.trans howner.symm))
      rw [hpcb c hcb, if_neg hkq, h.queues c hc k hk]
      exact (List.append_nil _).symm
  · intro k hk
    rw [unattached_snoc] at hk
    have hlast : (unattached active done).getLast? = some k := by
      by_cases hactive : q.fsIndex = active
      · rwa [if_pos hactive, List.append_nil] at hk
      · rw [if_neg hactive, List.getLast?_concat] at hk
        rw [← hk]
        exact hok hactive hmem
    obtain ⟨c, xs', hxs, hck⟩ := h.first k hlast
    exact ⟨c, xs', hxs, (howns c).trans hck⟩

/-! ## A queue of a new file server -/

section New

variable {isActive : Bool} {fs : Nat}

theorem pcb_setPcbIndex : (t.setPcbIndex i isActive b).pcb = t.pcb := by
  cases isActive with
  | false => rfl
  | true => rfl

theorem pcb_newPCB_self : (t.newPCB i fs isActive c).pcb i c.toNat =
    { t.pcb i c.toNat with
      nextPortPCB := t.pcbIndex i isActive, pFSInfo := some fs
      processRoutine := some .serviceNetWareQueue } := by
  unfold Tables.newPCB
  dsimp only
  rw [Tables.pcb_setPCB_self, pcb_setPcbIndex, Tables.setNext, Tables.pcb_setPCB_self]

theorem pcb_newPCB_of_ne (h : b ≠ c) :
    (t.newPCB i fs isActive c).pcb i b.toNat = t.pcb i b.toNat := by
  unfold Tables.newPCB
  dsimp only
  rw [Tables.pcb_setPCB_of_ne _ h, pcb_setPcbIndex, Tables.setNext, Tables.pcb_setPCB_of_ne _ h]

theorem pcbIndex_newPCB : (t.newPCB i fs isActive c).pcbIndex i isActive = c := by
  cases isActive with
  | false => exact Tables.freePort_setFreePort
  | true => exact Tables.actPort_setActPort

end New

/-- What the turn for a new file server does. -/
structure Pushed (t t' : Tables) (i : Nat) (active : UInt8) (c : UInt8) (q : TmpQInfo) : Prop where
  pcb : ∀ b, b ≠ c → t'.pcb i b.toNat = t.pcb i b.toNat
  link : t'.link i c = t.pcbIndex i (decide (q.fsIndex = active))
  owner : (t'.pcb i c.toNat).pFSInfo = some q.fsIndex.toNat
  queues : (t.pcb i c.toNat).totalQueue = 0 →
    (t'.pcb i c.toNat).queueIDs = [queueText active q]
  freePort : t'.freePort i = if q.fsIndex = active then t.freePort i else c
  actPort : t'.actPort i = if q.fsIndex = active then c else t.actPort i

theorem pushed_newPCB (t : Tables) (i : Nat) (active c : UInt8) (q : TmpQInfo) :
    Pushed t ((t.newPCB i q.fsIndex.toNat (decide (q.fsIndex = active)) c).addToFirst i active q)
      i active c q := by
  rw [addToFirst_eq pcbIndex_newPCB]
  constructor
  · intro b hb
    rw [Tables.pcb_setPCB_of_ne _ hb, pcb_newPCB_of_ne hb]
  · rw [Tables.link, Tables.pcb_setPCB_self, pcb_newPCB_self]
    rfl
  · rw [Tables.pcb_setPCB_self, pcb_newPCB_self]
    rfl
  · intro hzero
    rw [Tables.pcb_setPCB_self, pcb_newPCB_self, queueIDs_addQueue]
    · have hids : ∀ x : PortPCB, x.totalQueue = 0 → x.queueIDs = [] := fun x hx ↦ by
        rw [PortPCB.queueIDs, hx]
        rfl
      exact congrArg (· ++ [queueText active q]) (hids _ hzero)
    · dsimp only
      rw [hzero]
      decide
  · by_cases h : q.fsIndex = active
    · rw [if_pos h, decide_eq_true h]
      rfl
    · rw [if_neg h, decide_eq_false h]
      exact Tables.freePort_setFreePort
  · by_cases h : q.fsIndex = active
    · rw [if_pos h, decide_eq_true h]
      exact Tables.actPort_setActPort
    · rw [if_neg h, decide_eq_false h]
      rfl

theorem Pushed.link_of_ne {t' : Tables} (h : Pushed t t' i active c q) (hb : b ≠ c) :
    t'.link i b = t.link i b := by
  rw [Tables.link, h.pcb b hb, Tables.link]

/-- The PCB is in front of its list, and the other list is as before. -/
theorem Pushed.linked {t' : Tables} (h : Pushed t t' i active c q)
    (hfree : Linked (t.link i) nullByte (t.freePort i) xs)
    (hact : Linked (t.link i) nullByte (t.actPort i) ys) (hnull : c ≠ nullByte)
    (hxs : c ∉ xs) (hys : c ∉ ys) :
    Linked (t'.link i) nullByte (t'.freePort i) (if q.fsIndex = active then xs else c :: xs) ∧
      Linked (t'.link i) nullByte (t'.actPort i) (if q.fsIndex = active then c :: ys else ys) := by
  have hkeep {l : List UInt8} (hc : c ∉ l) : ∀ b ∈ l, t'.link i b = t.link i b := fun b hb ↦
    h.link_of_ne fun heq ↦ hc (heq ▸ hb)
  have hlink := h.link
  rw [h.freePort, h.actPort]
  by_cases hactive : q.fsIndex = active
  · simp only [if_pos hactive]
    rw [decide_eq_true hactive] at hlink
    exact ⟨hfree.congr (hkeep hxs), hact.push hnull hlink (hkeep hys)⟩
  · simp only [if_neg hactive]
    rw [decide_eq_false hactive] at hlink
    exact ⟨hfree.push hnull hlink (hkeep hxs), hact.congr (hkeep hys)⟩

/-- The number of the next PCB. -/
theorem toNat_next (hcount : count < 256) (hroom : s.pcbCount ≤ count) (hpos : 0 < s.pcbCount) :
    (UInt8.ofNat (s.pcbCount - 1)).toNat = s.pcbCount - 1 ∧
      UInt8.ofNat (s.pcbCount - 1) ≠ nullByte := by
  have hnat : (UInt8.ofNat (s.pcbCount - 1)).toNat = s.pcbCount - 1 :=
    UInt8.toNat_ofNat_of_lt' (show s.pcbCount - 1 < 256 by omega)
  refine ⟨hnat, fun heq ↦ ?_⟩
  have hnull : (UInt8.ofNat (s.pcbCount - 1)).toNat = 255 := congrArg UInt8.toNat heq
  omega

theorem Listed.turn_new (h : Listed s i active count done xs ys) (hcount : count < 256)
    (htallied : Tallied s done (q :: rest)) (hnull : q.fsIndex ≠ nullByte)
    (hlen : done.length < 255) (hnew : q.fsIndex ∉ fsIndices done) :
    let c := UInt8.ofNat (s.pcbCount - 1)
    Listed (s.insertQueue i active q) i active count (done ++ [q])
      (if q.fsIndex = active then xs else c :: xs)
      (if q.fsIndex = active then c :: ys else ys) := by
  have hpos := htallied.pcbCount_pos hnew
  obtain ⟨hc, hcnull⟩ := toNat_next hcount h.room hpos
  have hzero := not_not.mp fun hne ↦ hnew ((htallied.prePrnNO_ne_iff (by omega)).mp hne)
  -- the server has no block yet, and takes the next of the array
  rw [insertQueue_new hnull hzero]
  generalize UInt8.ofNat (s.pcbCount - 1) = c at *
  have hpush := pushed_newPCB s.tables i active c q
  generalize (s.tables.newPCB i q.fsIndex.toNat (decide (q.fsIndex = active)) c).addToFirst i
    active q = t' at hpush
  have hout : c ∉ xs ++ ys := fun hmem ↦ by
    have hge := ((h.all c).mp hmem).1
    omega
  rw [List.mem_append, not_or] at hout
  obtain ⟨hfree, hact⟩ := hpush.linked h.free h.act hcnull hout.1 hout.2
  -- the two lists together
  have hperm : ((if q.fsIndex = active then xs else c :: xs) ++
      (if q.fsIndex = active then c :: ys else ys)).Perm (c :: (xs ++ ys)) := by
    by_cases hactive : q.fsIndex = active
    · simp only [if_pos hactive]
      exact List.perm_middle
    · simp only [if_neg hactive]
      rfl
  have hmem (b : UInt8) : b ∈ (if q.fsIndex = active then xs else c :: xs) ++
      (if q.fsIndex = active then c :: ys else ys) ↔ b = c ∨ b ∈ xs ++ ys := by
    rw [hperm.mem_iff, List.mem_cons]
  have hne (b : UInt8) (hb : b ∈ xs ++ ys) : b ≠ c := by
    rintro rfl
    exact (List.mem_append.mp hb).elim hout.1 hout.2
  -- the blocks in use keep their servers, and none is the new one's
  have howner (b : UInt8) (hb : b ∈ xs ++ ys) : (t'.pcb i b.toNat).pFSInfo = s.owner i b := by
    rw [hpush.pcb b (hne b hb)]
    rfl
  have hnot (b : UInt8) (hb : b ∈ xs ++ ys) : s.owner i b ≠ some q.fsIndex.toNat := by
    intro heq
    obtain ⟨k, hk, hbk⟩ := h.owned b hb
    exact hnew (UInt8.toNat_inj.mp (Option.some.inj (hbk.symm.trans heq)) ▸ hk)
  constructor
  · exact hfree
  · exact hact
  · exact hperm.nodup_iff.mpr (List.nodup_cons.mpr ⟨by
      rw [List.mem_append, not_or]
      exact hout, h.nodup⟩)
  · intro b
    rw [hmem, h.all]
    dsimp only
    constructor
    · rintro (rfl | hb)
      · have hroom := h.room
        omega
      · omega
    · intro hb
      by_cases hbc : b = c
      · exact .inl hbc
      · have hnat : b.toNat ≠ c.toNat := fun heq ↦ hbc (UInt8.toNat_inj.mp heq)
        omega
  · have hroom := h.room
    dsimp only
    omega
  · intro b hb
    dsimp only at hb ⊢
    rw [hpush.pcb b (by rintro rfl; omega)]
    exact h.cleared b (by omega)
  · intro b hb
    rw [fsIndices_snoc]
    rcases (hmem b).mp hb with rfl | hb
    · exact ⟨q.fsIndex, by simp, hpush.owner⟩
    · obtain ⟨k, hk, hbk⟩ := h.owned b hb
      exact ⟨k, List.mem_append_left _ hk, (howner b hb).trans hbk⟩
  · intro k hk
    rw [fsIndices_snoc] at hk
    rcases List.mem_append.mp hk with hk | hk
    · obtain ⟨b, hb, hbk⟩ := h.owns k hk
      exact ⟨b, (hmem b).mpr (.inr hb), (howner b hb).trans hbk⟩
    · obtain rfl := List.mem_singleton.mp hk
      exact ⟨c, (hmem c).mpr (.inl rfl), hpush.owner⟩
  · intro b hb b' hb' heq
    dsimp only [Building.owner] at heq
    -- no old block is of the new one's server
    rcases (hmem b).mp hb with hbc | hold
    · rcases (hmem b').mp hb' with hbc' | hold'
      · rw [hbc, hbc']
      · rw [hbc, hpush.owner, howner b' hold'] at heq
        exact absurd heq.symm (hnot b' hold')
    · rcases (hmem b').mp hb' with hbc' | hold'
      · rw [hbc', hpush.owner, howner b hold] at heq
        exact absurd heq (hnot b hold)
      · rw [howner b hold, howner b' hold'] at heq
        exact h.one b hold b' hold' heq
  · intro b hb
    dsimp only [Building.owner]
    rcases (hmem b).mp hb with rfl | hb
    · rw [hpush.owner]
      by_cases hactive : q.fsIndex = active
      · rw [if_pos hactive, hactive]
        exact iff_of_true List.mem_cons_self rfl
      · rw [if_neg hactive]
        exact iff_of_false hout.2 fun heq ↦
          hactive (UInt8.toNat_inj.mp (Option.some.inj heq))
    · rw [howner b hb, ← h.attached b hb]
      by_cases hactive : q.fsIndex = active
      · rw [if_pos hactive, List.mem_cons]
        exact ⟨fun hby ↦ hby.resolve_left (hne b hb), .inr⟩
      · rw [if_neg hactive]
  · intro b hb k hk
    dsimp only [Building.owner] at hk ⊢
    rw [filter_snoc, List.map_append]
    rcases (hmem b).mp hb with rfl | hb
    · rw [hpush.owner] at hk
      obtain rfl : q.fsIndex = k := UInt8.toNat_inj.mp (Option.some.inj hk)
      -- the new block holds the one queue of the turn, for no earlier one was on this server
      have hnone : done.filter (·.fsIndex = q.fsIndex) = [] := by
        apply List.filter_eq_nil_iff.mpr
        intro q' hq' heq
        exact hnew (List.mem_map.mpr ⟨q', hq', of_decide_eq_true heq⟩)
      rw [if_pos rfl, hnone, hpush.queues]
      · rfl
      · rw [h.cleared b (by omega)]
        rfl
    · rw [howner b hb] at hk
      have hkq : q.fsIndex ≠ k := by
        rintro rfl
        exact hnot b hb hk
      rw [hpush.pcb b (hne b hb), if_neg hkq, h.queues b hb k hk]
      exact (List.append_nil _).symm
  · intro k hk
    rw [unattached_snoc] at hk
    by_cases hactive : q.fsIndex = active
    · rw [if_pos hactive, List.append_nil] at hk
      obtain ⟨b, xs', rfl, hbk⟩ := h.first k hk
      rw [if_pos hactive]
      exact ⟨b, xs', rfl, (howner b (by simp)).trans hbk⟩
    · rw [if_neg hactive, List.getLast?_concat] at hk
      obtain rfl := Option.some.inj hk
      rw [if_neg hactive]
      exact ⟨c, xs, rfl, hpush.owner⟩

/-! ## PCBs that are lost -/

/-- The search ends somewhere in the list, or behind it. -/
theorem seekPCB_suffix (fs fuel : Nat) (h : Linked (t.link i) nullByte b xs) :
    ∃ zs, zs <:+ xs ∧ Linked (t.link i) nullByte (t.seekPCB i fs fuel b) zs := by
  induction fuel generalizing b xs with
  | zero => exact ⟨xs, List.suffix_rfl, h⟩
  | succ fuel ih =>
      rw [Tables.seekPCB]
      split
      · exact ⟨xs, List.suffix_rfl, h⟩
      · rename_i hnull
        split
        · exact ⟨xs, List.suffix_rfl, h⟩
        · cases xs with
          | nil => exact absurd h hnull
          | cons x xs =>
              obtain ⟨rfl, -, htail⟩ := h
              obtain ⟨zs, hzs, hlinked⟩ := ih htail
              exact ⟨zs, hzs.trans (List.suffix_cons b xs), hlinked⟩

/-- What the turn for a known file server does to the lists. -/
structure Sought (t t' : Tables) (i : Nat) (active : UInt8) (q : TmpQInfo) : Prop where
  link : t'.link i = t.link i
  freePort : t'.freePort i = if q.fsIndex = active then t.freePort i
    else t.seekPCB i q.fsIndex.toNat 256 (t.freePort i)
  actPort : t'.actPort i = if q.fsIndex = active
    then t.seekPCB i q.fsIndex.toNat 256 (t.actPort i) else t.actPort i

theorem sought_seekTurn (s : Building) (i : Nat) (active : UInt8) (q : TmpQInfo) :
    Sought s.tables ((s.seekTurn i active q).addToFirst i active q) i active q := by
  rw [addToFirst_eq rfl]
  unfold Building.seekTurn
  by_cases h : q.fsIndex = active
  · rw [decide_eq_true h]
    refine ⟨Tables.link_setPCB rfl, ?_, ?_⟩
    · rw [if_pos h]
      rfl
    · rw [if_pos h]
      exact Tables.actPort_setActPort
  · rw [decide_eq_false h]
    refine ⟨Tables.link_setPCB rfl, ?_, ?_⟩
    · rw [if_neg h]
      exact Tables.freePort_setFreePort
    · rw [if_neg h]
      rfl

theorem Lost.turn (active : UInt8) (h : Lost s i count b xs ys) (hcount : count < 256)
    (hroom : s.pcbCount ≤ count) (htallied : Tallied s done (q :: rest))
    (hnull : q.fsIndex ≠ nullByte) (hlen : done.length < 255) :
    ∃ xs ys, Lost (s.insertQueue i active q) i count b xs ys := by
  by_cases hmem : q.fsIndex ∈ fsIndices done
  · rw [insertQueue_seen hnull ((htallied.prePrnNO_ne_iff (by omega)).mpr hmem)]
    have hsought := sought_seekTurn s i active q
    generalize (s.seekTurn i active q).addToFirst i active q = t' at hsought
    have hfree := hsought.freePort
    have hact := hsought.actPort
    by_cases hactive : q.fsIndex = active
    · rw [if_pos hactive] at hfree hact
      obtain ⟨zs, hzs, hlinked⟩ := seekPCB_suffix q.fsIndex.toNat 256 h.act
      have hin (c : UInt8) (hc : c ∈ xs ++ zs) : c ∈ xs ++ ys :=
        List.mem_append.mpr ((List.mem_append.mp hc).imp_right fun hz ↦ hzs.subset hz)
      refine ⟨xs, zs, ?_, ?_, fun c hc ↦ h.known c (hin c hc), h.built, fun hb ↦ h.out (hin b hb)⟩
      · exact hsought.link ▸ hfree ▸ h.free
      · exact hsought.link ▸ hact ▸ hlinked
    · rw [if_neg hactive] at hfree hact
      obtain ⟨zs, hzs, hlinked⟩ := seekPCB_suffix q.fsIndex.toNat 256 h.free
      have hin (c : UInt8) (hc : c ∈ zs ++ ys) : c ∈ xs ++ ys :=
        List.mem_append.mpr ((List.mem_append.mp hc).imp_left fun hz ↦ hzs.subset hz)
      refine ⟨zs, ys, ?_, ?_, fun c hc ↦ h.known c (hin c hc), h.built, fun hb ↦ h.out (hin b hb)⟩
      · exact hsought.link ▸ hfree ▸ hlinked
      · exact hsought.link ▸ hact ▸ h.act
  · have hpos := htallied.pcbCount_pos hmem
    obtain ⟨hc, hcnull⟩ := toNat_next hcount hroom hpos
    rw [insertQueue_new hnull (not_not.mp fun hne ↦
      hmem ((htallied.prePrnNO_ne_iff (by omega)).mp hne))]
    generalize UInt8.ofNat (s.pcbCount - 1) = c at *
    have hout : c ∉ xs ++ ys := fun hin ↦ by
      have hge := h.known c hin
      omega
    rw [List.mem_append, not_or] at hout
    have hlinked := (pushed_newPCB s.tables i active c q).linked h.free h.act hcnull hout.1 hout.2
    have hin (d : UInt8) (hd : d ∈ (if q.fsIndex = active then xs else c :: xs) ++
        (if q.fsIndex = active then c :: ys else ys)) : d = c ∨ d ∈ xs ++ ys := by
      split at hd
      · simpa [or_left_comm] using hd
      · simpa [or_assoc] using hd
    refine ⟨_, _, hlinked.1, hlinked.2, ?_, ?_, ?_⟩
    · intro d hd
      dsimp only
      rcases hin d hd with rfl | hd
      · omega
      · have hge := h.known d hd
        omega
    · have hbuilt := h.built
      dsimp only
      omega
    · intro hb
      rcases hin b hb with rfl | hb
      · have hbuilt := h.built
        omega
      · exact h.out hb

/-- The search for a file server that is not the last one leaves the first PCB behind. -/
theorem Listed.turn_lost (h : Listed s i active count done xs ys)
    (htallied : Tallied s done (q :: rest)) (hnull : q.fsIndex ≠ nullByte)
    (hlen : done.length < 255) (hbad : ¬ TurnOk active done q) :
    ∃ b xs ys, Lost (s.insertQueue i active q) i count b xs ys := by
  unfold TurnOk at hbad
  simp only [not_forall] at hbad
  obtain ⟨hactive, hmem, hlast⟩ := hbad
  have hne : unattached active done ≠ [] :=
    List.ne_nil_of_mem (mem_unattached.mpr ⟨hmem, hactive⟩)
  have hk := List.getLast?_eq_some_getLast hne
  obtain ⟨b, xs', rfl, howner⟩ := h.first _ hk
  have hother : (s.tables.pcb i b.toNat).pFSInfo ≠ some q.fsIndex.toNat := by
    intro heq
    have hkq := UInt8.toNat_inj.mp (Option.some.inj (howner.symm.trans heq))
    exact hlast (hkq ▸ hk)
  rw [insertQueue_seen hnull ((htallied.prePrnNO_ne_iff (by omega)).mpr hmem)]
  have hsought := sought_seekTurn s i active q
  generalize (s.seekTurn i active q).addToFirst i active q = t' at hsought
  have hfree := hsought.freePort
  have hact := hsought.actPort
  rw [if_neg hactive] at hfree hact
  obtain ⟨hhead, hbnull, htail⟩ := h.free
  have hseek : s.tables.seekPCB i q.fsIndex.toNat 256 (s.tables.freePort i) =
      s.tables.seekPCB i q.fsIndex.toNat 255 (s.tables.link i b) := by
    rw [hhead, Tables.seekPCB, if_neg hbnull, if_neg hother]
  obtain ⟨zs, hzs, hlinked⟩ := seekPCB_suffix q.fsIndex.toNat 255 htail
  have hb : b ∈ b :: xs' ++ ys := List.mem_append_left _ List.mem_cons_self
  have hnodup := List.nodup_cons.mp h.nodup
  have hin (c : UInt8) (hc : c ∈ zs ++ ys) : c ∈ xs' ++ ys :=
    List.mem_append.mpr ((List.mem_append.mp hc).imp_left fun hz ↦ hzs.subset hz)
  refine ⟨b, zs, ys, ?_, ?_, ?_, (h.all b).mp hb, fun hc ↦ hnodup.1 (hin b hc)⟩
  · rw [hseek] at hfree
    exact hsought.link ▸ hfree ▸ hlinked
  · exact hsought.link ▸ hact ▸ h.act
  · exact fun c hc ↦ ((h.all c).mp (List.mem_cons_of_mem b (hin c hc))).1

/-! ## The loop -/

/-- Every queue of a known file server comes when that is the last one. -/
def TurnsOk (active : UInt8) : List TmpQInfo → List TmpQInfo → Prop
  | _, [] => True
  | done, q :: rest => TurnOk active done q ∧ TurnsOk active (done ++ [q]) rest

theorem pcbCount_insertQueue_le (hnull : q.fsIndex ≠ nullByte) :
    (s.insertQueue i active q).pcbCount ≤ s.pcbCount := by
  by_cases hseen : s.prePrnNO q.fsIndex = 0
  · rw [insertQueue_new hnull hseen]
    exact Nat.sub_le _ _
  · rw [insertQueue_seen hnull hseen]

theorem Tallied.run (h : Tallied s done rest) (hnull : ∀ q ∈ rest, q.fsIndex ≠ nullByte)
    (hlen : (done ++ rest).length ≤ 256) :
    (rest.foldl (fun s q ↦ s.insertQueue i active q) s).pcbCount = 0 := by
  induction rest generalizing s done with
  | nil => exact h.left
  | cons q rest ih =>
      obtain ⟨hq, hrest⟩ := List.forall_mem_cons.mp hnull
      rw [List.append_cons] at hlen
      refine ih (h.turn i active hq ?_) hrest hlen
      rw [List.length_append, List.length_append, List.length_singleton] at hlen
      omega

theorem Lost.run (active : UInt8) (h : Lost s i count b xs ys) (hcount : count < 256)
    (hroom : s.pcbCount ≤ count)
    (htallied : Tallied s done rest) (hnull : ∀ q ∈ rest, q.fsIndex ≠ nullByte)
    (hlen : (done ++ rest).length < 256) :
    ∃ xs ys, Lost (rest.foldl (fun s q ↦ s.insertQueue i active q) s) i count b xs ys := by
  induction rest generalizing s done xs ys with
  | nil => exact ⟨xs, ys, h⟩
  | cons q rest ih =>
      obtain ⟨hq, hrest⟩ := List.forall_mem_cons.mp hnull
      rw [List.length_append, List.length_cons] at hlen
      obtain ⟨xs', ys', h'⟩ := h.turn active hcount hroom htallied hq (by omega)
      exact ih h' ((pcbCount_insertQueue_le hq).trans hroom)
        (htallied.turn i active hq (by omega)) hrest
        (by rw [List.append_assoc, List.length_append, List.length_append, List.length_singleton]
            omega)

/-- The PCBs are all in the lists if and only if no search passes one. -/
theorem Listed.run (h : Listed s i active count done xs ys) (hcount : count < 256)
    (htallied : Tallied s done rest) (hnull : ∀ q ∈ rest, q.fsIndex ≠ nullByte)
    (hlen : (done ++ rest).length < 256) :
    let s' := rest.foldl (fun s q ↦ s.insertQueue i active q) s
    (TurnsOk active done rest ∧ ∃ xs ys, Listed s' i active count (done ++ rest) xs ys) ∨
      (¬ TurnsOk active done rest ∧ ∃ b xs ys, Lost s' i count b xs ys) := by
  induction rest generalizing s done xs ys with
  | nil => exact .inl ⟨trivial, xs, ys, (List.append_nil done).symm ▸ h⟩
  | cons q rest ih =>
      obtain ⟨hq, hrest⟩ := List.forall_mem_cons.mp hnull
      have hlen' : (done ++ [q] ++ rest).length < 256 := by
        rwa [List.append_assoc]
      rw [List.length_append, List.length_cons] at hlen
      have htallied' := htallied.turn i active hq (by omega)
      by_cases hok : TurnOk active done q
      · have hnext : ∃ xs ys,
            Listed (s.insertQueue i active q) i active count (done ++ [q]) xs ys := by
          by_cases hmem : q.fsIndex ∈ fsIndices done
          · exact ⟨xs, ys, h.turn_seen htallied hq (by omega) hok hmem⟩
          · exact ⟨_, _, h.turn_new hcount htallied hq (by omega) hmem⟩
        obtain ⟨xs', ys', h'⟩ := hnext
        have hrun := ih h' htallied' hrest hlen'
        rw [List.append_assoc] at hrun
        rcases hrun with ⟨hoks, hlisted⟩ | ⟨hbad, hlost⟩
        · exact .inl ⟨⟨hok, hoks⟩, hlisted⟩
        · exact .inr ⟨fun hoks ↦ hbad hoks.2, hlost⟩
      · obtain ⟨b, xs', ys', hlost⟩ := h.turn_lost htallied hq (by omega) hok
        obtain ⟨xs'', ys'', hend⟩ := hlost.run active hcount
          ((pcbCount_insertQueue_le hq).trans h.room) htallied' hrest hlen'
        exact .inr ⟨fun hoks ↦ hok hoks.1, b, xs'', ys'', hend⟩

/-! ## One after another -/

theorem unattached_append (active : UInt8) (done rest : List TmpQInfo) :
    unattached active (done ++ rest) = unattached active done ++ unattached active rest := by
  rw [unattached, fsIndices, List.map_append, List.filter_append]
  rfl

theorem contiguous_turn (h : Contiguous (unattached active done)) (hok : TurnOk active done q) :
    Contiguous (unattached active (done ++ [q])) := by
  rw [unattached_snoc]
  by_cases hactive : q.fsIndex = active
  · rwa [if_pos hactive, List.append_nil]
  · rw [if_neg hactive]
    by_cases hmem : q.fsIndex ∈ fsIndices done
    · exact h.snoc_last (hok hactive hmem)
    · exact h.snoc_fresh fun hin ↦ hmem (mem_unattached.mp hin).1

theorem turnsOk_iff (h : Contiguous (unattached active done)) :
    TurnsOk active done rest ↔ Contiguous (unattached active (done ++ rest)) := by
  induction rest generalizing done with
  | nil => exact iff_of_true trivial (by rwa [List.append_nil])
  | cons q rest ih =>
      have hsplit : done ++ q :: rest = done ++ [q] ++ rest := List.append_cons done q rest
      constructor
      · rintro ⟨hok, hoks⟩
        rw [hsplit]
        exact (ih (contiguous_turn h hok)).mp hoks
      · intro hall
        have hok : TurnOk active done q := by
          intro hactive hmem
          apply Contiguous.getLast?_of_mem (m := unattached active rest) _
            (mem_unattached.mpr ⟨hmem, hactive⟩)
          rw [hsplit, unattached_append, unattached_snoc, if_neg hactive, List.append_assoc] at hall
          exact hall
        rw [hsplit] at hall
        exact ⟨hok, (ih (contiguous_turn h hok)).mpr hall⟩

end PrintServer.Novell
