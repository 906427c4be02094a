import PrintServer.Nds.AttrReplyInside

/-!
# Which replies are parsed inside

For a reply that does not fit the rest of the directory can be such that the function leaves the
reply: the replies before it are well formed, and every name is resolved.
-/

namespace PrintServer.Nds

open Lib
open Novell (TmpQInfo TmpFSInfo numOfPrnPort addFileServer)

/-- All that has been done with the reply `r` stays inside it. -/
def StayedIn (r : AttrReply) (s : Session) : Prop := ∀ v, (r, v) ∈ s.visits → r.Stays v

/-- Nothing that has been done is forgotten. -/
def Grows {α : Type} (m : Parse α) : Prop :=
  ∀ P, Stable (fun _ ↦ False) P → Keeps P m (fun _ ↦ True)

/-- Every name is resolved and there is memory. -/
structure Surroundings.Smooth (w : Surroundings) : Prop where
  resolved : ∀ n, w.ndsResolveName n = .ok 1
  memory : ∀ n, w.malloc n = true

section Clean

variable {r r' : AttrReply} {w : Surroundings} {s : Session} {p n off : Nat}

theorem StayedIn.of_seen {v : Visit} (h : StayedIn r (s.seen r' v)) : StayedIn r s :=
  fun v hv ↦ h v (List.mem_append_left _ hv)

theorem StayedIn.stays {v : Visit} (h : StayedIn r (s.seen r v)) : r.Stays v :=
  h v (List.mem_append_right _ List.mem_cons_self)

theorem StayedIn.of_read {ps : List Nat} (h : StayedIn r (s.read r ps)) :
    StayedIn r s ∧ ∀ p ∈ ps, r.Inside p 4 := by
  induction ps generalizing s with
  | nil => exact ⟨h, fun _ hp ↦ absurd hp List.not_mem_nil⟩
  | cons p ps ih =>
      have hrest := ih h
      exact ⟨hrest.1.of_seen, List.forall_mem_cons.mpr ⟨hrest.1.stays, hrest.2⟩⟩

theorem StayedIn.of_exit {α : Type} {m : Parse α} (hm : Grows m)
    (h : StayedIn r (exitState m s)) : StayedIn r s := by
  have hstable : Stable (fun _ ↦ False) fun s' ↦ StayedIn r s' → StayedIn r s :=
    ⟨fun h ↦ h.elim, fun _ hP h ↦ hP h.of_seen, fun hP heq h ↦ hP fun v hv ↦ h v (heq ▸ hv)⟩
  exact (hm _ hstable s fun h ↦ h).1 h

/-- The turn of a loop over items stays inside as far as the turn goes. -/
theorem StayedIn.of_item {α : Type} {k : EntryItem → Parse α} (hk : ∀ x, Grows (k x))
    (h : StayedIn r (exitState (do
      let item ← ndsReadGetEntryItem r p
      if n ≠ 0 ∧ item.p > r.bufend then throw ndsNcpPacketLength
      else
        visit r (.item p)
        k item) s)) :
    (∀ q ∈ r.itemReads p, r.Inside q 4) ∧
      ((n ≠ 0 ∧ r.bufend < (r.entryItem p).p) ∨ r.Stays (.item p) ∧
        ∃ s', StayedIn r (exitState (k (r.entryItem p)) s')) := by
  rw [exitState_bind_ok (ndsReadGetEntryItem_eq p s)] at h
  by_cases hdown : n ≠ 0 ∧ (r.entryItem p).p > r.bufend
  · rw [if_pos hdown] at h
    exact ⟨(StayedIn.of_read h).2, Or.inl hdown⟩
  · rw [if_neg hdown] at h
    change StayedIn r (exitState (k (r.entryItem p))
      ((s.read r (r.itemReads p)).seen r (.item p))) at h
    have hseen := h.of_exit (hk _)
    exact ⟨hseen.of_seen.of_read.2, Or.inr ⟨hseen.stays, _, h⟩⟩

theorem StayedIn.of_bind {α β : Type} {m : Parse α} {f : α → Parse β} (hf : ∀ a, Grows (f a))
    (h : StayedIn r (exitState (m >>= f) s)) : StayedIn r (exitState m s) := by
  cases hm : m s with
  | ok a s' =>
      rw [exitState_bind_ok hm] at h
      rw [exitState_ok hm]
      exact h.of_exit (hf a)
  | error e s' =>
      rw [exitState_bind_error hm] at h
      rw [exitState_error hm]
      exact h

theorem ndsResolveName_ok (hw : w.Smooth) (status : Nat) :
    ndsResolveName r w p status s =
      .ok 1 { s.seen r (.name p) with resolves := s.resolves + 1 } := by
  rw [ndsResolveName_eq, hw.resolved]
  rfl

theorem ndsRead_ok {objectName : ObjectName} {objectID : UInt32} {answer : ReadAnswer}
    (hread : ∀ n id, w.ndsRead n objectName id = answer) :
    ndsRead w objectName objectID s = .ok answer { s with reads := s.reads + 1 } := by
  rw [← hread s.reads objectID]
  rfl

theorem alloc_ok (hw : w.Smooth) :
    alloc w s = .ok s.mallocs { s with mallocs := s.mallocs + 1 } := by
  show (if w.malloc s.mallocs then pure s.mallocs else throw ndsNomem : Parse Nat) _ = _
  rw [if_pos (hw.memory _)]
  rfl

/-- A name that has been passed on ends in the reply. -/
theorem StayedIn.of_resolved {α : Type} {f : UInt32 → Parse α} {status : Nat} (hw : w.Smooth)
    (hf : Grows (f 1)) (h : StayedIn r (exitState (ndsResolveName r w p status >>= f) s)) :
    r.Stays (.name p) ∧ ∃ s', StayedIn r (exitState (f 1) s') := by
  rw [exitState_bind_ok (ndsResolveName_ok hw status)] at h
  have hafter := h.of_exit hf
  have hseen : StayedIn r (s.seen r (.name p)) := hafter
  exact ⟨hseen.stays, _, h⟩

theorem StayedIn.of_alloc {α : Type} {f : Nat → Parse α} (hw : w.Smooth)
    (h : StayedIn r (exitState (alloc w >>= f) s)) :
    ∃ k s', StayedIn r (exitState (f k) s') := by
  rw [exitState_bind_ok (alloc_ok hw)] at h
  exact ⟨_, _, h⟩

/-! ## The items of a reply that is parsed inside -/

theorem inside_of_itemReads (h : ∀ q ∈ r.itemReads p, r.Inside q 4) : r.Inside p 4 := by
  rw [AttrReply.itemReads] at h
  split at h
  · exact h p List.mem_cons_self
  · exact h p List.mem_cons_self

theorem grows_queueTurn (item : EntryItem) (j : Nat) (queues : List TmpQInfo)
    (hqueue : r.objectName = .queue) :
    Grows (do
      let id ← ndsResolveName r w item.name ndsECanNotGetQueueEntry
      let name ← alloc w
      queueItems r w n (j + 1) item.p (queues.set j ⟨id, 0, UInt32.ofNat name⟩)) := by
  intro P hP
  apply (keeps_ndsResolveName hP fun h ↦ h.elim).bind
  intro _ _
  apply (keeps_alloc hP).bind
  exact fun _ _ ↦ keeps_queueItems hP hqueue fun h ↦ h.elim

theorem inside_of_queueItems (hqueue : r.objectName = .queue) {j : Nat} {queues : List TmpQInfo}
    (h : StayedIn r (exitState (queueItems r w (n + 1) j p queues) s)) : r.Inside p 4 :=
  inside_of_itemReads (StayedIn.of_item (fun item ↦ grows_queueTurn item j queues hqueue) h).1

theorem itemsFit_of_queueItems (hw : w.Smooth) (hqueue : r.objectName = .queue) {j : Nat}
    {queues : List TmpQInfo}
    (h : StayedIn r (exitState (queueItems r w n j (r.buf + off) queues) s)) :
    r.ItemsFit n off := by
  induction n generalizing off j queues s with
  | zero => trivial
  | succ n ih =>
      obtain ⟨hreads, hturn⟩ :=
        StayedIn.of_item (fun item ↦ grows_queueTurn item j queues hqueue) h
      obtain ⟨hlength, hlevel⟩ := inside_itemReads_iff.mp hreads
      refine ⟨hlength, hlevel, ?_⟩
      obtain ⟨hn, hdown⟩ | ⟨hitem, s', hclean⟩ := hturn
      · exact Or.inl ⟨hn, (bufend_lt_entryItem_iff hlength).mp hdown⟩
      · right
        have hat := AttrReply.stays_item_iff.mp hitem
        obtain ⟨hname, t, hrest⟩ := hclean.of_resolved hw fun P hP ↦
          (keeps_alloc hP).bind fun _ _ ↦ keeps_queueItems hP hqueue fun h ↦ h.elim
        obtain ⟨k, u, hrest⟩ := hrest.of_alloc hw
        refine ⟨hat, fun _ ↦ (stays_entryItem_name_iff hlength).mp hname, ?_⟩
        cases n with
        | zero => trivial
        | succ n =>
            have hnext := next_le_of_inside hat (inside_of_queueItems hqueue hrest)
            rw [entryItem_p hnext] at hrest
            exact ih hrest

theorem grows_printerTurn (item : EntryItem) (queues : List TmpQInfo)
    (hprinter : r.objectName = .printer) :
    Grows (if item.level ≥ numOfPrnPort then printerItems r w n item.p queues
      else do
        let queues ← readQueues r w item.name queues
        printerItems r w n item.p queues) := by
  intro P hP
  apply Keeps.ite
  · exact fun _ ↦ keeps_printerItems hP hprinter fun h ↦ h.elim
  · intro _
    apply (keeps_readQueues hP fun h ↦ h.elim).bind
    exact fun _ _ ↦ keeps_printerItems hP hprinter fun h ↦ h.elim

theorem inside_of_printerItems (hprinter : r.objectName = .printer) {queues : List TmpQInfo}
    (h : StayedIn r (exitState (printerItems r w (n + 1) p queues) s)) : r.Inside p 4 :=
  inside_of_itemReads (StayedIn.of_item (fun item ↦ grows_printerTurn item queues hprinter) h).1

/-- Of a printer without queues the loop only passes the name on. -/
theorem StayedIn.of_readQueues {α : Type} {f : List TmpQInfo → Parse α} {queues : List TmpQInfo}
    (hw : w.Smooth) (hread : ∀ n id, w.ndsRead n .queue id = .failed ndsNoSuchObject)
    (hf : Grows (f queues)) (h : StayedIn r (exitState (readQueues r w p queues >>= f) s)) :
    r.Stays (.name p) ∧ ∃ s', StayedIn r (exitState (f queues) s') := by
  have hnone : readQueues r w p queues s = .ok queues
      { s.seen r (.name p) with resolves := s.resolves + 1, reads := s.reads + 1 } := by
    rw [readQueues, bind_ok (ndsResolveName_ok hw _), bind_ok (ndsRead_ok hread)]
    rfl
  rw [exitState_bind_ok hnone] at h
  have hafter := h.of_exit hf
  have hseen : StayedIn r (s.seen r (.name p)) := hafter
  exact ⟨hseen.stays, _, h⟩

theorem itemsFit_of_printerItems (hw : w.Smooth)
    (hread : ∀ n id, w.ndsRead n .queue id = .failed ndsNoSuchObject)
    (hprinter : r.objectName = .printer) {queues : List TmpQInfo}
    (h : StayedIn r (exitState (printerItems r w n (r.buf + off) queues) s)) :
    r.ItemsFit n off := by
  induction n generalizing off queues s with
  | zero => trivial
  | succ n ih =>
      obtain ⟨hreads, hturn⟩ :=
        StayedIn.of_item (fun item ↦ grows_printerTurn item queues hprinter) h
      obtain ⟨hlength, hlevel⟩ := inside_itemReads_iff.mp hreads
      refine ⟨hlength, hlevel, ?_⟩
      obtain ⟨hn, hdown⟩ | ⟨hitem, s', hclean⟩ := hturn
      · exact Or.inl ⟨hn, (bufend_lt_entryItem_iff hlength).mp hdown⟩
      right
      have hat := AttrReply.stays_item_iff.mp hitem
      have hrest (t : Session)
          (h : StayedIn r (exitState (printerItems r w n (r.entryItem (r.buf + off)).p queues) t)) :
          r.ItemsFit n (r.next off) := by
        cases n with
        | zero => trivial
        | succ n =>
            have hnext := next_le_of_inside hat (inside_of_printerItems hprinter h)
            rw [entryItem_p hnext] at h
            exact ih h
      have hvalue : (r.entryItem (r.buf + off)).level = r.dword (off + 4) := by
        have hp : pointer (r.buf + off + 4) = r.buf + (off + 4) := pointer_length hlength
        rw [AttrReply.entryItem, if_pos hprinter, hp]
        rfl
      by_cases hport : (r.entryItem (r.buf + off)).level ≥ numOfPrnPort
      · rw [if_pos hport] at hclean
        refine ⟨hat, fun hused ↦ ?_, hrest s' hclean⟩
        rw [hvalue] at hport
        exact absurd (hused hprinter) (Nat.not_lt.mpr hport)
      · rw [if_neg hport] at hclean
        obtain ⟨hname, t, h⟩ := hclean.of_readQueues hw hread fun P hP ↦
          keeps_printerItems hP hprinter fun h ↦ h.elim
        exact ⟨hat, fun _ ↦ (stays_entryItem_name_iff hlength).mp hname, hrest t h⟩

/-! ## Heads, host servers and network addresses -/

/-- The head stays inside, and what is behind it where the head leads. -/
theorem headFits_of_clean {α : Type} {syntaxID : Nat} {narrow : Int → Int} {beyond : Nat → Bool}
    {rest : Nat → Nat → Prop} {k : Count → Parse α} (hnarrow : narrow (-1) ≤ 0)
    (hbeyond : Tests r beyond) (hk : ∀ x, Grows (k x))
    (h : StayedIn r (exitState (readHeader r syntaxID narrow beyond >>= k) s))
    (hrest : ∀ count off s', StayedIn r (exitState (k ⟨count, r.buf + off⟩) s') →
      rest count.toNat off) :
    r.HeadFits syntaxID narrow rest := by
  obtain ⟨ps, ⟨herror, hhead⟩ | ⟨x, off, hok, hoff, hhead⟩⟩ := readHeader_cases r hnarrow hbeyond s
  · rw [exitState_bind_error herror] at h
    exact (hhead rest).mpr h.of_read.2
  · rw [exitState_bind_ok hok] at h
    have hinside := (h.of_exit (hk x)).of_read.2
    refine (hhead rest).mpr ⟨hinside, hrest x.count off (s.read r ps) ?_⟩
    rw [← hoff hinside]
    exact h

theorem fits_of_readHostServer {c : Content} (hw : w.Smooth)
    (h : StayedIn ⟨c, .hostServer, w.buf, w.buf_lt⟩ (exitState (readHostServer w c) s)) :
    AttrReply.Fits ⟨c, .hostServer, w.buf, w.buf_lt⟩ := by
  let r : AttrReply := ⟨c, .hostServer, w.buf, w.buf_lt⟩
  show r.HeadFits 1 id (fun _ ↦ r.HostFits)
  refine headFits_of_clean (by decide) (tests_bufend r) ?_ h ?_
  · intro header P hP
    apply (keeps_ndsReadGetHostName hP fun h ↦ h.elim).bind
    intro item _
    apply (keeps_visit hP fun h ↦ h.elim).bind
    exact fun _ _ ↦ keeps_ndsResolveName hP fun h ↦ h.elim
  · intro count off s' h
    change StayedIn r (exitState (ndsResolveName r w (pointer (r.buf + off + 4))
      ndsECanNotGetFsEntry) ((s'.read r [r.buf + off]).seen r (.item (r.buf + off)))) at h
    rw [exitState_ok (ndsResolveName_ok hw _)] at h
    have hseen : StayedIn r (((s'.read r [r.buf + off]).seen r (.item (r.buf + off))).seen r
      (.name (pointer (r.buf + off + 4)))) := h
    have hlength : off + 4 ≤ r.outlen :=
      AttrReply.inside_iff.mp (hseen.of_seen.of_seen.of_read.2 _ List.mem_cons_self)
    have hname := hseen.stays
    rw [pointer_length hlength] at hname
    exact ⟨hlength, AttrReply.stays_item_iff.mp hseen.of_seen.stays,
      AttrReply.stays_name_iff.mp hname⟩

theorem fits_of_readNetworkAddress {c : Content}
    (h : StayedIn ⟨c, .networkAddress, w.buf, w.buf_lt⟩ (exitState (readNetworkAddress w c) s)) :
    AttrReply.Fits ⟨c, .networkAddress, w.buf, w.buf_lt⟩ := by
  let r : AttrReply := ⟨c, .networkAddress, w.buf, w.buf_lt⟩
  show r.HeadFits 12 id (fun _ ↦ r.AddressFits)
  refine headFits_of_clean (by decide) (tests_buf r) ?_ h ?_
  · intro header P hP
    apply (keeps_ndsReadGetNetworkAddress hP fun h ↦ h.elim).bind
    intro p _
    apply (keeps_visit hP fun h ↦ h.elim).bind
    intro _ _
    apply (keeps_visit hP fun h ↦ h.elim).bind
    exact fun _ _ ↦ Keeps.pure trivial
  · intro count off s' h
    have heq := ndsReadGetNetworkAddress_eq r (r.buf + off) s'
    by_cases hlength : r.dwordAt (pointer (pointer (r.buf + off + 4) + 4)) ≠ 12
    · rw [if_pos hlength] at heq
      rw [exitState_bind_error heq] at h
      have hnumbers := inside_addressReads_iff.mp h.of_read.2
      rw [(addressReads_pointers hnumbers).1] at hlength
      exact ⟨hnumbers, fun h ↦ absurd h hlength⟩
    · rw [if_neg hlength] at heq
      rw [exitState_bind_ok heq] at h
      have hseen : StayedIn r (((s'.read r (AttrReply.addressReads (r.buf + off))).seen r
        (.item (r.buf + off))).seen r
        (.read (pointer (pointer (pointer (r.buf + off + 4) + 4) + 4)) 12)) := h
      have hnumbers := inside_addressReads_iff.mp hseen.of_seen.of_seen.of_read.2
      have haddress := hseen.stays
      rw [(addressReads_pointers hnumbers).2] at haddress
      have hend := AttrReply.inside_iff.mp haddress
      exact ⟨hnumbers, fun _ ↦ ⟨by omega, AttrReply.stays_item_iff.mp hseen.of_seen.stays⟩⟩

theorem fits_of_readPrinters {c : Content} (hw : w.Smooth)
    (hread : ∀ n id, w.ndsRead n .queue id = .failed ndsNoSuchObject)
    (h : StayedIn ⟨c, .printer, w.buf, w.buf_lt⟩ (exitState (readPrinters w c) s)) :
    AttrReply.Fits ⟨c, .printer, w.buf, w.buf_lt⟩ := by
  let r : AttrReply := ⟨c, .printer, w.buf, w.buf_lt⟩
  show r.HeadFits 25 toInt16 r.ItemsFit
  refine headFits_of_clean toInt16_neg_one (tests_bufend r) ?_ h ?_
  · exact fun header P hP ↦ keeps_printerItems hP rfl fun h ↦ h.elim
  · exact fun count off s' h ↦ itemsFit_of_printerItems hw hread rfl h

/-- The queues of a printer that has them. -/
def queuesFrom (w : Surroundings) (c : Content) (queues : List TmpQInfo) :
    Parse (List TmpQInfo) := do
  let r : AttrReply := ⟨c, .queue, w.buf1, w.buf1_lt⟩
  let header ← readHeader r 25 toInt16 (fun p ↦ p > r.bufend)
  queueItems r w (min header.count.toNat maxNdsQueuePerPrn) 0 header.p queues

theorem fits_of_queuesFrom {c : Content} {queues : List TmpQInfo} (hw : w.Smooth)
    (h : StayedIn ⟨c, .queue, w.buf1, w.buf1_lt⟩ (exitState (queuesFrom w c queues) s)) :
    AttrReply.Fits ⟨c, .queue, w.buf1, w.buf1_lt⟩ := by
  let r : AttrReply := ⟨c, .queue, w.buf1, w.buf1_lt⟩
  show r.HeadFits 25 toInt16 (fun n ↦ r.ItemsFit (min n maxNdsQueuePerPrn))
  refine headFits_of_clean toInt16_neg_one (tests_bufend r) ?_ h ?_
  · exact fun header P hP ↦ keeps_queueItems hP rfl fun h ↦ h.elim
  · exact fun count off s' h ↦ itemsFit_of_queueItems hw rfl h

end Clean

/-! ## A directory around a reply -/

def octetsAt (buf : Nat) (octets : List UInt8) (a : Nat) : UInt8 := octets.getD (a - buf) 0

/-- One printer for the port, or one queue, with an empty name. -/
def oneItem (buf : Nat) : Content where
  outlen := 42
  mem := octetsAt buf (nset32 0 ++ nset32 1 ++ nset32 1 ++ nset32 25 ++ nset32 0 ++ nset32 1 ++
    nset32 14)
  outlen_pos := by decide
  outlen_le := by decide

/-- A host server with an empty name. -/
def oneHost (buf : Nat) : Content where
  outlen := 30
  mem := octetsAt buf (nset32 0 ++ nset32 1 ++ nset32 1 ++ nset32 1 ++ nset32 0 ++ nset32 1 ++
    nset32 2)
  outlen_pos := by decide
  outlen_le := by decide

section Probe

variable {r : AttrReply} {w : Surroundings} {s : Session}

theorem dword_octetsAt {octets : List UInt8} (hmem : r.mem = octetsAt r.buf octets) {k : Nat}
    (hk : k + 3 < 2048) : r.dword k = nget32 octets k := by
  have hoctet (i : Nat) : r.mem (r.buf + i) = octets.getD i 0 := by
    rw [hmem, octetsAt, Nat.add_sub_cancel_left]
  have hpointer (i : Nat) (hi : i ≤ 3) : pointer (r.buf + k + i) = r.buf + (k + i) := by
    rw [Nat.add_assoc]
    exact pointer_small (by omega)
  rw [AttrReply.dword, AttrReply.dwordAt, hpointer 1 (by decide), hpointer 2 (by decide),
    hpointer 3 (by decide), hoctet, hoctet, hoctet, hoctet, nget32]

/-- A head with one attribute of the syntax, no attribute name and one entry. -/
structure OneEntry (r : AttrReply) (syntaxID : Nat) : Prop where
  info : r.dword 4 = 1
  names : r.dword 8 = 1
  syn : r.dword 12 = syntaxID
  skiplen : r.dword 16 = 0
  entries : r.dword 20 = 1
  outlen : 24 ≤ r.outlen

theorem OneEntry.entries_eq {syntaxID : Nat} (hr : OneEntry r syntaxID) :
    r.entries = r.buf + 20 := by
  rw [AttrReply.entries, hr.skiplen]
  exact pointer_small (k := 20) (by decide)

theorem toInt32_one : toInt32 (1 : Nat) = 1 := by
  rw [toInt32]
  decide

/-- The head leads to the entry. -/
theorem OneEntry.rest {syntaxID : Nat} {narrow : Int → Int} {rest : Nat → Nat → Prop}
    (hr : OneEntry r syntaxID) (hone : narrow 1 = 1) (h : r.HeadFits syntaxID narrow rest) :
    rest 1 24 := by
  have hcount : r.dwordAt (r.buf + 20) = 1 := hr.entries
  obtain ⟨-, hinfo⟩ := h
  obtain ⟨-, hnames⟩ := hinfo hr.info
  rw [hr.names, toInt32_one] at hnames
  obtain ⟨-, hsyntax⟩ := hnames (by decide)
  obtain ⟨-, -, hrest⟩ := hsyntax hr.syn
  rw [hr.entries_eq, hcount, toInt32_one, hone] at hrest
  have hoff : r.buf + 20 + 4 - r.buf = 24 := by omega
  rw [hoff] at hrest
  exact hrest (by decide)

theorem readHeader_oneEntry {syntaxID : Nat} {narrow : Int → Int} {beyond : Nat → Bool}
    (hr : OneEntry r syntaxID) (hnarrow : narrow (-1) ≤ 0) (hone : narrow 1 = 1)
    (hbeyond : Tests r beyond) :
    ∃ s', readHeader r syntaxID narrow beyond s = .ok ⟨1, r.buf + 24⟩ s' := by
  have hlen := hr.outlen
  have hcount : r.dwordAt (r.buf + 20) = 1 := hr.entries
  have hnext : pointer (r.buf + 20 + 4) = r.buf + 24 := pointer_small (k := 24) (by decide)
  have hfirst : beyond (r.buf + 12) = false := hbeyond _ (by rw [AttrReply.bufend]; omega)
  have hsecond : beyond (r.buf + 24) = false := hbeyond _ (by rw [AttrReply.bufend]; omega)
  rw [readHeader_eq r hnarrow, if_neg (not_not.mpr hr.info), hr.names, toInt32_one,
    if_neg (by simp [hfirst]), if_neg (not_not.mpr hr.syn), hr.entries_eq, hcount, toInt32_one,
    hone, hnext, if_neg (by simp [hsecond])]
  exact ⟨_, rfl⟩

theorem oneEntry_octetsAt {octets : List UInt8} {syntaxID : Nat}
    (hmem : r.mem = octetsAt r.buf octets) (houtlen : 24 ≤ r.outlen)
    (h : [4, 8, 12, 16, 20].map (nget32 octets) = [1, 1, syntaxID, 0, 1]) :
    OneEntry r syntaxID := by
  have hdword {k : Nat} (hk : k + 3 < 2048) := dword_octetsAt hmem hk
  obtain ⟨h4, h8, h12, h16, h20, -⟩ := by simpa only [List.map_cons, List.cons.injEq] using h
  exact ⟨(hdword (by decide)).trans h4, (hdword (by decide)).trans h8,
    (hdword (by decide)).trans h12, (hdword (by decide)).trans h16,
    (hdword (by decide)).trans h20, houtlen⟩

theorem oneItem_oneEntry (objectName : ObjectName) {buf : Nat} (hbuf : buf + 2048 < 2 ^ 32) :
    OneEntry ⟨oneItem buf, objectName, buf, hbuf⟩ 25 ∧
      (⟨oneItem buf, objectName, buf, hbuf⟩ : AttrReply).dword 28 = 0 := by
  constructor
  · apply oneEntry_octetsAt rfl
    · show 24 ≤ 42
      decide
    · decide +kernel
  · exact (dword_octetsAt rfl (by decide)).trans (by decide +kernel)

theorem oneHost_oneEntry {buf : Nat} (hbuf : buf + 2048 < 2 ^ 32) :
    OneEntry ⟨oneHost buf, .hostServer, buf, hbuf⟩ 1 := by
  apply oneEntry_octetsAt rfl
  · show 24 ≤ 30
    decide
  · decide +kernel

/-- The queues before any has been read. -/
def noQueues : List TmpQInfo := List.replicate (maxNdsQueuePerPrn + 1) ⟨0, 0, 0⟩

/-- The queues with one. -/
def oneQueue (name : Nat) : List TmpQInfo := noQueues.set 0 ⟨1, 0, UInt32.ofNat name⟩

theorem bind_pure_eq {α : Type} (m : Parse α) : (m >>= fun a ↦ pure a) s = m s := by
  cases hm : m s with
  | ok a s' => rw [bind_ok hm]; rfl
  | error e s' => rw [bind_error hm]

/-- The only item is not tested. -/
theorem lastItem {α : Type} {k : EntryItem → Parse α} {p : Nat} :
    (do
      let item ← ndsReadGetEntryItem r p
      if 0 ≠ 0 ∧ item.p > r.bufend then throw ndsNcpPacketLength
      else
        visit r (.item p)
        k item) s =
      k (r.entryItem p) ((s.read r (r.itemReads p)).seen r (.item p)) := by
  rw [bind_ok (ndsReadGetEntryItem_eq p s), if_neg (fun h ↦ h.1 rfl)]
  rfl

/-- Of one printer the queues are asked for. -/
theorem readPrinters_oneItem :
    ∃ name s', readPrinters w (oneItem w.buf) s =
      readQueues ⟨oneItem w.buf, .printer, w.buf, w.buf_lt⟩ w name noQueues s' := by
  let r : AttrReply := ⟨oneItem w.buf, .printer, w.buf, w.buf_lt⟩
  obtain ⟨hentry, hlevel⟩ := oneItem_oneEntry .printer w.buf_lt
  obtain ⟨s₁, hhead⟩ := readHeader_oneEntry (s := s) hentry toInt16_neg_one
    (by rw [toInt16]; decide) (tests_bufend r)
  have hvalue : (r.entryItem (r.buf + 24)).level = 0 := by
    have hp : pointer (r.buf + 24 + 4) = r.buf + 28 := pointer_small (k := 28) (by decide)
    rw [AttrReply.entryItem, if_pos rfl, hp]
    exact hlevel
  refine ⟨(r.entryItem (r.buf + 24)).name,
    (s₁.read r (r.itemReads (r.buf + 24))).seen r (.item (r.buf + 24)), ?_⟩
  rw [readPrinters, bind_ok hhead]
  show printerItems r w 1 (r.buf + 24) noQueues s₁ = _
  rw [printerItems, lastItem, hvalue, if_neg (by decide)]
  exact bind_pure_eq _

/-- For the queues of a printer the directory is asked once its name is resolved. -/
theorem readQueues_reply {c : Content} (hw : w.Smooth) (name : Nat)
    (hread : ∀ n id, w.ndsRead n .queue id = .reply c) :
    ∃ s', readQueues r w name noQueues s = queuesFrom w c noQueues s' := by
  refine ⟨{ s.seen r (.name name) with resolves := s.resolves + 1, reads := s.reads + 1 }, ?_⟩
  rw [readQueues, bind_ok (ndsResolveName_ok hw _), bind_ok (ndsRead_ok hread)]
  rfl

theorem queuesFrom_oneItem (hw : w.Smooth) :
    ∃ name s', queuesFrom w (oneItem w.buf1) noQueues s = .ok (oneQueue name) s' := by
  let r : AttrReply := ⟨oneItem w.buf1, .queue, w.buf1, w.buf1_lt⟩
  obtain ⟨hentry, -⟩ := oneItem_oneEntry .queue w.buf1_lt
  obtain ⟨s₁, hhead⟩ := readHeader_oneEntry (s := s) hentry toInt16_neg_one
    (by rw [toInt16]; decide) (tests_bufend r)
  rw [queuesFrom, bind_ok hhead]
  show ∃ name s', queueItems r w 1 0 (r.buf + 24) noQueues s₁ = .ok (oneQueue name) s'
  rw [queueItems, lastItem, bind_ok (ndsResolveName_ok hw _), bind_ok (alloc_ok hw)]
  exact ⟨_, _, rfl⟩

/-- The host server of the queue is asked for, and with it the loop over the queues ends. -/
theorem hostServers_oneQueue {c : Content} (name : Nat)
    (hread : ∀ n id, w.ndsRead n .hostServer id = .reply c) :
    ∃ s', hostServers w ((oneQueue name).takeWhile fun q ↦ q.queueID ≠ 0) ⟨[], []⟩ s =
      (readHostServer w c >>= fun id ↦
        let added := addFileServer 0 id []
        pure ⟨[{ queueID := 1, fsIndex := added.1, queueName := UInt32.ofNat name }], added.2.1⟩)
        s' := by
  refine ⟨{ s with reads := s.reads + 1 }, ?_⟩
  show hostServers w [{ queueID := 1, fsIndex := 0, queueName := UInt32.ofNat name }] ⟨[], []⟩ s = _
  rw [hostServers, bind_ok (ndsRead_ok hread)]
  rfl

theorem readHostServer_oneHost (hw : w.Smooth) :
    ∃ s', readHostServer w (oneHost w.buf) s = .ok 1 s' := by
  let r : AttrReply := ⟨oneHost w.buf, .hostServer, w.buf, w.buf_lt⟩
  obtain ⟨s₁, hhead⟩ := @readHeader_oneEntry r s 1 id _ (oneHost_oneEntry w.buf_lt) (by decide)
    rfl (tests_bufend r)
  rw [readHostServer, bind_ok hhead, bind_ok (ndsReadGetHostName_eq r _ _)]
  show ∃ s', ndsResolveName r w _ ndsECanNotGetFsEntry _ = .ok 1 s'
  rw [ndsResolveName_ok hw]
  exact ⟨_, rfl⟩

/-- The reply to the first question is parsed and the servers follow. -/
theorem ndsGetPrinterQueue_reply {c : Content} (hw : w.Smooth)
    (hread : ∀ n id, w.ndsRead n .printer id = .reply c) (printServerID : UInt32) :
    ∃ s', ndsGetPrinterQueue w printServerID s = (readPrinters w c >>= readServers w) s' := by
  rw [ndsGetPrinterQueue, bind_ok (alloc_ok hw), bind_ok (alloc_ok hw), bind_ok (alloc_ok hw),
    bind_ok (alloc_ok hw), bind_ok (ndsRead_ok hread)]
  exact ⟨{ s with mallocs := s.mallocs + 1 + 1 + 1 + 1, reads := s.reads + 1 }, rfl⟩

theorem grows_readServers (queues : List TmpQInfo) : Grows (readServers w queues) :=
  fun _ hP ↦ (keeps_readServers hP)

/-- A buffer beside the one at `buf`. -/
def beside (buf : Nat) : Nat := if buf < 2 ^ 31 then buf + 2048 else buf - 2048

theorem beside_lt {buf : Nat} (h : buf + 2048 < 2 ^ 32) : beside buf + 2048 < 2 ^ 32 := by
  rw [beside]
  split
  · omega
  · omega

theorem beside_apart {buf : Nat} (h : buf + 2048 < 2 ^ 32) :
    buf + 2048 ≤ beside buf ∨ beside buf + 2048 ≤ buf := by
  rw [beside]
  split
  · omega
  · omega

/-- A directory that answers the same each time. -/
def directory (buf buf1 : Nat) (buf_lt : buf + 2048 < 2 ^ 32) (buf1_lt : buf1 + 2048 < 2 ^ 32)
    (apart : buf + 2048 ≤ buf1 ∨ buf1 + 2048 ≤ buf) (answer : ObjectName → ReadAnswer) :
    Surroundings where
  buf
  buf1
  buf_lt
  buf1_lt
  apart
  ndsRead _ objectName _ := answer objectName
  ndsResolveName _ := .ok 1
  malloc _ := true

/-- One answer for each kind of object. -/
def answers (printer queue hostServer networkAddress : ReadAnswer) : ObjectName → ReadAnswer
  | .printer => printer
  | .queue => queue
  | .hostServer => hostServer
  | .networkAddress => networkAddress

theorem directory_smooth {buf buf1 : Nat} {buf_lt : buf + 2048 < 2 ^ 32}
    {buf1_lt : buf1 + 2048 < 2 ^ 32} {apart : buf + 2048 ≤ buf1 ∨ buf1 + 2048 ≤ buf}
    {answer : ObjectName → ReadAnswer} :
    (directory buf buf1 buf_lt buf1_lt apart answer).Smooth :=
  ⟨fun _ ↦ rfl, fun _ ↦ rfl⟩

/-- Queues of one printer in which there is one. -/
theorem readPrinters_oneQueue (hw : w.Smooth)
    (hqueue : ∀ n id, w.ndsRead n .queue id = .reply (oneItem w.buf1)) :
    ∃ name s', readPrinters w (oneItem w.buf) s = .ok (oneQueue name) s' := by
  obtain ⟨name, s₁, hprinters⟩ := readPrinters_oneItem (w := w) (s := s)
  obtain ⟨s₂, hqueues⟩ := readQueues_reply (r := ⟨oneItem w.buf, .printer, w.buf, w.buf_lt⟩)
    (s := s₁) hw name hqueue
  rw [hprinters, hqueues]
  exact queuesFrom_oneItem hw

/-- The host server of the one queue is asked for. -/
theorem StayedIn.of_readServers {c : Content} {name : Nat}
    (hread : ∀ n id, w.ndsRead n .hostServer id = .reply c)
    (h : StayedIn r (exitState (readServers w (oneQueue name)) s)) :
    ∃ s', StayedIn r (exitState (readHostServer w c) s') := by
  have hhosts := h.of_bind fun hosts P hP ↦ keeps_readAddresses hP
  obtain ⟨s', heq⟩ := hostServers_oneQueue (s := s) name hread
  rw [exitState, heq] at hhosts
  exact ⟨s', StayedIn.of_bind (fun id P hP ↦ Keeps.pure trivial) hhosts⟩

/-- The address of the one file server is asked for. -/
theorem StayedIn.of_readServers_oneHost {c : Content} {name : Nat} (hw : w.Smooth)
    (hhost : ∀ n id, w.ndsRead n .hostServer id = .reply (oneHost w.buf))
    (hread : ∀ n id, w.ndsRead n .networkAddress id = .reply c)
    (h : StayedIn r (exitState (readServers w (oneQueue name)) s)) :
    ∃ s', StayedIn r (exitState (readNetworkAddress w c) s') := by
  obtain ⟨s₁, heq⟩ := hostServers_oneQueue (s := s) name hhost
  obtain ⟨s₂, hserver⟩ := readHostServer_oneHost (s := s₁) hw
  rw [bind_ok hserver] at heq
  rw [readServers, exitState_bind_ok heq] at h
  change StayedIn r (exitState (alloc w >>= _) s₂) at h
  obtain ⟨k, s₃, h⟩ := h.of_alloc hw
  have haddresses := h.of_bind fun _ P hP ↦ Keeps.pure trivial
  change StayedIn r (exitState (networkAddresses w [⟨1, 0⟩] []) s₃) at haddresses
  rw [networkAddresses, exitState_bind_ok (ndsRead_ok hread)] at haddresses
  exact ⟨_, StayedIn.of_bind (fun _ P hP ↦ keeps_networkAddresses hP) haddresses⟩

end Probe

/-! ## The replies that are parsed inside -/

/-- Before `NDSGetPrinterQueue`. -/
def Session.start (ndStatus : Nat) : Session := ⟨ndStatus, 0, 0, 0, []⟩

/-- The session behind `NDSGetPrinterQueue`. -/
def Surroundings.run (w : Surroundings) (printServerID : UInt32) (ndStatus : Nat) : Session :=
  exitState (ndsGetPrinterQueue w printServerID) (Session.start ndStatus)

theorem stayedIn_of_fits {r : AttrReply} (hr : r.Fits) (w : Surroundings) (printServerID : UInt32)
    (ndStatus : Nat) : StayedIn r (w.run printServerID ndStatus) := by
  have hstable : Stable AttrReply.Fits fun s ↦ ∀ x ∈ s.visits, x.1.Fits → x.1.Stays x.2 := by
    refine ⟨id, fun hv hs x hx hfits ↦ ?_, fun hs heq x hx ↦ hs x (heq ▸ hx)⟩
    obtain hx | hx := List.mem_append.mp hx
    · exact hs x hx hfits
    · rw [List.mem_singleton.mp hx] at hfits ⊢
      exact hv hfits
  have hkeeps : Keeps _ (ndsGetPrinterQueue w printServerID) _ := keeps_ndsGetPrinterQueue hstable
  have hexit := (hkeeps (Session.start ndStatus) fun _ hx ↦ absurd hx List.not_mem_nil).1
  exact fun v hv ↦ hexit (r, v) hv hr

section Around

variable {r : AttrReply} {w : Surroundings} {c c₁ : Content} {ndStatus : Nat}

/-- The printers are parsed, and then the servers are asked for. -/
theorem StayedIn.of_run (hw : w.Smooth) (hprinter : ∀ n id, w.ndsRead n .printer id = .reply c₁)
    (h : StayedIn r (w.run 0 ndStatus)) :
    ∃ s, StayedIn r (exitState (readPrinters w c₁ >>= readServers w) s) := by
  obtain ⟨s, heq⟩ := ndsGetPrinterQueue_reply (s := Session.start ndStatus) hw hprinter 0
  rw [Surroundings.run, exitState, heq] at h
  exact ⟨s, h⟩

theorem fits_printer (hw : w.Smooth) (hprinter : ∀ n id, w.ndsRead n .printer id = .reply c)
    (hqueue : ∀ n id, w.ndsRead n .queue id = .failed ndsNoSuchObject)
    (h : StayedIn ⟨c, .printer, w.buf, w.buf_lt⟩ (w.run 0 ndStatus)) :
    AttrReply.Fits ⟨c, .printer, w.buf, w.buf_lt⟩ := by
  obtain ⟨s, h⟩ := h.of_run hw hprinter
  exact fits_of_readPrinters hw hqueue (h.of_bind grows_readServers)

theorem fits_queue (hw : w.Smooth)
    (hprinter : ∀ n id, w.ndsRead n .printer id = .reply (oneItem w.buf))
    (hqueue : ∀ n id, w.ndsRead n .queue id = .reply c)
    (h : StayedIn ⟨c, .queue, w.buf1, w.buf1_lt⟩ (w.run 0 ndStatus)) :
    AttrReply.Fits ⟨c, .queue, w.buf1, w.buf1_lt⟩ := by
  obtain ⟨s, h⟩ := h.of_run hw hprinter
  have hprinters := h.of_bind grows_readServers
  obtain ⟨name, s₁, heq₁⟩ := readPrinters_oneItem (w := w) (s := s)
  obtain ⟨s₂, heq₂⟩ := readQueues_reply (r := ⟨oneItem w.buf, .printer, w.buf, w.buf_lt⟩)
    (s := s₁) hw name hqueue
  rw [exitState, heq₁, heq₂] at hprinters
  exact fits_of_queuesFrom hw hprinters

/-- With one queue of one printer the servers of that queue are asked for. -/
theorem StayedIn.of_run_oneQueue (hw : w.Smooth)
    (hprinter : ∀ n id, w.ndsRead n .printer id = .reply (oneItem w.buf))
    (hqueue : ∀ n id, w.ndsRead n .queue id = .reply (oneItem w.buf1))
    (h : StayedIn r (w.run 0 ndStatus)) :
    ∃ name s, StayedIn r (exitState (readServers w (oneQueue name)) s) := by
  obtain ⟨s, h⟩ := h.of_run hw hprinter
  obtain ⟨name, s₁, heq⟩ := readPrinters_oneQueue (s := s) hw hqueue
  rw [exitState_bind_ok heq] at h
  exact ⟨name, s₁, h⟩

theorem fits_hostServer (hw : w.Smooth)
    (hprinter : ∀ n id, w.ndsRead n .printer id = .reply (oneItem w.buf))
    (hqueue : ∀ n id, w.ndsRead n .queue id = .reply (oneItem w.buf1))
    (hhost : ∀ n id, w.ndsRead n .hostServer id = .reply c)
    (h : StayedIn ⟨c, .hostServer, w.buf, w.buf_lt⟩ (w.run 0 ndStatus)) :
    AttrReply.Fits ⟨c, .hostServer, w.buf, w.buf_lt⟩ := by
  obtain ⟨name, s, h⟩ := h.of_run_oneQueue hw hprinter hqueue
  obtain ⟨s₁, h⟩ := h.of_readServers hhost
  exact fits_of_readHostServer hw h

theorem fits_networkAddress (hw : w.Smooth)
    (hprinter : ∀ n id, w.ndsRead n .printer id = .reply (oneItem w.buf))
    (hqueue : ∀ n id, w.ndsRead n .queue id = .reply (oneItem w.buf1))
    (hhost : ∀ n id, w.ndsRead n .hostServer id = .reply (oneHost w.buf))
    (haddress : ∀ n id, w.ndsRead n .networkAddress id = .reply c)
    (h : StayedIn ⟨c, .networkAddress, w.buf, w.buf_lt⟩ (w.run 0 ndStatus)) :
    AttrReply.Fits ⟨c, .networkAddress, w.buf, w.buf_lt⟩ := by
  obtain ⟨name, s, h⟩ := h.of_run_oneQueue hw hprinter hqueue
  obtain ⟨s₁, h⟩ := h.of_readServers_oneHost hw hhost haddress
  exact fits_of_readNetworkAddress h

end Around

theorem fits_of_stayedIn {r : AttrReply}
    (h : ∀ w printServerID ndStatus, StayedIn r (Surroundings.run w printServerID ndStatus)) :
    r.Fits := by
  obtain ⟨c, objectName, buf, hbuf⟩ := r
  have hlt := beside_lt hbuf
  have happart := beside_apart hbuf
  cases objectName with
  | printer =>
      let w := directory buf (beside buf) hbuf hlt happart (answers (.reply c) (.failed ndsNoSuchObject)
        (.failed ndsNoSuchObject) (.failed ndsNoSuchObject))
      exact fits_printer (w := w) directory_smooth (fun _ _ ↦ rfl) (fun _ _ ↦ rfl) (h w 0 0)
  | queue =>
      let w := directory (beside buf) buf hlt hbuf happart.symm (answers
        (.reply (oneItem (beside buf))) (.reply c) (.failed 0) (.failed 0))
      exact fits_queue (w := w) directory_smooth (fun _ _ ↦ rfl) (fun _ _ ↦ rfl) (h w 0 0)
  | hostServer =>
      let w := directory buf (beside buf) hbuf hlt happart (answers (.reply (oneItem buf))
        (.reply (oneItem (beside buf))) (.reply c) (.failed 0))
      exact fits_hostServer (w := w) directory_smooth (fun _ _ ↦ rfl) (fun _ _ ↦ rfl)
        (fun _ _ ↦ rfl) (h w 0 0)
  | networkAddress =>
      let w := directory buf (beside buf) hbuf hlt happart (answers (.reply (oneItem buf))
        (.reply (oneItem (beside buf))) (.reply (oneHost buf)) (.reply c))
      exact fits_networkAddress (w := w) directory_smooth (fun _ _ ↦ rfl) (fun _ _ ↦ rfl)
        (fun _ _ ↦ rfl) (fun _ _ ↦ rfl) (h w 0 0)

/-- The function never leaves a reply, whatever else the directory answers, if and only if the reply
fits. -/
theorem stayedIn_iff (r : AttrReply) :
    (∀ w printServerID ndStatus, StayedIn r (Surroundings.run w printServerID ndStatus)) ↔
      r.Fits :=
  ⟨fits_of_stayedIn, fun hr w printServerID ndStatus ↦
    stayedIn_of_fits hr w printServerID ndStatus⟩

/-- The head of a reply with one printer, and nothing behind it. -/
def announced (buf : Nat) : Content where
  outlen := 24
  mem := octetsAt buf (nset32 0 ++ nset32 1 ++ nset32 1 ++ nset32 25 ++ nset32 0 ++ nset32 1)
  outlen_pos := by decide
  outlen_le := by decide

theorem announced_oneEntry {buf : Nat} (hbuf : buf + 2048 < 2 ^ 32) :
    OneEntry ⟨announced buf, .printer, buf, hbuf⟩ 25 :=
  oneEntry_octetsAt rfl (Nat.le_refl 24) (by decide +kernel)

/-- The length of the printer's item is read behind the reply. -/
theorem announced_left :
    ¬ ∀ w printServerID ndStatus, StayedIn ⟨announced 4096, .printer, 4096, by decide⟩
      (Surroundings.run w printServerID ndStatus) := by
  intro h
  have hfits : AttrReply.Fits ⟨announced 4096, .printer, 4096, by decide⟩ := fits_of_stayedIn h
  have hentry : OneEntry ⟨announced 4096, .printer, 4096, by decide⟩ 25 :=
    announced_oneEntry (by decide)
  have hitems := hentry.rest (by rw [toInt16]; decide) hfits
  exact absurd hitems.1 (by decide)

end PrintServer.Nds
