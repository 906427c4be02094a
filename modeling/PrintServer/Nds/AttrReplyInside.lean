import PrintServer.Nds.AttrReplyFits

/-!
# A reply that fits is parsed inside

What a step of the function keeps of the session is stated once for all that outlives its calls and
its visits inside the replies of `good`: with those that fit for `good` it says that the function
stays inside them, with none that what has been done with a reply is never forgotten.
-/

namespace PrintServer.Nds

open Lib
open Novell (TmpQInfo TmpFSInfo numOfPrnPort addFileServer)

/-! ## The head of a reply -/

section Head

variable (r : AttrReply) {syntaxID : Nat} {narrow : Int → Int} {beyond : Nat → Bool} {s : Session}

/-- The session behind four octets read at each of the pointers. -/
def Session.read (s : Session) (ps : List Nat) : Session :=
  ps.foldl (fun s p ↦ s.seen r (.read p 4)) s

theorem ndsReadGetAttrCount_eq (p : Nat) :
    ndsReadGetAttrCount r p s =
      if r.dwordAt (pointer (p + 4)) ≠ 1 then
        .ok ⟨-1, pointer (pointer (p + 4) + 4)⟩ (s.read r [p, pointer (p + 4)])
      else
        .ok ⟨toInt32 (r.dwordAt (pointer (pointer (p + 4) + 4))),
            pointer (pointer (pointer (p + 4) + 4) + 4)⟩
          (s.read r [p, pointer (p + 4), pointer (pointer (p + 4) + 4)]) := by
  show (if r.dwordAt (pointer (p + 4)) ≠ 1 then pure _ else _ : Parse Count)
    (s.read r [p, pointer (p + 4)]) = _
  split
  · rfl
  · rfl

theorem ndsReadEntryCount_eq (p : Nat) :
    ndsReadEntryCount r syntaxID p s =
      if r.dwordAt p ≠ syntaxID then .ok ⟨-1, pointer (p + 4)⟩ (s.read r [p])
      else
        let entries := pointer (pointer (pointer (p + 4) + 4) +
          roundUp (r.dwordAt (pointer (p + 4))))
        .ok ⟨toInt32 (r.dwordAt entries), pointer (entries + 4)⟩
          (s.read r [p, pointer (p + 4), entries]) := by
  show (if r.dwordAt p ≠ syntaxID then pure _ else _ : Parse Count) (s.read r [p]) = _
  split
  · rfl
  · rfl

theorem pointer_small {r : AttrReply} {k : Nat} (hk : k < 2048) :
    pointer (r.buf + k) = r.buf + k := by
  have hlt := r.buf_lt
  apply Nat.mod_eq_of_lt
  omega

theorem readHeader_eq (hnarrow : narrow (-1) ≤ 0) :
    readHeader r syntaxID narrow beyond s =
      if r.dword 4 ≠ 1 then .error ndsNcpPacketLength (s.read r [r.buf, r.buf + 4])
      else if toInt32 (r.dword 8) ≤ 0 ∨ beyond (r.buf + 12) then
        .error ndsNcpPacketLength (s.read r [r.buf, r.buf + 4, r.buf + 8])
      else if r.dword 12 ≠ syntaxID then
        .error ndsNcpPacketLength (s.read r [r.buf, r.buf + 4, r.buf + 8, r.buf + 12])
      else if narrow (toInt32 (r.dwordAt r.entries)) ≤ 0 ∨ beyond (pointer (r.entries + 4)) then
        .error ndsNcpPacketLength
          (s.read r [r.buf, r.buf + 4, r.buf + 8, r.buf + 12, r.buf + 16, r.entries])
      else
        .ok ⟨narrow (toInt32 (r.dwordAt r.entries)), pointer (r.entries + 4)⟩
          (s.read r [r.buf, r.buf + 4, r.buf + 8, r.buf + 12, r.buf + 16, r.entries]) := by
  have h4 : pointer (r.buf + 4) = r.buf + 4 := pointer_small (by decide)
  have h8 : pointer (r.buf + 4 + 4) = r.buf + 8 := pointer_small (k := 8) (by decide)
  have h12 : pointer (r.buf + 8 + 4) = r.buf + 12 := pointer_small (k := 12) (by decide)
  have h16 : pointer (r.buf + 12 + 4) = r.buf + 16 := pointer_small (k := 16) (by decide)
  have h20 : pointer (r.buf + 16 + 4) = r.buf + 20 := pointer_small (k := 20) (by decide)
  have hattrs : ndsReadGetAttrCount r r.buf s =
      if r.dword 4 ≠ 1 then .ok ⟨-1, r.buf + 8⟩ (s.read r [r.buf, r.buf + 4])
      else .ok ⟨toInt32 (r.dword 8), r.buf + 12⟩ (s.read r [r.buf, r.buf + 4, r.buf + 8]) := by
    have h := ndsReadGetAttrCount_eq r (s := s) r.buf
    rw [h4, h8, h12] at h
    exact h
  by_cases hinfo : r.dword 4 ≠ 1
  · rw [if_pos hinfo] at hattrs ⊢
    rw [readHeader, bind_ok hattrs]
    rfl
  rw [if_neg hinfo] at hattrs ⊢
  rw [readHeader, bind_ok hattrs]
  by_cases hnames : toInt32 (r.dword 8) ≤ 0 ∨ beyond (r.buf + 12)
  · rw [if_pos hnames, if_pos hnames]
    rfl
  rw [if_neg hnames, if_neg hnames]
  have hentries : ndsReadEntryCount r syntaxID (r.buf + 12)
      (s.read r [r.buf, r.buf + 4, r.buf + 8]) =
      if r.dword 12 ≠ syntaxID then
        .ok ⟨-1, r.buf + 16⟩ (s.read r [r.buf, r.buf + 4, r.buf + 8, r.buf + 12])
      else .ok ⟨toInt32 (r.dwordAt r.entries), pointer (r.entries + 4)⟩
        (s.read r [r.buf, r.buf + 4, r.buf + 8, r.buf + 12, r.buf + 16, r.entries]) := by
    have h := @ndsReadEntryCount_eq r syntaxID (s.read r [r.buf, r.buf + 4, r.buf + 8])
      (r.buf + 12)
    rw [h16, h20] at h
    exact h
  by_cases hsyntax : r.dword 12 ≠ syntaxID
  · rw [if_pos hsyntax] at hentries ⊢
    rw [bind_ok hentries]
    exact congrFun (if_pos (Or.inl hnarrow)) _
  rw [if_neg hsyntax] at hentries ⊢
  rw [bind_ok hentries]
  by_cases hcount : narrow (toInt32 (r.dwordAt r.entries)) ≤ 0 ∨ beyond (pointer (r.entries + 4))
  · rw [if_pos hcount, if_pos hcount]
    rfl
  · rw [if_neg hcount, if_neg hcount]
    rfl

/-- The test of the pointer fails for no pointer up to the end of the reply. -/
def Tests (r : AttrReply) (beyond : Nat → Bool) : Prop := ∀ p ≤ r.bufend, beyond p = false

theorem inside_buf {n : Nat} : r.Inside r.buf n ↔ n ≤ r.outlen := by
  have h := @AttrReply.inside_iff r 0 n
  rw [Nat.add_zero, Nat.zero_add] at h
  exact h

theorem le_of_tests (hbeyond : Tests r beyond) {k : Nat} (hk : beyond (r.buf + k) = true) :
    r.outlen < k := by
  by_contra hle
  have hfalse := hbeyond (r.buf + k) (by rw [AttrReply.bufend]; omega)
  exact Bool.false_ne_true (hfalse.symm.trans hk)

theorem tests_bufend : Tests r (fun p ↦ p > r.bufend) :=
  fun _ hp ↦ decide_eq_false (Nat.not_lt.mpr hp)

theorem tests_buf : Tests r (fun _ ↦ r.buf > r.bufend) :=
  fun _ _ ↦ decide_eq_false (Nat.not_lt.mpr (Nat.le_add_right r.buf r.outlen))

theorem toInt16_neg_one : toInt16 (-1) ≤ 0 := by
  rw [toInt16]
  decide

/-- The head is read to its end, or the reply is turned down; it fits as far as that if and only if
what has been read is inside. -/
theorem readHeader_cases (hnarrow : narrow (-1) ≤ 0) (hbeyond : Tests r beyond) (s : Session) :
    ∃ ps,
      (readHeader r syntaxID narrow beyond s = .error ndsNcpPacketLength (s.read r ps) ∧
        ∀ rest, r.HeadFits syntaxID narrow rest ↔ ∀ p ∈ ps, r.Inside p 4) ∨
      ∃ x off, readHeader r syntaxID narrow beyond s = .ok x (s.read r ps) ∧
        ((∀ p ∈ ps, r.Inside p 4) → x.p = r.buf + off) ∧
        ∀ rest, r.HeadFits syntaxID narrow rest ↔
          (∀ p ∈ ps, r.Inside p 4) ∧ rest x.count.toNat off := by
  rw [readHeader_eq r hnarrow]
  by_cases hinfo : r.dword 4 ≠ 1
  · refine ⟨_, Or.inl ⟨if_pos hinfo, fun rest ↦ ?_⟩⟩
    simp only [List.forall_mem_cons, List.not_mem_nil, false_implies, implies_true, and_true,
      inside_buf, AttrReply.inside_iff, AttrReply.HeadFits, hinfo]
    omega
  rw [if_neg hinfo]
  rw [ne_eq, not_not] at hinfo
  by_cases hnames : toInt32 (r.dword 8) ≤ 0 ∨ beyond (r.buf + 12)
  · refine ⟨_, Or.inl ⟨if_pos hnames, fun rest ↦ ?_⟩⟩
    simp only [List.forall_mem_cons, List.not_mem_nil, false_implies, implies_true, and_true,
      inside_buf, AttrReply.inside_iff, AttrReply.HeadFits, hinfo, forall_const]
    rcases hnames with hnames | hnames
    · simp only [Int.not_lt.mpr hnames, false_implies, and_true]
      omega
    · have hlt := le_of_tests r hbeyond hnames
      omega
  rw [if_neg hnames]
  have hpos : 0 < toInt32 (r.dword 8) := by
    by_contra hle
    exact hnames (Or.inl (Int.not_lt.mp hle))
  by_cases hsyntax : r.dword 12 ≠ syntaxID
  · refine ⟨_, Or.inl ⟨if_pos hsyntax, fun rest ↦ ?_⟩⟩
    simp only [List.forall_mem_cons, List.not_mem_nil, false_implies, implies_true, and_true,
      inside_buf, AttrReply.inside_iff, AttrReply.HeadFits, hinfo, forall_const, hpos, hsyntax]
    omega
  rw [if_neg hsyntax]
  rw [ne_eq, not_not] at hsyntax
  have hhead (rest : Nat → Nat → Prop) : r.HeadFits syntaxID narrow rest ↔ 20 ≤ r.outlen ∧
      r.Inside r.entries 4 ∧ (0 < narrow (toInt32 (r.dwordAt r.entries)) →
        rest (narrow (toInt32 (r.dwordAt r.entries))).toNat (r.entries + 4 - r.buf)) := by
    simp only [AttrReply.HeadFits, hinfo, forall_const, hpos, hsyntax]
    exact ⟨fun h ↦ h.2.2.2, fun h ↦ ⟨by omega, by omega, by omega, h⟩⟩
  have hreads : (∀ p ∈ [r.buf, r.buf + 4, r.buf + 8, r.buf + 12, r.buf + 16, r.entries],
      r.Inside p 4) ↔ 20 ≤ r.outlen ∧ r.Inside r.entries 4 := by
    simp only [List.forall_mem_cons, List.not_mem_nil, false_implies, implies_true, and_true,
      inside_buf, AttrReply.inside_iff]
    exact ⟨fun h ↦ h.2.2.2.2, fun h ↦ ⟨by omega, by omega, by omega, by omega, h⟩⟩
  by_cases hcount : narrow (toInt32 (r.dwordAt r.entries)) ≤ 0 ∨ beyond (pointer (r.entries + 4))
  · refine ⟨_, Or.inl ⟨if_pos hcount, fun rest ↦ ?_⟩⟩
    rw [hhead, hreads]
    rcases hcount with hcount | hcount
    · simp only [Int.not_lt.mpr hcount, false_implies, and_true]
    · constructor
      · exact fun h ↦ ⟨h.1, h.2.1⟩
      · intro h
        have hend : pointer (r.entries + 4) ≤ r.bufend :=
          (AttrReply.pointer_of_le h.2.2).le.trans h.2.2
        exact absurd ((hbeyond _ hend).symm.trans hcount) Bool.false_ne_true
  · have hnum : 0 < narrow (toInt32 (r.dwordAt r.entries)) := by
      by_contra hle
      exact hcount (Or.inl (Int.not_lt.mp hle))
    refine ⟨_, Or.inr ⟨_, r.entries + 4 - r.buf, if_neg hcount, ?_, fun rest ↦ ?_⟩⟩
    · rw [hreads]
      intro h
      show pointer (r.entries + 4) = _
      rw [AttrReply.pointer_of_le h.2.2]
      have hle := h.2.1
      omega
    · rw [hhead, hreads, and_assoc]
      simp only [hnum, forall_const]

end Head

/-- `P` outlives the calls, and what is done with a reply if it stays inside those of `good`. -/
structure Stable (good : AttrReply → Prop) (P : Session → Prop) : Prop where
  fits : ∀ {r}, good r → r.Fits
  seen : ∀ {s r v}, (good r → r.Stays v) → P s → P (s.seen r v)
  calls : ∀ {s s' : Session}, P s → s'.visits = s.visits → P s'

theorem keeps_get {P : Session → Prop} : Keeps P (get : Parse Session) (fun _ ↦ True) :=
  Keeps.of_ok fun s hs ↦ ⟨s, s, rfl, hs, trivial⟩

section Keeps

variable {good : AttrReply → Prop} {P : Session → Prop} (hP : Stable good P) {r : AttrReply}
  {w : Surroundings} {p n : Nat}

include hP

theorem keeps_visit {v : Visit} (hv : good r → r.Stays v) :
    Keeps P (visit r v) (fun _ ↦ True) :=
  Keeps.modify fun _ hs ↦ hP.seen hv hs

theorem keeps_setNDStatus {status : Nat} : Keeps P (setNDStatus status) (fun _ ↦ True) :=
  Keeps.modify fun _ hs ↦ hP.calls hs rfl

theorem keeps_alloc : Keeps P (alloc w) (fun _ ↦ True) := by
  intro s hs
  refine ⟨?_, fun _ _ _ ↦ trivial⟩
  show P (exitState (if w.malloc s.mallocs then pure s.mallocs else throw ndsNomem)
    { s with mallocs := s.mallocs + 1 })
  split
  · exact hP.calls hs rfl
  · exact hP.calls hs rfl

theorem keeps_ndsRead {objectName : ObjectName} {objectID : UInt32} :
    Keeps P (ndsRead w objectName objectID) (fun _ ↦ True) :=
  Keeps.of_ok fun s hs ↦
    ⟨w.ndsRead s.reads objectName objectID, { s with reads := s.reads + 1 }, rfl,
      hP.calls hs rfl, trivial⟩

theorem keeps_ndsResolveName {status : Nat} (hp : good r → r.Stays (.name p)) :
    Keeps P (ndsResolveName r w p status) (fun _ ↦ True) := by
  intro s hs
  have hseen := hP.seen hp hs
  refine ⟨?_, fun _ _ _ ↦ trivial⟩
  cases hanswer : w.ndsResolveName s.resolves with
  | ok id =>
      have hok : ndsResolveName r w p status s =
          .ok id { s.seen r (.name p) with resolves := s.resolves + 1 } := by
        rw [ndsResolveName_eq, hanswer]
        rfl
      rw [exitState_ok hok]
      exact hP.calls hseen rfl
  | error rc =>
      have herror : ndsResolveName r w p status s = .error rc
          { s.seen r (.name p) with
            resolves := s.resolves + 1
            ndStatus := if rc = ndsNoSuchEntry then status else s.ndStatus } := by
        rw [ndsResolveName_eq, hanswer]
        rfl
      rw [exitState_error herror]
      exact hP.calls hseen rfl

theorem keeps_ndsGetDwordLh (hp : good r → r.Inside p 4) :
    Keeps P (ndsGetDwordLh r p) (fun x ↦ x = ⟨r.dwordAt p, pointer (p + 4)⟩) :=
  Keeps.of_ok fun s hs ↦
    ⟨⟨r.dwordAt p, pointer (p + 4)⟩, s.seen r (.read p 4), rfl, hP.seen hp hs, rfl⟩

theorem stable_read {ps : List Nat} (hps : good r → ∀ p ∈ ps, r.Inside p 4)
    {s : Session} (hs : P s) : P (s.read r ps) := by
  induction ps generalizing s with
  | nil => exact hs
  | cons p ps ih =>
      apply ih
      · exact fun h q hq ↦ hps h q (List.mem_cons_of_mem p hq)
      · exact hP.seen (fun h ↦ hps h p List.mem_cons_self) hs

theorem keeps_readHeader {syntaxID : Nat} {narrow : Int → Int} {beyond : Nat → Bool}
    {rest : Nat → Nat → Prop} (hnarrow : narrow (-1) ≤ 0) (hbeyond : Tests r beyond)
    (hfits : good r → r.HeadFits syntaxID narrow rest) :
    Keeps P (readHeader r syntaxID narrow beyond) (fun x ↦
      good r → ∃ off, x.p = r.buf + off ∧ rest x.count.toNat off) := by
  intro s hs
  obtain ⟨ps, ⟨herror, hhead⟩ | ⟨x, off, hok, hoff, hhead⟩⟩ := readHeader_cases r hnarrow hbeyond s
  · rw [exitState_error herror, herror]
    exact ⟨stable_read hP (fun h ↦ (hhead rest).mp (hfits h)) hs, fun _ _ h ↦ nomatch h⟩
  · rw [exitState_ok hok, hok]
    constructor
    · exact stable_read hP (fun h ↦ ((hhead rest).mp (hfits h)).1) hs
    · intro y s' hy
      cases hy
      intro h
      have hrest := (hhead rest).mp (hfits h)
      exact ⟨off, hoff hrest.1, hrest.2⟩

end Keeps

/-! ## The items -/

section Items

variable {r : AttrReply} {n off : Nat}

/-- What `NDSReadGetEntryItem` makes of the item at `p`. -/
def AttrReply.entryItem (r : AttrReply) (p : Nat) : EntryItem where
  level := if r.objectName = .printer then r.dwordAt (pointer (p + 4)) else 0
  name := pointer (pointer (p + 4) + 12)
  p := pointer (pointer (p + 4) + roundUp (r.dwordAt p))

/-- The numbers that it reads. -/
def AttrReply.itemReads (r : AttrReply) (p : Nat) : List Nat :=
  if r.objectName = .printer then [p, pointer (p + 4)] else [p]

theorem ndsReadGetEntryItem_eq (p : Nat) (s : Session) :
    ndsReadGetEntryItem r p s = .ok (r.entryItem p) (s.read r (r.itemReads p)) := by
  show (if r.objectName = .printer then _ else _ : Parse EntryItem) (s.read r [p]) = _
  rw [AttrReply.entryItem, AttrReply.itemReads]
  split
  · rfl
  · rfl

theorem pointer_length (h : off + 4 ≤ r.outlen) : pointer (r.buf + off + 4) = r.buf + (off + 4) :=
  AttrReply.pointer_behind h

/-- The name of an item is 16 octets behind its length. -/
theorem stays_entryItem_name_iff (h : off + 4 ≤ r.outlen) :
    r.Stays (.name (r.entryItem (r.buf + off)).name) ↔ r.NameAt (off + 16) := by
  have hlt := r.buf_lt
  have hle := r.outlen_le
  have hassoc : r.buf + (off + 4) + 12 = r.buf + (off + 16) := by omega
  by_cases hwrap : r.buf + (off + 16) < 2 ^ 32
  · have hname : (r.entryItem (r.buf + off)).name = r.buf + (off + 16) := by
      show pointer (pointer (r.buf + off + 4) + 12) = _
      rw [pointer_length h, hassoc, pointer, Nat.mod_eq_of_lt hwrap]
    rw [hname, AttrReply.stays_name_iff]
  · -- the pointer to the name passes the end of the address space
    have hname : (r.entryItem (r.buf + off)).name < r.buf := by
      show pointer (pointer (r.buf + off + 4) + 12) < _
      rw [pointer_length h, hassoc, pointer]
      omega
    constructor
    · rintro ⟨k, hk, -⟩
      exact absurd hk.1 (Nat.not_le.mpr hname)
    · rintro ⟨k, hk, -⟩
      omega

theorem bufend_lt_entryItem_iff (h : off + 4 ≤ r.outlen) :
    r.bufend < (r.entryItem (r.buf + off)).p ↔
      r.outlen < r.next off ∧ r.buf + r.next off < 2 ^ 32 := by
  show r.bufend < pointer (pointer (r.buf + off + 4) + roundUp (r.dword off)) ↔ _
  rw [pointer_length h, AttrReply.bufend_lt_next_iff h]

theorem entryItem_p (h : r.next off ≤ r.outlen) :
    (r.entryItem (r.buf + off)).p = r.buf + r.next off := by
  show pointer (pointer (r.buf + off + 4) + roundUp (r.dword off)) = _
  rw [pointer_length (by rw [AttrReply.next] at h; omega), AttrReply.pointer_next h]

/-- Behind an item that ends in the reply the next one is looked for there, or outside. -/
theorem next_le_of_inside (hitem : r.ItemAt off) (hp : r.Inside (r.entryItem (r.buf + off)).p 4) :
    r.next off ≤ r.outlen := by
  have hlt := r.buf_lt
  have hle := r.outlen_le
  rw [AttrReply.ItemAt] at hitem
  have hround : roundUp (r.dword off) ≤ r.dword off + 3 := by
    rw [roundUp]
    omega
  have hassoc : r.buf + (off + 4) + roundUp (r.dword off) = r.buf + r.next off := by
    rw [AttrReply.next]
    omega
  change r.Inside (pointer (pointer (r.buf + off + 4) + roundUp (r.dword off))) 4 at hp
  rw [pointer_length (by omega), hassoc, AttrReply.Inside, AttrReply.bufend, pointer] at hp
  rw [AttrReply.next] at hp ⊢
  omega

theorem inside_itemReads_iff :
    (∀ p ∈ r.itemReads (r.buf + off), r.Inside p 4) ↔
      off + 4 ≤ r.outlen ∧ (r.objectName = .printer → off + 8 ≤ r.outlen) := by
  rw [AttrReply.itemReads]
  by_cases hprinter : r.objectName = .printer
  · rw [if_pos hprinter, List.forall_mem_cons, List.forall_mem_singleton, AttrReply.inside_iff]
    refine and_congr_right fun h ↦ ?_
    rw [pointer_length h, AttrReply.inside_iff]
    exact ⟨fun h _ ↦ h, fun h ↦ h hprinter⟩
  · rw [if_neg hprinter, List.forall_mem_singleton, AttrReply.inside_iff]
    exact ⟨fun h ↦ ⟨h, fun h ↦ absurd h hprinter⟩, fun h ↦ h.1⟩

theorem le_of_itemsFit (hn : n ≠ 0) (h : r.ItemsFit n off) : off + 4 ≤ r.outlen := by
  cases n with
  | zero => exact absurd rfl hn
  | succ n => exact h.1

end Items

/-! ## Host servers and network addresses -/

section Servers

variable (r : AttrReply) {off : Nat}

theorem ndsReadGetHostName_eq (p : Nat) (s : Session) :
    ndsReadGetHostName r p s =
      .ok ⟨0, pointer (p + 4), pointer (pointer (p + 4) + roundUp (r.dwordAt p))⟩
        (s.read r [p]) :=
  rfl

/-- The numbers of a network address. -/
def AttrReply.addressReads (p : Nat) : List Nat :=
  [p, pointer (p + 4), pointer (pointer (p + 4) + 4)]

theorem ndsReadGetNetworkAddress_eq (p : Nat) (s : Session) :
    ndsReadGetNetworkAddress r p s =
      if r.dwordAt (pointer (pointer (p + 4) + 4)) ≠ 12 then
        .error ndsNcpPacketLength (s.read r (AttrReply.addressReads p))
      else
        .ok (pointer (pointer (pointer (p + 4) + 4) + 4))
          (s.read r (AttrReply.addressReads p)) := by
  show (if r.dwordAt (pointer (pointer (p + 4) + 4)) ≠ 12 then throw ndsNcpPacketLength
    else pure _ : Parse Nat) (s.read r (AttrReply.addressReads p)) = _
  split
  · rfl
  · rfl

variable {r}

theorem inside_addressReads_iff :
    (∀ p ∈ AttrReply.addressReads (r.buf + off), r.Inside p 4) ↔ off + 12 ≤ r.outlen := by
  rw [AttrReply.addressReads, List.forall_mem_cons, AttrReply.inside_iff]
  constructor
  · intro ⟨hitem, h⟩
    rw [pointer_length hitem, List.forall_mem_cons, List.forall_mem_singleton,
      AttrReply.inside_iff] at h
    have hlength := h.2
    rw [pointer_length h.1, AttrReply.inside_iff] at hlength
    exact hlength
  · intro h
    rw [pointer_length (by omega), List.forall_mem_cons, List.forall_mem_singleton,
      AttrReply.inside_iff, pointer_length (by omega), AttrReply.inside_iff]
    omega

/-- The pointers to the length of an address and to the address. -/
theorem addressReads_pointers (h : off + 12 ≤ r.outlen) :
    pointer (pointer (r.buf + off + 4) + 4) = r.buf + (off + 8) ∧
      pointer (pointer (pointer (r.buf + off + 4) + 4) + 4) = r.buf + (off + 12) := by
  rw [pointer_length (by omega), pointer_length (by omega), pointer_length (by omega)]
  exact ⟨rfl, rfl⟩

end Servers

section KeepsItems

variable {good : AttrReply → Prop} {P : Session → Prop} (hP : Stable good P) {r : AttrReply}
  {w : Surroundings} {p n : Nat}

include hP

/-- The turn of a loop over items: what is known of the item if the turn goes on. -/
theorem keeps_item {α : Type} {k : EntryItem → Parse α} {Q : α → Prop}
    (hfits : good r → ∃ off, p = r.buf + off ∧ r.ItemsFit (n + 1) off)
    (hk : (good r → ∃ off, p = r.buf + off ∧ off + 4 ≤ r.outlen ∧
        (r.objectName = .printer → off + 8 ≤ r.outlen) ∧ (r.Used off → r.NameAt (off + 16)) ∧
        r.ItemsFit n (r.next off)) →
      Keeps P (k (r.entryItem p)) Q) :
    Keeps P (do
      let item ← ndsReadGetEntryItem r p
      if n ≠ 0 ∧ item.p > r.bufend then throw ndsNcpPacketLength
      else
        visit r (.item p)
        k item) Q := by
  have hitem : Keeps P (ndsReadGetEntryItem r p) (fun x ↦ x = r.entryItem p) := by
    refine Keeps.of_ok fun s hs ↦ ⟨_, _, ndsReadGetEntryItem_eq p s, ?_, rfl⟩
    apply stable_read hP
    · intro h
      obtain ⟨off, rfl, hfit⟩ := hfits h
      exact inside_itemReads_iff.mpr ⟨hfit.1, hfit.2.1⟩
    · exact hs
  apply hitem.bind
  intro item hitem
  rw [hitem]
  apply Keeps.ite
  · exact fun _ ↦ Keeps.throw
  · intro hdown
    have hgood (h : good r) : ∃ off, p = r.buf + off ∧ off + 4 ≤ r.outlen ∧
        (r.objectName = .printer → off + 8 ≤ r.outlen) ∧ r.ItemAt off ∧
        (r.Used off → r.NameAt (off + 16)) ∧ r.ItemsFit n (r.next off) := by
      obtain ⟨off, rfl, hlength, hlevel, hturned | hfit⟩ := hfits h
      · exact absurd ⟨hturned.1, (bufend_lt_entryItem_iff hlength).mpr hturned.2⟩ hdown
      · exact ⟨off, rfl, hlength, hlevel, hfit⟩
    apply (keeps_visit hP fun h ↦ ?_).bind
    · intro _ _
      apply hk
      intro h
      obtain ⟨off, hp, hlength, hlevel, -, hname, hrest⟩ := hgood h
      exact ⟨off, hp, hlength, hlevel, hname, hrest⟩
    · obtain ⟨off, rfl, -, -, hat, -⟩ := hgood h
      exact AttrReply.stays_item_iff.mpr hat

theorem keeps_queueItems (hqueue : r.objectName = .queue) {j : Nat} {queues : List TmpQInfo}
    (hfits : good r → n ≠ 0 → ∃ off, p = r.buf + off ∧ r.ItemsFit n off) :
    Keeps P (queueItems r w n j p queues) (fun _ ↦ True) := by
  induction n generalizing j p queues with
  | zero => exact Keeps.pure trivial
  | succ n ih =>
      apply keeps_item hP fun h ↦ hfits h (Nat.succ_ne_zero n)
      intro hitem
      apply (keeps_ndsResolveName hP fun h ↦ ?_).bind
      · intro _ _
        apply (keeps_alloc hP).bind
        intro _ _
        apply ih
        intro h hn
        obtain ⟨off, rfl, -, -, -, hrest⟩ := hitem h
        have hnext := le_of_itemsFit hn hrest
        exact ⟨r.next off, entryItem_p (by omega), hrest⟩
      · obtain ⟨off, rfl, hlength, -, hname, -⟩ := hitem h
        rw [stays_entryItem_name_iff hlength]
        exact hname fun hprinter ↦ by cases hqueue.symm.trans hprinter

theorem keeps_readQueues {name : Nat} {queues : List TmpQInfo}
    (hname : good r → r.Stays (.name name)) :
    Keeps P (readQueues r w name queues) (fun _ ↦ True) := by
  apply (keeps_ndsResolveName hP hname).bind
  intro id _
  apply (keeps_ndsRead hP).bind
  intro answer _
  cases answer with
  | failed outlen =>
      apply Keeps.ite
      · exact fun _ ↦ Keeps.pure trivial
      · intro _
        apply keeps_get.bind
        intro s _
        apply (keeps_setNDStatus hP).bind
        exact fun _ _ ↦ Keeps.throw
  | reply c =>
      let r1 : AttrReply := { c with objectName := .queue, buf := w.buf1, buf_lt := w.buf1_lt }
      have hfits (h : good r1) :
          r1.HeadFits 25 toInt16 (fun n ↦ r1.ItemsFit (min n maxNdsQueuePerPrn)) :=
        hP.fits h
      apply (keeps_readHeader hP toInt16_neg_one (tests_bufend r1) hfits).bind
      intro header hheader
      exact keeps_queueItems hP rfl fun h _ ↦ hheader h

theorem keeps_printerItems (hprinter : r.objectName = .printer) {queues : List TmpQInfo}
    (hfits : good r → n ≠ 0 → ∃ off, p = r.buf + off ∧ r.ItemsFit n off) :
    Keeps P (printerItems r w n p queues) (fun _ ↦ True) := by
  induction n generalizing p queues with
  | zero => exact Keeps.pure trivial
  | succ n ih =>
      apply keeps_item hP fun h ↦ hfits h (Nat.succ_ne_zero n)
      intro hitem
      have hnext (h : good r) (hn : n ≠ 0) :
          ∃ off, (r.entryItem p).p = r.buf + off ∧ r.ItemsFit n off := by
        obtain ⟨off, rfl, -, -, -, hrest⟩ := hitem h
        have hnext := le_of_itemsFit hn hrest
        exact ⟨r.next off, entryItem_p (by omega), hrest⟩
      apply Keeps.ite
      · exact fun _ ↦ ih hnext
      · intro hlevel
        apply (keeps_readQueues hP fun h ↦ ?_).bind
        · exact fun _ _ ↦ ih hnext
        · obtain ⟨off, rfl, hlength, hread, hname, -⟩ := hitem h
          rw [stays_entryItem_name_iff hlength]
          apply hname
          intro _
          have hp : pointer (r.buf + off + 4) = r.buf + (off + 4) := pointer_length hlength
          rw [AttrReply.entryItem, if_pos hprinter, hp] at hlevel
          exact Nat.not_le.mp hlevel

theorem keeps_ndsReadGetHostName (hp : good r → r.Inside p 4) :
    Keeps P (ndsReadGetHostName r p) (fun x ↦
      x = ⟨0, pointer (p + 4), pointer (pointer (p + 4) + roundUp (r.dwordAt p))⟩) := by
  apply (keeps_ndsGetDwordLh hP hp).bind
  intro skiplen hskiplen
  rw [hskiplen]
  exact Keeps.pure rfl

theorem keeps_readHostServer {c : Content} : Keeps P (readHostServer w c) (fun _ ↦ True) := by
  let r : AttrReply := { c with objectName := .hostServer, buf := w.buf, buf_lt := w.buf_lt }
  have hfits (h : good r) : r.HeadFits 1 id (fun _ ↦ r.HostFits) := hP.fits h
  apply (keeps_readHeader hP (by decide) (tests_bufend r) hfits).bind
  intro header hheader
  have hhost (h : good r) : ∃ off, header.p = r.buf + off ∧ off + 4 ≤ r.outlen ∧ r.ItemAt off ∧
      r.NameAt (off + 4) := hheader h
  apply (keeps_ndsReadGetHostName hP fun h ↦ ?_).bind
  · intro item hitem
    apply (keeps_visit hP fun h ↦ ?_).bind
    · intro _ _
      apply keeps_ndsResolveName hP
      intro h
      obtain ⟨off, hp, hlength, -, hname⟩ := hhost h
      rw [hitem, hp]
      show r.Stays (.name (pointer (r.buf + off + 4)))
      rw [pointer_length hlength]
      exact AttrReply.stays_name_iff.mpr hname
    · obtain ⟨off, hp, -, hat, -⟩ := hhost h
      rw [hp]
      exact AttrReply.stays_item_iff.mpr hat
  · obtain ⟨off, hp, hlength, -, -⟩ := hhost h
    rw [hp]
    exact AttrReply.inside_iff.mpr hlength

theorem keeps_hostServers {queues : List TmpQInfo} {hosts : Hosts} :
    Keeps P (hostServers w queues hosts) (fun _ ↦ True) := by
  induction queues generalizing hosts with
  | nil => exact Keeps.pure trivial
  | cons q queues ih =>
      apply (keeps_ndsRead hP).bind
      intro answer _
      cases answer with
      | failed outlen =>
          apply (keeps_setNDStatus hP).bind
          exact fun _ _ ↦ ih
      | reply c =>
          apply (keeps_readHostServer hP).bind
          exact fun _ _ ↦ ih

theorem keeps_ndsReadGetNetworkAddress
    (hfits : good r → ∃ off, p = r.buf + off ∧ r.AddressFits off) :
    Keeps P (ndsReadGetNetworkAddress r p) (fun x ↦ good r → ∃ off, p = r.buf + off ∧
      x = r.buf + (off + 12) ∧ off + 24 ≤ r.outlen ∧ r.ItemAt off) := by
  intro s hs
  have hread : P (s.read r (AttrReply.addressReads p)) := by
    apply stable_read hP
    · intro h
      obtain ⟨off, rfl, hlength, -⟩ := hfits h
      exact inside_addressReads_iff.mpr hlength
    · exact hs
  have heq := ndsReadGetNetworkAddress_eq r p s
  by_cases hlength : r.dwordAt (pointer (pointer (p + 4) + 4)) ≠ 12
  · rw [if_pos hlength] at heq
    rw [exitState_error heq, heq]
    exact ⟨hread, fun _ _ h ↦ nomatch h⟩
  · rw [if_neg hlength] at heq
    rw [exitState_ok heq, heq]
    refine ⟨hread, fun x s' hx h ↦ ?_⟩
    cases hx
    obtain ⟨off, rfl, hnumbers, haddress⟩ := hfits h
    obtain ⟨hfirst, hlast⟩ := addressReads_pointers hnumbers
    rw [hfirst, not_not] at hlength
    exact ⟨off, rfl, hlast, haddress hlength⟩

theorem keeps_readNetworkAddress {c : Content} :
    Keeps P (readNetworkAddress w c) (fun _ ↦ True) := by
  let r : AttrReply := { c with objectName := .networkAddress, buf := w.buf, buf_lt := w.buf_lt }
  have hfits (h : good r) : r.HeadFits 12 id (fun _ ↦ r.AddressFits) := hP.fits h
  apply (keeps_readHeader hP (by decide) (tests_buf r) hfits).bind
  intro header hheader
  have haddress (h : good r) : ∃ off, header.p = r.buf + off ∧ r.AddressFits off := hheader h
  apply (keeps_ndsReadGetNetworkAddress hP haddress).bind
  intro p hp
  apply (keeps_visit hP fun h ↦ ?_).bind
  · intro _ _
    apply (keeps_visit hP fun h ↦ ?_).bind
    · exact fun _ _ ↦ Keeps.pure trivial
    · obtain ⟨off, -, rfl, hend, -⟩ := hp h
      exact AttrReply.inside_iff.mpr (by omega)
  · obtain ⟨off, hoff, -, -, hat⟩ := hp h
    rw [hoff]
    exact AttrReply.stays_item_iff.mpr hat

theorem keeps_networkAddresses {servers : List TmpFSInfo} {addresses : List (List UInt8)} :
    Keeps P (networkAddresses w servers addresses) (fun _ ↦ True) := by
  induction servers generalizing addresses with
  | nil => exact Keeps.pure trivial
  | cons server servers ih =>
      apply (keeps_ndsRead hP).bind
      intro answer _
      cases answer with
      | failed outlen => exact Keeps.throw
      | reply c =>
          apply (keeps_readNetworkAddress hP).bind
          exact fun _ _ ↦ ih

theorem keeps_readAddresses {hosts : Hosts} :
    Keeps P (readAddresses w hosts) (fun _ ↦ True) := by
  apply Keeps.ite
  · intro _
    apply keeps_get.bind
    intro s _
    apply (keeps_setNDStatus hP).bind
    exact fun _ _ ↦ Keeps.throw
  · intro _
    apply (keeps_alloc hP).bind
    intro _ _
    apply (keeps_networkAddresses hP).bind
    exact fun _ _ ↦ Keeps.pure trivial

theorem keeps_readServers {queues : List TmpQInfo} :
    Keeps P (readServers w queues) (fun _ ↦ True) := by
  apply (keeps_hostServers hP).bind
  exact fun hosts _ ↦ keeps_readAddresses hP

theorem keeps_readPrinters {c : Content} : Keeps P (readPrinters w c) (fun _ ↦ True) := by
  let r : AttrReply := { c with objectName := .printer, buf := w.buf, buf_lt := w.buf_lt }
  have hfits (h : good r) : r.HeadFits 25 toInt16 r.ItemsFit := hP.fits h
  apply (keeps_readHeader hP toInt16_neg_one (tests_bufend r) hfits).bind
  intro header hheader
  exact keeps_printerItems hP rfl fun h _ ↦ hheader h

theorem keeps_ndsGetPrinterQueue {printServerID : UInt32} :
    Keeps P (ndsGetPrinterQueue w printServerID) (fun _ ↦ True) := by
  iterate 4
    apply (keeps_alloc hP).bind
    intro _ _
  apply (keeps_ndsRead hP).bind
  intro answer _
  cases answer with
  | failed outlen =>
      apply (keeps_setNDStatus hP).bind
      exact fun _ _ ↦ Keeps.throw
  | reply c =>
      apply (keeps_readPrinters hP).bind
      exact fun _ _ ↦ keeps_readServers hP

end KeepsItems

end PrintServer.Nds
