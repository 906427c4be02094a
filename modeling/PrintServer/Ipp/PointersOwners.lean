import PrintServer.Ipp.PointersList

/-!
# The list of the jobs stays a list

As long as a job leaves `ippObjList[port]` from the place where its thread believes it to be, the
pointers hold a list of jobs that are not freed, and what a thread has taken out belongs to it.
-/

namespace PrintServer.Ipp

open Lib Receive

variable {s u : PtrSys} {t p q : Nat} {pc : PtrReq}

/-! ## The invariant -/

/-- An object in no list that has not been freed. -/
def Owned (s : PtrSys) (p : Nat) : Prop := p ∉ s.chain ∧ s.alive p = true ∧ p ≠ 0

/-- Jobs in the list are not freed, and what a thread has is in no list and no other thread's. -/
structure Owners (s : PtrSys) : Prop where
  alive : ∀ p ∈ s.chain, s.alive p = true
  fresh : ∀ t < httpMaxUser, (s.req t).making = true → ∀ p ∈ (s.req t).owns, s.next p = 0
  reqOwned : ∀ t < httpMaxUser, ∀ p ∈ (s.req t).owns, Owned s p
  workerOwned : ∀ p ∈ s.worker.owns, Owned s p
  reqOwner : ∀ t < httpMaxUser, ∀ t' < httpMaxUser, ∀ p,
    p ∈ (s.req t).owns → p ∈ (s.req t').owns → t = t'
  workerOwner : ∀ t < httpMaxUser, ∀ p ∈ (s.req t).owns, p ∉ s.worker.owns

/-- The pointers hold a list, all of whose jobs are counted. -/
structure ListInv (s : PtrSys) : Prop extends Owners s where
  linked : Linked s.next 0 s.head s.chain
  count : s.chain.length + s.lag ≤ s.jobsNo.toNat
  bound : s.jobsNo.toNat + s.making ≤ ippMaxUser + httpMaxUser

theorem ptrStart_listInv : ListInv ptrStart where
  alive := nofun
  fresh := nofun
  reqOwned := nofun
  workerOwned := nofun
  reqOwner := nofun
  workerOwner := nofun
  linked := rfl
  count := by decide
  bound := by decide

/-! ## What the steps leave -/

theorem toNat_pred {n : UInt8} (hn : 0 < n.toNat) : (n - 1).toNat = n.toNat - 1 := by
  apply UInt8.toNat_sub_of_le
  rw [UInt8.le_iff_toNat_le, UInt8.toNat_one]
  exact hn

theorem insertObj_frame (s : PtrSys) (p : Nat) :
    (insertObj s p).alive = s.alive ∧ (insertObj s p).req = s.req ∧
      (insertObj s p).worker = s.worker ∧ (insertObj s p).jobsNo = s.jobsNo + 1 ∧
      (insertObj s p).jobID = s.jobID ∧ (insertObj s p).derefs = s.derefs ∧
      (insertObj s p).doubleFree = s.doubleFree := by
  unfold insertObj
  cases s.chain.getLast? <;> exact ⟨rfl, rfl, rfl, rfl, rfl, rfl, rfl⟩

theorem alive_freeObj {x : Nat} (hne : x ≠ p) (hx : s.alive x = true) :
    (s.freeObj p).alive x = true := by
  show Function.update s.alive p false x = true
  rw [Function.update_of_ne hne]
  exact hx

theorem alive_update {x : Nat} (h : s.alive x = true) :
    Function.update s.alive p true x = true := by
  by_cases hx : x = p
  · rw [hx, Function.update_self]
  · rw [Function.update_of_ne hx]
    exact h

/-! ## The links -/

namespace ListInv

theorem length_le (hs : ListInv s) : s.chain.length ≤ 255 := by
  have hc := hs.count
  have hlt := s.jobsNo.toNat_lt
  omega

theorem nodup (hs : ListInv s) : s.chain.Nodup := hs.linked.nodup

/-- The list of a state whose links and head give the list `xs`. -/
theorem chain_eq {xs : List Nat} (hs : ListInv s) (hl : Linked u.next 0 u.head xs)
    (hlen : xs.length ≤ s.chain.length + 1) : u.chain = xs := by
  have hle := hs.length_le
  exact hl.walk_eq (by omega)

/-- The links after a job was added behind the last one. -/
theorem insertObj_linked (hs : ListInv s) (hp : Owned s p) (hnext : s.next p = 0) :
    Linked (insertObj s p).next 0 (insertObj s p).head (s.chain ++ [p]) ∧
      ∀ y, (y ∈ s.chain → s.next y ≠ 0) → (insertObj s p).next y = s.next y := by
  cases hlast : s.chain.getLast? with
  | none =>
      have hnil : s.chain = [] := List.getLast?_eq_none_iff.mp hlast
      have hnext' : (insertObj s p).next = s.next := by
        funext y
        unfold insertObj
        rw [hlast]
        rfl
      have hhead : (insertObj s p).head = p := by
        unfold insertObj
        rw [hlast]
      rw [hnil, hnext', hhead]
      exact ⟨⟨rfl, hp.2.2, hnext⟩, fun _ _ ↦ rfl⟩
  | some q =>
      have hq : q ∈ s.chain := List.mem_of_getLast? hlast
      have hpq : p ≠ q := fun h ↦ hp.1 (h ▸ hq)
      have hself : (insertObj s p).next q = p := by
        unfold insertObj
        rw [hlast]
        exact PtrSys.next_setObj_next_self q p
      have hother : ∀ y, y ≠ q → (insertObj s p).next y = s.next y := by
        intro y hy
        unfold insertObj
        rw [hlast]
        exact PtrSys.next_setObj_next_of_ne hy p
      have hhead : (insertObj s p).head = s.head := by
        unfold insertObj
        rw [hlast]
        rfl
      refine ⟨?_, fun y hy ↦ hother y ?_⟩
      · rw [hhead]
        refine hs.linked.snoc hlast hp.2.2 hself ?_ fun x _ hx ↦ hother x hx
        rw [hother p hpq, hnext]
      · rintro rfl
        exact hy hq (hs.linked.next_last hlast)

/-- A job is cut out from behind another one. -/
theorem unlinkNext_linked {v : Nat} (hs : ListInv s) (hinf : [q, p] <:+: s.chain)
    (hv : s.next p = v) :
    Linked (s.setObj q { s.obj q with next := v }).next 0 s.head (s.chain.erase p) ∧
      ∀ y, s.next y ≠ p → (s.setObj q { s.obj q with next := v }).next y = s.next y := by
  have hqp : s.next q = p := hs.linked.next_of_infix hinf
  have hother : ∀ y, y ≠ q → (s.setObj q { s.obj q with next := v }).next y = s.next y :=
    fun y hy ↦ PtrSys.next_setObj_next_of_ne hy v
  obtain ⟨l₁, l₂, hx⟩ := hinf
  have hx' : s.chain = (l₁ ++ [q]) ++ p :: l₂ := by simp [← hx]
  have hnot : p ∉ l₁ ++ [q] := by
    have hnodup := hs.nodup
    rw [hx'] at hnodup
    exact fun h ↦ (List.nodup_append.mp hnodup).2.2 p h p List.mem_cons_self rfl
  have herase : s.chain.erase p = l₁ ++ q :: l₂ := by
    rw [hx', List.erase_append_right _ hnot, List.erase_cons_head, List.append_assoc]
    rfl
  refine ⟨?_, fun y hy ↦ hother y ?_⟩
  · have hl := hs.linked
    rw [hx', List.append_assoc] at hl
    rw [herase]
    refine hl.splice ?_ hother
    rw [hv]
    exact PtrSys.next_setObj_next_self q v
  · rintro rfl
    exact hy hqp

theorem pop_linked {job : Nat} (hs : ListInv s) (hfirst : s.chain.head? = some job) :
    Linked s.next 0 (s.next s.head) s.chain.tail := by
  have hl := hs.linked
  cases hx : s.chain with
  | nil => rw [hx] at hfirst; cases hfirst
  | cons a as =>
      rw [hx] at hl
      rw [hl.1]
      exact hl.tail

/-- A new object is in nobody's list. -/
theorem alloc_next (hs : ListInv s) (hfree : s.alive p = false) :
    p ∉ s.chain ∧ ∀ y, y ≠ p → (s.setObj p newObj).next y = s.next y := by
  refine ⟨fun h ↦ by simp [hs.alive p h] at hfree, fun y hy ↦ ?_⟩
  simp [PtrSys.next, PtrSys.setObj, hy]

theorem linked_step {l : ListAct} (hs : ListInv s) (hok : LinkOk s l) (h : ListStep s l u) :
    Linked u.next 0 u.head (l.apply s.chain) := by
  cases h with
  | @alloc t p ht hpc hp hfree hmax =>
      obtain ⟨hnot, hnext⟩ := hs.alloc_next hfree
      exact hs.linked.congr fun y hy ↦ hnext y fun h ↦ hnot (h ▸ hy)
  | @insert t p ht hpc =>
      have hown : p ∈ (s.req t).owns := by rw [hpc]; rfl
      have hmaking : (s.req t).making = true := by rw [hpc]; rfl
      exact (hs.insertObj_linked (hs.reqOwned t ht p hown) (hs.fresh t ht hmaking p hown)).1
  | unlinkHead ht hpc => exact rfl
  | unlinkNext ht hpc => exact (hs.unlinkNext_linked hok.1 hok.2).1
  | pop hw => exact hs.pop_linked hok
  | drop | countOff | freePopped => exact hs.linked
  | keep h =>
      rw [h.next, h.head]
      exact hs.linked

/-- The pointers hold the list that the step is meant to leave. -/
theorem chain_step {l : ListAct} (hs : ListInv s) (hok : LinkOk s l) (h : ListStep s l u) :
    u.chain = l.apply s.chain := by
  refine hs.chain_eq (hs.linked_step hok h) ?_
  cases l with
  | insert t p => exact List.length_append.le
  | unlinkHead t p => exact Nat.zero_le _
  | unlinkNext t p q v => exact Nat.le_succ_of_le List.length_erase_le
  | pop job =>
      show s.chain.tail.length ≤ _
      rw [List.length_tail]
      omega
  | _ => exact Nat.le_succ _

/-! ## The counter -/

theorem jobsNo_insert (hs : ListInv s) (ht : t < httpMaxUser) (hpc : s.req t = .insert p) :
    (insertObj s p).jobsNo.toNat = s.jobsNo.toNat + 1 := by
  have hb := hs.bound
  have hpos : 0 < s.making := countAt_pos ht (by rw [hpc]; rfl)
  rw [(insertObj_frame s p).2.2.2.1, UInt8.toNat_add, UInt8.toNat_one]
  apply Nat.mod_eq_of_lt
  simp only [ippMaxUser, httpMaxUser] at hb
  omega

theorem jobsNo_countOff (hs : ListInv s) (ht : t < httpMaxUser) (hpc : s.req t = .decJobsNo p) :
    (s.jobsNo - 1).toNat + 1 = s.jobsNo.toNat := by
  have hc := hs.count
  have hpos : 0 < s.lag := countAt_pos ht (by rw [hpc]; rfl)
  rw [toNat_pred (by omega)]
  omega

theorem jobsNo_pop {job : Nat} (hs : ListInv s) (hfirst : s.chain.head? = some job) :
    (s.jobsNo - 1).toNat + 1 = s.jobsNo.toNat := by
  have hc := hs.count
  have hpos : 0 < s.chain.length := List.length_pos_of_mem (List.mem_of_head? hfirst)
  rw [toNat_pred (by omega)]
  omega

theorem tally {l : ListAct} (hs : ListInv s) (hok : LinkOk s l) (h : ListStep s l u) :
    u.jobsNo.toNat + (s.chain.length + s.lag) =
      s.jobsNo.toNat + (u.chain.length + u.lag) + l.lost s.chain := by
  rw [hs.chain_step hok h]
  cases h with
  | @alloc t p ht hpc hp hfree hmax =>
      have hlag : countAt PtrReq.uncounted (Function.update s.req t (.reading p)) httpMaxUser =
          s.lag := countAt_update_of_eq (by rw [hpc]; rfl)
      show s.jobsNo.toNat + _ = s.jobsNo.toNat + (s.chain.length +
        countAt _ (Function.update s.req t (.reading p)) _) + 0
      rw [hlag, Nat.add_zero]
  | @drop t p ht hp hu =>
      have hlag : countAt PtrReq.uncounted (Function.update s.req t .idle) httpMaxUser = s.lag :=
        countAt_update_of_eq (by rw [hu]; rfl)
      show s.jobsNo.toNat + _ = s.jobsNo.toNat + (s.chain.length +
        countAt _ (Function.update s.req t .idle) _) + 0
      rw [hlag, Nat.add_zero]
  | @insert t p ht hpc =>
      have hlag : countAt PtrReq.uncounted (Function.update s.req t .idle) httpMaxUser = s.lag :=
        countAt_update_of_eq (by rw [hpc]; rfl)
      show (insertObj s p).jobsNo.toNat + _ = s.jobsNo.toNat + ((s.chain ++ [p]).length +
        countAt _ (Function.update (insertObj s p).req t .idle) _) + 0
      rw [(insertObj_frame s p).2.1, hlag, hs.jobsNo_insert ht hpc, List.length_append,
        List.length_singleton]
      omega
  | @unlinkHead t p ht hpc =>
      -- `NULL` is stored as the list: the jobs behind the head are lost
      have hlag := countAt_move PtrReq.uncounted s.req (.decJobsNo p) ht
      have hpos : 0 < s.chain.length := List.length_pos_of_mem (List.mem_of_head? hok)
      rw [hpc] at hlag
      show s.jobsNo.toNat + (s.chain.length + countAt _ _ _) = s.jobsNo.toNat +
        (0 + countAt _ (Function.update s.req t (.decJobsNo p)) _) + (s.chain.length - 1)
      simp only [PtrReq.uncounted, Bool.toNat_false, Bool.toNat_true] at hlag
      omega
  | @unlinkNext t p q v ht hpc =>
      have hlag := countAt_move PtrReq.uncounted s.req (.decJobsNo p) ht
      have hmem : p ∈ s.chain := hok.1.subset (by simp)
      have hpos : 0 < s.chain.length := List.length_pos_of_mem hmem
      rw [hpc] at hlag
      show s.jobsNo.toNat + (s.chain.length + countAt _ _ _) = s.jobsNo.toNat +
        ((s.chain.erase p).length + countAt _ (Function.update s.req t (.decJobsNo p)) _) + 0
      rw [List.length_erase_of_mem hmem]
      simp only [PtrReq.uncounted, Bool.toNat_false, Bool.toNat_true] at hlag
      omega
  | @countOff t p ht hpc =>
      -- the job left the list before: now the request is no longer behind with its count
      have hlag := countAt_move PtrReq.uncounted s.req (.setCancel p) ht
      have hjobs := hs.jobsNo_countOff ht hpc
      rw [hpc] at hlag
      show (s.jobsNo - 1).toNat + (s.chain.length + countAt _ _ _) = s.jobsNo.toNat +
        (s.chain.length + countAt _ (Function.update s.req t (.setCancel p)) _) + 0
      simp only [PtrReq.uncounted, Bool.toNat_false, Bool.toNat_true] at hlag
      omega
  | @pop job hw =>
      have hpos : 0 < s.chain.length := List.length_pos_of_mem (List.mem_of_head? hok)
      have hjobs := hs.jobsNo_pop hok
      show (s.jobsNo - 1).toNat + (s.chain.length + s.lag) =
        s.jobsNo.toNat + (s.chain.tail.length + s.lag) + 0
      rw [List.length_tail]
      omega
  | freePopped hw => exact (Nat.add_zero _).symm
  | keep h =>
      have hlag : u.lag = s.lag := countAt_congr h.uncounted
      show u.jobsNo.toNat + _ = s.jobsNo.toNat + (s.chain.length + u.lag) + 0
      rw [h.jobsNo, hlag, Nat.add_zero]

/-- Only the test of the limit adds to what is counted and what will be. -/
theorem demand {l : ListAct} (hs : ListInv s) (hok : LinkOk s l) (h : ListStep s l u) :
    u.jobsNo.toNat + u.making ≤ s.jobsNo.toNat + s.making + l.admitted := by
  cases h with
  | @alloc t p ht hpc hp hfree hmax =>
      have hmove := countAt_move PtrReq.making s.req (.reading p) ht
      rw [hpc] at hmove
      show s.jobsNo.toNat + countAt _ (Function.update s.req t (.reading p)) _ ≤
        s.jobsNo.toNat + countAt _ _ _ + 1
      simp only [PtrReq.making, Bool.toNat_false, Bool.toNat_true] at hmove
      omega
  | @drop t p ht hp hu =>
      have hmove := countAt_move PtrReq.making s.req .idle ht
      show s.jobsNo.toNat + countAt _ (Function.update s.req t .idle) _ ≤
        s.jobsNo.toNat + countAt _ _ _ + 0
      simp only [PtrReq.making, Bool.toNat_false] at hmove
      omega
  | @insert t p ht hpc =>
      -- one job more is counted, and one less is to come
      have hmove := countAt_move PtrReq.making s.req .idle ht
      have hjobs := hs.jobsNo_insert ht hpc
      rw [hpc] at hmove
      show (insertObj s p).jobsNo.toNat + countAt _ (Function.update (insertObj s p).req t .idle) _
        ≤ s.jobsNo.toNat + countAt _ _ _ + 0
      rw [(insertObj_frame s p).2.1, hjobs]
      simp only [PtrReq.making, Bool.toNat_false, Bool.toNat_true] at hmove
      omega
  | @unlinkHead t p ht hpc =>
      have hmaking : countAt PtrReq.making (Function.update s.req t (.decJobsNo p)) httpMaxUser =
          s.making := countAt_update_of_eq (by rw [hpc]; rfl)
      show s.jobsNo.toNat + countAt _ (Function.update s.req t (.decJobsNo p)) _ ≤ _
      rw [hmaking]
      exact Nat.le_add_right _ _
  | @unlinkNext t p q v ht hpc =>
      have hmaking : countAt PtrReq.making (Function.update s.req t (.decJobsNo p)) httpMaxUser =
          s.making := countAt_update_of_eq (by rw [hpc]; rfl)
      show s.jobsNo.toNat + countAt _ (Function.update s.req t (.decJobsNo p)) _ ≤ _
      rw [hmaking]
      exact Nat.le_add_right _ _
  | @countOff t p ht hpc =>
      have hmaking : countAt PtrReq.making (Function.update s.req t (.setCancel p)) httpMaxUser =
          s.making := countAt_update_of_eq (by rw [hpc]; rfl)
      have hjobs := hs.jobsNo_countOff ht hpc
      show (s.jobsNo - 1).toNat + countAt _ (Function.update s.req t (.setCancel p)) _ ≤
        s.jobsNo.toNat + s.making + 0
      rw [hmaking]
      omega
  | @pop job hw =>
      have hjobs := hs.jobsNo_pop hok
      show (s.jobsNo - 1).toNat + s.making ≤ _
      omega
  | freePopped hw => exact Nat.le_add_right _ _
  | keep h =>
      have hmaking : u.making = s.making := countAt_congr h.making
      rw [h.jobsNo, hmaking]
      exact Nat.le_add_right _ _

/-! ## Who has an object -/

/-- A request goes on and owns nothing that it did not own before. -/
theorem owner_update (hs : ListInv s) (t : Nat) (ho : ∀ p ∈ pc.owns, p ∈ (s.req t).owns) :
    (∀ t₁ < httpMaxUser, ∀ t₂ < httpMaxUser, ∀ p, p ∈ (Function.update s.req t pc t₁).owns →
      p ∈ (Function.update s.req t pc t₂).owns → t₁ = t₂) ∧
    ∀ t₁ < httpMaxUser, ∀ p ∈ (Function.update s.req t pc t₁).owns, p ∉ s.worker.owns := by
  have hold : ∀ t' < httpMaxUser, ∀ p ∈ (Function.update s.req t pc t').owns,
      p ∈ (s.req t').owns :=
    forall_lt_update (P := fun t' pc ↦ ∀ p ∈ PtrReq.owns pc, p ∈ (s.req t').owns)
      (fun _ _ _ h ↦ h) ho
  exact ⟨fun t₁ h₁ t₂ h₂ p hp₁ hp₂ ↦
      hs.reqOwner t₁ h₁ t₂ h₂ p (hold t₁ h₁ p hp₁) (hold t₂ h₂ p hp₂),
    fun t₁ h₁ p hp ↦ hs.workerOwner t₁ h₁ p (hold t₁ h₁ p hp)⟩

/-- A request goes on and owns an object that nobody owned. -/
theorem owner_fresh (hs : ListInv s) (hpc : pc.owns = some q)
    (hnew : ∀ t' < httpMaxUser, q ∉ (s.req t').owns) (hw : q ∉ s.worker.owns) :
    (∀ t₁ < httpMaxUser, ∀ t₂ < httpMaxUser, ∀ p, p ∈ (Function.update s.req t pc t₁).owns →
      p ∈ (Function.update s.req t pc t₂).owns → t₁ = t₂) ∧
    ∀ t₁ < httpMaxUser, ∀ p ∈ (Function.update s.req t pc t₁).owns, p ∉ s.worker.owns := by
  have hself : ∀ {p}, p ∈ pc.owns → q = p := by
    intro p hp
    rw [hpc] at hp
    exact Option.some.inj hp
  constructor
  · intro t₁ h₁ t₂ h₂ p hp₁ hp₂
    by_cases e₁ : t₁ = t <;> by_cases e₂ : t₂ = t
    · rw [e₁, e₂]
    · rw [e₁, Function.update_self] at hp₁
      rw [Function.update_of_ne e₂, ← hself hp₁] at hp₂
      exact absurd hp₂ (hnew t₂ h₂)
    · rw [e₂, Function.update_self] at hp₂
      rw [Function.update_of_ne e₁, ← hself hp₂] at hp₁
      exact absurd hp₁ (hnew t₁ h₁)
    · rw [Function.update_of_ne e₁] at hp₁
      rw [Function.update_of_ne e₂] at hp₂
      exact hs.reqOwner t₁ h₁ t₂ h₂ p hp₁ hp₂
  · exact forall_lt_update (P := fun _ pc ↦ ∀ p ∈ PtrReq.owns pc, p ∉ s.worker.owns)
      hs.workerOwner fun p hp ↦ hself hp ▸ hw

/-- A job that leaves the list is the request's. -/
theorem owners_unlink (hs : ListInv s) (hp : p ∈ s.chain) (hnot : p ∉ u.chain)
    (hsub : u.chain.Sublist s.chain) (hnext : ∀ y, s.next y ≠ p → u.next y = s.next y)
    (halive : u.alive = s.alive) (hreq : u.req = Function.update s.req t (.decJobsNo p))
    (hworker : u.worker = s.worker) : Owners u := by
  have hown := hs.owner_fresh (t := t) (show PtrReq.owns (.decJobsNo p) = some p from rfl)
    (fun t' ht' h ↦ (hs.reqOwned t' ht' p h).1 hp) fun h ↦ (hs.workerOwned p h).1 hp
  have howned : ∀ {x}, Owned s x → Owned u x :=
    fun h ↦ ⟨fun hx ↦ h.1 (hsub.subset hx), halive ▸ h.2.1, h.2.2⟩
  exact
    { alive := by
        intro x hx
        rw [halive]
        exact hs.alive x (hsub.subset hx)
      fresh := by
        rw [hreq]
        refine forall_lt_update (P := fun _ pc ↦ PtrReq.making pc = true →
          ∀ x ∈ PtrReq.owns pc, u.next x = 0) (fun t' ht' hm x hx ↦ ?_) nofun
        have h0 := hs.fresh t' ht' hm x hx
        rw [hnext x (by rw [h0]; exact (hs.linked.ne_nil hp).symm), h0]
      reqOwned := by
        rw [hreq]
        refine forall_lt_update (P := fun _ pc ↦ ∀ x ∈ PtrReq.owns pc, Owned u x)
          (fun t' ht' x hx ↦ howned (hs.reqOwned t' ht' x hx)) fun x hx ↦ ?_
        obtain rfl := Option.some.inj hx
        exact ⟨hnot, halive ▸ hs.alive p hp, hs.linked.ne_nil hp⟩
      workerOwned := by
        rw [hworker]
        exact fun x hx ↦ howned (hs.workerOwned x hx)
      reqOwner := by
        rw [hreq]
        exact hown.1
      workerOwner := by
        rw [hreq, hworker]
        exact hown.2 }

theorem owners_pop {job : Nat} (hs : ListInv s) (hfirst : s.chain.head? = some job)
    (hchain : u.chain = s.chain.tail) (hnext : u.next = s.next) (halive : u.alive = s.alive)
    (hreq : u.req = s.req) (hworker : u.worker = .free job) : Owners u := by
  obtain ⟨as, hx⟩ := List.head?_eq_some_iff.mp hfirst
  have hmem : job ∈ s.chain := List.mem_of_head? hfirst
  have hsub : ∀ x ∈ u.chain, x ∈ s.chain := fun x h ↦ List.mem_of_mem_tail (hchain ▸ h)
  have howned : ∀ {x}, Owned s x → Owned u x :=
    fun h ↦ ⟨fun hx ↦ h.1 (hsub _ hx), halive ▸ h.2.1, h.2.2⟩
  exact
    { alive := by
        intro x hx
        rw [halive]
        exact hs.alive x (hsub x hx)
      fresh := by
        rw [hreq, hnext]
        exact hs.fresh
      reqOwned := by
        rw [hreq]
        exact fun t ht x hx ↦ howned (hs.reqOwned t ht x hx)
      workerOwned := by
        rw [hworker]
        intro x h
        obtain rfl := Option.some.inj h
        refine ⟨?_, halive ▸ hs.alive job hmem, hs.linked.ne_nil hmem⟩
        have hnodup := hs.nodup
        rw [hx] at hnodup
        rw [hchain, hx]
        exact (List.nodup_cons.mp hnodup).1
      reqOwner := by
        rw [hreq]
        exact hs.reqOwner
      workerOwner := by
        rw [hreq, hworker]
        intro t ht x hx h
        obtain rfl := Option.some.inj h
        exact (hs.reqOwned t ht job hx).1 hmem }

/-- A request gives its object away: what the others own, it does not own. -/
theorem owned_of_given (hs : ListInv s) (ht : t < httpMaxUser) (hp : p ∈ (s.req t).owns)
    (howned : ∀ {x}, x ≠ p → Owned s x → Owned u x) :
    (∀ t' < httpMaxUser, ∀ x ∈ (Function.update s.req t .idle t').owns, Owned u x) ∧
      ∀ x ∈ s.worker.owns, Owned u x := by
  constructor
  · intro t' ht' x hx
    by_cases heq : t' = t
    · rw [heq, Function.update_self] at hx
      cases hx
    · rw [Function.update_of_ne heq] at hx
      refine howned ?_ (hs.reqOwned t' ht' x hx)
      rintro rfl
      exact heq (hs.reqOwner t' ht' t ht x hx hp)
  · intro x hx
    refine howned ?_ (hs.workerOwned x hx)
    rintro rfl
    exact hs.workerOwner t ht x hp hx

/-- An object is freed by its owner. -/
theorem owners_drop (hs : ListInv s) (ht : t < httpMaxUser) (hp : (s.req t).owns = some p) :
    Owners ((s.freeObj p).setReq t .idle) := by
  obtain ⟨hmem, -, -⟩ := hs.reqOwned t ht p hp
  have hother : ∀ {x}, x ≠ p → Owned s x → Owned ((s.freeObj p).setReq t .idle) x :=
    fun hx h ↦ ⟨h.1, alive_freeObj hx h.2.1, h.2.2⟩
  have hown := hs.owner_update t (show ∀ p ∈ PtrReq.owns .idle, p ∈ (s.req t).owns from nofun)
  have howned := hs.owned_of_given ht hp hother
  exact
    { alive := by
        intro x hx
        refine alive_freeObj ?_ (hs.alive x hx)
        rintro rfl
        exact hmem hx
      fresh := forall_lt_update (P := fun _ pc ↦ PtrReq.making pc = true →
        ∀ x ∈ PtrReq.owns pc, s.next x = 0) hs.fresh nofun
      reqOwned := howned.1
      workerOwned := howned.2
      reqOwner := hown.1
      workerOwner := hown.2 }

theorem owners_freePopped {job : Nat} (hs : ListInv s) (hw : s.worker = .free job) :
    Owners { s.freeObj job with worker := .test } := by
  have hp : job ∈ s.worker.owns := by rw [hw]; rfl
  obtain ⟨hmem, -, -⟩ := hs.workerOwned job hp
  exact
    { alive := by
        intro x hx
        refine alive_freeObj ?_ (hs.alive x hx)
        rintro rfl
        exact hmem hx
      fresh := hs.fresh
      reqOwned := by
        intro t ht x hx
        obtain ⟨h₁, h₂, h₃⟩ := hs.reqOwned t ht x hx
        refine ⟨h₁, alive_freeObj ?_ h₂, h₃⟩
        rintro rfl
        exact hs.workerOwner t ht x hx hp
      workerOwned := nofun
      reqOwner := hs.reqOwner
      workerOwner := fun _ _ _ _ ↦ nofun }

/-- A request takes memory for its job. -/
theorem owners_alloc (hs : ListInv s) (hp : p ≠ 0) (hfree : s.alive p = false)
    (hnext : ∀ y, y ≠ p → u.next y = s.next y) (hself : u.next p = 0) (hchain : u.chain = s.chain)
    (halive : u.alive = Function.update s.alive p true)
    (hreq : u.req = Function.update s.req t (.reading p)) (hworker : u.worker = s.worker) :
    Owners u := by
  have hnot : p ∉ s.chain := fun h ↦ by simp [hs.alive p h] at hfree
  have hnew : ∀ t' < httpMaxUser, p ∉ (s.req t').owns := by
    intro t' ht' h
    simp [(hs.reqOwned t' ht' p h).2.1] at hfree
  have hnewWorker : p ∉ s.worker.owns := by
    intro h
    simp [(hs.workerOwned p h).2.1] at hfree
  have hown := hs.owner_fresh (t := t) (show PtrReq.owns (.reading p) = some p from rfl) hnew
    hnewWorker
  have howned : ∀ {x}, Owned s x → Owned u x := by
    rintro x ⟨h₁, h₂, h₃⟩
    refine ⟨hchain ▸ h₁, ?_, h₃⟩
    rw [halive]
    exact alive_update h₂
  exact
    { alive := by
        rw [hchain, halive]
        exact fun x hx ↦ alive_update (hs.alive x hx)
      fresh := by
        rw [hreq]
        refine forall_lt_update (P := fun _ pc ↦ PtrReq.making pc = true →
          ∀ x ∈ PtrReq.owns pc, u.next x = 0) (fun t' ht' hm x hx ↦ ?_) fun _ x hx ↦ ?_
        · rw [hnext x fun h ↦ hnew t' ht' (h ▸ hx)]
          exact hs.fresh t' ht' hm x hx
        · obtain rfl := Option.some.inj hx
          exact hself
      reqOwned := by
        rw [hreq]
        refine forall_lt_update (P := fun _ pc ↦ ∀ x ∈ PtrReq.owns pc, Owned u x)
          (fun t' ht' x hx ↦ howned (hs.reqOwned t' ht' x hx)) fun x hx ↦ ?_
        obtain rfl := Option.some.inj hx
        refine ⟨hchain ▸ hnot, ?_, hp⟩
        rw [halive, Function.update_self]
      workerOwned := by
        rw [hworker]
        exact fun x hx ↦ howned (hs.workerOwned x hx)
      reqOwner := by
        rw [hreq]
        exact hown.1
      workerOwner := by
        rw [hreq, hworker]
        exact hown.2 }

/-- The job of a request is linked in. -/
theorem owners_insert (hs : ListInv s) (ht : t < httpMaxUser) (hpc : s.req t = .insert p)
    (hchain : u.chain = s.chain ++ [p]) (hnext : ∀ y, (y ∈ s.chain → s.next y ≠ 0) →
      u.next y = s.next y) (halive : u.alive = s.alive)
    (hreq : u.req = Function.update s.req t .idle) (hworker : u.worker = s.worker) :
    Owners u := by
  have hpt : p ∈ (s.req t).owns := by rw [hpc]; rfl
  have hp := hs.reqOwned t ht p hpt
  have hown := hs.owner_update t (show ∀ p ∈ PtrReq.owns .idle, p ∈ (s.req t).owns from nofun)
  have hother : ∀ {x}, x ≠ p → Owned s x → Owned u x := by
    rintro x hx ⟨h₁, h₂, h₃⟩
    refine ⟨?_, halive ▸ h₂, h₃⟩
    rw [hchain]
    simp [h₁, hx]
  have howned := hs.owned_of_given ht hpt hother
  exact
    { alive := by
        rw [hchain, halive]
        intro x hx
        rcases List.mem_append.mp hx with hx | hx
        · exact hs.alive x hx
        · rw [List.mem_singleton.mp hx]
          exact hp.2.1
      fresh := by
        rw [hreq]
        refine forall_lt_update (P := fun _ pc ↦ PtrReq.making pc = true →
          ∀ x ∈ PtrReq.owns pc, u.next x = 0) (fun t' ht' hm x hx ↦ ?_) nofun
        -- the links of the list change, and a job that is being made is not in it
        rw [hnext x fun h ↦ absurd h (hs.reqOwned t' ht' x hx).1]
        exact hs.fresh t' ht' hm x hx
      reqOwned := by
        rw [hreq]
        exact howned.1
      workerOwned := by
        rw [hworker]
        exact howned.2
      reqOwner := by
        rw [hreq]
        exact hown.1
      workerOwner := by
        rw [hreq, hworker]
        exact hown.2 }

theorem owners_keep (hs : ListInv s) (h : KeepsList s u) (hchain : u.chain = s.chain) :
    Owners u := by
  have howned : ∀ {x}, Owned s x → Owned u x :=
    fun hx ↦ ⟨hchain ▸ hx.1, h.alive ▸ hx.2.1, hx.2.2⟩
  exact
    { alive := by
        rw [hchain, h.alive]
        exact hs.alive
      fresh := fun t ht hm p hp ↦ by
        rw [h.next]
        exact hs.fresh t ht (h.making t ▸ hm) p (h.owns t ▸ hp)
      reqOwned := fun t ht p hp ↦ howned (hs.reqOwned t ht p (h.owns t ▸ hp))
      workerOwned := fun p hp ↦ howned (hs.workerOwned p (h.worker ▸ hp))
      reqOwner := fun t ht t' ht' p hp hp' ↦
        hs.reqOwner t ht t' ht' p (h.owns t ▸ hp) (h.owns t' ▸ hp')
      workerOwner := fun t ht p hp ↦ by
        rw [h.worker]
        exact hs.workerOwner t ht p (h.owns t ▸ hp) }

theorem owners_step {l : ListAct} (hs : ListInv s) (hok : LinkOk s l) (h : ListStep s l u) :
    Owners u := by
  have hchain := hs.chain_step hok h
  cases h with
  | alloc ht hpc hp hfree hmax =>
      refine hs.owners_alloc hp hfree (hs.alloc_next hfree).2 ?_ hchain rfl rfl rfl
      simp [PtrSys.next, PtrSys.setObj, PtrSys.setReq, newObj]
  | drop ht hp hu => exact hs.owners_drop ht hp
  | @insert t p ht hpc =>
      have hown : p ∈ (s.req t).owns := by rw [hpc]; rfl
      have hmaking : (s.req t).making = true := by rw [hpc]; rfl
      obtain ⟨halive, hreq, hworker, -⟩ := insertObj_frame s p
      refine hs.owners_insert ht hpc hchain
        (hs.insertObj_linked (hs.reqOwned t ht p hown) (hs.fresh t ht hmaking p hown)).2 halive
        ?_ hworker
      show Function.update (insertObj s p).req t .idle = _
      rw [hreq]
  | unlinkHead ht hpc =>
      change _ = [] at hchain
      refine hs.owners_unlink (List.mem_of_head? hok) ?_ ?_ (fun _ _ ↦ rfl) rfl rfl rfl
      · rw [hchain]
        exact List.not_mem_nil
      · rw [hchain]
        exact List.nil_sublist _
  | @unlinkNext t p q v ht hpc =>
      change _ = s.chain.erase p at hchain
      refine hs.owners_unlink (hok.1.subset (by simp)) ?_ ?_ (hs.unlinkNext_linked hok.1 hok.2).2
        rfl rfl rfl
      · rw [hchain]
        exact hs.nodup.not_mem_erase
      · rw [hchain]
        exact List.erase_sublist
  | @countOff t p ht hpc =>
      have hsub : ∀ q ∈ PtrReq.owns (.setCancel p), q ∈ (s.req t).owns := by
        rw [hpc]
        exact fun _ h ↦ h
      have hown := hs.owner_update t hsub
      exact
        { alive := hs.alive
          fresh := forall_lt_update (P := fun _ pc ↦ PtrReq.making pc = true →
            ∀ x ∈ PtrReq.owns pc, s.next x = 0) hs.fresh fun hmaking ↦ by cases hmaking
          reqOwned := forall_lt_update (P := fun _ pc ↦ ∀ x ∈ PtrReq.owns pc, Owned s x)
            hs.reqOwned fun x hx ↦ hs.reqOwned t ht x (by rw [hpc]; exact hx)
          workerOwned := hs.workerOwned
          reqOwner := hown.1
          workerOwner := hown.2 }
  | pop hw => exact hs.owners_pop hok hchain rfl rfl rfl rfl
  | freePopped hw => exact hs.owners_freePopped hw
  | keep h => exact hs.owners_keep h hchain

/-- The pointers go on holding a list. -/
theorem step {l : ListAct} (hs : ListInv s) (hok : LinkOk s l) (h : ListStep s l u) :
    ListInv u where
  toOwners := hs.owners_step hok h
  linked := by
    rw [hs.chain_step hok h]
    exact hs.linked_step hok h
  count := by
    have htally := hs.tally hok h
    have hc := hs.count
    omega
  bound := by
    have hb := hs.bound
    have hdemand := hs.demand hok h
    have hle := countAt_le PtrReq.making u.req httpMaxUser
    cases h with
    | alloc ht hpc hp hfree hmax =>
        change s.jobsNo.toNat + countAt _ _ _ ≤ _
        omega
    | _ => exact hdemand.trans hb

end ListInv

end PrintServer.Ipp
