import PrintServer.Ipp.PointersOwners

/-!
# The limit on the jobs

`ippPrintValidateJob` refuses a Print-Job while `ippJobsNo[port]` has reached `IPP_MAX_USER`.  The
test is made on entry; the attributes are then read from the network, and the job is counted in a
critical section of its own in which the test is not repeated.
-/

namespace PrintServer.Ipp

open Lib Receive

variable {s u : PtrSys} {a : PtrAct} {t : Nat}

def WithinLimit (s : PtrSys) : Prop := s.jobsNo.toNat ≤ ippMaxUser

/-- A Print-Job that passes the test finds room beside the counted jobs for every Print-Job between
the test and the insertion, and a job that is counted off was in the list. -/
def AdmitOk (s : PtrSys) (a : PtrAct) : Prop :=
  match listAct s a with
  | .alloc _ _ => s.jobsNo.toNat + s.making < ippMaxUser
  | l => LinkOk s l

instance (s : PtrSys) (a : PtrAct) : Decidable (AdmitOk s a) := by
  unfold AdmitOk
  split <;> infer_instance

/-- The jobs that are counted and the Print-Jobs that will be. -/
structure LimitInv (s : PtrSys) : Prop extends ListInv s where
  room : s.jobsNo.toNat + s.making ≤ ippMaxUser

theorem ptrStart_limitInv : LimitInv ptrStart where
  toListInv := ptrStart_listInv
  room := by decide

theorem AdmitOk.linkOk (h : AdmitOk s a) : LinkOk s (listAct s a) := by
  unfold AdmitOk at h
  cases hl : listAct s a <;> rw [hl] at h
  case alloc => trivial
  all_goals exact h

theorem LimitInv.step (hs : LimitInv s) (hok : AdmitOk s a) (hstep : ptrStep s a = some u) :
    LimitInv u where
  toListInv := hs.toListInv.step hok.linkOk (ptrStep_list hstep)
  room := by
    have hdemand := hs.demand hok.linkOk (ptrStep_list hstep)
    have hroom := hs.room
    unfold AdmitOk at hok
    cases hl : listAct s a <;> rw [hl] at hok hdemand
    case alloc => exact hdemand.trans hok
    all_goals exact hdemand.trans hroom

/-- In a run in which every Print-Job that passes the test finds room for itself and for those that
have passed it before, the counter is within the limit. -/
theorem withinLimit_of_admitOk (acts : List PtrAct)
    (hok : ptrMachine.Along AdmitOk ptrStart acts) (hrun : ptrMachine.run acts = some s) :
    WithinLimit s := by
  have hs : LimitInv s :=
    Machine.run_invariant ptrStart_limitInv (fun _ _ _ hs hok hstep ↦ hs.step hok hstep) hok hrun
  exact Nat.le_of_add_right_le hs.room

/-- Three jobs are counted, the first one is printed, and a fourth Print-Job comes. -/
def fourthBehindFirst : List PtrAct :=
  printJob 0 7 ++ printJob 1 8 ++ printJob 2 9 ++
  [.worker .ready, .worker .go, .worker .go, .worker (.ended .complete), .worker .go] ++
  printJob 3 10

theorem withinLimit_four_jobs :
    ∃ s, ptrMachine.run fourthBehindFirst = some s ∧ s.jobsNo = 3 ∧ WithinLimit s :=
  ⟨_, rfl, rfl, withinLimit_of_admitOk fourthBehindFirst (by decide) rfl⟩

/-- Four requests pass the test before the first of them is counted. -/
def fourAtOnce : List PtrAct :=
  [.req 0 (.printJob 7), .req 1 (.printJob 8), .req 2 (.printJob 9), .req 3 (.printJob 10)] ++
  (List.range 4).flatMap fun t ↦ [.req t .endTag, .req t .go, .req t .go, .req t .go, .req t .go]

theorem four_jobs_counted :
    ∃ s, ptrMachine.run fourAtOnce = some s ∧ ¬WithinLimit s :=
  ⟨_, rfl, Nat.not_succ_le_self 3⟩

/-! ## What a Print-Job too many comes to -/

/-- The steps that a Print-Job has still to make before it is inserted. -/
def PtrReq.stepsLeft : PtrReq → Nat
  | .reading _ => 5
  | .loadID _ => 4
  | .storeID _ _ => 3
  | .resetID _ => 2
  | .readID _ => 1
  | _ => 0

/-- The step is of a request or of the worker that is past the test. -/
def PastTest (s : PtrSys) (a : PtrAct) : Prop :=
  LinkOk s (listAct s a) ∧ (listAct s a).admitted = 0

/-- However the requests past the test go on, the counter is within the limit. -/
def Safe (s : PtrSys) : Prop :=
  ∀ acts u, ptrMachine.Along PastTest s acts → ptrMachine.runFrom s acts = some u → WithinLimit u

/-- A Print-Job whose attributes are good comes nearer to its insertion. -/
theorem making_step (ht : t < httpMaxUser) (hm : (s.req t).making = true)
    (hi : 0 < (s.req t).stepsLeft) :
    ∃ k u, ptrStep s (.req t k) = some u ∧ listAct s (.req t k) = .keep ∧
      (u.req t).making = true ∧ (u.req t).stepsLeft < (s.req t).stepsLeft := by
  have hgo : ∀ (k : PtrReqChoice) (v : PtrSys) (pc' : PtrReq),
      ptrReqStep s t (s.req t) k = some v → v.req = Function.update s.req t pc' →
      reqListAct t (s.req t) k = .keep → pc'.making = true →
      pc'.stepsLeft < (s.req t).stepsLeft →
      ∃ k u, ptrStep s (.req t k) = some u ∧ listAct s (.req t k) = .keep ∧
        (u.req t).making = true ∧ (u.req t).stepsLeft < (s.req t).stepsLeft := by
    intro k v pc' hstep hreq hkeep hmaking hless
    have hself : v.req t = pc' := by rw [hreq, Function.update_self]
    exact ⟨k, v, (if_pos ht).trans hstep, hkeep, hself ▸ hmaking, hself ▸ hless⟩
  cases hpc : s.req t with
  | reading p =>
      rw [hpc] at hgo
      exact hgo .endTag _ _ rfl rfl rfl rfl (show 4 < 5 by decide)
  | loadID p =>
      rw [hpc] at hgo
      exact hgo .go _ _ rfl rfl rfl rfl (show 3 < 4 by decide)
  | storeID p v =>
      rw [hpc] at hgo
      refine hgo .go _ _ rfl rfl rfl ?_ ?_
      · split <;> rfl
      · split
        · exact (show 2 < 3 by decide)
        · exact (show 1 < 3 by decide)
  | resetID p =>
      rw [hpc] at hgo
      exact hgo .go _ _ rfl rfl rfl rfl (show 1 < 2 by decide)
  | readID p =>
      rw [hpc] at hgo
      exact hgo .go _ _ rfl rfl rfl rfl (show 0 < 1 by decide)
  | insert p =>
      rw [hpc] at hi
      exact absurd hi (Nat.lt_irrefl 0)
  | _ =>
      rw [hpc] at hm
      cases hm

theorem insert_of_stepsLeft {pc : PtrReq} (hm : pc.making = true) (h0 : pc.stepsLeft = 0) :
    ∃ p, pc = .insert p := by
  cases pc with
  | insert p => exact ⟨p, rfl⟩
  | reading | loadID | storeID | resetID | readID => cases h0
  | _ => cases hm

/-- The job is counted in the section under the lock. -/
theorem making_counted {p : Nat} (hs : ListInv s) (ht : t < httpMaxUser)
    (hpc : s.req t = .insert p) :
    ∃ u, ptrStep s (.req t .go) = some u ∧ PastTest s (.req t .go) ∧ ListInv u ∧
      u.jobsNo.toNat = s.jobsNo.toNat + 1 ∧ u.making + 1 = s.making := by
  have hact : listAct s (.req t .go) = .insert t p := by
    show reqListAct t (s.req t) .go = _
    rw [hpc]
    rfl
  have hmove := countAt_move PtrReq.making s.req .idle ht
  refine ⟨(insertObj s p).setReq t .idle, ?_, ?_, hs.step (l := .insert t p) trivial
    (.insert ht hpc), hs.jobsNo_insert ht hpc, ?_⟩
  · show (if t < httpMaxUser then ptrReqStep s t (s.req t) .go else none) = _
    rw [if_pos ht, hpc]
    rfl
  · unfold PastTest
    rw [hact]
    exact ⟨trivial, rfl⟩
  · show countAt _ (Function.update (insertObj s p).req t .idle) _ + 1 = countAt _ _ _
    rw [(insertObj_frame s p).2.1]
    rw [hpc] at hmove
    exact hmove

/-- A Print-Job past the test whose attributes are good is counted. -/
theorem making_ends (hs : ListInv s) (ht : t < httpMaxUser) (hm : (s.req t).making = true) :
    ∃ acts u, ptrMachine.Along PastTest s acts ∧ ptrMachine.runFrom s acts = some u ∧ ListInv u ∧
      u.jobsNo.toNat = s.jobsNo.toNat + 1 ∧ u.making + 1 = s.making := by
  generalize hn : (s.req t).stepsLeft = n
  induction n using Nat.strongRecOn generalizing s with
  | ind n ih =>
      cases n with
      | zero =>
          obtain ⟨p, hpc⟩ := insert_of_stepsLeft hm hn
          obtain ⟨u, hstep, hpast, hinv, hjobs, hcount⟩ := making_counted hs ht hpc
          exact ⟨[.req t .go], u, Machine.along_cons_of hpast hstep trivial,
            Machine.runFrom_cons_some.mpr ⟨u, hstep, rfl⟩, hinv, hjobs, hcount⟩
      | succ n =>
          obtain ⟨k, u, hstep, hkeep, hmaking, hless⟩ := making_step ht hm (by omega)
          have hlist := ptrStep_list hstep
          rw [hkeep] at hlist
          have hpast : PastTest s (.req t k) := by
            unfold PastTest
            rw [hkeep]
            exact ⟨trivial, rfl⟩
          obtain ⟨acts, v, halong, hrun, hinv, hjobs, hcount⟩ :=
            ih _ (hn ▸ hless) (hs.step (l := .keep) trivial hlist) hmaking rfl
          cases hlist with
          | keep h =>
              have hsame : u.making = s.making := countAt_congr h.making
              exact ⟨.req t k :: acts, v, Machine.along_cons_of hpast hstep halong,
                Machine.runFrom_cons_some.mpr ⟨u, hstep, hrun⟩, hinv, by rw [hjobs, h.jobsNo],
                by rw [hcount, hsame]⟩

/-- All of them are. -/
theorem all_counted (hs : ListInv s) :
    ∃ acts u, ptrMachine.Along PastTest s acts ∧ ptrMachine.runFrom s acts = some u ∧
      u.jobsNo.toNat = s.jobsNo.toNat + s.making := by
  generalize hn : s.making = n
  induction n generalizing s with
  | zero => exact ⟨[], s, trivial, rfl, rfl⟩
  | succ n ih =>
      obtain ⟨t, ht, hm⟩ := exists_of_countAt_pos (show 0 < s.making by omega)
      obtain ⟨acts, u, halong, hrun, hinv, hjobs, hcount⟩ := making_ends hs ht hm
      obtain ⟨acts', v, halong', hrun', hjobs'⟩ := ih hinv (by omega)
      refine ⟨acts ++ acts', v, Machine.along_append halong hrun halong', ?_, by omega⟩
      rw [Machine.runFrom_append, hrun]
      exact hrun'

/-- A Print-Job that passes the test with no room left is one too many: the attributes of those
before the insertion may all be good. -/
theorem safe_iff (hs : ListInv s) : Safe s ↔ s.jobsNo.toNat + s.making ≤ ippMaxUser := by
  constructor
  · intro hsafe
    obtain ⟨acts, u, halong, hrun, hjobs⟩ := all_counted hs
    exact hjobs ▸ hsafe acts u halong hrun
  · intro hroom acts u halong hrun
    have hu : LimitInv u := Machine.runFrom_invariant (fun s a v hs hpast hstep ↦ ?_)
      (show LimitInv s from ⟨hs, hroom⟩) halong hrun
    · exact Nat.le_of_add_right_le hu.room
    · refine ⟨hs.toListInv.step hpast.1 (ptrStep_list hstep), ?_⟩
      have hdemand := hs.demand hpast.1 (ptrStep_list hstep)
      rw [hpast.2] at hdemand
      exact hdemand.trans hs.room

/-- The condition on the test is exact: a Print-Job that passes it without is one too many for some
continuation. -/
theorem admitOk_iff_safe (hs : LimitInv s) (hlink : LinkOk s (listAct s a))
    (hstep : ptrStep s a = some u) : AdmitOk s a ↔ Safe u := by
  have hlist := ptrStep_list hstep
  have hu := hs.toListInv.step hlink hlist
  refine ⟨fun hok ↦ (safe_iff hu).mpr (hs.step hok hstep).room, fun hsafe ↦ ?_⟩
  have hroom := (safe_iff hu).mp hsafe
  unfold AdmitOk
  cases hl : listAct s a with
  | alloc t p =>
      rw [hl] at hlist
      cases hlist with
      | alloc ht hpc hp hfree hmax =>
          have hmove := countAt_move PtrReq.making s.req (.reading p) ht
          rw [hpc] at hmove
          change s.jobsNo.toNat + countAt _ (Function.update s.req t (.reading p)) _ ≤ _ at hroom
          show s.jobsNo.toNat + countAt _ _ _ < ippMaxUser
          simp only [PtrReq.making, Bool.toNat_false, Bool.toNat_true] at hmove
          omega
  | _ =>
      rw [hl] at hlink
      exact hlink

end PrintServer.Ipp
