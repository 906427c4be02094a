import PrintServer.Ipp.Worker

/-!
# The worker along a run
-/

namespace PrintServer.Ipp

open Lib Receive

variable {s u : WorkerSys} {t p n : Nat}

/-- The number of the job that the request has had accepted. -/
def ReqPc.number : ReqPc → Option Nat
  | .inserted _ n | .creating _ n | .returned _ n => some n
  | _ => none

/-- With the flag clear there is no worker but one that exits; a request that creates a worker is
the only one that does, and beside no other worker; and the jobs of the requests that have
returned are served. -/
structure WorkerInv (s : WorkerSys) : Prop where
  jobs : JobInv s.jobs
  numbers : ∀ t n, (s.req t).number = some n → n < s.count
  off : s.processOn = false → s.worker = .none ∨ s.worker = .exiting
  on : s.processOn = true → s.worker = .leave ∨ s.hasWorker
  creating : ∀ t p n, s.req t = .creating p n →
    s.processOn = true ∧ (s.worker = .none ∨ s.worker = .exiting)
  creator : ∀ t p n t' p' n', s.req t = .creating p n → s.req t' = .creating p' n' → t = t'
  served : JobsServed s

theorem workerStart_inv : WorkerInv workerStart where
  jobs := jobStart_inv
  numbers := nofun
  off := fun _ ↦ Or.inl rfl
  on := nofun
  creating := nofun
  creator := nofun
  served := nofun

/-! ## What the steps do to the list -/

theorem JobSys.accepted_arrive {j k : JobSys} (h : jobStep j (.arrive p) = some k) :
    k.accepted = j.accepted := by
  obtain ⟨-, hk⟩ := Option.ite_none_right_eq_some.mp h
  obtain rfl := Option.some.inj hk
  rfl

theorem JobSys.accepted_reject {j k : JobSys} (h : jobStep j (.reject p) = some k) :
    k.accepted = j.accepted := by
  obtain ⟨-, hk⟩ := Option.ite_none_right_eq_some.mp h
  obtain rfl := Option.some.inj hk
  rfl

theorem JobSys.accepted_pend {j k : JobSys} (h : jobStep j (.pend p) = some k) :
    k.accepted = j.accepted := by
  obtain ⟨-, hk⟩ := Option.ite_none_right_eq_some.mp h
  obtain rfl := Option.some.inj hk
  rfl

theorem JobSys.accepted_accept {j k : JobSys} (h : jobStep j (.accept p) = some k) :
    k.accepted = j.accepted ++ [p] := by
  obtain ⟨-, hk⟩ := Option.ite_none_right_eq_some.mp h
  obtain rfl := Option.some.inj hk
  rfl

theorem JobInv.accepted_eq_nil {j : JobSys} (hj : JobInv j) (h : j.jobsNo = 0) :
    j.accepted = [] := by
  have hcount := hj.ok.count
  rw [h] at hcount
  exact List.length_eq_zero_iff.mp hcount.symm

namespace WorkerInv

theorem listed_iff (hs : WorkerInv s) : s.listed p n ↔ p ∈ s.jobs.accepted ∧ s.serial p = n := by
  unfold WorkerSys.listed
  rw [hs.jobs.chain_eq]

/-- A worker that tests again is alone, and the flag is set. -/
theorem live (hs : WorkerInv s) (h : s.worker.testsAgain = true) :
    s.processOn = true ∧ ∀ t p n, s.req t ≠ .creating p n := by
  have hne : ¬ (s.worker = .none ∨ s.worker = .exiting) := by
    rintro (hw | hw) <;> rw [hw] at h <;> cases h
  constructor
  · by_contra hon
    exact hne (hs.off (by simpa using hon))
  · exact fun t p n hc ↦ hne (hs.creating t p n hc).2

theorem hasWorker_congr (hw : u.worker = s.worker)
    (hcre : ∀ t p n, u.req t = .creating p n ↔ s.req t = .creating p n) :
    u.hasWorker ↔ s.hasWorker := by
  unfold WorkerSys.hasWorker
  rw [hw]
  simp only [hcre]

/-- The flag, the worker and the requests that create one are as before, and no job has become
one of a request that has returned. -/
theorem frame (hs : WorkerInv s) (hjobs : JobInv u.jobs)
    (hnum : ∀ t n, (u.req t).number = some n → n < u.count)
    (hon : u.processOn = s.processOn) (hw : u.worker = s.worker)
    (hcre : ∀ t p n, u.req t = .creating p n ↔ s.req t = .creating p n)
    (hret : ∀ t p n, u.req t = .returned p n → u.listed p n →
      s.req t = .returned p n ∧ s.listed p n) : WorkerInv u where
  jobs := hjobs
  numbers := hnum
  off := by rw [hon, hw]; exact hs.off
  on := by rw [hon, hw, hasWorker_congr hw hcre]; exact hs.on
  creating := fun t p n hc ↦ by rw [hon, hw]; exact hs.creating t p n ((hcre t p n).mp hc)
  creator := fun t p n t' p' n' h h' ↦
    hs.creator t p n t' p' n' ((hcre t p n).mp h) ((hcre t' p' n').mp h')
  served := by
    intro t p n hr hl
    obtain ⟨hr', hl'⟩ := hret t p n hr hl
    rw [hon, hasWorker_congr hw hcre]
    exact hs.served t p n hr' hl'

/-- The worker goes on in its loop, and the list gets no new jobs. -/
theorem loop (hs : WorkerInv s) (hlive : s.worker.testsAgain = true) (hjobs : JobInv u.jobs)
    (hcount : u.count = s.count) (hon : u.processOn = s.processOn) (hreq : u.req = s.req)
    (hw : u.worker.testsAgain = true) : WorkerInv u where
  jobs := hjobs
  numbers := by rw [hreq, hcount]; exact hs.numbers
  off := fun h ↦ by
    rw [hon, (hs.live hlive).1] at h
    cases h
  on := fun _ ↦ Or.inr (Or.inl hw)
  creating := fun t p n hc ↦ by
    rw [hreq] at hc
    exact absurd hc ((hs.live hlive).2 t p n)
  creator := by rw [hreq]; exact hs.creator
  served := fun _ _ _ _ _ ↦ ⟨hon.trans (hs.live hlive).1, Or.inl hw⟩

/-- The worker clears the flag when the requests of all jobs in the list are still to test it. -/
theorem clear (hs : WorkerInv s) (hcre : ∀ t p n, s.req t ≠ .creating p n)
    (hnone : ∀ t p n, s.req t = .returned p n → ¬ s.listed p n) :
    WorkerInv { s with processOn := false, worker := .exiting } where
  jobs := hs.jobs
  numbers := hs.numbers
  off := fun _ ↦ Or.inr rfl
  on := nofun
  creating := fun t p n hc ↦ absurd hc (hcre t p n)
  creator := hs.creator
  served := fun t p n hr hl ↦ absurd hl (hnone t p n hr)

/-- The thread of a worker that has cleared the flag ends. -/
theorem exit (hs : WorkerInv s) (hw : s.worker = .exiting) :
    WorkerInv { s with worker := .none } := by
  have hworker : s.hasWorker → ∃ t p n, s.req t = .creating p n := by
    rintro (h | h)
    · rw [hw] at h
      cases h
    · exact h
  exact
    { jobs := hs.jobs
      numbers := hs.numbers
      off := fun _ ↦ Or.inl rfl
      on := fun hon ↦ by
        rcases hs.on hon with h | h
        · rw [hw] at h
          cases h
        · exact Or.inr (Or.inr (hworker h))
      creating := fun t p n hc ↦ ⟨(hs.creating t p n hc).1, Or.inl rfl⟩
      creator := hs.creator
      served := fun t p n hr hl ↦
        ⟨(hs.served t p n hr hl).1, Or.inr (hworker (hs.served t p n hr hl).2)⟩ }

/-! ## Steps of a request -/

theorem setReq_creating {pc : ReqPc} (hold : ∀ p n, s.req t ≠ .creating p n)
    (hnew : ∀ p n, pc ≠ .creating p n) (t' p n : Nat) :
    (s.setReq t pc).req t' = .creating p n ↔ s.req t' = .creating p n := by
  by_cases ht : t' = t
  · subst ht
    simp only [WorkerSys.setReq, Function.update_self, hold p n, hnew p n]
  · simp only [WorkerSys.setReq, Function.update_of_ne ht]

theorem number_setReq (hs : WorkerInv s) {pc : ReqPc} (hpc : ∀ n, pc.number = some n → n < s.count)
    (t' n : Nat) (h : ((s.setReq t pc).req t').number = some n) : n < s.count := by
  by_cases ht : t' = t
  · subst ht
    simp only [WorkerSys.setReq, Function.update_self] at h
    exact hpc n h
  · simp only [WorkerSys.setReq, Function.update_of_ne ht] at h
    exact hs.numbers t' n h

/-- A request that has no job yet reads its attributes or gives up. -/
theorem early (hs : WorkerInv s) {pc : ReqPc} {jobs : JobSys} (hjobs : JobInv jobs)
    (hacc : jobs.accepted = s.jobs.accepted) (hold : ∀ p n, s.req t ≠ .creating p n)
    (hnew : pc.number = none) : WorkerInv { s.setReq t pc with jobs := jobs } := by
  refine hs.frame hjobs (hs.number_setReq fun n h ↦ ?_) rfl rfl
    (setReq_creating hold fun p n h ↦ ?_) fun t' p n hr hl ↦ ?_
  · rw [hnew] at h
    cases h
  · rw [h] at hnew
    cases hnew
  · change p ∈ jobs.chain ∧ s.serial p = n at hl
    rw [hjobs.chain_eq, hacc] at hl
    refine ⟨?_, hs.listed_iff.mpr hl⟩
    by_cases ht : t' = t
    · subst ht
      change Function.update s.req t' pc t' = _ at hr
      rw [Function.update_self] at hr
      rw [hr] at hnew
      cases hnew
    · exact (Function.update_of_ne ht _ _).symm.trans hr

theorem accept (hs : WorkerInv s) {jobs : JobSys} (hreq : s.req t = .pending p)
    (hjobs : JobInv jobs) (hacc : jobs.accepted = s.jobs.accepted ++ [p]) :
    WorkerInv { s.setReq t (.inserted p s.count) with
      jobs := jobs
      serial := Function.update s.serial p s.count
      count := s.count + 1 } := by
  have hold : ∀ p n, s.req t ≠ .creating p n := fun p n h ↦ by rw [hreq] at h; cases h
  refine hs.frame hjobs (fun t' n h ↦ ?_) rfl rfl (setReq_creating hold nofun)
    fun t' q n hr hl ↦ ?_
  · by_cases ht : t' = t
    · subst ht
      simp only [WorkerSys.setReq, Function.update_self, ReqPc.number, Option.some.injEq] at h
      exact h ▸ Nat.lt_succ_self _
    · simp only [WorkerSys.setReq, Function.update_of_ne ht] at h
      exact Nat.lt_succ_of_lt (hs.numbers t' n h)
  · have ht : t' ≠ t := by
      rintro rfl
      simp only [WorkerSys.setReq, Function.update_self, reduceCtorEq] at hr
    simp only [WorkerSys.setReq, Function.update_of_ne ht] at hr
    refine ⟨hr, hs.listed_iff.mpr ?_⟩
    change q ∈ jobs.chain ∧ Function.update s.serial p s.count q = n at hl
    rw [hjobs.chain_eq, hacc] at hl
    obtain ⟨hmem, hser⟩ := hl
    -- the number of the new job is that of no request before
    have hn : n < s.count := hs.numbers t' n (by rw [hr]; rfl)
    have hqp : q ≠ p := by
      rintro rfl
      rw [Function.update_self] at hser
      omega
    rw [Function.update_of_ne hqp] at hser
    rcases List.mem_append.mp hmem with hmem | hmem
    · exact ⟨hmem, hser⟩
    · exact absurd (List.mem_singleton.mp hmem) hqp

/-- The request finds the flag set and returns. -/
theorem findOn (hs : WorkerInv s) (hreq : s.req t = .inserted p n) (hon : s.processOn = true)
    (hok : s.worker = .leave → ¬ s.listed p n) : WorkerInv (s.setReq t (.returned p n)) := by
  have hold : ∀ p n, s.req t ≠ .creating p n := fun p n h ↦ by rw [hreq] at h; cases h
  have hcre : ∀ t' p' n', (s.setReq t (.returned p n)).req t' = .creating p' n' ↔
      s.req t' = .creating p' n' := setReq_creating hold nofun
  have hworker : (s.setReq t (.returned p n)).hasWorker ↔ s.hasWorker := hasWorker_congr rfl hcre
  exact
    { jobs := hs.jobs
      numbers := hs.number_setReq fun m h ↦ hs.numbers t m (by rw [hreq]; exact h)
      off := hs.off
      on := by rw [hworker]; exact hs.on
      creating := fun t p n hc ↦ hs.creating t p n ((hcre t p n).mp hc)
      creator := fun t p n t' p' n' h h' ↦
        hs.creator t p n t' p' n' ((hcre t p n).mp h) ((hcre t' p' n').mp h')
      served := by
        intro t' q m hr hl
        rw [hworker]
        change s.processOn = true ∧ _
        change s.listed q m at hl
        by_cases ht : t' = t
        · subst ht
          simp only [WorkerSys.setReq, Function.update_self, ReqPc.returned.injEq] at hr
          obtain ⟨rfl, rfl⟩ := hr
          refine ⟨hon, (hs.on hon).resolve_left fun hleave ↦ hok hleave hl⟩
        · simp only [WorkerSys.setReq, Function.update_of_ne ht] at hr
          exact hs.served t' q m hr hl }

/-- The request finds the flag clear and sets it: it is the one that creates the worker. -/
theorem findOff (hs : WorkerInv s) (hreq : s.req t = .inserted p n)
    (hoff : s.processOn = false) :
    WorkerInv { s.setReq t (.creating p n) with processOn := true } := by
  have hnocre : ∀ t p n, s.req t ≠ .creating p n := by
    intro t p n hc
    rw [(hs.creating t p n hc).1] at hoff
    cases hoff
  have hself : ∀ t' p' n', Function.update s.req t (.creating p n) t' = .creating p' n' →
      t' = t := by
    intro t' p' n' h
    by_contra ht
    rw [Function.update_of_ne ht] at h
    exact hnocre t' p' n' h
  exact
    { jobs := hs.jobs
      numbers := hs.number_setReq fun m h ↦ hs.numbers t m (by rw [hreq]; exact h)
      off := nofun
      on := fun _ ↦ Or.inr (Or.inr ⟨t, p, n, Function.update_self ..⟩)
      creating := fun _ _ _ _ ↦ ⟨rfl, hs.off hoff⟩
      creator := fun t₁ p₁ n₁ t₂ p₂ n₂ h₁ h₂ ↦
        (hself t₁ p₁ n₁ h₁).trans (hself t₂ p₂ n₂ h₂).symm
      served := by
        intro t' q m hr hl
        have ht : t' ≠ t := by
          rintro rfl
          simp only [WorkerSys.setReq, Function.update_self, reduceCtorEq] at hr
        simp only [WorkerSys.setReq, Function.update_of_ne ht] at hr
        rw [(hs.served t' q m hr hl).1] at hoff
        cases hoff }

theorem create (hs : WorkerInv s) (hreq : s.req t = .creating p n) :
    WorkerInv { s.setReq t (.returned p n) with worker := .lockedTest } := by
  have hon : s.processOn = true := (hs.creating t p n hreq).1
  have hnocre : ∀ t' p' n', Function.update s.req t (.returned p n) t' ≠ .creating p' n' := by
    intro t' p' n' h
    by_cases ht : t' = t
    · subst ht
      rw [Function.update_self] at h
      cases h
    · rw [Function.update_of_ne ht] at h
      exact ht (hs.creator t' p' n' t p n h hreq)
  exact
    { jobs := hs.jobs
      numbers := hs.number_setReq fun m h ↦ hs.numbers t m (by rw [hreq]; exact h)
      off := fun h ↦ by
        change s.processOn = false at h
        rw [hon] at h
        cases h
      on := fun _ ↦ Or.inr (Or.inl rfl)
      creating := fun t' p' n' hc ↦ absurd hc (hnocre t' p' n')
      creator := fun t' p' n' _ _ _ hc _ ↦ absurd hc (hnocre t' p' n')
      served := fun _ _ _ _ _ ↦ ⟨hon, Or.inl rfl⟩ }

end WorkerInv

/-! ## Every run -/

theorem reqStep_inv {c : ReqChoice} (hs : WorkerInv s) (hok : ReqOk s (s.req t) c)
    (hstep : reqStep s t (s.req t) c = some u) : WorkerInv u := by
  cases hreq : s.req t with
  | idle =>
      rw [hreq] at hstep
      cases c <;> simp only [reqStep, reduceCtorEq] at hstep
      obtain ⟨jobs, hjobs, rfl⟩ := Option.map_eq_some_iff.mp hstep
      exact hs.early (jobStep_inv hs.jobs hjobs) (JobSys.accepted_arrive hjobs)
        (fun p n h ↦ by rw [hreq] at h; cases h) rfl
  | reading p =>
      rw [hreq] at hstep
      cases c <;> simp only [reqStep, reduceCtorEq] at hstep
      case reject =>
        obtain ⟨jobs, hjobs, rfl⟩ := Option.map_eq_some_iff.mp hstep
        exact hs.early (jobStep_inv hs.jobs hjobs)
          (JobSys.accepted_reject hjobs) (fun p n h ↦ by rw [hreq] at h; cases h) rfl
      case pend =>
        obtain ⟨jobs, hjobs, rfl⟩ := Option.map_eq_some_iff.mp hstep
        exact hs.early (jobStep_inv hs.jobs hjobs) (JobSys.accepted_pend hjobs)
          (fun p n h ↦ by rw [hreq] at h; cases h) rfl
  | pending p =>
      rw [hreq] at hstep
      cases c <;> simp only [reqStep, reduceCtorEq] at hstep
      obtain ⟨jobs, hjobs, rfl⟩ := Option.map_eq_some_iff.mp hstep
      exact hs.accept hreq (jobStep_inv hs.jobs hjobs) (JobSys.accepted_accept hjobs)
  | inserted p n =>
      rw [hreq] at hstep hok
      cases c <;> simp only [reqStep, reduceCtorEq] at hstep
      split at hstep <;> obtain rfl := Option.some.inj hstep
      · rename_i hon
        exact hs.findOn hreq hon hok
      · rename_i hoff
        exact hs.findOff hreq (by simpa using hoff)
  | creating p n =>
      rw [hreq] at hstep
      cases c <;> simp only [reqStep, reduceCtorEq] at hstep
      obtain rfl := Option.some.inj hstep
      exact hs.create hreq
  | returned p n =>
      rw [hreq] at hstep
      cases c <;> simp only [reqStep, reduceCtorEq] at hstep

theorem workerStep_inv {c : WorkerChoice} (hs : WorkerInv s)
    (hstep : workerStep s s.worker c = some u) : WorkerInv u := by
  have hlisted : s.jobs.jobsNo = 0 → ∀ p n, ¬ s.listed p n := by
    intro h0 p n hl
    have hmem := (hs.listed_iff.mp hl).1
    rw [hs.jobs.accepted_eq_nil h0] at hmem
    cases hmem
  cases hw : s.worker with
  | none =>
      rw [hw] at hstep
      cases c <;> simp only [workerStep, reduceCtorEq] at hstep
  | lockedTest =>
      rw [hw] at hstep
      have hlive : s.worker.testsAgain = true := by rw [hw]; rfl
      cases c <;> simp only [workerStep, reduceCtorEq] at hstep
      split at hstep <;> obtain rfl := Option.some.inj hstep
      · rename_i h0
        exact hs.clear (hs.live hlive).2 fun _ p n _ ↦ hlisted h0 p n
      · refine hs.loop hlive hs.jobs rfl rfl rfl ?_
        split <;> rfl
  | take | start =>
      rw [hw] at hstep
      cases c <;> simp only [workerStep, reduceCtorEq] at hstep
      obtain ⟨jobs, hjobs, rfl⟩ := Option.map_eq_some_iff.mp hstep
      exact hs.loop (by rw [hw]; rfl) (jobStep_inv hs.jobs hjobs)
        rfl rfl rfl rfl
  | process =>
      rw [hw] at hstep
      cases c <;> simp only [workerStep, reduceCtorEq] at hstep
      obtain ⟨jobs, hjobs, rfl⟩ := Option.map_eq_some_iff.mp hstep
      exact hs.loop (by rw [hw]; rfl) (jobStep_inv hs.jobs hjobs)
        rfl rfl rfl rfl
  | pop =>
      rw [hw] at hstep
      cases c <;> simp only [workerStep, reduceCtorEq] at hstep
      obtain ⟨jobs, hjobs, rfl⟩ := Option.map_eq_some_iff.mp hstep
      exact hs.loop (by rw [hw]; rfl) (jobStep_inv hs.jobs hjobs)
        rfl rfl rfl rfl
  | loopTest =>
      rw [hw] at hstep
      have hlive : s.worker.testsAgain = true := by rw [hw]; rfl
      cases c <;> simp only [workerStep, reduceCtorEq] at hstep
      obtain rfl := Option.some.inj hstep
      by_cases h0 : s.jobs.jobsNo = 0
      · rw [if_pos h0]
        exact
          { jobs := hs.jobs
            numbers := hs.numbers
            off := fun h ↦ by
              change s.processOn = false at h
              rw [(hs.live hlive).1] at h
              cases h
            on := fun _ ↦ Or.inl rfl
            creating := fun t p n hc ↦ absurd hc ((hs.live hlive).2 t p n)
            creator := hs.creator
            served := fun _ p n _ hl ↦ absurd hl (hlisted h0 p n) }
      · rw [if_neg h0]
        exact hs.loop hlive hs.jobs rfl rfl rfl rfl
  | portTest =>
      rw [hw] at hstep
      cases c <;> simp only [workerStep, reduceCtorEq] at hstep
      obtain rfl := Option.some.inj hstep
      refine hs.loop (by rw [hw]; rfl) hs.jobs rfl rfl rfl ?_
      split <;> rfl
  | leave =>
      rw [hw] at hstep
      cases c <;> simp only [workerStep, reduceCtorEq] at hstep
      obtain rfl := Option.some.inj hstep
      have hnocre : ∀ t p n, s.req t ≠ .creating p n := by
        intro t p n hc
        have hend := (hs.creating t p n hc).2
        rw [hw] at hend
        rcases hend with h | h <;> cases h
      refine hs.clear hnocre fun t p n hr hl ↦ ?_
      -- a job that is listed has a worker, and this one has left
      rcases (hs.served t p n hr hl).2 with h | ⟨t', p', n', hc⟩
      · rw [hw] at h
        cases h
      · exact hnocre t' p' n' hc
  | exiting =>
      rw [hw] at hstep
      cases c <;> simp only [workerStep, reduceCtorEq] at hstep
      obtain rfl := Option.some.inj hstep
      exact hs.exit hw

theorem workerActStep_inv {a : WorkerAct} (hs : WorkerInv s) (hok : WorkerOk s a)
    (hstep : workerActStep s a = some u) : WorkerInv u := by
  cases a with
  | req t c => exact reqStep_inv hs hok hstep
  | worker c => exact workerStep_inv hs hstep

/-- In a run in which no request tests `ippProcessOn` between the worker's last test of the counter
and its clearing of the flag, every job whose request has returned has a worker. -/
theorem jobs_served_of_workerOk (acts : List WorkerAct) {s : WorkerSys}
    (hok : workerMachine.Along WorkerOk workerStart acts) (hrun : workerMachine.run acts = some s) :
    JobsServed s :=
  (Machine.run_invariant workerStart_inv (fun _ _ _ ↦ workerActStep_inv) hok hrun).served

/-- A Print-Job, whose request starts the worker, which takes the job. -/
def firstJob : List WorkerAct :=
  [.req 0 (.arrive 7), .req 0 .pend, .req 0 .accept, .req 0 .testProcessOn, .req 0 .create,
    .worker (.portReady true), .worker .go, .worker .go]

/-- A second job comes while the first one is printed, and is taken by the same worker. -/
def secondJob : List WorkerAct :=
  firstJob ++
  [.req 1 (.arrive 8), .req 1 .pend, .req 1 .accept, .req 1 .testProcessOn,
    .worker (.ended .complete), .worker .go, .worker .go, .worker (.portReady true)]

theorem jobs_served_two_jobs :
    ∃ s, workerMachine.run secondJob = some s ∧
      s.req 1 = .returned 8 1 ∧ s.jobs.accepted = [8] ∧ s.worker = .take ∧ JobsServed s :=
  ⟨_, rfl, rfl, rfl, rfl, jobs_served_of_workerOk secondJob (by decide) rfl⟩

/-- The worker has found no job left, a second request finds the flag still set, and then the
worker clears it: the job waits without a worker. -/
def lateJob : List WorkerAct :=
  firstJob ++
  [.worker (.ended .complete), .worker .go, .worker .go, .req 1 (.arrive 8), .req 1 .pend,
    .req 1 .accept, .req 1 .testProcessOn, .worker .go, .worker .go]

theorem second_job_without_worker :
    ∃ s, workerMachine.run lateJob = some s ∧
      s.req 1 = .returned 8 1 ∧ s.jobs.chain = [8] ∧ s.processOn = false ∧ s.worker = .none ∧
      ¬ JobsServed s := by
  refine ⟨_, rfl, rfl, rfl, rfl, rfl, fun h ↦ ?_⟩
  have hserved := h 1 8 1 rfl ⟨by decide, rfl⟩
  cases hserved.1

end PrintServer.Ipp
