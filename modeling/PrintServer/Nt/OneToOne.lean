import PrintServer.Nt.StartPrint

/-!
# Print Monitor jobs and acquisitions

A job goes through the phases of `NtPhase`.  The phase fixes who holds the port, where both threads
stand and the count of the semaphore, and a step either keeps it or goes to the next one.
-/

namespace PrintServer.Nt

open Lib Spooler Port

inductive NtPhase
  | free
  | acquired
  | posted
  | job

/-- What a job has logged so far. -/
def NtPhase.log : NtPhase → List NtEvent
  | free => []
  | acquired => [.acquired]
  | posted => [.acquired, .posted]
  | job => [.acquired, .posted, .jobStarted]

/-- The utility thread has taken the port and is about to post. -/
def UtilPc.Posting : UtilPc → Prop
  | .openDataPort | .post => True
  | .sendAck ntudpStatus => ntudpStatus = prnNoUsed
  | _ => False

def Nt3Pc.Idle : Nt3Pc → Prop
  | .wait | .setHaveRecv => True
  | _ => False

/-- `NT3main` is at work; its `SendEOF` leaves a port that NT holds alone. -/
def Nt3Pc.InJob : Nt3Pc → Prop
  | .wait | .setHaveRecv | .sendEOF .setInUse | .sendEOF .setNoUse => False
  | _ => True

def AtPhase (s : NtSys) : NtPhase → Prop
  | .free => s.inUse ≠ ntUsed ∧ ¬ s.util.Posting ∧ s.nt3.Idle ∧ s.signal = 0
  | .acquired => s.inUse = ntUsed ∧ s.util.Posting ∧ s.nt3.Idle ∧ s.signal = 0
  | .posted => s.inUse = ntUsed ∧ ¬ s.util.Posting ∧ s.nt3.Idle ∧ s.signal = 1
  | .job => s.inUse = ntUsed ∧ ¬ s.util.Posting ∧ s.nt3.InJob ∧ s.signal = 0

def NtInv (s : NtSys) : Prop :=
  s.openFailed = [] ∧
    ∃ p n, AtPhase s p ∧ s.log = (List.replicate n ntRound).flatten ++ p.log

/-- No start datagram is taken for a retry, and the data socket opens. -/
def NtOk (s : NtSys) : NtAct → Prop
  | .util ok =>
      match s.util with
      | .startPrint d portStatus =>
          portStatus = 0 → s.inUse = ntUsed → isRetry s.ntPortInfo d = false
      | .openDataPort => ok = true
      | _ => True
  | _ => True

instance (s : NtSys) (a : NtAct) : Decidable (NtOk s a) := by
  unfold NtOk
  split
  · split <;> infer_instance
  · infer_instance

variable {s t : NtSys} {p : NtPhase}

namespace AtPhase

theorem of_iff (h : AtPhase s p) (hin : t.inUse = s.inUse) (hsig : t.signal = s.signal)
    (hutil : t.util.Posting ↔ s.util.Posting) (hidle : t.nt3.Idle ↔ s.nt3.Idle)
    (hjob : t.nt3.InJob ↔ s.nt3.InJob) : AtPhase t p := by
  cases p with
  | free | acquired | posted | job =>
      simp only [AtPhase, hin, hsig, hutil, hidle, hjob] at h ⊢
      exact h

theorem acquired_of_posting (h : AtPhase s p) (hutil : s.util.Posting) : p = .acquired := by
  cases p with
  | acquired => rfl
  | free | posted | job => exact absurd hutil h.2.1

theorem job_of_inJob (h : AtPhase s p) (hidle : ¬ s.nt3.Idle) : p = .job := by
  cases p with
  | job => rfl
  | free | acquired | posted => exact absurd h.2.2.1 hidle

theorem free_of_inUse (h : AtPhase s p) (hin : s.inUse ≠ ntUsed) : p = .free := by
  cases p with
  | free => rfl
  | acquired | posted | job => exact absurd h.1 hin

end AtPhase

/-! ## The steps -/

theorem NtInv.of_iff (h : NtInv s) (hin : t.inUse = s.inUse) (hsig : t.signal = s.signal)
    (hutil : t.util.Posting ↔ s.util.Posting) (hidle : t.nt3.Idle ↔ s.nt3.Idle)
    (hjob : t.nt3.InJob ↔ s.nt3.InJob) (hlog : t.log = s.log)
    (hfail : t.openFailed = s.openFailed) : NtInv t := by
  obtain ⟨ho, p, n, hp, hl⟩ := h
  exact ⟨hfail.trans ho, p, n, hp.of_iff hin hsig hutil hidle hjob, hlog.trans hl⟩

theorem uint8_or_eq_zero {a b : UInt8} (h : a ||| b = 0) : b = 0 := by
  rw [UInt8.or_eq_zero_iff] at h
  exact h.2

theorem startLocked_inv {d : Datagram} {portStatus : UInt8} (h : NtInv s)
    (hpc : s.util = .startPrint d portStatus)
    (hok : portStatus = 0 → s.inUse = ntUsed → isRetry s.ntPortInfo d = false) :
    NtInv (startLocked s d portStatus) := by
  have hnot : ¬ s.util.Posting := by simp [hpc, UtilPc.Posting]
  unfold startLocked
  by_cases hstatus : portStatus = 0
  · rw [if_pos hstatus]
    by_cases hfree : s.inUse = prnNoUsed
    · -- the port is taken
      rw [if_pos hfree]
      obtain ⟨ho, p, n, hp, hl⟩ := h
      obtain rfl := hp.free_of_inUse (by rw [hfree]; decide)
      obtain ⟨-, -, hidle, hsig⟩ := hp
      refine ⟨ho, .acquired, n, ⟨rfl, trivial, hidle, hsig⟩, ?_⟩
      change s.log ++ [.acquired] = _
      rw [hl]
      simp only [NtPhase.log, List.append_nil]
    · rw [if_neg hfree]
      have hretry : ¬ (s.inUse = ntUsed ∧ isRetry s.ntPortInfo d) := by
        intro hr
        rw [hok hstatus hr.1] at hr
        exact absurd hr.2 (by decide)
      rw [if_neg hretry]
      refine h.of_iff rfl rfl (iff_of_false ?_ hnot) Iff.rfl Iff.rfl rfl rfl
      change ¬ (0x10 : UInt8) = prnNoUsed
      decide
  · rw [if_neg hstatus]
    refine h.of_iff rfl rfl (iff_of_false ?_ hnot) Iff.rfl Iff.rfl rfl rfl
    exact fun hz ↦ hstatus (uint8_or_eq_zero hz)

theorem utilStep_inv {ok : Bool} (h : NtInv s) (hok : NtOk s (.util ok))
    (hstep : utilStep s ok = some t) : NtInv t := by
  unfold utilStep at hstep
  cases hpc : s.util with
  | recvfrom =>
      simp only [hpc] at hstep
      cases hstep
  | startPrint d portStatus =>
      simp only [hpc] at hstep
      simp only [NtOk, hpc] at hok
      obtain rfl := Option.some.inj hstep
      exact startLocked_inv h hpc hok
  | openDataPort =>
      simp only [NtOk, hpc] at hok
      simp only [hpc, hok, if_true] at hstep
      obtain rfl := Option.some.inj hstep
      have hposting : s.util.Posting := by simp [hpc, UtilPc.Posting]
      exact h.of_iff rfl rfl (iff_of_true rfl hposting) Iff.rfl Iff.rfl rfl rfl
  | sendAck ntudpStatus =>
      simp only [hpc] at hstep
      obtain rfl := Option.some.inj hstep
      refine h.of_iff rfl rfl ?_ Iff.rfl Iff.rfl rfl rfl
      by_cases hstatus : ntudpStatus = prnNoUsed
      · simp [hpc, hstatus, UtilPc.Posting]
      · simp [hpc, hstatus, UtilPc.Posting]
  | post =>
      simp only [hpc] at hstep
      obtain rfl := Option.some.inj hstep
      obtain ⟨ho, p, n, hp, hl⟩ := h
      obtain rfl := hp.acquired_of_posting (by simp [hpc, UtilPc.Posting])
      obtain ⟨hin, -, hidle, hsig⟩ := hp
      refine ⟨ho, .posted, n, ⟨hin, id, hidle, ?_⟩, ?_⟩
      · change s.signal + 1 = 1
        rw [hsig]
      · change s.log ++ [.posted] = _
        rw [hl, List.append_assoc]
        rfl
  | endPrint d =>
      have hnot : ¬ s.util.Posting := by simp [hpc, UtilPc.Posting]
      simp only [hpc] at hstep
      split at hstep
      · obtain rfl := Option.some.inj hstep
        exact h.of_iff rfl rfl (iff_of_false id hnot) Iff.rfl Iff.rfl rfl rfl
      · obtain rfl := Option.some.inj hstep
        exact h.of_iff rfl rfl (iff_of_false id hnot) Iff.rfl Iff.rfl rfl rfl
  | setEndPrint =>
      have hnot : ¬ s.util.Posting := by simp [hpc, UtilPc.Posting]
      simp only [hpc] at hstep
      obtain rfl := Option.some.inj hstep
      exact h.of_iff rfl rfl (iff_of_false id hnot) Iff.rfl Iff.rfl rfl rfl

/-- A step of `NT3main` inside a job. -/
theorem NtInv.inJob (h : NtInv s) (hidle : ¬ s.nt3.Idle) (hin : t.inUse = s.inUse)
    (hsig : t.signal = s.signal) (hutil : t.util = s.util) (hjob : t.nt3.InJob)
    (hlog : t.log = s.log) (hfail : t.openFailed = s.openFailed) : NtInv t := by
  obtain ⟨ho, p, n, hp, hl⟩ := h
  obtain rfl := hp.job_of_inJob hidle
  obtain ⟨huse, hposting, -, hzero⟩ := hp
  exact ⟨hfail.trans ho, .job, n, ⟨hin.trans huse, hutil ▸ hposting, hjob, hsig.trans hzero⟩,
    hlog.trans hl⟩

theorem sendEOF_held {answer : Bool} {pc : EofPc} (h : (Nt3Pc.sendEOF pc).InJob) :
    (sendEOF ntUsed answer pc).1 = ntUsed ∧
      ∀ pc', (sendEOF ntUsed answer pc).2 = some pc' → (Nt3Pc.sendEOF pc').InJob := by
  cases pc with
  | setInUse | setNoUse => exact h.elim
  | status | malloc =>
      refine ⟨rfl, fun pc' hpc' ↦ ?_⟩
      cases answer <;> cases hpc'
      trivial
  | getBuf | test | put | testUse =>
      refine ⟨rfl, fun pc' hpc' ↦ ?_⟩
      simp only [sendEOF] at hpc'
      cases hpc'
      all_goals trivial

theorem requestStep_inv {answer : Nt3Answer} (h : NtInv s) (hpc : s.nt3 = .request)
    (hstep : requestStep s answer = some t) : NtInv t := by
  have hidle : ¬ s.nt3.Idle := by simp [hpc, Nt3Pc.Idle]
  have hjob : s.nt3.InJob := by simp [hpc, Nt3Pc.InJob]
  unfold requestStep at hstep
  split at hstep
  · obtain rfl := Option.some.inj hstep
    exact h.inJob hidle rfl rfl rfl trivial rfl rfl
  · cases answer with
    | yes | no => cases hstep
    | block | skip =>
        obtain rfl := Option.some.inj hstep
        exact h.inJob hidle rfl rfl rfl hjob rfl rfl
    | normal | abort | hold =>
        obtain rfl := Option.some.inj hstep
        exact h.inJob hidle rfl rfl rfl trivial rfl rfl

theorem nt3Step_inv {n : Int} {answer : Nt3Answer} (h : NtInv s)
    (hstep : nt3Step n s answer = some t) : NtInv t := by
  unfold nt3Step at hstep
  cases hpc : s.nt3 with
  | wait =>
      simp only [hpc, Option.ite_none_left_eq_some] at hstep
      obtain ⟨hsig, hst⟩ := hstep
      obtain rfl := Option.some.inj hst
      obtain ⟨ho, p, n, hp, hl⟩ := h
      -- only the phase that hands a job over has the semaphore posted
      have hposted : p = .posted := by
        cases p with
        | posted => rfl
        | free | acquired | job => exact absurd hp.2.2.2 hsig
      subst hposted
      obtain ⟨hin, hposting, -, hone⟩ := hp
      refine ⟨ho, .job, n, ⟨hin, hposting, trivial, ?_⟩, ?_⟩
      · change s.signal - 1 = 0
        rw [hone]
      · change s.log ++ [.jobStarted] = _
        rw [hl, List.append_assoc]
        rfl
  | getBuf held =>
      have hidle : ¬ s.nt3.Idle := by simp [hpc, Nt3Pc.Idle]
      simp only [hpc] at hstep
      split at hstep
      · obtain rfl := Option.some.inj hstep
        exact h.inJob hidle rfl rfl rfl trivial rfl rfl
      · obtain rfl := Option.some.inj hstep
        refine h.inJob hidle rfl rfl rfl ?_ rfl rfl
        dsimp only
        split <;> trivial
  | timeTest =>
      have hidle : ¬ s.nt3.Idle := by simp [hpc, Nt3Pc.Idle]
      simp only [hpc] at hstep
      obtain rfl := Option.some.inj hstep
      refine h.inJob hidle rfl rfl rfl ?_ rfl rfl
      dsimp only
      split <;> trivial
  | abortSpooler =>
      have hidle : ¬ s.nt3.Idle := by simp [hpc, Nt3Pc.Idle]
      simp only [hpc] at hstep
      obtain rfl := Option.some.inj hstep
      exact h.inJob hidle rfl rfl rfl trivial rfl rfl
  | sendEOF pc =>
      have hidle : ¬ s.nt3.Idle := by simp [hpc, Nt3Pc.Idle]
      have hheld : s.inUse = ntUsed ∧ (Nt3Pc.sendEOF pc).InJob := by
        obtain ⟨-, p, n, hp, -⟩ := h
        obtain rfl := hp.job_of_inJob hidle
        exact ⟨hp.1, hpc ▸ hp.2.2.1⟩
      -- `SendEOF` leaves a port that the job holds as it is
      obtain ⟨hsame, hnext⟩ := @sendEOF_held (answer = .yes) _ hheld.2
      simp only [hpc, hheld.1] at hstep
      rcases hd : sendEOF ntUsed (answer = .yes) pc with ⟨inUse, _ | pc'⟩
      · rw [hd] at hstep hsame
        obtain rfl := Option.some.inj hstep
        exact h.inJob hidle (hsame.trans hheld.1.symm) rfl rfl trivial rfl rfl
      · rw [hd] at hstep hsame hnext
        obtain rfl := Option.some.inj hstep
        exact h.inJob hidle (hsame.trans hheld.1.symm) rfl rfl (hnext pc' rfl) rfl rfl
  | request =>
      simp only [hpc] at hstep
      exact requestStep_inv h hpc hstep
  | putOut eof =>
      have hidle : ¬ s.nt3.Idle := by simp [hpc, Nt3Pc.Idle]
      simp only [hpc] at hstep
      obtain rfl := Option.some.inj hstep
      refine h.inJob hidle rfl rfl rfl ?_ rfl rfl
      dsimp only
      split <;> trivial
  | setNoUse =>
      -- the job ends, and with it its round
      simp only [hpc] at hstep
      obtain rfl := Option.some.inj hstep
      obtain ⟨ho, p, n, hp, hl⟩ := h
      obtain rfl := hp.job_of_inJob (by simp [hpc, Nt3Pc.Idle])
      obtain ⟨hin, hposting, -, hzero⟩ := hp
      refine ⟨ho, .free, n + 1, ⟨(by decide : prnNoUsed ≠ ntUsed), hposting, trivial, hzero⟩, ?_⟩
      change s.log ++ [.released s.inUse] = _ ++ []
      rw [hl, hin, List.append_assoc, List.replicate_succ', List.flatten_append,
        List.flatten_singleton, List.append_nil]
      rfl
  | setHaveRecv =>
      simp only [hpc] at hstep
      obtain rfl := Option.some.inj hstep
      exact h.of_iff rfl rfl Iff.rfl (by simp [hpc, Nt3Pc.Idle]) (by simp [hpc, Nt3Pc.InJob]) rfl rfl

theorem ntStep_inv {n : Int} {a : NtAct} (h : NtInv s) (hok : NtOk s a)
    (hstep : ntStep n s a = some t) : NtInv t := by
  cases a with
  | startPrint d portStatus =>
      obtain ⟨hpc, hst⟩ := Option.ite_none_right_eq_some.mp hstep
      have hnot : ¬ s.util.Posting := by simp [hpc, UtilPc.Posting]
      split at hst
      · obtain rfl := Option.some.inj hst
        exact h.of_iff rfl rfl (iff_of_false id hnot) Iff.rfl Iff.rfl rfl rfl
      · obtain rfl := Option.some.inj hst
        exact h
  | endPrint d =>
      obtain ⟨hpc, hst⟩ := Option.ite_none_right_eq_some.mp hstep
      have hnot : ¬ s.util.Posting := by simp [hpc, UtilPc.Posting]
      obtain rfl := Option.some.inj hst
      exact h.of_iff rfl rfl (iff_of_false id hnot) Iff.rfl Iff.rfl rfl rfl
  | util ok => exact utilStep_inv h hok hstep
  | nt3 answer => exact nt3Step_inv h hstep
  | acquire code =>
      obtain ⟨⟨hfree, -, hcode⟩, hst⟩ := Option.ite_none_right_eq_some.mp hstep
      obtain rfl := Option.some.inj hst
      obtain ⟨ho, p, n, hp, hl⟩ := h
      obtain rfl := hp.free_of_inUse (by rw [hfree]; decide)
      exact ⟨ho, .free, n, ⟨hcode, hp.2⟩, hl⟩
  | release =>
      obtain ⟨⟨-, hnt⟩, hst⟩ := Option.ite_none_right_eq_some.mp hstep
      obtain rfl := Option.some.inj hst
      obtain ⟨ho, p, n, hp, hl⟩ := h
      obtain rfl := hp.free_of_inUse hnt
      exact ⟨ho, .free, n, ⟨(by decide : prnNoUsed ≠ ntUsed), hp.2⟩, hl⟩

/-! ## Every run -/

theorem count_rounds (n : Nat) {e : NtEvent} (he : ntRound.count e = 1) :
    (List.replicate n ntRound).flatten.count e = n := by
  induction n with
  | zero => rfl
  | succ n ih =>
      rw [List.replicate_succ, List.flatten_cons, List.count_append, he, ih]
      omega

theorem NtPhase.log_prefix (p : NtPhase) : p.log <+: ntRound := by
  cases p <;> decide

theorem NtInv.oneToOne (h : NtInv s) : OneToOne s := by
  obtain ⟨ho, p, n, hp, hl⟩ := h
  have hphase : s.util = .recvfrom → p ≠ .acquired := by
    rintro hpc rfl
    have hposting := hp.2.1
    rw [hpc] at hposting
    exact hposting
  constructor
  · intro hpc
    rw [hl, List.count_append, List.count_append, count_rounds n rfl, count_rounds n rfl]
    cases p with
    | acquired => exact absurd rfl (hphase hpc)
    | free | posted | job => rfl
  · refine ⟨n + 1, ?_⟩
    rw [hl, List.replicate_succ', List.flatten_append, List.flatten_singleton,
      List.prefix_append_right_inj]
    exact p.log_prefix
  · intro hpc hwait hin
    cases p with
    | free => exact absurd hin hp.1
    | acquired => exact absurd rfl (hphase hpc)
    | posted =>
        rw [hp.2.2.2]
        decide
    | job =>
        have hjob := hp.2.2.1
        rw [hwait] at hjob
        exact hjob.elim
  · rw [ho]
    exact fun _ hu ↦ absurd hu List.not_mem_nil

theorem jobs_one_to_one_of_ntOk (nTimeOutRetryCount : Int) (acts : List NtAct)
    (hok : (ntMachine nTimeOutRetryCount).Along NtOk ntStart acts) {s : NtSys}
    (hrun : (ntMachine nTimeOutRetryCount).run acts = some s) : OneToOne s := by
  have hinit : NtInv ntStart :=
    ⟨rfl, .free, 0, ⟨(by decide : prnNoUsed ≠ ntUsed), id, trivial, rfl⟩, rfl⟩
  have h : NtInv s := Machine.run_invariant hinit (fun _ _ _ ↦ ntStep_inv) hok hrun
  exact h.oneToOne

/-- A client that does not send a name, and the end of its job. -/
def namelessStart : Datagram := ⟨⟨1, 2000⟩, 1, [], 5⟩
def namelessEnd : Datagram := ⟨⟨1, 2000⟩, 1, ntEndPrint, 0⟩

/-- `NT3main` serves a job that has been ended. -/
def serveEndedJob : List NtAct := [.nt3 .yes, .nt3 .yes, .nt3 .yes, .nt3 .skip, .nt3 .yes, .nt3 .yes]

theorem jobs_one_to_one_one_job :
    ∃ s, (ntMachine 20).run ([.startPrint namelessStart 0, .util true, .util true, .util true,
        .util true, .endPrint namelessEnd, .util true, .util true] ++ serveEndedJob) = some s ∧
      s.log = ntRound ∧ OneToOne s :=
  ⟨_, rfl, rfl, jobs_one_to_one_of_ntOk 20 ([.startPrint namelessStart 0, .util true, .util true,
    .util true, .util true, .endPrint namelessEnd, .util true, .util true] ++ serveEndedJob)
    (by decide) rfl⟩

/-- The start datagram comes twice: two posts for one acquisition, and the second job of `NT3main`
takes the port away from the protocol that holds it by then. -/
theorem retried_start_posts_twice :
    ∃ s, (ntMachine 20).run ([.startPrint namelessStart 0, .util true, .util true, .util true,
        .util true, .startPrint namelessStart 0, .util true, .util true, .util true,
        .endPrint namelessEnd, .util true, .util true] ++ serveEndedJob ++
        [.nt3 .yes, .acquire ippUsed] ++ serveEndedJob) = some s ∧
      s.log.count .posted = 2 ∧ s.log.count .acquired = 1 ∧ .released ippUsed ∈ s.log ∧
      ¬ OneToOne s :=
  ⟨_, rfl, by decide, by decide, by decide, fun h ↦ absurd (h.posts rfl) (by decide)⟩

/-- No socket is left for the data port: the port stays marked, and no job will release it. -/
theorem failed_open_keeps_port :
    ∃ s, (ntMachine 20).run [.startPrint namelessStart 0, .util true, .util false] = some s ∧
      s.openFailed = [ntUsed] ∧ ¬ OneToOne s :=
  ⟨_, rfl, rfl, fun h ↦ absurd (h.openFailed ntUsed (List.mem_singleton.mpr rfl)) (by decide)⟩

end PrintServer.Nt
