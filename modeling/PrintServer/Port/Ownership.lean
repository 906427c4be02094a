import PrintServer.Lib.Contiguous
import PrintServer.Port.Servers

/-!
# Who owns the port

A thread is active while it holds the port or has tested it free and not yet set `InUse`.  The
invariant is that one thread at most is active; the writes to `InUse` and the order of the data
follow from it.
-/

namespace PrintServer.Port

open Lib Spooler

/-- Between a test that found the port free and the write of `InUse`. -/
def Pc.tested : Pc → Bool
  | .lpd .setInUse | .ipp .setInUse | .raw .setInUse | .eof _ .setInUse => true
  | _ => false

/-- The statements of `ippProcessJob` and `rawtcpd` between their acquire and their release. -/
def Pc.printing : Pc → Bool
  | .ipp .setUnlock | .ipp .process | .ipp (.setNoUse _) | .raw .setUnlock | .raw .receive
  | .raw (.setNoUse _) => true
  | _ => false

/-- The port is acquired: `InUse` goes from `PrnNoUsed` to a server's own code. -/
def InUseWrite.acquires (w : InUseWrite) : Prop :=
  w.old = prnNoUsed ∧ w.new ≠ prnNoUsed ∧ w.new ≠ prnAbortUsed

/-- After an acquire no other thread writes its own code or `PrnNoUsed` before the acquirer has
written `PrnNoUsed`. -/
def ExclusiveLog (log : List InUseWrite) : Prop :=
  ∀ pre a mid b post, log = pre ++ a :: (mid ++ b :: post) → a.acquires → b.tid ≠ a.tid →
    b.new ≠ prnAbortUsed → ∃ r ∈ mid, r.tid = a.tid ∧ r.new = prnNoUsed

def OwnershipExclusive (s : ServerSys) : Prop :=
  ExclusiveLog s.log ∧ Contiguous s.puts

def ServerSys.noOther (s : ServerSys) (t : Nat) (p : Thread → Bool) : Prop :=
  ∀ u < s.n, u ≠ t → p (s.thread u) = false

instance (s : ServerSys) (t : Nat) (p : Thread → Bool) : Decidable (s.noOther t p) := by
  unfold ServerSys.noOther
  infer_instance

/-- The branches that share the port: a second thread finds it free before one that did so without
the scheduler locked, as `ippProcessJob` for its second job or `SendEOF`, has set `InUse`; and
`receive_job` or `SendEOF`, without having acquired the port, releases it or prints while another
thread holds it. -/
def MoveOk (s : ServerSys) (t : Nat) (m : Move) : Prop :=
  (m.effect = .testFree →
      ∀ u < s.n, u ≠ t → (s.thread u).pc.tested = true → s.guarded u = true) ∧
    ((s.thread t).pc.printing = false → (m.effect = .put ∨ m.effect = .release) →
      (s.thread t).owns = false → s.noOther t (·.owns))

def ServerOk (s : ServerSys) : ServerAct → Prop
  | .start _ => True
  | .step t c => ∀ m ∈ serverMove s.inUse (s.thread t).pc c, MoveOk s t m

/-! ## What one statement can do -/

/-- Everything the proofs use about the programs of the servers. -/
structure MoveSpec (inUse : UInt8) (pc : Pc) (m : Move) : Prop where
  tested : m.pc.tested = true → m.effect = .testFree
  free : m.effect = .testFree → inUse = prnNoUsed
  acquire : ∀ code, m.effect = .acquire code →
    pc.tested = true ∧ code ≠ prnNoUsed ∧ code ≠ prnAbortUsed
  printing : m.pc.printing = true →
    (∃ code, m.effect = .acquire code) ∨ (pc.printing = true ∧ m.effect ≠ .release)

variable {inUse : UInt8} {c : Choice} {m : Move}

theorem abortJob_spec {here : AbortPc → Pc} {cont : Pc} {pc : AbortPc}
    (h : abortJob inUse here cont pc c = some m) :
    (m.effect = .none ∧ (m.pc = cont ∨ m.pc = here .set)) ∨
      (m.effect = .abortUse ∧ m.pc = cont) := by
  unfold abortJob goto at h
  split at h
  · split at h
    · cases h; exact .inl ⟨rfl, .inl rfl⟩
    · split at h
      · cases h; exact .inl ⟨rfl, .inl rfl⟩
      · cases h; exact .inl ⟨rfl, .inr rfl⟩
  · cases h; exact .inr ⟨rfl, rfl⟩
  · cases h

/-- A statement of `abort_job` neither tests, takes, uses nor releases the port. -/
theorem MoveSpec.of_abortJob {here : AbortPc → Pc} {cont pc' : Pc} {pc : AbortPc}
    (h : abortJob inUse here cont pc c = some m)
    (hcont : cont.tested = false ∧ cont.printing = false)
    (hhere : (here .set).tested = false ∧ (here .set).printing = false) :
    MoveSpec inUse pc' m := by
  have hpc : m.pc.tested = false ∧ m.pc.printing = false := by
    rcases abortJob_spec h with ⟨-, hm | hm⟩ | ⟨-, hm⟩ <;> rw [hm] <;> assumption
  have heff : m.effect = .none ∨ m.effect = .abortUse :=
    (abortJob_spec h).imp (fun h ↦ h.1) (fun h ↦ h.1)
  refine ⟨fun ht ↦ ?_, fun ht ↦ ?_, fun code hc ↦ ?_, fun hp ↦ ?_⟩
  · rw [hpc.1] at ht; cases ht
  · rcases heff with he | he <;> rw [he] at ht <;> cases ht
  · rcases heff with he | he <;> rw [he] at hc <;> cases hc
  · rw [hpc.2] at hp; cases hp

theorem sendEOF_spec {caller : Caller} {pc : EofPc} (h : sendEOF inUse caller pc c = some m) :
    MoveSpec inUse (.eof caller pc) m := by
  unfold sendEOF goto at h
  cases caller <;> split at h <;> (try split at h) <;> cases h
  all_goals
    constructor <;> simp_all [Pc.tested, Pc.printing, afterSendEOF, testPageUsed, prnNoUsed,
      prnAbortUsed]

theorem receiveJob_spec {pc : LpdPc} (h : receiveJob inUse pc c = some m) :
    MoveSpec inUse (.lpd pc) m := by
  unfold receiveJob goto at h
  split at h
  case h_6 n pc c => exact MoveSpec.of_abortJob h ⟨rfl, rfl⟩ ⟨rfl, rfl⟩
  all_goals (try split at h) <;> cases h
  all_goals
    constructor <;> simp_all [Pc.tested, Pc.printing, unixUsed, prnNoUsed, prnAbortUsed]

theorem ippProcessJob_spec {pc : IppPc} (h : ippProcessJob inUse pc c = some m) :
    MoveSpec inUse (.ipp pc) m := by
  unfold ippProcessJob goto at h
  split at h <;> (try split at h) <;> cases h
  all_goals
    constructor <;> simp_all [Pc.tested, Pc.printing, ippUsed, prnNoUsed, prnAbortUsed]

theorem rawtcpd_spec {pc : RawPc} (h : rawtcpd inUse pc c = some m) :
    MoveSpec inUse (.raw pc) m := by
  unfold rawtcpd goto at h
  split at h <;> (try split at h) <;> cases h
  all_goals
    constructor <;> simp_all [Pc.tested, Pc.printing, rawTcpUsed, prnNoUsed, prnAbortUsed]

theorem serverMove_spec {pc : Pc} (h : serverMove inUse pc c = some m) : MoveSpec inUse pc m := by
  cases pc with
  | lpd pc => exact receiveJob_spec h
  | ipp pc => exact ippProcessJob_spec h
  | raw pc => exact rawtcpd_spec h
  | eof caller pc => exact sendEOF_spec h
  | abort pc => exact MoveSpec.of_abortJob h ⟨rfl, rfl⟩ ⟨rfl, rfl⟩
  | exited => cases h

/-! ## The scheduler lock -/

variable {s : ServerSys} {t : Nat}

/-- A thread that tested with the scheduler locked runs on, and nobody unlocks it before the write
of `InUse`. -/
def GuardInv (s : ServerSys) : Prop :=
  ∀ u, (s.thread u).pc.tested = true → s.guarded u = true → s.schedLock ≠ 0 ∧ s.current = u

theorem applyMove_pc : ((applyMove s t m).thread t).pc = m.pc := by
  unfold applyMove
  cases m.effect <;> simp [ServerSys.setThread]

theorem applyMove_of_ne {u : Nat} (hu : u ≠ t) :
    (applyMove s t m).thread u = s.thread u ∧ (applyMove s t m).guarded u = s.guarded u := by
  unfold applyMove
  cases m.effect <;> simp [ServerSys.setThread, Function.update_of_ne hu]

theorem Pc.waits_of_tested {pc : Pc} (h : pc.tested = true) : pc.waits = false := by
  unfold Pc.tested at h
  split at h
  · rfl
  · rfl
  · rfl
  · rfl
  · contradiction

/-- While such a thread has not set `InUse`, no other one runs. -/
theorem GuardInv.not_guarded (hg : GuardInv s) (hmay : s.mayRun t) {u : Nat} (hu : u ≠ t)
    (htested : (s.thread u).pc.tested = true) : s.guarded u = false := by
  by_contra h
  obtain ⟨hlock, hcurrent⟩ := hg u htested (by simpa using h)
  rcases hmay with hzero | ht | hwaits
  · exact hlock hzero
  · exact hu (hcurrent.symm.trans ht)
  · rw [hcurrent, Pc.waits_of_tested htested] at hwaits
    contradiction

theorem GuardInv.step (hg : GuardInv s) (hmay : s.mayRun t)
    (hspec : MoveSpec s.inUse (s.thread t).pc m) : GuardInv (applyMove s t m) := by
  intro u htested hguarded
  by_cases hu : u = t
  · rw [hu] at htested hguarded ⊢
    rw [applyMove_pc] at htested
    have heff := hspec.tested htested
    simp only [applyMove, heff, Function.update_self, decide_eq_true_eq] at hguarded ⊢
    exact ⟨hguarded, rfl⟩
  · rw [(applyMove_of_ne hu).1] at htested
    rw [(applyMove_of_ne hu).2, hg.not_guarded hmay hu htested] at hguarded
    contradiction

theorem GuardInv.start (hg : GuardInv s) (srv : Server) :
    GuardInv { s with
      n := s.n + 1, thread := Function.update s.thread s.n ⟨srv.entry, 0, false⟩ } := by
  intro u htested hguarded
  change (Function.update s.thread s.n _ u).pc.tested = true at htested
  by_cases hu : u = s.n
  · rw [hu, Function.update_self] at htested
    cases srv <;> contradiction
  · rw [Function.update_of_ne hu] at htested
    exact hg u htested hguarded

/-- What the moves need: a test that finds the port free is the only one that is open, and no job
uses the port of another one. -/
def MoveAlone (s : ServerSys) (t : Nat) (m : Move) : Prop :=
  (m.effect = .testFree → s.noOther t (·.pc.tested)) ∧
    ((s.thread t).pc.printing = false → (m.effect = .put ∨ m.effect = .release) →
      (s.thread t).owns = false → s.noOther t (·.owns))

/-- The lock excludes those that tested under it. -/
theorem MoveOk.alone (hok : MoveOk s t m) (hg : GuardInv s) (hmay : s.mayRun t) :
    MoveAlone s t m := by
  refine ⟨fun heff u hn hu ↦ ?_, hok.2⟩
  by_contra h
  have htested : (s.thread u).pc.tested = true := by simpa using h
  have hguarded := hok.1 heff u hn hu htested
  rw [hg.not_guarded hmay hu htested] at hguarded
  contradiction

/-! ## The invariant -/

def Thread.active (th : Thread) : Bool := th.owns || th.pc.tested

structure OwnershipInv (s : ServerSys) : Prop where
  bound : ∀ t, s.n ≤ t → s.thread t = ⟨.exited, 0, false⟩
  single : ∀ t u, (s.thread t).active = true → (s.thread u).active = true → t = u
  inUse : ∀ t, (s.thread t).owns = true → s.inUse ≠ prnNoUsed
  printing : ∀ t, (s.thread t).pc.printing = true → (s.thread t).owns = true
  unreleased : ∀ pre a mid, s.log = pre ++ a :: mid → a.acquires →
    (∃ r ∈ mid, r.tid = a.tid ∧ r.new = prnNoUsed) ∨ (s.thread a.tid).owns = true
  log : ExclusiveLog s.log
  jobs : ∀ x ∈ s.puts, x.2 < (s.thread x.1).job ∨
    (x.2 = (s.thread x.1).job ∧ (s.thread x.1).owns = true ∧ s.puts.getLast? = some x)
  puts : Contiguous s.puts

/-- A write by a thread beside which no other one holds the port. -/
theorem ExclusiveLog.snoc {w : InUseWrite} (hs : OwnershipInv s)
    (hw : w.new ≠ prnAbortUsed → ∀ u, u ≠ w.tid → (s.thread u).owns = false) :
    ExclusiveLog (s.log ++ [w]) := by
  intro pre a mid b post heq ha hb hnew
  rcases Contiguous.split_snoc heq with ⟨post', -, hl⟩ | ⟨-, rfl, hl⟩
  · exact hs.log pre a mid b post' hl ha hb hnew
  · -- the new write: either `a` was released before it or its thread still holds the port
    rcases hs.unreleased pre a mid hl ha with hr | howns
    · exact hr
    · rw [hw hnew a.tid (Ne.symm hb)] at howns
      cases howns

/-- What is known about acquires without a release, after a write `w`. -/
theorem unreleased_snoc {w a : InUseWrite} {s' : ServerSys} {pre mid : List InUseWrite}
    (hs : OwnershipInv s) (heq : s.log ++ [w] = pre ++ a :: mid) (ha : a.acquires)
    (hself : w.acquires → (s'.thread w.tid).owns = true)
    (hrest : ∀ u, (s.thread u).owns = true →
      (w.tid = u ∧ w.new = prnNoUsed) ∨ (s'.thread u).owns = true) :
    (∃ r ∈ mid, r.tid = a.tid ∧ r.new = prnNoUsed) ∨ (s'.thread a.tid).owns = true := by
  rcases List.eq_nil_or_concat' mid with rfl | ⟨mid', v, rfl⟩
  · obtain ⟨-, hv⟩ := List.append_inj' heq rfl
    obtain rfl : w = a := by simpa using hv
    exact .inr (hself ha)
  · have hl : s.log ++ [w] = (pre ++ a :: mid') ++ [v] := by simpa using heq
    obtain ⟨hl', hv⟩ := List.append_inj' hl rfl
    obtain rfl : w = v := by simpa using hv
    rcases hs.unreleased pre a mid' hl' ha with ⟨r, hr, hra⟩ | howns
    · exact .inl ⟨r, List.mem_append_left _ hr, hra⟩
    · rcases hrest a.tid howns with hw | ho
      · exact .inl ⟨w, by simp, hw⟩
      · exact .inr ho

namespace OwnershipInv

theorem others_inactive (hs : OwnershipInv s) (ht : (s.thread t).active = true) {u : Nat}
    (hu : u ≠ t) : (s.thread u).active = false := by
  by_contra h
  exact hu (hs.single u t (by simpa using h) ht)

theorem bound_active (hs : OwnershipInv s) {u : Nat} (hu : s.n ≤ u) :
    (s.thread u).active = false := by
  rw [hs.bound u hu]
  rfl

theorem owns_of_active_false {th : Thread} (h : th.active = false) : th.owns = false := by
  simp only [Thread.active, Bool.or_eq_false_iff] at h
  exact h.1

theorem job_le (hs : OwnershipInv s) {x : Nat × Nat} (hx : x ∈ s.puts) :
    x.2 ≤ (s.thread x.1).job := by
  rcases hs.jobs x hx with h | h
  · exact Nat.le_of_lt h
  · exact Nat.le_of_eq h.1

/-- Thread `t` moves to `th'`; the log and the data are the caller's business. -/
theorem update (hs : OwnershipInv s) (ht : t < s.n) (th' : Thread) {s' : ServerSys}
    (hn : s'.n = s.n) (hthread : s'.thread = Function.update s.thread t th')
    (hsingle : th'.active = true → ∀ u, u ≠ t → (s.thread u).active = false)
    (hinUse : ∀ u, (s'.thread u).owns = true → s'.inUse ≠ prnNoUsed)
    (hprint : th'.pc.printing = true → th'.owns = true)
    (hunrel : ∀ pre a mid, s'.log = pre ++ a :: mid → a.acquires →
      (∃ r ∈ mid, r.tid = a.tid ∧ r.new = prnNoUsed) ∨ (s'.thread a.tid).owns = true)
    (hlog : ExclusiveLog s'.log)
    (hjobs : ∀ x ∈ s'.puts, x.2 < (s'.thread x.1).job ∨
      (x.2 = (s'.thread x.1).job ∧ (s'.thread x.1).owns = true ∧ s'.puts.getLast? = some x))
    (hputs : Contiguous s'.puts) : OwnershipInv s' where
  bound := by
    intro u hu
    rw [hn] at hu
    rw [hthread, Function.update_of_ne (by omega)]
    exact hs.bound u hu
  single := by
    intro u v hu hv
    rw [hthread] at hu hv
    by_cases hut : u = t
    · by_cases hvt : v = t
      · rw [hut, hvt]
      · rw [hut, Function.update_self] at hu
        rw [Function.update_of_ne hvt, hsingle hu v hvt] at hv
        cases hv
    · rw [Function.update_of_ne hut] at hu
      by_cases hvt : v = t
      · rw [hvt, Function.update_self] at hv
        rw [hsingle hv u hut] at hu
        cases hu
      · rw [Function.update_of_ne hvt] at hv
        exact hs.single u v hu hv
  inUse := hinUse
  printing := by
    intro u hu
    rw [hthread] at hu ⊢
    by_cases hut : u = t
    · rw [hut, Function.update_self] at hu ⊢
      exact hprint hu
    · rw [Function.update_of_ne hut] at hu ⊢
      exact hs.printing u hu
  unreleased := hunrel
  log := hlog
  jobs := hjobs
  puts := hputs

/-- A statement that leaves `InUse` and the output queue alone. -/
theorem movePc (hs : OwnershipInv s) (ht : t < s.n) (hspec : MoveSpec s.inUse (s.thread t).pc m)
    (hok : MoveAlone s t m) (heff : ∀ code, m.effect ≠ .acquire code) (lock : UInt32)
    (guarded : Nat → Bool) :
    OwnershipInv { s.setThread t { s.thread t with pc := m.pc } with
      schedLock := lock, guarded := guarded } := by
  have howns : ∀ u, (Function.update s.thread t { s.thread t with pc := m.pc } u).owns =
      (s.thread u).owns := by
    intro u
    by_cases hu : u = t
    · rw [hu, Function.update_self]
    · rw [Function.update_of_ne hu]
  have hjob : ∀ u, (Function.update s.thread t { s.thread t with pc := m.pc } u).job =
      (s.thread u).job := by
    intro u
    by_cases hu : u = t
    · rw [hu, Function.update_self]
    · rw [Function.update_of_ne hu]
  refine hs.update ht { s.thread t with pc := m.pc } rfl rfl ?hsingle ?hinUse ?hprint ?hunrel
    ?hlog ?hjobs ?hputs
  case hsingle =>
    intro hactive u hu
    cases ho : (s.thread t).owns with
    | true =>
        have hact : (s.thread t).active = true := by rw [Thread.active, ho, Bool.true_or]
        exact hs.others_inactive hact hu
    | false =>
        -- the port was tested free, so nobody holds it
        have htested : m.pc.tested = true := by simpa [Thread.active, ho] using hactive
        have heq := hspec.tested htested
        by_cases hn : u < s.n
        · have hnot : (s.thread u).owns = false := by
            by_contra h
            exact hs.inUse u (by simpa using h) (hspec.free heq)
          have hnotTested : (s.thread u).pc.tested = false := hok.1 heq u hn hu
          rw [Thread.active, hnot, hnotTested, Bool.or_false]
        · exact hs.bound_active (by omega)
  case hinUse =>
    intro u hu
    exact hs.inUse u ((howns u).symm.trans hu)
  case hprint =>
    intro hp
    rcases hspec.printing hp with ⟨code, hc⟩ | ⟨hpr, -⟩
    · exact absurd hc (heff code)
    · exact hs.printing t hpr
  case hunrel =>
    intro pre a mid heq ha
    rcases hs.unreleased pre a mid heq ha with h | h
    · exact .inl h
    · exact .inr ((howns a.tid).trans h)
  case hlog => exact hs.log
  case hjobs =>
    intro x hx
    change x.2 < (Function.update s.thread t _ x.1).job ∨
      (x.2 = (Function.update s.thread t _ x.1).job ∧ _ ∧ _)
    rw [hjob]
    rcases hs.jobs x hx with h | ⟨h1, h2, h3⟩
    · exact .inl h
    · exact .inr ⟨h1, (howns x.1).trans h2, h3⟩
  case hputs => exact hs.puts

/-- No other thread holds the port while `t` puts data or releases it: `t` holds it itself, or the
move is one that may not find it held. -/
theorem others_not_own (hs : OwnershipInv s) (hok : MoveAlone s t m)
    (heff : m.effect = .put ∨ m.effect = .release) {u : Nat} (hu : u ≠ t) :
    (s.thread u).owns = false := by
  cases ho : (s.thread t).owns with
  | true =>
      have hactive : (s.thread t).active = true := by rw [Thread.active, ho, Bool.true_or]
      exact owns_of_active_false (hs.others_inactive hactive hu)
  | false =>
      have hprint : (s.thread t).pc.printing = false := by
        by_contra hp
        rw [hs.printing t (by simpa using hp)] at ho
        cases ho
      by_cases hn : u < s.n
      · exact hok.2 hprint heff ho u hn hu
      · exact owns_of_active_false (hs.bound_active (by omega))

/-- When `t` begins its next job, and no other thread holds the port, all data are of jobs past. -/
theorem job_lt (hs : OwnershipInv s) (hothers : ∀ u, u ≠ t → (s.thread u).owns = false)
    {th : Thread} (hjob : th.job = (s.thread t).job + 1) {x : Nat × Nat} (hx : x ∈ s.puts) :
    x.2 < (Function.update s.thread t th x.1).job := by
  by_cases hxt : x.1 = t
  · have hle := hs.job_le hx
    rw [hxt] at hle ⊢
    rw [Function.update_self, hjob]
    exact Nat.lt_succ_of_le hle
  · rw [Function.update_of_ne hxt]
    rcases hs.jobs x hx with h | ⟨-, h, -⟩
    · exact h
    · rw [hothers x.1 hxt] at h
      cases h

theorem acquire (hs : OwnershipInv s) (ht : t < s.n) {code : UInt8}
    (hspec : MoveSpec s.inUse (s.thread t).pc m) (heff : m.effect = .acquire code) :
    OwnershipInv { s.setThread t ⟨m.pc, (s.thread t).job + 1, true⟩ with
      inUse := code, log := s.log ++ [⟨t, s.inUse, code⟩] } := by
  obtain ⟨htested, hcode, -⟩ := hspec.acquire code heff
  have hactive : (s.thread t).active = true := by rw [Thread.active, htested, Bool.or_true]
  have hothers : ∀ u, u ≠ t → (s.thread u).owns = false :=
    fun u hu ↦ owns_of_active_false (hs.others_inactive hactive hu)
  refine hs.update ht ⟨m.pc, (s.thread t).job + 1, true⟩ rfl rfl ?hsingle ?hinUse ?hprint ?hunrel
    ?hlog ?hjobs hs.puts
  case hsingle => exact fun _ u hu ↦ hs.others_inactive hactive hu
  case hinUse => exact fun _ _ ↦ hcode
  case hprint => exact fun _ ↦ rfl
  case hunrel =>
    intro pre a mid heq ha
    refine unreleased_snoc hs heq ha (fun _ ↦ ?_) (fun u hu ↦ .inr ?_)
    · show (Function.update s.thread t _ t).owns = true
      rw [Function.update_self]
    · have hut : u = t := by
        by_contra hne
        rw [hothers u hne] at hu
        cases hu
      show (Function.update s.thread t _ u).owns = true
      rw [hut, Function.update_self]
  case hlog => exact ExclusiveLog.snoc hs fun _ ↦ hothers
  case hjobs => exact fun x hx ↦ .inl (hs.job_lt hothers rfl hx)

theorem release (hs : OwnershipInv s) (ht : t < s.n)
    (hspec : MoveSpec s.inUse (s.thread t).pc m) (hok : MoveAlone s t m)
    (heff : m.effect = .release) :
    OwnershipInv { s.setThread t ⟨m.pc, (s.thread t).job + 1, false⟩ with
      inUse := prnNoUsed, log := s.log ++ [⟨t, s.inUse, prnNoUsed⟩] } := by
  have hothers : ∀ u, u ≠ t → (s.thread u).owns = false :=
    fun u hu ↦ hs.others_not_own hok (.inr heff) hu
  have hnone : ∀ u, (Function.update s.thread t
      ⟨m.pc, (s.thread t).job + 1, false⟩ u).owns = false := by
    intro u
    by_cases hu : u = t
    · rw [hu, Function.update_self]
    · rw [Function.update_of_ne hu]
      exact hothers u hu
  refine hs.update ht ⟨m.pc, (s.thread t).job + 1, false⟩ rfl rfl ?hsingle ?hinUse ?hprint ?hunrel
    ?hlog ?hjobs hs.puts
  case hsingle =>
    -- a release is not followed by the write of a thread that has tested
    intro hactive
    have htested : m.pc.tested = true := by simpa [Thread.active] using hactive
    rw [hspec.tested htested] at heff
    cases heff
  case hinUse =>
    intro u hu
    exact absurd ((hnone u).symm.trans hu) Bool.false_ne_true
  case hprint =>
    intro hp
    rcases hspec.printing hp with ⟨code, hc⟩ | ⟨-, hne⟩
    · rw [hc] at heff
      cases heff
    · exact absurd heff hne
  case hunrel =>
    intro pre a mid heq ha
    refine unreleased_snoc hs heq ha (fun hacq ↦ absurd rfl hacq.2.1) (fun u hu ↦ .inl ⟨?_, rfl⟩)
    by_contra hne
    rw [hothers u (Ne.symm hne)] at hu
    cases hu
  case hlog => exact ExclusiveLog.snoc hs fun _ ↦ hothers
  case hjobs => exact fun x hx ↦ .inl (hs.job_lt hothers rfl hx)

/-- `abort_job` writes `PrnAbortUsed`, whoever holds the port. -/
theorem abortUse (hs : OwnershipInv s) (ht : t < s.n)
    (hspec : MoveSpec s.inUse (s.thread t).pc m) (hok : MoveAlone s t m)
    (heff : m.effect = .abortUse) :
    OwnershipInv { s.setThread t { s.thread t with pc := m.pc } with
      inUse := prnAbortUsed, log := s.log ++ [⟨t, s.inUse, prnAbortUsed⟩] } := by
  have h := hs.movePc ht hspec hok (fun code hc ↦ by rw [heff] at hc; cases hc) s.schedLock
    s.guarded
  exact
    { bound := h.bound
      single := h.single
      inUse := by
        intro _ _
        show prnAbortUsed ≠ prnNoUsed
        decide
      printing := h.printing
      unreleased := by
        intro pre a mid heq ha
        refine unreleased_snoc hs heq ha (fun hacq ↦ absurd rfl hacq.2.2) (fun u hu ↦ .inr ?_)
        change (Function.update s.thread t _ u).owns = true
        by_cases hut : u = t
        · rw [hut] at hu ⊢
          rw [Function.update_self]
          exact hu
        · rw [Function.update_of_ne hut]
          exact hu
      log := ExclusiveLog.snoc hs fun hne ↦ absurd rfl hne
      jobs := h.jobs
      puts := h.puts }

/-- Data goes to the output queue, in one go with the data of the same job. -/
theorem put (hs : OwnershipInv s) (ht : t < s.n) (hspec : MoveSpec s.inUse (s.thread t).pc m)
    (hok : MoveAlone s t m) (heff : m.effect = .put) :
    OwnershipInv { s.setThread t
        ⟨m.pc, if (s.thread t).owns then (s.thread t).job else (s.thread t).job + 1,
          (s.thread t).owns⟩ with
      puts := s.puts ++ [(t, (s.thread t).job)] } := by
  have htested : m.pc.tested = false := by
    by_contra h
    have he := hspec.tested (by simpa using h)
    rw [heff] at he
    cases he
  have howns : ∀ u job, (Function.update s.thread t ⟨m.pc, job, (s.thread t).owns⟩ u).owns =
      (s.thread u).owns := by
    intro u job
    by_cases hu : u = t
    · rw [hu, Function.update_self]
    · rw [Function.update_of_ne hu]
  refine hs.update ht _ rfl rfl ?hsingle ?hinUse ?hprint ?hunrel hs.log ?hjobs ?hputs
  case hsingle =>
    intro hactive u hu
    have ho : (s.thread t).owns = true := by simpa [Thread.active, htested] using hactive
    have hact : (s.thread t).active = true := by rw [Thread.active, ho, Bool.true_or]
    exact hs.others_inactive hact hu
  case hinUse =>
    intro u hu
    exact hs.inUse u ((howns u _).symm.trans hu)
  case hprint =>
    intro hp
    rcases hspec.printing hp with ⟨code, hc⟩ | ⟨hpr, -⟩
    · rw [heff] at hc
      cases hc
    · exact hs.printing t hpr
  case hunrel =>
    intro pre a mid heq ha
    rcases hs.unreleased pre a mid heq ha with h | h
    · exact .inl h
    · exact .inr ((howns a.tid _).trans h)
  case hjobs =>
    intro x hx
    change x.2 < (Function.update s.thread t _ x.1).job ∨
      (x.2 = (Function.update s.thread t _ x.1).job ∧
        (Function.update s.thread t _ x.1).owns = true ∧ _)
    rw [howns]
    by_cases hxt : x.1 = t
    · have hle : x.2 ≤ (s.thread t).job := by
        rcases List.mem_append.mp hx with hx | hx
        · exact hxt ▸ hs.job_le hx
        · exact Nat.le_of_eq (congrArg Prod.snd (List.mem_singleton.mp hx))
      rw [hxt, Function.update_self]
      cases ho : (s.thread t).owns with
      | false => exact .inl (Nat.lt_succ_of_le hle)
      | true =>
          rcases Nat.lt_or_eq_of_le hle with hlt | heq
          · exact .inl hlt
          · refine .inr ⟨heq, rfl, ?_⟩
            rw [List.getLast?_concat, ← heq, ← hxt]
    · rw [Function.update_of_ne hxt]
      rcases List.mem_append.mp hx with hx | hx
      · rcases hs.jobs x hx with h | ⟨-, h, -⟩
        · exact .inl h
        · -- no other thread holds the port while `t` puts data
          rw [hs.others_not_own hok (.inl heff) hxt] at h
          cases h
      · exact absurd (congrArg Prod.fst (List.mem_singleton.mp hx)) hxt
  case hputs =>
    -- either the data of this job stand at the end of the queue, or it has put none before
    by_cases hmem : (t, (s.thread t).job) ∈ s.puts
    · rcases hs.jobs _ hmem with h | ⟨-, -, hlast⟩
      · exact absurd h (Nat.lt_irrefl _)
      · exact hs.puts.snoc_last hlast
    · exact hs.puts.snoc_fresh hmem

end OwnershipInv

theorem serverStart_inv : OwnershipInv serverStart where
  bound := fun _ _ ↦ rfl
  single := fun _ _ h ↦ by cases h
  inUse := fun _ h ↦ by cases h
  printing := fun _ h ↦ by cases h
  unreleased := fun pre a mid h ↦ by simp [serverStart] at h
  log := fun pre a mid b post h ↦ by simp [serverStart] at h
  jobs := fun x hx ↦ by cases hx
  puts := Contiguous.nil

/-- A new thread holds nothing. -/
theorem OwnershipInv.start (hs : OwnershipInv s) (srv : Server) :
    OwnershipInv { s with
      n := s.n + 1, thread := Function.update s.thread s.n ⟨srv.entry, 0, false⟩ } := by
  -- the new thread owns nothing and has put nothing, as its number before
  have hold : s.thread s.n = ⟨.exited, 0, false⟩ := hs.bound s.n (Nat.le_refl _)
  have howns : ∀ u, (Function.update s.thread s.n ⟨srv.entry, 0, false⟩ u).owns =
      (s.thread u).owns := by
    intro u
    by_cases hu : u = s.n
    · rw [hu, Function.update_self, hold]
    · rw [Function.update_of_ne hu]
  have hjob : ∀ u, (Function.update s.thread s.n ⟨srv.entry, 0, false⟩ u).job =
      (s.thread u).job := by
    intro u
    by_cases hu : u = s.n
    · rw [hu, Function.update_self, hold]
    · rw [Function.update_of_ne hu]
  have hpc : srv.entry.tested = false ∧ srv.entry.printing = false := by
    cases srv <;> exact ⟨rfl, rfl⟩
  have hactive : ∀ u, (Function.update s.thread s.n ⟨srv.entry, 0, false⟩ u).active =
      (s.thread u).active := by
    intro u
    by_cases hu : u = s.n
    · rw [hu, Function.update_self, hold, Thread.active, hpc.1]
      rfl
    · rw [Function.update_of_ne hu]
  exact
    { bound := by
        intro u hu
        change Function.update s.thread s.n _ u = _
        have hne : u ≠ s.n := by
          have hu' : s.n + 1 ≤ u := hu
          omega
        rw [Function.update_of_ne hne]
        exact hs.bound u (Nat.le_of_succ_le hu)
      single := fun u v hu hv ↦
        hs.single u v ((hactive u).symm.trans hu) ((hactive v).symm.trans hv)
      inUse := fun u hu ↦ hs.inUse u ((howns u).symm.trans hu)
      printing := by
        intro u hu
        change (Function.update s.thread s.n _ u).owns = true
        rw [howns]
        change (Function.update s.thread s.n _ u).pc.printing = true at hu
        by_cases hun : u = s.n
        · rw [hun, Function.update_self, hpc.2] at hu
          cases hu
        · rw [Function.update_of_ne hun] at hu
          exact hs.printing u hu
      unreleased := fun pre a mid heq ha ↦
        (hs.unreleased pre a mid heq ha).imp_right fun h ↦ (howns a.tid).trans h
      log := hs.log
      jobs := by
        intro x hx
        change x.2 < (Function.update s.thread s.n _ x.1).job ∨
          (x.2 = (Function.update s.thread s.n _ x.1).job ∧
            (Function.update s.thread s.n _ x.1).owns = true ∧ _)
        rw [howns, hjob]
        exact hs.jobs x hx
      puts := hs.puts }

theorem applyMove_inv (hs : OwnershipInv s) (ht : t < s.n)
    (hspec : MoveSpec s.inUse (s.thread t).pc m) (hok : MoveAlone s t m) :
    OwnershipInv (applyMove s t m) := by
  unfold applyMove
  cases heff : m.effect with
  | none | testFree | lock | unlock =>
      exact hs.movePc ht hspec hok (fun code hc ↦ by rw [heff] at hc; cases hc) _ _
  | acquire code => exact hs.acquire ht hspec heff
  | put => exact hs.put ht hspec hok heff
  | release => exact hs.release ht hspec hok heff
  | abortUse => exact hs.abortUse ht hspec hok heff

theorem serverStep_inv {s' : ServerSys} {a : ServerAct} (hs : OwnershipInv s ∧ GuardInv s)
    (hok : ServerOk s a) (hstep : serverStep s a = some s') : OwnershipInv s' ∧ GuardInv s' := by
  cases a with
  | start srv =>
      obtain rfl := Option.some.inj hstep
      exact ⟨hs.1.start srv, hs.2.start srv⟩
  | step t c =>
      obtain ⟨⟨ht, hmay⟩, hst⟩ := Option.ite_none_right_eq_some.mp hstep
      obtain ⟨m, hm, rfl⟩ := Option.map_eq_some_iff.mp hst
      have hspec := serverMove_spec hm
      have halone := (hok m hm).alone hs.2 hmay
      exact ⟨applyMove_inv hs.1 ht hspec halone, hs.2.step hmay hspec⟩

/-! ## Every run -/

/-- In a run that takes none of the sharing branches the port has one owner at a time, and the
data of each job goes out in one go. -/
theorem ownership_exclusive_of_serverOk (acts : List ServerAct) {s : ServerSys}
    (hok : serverMachine.Along ServerOk serverStart acts)
    (hrun : serverMachine.run acts = some s) : OwnershipExclusive s := by
  have hguard : GuardInv serverStart := fun _ htested _ ↦ absurd htested Bool.false_ne_true
  have hinit : OwnershipInv serverMachine.init ∧ GuardInv serverMachine.init :=
    ⟨serverStart_inv, hguard⟩
  have hs := (Machine.run_invariant hinit (fun _ _ _ ↦ serverStep_inv) hok hrun).1
  exact ⟨hs.log, hs.puts⟩

instance (s : ServerSys) (t : Nat) (m : Move) : Decidable (MoveOk s t m) := by
  unfold MoveOk
  infer_instance

instance (s : ServerSys) (a : ServerAct) : Decidable (ServerOk s a) := by
  cases a <;> unfold ServerOk <;> infer_instance

/-- An LPD connection up to its first block, as thread `t`. -/
def lpdPrints (t : Nat) : List ServerAct :=
  [.start .receiveJob, .step t (.command .dataFile), .step t .go, .step t (.status .ready),
    .step t .go, .step t .go, .step t (.answer false), .step t (.received .block)]

/-- A raw connection up to its first block, as thread `t`. -/
def rawPrints (t : Nat) : List ServerAct :=
  [.start .rawtcpd, .step t .go, .step t (.status .ready), .step t .go, .step t (.status .ready),
    .step t .go, .step t .go, .step t (.received .block)]

/-- An LPD job and then a raw one. -/
theorem ownership_exclusive_two_jobs :
    ∃ s, serverMachine.run (lpdPrints 0 ++ [.step 0 (.received .finished),
        .step 0 (.command .disconnect), .step 0 .go] ++ rawPrints 1) = some s ∧
      s.puts = [(0, 1), (1, 1)] ∧ OwnershipExclusive s :=
  ⟨_, rfl, rfl, ownership_exclusive_of_serverOk (lpdPrints 0 ++ [.step 0 (.received .finished),
    .step 0 (.command .disconnect), .step 0 .go] ++ rawPrints 1) (by decide) rfl⟩

/-- While the first LPD job prints, a second LPD client connects and leaves: `receive_job`
releases the port, a raw connection takes it and its data comes between two blocks of the job. -/
theorem lpd_disconnect_releases_port :
    ∃ s, serverMachine.run (lpdPrints 0 ++ [.start .receiveJob, .step 1 (.command .disconnect),
        .step 1 .go] ++ rawPrints 2 ++ [.step 0 (.received .block)]) = some s ∧
      s.puts = [(0, 1), (2, 1), (0, 1)] ∧ ¬ ExclusiveLog s.log ∧ ¬ Contiguous s.puts := by
  refine ⟨_, rfl, rfl, fun h ↦ ?_, fun h ↦ ?_⟩
  · obtain ⟨r, hr, -⟩ := h [] ⟨0, prnNoUsed, unixUsed⟩ [] ⟨1, unixUsed, prnNoUsed⟩
      [⟨2, prnNoUsed, rawTcpUsed⟩] rfl ⟨rfl, by decide, by decide⟩ (by decide) (by decide)
    cases hr
  · have hmid := h [] (0, 1) [(2, 1)] [] rfl (2, 1) (by decide)
    exact absurd hmid (by decide)

end PrintServer.Port
