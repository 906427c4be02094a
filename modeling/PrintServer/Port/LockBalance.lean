import PrintServer.Lib.LockDepth
import PrintServer.Port.Servers

/-!
# The scheduler lock of the servers

What one thread of a server does to the counter of `cyg_scheduler_lock`, on any path through its
program.  Other threads and the printer change what it reads between any two statements.
-/

namespace PrintServer.Port

open Lib

/-- At the statement the thread reads from the network, yields, accepts or has returned. -/
def Pc.rests : Pc → Bool
  | .lpd (.command _) | .lpd .holdRelock | .lpd (.receive _) => true
  | .ipp .relock | .ipp .process => true
  | .raw .accept | .raw .relock | .raw .receive => true
  | .eof _ .getBuf => true
  | .exited => true
  | _ => false

def Effect.lockOp : Effect → List LockOp
  | .lock => [.lock]
  | .unlock => [.unlock]
  | _ => []

/-- What the statement `pc` does, and whether the thread rests behind it: `ippProcessJob` yields
when it has removed a job. -/
def lockOps (pc : Pc) (m : Move) : List LockOp :=
  m.effect.lockOp ++ if m.pc.rests ∨ pc = .ipp .popUnlock then [.rest] else []

/-- A thread of a server; `printed` tells whether `ippProcessJob` has removed a job, and is no
variable of the program. -/
structure Path where
  pc : Pc
  printed : Bool
  ops : List LockOp
deriving DecidableEq

/-- One statement with `InUse` as it is then. -/
def pathStep (s : Path) (a : UInt8 × Choice) : Option Path :=
  (serverMove a.1 s.pc a.2).map fun m ↦
    ⟨m.pc, s.printed || s.pc = .ipp .popUnlock, s.ops ++ lockOps s.pc m⟩

def pathMachine (srv : Server) : Machine Path (UInt8 × Choice) := ⟨⟨srv.entry, false, []⟩, pathStep⟩

/-- The printer is not off line when a connection is accepted; and `ippProcessJob` finds a job
until it has printed one, and then no other. -/
def ChoiceOk (printed : Bool) : Pc → Choice → Prop
  | .raw .statusTest, .status st => st ≠ .offLine
  | .ipp .loop, .answer jobs => jobs = !printed
  | _, _ => True

instance (printed : Bool) (pc : Pc) (c : Choice) : Decidable (ChoiceOk printed pc c) := by
  unfold ChoiceOk
  split <;> infer_instance

def LockOk (s : Path) (a : UInt8 × Choice) : Prop := ChoiceOk s.printed s.pc a.2

instance (s : Path) (a : UInt8 × Choice) : Decidable (LockOk s a) :=
  inferInstanceAs (Decidable (ChoiceOk _ _ _))

/-- `rawtcpd` is back at `accept`, or the thread has returned. -/
def Pc.ended : Pc → Bool
  | .raw .accept | .exited => true
  | _ => false

/-! ## Locks that are held -/

/-- The locks that are held in front of a statement. -/
def Pc.held (printed : Bool) : Pc → Int
  | .lpd .holdTest | .lpd .holdUnlock | .lpd .holdAbortTest | .lpd .holdAbortUnlock
  | .lpd .setInUse | .lpd .setUnlock => 1
  | .ipp .loop => if printed then 0 else 1
  | .ipp .test | .ipp .unlock | .ipp .setInUse | .ipp .setUnlock | .ipp .popUnlock
  | .ipp .exitUnlock => 1
  | .raw .test | .raw .testPrinting | .raw .unlock | .raw .setInUse | .raw .setUnlock => 1
  -- the unlock for a printer that is off line is never reached
  | .raw .offLineUnlock => 1
  | _ => 0

/-- The statements behind the last job. -/
def Pc.last : Pc → Bool
  | .ipp .loop | .ipp .exitLock | .ipp .exitUnlock | .exited => true
  | _ => false

/-- What one statement does, on a path that is as the code expects it. -/
structure LockSpec (printed : Bool) (pc : Pc) (m : Move) : Prop where
  held : m.pc.held (printed || pc = .ipp .popUnlock) = pc.held printed + depth m.effect.lockOp
  unlock : m.effect = .unlock → pc.held printed = 1
  rests : m.pc.rests = true ∨ pc = .ipp .popUnlock →
    m.pc.held (printed || pc = .ipp .popUnlock) = 0
  last : (printed || pc = .ipp .popUnlock) = true → m.pc.last = true

variable {printed : Bool} {inUse : UInt8} {c : Choice} {m : Move}

theorem LockSpec.of_abortJob {here : AbortPc → Pc} {cont pc' : Pc} {pc : AbortPc}
    (h : abortJob inUse here cont pc c = some m) (hpc : pc'.held false = 0 ∧ pc' ≠ .ipp .popUnlock)
    (hcont : cont.held false = 0) (hhere : (here .set).held false = 0) :
    LockSpec false pc' m := by
  have hm : (m.pc = cont ∨ m.pc = here .set) ∧ m.effect.lockOp = [] := by
    unfold abortJob goto at h
    split at h
    · split at h
      · cases h; exact ⟨.inl rfl, rfl⟩
      · split at h <;> cases h
        · exact ⟨.inl rfl, rfl⟩
        · exact ⟨.inr rfl, rfl⟩
    · cases h; exact ⟨.inl rfl, rfl⟩
    · cases h
  obtain ⟨hto, hops⟩ := hm
  have hheld : m.pc.held false = 0 := by
    rcases hto with hto | hto <;> rw [hto] <;> assumption
  have hflag : (false || decide (pc' = .ipp .popUnlock)) = false := by
    rw [Bool.false_or, decide_eq_false hpc.2]
  refine ⟨?_, fun he ↦ ?_, fun _ ↦ ?_, fun hl ↦ ?_⟩
  · rw [hflag, hheld, hpc.1, hops, depth_nil]
    rfl
  · rw [he] at hops
    cases hops
  · rw [hflag]
    exact hheld
  · rw [hflag] at hl
    cases hl

theorem receiveJob_locks {pc : LpdPc} (h : receiveJob inUse pc c = some m) :
    LockSpec false (.lpd pc) m := by
  unfold receiveJob goto at h
  split at h
  case h_6 n pc c => exact .of_abortJob h ⟨rfl, fun he ↦ Pc.noConfusion he⟩ rfl rfl
  all_goals (try split at h) <;> cases h
  all_goals
    constructor <;> simp_all [Pc.held, Effect.lockOp, Pc.rests, LockOp.delta]

theorem ippProcessJob_locks {pc : IppPc} (hlast : printed = true → (Pc.ipp pc).last = true)
    (hok : ChoiceOk printed (.ipp pc) c) (h : ippProcessJob inUse pc c = some m) :
    LockSpec printed (.ipp pc) m := by
  unfold ippProcessJob goto at h
  split at h <;> (try split at h) <;> cases h
  all_goals
    cases printed
    all_goals
      constructor <;> simp_all [Pc.held, Effect.lockOp, Pc.rests, LockOp.delta, ChoiceOk, Pc.last]

theorem rawtcpd_locks {pc : RawPc} (hok : ChoiceOk false (.raw pc) c)
    (h : rawtcpd inUse pc c = some m) : LockSpec false (.raw pc) m := by
  unfold rawtcpd goto at h
  split at h <;> (try split at h) <;> cases h
  all_goals
    constructor <;> simp_all [Pc.held, Effect.lockOp, Pc.rests, LockOp.delta, ChoiceOk, Pc.last]

theorem sendEOF_locks {caller : Caller} {pc : EofPc} (h : sendEOF inUse caller pc c = some m) :
    LockSpec false (.eof caller pc) m := by
  unfold sendEOF goto at h
  cases caller <;> split at h <;> (try split at h) <;> cases h
  all_goals
    constructor <;> simp_all [Pc.held, Effect.lockOp, Pc.rests, Pc.last, afterSendEOF]

theorem serverMove_locks {pc : Pc} (hlast : printed = true → pc.last = true)
    (hok : ChoiceOk printed pc c) (h : serverMove inUse pc c = some m) :
    LockSpec printed pc m := by
  cases pc with
  | ipp pc => exact ippProcessJob_locks hlast hok h
  | exited => cases h
  | lpd pc | raw pc | eof caller pc | abort pc =>
      obtain rfl : printed = false := by
        cases printed with
        | false => rfl
        | true => exact absurd (hlast rfl) Bool.false_ne_true
      first
        | exact receiveJob_locks h
        | exact rawtcpd_locks hok h
        | exact sendEOF_locks h
        | exact .of_abortJob h ⟨rfl, fun he ↦ Pc.noConfusion he⟩ rfl rfl

/-! ## Paths that are as the code expects them -/

structure PathInv (s : Path) : Prop where
  balanced : Balanced s.ops
  held : depth s.ops = s.pc.held s.printed
  last : s.printed = true → s.pc.last = true

theorem depth_lockOps (pc : Pc) (m : Move) : depth (lockOps pc m) = depth m.effect.lockOp := by
  unfold lockOps
  rw [depth_append]
  split
  · exact Int.add_zero _
  · exact Int.add_zero _

theorem LockSpec.balanced {pc : Pc} (h : LockSpec printed pc m) :
    BalancedFrom (pc.held printed) (lockOps pc m) := by
  unfold lockOps
  refine balancedFrom_append.mpr ⟨?_, ?_⟩
  · cases he : m.effect with
    | unlock =>
        rw [h.unlock he]
        exact ⟨by decide, trivial⟩
    | _ => trivial
  · rw [← h.held]
    split
    · exact ⟨h.rests ‹_›, trivial⟩
    · trivial

theorem pathStep_some {s t : Path} {a : UInt8 × Choice} (h : pathStep s a = some t) :
    ∃ m, serverMove a.1 s.pc a.2 = some m ∧
      t = ⟨m.pc, s.printed || s.pc = .ipp .popUnlock, s.ops ++ lockOps s.pc m⟩ := by
  obtain ⟨m, hm, ht⟩ := Option.map_eq_some_iff.mp h
  exact ⟨m, hm, ht.symm⟩

theorem PathInv.step {s t : Path} {a : UInt8 × Choice} (hs : PathInv s) (hok : LockOk s a)
    (h : pathStep s a = some t) : PathInv t := by
  obtain ⟨m, hm, rfl⟩ := pathStep_some h
  have hspec := serverMove_locks hs.last hok hm
  refine ⟨balanced_append.mpr ⟨hs.balanced, ?_⟩, ?_, hspec.last⟩
  · rw [hs.held]
    exact hspec.balanced
  · rw [depth_append, depth_lockOps, hs.held]
    exact hspec.held.symm

theorem pathInv_init (srv : Server) : PathInv (pathMachine srv).init := by
  refine ⟨trivial, ?_, fun h ↦ absurd h Bool.false_ne_true⟩
  cases srv <;> rfl

/-! ## Paths that are not -/

/-- The depth with which a path that is at the statement ends unbalanced, unless it stops on the
way: the lock is missing, or held once too often. -/
def Pc.wrong : Pc → Option Int
  | .raw .offLineUnlock => some 0
  | .ipp .test | .ipp .unlock | .ipp .setInUse | .ipp .setUnlock => some 0
  | .ipp .exitLock => some 1
  | .ipp .exitUnlock => some 2
  | _ => none

def Path.doomed (s : Path) : Prop := ¬ Balanced s.ops ∨ s.pc.wrong = some (depth s.ops)

theorem wrong_move {pc : Pc} {d : Int} (h : serverMove inUse pc c = some m)
    (hd : pc.wrong = some d) :
    (d = 0 ∧ m.effect = .unlock) ∨ (d = 2 ∧ m = ⟨.exited, .unlock⟩) ∨
      m.pc.wrong = some (d + depth m.effect.lockOp) := by
  unfold Pc.wrong at hd
  split at hd <;> cases hd
  all_goals
    simp only [serverMove, rawtcpd, ippProcessJob, goto] at h
    split at h <;> (try split at h) <;> simp_all
  all_goals
    subst h
    decide

theorem Path.doomed.step {s t : Path} {a : UInt8 × Choice} (hs : s.doomed)
    (h : pathStep s a = some t) : t.doomed := by
  obtain ⟨m, hm, rfl⟩ := pathStep_some h
  rcases hs with hs | hs
  · exact .inl fun hall ↦ hs (balanced_append.mp hall).1
  rcases wrong_move hm hs with ⟨hd, he⟩ | ⟨hd, rfl⟩ | hd
  · -- an unlock without a lock
    left
    intro hall
    have hlast := (balanced_append.mp hall).2
    rw [hd, lockOps, he] at hlast
    exact absurd hlast.1 (by decide)
  · -- the thread returns with the lock
    left
    intro hall
    have hlast := (balanced_append.mp hall).2
    rw [hd] at hlast
    exact absurd hlast.2.1 (by decide)
  · right
    rw [depth_append, depth_lockOps]
    exact hd

/-- A path that is not as the code expects it goes wrong. -/
theorem PathInv.doomed {s t : Path} {a : UInt8 × Choice} (hs : PathInv s) (hok : ¬ LockOk s a)
    (h : pathStep s a = some t) : t.doomed := by
  obtain ⟨m, hm, rfl⟩ := pathStep_some h
  obtain ⟨pc, printed, ops⟩ := s
  obtain ⟨inUse, c⟩ := a
  have hheld : depth ops = pc.held printed := hs.held
  change ¬ ChoiceOk printed pc c at hok
  change serverMove inUse pc c = some m at hm
  right
  change m.pc.wrong = some (depth (ops ++ lockOps pc m))
  rw [depth_append, depth_lockOps, hheld]
  unfold ChoiceOk at hok
  split at hok
  · obtain rfl := not_not.mp hok
    cases hm
    rfl
  · rename_i jobs
    cases jobs <;> cases printed <;> cases hm
    · rfl
    · exact absurd rfl hok
    · exact absurd rfl hok
    · rfl
  · exact absurd trivial hok

theorem Path.doomed.ended {s : Path} (hs : s.doomed) (h : s.pc.ended = true) :
    ¬ Balanced s.ops := by
  rcases hs with hs | hs
  · exact hs
  · unfold Pc.ended at h
    split at h
    · rw [‹s.pc = _›] at hs
      cases hs
    · rw [‹s.pc = _›] at hs
      cases hs
    · cases h

theorem doomed_of_not_along {srv : Server} {as : List (UInt8 × Choice)} {s t : Path}
    (hs : PathInv s) (hok : ¬ (pathMachine srv).Along LockOk s as)
    (hrun : (pathMachine srv).runFrom s as = some t) : t.doomed := by
  induction as generalizing s with
  | nil => exact absurd trivial hok
  | cons a as ih =>
      obtain ⟨u, hstep, hrest⟩ := Machine.runFrom_cons_some.mp hrun
      by_cases ha : LockOk s a
      · refine ih (hs.step ha hstep) (fun has ↦ hok ⟨ha, ?_⟩) hrest
        rw [hstep]
        exact has
      · exact Machine.runFrom_invariant (fun v b w hv _ hw ↦ hv.step hw) (hs.doomed ha hstep)
          (Machine.along_true _ _ _) hrest

/-- On every path of a server the scheduler is locked and unlocked in turn while the path is as the
code expects it, and a path that is not and comes to an end is not balanced. -/
theorem lock_balance_iff (srv : Server) (as : List (UInt8 × Choice)) (s : Path)
    (hrun : (pathMachine srv).run as = some s) :
    ((pathMachine srv).Along LockOk (pathMachine srv).init as → Balanced s.ops) ∧
      (s.pc.ended = true →
        (Balanced s.ops ↔ (pathMachine srv).Along LockOk (pathMachine srv).init as)) := by
  have hok (h : (pathMachine srv).Along LockOk (pathMachine srv).init as) : Balanced s.ops :=
    (Machine.run_invariant (pathInv_init srv) (fun _ _ _ ht ha h ↦ ht.step ha h) h hrun).balanced
  refine ⟨hok, fun hend ↦ ⟨fun hbal ↦ ?_, hok⟩⟩
  by_contra hnot
  exact (doomed_of_not_along (pathInv_init srv) hnot hrun).ended hend hbal

/-- `ippProcessJob` prints a job and yields. -/
def printJob : List (UInt8 × Choice) :=
  [(0, .answer true), (0, .status .ready), (0, .go), (6, .go), (6, .received .finished), (6, .go),
    (0, .go), (0, .go)]

/-- A worker that prints one job and exits. -/
def oneJob : List (UInt8 × Choice) :=
  (0, .go) :: (printJob ++ [(0, .answer false), (0, .go), (0, .go)])

theorem lock_balance_oneJob :
    (pathMachine .ippProcessJob).run oneJob = some ⟨.exited, true,
        [.lock, .unlock, .rest, .lock, .unlock, .rest, .lock, .unlock, .rest]⟩ ∧
      ((pathMachine .ippProcessJob).Along LockOk (pathMachine .ippProcessJob).init oneJob →
        Balanced [.lock, .unlock, .rest, .lock, .unlock, .rest, .lock, .unlock, .rest]) ∧
      (Balanced [.lock, .unlock, .rest, .lock, .unlock, .rest, .lock, .unlock, .rest] ↔
        (pathMachine .ippProcessJob).Along LockOk (pathMachine .ippProcessJob).init oneJob) := by
  have hrun : (pathMachine .ippProcessJob).run oneJob = some ⟨.exited, true,
      [.lock, .unlock, .rest, .lock, .unlock, .rest, .lock, .unlock, .rest]⟩ := by
    decide
  have h := lock_balance_iff .ippProcessJob oneJob _ hrun
  exact ⟨hrun, h.1, h.2 rfl⟩

/-- A connection while the printer is off line; a second job; and a job that is cancelled before
the worker looks for it. -/
theorem locks_unbalanced :
    (∃ s, (pathMachine .rawtcpd).run [(0, .go), (0, .status .offLine), (0, .go)] = some s ∧
      s.pc = .raw .accept ∧ ¬ Balanced s.ops) ∧
    (∃ s, (pathMachine .ippProcessJob).run ((0, .go) :: (printJob ++ printJob)) = some s ∧
      ¬ Balanced s.ops) ∧
    (∃ s, (pathMachine .ippProcessJob).run [(0, .go), (0, .answer false), (0, .go), (0, .go)] =
      some s ∧ s.pc = .exited ∧ depth s.ops = 1) :=
  ⟨⟨_, rfl, rfl, by decide⟩, ⟨_, rfl, by decide⟩, ⟨_, rfl, rfl, by decide⟩⟩

end PrintServer.Port
