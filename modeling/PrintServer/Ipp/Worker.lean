import PrintServer.Ipp.JobListInv
import PrintServer.Lib.Machine

/-!
# The worker of ippd

`ippProcessOn[port]` between the Print-Job requests of `ippd` and the worker `ippProcessJob`, over
the job list.  A section under `cyg_scheduler_lock` is one step; between two steps any other
thread may run.
-/

namespace PrintServer.Ipp

open Lib Receive

/-- The statements of a Print-Job request: `p` is its `ippObj` and `n` the number of its job. -/
inductive ReqPc
  | idle
  | reading (p : Nat)
  | pending (p : Nat)
  | inserted (p n : Nat)
  | creating (p n : Nat)
  | returned (p n : Nat)
deriving DecidableEq

/-- The statements of `ippProcessJob`.  The loop test of `lockedTest` is made under the lock, that
of `loopTest` behind a job is not. -/
inductive WorkerPc
  | none
  | lockedTest
  | take
  | start
  | process
  | pop
  | loopTest
  | portTest
  | leave
  | exiting
deriving DecidableEq

/-- `serial` numbers the jobs in the order of acceptance, as an `ipp_t` may be allocated again. -/
structure WorkerSys where
  jobs : JobSys
  processOn : Bool
  worker : WorkerPc
  req : Nat → ReqPc
  serial : Nat → Nat
  count : Nat

def workerStart : WorkerSys :=
  { jobs := jobStart, processOn := false, worker := .none, req := fun _ ↦ .idle,
    serial := fun _ ↦ 0, count := 0 }

def WorkerSys.setReq (s : WorkerSys) (t : Nat) (pc : ReqPc) : WorkerSys :=
  { s with req := Function.update s.req t pc }

inductive ReqChoice
  | arrive (p : Nat)
  | reject
  | pend
  | accept
  | testProcessOn
  | create
deriving DecidableEq

def reqStep (s : WorkerSys) (t : Nat) : ReqPc → ReqChoice → Option WorkerSys
  | .idle, .arrive p =>
      (jobStep s.jobs (.arrive p)).map fun jobs ↦ { s.setReq t (.reading p) with jobs := jobs }
  | .reading p, .reject =>
      (jobStep s.jobs (.reject p)).map fun jobs ↦ { s.setReq t .idle with jobs := jobs }
  -- the id of the job is not looked at here
  | .reading p, .pend =>
      (jobStep s.jobs (.pend p)).map fun jobs ↦ { s.setReq t (.pending p) with jobs := jobs }
  | .pending p, .accept =>
      (jobStep s.jobs (.accept p)).map fun jobs ↦
        { s.setReq t (.inserted p s.count) with
          jobs := jobs
          serial := Function.update s.serial p s.count
          count := s.count + 1 }
  | .inserted p n, .testProcessOn =>
      if s.processOn then some (s.setReq t (.returned p n))
      else some { s.setReq t (.creating p n) with processOn := true }
  -- the thread of the last worker is deleted, and a new one started
  | .creating p n, .create => some { s.setReq t (.returned p n) with worker := .lockedTest }
  | _, _ => none

inductive WorkerChoice
  | go
  | portReady (b : Bool)
  | ended (st : JobState)
deriving DecidableEq

def workerStep (s : WorkerSys) : WorkerPc → WorkerChoice → Option WorkerSys
  -- the lock is kept from the test to the clearing of the flag
  | .lockedTest, .portReady b =>
      if s.jobs.jobsNo = 0 then some { s with processOn := false, worker := .exiting }
      else some { s with worker := if b then .take else .lockedTest }
  | .take, .go =>
      (jobStep s.jobs .take).map fun jobs ↦ { s with jobs := jobs, worker := .start }
  | .start, .go =>
      (jobStep s.jobs .start).map fun jobs ↦ { s with jobs := jobs, worker := .process }
  | .process, .ended st =>
      (jobStep s.jobs (.endJob st)).map fun jobs ↦ { s with jobs := jobs, worker := .pop }
  | .pop, .go => (jobStep s.jobs .pop).map fun jobs ↦ { s with jobs := jobs, worker := .loopTest }
  | .loopTest, .go =>
      some { s with worker := if s.jobs.jobsNo = 0 then .leave else .portTest }
  | .portTest, .portReady b => some { s with worker := if b then .take else .lockedTest }
  | .leave, .go => some { s with processOn := false, worker := .exiting }
  | .exiting, .go => some { s with worker := .none }
  | _, _ => none

inductive WorkerAct
  | req (t : Nat) (c : ReqChoice)
  | worker (c : WorkerChoice)
deriving DecidableEq

def workerActStep (s : WorkerSys) : WorkerAct → Option WorkerSys
  | .req t c => reqStep s t (s.req t) c
  | .worker c => workerStep s s.worker c

def workerMachine : Machine WorkerSys WorkerAct := ⟨workerStart, workerActStep⟩

/-! ## The property -/

/-- The worker evaluates `ippJobsNo` before it clears the flag. -/
def WorkerPc.testsAgain : WorkerPc → Bool
  | .lockedTest | .take | .start | .process | .pop | .loopTest | .portTest => true
  | .none | .leave | .exiting => false

/-- A worker that tests the counter again lives, or the request that set the flag is creating
it. -/
def WorkerSys.hasWorker (s : WorkerSys) : Prop :=
  s.worker.testsAgain = true ∨ ∃ t p n, s.req t = .creating p n

/-- The `n`-th job is in the list, in the object `p`. -/
def WorkerSys.listed (s : WorkerSys) (p n : Nat) : Prop := p ∈ s.jobs.chain ∧ s.serial p = n

def JobsServed (s : WorkerSys) : Prop :=
  ∀ t p n, s.req t = .returned p n → s.listed p n → s.processOn = true ∧ s.hasWorker

instance (s : WorkerSys) (p n : Nat) : Decidable (s.listed p n) := by
  unfold WorkerSys.listed
  infer_instance

def ReqOk (s : WorkerSys) : ReqPc → ReqChoice → Prop
  | .inserted p n, .testProcessOn => s.worker = .leave → ¬ s.listed p n
  | _, _ => True

/-- A request whose job is in the list does not test `ippProcessOn` while the worker has left its
loop and not cleared the flag yet. -/
def WorkerOk (s : WorkerSys) : WorkerAct → Prop
  | .req t c => ReqOk s (s.req t) c
  | .worker _ => True

instance (s : WorkerSys) (pc : ReqPc) (c : ReqChoice) : Decidable (ReqOk s pc c) := by
  cases pc <;> cases c <;> unfold ReqOk <;> infer_instance

instance (s : WorkerSys) (a : WorkerAct) : Decidable (WorkerOk s a) := by
  cases a <;> unfold WorkerOk <;> infer_instance

end PrintServer.Ipp
