import Mathlib.Logic.Function.Basic
import PrintServer.Lib.LinkedList
import PrintServer.Receive.Receivers

/-!
# The IPP job list

`ippObjList[port]` and `ippJobsNo[port]` of ippd.c between the Print-Job requests and the worker.
An `ipp_t *` is a number and NULL is 0.  A step is a statement, or the section under the lock.
-/

namespace PrintServer.Ipp

open Lib Receive

def ippMaxUser : Nat := 3

/-- Requests in flight at once: each has one of the tasks of httpd. -/
def httpMaxUser : Nat := 24

structure IppObj where
  jobId : UInt16
  jobState : JobState
  next : Nat
deriving DecidableEq

/-- `calloc` -/
def newObj : IppObj := { jobId := 0, jobState := .noJob, next := 0 }

/-- `current` is the `ippObj` of the worker, 0 between two jobs; `admitted` are the Print-Job
requests past the check of the limit; `accepted`, no variable of the program, are the jobs that
were accepted and are not completed, in order of acceptance. -/
structure JobSys where
  obj : Nat → IppObj
  head : Nat
  jobsNo : UInt8
  current : Nat
  admitted : List Nat
  accepted : List Nat

def jobStart : JobSys :=
  { obj := fun _ ↦ newObj, head := 0, jobsNo := 0, current := 0, admitted := [], accepted := [] }

namespace JobSys

def next (s : JobSys) (p : Nat) : Nat := (s.obj p).next

/-- The jobs met on a walk through the list; the number of jobs is a byte. -/
def chain (s : JobSys) : List Nat := walk s.next 0 256 s.head

def setNext (s : JobSys) (p q : Nat) : JobSys :=
  { s with obj := Function.update s.obj p { s.obj p with next := q } }

def setState (s : JobSys) (p : Nat) (st : JobState) : JobSys :=
  { s with obj := Function.update s.obj p { s.obj p with jobState := st } }

end JobSys

/-- The walk to the last job; the new one is linked in behind it. -/
def linkJob (s : JobSys) (p : Nat) : JobSys :=
  match s.chain.getLast? with
  | none => { s with head := p }
  | some q => s.setNext q p

/-- The section under the lock in `ippPrintValidateJob`. -/
def insertJob (s : JobSys) (p : Nat) : JobSys :=
  let s := linkJob s p
  { s with jobsNo := s.jobsNo + 1 }

inductive JobAct
  | arrive (p : Nat)
  | reject (p : Nat)
  | pend (p : Nat)
  | accept (p : Nat)
  | take
  | start
  | endJob (st : JobState)
  | pop
deriving DecidableEq

/-- A step that would follow a NULL pointer is not enabled. -/
def jobStep (s : JobSys) : JobAct → Option JobSys
  | .arrive p =>
      if p ≠ 0 ∧ p ∉ s.admitted ∧ p ∉ s.accepted ∧ p ≠ s.current ∧
          s.admitted.length < httpMaxUser ∧ s.jobsNo.toNat < ippMaxUser then
        some { s with
          obj := Function.update s.obj p newObj
          admitted := p :: s.admitted }
      else none
  | .reject p =>
      if p ∈ s.admitted then some { s with admitted := s.admitted.erase p } else none
  -- the attributes have ended; nobody else has a pointer to the job yet
  | .pend p => if p ∈ s.admitted then some (s.setState p .pending) else none
  | .accept p =>
      if p ∈ s.admitted then
        some { insertJob s p with
          admitted := s.admitted.erase p
          accepted := s.accepted ++ [p] }
      else none
  | .take => if s.current = 0 then some { s with current := s.head } else none
  | .start => if s.current ≠ 0 then some (s.setState s.current .process) else none
  -- the job is over: `job_state` says how before the job leaves the list
  | .endJob st =>
      if s.current ≠ 0 ∧ (st = .complete ∨ st = .cancel) then some (s.setState s.current st)
      else none
  | .pop =>
      if s.current ≠ 0 ∧ s.head ≠ 0 ∧ (s.obj s.current).jobState ≠ .process then
        some { s with
          head := s.next s.head
          jobsNo := s.jobsNo - 1
          accepted := s.accepted.erase s.current
          current := 0 }
      else none

/-- The counter and the list agree with the accepted jobs. -/
structure AcceptedListed (s : JobSys) : Prop where
  count : s.jobsNo.toNat = s.accepted.length
  list : Linked s.next 0 s.head s.accepted

end PrintServer.Ipp
