import PrintServer.Ipp.JobList
import PrintServer.Lib.Machine
import PrintServer.Lib.Threads

/-!
# The pointers into the IPP job list

`ippCancelJob`, `ippGetJobAttribute`, `ippGetJobs` and the Print-Job requests of up to
`HTTP_MAX_USER` clients beside the worker `ippProcessJob`, one statement at a time: a request
reads one attribute, or follows one pointer, in a step, and every other thread may run before the
next one.  A section under `cyg_scheduler_lock` is one step.  `derefs` records what an `ipp_t *`
that is followed points to at that moment.
-/

namespace PrintServer.Ipp

open Lib Receive

inductive AttrOp
  | cancelJob
  | getJobAttribute
deriving DecidableEq

/-- The attribute a job is looked up by: `job-id`, or `job-uri` with the id in it. -/
structure JobKey where
  isUri : Bool
  jobId : Int
deriving DecidableEq

/-- The statements of a request; `ptr` is its `ippPrnJob` and `q` the job its walk is at. -/
inductive PtrReq
  | idle
  -- `ippPrintValidateJob`; `ptr` is the `ippObj` of the request
  | reading (ptr : Nat)
  | loadID (ptr : Nat)
  | storeID (ptr : Nat) (jobID : UInt16)
  | resetID (ptr : Nat)
  | readID (ptr : Nat)
  | insert (ptr : Nat)
  -- the loop over the attributes in `ippCancelJob` and `ippGetJobAttribute`
  | attr (op : AttrOp) (prnURI found : Bool) (ptr : Nat)
  | lookup (op : AttrOp) (prnURI found : Bool) (key : JobKey) (q : Nat)
  | lookupNext (op : AttrOp) (prnURI found : Bool) (key : JobKey) (q : Nat)
  -- the rest of `ippGetJobAttribute`
  | reply (ptr : Nat)
  -- the rest of `ippCancelJob`
  | testAborting (ended : Bool) (ptr : Nat)
  | testProcess (ptr : Nat)
  | setAborting (ptr : Nat)
  | readHead (ptr : Nat)
  | storeHead (ptr : Nat)
  | walk (ptr q : Nat)
  | walkNext (ptr q : Nat)
  | loadNext (ptr q : Nat)
  | storeNext (ptr q next : Nat)
  | decJobsNo (ptr : Nat)
  | setCancel (ptr : Nat)
  | free (ptr : Nat)
  -- `ippGetJobs`
  | jobsAttr
  | jobsWalk (q : Nat)
deriving DecidableEq

/-- The statements of the worker; `i` counts the jobs of its sendack walk, and `job` is the
`ippObj` of `ippProcessBINJob` when the walk is in it, 0 when it is in the wait for the port. -/
inductive PtrWorker
  | test
  | walkHead
  | walkAck (q i job : Nat)
  | walkTest (q i job : Nat)
  | walkNext (q i job : Nat)
  | take
  | start (job : Nat)
  | process (job : Nat)
  | pop (job : Nat)
  | free (job : Nat)
deriving DecidableEq

/-- A pointer that was followed: whether it was in the list then, whether its `ipp_t` had been
freed, and whether it is the job that the request has itself taken out of the list. -/
structure Deref where
  ptr : Nat
  listed : Bool
  freed : Bool
  own : Bool
deriving DecidableEq

structure PtrSys where
  obj : Nat → IppObj
  alive : Nat → Bool
  head : Nat
  jobsNo : UInt8
  jobID : UInt16
  worker : PtrWorker
  req : Nat → PtrReq
  derefs : List Deref
  doubleFree : Bool

def ptrStart : PtrSys :=
  { obj := fun _ ↦ newObj, alive := fun _ ↦ false, head := 0, jobsNo := 0, jobID := 0,
    worker := .test, req := fun _ ↦ .idle, derefs := [], doubleFree := false }

namespace PtrSys

def next (s : PtrSys) (p : Nat) : Nat := (s.obj p).next

/-- The elements of `ippObjList[port]`. -/
def chain (s : PtrSys) : List Nat := Lib.walk s.next 0 256 s.head

def setReq (s : PtrSys) (t : Nat) (pc : PtrReq) : PtrSys :=
  { s with req := Function.update s.req t pc }

def setObj (s : PtrSys) (p : Nat) (x : IppObj) : PtrSys :=
  { s with obj := Function.update s.obj p x }

def deref (s : PtrSys) (p : Nat) : PtrSys :=
  { s with derefs := s.derefs ++ [⟨p, p ∈ s.chain, !s.alive p, false⟩] }

def derefOwn (s : PtrSys) (p : Nat) : PtrSys :=
  { s with derefs := s.derefs ++ [⟨p, p ∈ s.chain, !s.alive p, true⟩] }

def freeObj (s : PtrSys) (p : Nat) : PtrSys :=
  { s with alive := Function.update s.alive p false, doubleFree := s.doubleFree || !s.alive p }

end PtrSys

/-- The section under the lock in `ippPrintValidateJob`: the job is linked in behind the last
one. -/
def insertObj (s : PtrSys) (p : Nat) : PtrSys :=
  let s := match s.chain.getLast? with
    | none => { s with head := p }
    | some q => s.setObj q { s.obj q with next := p }
  { s with jobsNo := s.jobsNo + 1 }

inductive PtrReqChoice
  | go
  | printJob (p : Nat)
  | cancelJob
  | getJobAttribute
  | getJobs
  | printerUri
  | key (k : JobKey)
  | otherAttr
  | badAttr
  | endTag
  | zeroTag
deriving DecidableEq

/-- An attribute of `ippCancelJob` or `ippGetJobAttribute`, or the end of their loop. -/
def attrStep (s : PtrSys) (t : Nat) (op : AttrOp) (prnURI found : Bool) (ptr : Nat) :
    PtrReqChoice → Option PtrSys
  | .printerUri => some (s.setReq t (.attr op true found ptr))
  | .otherAttr => some (s.setReq t (.attr op prnURI found ptr))
  | .badAttr => some (s.setReq t .idle)
  | .key k =>
      if k.isUri ∨ prnURI then some (s.setReq t (.lookup op prnURI found k s.head))
      else some (s.setReq t .idle)
  | .endTag =>
      match op with
      | .cancelJob => some (s.setReq t (if found then .testAborting true ptr else .idle))
      | .getJobAttribute => some (s.setReq t (if ptr ≠ 0 then .reply ptr else .idle))
  | .zeroTag =>
      match op with
      | .cancelJob => some (s.setReq t (if found then .testAborting false ptr else .idle))
      | .getJobAttribute => some (s.setReq t .idle)
  | _ => none

def ptrReqStep (s : PtrSys) (t : Nat) : PtrReq → PtrReqChoice → Option PtrSys
  | .idle, .printJob p =>
      if p ≠ 0 ∧ s.alive p = false ∧ s.jobsNo.toNat < ippMaxUser then
        some { (s.setObj p newObj).setReq t (.reading p) with
          alive := Function.update s.alive p true }
      else none
  | .idle, .cancelJob => some (s.setReq t (.attr .cancelJob false false 0))
  | .idle, .getJobAttribute => some (s.setReq t (.attr .getJobAttribute false false 0))
  | .idle, .getJobs => some (s.setReq t .jobsAttr)
  | .reading p, .badAttr => some ((s.freeObj p).setReq t .idle)
  | .reading p, .endTag =>
      some ((s.setObj p { s.obj p with jobState := .pending }).setReq t (.loadID p))
  -- `++ippJobID[port]`, its comparison and the id of the job, before the lock is taken
  | .loadID p, .go => some (s.setReq t (.storeID p (s.jobID + 1)))
  | .storeID p v, .go =>
      some { s.setReq t (if v ≥ 1000 then .resetID p else .readID p) with jobID := v }
  | .resetID p, .go => some { s.setReq t (.readID p) with jobID := 1 }
  | .readID p, .go => some ((s.setObj p { s.obj p with jobId := s.jobID }).setReq t (.insert p))
  | .insert p, .go => some ((insertObj s p).setReq t .idle)
  | .attr op prnURI found ptr, c => attrStep s t op prnURI found ptr c
  | .lookup op prnURI found k q, .go =>
      if q = 0 then
        -- a `job-id` that is not found is an error of ippCancelJob only before one is found
        if op = .cancelJob ∧ k.isUri = false ∧ found then
          some (s.setReq t (.attr op prnURI found 0))
        else some (s.setReq t .idle)
      else if ((s.obj q).jobId.toNat : Int) = k.jobId then
        some ((s.deref q).setReq t (.attr op prnURI true q))
      else some ((s.deref q).setReq t (.lookupNext op prnURI found k q))
  | .lookupNext op prnURI found k q, .go =>
      some ((s.deref q).setReq t (.lookup op prnURI found k (s.next q)))
  -- one call of ippSetJobAttribute
  | .reply p, .otherAttr => some ((s.deref p).setReq t (.reply p))
  | .reply _, .go => some (s.setReq t .idle)
  | .testAborting ended p, .go =>
      some ((s.deref p).setReq t
        (if (s.obj p).jobState ≠ .aborting ∧ ended then .testProcess p else .idle))
  | .testProcess p, .go =>
      some ((s.deref p).setReq t
        (if (s.obj p).jobState = .process then .setAborting p else .readHead p))
  | .setAborting p, .go =>
      some (((s.deref p).setObj p { s.obj p with jobState := .aborting }).setReq t .idle)
  | .readHead p, .go => some (s.setReq t (if s.head = p then .storeHead p else .walk p s.head))
  | .storeHead p, .go => some { s.setReq t (.decJobsNo p) with head := 0 }
  | .walk p q, .go =>
      some ((s.deref q).setReq t (if s.next q = p then .loadNext p q else .walkNext p q))
  | .walkNext p q, .go => some ((s.deref q).setReq t (.walk p (s.next q)))
  | .loadNext p q, .go => some ((s.deref p).setReq t (.storeNext p q (s.next p)))
  | .storeNext p q v, .go =>
      some (((s.deref q).setObj q { s.obj q with next := v }).setReq t (.decJobsNo p))
  | .decJobsNo p, .go => some { s.setReq t (.setCancel p) with jobsNo := s.jobsNo - 1 }
  -- job_state, RetCode and ippPrintJobClose
  | .setCancel p, .go =>
      some (((s.derefOwn p).setObj p { s.obj p with jobState := .cancel }).setReq t (.free p))
  | .free p, .go => some ((s.freeObj p).setReq t .idle)
  | .jobsAttr, .otherAttr => some (s.setReq t .jobsAttr)
  | .jobsAttr, .badAttr => some (s.setReq t .idle)
  | .jobsAttr, .endTag => some (s.setReq t (.jobsWalk s.head))
  | .jobsWalk q, .otherAttr =>
      if q = 0 then none else some ((s.deref q).setReq t (.jobsWalk q))
  | .jobsWalk q, .go =>
      if q = 0 then some (s.setReq t .idle)
      else some ((s.deref q).setReq t (.jobsWalk (s.next q)))
  | _, _ => none

inductive PtrWorkerChoice
  | go
  | ready
  | wait (sendack : Bool)
  | ended (st : JobState)
deriving DecidableEq

def ptrWorkerStep (s : PtrSys) : PtrWorker → PtrWorkerChoice → Option PtrSys
  | .test, .ready => if s.jobsNo = 0 then none else some { s with worker := .take }
  | .test, .wait sendack =>
      if s.jobsNo = 0 then none
      else some { s with worker := if sendack then .walkHead else .test }
  | .walkHead, .go => some { s with worker := .walkAck s.head 1 0 }
  | .walkAck q i job, .go => some { s.deref q with worker := .walkTest q i job }
  | .walkTest q i job, .go =>
      some { s with worker :=
        if i < s.jobsNo.toNat then .walkNext q i job
        else if job = 0 then .test else .process job }
  | .walkNext q i job, .go => some { s.deref q with worker := .walkAck (s.next q) (i + 1) job }
  | .take, .go => some { s with worker := .start s.head }
  | .start job, .go =>
      some { s.setObj job { s.obj job with jobState := .process } with worker := .process job }
  -- a walk of `ippProcessBINJob` starts at its own job
  | .process job, .wait sendack =>
      if sendack then some { s with worker := .walkAck job 1 job } else some s
  | .process job, .ended st =>
      if st = .complete ∨ st = .cancel then
        some { s.setObj job { s.obj job with jobState := st } with worker := .pop job }
      else none
  | .pop job, .go =>
      some { s with head := s.next s.head, jobsNo := s.jobsNo - 1, worker := .free job }
  | .free job, .go => some { s.freeObj job with worker := .test }
  | _, _ => none

inductive PtrAct
  | req (t : Nat) (c : PtrReqChoice)
  | worker (c : PtrWorkerChoice)
deriving DecidableEq

def ptrStep (s : PtrSys) : PtrAct → Option PtrSys
  | .req t c => if t < httpMaxUser then ptrReqStep s t (s.req t) c else none
  | .worker c => ptrWorkerStep s s.worker c

def ptrMachine : Machine PtrSys PtrAct := ⟨ptrStart, ptrStep⟩

/-- A Print-Job with good attributes, whose id is below 1000. -/
def printJob (t p : Nat) : List PtrAct :=
  [.req t (.printJob p), .req t .endTag, .req t .go, .req t .go, .req t .go, .req t .go]

/-! ## The property -/

/-- Every pointer that was followed was in the list, or the request's own after it took the job
out; its `ipp_t` had not been freed; and none was freed twice. -/
structure PointersValid (s : PtrSys) : Prop where
  live : ∀ d ∈ s.derefs, d.freed = false ∧ (d.listed = true ∨ d.own = true)
  once : s.doubleFree = false

/-- The jobs in the list that the thread will still follow a pointer to, or to whose `next` it is
about to move. -/
def PtrSys.reqHolds (s : PtrSys) : PtrReq → List Nat
  | .attr _ _ _ p | .lookup _ _ _ _ p | .lookupNext _ _ _ _ p | .reply p | .testAborting _ p
  | .testProcess p | .setAborting p | .readHead p | .storeHead p | .jobsWalk p => [p]
  | .walk p q | .loadNext p q => [p, q]
  | .walkNext p q => [p, q, s.next q]
  | .storeNext p q v => [p, q, v]
  | _ => []

def PtrSys.workerHolds (s : PtrSys) : PtrWorker → List Nat
  | .walkAck q _ job | .walkTest q _ job => [q, job]
  | .walkNext q _ job => [q, s.next q, job]
  | .take | .walkHead => [s.head]
  | .start job | .process job | .pop job => [job]
  | _ => []

/-- Nobody but the request `t` holds a pointer to the job. -/
def PtrSys.onlyHolder (s : PtrSys) (t p : Nat) : Prop :=
  (∀ t' < httpMaxUser, t' ≠ t → p ∉ s.reqHolds (s.req t')) ∧ p ∉ s.workerHolds s.worker

/-- A Cancel-Job has loaded the NULL of the last job and not stored it. -/
def PtrReq.unlinksLast : PtrReq → Bool
  | .storeNext _ _ v => v = 0
  | _ => false

/-- Jobs that are out of the list but still counted. -/
def PtrReq.uncounted : PtrReq → Bool
  | .decJobsNo _ => true
  | _ => false

def PtrSys.lag (s : PtrSys) : Nat := countAt PtrReq.uncounted s.req httpMaxUser

def PtrReqOk (s : PtrSys) (t : Nat) : PtrReq → PtrReqChoice → Prop
  | .lookup .cancelJob _ found k q, .go => q = 0 → k.isUri = false → found = false
  | .insert _, .go => ∀ t' < httpMaxUser, (s.req t').unlinksLast = false
  | .storeHead p, .go => s.next p = 0 ∧ s.onlyHolder t p
  | .storeNext p _ _, .go => s.onlyHolder t p
  | _, _ => True

def PtrWorkerOk (s : PtrSys) : PtrWorker → Prop
  | .test | .walkTest _ _ _ => s.lag = 0
  | .pop job => ∀ t < httpMaxUser, job ∉ s.reqHolds (s.req t)
  | _ => True

/-- A job is taken out of the list, by a Cancel-Job or by the worker, only while no other thread
holds a pointer to it; a Cancel-Job takes the head only when it is the only job, and the last job
while none is added behind it; the worker does not read the counter while a job is out of the list
and still counted; and no Cancel-Job has a second `job-id` that is not found. -/
def PtrOk (s : PtrSys) : PtrAct → Prop
  | .req t c => PtrReqOk s t (s.req t) c
  | .worker _ => PtrWorkerOk s s.worker

instance (s : PtrSys) (t p : Nat) : Decidable (s.onlyHolder t p) := by
  unfold PtrSys.onlyHolder
  infer_instance

instance (s : PtrSys) (t : Nat) (pc : PtrReq) (c : PtrReqChoice) :
    Decidable (PtrReqOk s t pc c) := by
  unfold PtrReqOk
  split <;> infer_instance

instance (s : PtrSys) (pc : PtrWorker) : Decidable (PtrWorkerOk s pc) := by
  cases pc <;> unfold PtrWorkerOk <;> infer_instance

instance (s : PtrSys) (a : PtrAct) : Decidable (PtrOk s a) := by
  cases a <;> unfold PtrOk <;> infer_instance

end PrintServer.Ipp
