import Mathlib.Data.List.Infix
import PrintServer.Ipp.Pointers

/-!
# The list under the pointers

What a step of a request or of the worker does to `ippObjList[port]`, its counter and the memory of
the jobs.
-/

namespace PrintServer.Ipp

open Lib Receive

variable {s u : PtrSys} {t p q : Nat} {pc pc' : PtrReq}

/-! ## What a step does -/

/-- A Print-Job takes the memory of its job, gives it back or links it in; a Cancel-Job takes a job
out of the list, counts it off and frees it; and the worker takes its job off and frees it. -/
inductive ListAct
  | alloc (t p : Nat)
  | drop (t p : Nat)
  | insert (t p : Nat)
  | unlinkHead (t p : Nat)
  | unlinkNext (t p q next : Nat)
  | countOff (t p : Nat)
  | pop (job : Nat)
  | freePopped (job : Nat)
  | keep
deriving DecidableEq

def reqListAct (t : Nat) : PtrReq → PtrReqChoice → ListAct
  | .idle, .printJob p => .alloc t p
  | .reading p, .badAttr | .free p, .go => .drop t p
  | .insert p, .go => .insert t p
  | .storeHead p, .go => .unlinkHead t p
  | .storeNext p q v, .go => .unlinkNext t p q v
  | .decJobsNo p, .go => .countOff t p
  | _, _ => .keep

def workerListAct : PtrWorker → PtrWorkerChoice → ListAct
  | .pop job, .go => .pop job
  | .free job, .go => .freePopped job
  | _, _ => .keep

def listAct (s : PtrSys) : PtrAct → ListAct
  | .req t k => reqListAct t (s.req t) k
  | .worker k => workerListAct s.worker k

/-- The list behind the step. -/
def ListAct.apply : ListAct → List Nat → List Nat
  | .insert _ p, xs => xs ++ [p]
  | .unlinkHead _ _, _ => []
  | .unlinkNext _ p _ _, xs => xs.erase p
  | .pop _, xs => xs.tail
  | _, xs => xs

/-- The jobs that a step takes out of the list without counting them off. -/
def ListAct.lost (xs : List Nat) : ListAct → Nat
  | .unlinkHead _ _ => xs.length - 1
  | _ => 0

/-- The requests that a step lets past the test of the limit. -/
def ListAct.admitted : ListAct → Nat
  | .alloc _ _ => 1
  | _ => 0

/-- The step takes a job out of the list where it still is: the head at the head, another one
between the two jobs that the Cancel-Job has found on both sides of it. -/
def LinkOk (s : PtrSys) : ListAct → Prop
  | .unlinkHead _ p | .pop p => s.chain.head? = some p
  | .unlinkNext _ p q v => [q, p] <:+: s.chain ∧ s.next p = v
  | _ => True

instance (s : PtrSys) (l : ListAct) : Decidable (LinkOk s l) := by
  cases l <;> unfold LinkOk <;> infer_instance

/-- The object that the request has and that is in no list: its own job before it is inserted, or
the job that it has cancelled. -/
def PtrReq.owns : PtrReq → Option Nat
  | .reading p | .loadID p | .storeID p _ | .resetID p | .readID p | .insert p => some p
  | .decJobsNo p | .setCancel p | .free p => some p
  | _ => none

/-- A Print-Job between the test of the limit and the insertion. -/
def PtrReq.making : PtrReq → Bool
  | .reading _ | .loadID _ | .storeID _ _ | .resetID _ | .readID _ | .insert _ => true
  | _ => false

def PtrWorker.owns : PtrWorker → Option Nat
  | .free p => some p
  | _ => none

def PtrSys.making (s : PtrSys) : Nat := countAt PtrReq.making s.req httpMaxUser

/-- Links, counter and memory stay, and every thread has what it had. -/
structure KeepsList (s u : PtrSys) : Prop where
  next : u.next = s.next
  head : u.head = s.head
  jobsNo : u.jobsNo = s.jobsNo
  alive : u.alive = s.alive
  owns : ∀ t, (u.req t).owns = (s.req t).owns
  making : ∀ t, (u.req t).making = (s.req t).making
  uncounted : ∀ t, (u.req t).uncounted = (s.req t).uncounted
  worker : u.worker.owns = s.worker.owns

inductive ListStep (s : PtrSys) : ListAct → PtrSys → Prop
  | alloc {t p : Nat} (ht : t < httpMaxUser) (hpc : s.req t = .idle) (hp : p ≠ 0)
      (hfree : s.alive p = false) (hmax : s.jobsNo.toNat < ippMaxUser) :
      ListStep s (.alloc t p)
        { (s.setObj p newObj).setReq t (.reading p) with alive := Function.update s.alive p true }
  | drop {t p : Nat} (ht : t < httpMaxUser) (hp : (s.req t).owns = some p)
      (hu : (s.req t).uncounted = false) :
      ListStep s (.drop t p) ((s.freeObj p).setReq t .idle)
  | insert {t p : Nat} (ht : t < httpMaxUser) (hpc : s.req t = .insert p) :
      ListStep s (.insert t p) ((insertObj s p).setReq t .idle)
  | unlinkHead {t p : Nat} (ht : t < httpMaxUser) (hpc : s.req t = .storeHead p) :
      ListStep s (.unlinkHead t p) { s.setReq t (.decJobsNo p) with head := 0 }
  | unlinkNext {t p q v : Nat} (ht : t < httpMaxUser) (hpc : s.req t = .storeNext p q v) :
      ListStep s (.unlinkNext t p q v)
        (((s.deref q).setObj q { s.obj q with next := v }).setReq t (.decJobsNo p))
  | countOff {t p : Nat} (ht : t < httpMaxUser) (hpc : s.req t = .decJobsNo p) :
      ListStep s (.countOff t p) { s.setReq t (.setCancel p) with jobsNo := s.jobsNo - 1 }
  | pop {job : Nat} (hw : s.worker = .pop job) :
      ListStep s (.pop job)
        { s with head := s.next s.head, jobsNo := s.jobsNo - 1, worker := .free job }
  | freePopped {job : Nat} (hw : s.worker = .free job) :
      ListStep s (.freePopped job) { s.freeObj job with worker := .test }
  | keep {u : PtrSys} (h : KeepsList s u) : ListStep s .keep u

namespace PtrSys

/-- What is stored in a job beside its link changes no link. -/
theorem next_setObj {x : IppObj} (hx : x.next = (s.obj p).next) : (s.setObj p x).next = s.next := by
  funext i
  by_cases h : i = p
  · subst h
    simp [next, setObj, hx]
  · simp [next, setObj, h]

theorem chain_setObj {x : IppObj} (hx : x.next = (s.obj p).next) :
    (s.setObj p x).chain = s.chain := by
  unfold chain
  rw [next_setObj hx]
  rfl

theorem next_setObj_next_self (q v : Nat) :
    (s.setObj q { s.obj q with next := v }).next q = v := by
  simp [next, setObj]

theorem next_setObj_next_of_ne {i : Nat} (h : i ≠ q) (v : Nat) :
    (s.setObj q { s.obj q with next := v }).next i = s.next i := by
  simp [next, setObj, h]

end PtrSys

/-- A request goes on to a statement at which it has the same objects. -/
theorem KeepsList.of_req (hpc : s.req t = pc) (hreq : u.req = Function.update s.req t pc')
    (hsame : pc'.owns = pc.owns ∧ pc'.making = pc.making ∧ pc'.uncounted = pc.uncounted)
    (hnext : u.next = s.next) (hhead : u.head = s.head) (hjobs : u.jobsNo = s.jobsNo)
    (halive : u.alive = s.alive) (hworker : u.worker = s.worker) : KeepsList s u := by
  subst hpc
  have hupdate : ∀ {α : Type} (f : PtrReq → α), f pc' = f (s.req t) →
      ∀ t', f (u.req t') = f (s.req t') := by
    intro α f hf t'
    rw [hreq]
    by_cases heq : t' = t
    · rw [heq, Function.update_self, hf]
    · rw [Function.update_of_ne heq]
  exact ⟨hnext, hhead, hjobs, halive, hupdate _ hsame.1, hupdate _ hsame.2.1, hupdate _ hsame.2.2,
    congrArg PtrWorker.owns hworker⟩

theorem KeepsList.of_worker (hw : u.worker.owns = s.worker.owns) (hreq : u.req = s.req)
    (hnext : u.next = s.next) (hhead : u.head = s.head) (hjobs : u.jobsNo = s.jobsNo)
    (halive : u.alive = s.alive) : KeepsList s u :=
  ⟨hnext, hhead, hjobs, halive, fun _ ↦ by rw [hreq], fun _ ↦ by rw [hreq],
    fun _ ↦ by rw [hreq], hw⟩

theorem attrStep_keeps {op : AttrOp} {prnURI found : Bool} {k : PtrReqChoice}
    (hpc : s.req t = .attr op prnURI found p) (hstep : attrStep s t op prnURI found p k = some u) :
    KeepsList s u := by
  unfold attrStep at hstep
  split at hstep
  case h_4 | h_5 | h_6 =>
    split at hstep <;> obtain rfl := Option.some.inj hstep <;> (try split) <;>
      exact .of_req hpc rfl ⟨rfl, rfl, rfl⟩ rfl rfl rfl rfl rfl
  case h_7 => cases hstep
  all_goals
    obtain rfl := Option.some.inj hstep
    exact .of_req hpc rfl ⟨rfl, rfl, rfl⟩ rfl rfl rfl rfl rfl

theorem reqStep_list {k : PtrReqChoice} (ht : t < httpMaxUser) (hpc : s.req t = pc)
    (hstep : ptrReqStep s t pc k = some u) : ListStep s (reqListAct t pc k) u := by
  unfold ptrReqStep at hstep
  split at hstep
  case h_1 =>
    obtain ⟨⟨h0, hfree, hmax⟩, hst⟩ := Option.ite_none_right_eq_some.mp hstep
    obtain rfl := Option.some.inj hst
    exact .alloc ht hpc h0 hfree hmax
  case h_5 | h_28 =>
    obtain rfl := Option.some.inj hstep
    exact .drop ht (by rw [hpc]; rfl) (by rw [hpc]; rfl)
  case h_11 =>
    obtain rfl := Option.some.inj hstep
    exact .insert ht hpc
  case h_21 =>
    obtain rfl := Option.some.inj hstep
    exact .unlinkHead ht hpc
  case h_25 =>
    obtain rfl := Option.some.inj hstep
    exact .unlinkNext ht hpc
  case h_26 =>
    obtain rfl := Option.some.inj hstep
    exact .countOff ht hpc
  case h_12 => exact .keep (attrStep_keeps hpc hstep)
  -- a field of the job is stored
  case h_6 | h_10 | h_19 | h_27 =>
    obtain rfl := Option.some.inj hstep
    exact .keep (.of_req hpc rfl ⟨rfl, rfl, rfl⟩ (PtrSys.next_setObj rfl) rfl rfl rfl rfl)
  -- the next statement depends on what was read
  case h_8 | h_17 | h_18 | h_20 | h_22 =>
    obtain rfl := Option.some.inj hstep
    split <;> exact .keep (.of_req hpc rfl ⟨rfl, rfl, rfl⟩ rfl rfl rfl rfl rfl)
  case h_13 =>
    split at hstep
    · split at hstep <;> obtain rfl := Option.some.inj hstep <;>
        exact .keep (.of_req hpc rfl ⟨rfl, rfl, rfl⟩ rfl rfl rfl rfl rfl)
    · split at hstep <;> obtain rfl := Option.some.inj hstep <;>
        exact .keep (.of_req hpc rfl ⟨rfl, rfl, rfl⟩ rfl rfl rfl rfl rfl)
  case h_32 =>
    obtain ⟨-, hst⟩ := Option.ite_none_left_eq_some.mp hstep
    obtain rfl := Option.some.inj hst
    exact .keep (.of_req hpc rfl ⟨rfl, rfl, rfl⟩ rfl rfl rfl rfl rfl)
  case h_33 =>
    split at hstep <;> obtain rfl := Option.some.inj hstep <;>
      exact .keep (.of_req hpc rfl ⟨rfl, rfl, rfl⟩ rfl rfl rfl rfl rfl)
  case h_34 => cases hstep
  all_goals
    obtain rfl := Option.some.inj hstep
    exact .keep (.of_req hpc rfl ⟨rfl, rfl, rfl⟩ rfl rfl rfl rfl rfl)

theorem workerStep_list {w : PtrWorker} {k : PtrWorkerChoice} (hw : s.worker = w)
    (hstep : ptrWorkerStep s w k = some u) : ListStep s (workerListAct w k) u := by
  have hfrom : ∀ {w' : PtrWorker}, w'.owns = w.owns → w'.owns = s.worker.owns :=
    fun h ↦ h.trans (congrArg PtrWorker.owns hw).symm
  unfold ptrWorkerStep at hstep
  split at hstep
  case h_1 =>
    obtain ⟨-, hst⟩ := Option.ite_none_left_eq_some.mp hstep
    obtain rfl := Option.some.inj hst
    exact .keep (.of_worker (hfrom rfl) rfl rfl rfl rfl rfl)
  case h_2 =>
    obtain ⟨-, hst⟩ := Option.ite_none_left_eq_some.mp hstep
    obtain rfl := Option.some.inj hst
    exact .keep (.of_worker (hfrom (by split <;> rfl)) rfl rfl rfl rfl rfl)
  case h_5 =>
    obtain rfl := Option.some.inj hstep
    refine .keep (.of_worker (hfrom ?_) rfl rfl rfl rfl rfl)
    split
    · rfl
    · split <;> rfl
  case h_8 =>
    obtain rfl := Option.some.inj hstep
    exact .keep (.of_worker (hfrom rfl) rfl (PtrSys.next_setObj rfl) rfl rfl rfl)
  case h_9 =>
    split at hstep <;> obtain rfl := Option.some.inj hstep
    · exact .keep (.of_worker (hfrom rfl) rfl rfl rfl rfl rfl)
    · exact .keep (.of_worker rfl rfl rfl rfl rfl rfl)
  case h_10 =>
    obtain ⟨-, hst⟩ := Option.ite_none_right_eq_some.mp hstep
    obtain rfl := Option.some.inj hst
    exact .keep (.of_worker (hfrom rfl) rfl (PtrSys.next_setObj rfl) rfl rfl rfl)
  case h_11 =>
    obtain rfl := Option.some.inj hstep
    exact .pop hw
  case h_12 =>
    obtain rfl := Option.some.inj hstep
    exact .freePopped hw
  case h_13 => cases hstep
  all_goals
    obtain rfl := Option.some.inj hstep
    exact .keep (.of_worker (hfrom rfl) rfl rfl rfl rfl rfl)

theorem ptrStep_list {a : PtrAct} (hstep : ptrStep s a = some u) : ListStep s (listAct s a) u := by
  cases a with
  | req t k =>
      obtain ⟨ht, hst⟩ := Option.ite_none_right_eq_some.mp hstep
      exact reqStep_list ht rfl hst
  | worker k => exact workerStep_list rfl hstep

end PrintServer.Ipp
