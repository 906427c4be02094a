import PrintServer.Ipp.PointersOwners

/-!
# What the threads know of the list
-/

namespace PrintServer.Ipp

open Lib Receive

variable {s u : PtrSys} {t p q c : Nat} {xs : List Nat} {pc pc' : PtrReq}

/-! ## The invariant -/

/-- What a request knows of the list `xs`. -/
def ReqGood (xs : List Nat) (next : Nat → Nat) : PtrReq → Prop
  | .attr op _ found p => (p ≠ 0 → p ∈ xs) ∧ (op = .cancelJob → found = true → p ≠ 0)
  | .lookup _ _ _ _ q | .jobsWalk q => q ≠ 0 → q ∈ xs
  | .lookupNext _ _ _ _ p | .reply p | .testAborting _ p | .testProcess p | .setAborting p
  | .readHead p => p ∈ xs
  | .storeHead p => xs.head? = some p
  | .walk p q => [q, p].Sublist xs
  | .walkNext p q => ∃ x, [q, x] <:+: xs ∧ [x, p].Sublist xs
  | .loadNext p q => [q, p] <:+: xs
  | .storeNext p q v => [q, p] <:+: xs ∧ next p = v
  | _ => True

/-- What the worker knows of the list: its walk has at most `i - 1` jobs behind it. -/
def WorkerGood (xs : List Nat) : PtrWorker → Prop
  | .walkHead | .take => xs ≠ []
  | .walkAck q i job | .walkTest q i job =>
      (∃ l₁ l₂, xs = l₁ ++ [q] ++ l₂ ∧ l₁.length < i) ∧ (job = 0 ∨ xs.head? = some job)
  | .walkNext q i job =>
      (∃ l₁ x l₂, xs = l₁ ++ [q, x] ++ l₂ ∧ l₁.length < i) ∧ (job = 0 ∨ xs.head? = some job)
  | .start job | .process job | .pop job => xs.head? = some job
  | _ => True

structure PtrGood (s : PtrSys) : Prop where
  reqs : ∀ t < httpMaxUser, ReqGood s.chain s.next (s.req t)
  worker : WorkerGood s.chain s.worker
  valid : PointersValid s

/-- Every job that is counted is in the list, or is just being counted off. -/
def Counted (s : PtrSys) : Prop := s.jobsNo.toNat = s.chain.length + s.lag

structure PtrInv (s : PtrSys) : Prop extends ListInv s, PtrGood s where
  counted : Counted s

/-- A step that takes no other jobs out of the list than the one that it counts off. -/
theorem Counted.step {l : ListAct} (hs : ListInv s) (hcounted : Counted s) (hok : LinkOk s l)
    (h : ListStep s l u) (hlost : l.lost s.chain = 0) : Counted u := by
  have htally := hs.tally hok h
  unfold Counted at *
  omega

/-! ## Steps that leave the list alone -/

namespace PtrGood

/-- A request goes on. -/
theorem move (hs : PtrGood s) (hg : ReqGood s.chain s.next pc') : PtrGood (s.setReq t pc') where
  reqs := forall_lt_update (P := fun _ pc ↦ ReqGood s.chain s.next pc) hs.reqs hg
  worker := hs.worker
  valid := ⟨hs.valid.live, hs.valid.once⟩

/-- What is stored in a job beside its link. -/
theorem setObj (hs : PtrGood s) (p : Nat) (x : IppObj) (hx : x.next = (s.obj p).next) :
    PtrGood (s.setObj p x) where
  reqs := by
    rw [PtrSys.chain_setObj hx, PtrSys.next_setObj hx]
    exact hs.reqs
  worker := by
    rw [PtrSys.chain_setObj hx]
    exact hs.worker
  valid := ⟨hs.valid.live, hs.valid.once⟩

end PtrGood

namespace PtrInv

/-- Following a pointer into the list is valid. -/
theorem deref (hs : PtrInv s) (hp : p ∈ s.chain) : PtrGood (s.deref p) where
  reqs := hs.reqs
  worker := hs.worker
  valid :=
    { live := by
        intro d hd
        rcases List.mem_append.mp hd with hd | hd
        · exact hs.valid.live d hd
        · obtain rfl := List.mem_singleton.mp hd
          simp [hs.alive p hp, hp]
      once := hs.valid.once }

theorem derefOwn (hs : PtrInv s) (hp : s.alive p = true) : PtrGood (s.derefOwn p) where
  reqs := hs.reqs
  worker := hs.worker
  valid :=
    { live := by
        intro d hd
        rcases List.mem_append.mp hd with hd | hd
        · exact hs.valid.live d hd
        · obtain rfl := List.mem_singleton.mp hd
          simp [hp]
      once := hs.valid.once }

end PtrInv

end PrintServer.Ipp
