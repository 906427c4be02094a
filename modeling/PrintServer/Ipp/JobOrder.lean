import PrintServer.Ipp.PointersInv

/-!
# The jobs that were accepted

`ippObjList[port]` and `ippJobsNo[port]` against the jobs that were accepted and are neither
completed nor cancelled, over the statements of the requests and the worker.  An `ipp_t` may be
allocated again, so a job is known by its number.
-/

namespace PrintServer.Ipp

open Lib Receive

/-- Beside the state: the number of the job in an object, the numbers of the jobs that wait or are
printed in the order of acceptance, the job that the Cancel-Job or the Get-Job-Attributes of a
thread has found, and the one that the worker has taken. -/
structure JobOrder where
  sys : PtrSys
  serial : Nat → Nat
  count : Nat
  accepted : List Nat
  found : Nat → Nat
  current : Nat

namespace JobOrder

def change (s : JobOrder) : ListAct → JobOrder
  | .insert _ p =>
      { s with
        serial := Function.update s.serial p s.count
        count := s.count + 1
        accepted := s.accepted ++ [s.count] }
  | .unlinkHead t _ | .unlinkNext t _ _ _ => { s with accepted := s.accepted.erase (s.found t) }
  | .pop _ => { s with accepted := s.accepted.erase s.current }
  | _ => s

/-- A lookup that comes to its job, and the worker that takes one. -/
def look (s : JobOrder) : PtrAct → JobOrder
  | .req t _ =>
      match s.sys.req t with
      | .lookup _ _ _ k q =>
          if q ≠ 0 ∧ ((s.sys.obj q).jobId.toNat : Int) = k.jobId then
            { s with found := Function.update s.found t (s.serial q) }
          else s
      | _ => s
  | .worker _ => if s.sys.worker = .take then { s with current := s.serial s.sys.head } else s

def step (s : JobOrder) (a : PtrAct) : Option JobOrder :=
  (ptrStep s.sys a).map fun u ↦ { (s.change (listAct s.sys a)).look a with sys := u }

end JobOrder

/-- The list holds the accepted jobs, and the counter says how many; it is one more for every
Cancel-Job between taking its job out of the list and counting it off. -/
structure JobListOK (s : JobOrder) : Prop where
  list : ∃ ps, Linked s.sys.next 0 s.sys.head ps ∧ ps.map s.serial = s.accepted
  count : s.sys.jobsNo.toNat = s.accepted.length + s.sys.lag

/-- A job is taken out of the list only while it is where the thread has found it, and still the
one that it has found: the head of the list only if no other job is behind it, another one only
between the two that are on both sides of it. -/
def TakesOk (s : JobOrder) : ListAct → Prop
  | .unlinkHead t p => s.sys.chain = [p] ∧ s.serial p = s.found t
  | .unlinkNext t p q v => ([q, p] <:+: s.sys.chain ∧ s.sys.next p = v) ∧ s.serial p = s.found t
  | .pop job => s.sys.chain.head? = some job ∧ s.serial job = s.current
  | _ => True

def JobOk (s : JobOrder) (a : PtrAct) : Prop := TakesOk s (listAct s.sys a)

instance (s : JobOrder) : (l : ListAct) → Decidable (TakesOk s l)
  | .unlinkHead t p => inferInstanceAs (Decidable (s.sys.chain = [p] ∧ s.serial p = s.found t))
  | .unlinkNext t p q v =>
      inferInstanceAs (Decidable (([q, p] <:+: s.sys.chain ∧ s.sys.next p = v) ∧
        s.serial p = s.found t))
  | .pop job =>
      inferInstanceAs (Decidable (s.sys.chain.head? = some job ∧ s.serial job = s.current))
  | .alloc .. | .drop .. | .insert .. | .countOff .. | .freePopped .. | .keep => isTrue trivial

instance (s : JobOrder) (a : PtrAct) : Decidable (JobOk s a) :=
  inferInstanceAs (Decidable (TakesOk s _))

variable {s u : JobOrder} {a : PtrAct} {p : Nat}

structure OrderInv (s : JobOrder) : Prop where
  list : ListInv s.sys
  counted : Counted s.sys
  accepted : s.sys.chain.map s.serial = s.accepted
  old : ∀ n ∈ s.accepted, n < s.count
  nodup : s.accepted.Nodup

theorem TakesOk.linkOk {l : ListAct} (h : TakesOk s l) :
    LinkOk s.sys l ∧ l.lost s.sys.chain = 0 := by
  cases l with
  | unlinkHead t p =>
      show s.sys.chain.head? = some p ∧ s.sys.chain.length - 1 = 0
      rw [h.1]
      exact ⟨rfl, rfl⟩
  | unlinkNext t p q v => exact ⟨h.1, rfl⟩
  | pop job => exact ⟨h.1, rfl⟩
  | _ => exact ⟨trivial, rfl⟩

theorem look_frame (s : JobOrder) (a : PtrAct) :
    (s.look a).serial = s.serial ∧ (s.look a).count = s.count ∧
      (s.look a).accepted = s.accepted := by
  unfold JobOrder.look
  split
  · split
    · split <;> exact ⟨rfl, rfl, rfl⟩
    · exact ⟨rfl, rfl, rfl⟩
  · split <;> exact ⟨rfl, rfl, rfl⟩

/-- Erasing an element whose value no other one has. -/
theorem map_erase_of_nodup {f : Nat → Nat} {xs : List Nat} (hnodup : (xs.map f).Nodup)
    (hp : p ∈ xs) : (xs.erase p).map f = (xs.map f).erase (f p) := by
  induction xs with
  | nil => cases hp
  | cons x xs ih =>
      by_cases hx : x = p
      · rw [hx, List.erase_cons_head, List.map_cons, List.erase_cons_head]
      · have hmem : p ∈ xs := (List.mem_cons.mp hp).resolve_left fun h ↦ hx h.symm
        rw [List.map_cons, List.nodup_cons] at hnodup
        have hne : f x ≠ f p := fun h ↦ hnodup.1 (h ▸ List.mem_map_of_mem hmem)
        rw [List.erase_cons_tail (by simpa using hx), List.map_cons, List.map_cons,
          List.erase_cons_tail (by simpa using hne), ih hnodup.2 hmem]

namespace OrderInv

/-- The list and the accepted jobs change together. -/
theorem change {l : ListAct} {v : PtrSys} (hs : OrderInv s) (hok : TakesOk s l)
    (hlist : ListStep s.sys l v) :
    v.chain.map (s.change l).serial = (s.change l).accepted ∧
      (∀ n ∈ (s.change l).accepted, n < (s.change l).count) ∧ (s.change l).accepted.Nodup := by
  have hnodup : (s.sys.chain.map s.serial).Nodup := by
    rw [hs.accepted]
    exact hs.nodup
  rw [hs.list.chain_step hok.linkOk.1 hlist]
  cases l with
  | insert t p =>
      -- a record to be linked in is in no list yet
      have hp : p ∉ s.sys.chain := by
        cases hlist with
        | insert ht hpc => exact (hs.list.reqOwned t ht p (by rw [hpc]; rfl)).1
      have hsame : s.sys.chain.map (Function.update s.serial p s.count) = s.accepted := by
        rw [← hs.accepted]
        refine List.map_congr_left fun q hq ↦ Function.update_of_ne ?_ _ _
        rintro rfl
        exact hp hq
      refine ⟨?_, fun n hn ↦ ?_, ?_⟩
      · show (s.sys.chain ++ [p]).map (Function.update s.serial p s.count) = s.accepted ++ [s.count]
        rw [List.map_append, hsame, List.map_singleton, Function.update_self]
      · rcases List.mem_append.mp hn with hn | hn
        · exact Nat.lt_succ_of_lt (hs.old n hn)
        · rw [List.mem_singleton.mp hn]
          exact Nat.lt_succ_self _
      · refine List.nodup_append.mpr ⟨hs.nodup, List.nodup_singleton _, ?_⟩
        rintro n hn m hm rfl
        rw [List.mem_singleton.mp hm] at hn
        exact Nat.lt_irrefl _ (hs.old _ hn)
  | unlinkHead t p =>
      -- the head is cut off as the whole list
      have herase : s.accepted.erase (s.found t) = [] := by
        rw [← hs.accepted, hok.1, ← hok.2, List.map_singleton, List.erase_cons_head]
      exact ⟨herase.symm, fun n hn ↦ hs.old n (List.mem_of_mem_erase hn), hs.nodup.erase _⟩
  | unlinkNext t p q w =>
      refine ⟨?_, fun n hn ↦ hs.old n (List.mem_of_mem_erase hn), hs.nodup.erase _⟩
      show (s.sys.chain.erase p).map s.serial = s.accepted.erase (s.found t)
      rw [← hs.accepted, ← hok.2]
      exact map_erase_of_nodup hnodup (hok.1.1.subset (by simp))
  | pop job =>
      refine ⟨?_, fun n hn ↦ hs.old n (List.mem_of_mem_erase hn), hs.nodup.erase _⟩
      obtain ⟨ps, hps⟩ := List.head?_eq_some_iff.mp hok.1
      show s.sys.chain.tail.map s.serial = s.accepted.erase s.current
      rw [← hs.accepted, ← hok.2, hps, List.map_cons, List.erase_cons_head]
      rfl
  | _ => exact ⟨hs.accepted, hs.old, hs.nodup⟩

theorem step (hs : OrderInv s) (hok : JobOk s a) (hstep : s.step a = some u) : OrderInv u := by
  obtain ⟨v, hv, rfl⟩ := Option.map_eq_some_iff.mp hstep
  have hlist := ptrStep_list hv
  obtain ⟨hlink, hlost⟩ := hok.linkOk
  obtain ⟨hserial, hcount, haccepted⟩ := look_frame (s.change (listAct s.sys a)) a
  obtain ⟨hmap, hold, hnodup⟩ := hs.change hok hlist
  exact
    { list := hs.list.step hlink hlist
      counted := hs.counted.step hs.list hlink hlist hlost
      accepted := by rw [hserial, haccepted]; exact hmap
      old := by rw [haccepted, hcount]; exact hold
      nodup := by rw [haccepted]; exact hnodup }

theorem ok (hs : OrderInv s) : JobListOK s where
  list := ⟨s.sys.chain, hs.list.linked, hs.accepted⟩
  count := by
    rw [← hs.accepted, List.length_map]
    exact hs.counted

end OrderInv

end PrintServer.Ipp
