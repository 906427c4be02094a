import PrintServer.Ipp.PointersLinks

/-!
# Pointers that stay valid
-/

namespace PrintServer.Ipp

open Lib Receive

variable {s u : PtrSys} {t p q : Nat} {pc : PtrReq}

namespace ListInv

/-- The link of a job in the list is in the list, or NULL. -/
theorem next_mem (hs : ListInv s) (hq : q ∈ s.chain) (h : s.next q ≠ 0) : s.next q ∈ s.chain :=
  (hs.linked.infix_of_next hq h).subset (by simp)

end ListInv

namespace PtrInv

end PtrInv

/-- A job that leaves the list under the condition is where its thread has found it. -/
theorem PtrInv.linkOk {a : PtrAct} (hs : PtrInv s) (hok : PtrOk s a)
    (hstep : ptrStep s a = some u) :
    LinkOk s (listAct s a) ∧ (listAct s a).lost s.chain = 0 := by
  cases a with
  | req t k =>
      obtain ⟨ht, -⟩ := Option.ite_none_right_eq_some.mp hstep
      have hg := hs.reqs t ht
      change PtrReqOk s t (s.req t) k at hok
      show LinkOk s (reqListAct t (s.req t) k) ∧ (reqListAct t (s.req t) k).lost s.chain = 0
      generalize s.req t = pc at hg hok
      unfold reqListAct
      split
      case h_5 p =>
        refine ⟨hg, ?_⟩
        rw [hs.chain_of_last hg hok.1]
        rfl
      case h_6 => exact ⟨hg, rfl⟩
      all_goals exact ⟨trivial, rfl⟩
  | worker k =>
      have hg := hs.worker
      show LinkOk s (workerListAct s.worker k) ∧ (workerListAct s.worker k).lost s.chain = 0
      generalize s.worker = w at hg
      unfold workerListAct
      split
      · exact ⟨hg, rfl⟩
      · exact ⟨trivial, rfl⟩
      · exact ⟨trivial, rfl⟩

end PrintServer.Ipp
