import PrintServer.Ipp.PointersInv

/-!
# The steps that change the job list
-/

namespace PrintServer.Ipp

open Lib Receive

variable {s u : PtrSys} {t p q c : Nat} {xs : List Nat} {pc : PtrReq}

/-! ## What a change of the list leaves of what the threads know -/

namespace PtrInv

/-- A head without a job behind it is the whole list. -/
theorem chain_of_last (hs : PtrInv s) (hfirst : s.chain.head? = some p) (hlast : s.next p = 0) :
    s.chain = [p] := by
  obtain ⟨as, hx⟩ := List.head?_eq_some_iff.mp hfirst
  have hl := hs.linked
  rw [hx] at hl
  rw [hx, hl.tail.eq_nil_iff.mpr hlast]

end PtrInv

end PrintServer.Ipp
