import PrintServer.Ipp.JobList

/-!
# The job list along a run
-/

namespace PrintServer.Ipp

open Lib Receive

variable {s t : JobSys} {p q : Nat}

namespace JobSys

theorem next_setState (st : JobState) : (s.setState p st).next = s.next := by
  funext i
  by_cases h : i = p
  · subst h; simp [next, setState]
  · simp [next, setState, h]

theorem next_setNext_self : (s.setNext p q).next p = q := by
  simp [next, setNext]

theorem next_setNext_of_ne {i : Nat} (h : i ≠ p) : (s.setNext p q).next i = s.next i := by
  simp [next, setNext, h]

end JobSys

/-- The invariant: requests in flight are not in the list yet, and the worker's job is its first
one. -/
structure JobInv (s : JobSys) : Prop where
  ok : AcceptedListed s
  bound : s.accepted.length + s.admitted.length ≤ ippMaxUser + httpMaxUser
  fresh : ∀ p ∈ s.admitted, p ≠ 0 ∧ p ∉ s.accepted ∧ s.next p = 0 ∧ p ≠ s.current
  admitted : s.admitted.Nodup
  current : s.current ≠ 0 → s.accepted.head? = some s.current

namespace JobInv

theorem length_le (hs : JobInv s) : s.accepted.length ≤ 256 := by
  have hb := hs.bound
  simp only [ippMaxUser, httpMaxUser] at hb
  omega

theorem chain_eq (hs : JobInv s) : s.chain = s.accepted := hs.ok.list.walk_eq hs.length_le

end JobInv

theorem jobStart_inv : JobInv jobStart where
  ok := ⟨rfl, rfl⟩
  bound := by decide
  fresh := fun p hp ↦ by cases hp
  admitted := List.nodup_nil
  current := fun h ↦ absurd rfl h

/-! ## Print-Job -/

theorem JobInv.arrive (hs : JobInv s) (hp0 : p ≠ 0) (hadm : p ∉ s.admitted)
    (hacc : p ∉ s.accepted) (hcur : p ≠ s.current) (huser : s.admitted.length < httpMaxUser)
    (hjobs : s.jobsNo.toNat < ippMaxUser) :
    JobInv { s with obj := Function.update s.obj p newObj, admitted := p :: s.admitted } := by
  have hobj : ∀ i, i ≠ p → Function.update s.obj p newObj i = s.obj i :=
    fun i hi ↦ Function.update_of_ne hi _ _
  have hne : ∀ i ∈ s.accepted, i ≠ p := fun i hi hip ↦ hacc (hip ▸ hi)
  exact
    { ok := ⟨hs.ok.count, hs.ok.list.congr fun i hi ↦ congrArg IppObj.next (hobj i (hne i hi))⟩
      bound := by
        have hc := hs.ok.count
        simp only [List.length_cons]
        omega
      fresh := by
        intro i hi
        by_cases hip : i = p
        · rw [hip]
          refine ⟨hp0, hacc, ?_, hcur⟩
          show (Function.update s.obj p newObj p).next = 0
          rw [Function.update_self]
          rfl
        · obtain ⟨h0, h1, h2, h3⟩ := hs.fresh i ((List.mem_cons.mp hi).resolve_left hip)
          exact ⟨h0, h1, (congrArg IppObj.next (hobj i hip)).trans h2, h3⟩
      admitted := List.nodup_cons.mpr ⟨hadm, hs.admitted⟩
      current := hs.current }

theorem JobInv.reject (hs : JobInv s) :
    JobInv { s with admitted := s.admitted.erase p } where
  ok := ⟨hs.ok.count, hs.ok.list⟩
  bound := by
    have hb := hs.bound
    have hle : (s.admitted.erase p).length ≤ s.admitted.length := List.length_erase_le
    show s.accepted.length + (s.admitted.erase p).length ≤ _
    omega
  fresh := fun i hi ↦ hs.fresh i (List.mem_of_mem_erase hi)
  admitted := hs.admitted.erase p
  current := hs.current

/-- A new state of a job changes no link. -/
theorem JobInv.setState (hs : JobInv s) (p : Nat) (st : JobState) : JobInv (s.setState p st) where
  ok := ⟨hs.ok.count, by rw [JobSys.next_setState]; exact hs.ok.list⟩
  bound := hs.bound
  fresh := fun i hi ↦ by rw [JobSys.next_setState]; exact hs.fresh i hi
  admitted := hs.admitted
  current := hs.current

theorem linkJob_linked {xs : List Nat} (hl : Linked s.next 0 s.head xs) (hlen : xs.length ≤ 256)
    (hp0 : p ≠ 0) (hp : p ∉ xs) (hnext : s.next p = 0) :
    Linked (linkJob s p).next 0 (linkJob s p).head (xs ++ [p]) := by
  have hchain : s.chain = xs := hl.walk_eq hlen
  unfold linkJob
  rw [hchain]
  cases hlast : xs.getLast? with
  | none =>
      obtain rfl : xs = [] := by simpa using hlast
      exact ⟨rfl, hp0, hnext⟩
  | some q =>
      have hqp : p ≠ q := fun h ↦ hp (h ▸ List.mem_of_getLast? hlast)
      refine hl.snoc hlast hp0 JobSys.next_setNext_self ?_ ?_
      · rw [JobSys.next_setNext_of_ne hqp]
        exact hnext
      · exact fun x _ hx ↦ JobSys.next_setNext_of_ne hx

/-- Linking in changes no other variable. -/
theorem linkJob_frame (s : JobSys) (p : Nat) :
    (linkJob s p).jobsNo = s.jobsNo ∧ (linkJob s p).current = s.current ∧
      ∀ i, i ∉ s.chain → (linkJob s p).next i = s.next i := by
  unfold linkJob
  cases hlast : s.chain.getLast? with
  | none => exact ⟨rfl, rfl, fun _ _ ↦ rfl⟩
  | some q =>
      refine ⟨rfl, rfl, fun i hi ↦ JobSys.next_setNext_of_ne ?_⟩
      rintro rfl
      exact hi (List.mem_of_getLast? hlast)

theorem JobInv.accept (hs : JobInv s) (hp : p ∈ s.admitted) :
    JobInv { insertJob s p with
      admitted := s.admitted.erase p, accepted := s.accepted ++ [p] } := by
  obtain ⟨hp0, hacc, hnext, hcur⟩ := hs.fresh p hp
  obtain ⟨hno, hcurrent, hkeep⟩ := linkJob_frame s p
  have hlen := hs.bound
  have hpos : 0 < s.admitted.length := List.length_pos_of_mem hp
  have herase : (s.admitted.erase p).length = s.admitted.length - 1 := List.length_erase_of_mem hp
  simp only [ippMaxUser, httpMaxUser] at hlen
  exact
    { ok :=
        { count := by
            show ((linkJob s p).jobsNo + 1).toNat = (s.accepted ++ [p]).length
            have hc : s.jobsNo.toNat = s.accepted.length := hs.ok.count
            rw [hno, UInt8.toNat_add, List.length_append, UInt8.toNat_one]
            show (s.jobsNo.toNat + 1) % 256 = _
            simp only [List.length_cons, List.length_nil]
            omega
          list := linkJob_linked hs.ok.list hs.length_le hp0 hacc hnext }
      bound := by
        show (s.accepted ++ [p]).length + (s.admitted.erase p).length ≤ ippMaxUser + httpMaxUser
        simp only [List.length_append, List.length_cons, List.length_nil, ippMaxUser, httpMaxUser]
        omega
      fresh := by
        intro i hi
        have hip : i ≠ p := fun h ↦ (hs.admitted.mem_erase_iff.mp hi).1 h
        obtain ⟨h0, h1, h2, h3⟩ := hs.fresh i (List.mem_of_mem_erase hi)
        refine ⟨h0, ?_, ?_, ?_⟩
        · rw [List.mem_append, List.mem_singleton, not_or]
          exact ⟨h1, hip⟩
        · show (linkJob s p).next i = 0
          rw [hkeep i (by rw [hs.chain_eq]; exact h1)]
          exact h2
        · show i ≠ (linkJob s p).current
          rw [hcurrent]
          exact h3
      admitted := hs.admitted.erase p
      current := by
        intro h
        have hne : s.current ≠ 0 := by
          rw [← show (linkJob s p).current = s.current from hcurrent]
          exact h
        show (s.accepted ++ [p]).head? = some (linkJob s p).current
        rw [hcurrent, List.head?_append, hs.current hne]
        rfl }

/-! ## The worker -/

theorem JobInv.take (hs : JobInv s) : JobInv { s with current := s.head } := by
  have hl := hs.ok.list
  have hfirst : s.head ≠ 0 → s.accepted.head? = some s.head := by
    intro hhead
    cases hacc : s.accepted with
    | nil =>
        rw [hacc] at hl
        exact absurd hl hhead
    | cons a as =>
        rw [hacc] at hl
        obtain rfl : s.head = a := hl.1
        rfl
  refine ⟨⟨hs.ok.count, hs.ok.list⟩, hs.bound, fun i hi ↦ ?_, hs.admitted, hfirst⟩
  obtain ⟨h0, h1, h2, -⟩ := hs.fresh i hi
  refine ⟨h0, h1, h2, ?_⟩
  rintro rfl
  exact h1 (List.mem_of_head? (hfirst h0))

theorem JobInv.pop (hs : JobInv s) (hcur : s.current ≠ 0) :
    JobInv { s with
      head := s.next s.head, jobsNo := s.jobsNo - 1, accepted := s.accepted.erase s.current,
      current := 0 } := by
  have hl := hs.ok.list
  have hb := hs.bound
  have hc := hs.ok.count
  have hfirst := hs.current hcur
  cases hacc : s.accepted with
  | nil =>
      rw [hacc] at hfirst
      cases hfirst
  | cons a as =>
      rw [hacc] at hl hfirst hc hb
      obtain rfl : a = s.current := Option.some.inj hfirst
      obtain ⟨hhead, -, has⟩ := hl
      rw [List.erase_cons_head, hhead]
      exact
        { ok :=
            { count := by
                show (s.jobsNo - 1).toNat = as.length
                have hle : (1 : UInt8) ≤ s.jobsNo := by
                  rw [UInt8.le_iff_toNat_le, hc]
                  exact Nat.le_add_left 1 _
                rw [UInt8.toNat_sub_of_le _ _ hle, hc]
                rfl
              list := has }
          bound := by
            show as.length + s.admitted.length ≤ _
            simp only [List.length_cons] at hb
            omega
          fresh := by
            intro i hi
            obtain ⟨h0, h1, h2, -⟩ := hs.fresh i hi
            rw [hacc] at h1
            exact ⟨h0, fun h ↦ h1 (List.mem_cons_of_mem _ h), h2, h0⟩
          admitted := hs.admitted
          current := fun h ↦ absurd rfl h }

theorem jobStep_inv {a : JobAct} (hs : JobInv s) (hstep : jobStep s a = some t) : JobInv t := by
  cases a with
  | arrive p =>
      obtain ⟨⟨h1, h2, h3, h4, h5, h6⟩, hst⟩ := Option.ite_none_right_eq_some.mp hstep
      obtain rfl := Option.some.inj hst
      exact hs.arrive h1 h2 h3 h4 h5 h6
  | reject p =>
      obtain ⟨-, hst⟩ := Option.ite_none_right_eq_some.mp hstep
      obtain rfl := Option.some.inj hst
      exact hs.reject
  | pend p =>
      obtain ⟨-, hst⟩ := Option.ite_none_right_eq_some.mp hstep
      obtain rfl := Option.some.inj hst
      exact hs.setState p .pending
  | accept p =>
      obtain ⟨hp, hst⟩ := Option.ite_none_right_eq_some.mp hstep
      obtain rfl := Option.some.inj hst
      exact hs.accept hp
  | take =>
      obtain ⟨-, hst⟩ := Option.ite_none_right_eq_some.mp hstep
      obtain rfl := Option.some.inj hst
      exact hs.take
  | start =>
      obtain ⟨-, hst⟩ := Option.ite_none_right_eq_some.mp hstep
      obtain rfl := Option.some.inj hst
      exact hs.setState s.current .process
  | endJob st =>
      obtain ⟨-, hst⟩ := Option.ite_none_right_eq_some.mp hstep
      obtain rfl := Option.some.inj hst
      exact hs.setState s.current st
  | pop =>
      obtain ⟨⟨h1, -, -⟩, hst⟩ := Option.ite_none_right_eq_some.mp hstep
      obtain rfl := Option.some.inj hst
      exact hs.pop h1

end PrintServer.Ipp
