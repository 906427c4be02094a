import PrintServer.Http.Slots

/-!
# The connection slots along a run

A slot is in use, waits for the deletion of its thread, or is free, and its thread stands
accordingly.  An open socket has one owner, so two threads with open connections have different
numbers.
-/

namespace PrintServer.Http

open Lib

variable {s t : SlotSys} {i l sock : Nat}

inductive SlotAt (u : USock) (c : ConnThread) : Prop
  | used (hflag : u.flag = true) (hrel : u.needrelase = false) (hpc : c.pc.serving = true)
      (hmem : c.pc ≠ .fcloseEarly) (hnum : u.num = c.s)
  | ended (hflag : u.flag = false) (hrel : u.needrelase = true)
      (hpc : c.pc = .exiting ∨ c.pc = .exited)
  | free (hflag : u.flag = false) (hrel : u.needrelase = false) (hpc : c.pc = .none)

def ListenPc.csd : ListenPc → Option Nat
  | .accept => none
  | .reap csd | .testUsers csd | .close csd | .allocate csd => some csd

structure SlotInv (s : SlotSys) : Prop where
  slot : ∀ i < sockSum, SlotAt (s.usedsock i) (s.thread i)
  connOwner : ∀ i < sockSum, (s.thread i).pc.connected = true →
    s.owner (s.thread i).s = .thread i
  listenOwner : ∀ l, ∀ c ∈ (s.listen l).csd, s.owner c = .listener l
  deleted : ∀ pc ∈ s.deleted, pc = .exiting ∨ pc = .exited
  cleared : ∀ c ∈ s.cleared, c.2 = some c.1
  users : s.httpUsers = countAt USock.flag s.usedsock sockSum

theorem ConnPc.serving_of_connected {pc : ConnPc} (h : pc.connected = true) :
    pc.serving = true := by
  cases pc <;> first | rfl | cases h

namespace SlotAt

variable {u : USock} {c : ConnThread}

theorem used_of_serving (h : SlotAt u c) (hpc : c.pc.serving = true) :
    u.flag = true ∧ u.needrelase = false ∧ u.num = c.s := by
  cases h with
  | used hflag hrel _ _ hnum => exact ⟨hflag, hrel, hnum⟩
  | ended _ _ hend =>
      rcases hend with hend | hend
      · rw [hend] at hpc
        cases hpc
      · rw [hend] at hpc
        cases hpc
  | free _ _ hnone =>
      rw [hnone] at hpc
      cases hpc

theorem ended_of_needrelase (h : SlotAt u c) (hrel : u.needrelase = true) :
    u.flag = false ∧ (c.pc = .exiting ∨ c.pc = .exited) := by
  cases h with
  | ended hflag _ hpc => exact ⟨hflag, hpc⟩
  | used _ hno => exact absurd (hno.symm.trans hrel) Bool.false_ne_true
  | free _ hno => exact absurd (hno.symm.trans hrel) Bool.false_ne_true

/-- After the deletion of its thread an ended slot is free. -/
theorem reaped (h : SlotAt u c) :
    SlotAt { u with needrelase := false } (if u.needrelase then { c with pc := .none } else c) := by
  cases h with
  | used hflag hrel hpc hmem hnum =>
      rw [if_neg (by simp [hrel])]
      exact .used hflag rfl hpc hmem hnum
  | ended hflag hrel hpc =>
      rw [if_pos hrel]
      exact .free hflag rfl rfl
  | free hflag hrel hpc =>
      rw [if_neg (by simp [hrel])]
      exact .free hflag rfl hpc

end SlotAt

namespace SlotInv

/-! ## Updates of one part -/

theorem setListen (h : SlotInv s) {pc : ListenPc} (hpc : ∀ c ∈ pc.csd, c ∈ (s.listen l).csd) :
    SlotInv (s.setListen l pc) where
  slot := h.slot
  connOwner := h.connOwner
  listenOwner := by
    intro k c hc
    change c ∈ (Function.update s.listen l pc k).csd at hc
    by_cases hk : k = l
    · subst hk
      rw [Function.update_self] at hc
      exact h.listenOwner k c (hpc c hc)
    · rw [Function.update_of_ne hk] at hc
      exact h.listenOwner k c hc
  deleted := h.deleted
  cleared := h.cleared
  users := h.users

/-- A socket that neither a thread nor a listener holds changes hands. -/
theorem setOwner (h : SlotInv s) {o : SockOwner}
    (hconn : ∀ i < sockSum, (s.thread i).pc.connected = true → (s.thread i).s ≠ sock)
    (hlis : ∀ l, sock ∉ (s.listen l).csd) : SlotInv (s.setOwner sock o) where
  slot := h.slot
  connOwner := by
    intro i hi hc
    change Function.update s.owner sock o (s.thread i).s = _
    rw [Function.update_of_ne (hconn i hi hc)]
    exact h.connOwner i hi hc
  listenOwner := by
    intro k c hc
    have hne : c ≠ sock := fun he ↦ hlis k (he ▸ hc)
    change Function.update s.owner sock o c = _
    rw [Function.update_of_ne hne]
    exact h.listenOwner k c hc
  deleted := h.deleted
  cleared := h.cleared
  users := h.users

/-- A thread moves on and keeps its slot. -/
theorem setThread (h : SlotInv s) {pc : ConnPc} (hi : i < sockSum)
    (hserving : (s.thread i).pc.serving = true) (hpc : pc.serving = true)
    (hmem : pc ≠ .fcloseEarly) (hconn : pc.connected = true → (s.thread i).pc.connected = true) :
    SlotInv (s.setThread i pc) where
  slot := by
    obtain ⟨hflag, hrel, hnum⟩ := (h.slot i hi).used_of_serving hserving
    exact forall_lt_update (P := fun k c ↦ SlotAt (s.usedsock k) c) h.slot
      (.used hflag hrel hpc hmem hnum)
  connOwner :=
    forall_lt_update (P := fun k (c : ConnThread) ↦ c.pc.connected = true → s.owner c.s = .thread k) h.connOwner
      fun hc ↦ h.connOwner i hi (hconn hc)
  listenOwner := h.listenOwner
  deleted := h.deleted
  cleared := h.cleared
  users := h.users

/-- A thread gives up its socket. -/
theorem giveUp (h : SlotInv s) {pc : ConnPc} (o : SockOwner) (hi : i < sockSum)
    (hc : (s.thread i).pc.connected = true) (hpc : pc.serving = true) (hmem : pc ≠ .fcloseEarly)
    (hgone : pc.connected = false) :
    SlotInv ((s.setOwner (s.thread i).s o).setThread i pc) := by
  have hown := h.connOwner i hi hc
  have ht : SlotInv (s.setThread i pc) :=
    h.setThread hi (ConnPc.serving_of_connected hc) hpc hmem fun _ ↦ hc
  refine ht.setOwner (fun j hj hcj he ↦ ?_) (fun k hk ↦ ?_)
  · by_cases hji : j = i
    · subst hji
      change (Function.update s.thread j _ j).pc.connected = true at hcj
      rw [Function.update_self] at hcj
      exact absurd (hgone.symm.trans hcj) Bool.false_ne_true
    · change (Function.update s.thread i _ j).pc.connected = true at hcj
      change (Function.update s.thread i _ j).s = _ at he
      rw [Function.update_of_ne hji] at hcj he
      have hown' := h.connOwner j hj hcj
      rw [he, hown] at hown'
      exact hji (SockOwner.thread.inj hown').symm
  · have hl := h.listenOwner k _ hk
    rw [hown] at hl
    cases hl

theorem reap (h : SlotInv s) : SlotInv s.reaped where
  slot := by
    intro i hi
    have hat := (h.slot i hi).reaped
    simp only [SlotSys.reaped, hi, if_true, true_and]
    exact hat
  connOwner := by
    intro i hi hc
    simp only [SlotSys.reaped, hi, true_and] at hc ⊢
    split at hc
    · cases hc
    · rename_i hrel
      rw [if_neg hrel]
      exact h.connOwner i hi hc
  listenOwner := h.listenOwner
  deleted := by
    intro pc hpc
    rcases List.mem_append.mp hpc with hold | hnew
    · exact h.deleted pc hold
    · obtain ⟨i, hi, rfl⟩ := List.mem_map.mp hnew
      obtain ⟨hi, hrel⟩ := List.mem_filter.mp hi
      exact ((h.slot i (List.mem_range.mp hi)).ended_of_needrelase hrel).2
  cleared := h.cleared
  users := by
    have hcount : countAt USock.flag s.reaped.usedsock sockSum =
        countAt USock.flag s.usedsock sockSum := by
      unfold countAt
      refine List.countP_congr fun i hi ↦ ?_
      simp only [SlotSys.reaped, List.mem_range.mp hi, if_true]
    rw [hcount]
    exact h.users

/-- A listener gives a free slot to its connection. -/
theorem start (h : SlotInv s) {csd : Nat} (hi : i < sockSum)
    (hflag : (s.usedsock i).flag = false) (hrel : (s.usedsock i).needrelase = false)
    (hcsd : (s.listen l).csd = some csd) :
    SlotInv (((s.started i csd).setOwner csd (.thread i)).setListen l .accept) := by
  have hown := h.listenOwner l csd hcsd
  have hother : ∀ j < sockSum, (s.thread j).pc.connected = true → (s.thread j).s ≠ csd := by
    intro j hj hc he
    have hj' := h.connOwner j hj hc
    rw [he, hown] at hj'
    cases hj'
  constructor
  · intro j hj
    change SlotAt (Function.update s.usedsock i _ j) (Function.update s.thread i _ j)
    by_cases hji : j = i
    · subst hji
      rw [Function.update_self, Function.update_self]
      exact .used rfl hrel rfl ConnPc.noConfusion rfl
    · rw [Function.update_of_ne hji, Function.update_of_ne hji]
      exact h.slot j hj
  · intro j hj hc
    change (Function.update s.thread i _ j).pc.connected = true at hc
    change Function.update s.owner csd _ (Function.update s.thread i _ j).s = _
    by_cases hji : j = i
    · subst hji
      rw [Function.update_self, Function.update_self]
    · rw [Function.update_of_ne hji] at hc ⊢
      rw [Function.update_of_ne (hother j hj hc)]
      exact h.connOwner j hj hc
  · intro k c hc
    change c ∈ (Function.update s.listen l .accept k).csd at hc
    change Function.update s.owner csd _ c = _
    by_cases hk : k = l
    · subst hk
      rw [Function.update_self] at hc
      cases hc
    · rw [Function.update_of_ne hk] at hc
      have hk' := h.listenOwner k c hc
      have hne : c ≠ csd := by
        rintro rfl
        rw [hown] at hk'
        exact hk (SockOwner.listener.inj hk').symm
      rw [Function.update_of_ne hne]
      exact hk'
  · exact h.deleted
  · exact h.cleared
  · have hcount := countAt_update USock.flag s.usedsock ⟨csd, true, (s.usedsock i).needrelase⟩ hi
    rw [hflag] at hcount
    simp only [Bool.false_eq_true, if_false, if_true, Nat.add_zero] at hcount
    change s.httpUsers + 1 = (countAt USock.flag (Function.update s.usedsock i _) sockSum : Int)
    rw [h.users, hcount]
    rfl

/-- A thread that finds its own slot clears it. -/
theorem release (h : SlotInv s) (hi : i < sockSum) (hpc : (s.thread i).pc = .release)
    (hfind : s.findNum (s.thread i).s = some i) :
    SlotInv { (s.released (s.thread i).s).setThread i .exiting with
      cleared := s.cleared ++ [(i, s.findNum (s.thread i).s)] } := by
  obtain ⟨hflag, -, -⟩ := (h.slot i hi).used_of_serving (by rw [hpc]; rfl)
  unfold SlotSys.released
  simp only [hfind]
  constructor
  · intro j hj
    change SlotAt (Function.update s.usedsock i _ j) (Function.update s.thread i _ j)
    by_cases hji : j = i
    · subst hji
      rw [Function.update_self, Function.update_self]
      exact .ended rfl rfl (.inl rfl)
    · rw [Function.update_of_ne hji, Function.update_of_ne hji]
      exact h.slot j hj
  · exact forall_lt_update (P := fun k (c : ConnThread) ↦ c.pc.connected = true → s.owner c.s = .thread k)
      h.connOwner fun hc ↦ Bool.noConfusion hc
  · exact h.listenOwner
  · exact h.deleted
  · intro c hc
    rcases List.mem_append.mp hc with hold | hnew
    · exact h.cleared c hold
    · obtain rfl := List.mem_singleton.mp hnew
      rfl
  · have hcount := countAt_update USock.flag s.usedsock ⟨0, false, true⟩ hi
    rw [hflag] at hcount
    simp only [Bool.false_eq_true, if_false, if_true, Nat.add_zero] at hcount
    change s.httpUsers - 1 = (countAt USock.flag (Function.update s.usedsock i _) sockSum : Int)
    rw [h.users, ← hcount]
    omega

theorem exit (h : SlotInv s) (hi : i < sockSum) (hpc : (s.thread i).pc = .exiting) :
    SlotInv (s.setThread i .exited) where
  slot := by
    refine forall_lt_update (P := fun k c ↦ SlotAt (s.usedsock k) c) h.slot ?_
    cases h.slot i hi with
    | used _ _ hserving =>
        rw [hpc] at hserving
        cases hserving
    | ended hflag hrel _ => exact .ended hflag hrel (.inr rfl)
    | free _ _ hnone =>
        rw [hpc] at hnone
        cases hnone
  connOwner :=
    forall_lt_update (P := fun k (c : ConnThread) ↦ c.pc.connected = true → s.owner c.s = .thread k) h.connOwner
      fun hc ↦ Bool.noConfusion hc
  listenOwner := h.listenOwner
  deleted := h.deleted
  cleared := h.cleared
  users := h.users

/-- A listener that gives up its connection. -/
theorem drop (h : SlotInv s) {csd : Nat} (o : SockOwner) (hcsd : (s.listen l).csd = some csd) :
    SlotInv ((s.setOwner csd o).setListen l .accept) := by
  have hown := h.listenOwner l csd hcsd
  have hl : SlotInv (s.setListen l .accept) := h.setListen fun c hc ↦ absurd hc (by simp [ListenPc.csd])
  refine hl.setOwner (fun j hj hc he ↦ ?_) (fun k hk ↦ ?_)
  · change (s.thread j).s = csd at he
    have hj' := h.connOwner j hj hc
    rw [he, hown] at hj'
    cases hj'
  · change csd ∈ (Function.update s.listen l .accept k).csd at hk
    by_cases hkl : k = l
    · subst hkl
      rw [Function.update_self] at hk
      cases hk
    · rw [Function.update_of_ne hkl] at hk
      have hk' := h.listenOwner k csd hk
      rw [hown] at hk'
      exact hkl (SockOwner.listener.inj hk').symm

end SlotInv

/-! ## The steps -/

/-- Listener `l` takes connection `csd` and starts its thread. -/
def connect (l csd : Nat) : List SlotAct :=
  [.accept l csd, .listener l, .listener l, .listener l]

/-- The thread in slot `i` serves its connection, closes it and clears its slot. -/
def serveConnection (i : Nat) : List SlotAct := List.replicate 5 (.thread i true)

/-- The slot is cleared between the two sections of the listener: the new thread in it is marked for
deletion. -/
theorem new_thread_marked_for_deletion :
    ∃ s, slotMachine.run (connect 0 3 ++ [.accept 0 4, .listener 0] ++ serveConnection 0 ++
        [.listener 0, .listener 0]) = some s ∧
      (s.thread 0).pc = .fdopen ∧ ¬ SlotsOwned s :=
  ⟨_, rfl, rfl, fun h ↦ absurd (h.noRelease 0 (by decide) rfl) (by decide)⟩

/-- The thread in slot 1 closes its socket, whose number goes to a connection in slot 0. -/
theorem reused_number_clears_other_slot :
    ∃ s, slotMachine.run (connect 0 3 ++ connect 0 4 ++ serveConnection 0 ++ [.thread 0 true] ++
        List.replicate 4 (.thread 1 true) ++ connect 0 4 ++ [.thread 1 true]) = some s ∧
      s.cleared = [(0, some 0), (1, some 0)] ∧ ¬ SlotsOwned s :=
  ⟨_, rfl, rfl, fun h ↦ absurd (h.cleared (1, some 0) (by decide)) (by decide)⟩

end PrintServer.Http
