import PrintServer.Lpd.HoldFlag

/-!
# The hold flag along a run
-/

namespace PrintServer.Lpd

open Lib

variable {s u : HoldSys} {t i : Nat} {pc pc' : TaskPc}

namespace HoldSys

@[simp] theorem slot_setSlot_self (x : Slot) : (s.setSlot i x).slot i = x := by
  simp [setSlot]

theorem slot_setSlot_of_ne {j : Nat} (h : j ≠ i) (x : Slot) :
    (s.setSlot i x).slot j = s.slot j := by
  simp [setSlot, h]

@[simp] theorem slot_close (sock : Nat) : (s.close sock).slot = s.slot := rfl

@[simp] theorem task_setTask_self : ((s.setTask i pc).slot i).task = pc := by
  simp [setTask]

theorem slot_setTask_of_ne {j : Nat} (h : j ≠ i) : (s.setTask i pc).slot j = s.slot j :=
  slot_setSlot_of_ne h _

@[simp] theorem needRelease_setTask (j : Nat) :
    ((s.setTask i pc).slot j).needRelease = (s.slot j).needRelease := by
  by_cases h : j = i
  · subst h; simp [setTask]
  · rw [slot_setTask_of_ne h]

end HoldSys

/-- Storing the abort bit keeps the hold bit of the value that was loaded. -/
theorem holded_or_abort (v : UInt8) :
    (v ||| unixHoldAbort) &&& unixHolded = v &&& unixHolded := by
  apply UInt8.toBitVec_inj.mp
  simp only [UInt8.toBitVec_and, UInt8.toBitVec_or, unixHoldAbort, unixHolded]
  ext k hk
  rcases k with _ | _ | k <;> simp

/-- The slot that the task is about to free. -/
def TaskPc.frees : TaskPc → Option Nat
  | .clearFlag i | .setNeedRelease i => some i
  | _ => Option.none

/-- The flag is owned, a task frees its own slot, and only an ended task waits for deletion. -/
structure HoldInv (s : HoldSys) : Prop where
  owned : HoldFlagOwned s
  ownSlot : ∀ t < lprTask, ∀ i, (s.slot t).task.frees = some i → i = t
  released : ∀ i < lprTask, (s.slot i).needRelease = true → (s.slot i).task = .exited

theorem holdStart_inv : HoldInv holdStart where
  owned := fun h ↦ absurd h (by decide)
  ownSlot := fun t _ i h ↦ by cases h
  released := fun i _ h ↦ by cases h

namespace HoldInv

/-- Nothing but the flag and the open sockets changes, and the flag is not set by the change. -/
theorem frame (hs : HoldInv s) (hslot : u.slot = s.slot)
    (hlis : s.listener.starting = true → u.listener.starting = true)
    (hhold : u.holded = true → s.holded = true) : HoldInv u where
  owned := by
    intro h
    rw [hslot]
    rcases hs.owned (hhold h) with hl | ht
    · exact Or.inl (hlis hl)
    · exact Or.inr ht
  ownSlot := by rw [hslot]; exact hs.ownSlot
  released := by rw [hslot]; exact hs.released

/-- While a connection is being started the flag may be set. -/
theorem starting (hs : HoldInv s) (hslot : u.slot = s.slot)
    (hlis : u.listener.starting = true) : HoldInv u where
  owned := fun _ ↦ Or.inl hlis
  ownSlot := by rw [hslot]; exact hs.ownSlot
  released := by rw [hslot]; exact hs.released

/-- A live task moves on, and does not leave `hold_job` while the flag is set. -/
theorem setTask (hs : HoldInv s) (ht : t < lprTask) (hpc : (s.slot t).task = pc)
    (hlive : pc ≠ .exited) (hhold : pc.holding = true → pc'.holding = true)
    (hown : ∀ i, pc'.frees = some i → i = t) : HoldInv (s.setTask t pc') where
  owned := by
    intro h
    rcases hs.owned h with hl | ⟨j, hj, hjh⟩
    · exact Or.inl hl
    · by_cases hjt : j = t
      · subst hjt
        rw [hpc] at hjh
        exact Or.inr ⟨j, hj, by rw [HoldSys.task_setTask_self]; exact hhold hjh⟩
      · exact Or.inr ⟨j, hj, by rw [HoldSys.slot_setTask_of_ne hjt]; exact hjh⟩
  ownSlot := by
    intro j hj i h
    by_cases hjt : j = t
    · subst hjt
      rw [HoldSys.task_setTask_self] at h
      exact hown i h
    · rw [HoldSys.slot_setTask_of_ne hjt] at h
      exact hs.ownSlot j hj i h
  released := by
    intro j hj h
    rw [HoldSys.needRelease_setTask] at h
    have hexit := hs.released j hj h
    have hjt : j ≠ t := fun hjt ↦ hlive (hpc ▸ hjt ▸ hexit)
    rw [HoldSys.slot_setTask_of_ne hjt]
    exact hexit

/-- The task clears the flag as it moves on. -/
theorem clearHold (hs : HoldInv s) (ht : t < lprTask) (hpc : (s.slot t).task = pc)
    (hlive : pc ≠ .exited) (hown : ∀ i, pc'.frees = some i → i = t) :
    HoldInv { s.setTask t pc' with unixHold := 0 } where
  owned := fun h ↦ absurd h (by simp [HoldSys.holded])
  ownSlot := by
    intro j hj i h
    by_cases hjt : j = t
    · subst hjt
      exact hown i (by simpa using h)
    · have hj' : (s.setTask t pc').slot j = s.slot j := HoldSys.slot_setTask_of_ne hjt
      exact hs.ownSlot j hj i (by simpa [hj'] using h)
  released := by
    intro j hj h
    have hexit := hs.released j hj (by simpa using h)
    have hjt : j ≠ t := fun hjt ↦ hlive (hpc ▸ hjt ▸ hexit)
    show ((s.setTask t pc').slot j).task = .exited
    rw [HoldSys.slot_setTask_of_ne hjt]
    exact hexit

/-- The other fields of a slot are no part of the invariant. -/
theorem setSlot (hs : HoldInv s) (x : Slot) (htask : x.task = (s.slot i).task)
    (hrel : x.needRelease = (s.slot i).needRelease) : HoldInv (s.setSlot i x) := by
  have htask' : ∀ j, ((s.setSlot i x).slot j).task = (s.slot j).task := by
    intro j
    by_cases hj : j = i
    · subst hj; simp [htask]
    · rw [HoldSys.slot_setSlot_of_ne hj]
  have hrel' : ∀ j, ((s.setSlot i x).slot j).needRelease = (s.slot j).needRelease := by
    intro j
    by_cases hj : j = i
    · subst hj; simp [hrel]
    · rw [HoldSys.slot_setSlot_of_ne hj]
  exact
    { owned := fun h ↦ by simp only [htask']; exact hs.owned h
      ownSlot := fun j hj k ↦ by rw [htask']; exact hs.ownSlot j hj k
      released := fun j hj ↦ by rw [htask', hrel']; exact hs.released j hj }

theorem close (hs : HoldInv s) (sock : Nat) : HoldInv (s.close sock) :=
  hs.frame rfl id id

/-- A task that has left `hold_job` marks its own slot for deletion and ends. -/
theorem releaseSlot (hs : HoldInv s) (ht : t < lprTask)
    (hleft : (s.slot t).task.holding = false) :
    HoldInv ((s.setSlot t { s.slot t with needRelease := true }).setTask t .exited) := by
  have hother : ∀ j, j ≠ t →
      ((s.setSlot t { s.slot t with needRelease := true }).setTask t .exited).slot j = s.slot j :=
    fun j hj ↦ by rw [HoldSys.slot_setTask_of_ne hj, HoldSys.slot_setSlot_of_ne hj]
  exact
    { owned := by
        intro h
        rcases hs.owned h with hl | ⟨j, hj, hjh⟩
        · exact Or.inl hl
        · have hjt : j ≠ t := by
            rintro rfl
            rw [hleft] at hjh
            cases hjh
          exact Or.inr ⟨j, hj, by rw [hother j hjt]; exact hjh⟩
      ownSlot := by
        intro j hj k h
        by_cases hjt : j = t
        · subst hjt
          rw [HoldSys.task_setTask_self] at h
          cases h
        · rw [hother j hjt] at h
          exact hs.ownSlot j hj k h
      released := by
        intro j hj h
        by_cases hjt : j = t
        · subst hjt
          exact HoldSys.task_setTask_self
        · rw [hother j hjt] at h ⊢
          exact hs.released j hj h }

/-- The listener deletes an ended task: the flag was not its. -/
theorem deleteTask (hs : HoldInv s) (hi : i < lprTask) (hrel : (s.slot i).needRelease = true) :
    HoldInv (s.setSlot i { s.slot i with needRelease := false, task := .none }) where
  owned := by
    intro h
    have hexit := hs.released i hi hrel
    rcases hs.owned h with hl | ⟨j, hj, hjh⟩
    · exact Or.inl hl
    · have hji : j ≠ i := by
        rintro rfl
        rw [hexit] at hjh
        cases hjh
      exact Or.inr ⟨j, hj, by rw [HoldSys.slot_setSlot_of_ne hji]; exact hjh⟩
  ownSlot := by
    intro j hj k h
    by_cases hji : j = i
    · subst hji
      rw [HoldSys.slot_setSlot_self] at h
      cases h
    · rw [HoldSys.slot_setSlot_of_ne hji] at h
      exact hs.ownSlot j hj k h
  released := by
    intro j hj h
    by_cases hji : j = i
    · subst hji
      rw [HoldSys.slot_setSlot_self] at h
      cases h
    · rw [HoldSys.slot_setSlot_of_ne hji] at h ⊢
      exact hs.released j hj h

/-- The listener starts a task in a slot without one, and the flag goes over to it. -/
theorem startTask (hs : HoldInv s) (hi : i < lprTask) (hnone : (s.slot i).task = .none)
    (sock : Nat) :
    HoldInv { s.setSlot i { s.slot i with
        num := sock, flag := true, task := .command 0, remote := sock } with
      listener := .accept } where
  owned := by
    intro _
    refine Or.inr ⟨i, hi, ?_⟩
    show ((s.setSlot i _).slot i).task.holding = true
    rw [HoldSys.slot_setSlot_self]
    rfl
  ownSlot := by
    intro j hj k h
    change ((s.setSlot i _).slot j).task.frees = some k at h
    by_cases hji : j = i
    · subst hji
      rw [HoldSys.slot_setSlot_self] at h
      cases h
    · rw [HoldSys.slot_setSlot_of_ne hji] at h
      exact hs.ownSlot j hj k h
  released := by
    intro j hj h
    change ((s.setSlot i _).slot j).needRelease = true at h
    show ((s.setSlot i _).slot j).task = .exited
    by_cases hji : j = i
    · subst hji
      rw [HoldSys.slot_setSlot_self] at h
      have hexit := hs.released j hj h
      rw [hnone] at hexit
      cases hexit
    · rw [HoldSys.slot_setSlot_of_ne hji] at h ⊢
      exact hs.released j hj h

end HoldInv

/-! ## abort_job -/

theorem HoldInv.abortStep {a : AbortPc} (hs : HoldInv s) (ha : a.Fresh s) :
    HoldInv (abortStep s a).1 ∧ (Lpd.abortStep s a).1.slot = s.slot ∧
      (Lpd.abortStep s a).1.listener = s.listener := by
  cases a with
  | readHold => exact ⟨hs, rfl, rfl⟩
  | load => exact ⟨hs, rfl, rfl⟩
  | store v =>
      refine ⟨hs.frame rfl id fun h ↦ ?_, rfl, rfl⟩
      apply ha
      have hbit : (v ||| unixHoldAbort) &&& unixHolded ≠ 0 := of_decide_eq_true h
      rw [holded_or_abort] at hbit
      exact hbit

/-! ## The steps of the listener -/

theorem listenerStep_inv {c : ListenerChoice} (hs : HoldInv s) (hok : HoldOk s (.listener c))
    (hstep : listenerStep s s.listener c = some u) : HoldInv u := by
  cases hl : s.listener with
  | accept =>
      rw [hl] at hstep
      cases c <;> simp only [listenerStep, reduceCtorEq] at hstep
      obtain ⟨-, hst⟩ := Option.ite_none_right_eq_some.mp hstep
      obtain rfl := Option.some.inj hst
      exact hs.frame rfl (fun h ↦ by rw [hl] at h; cases h) id
  | checkServiceMode sock =>
      rw [hl] at hstep
      have hidle : ¬ s.listener.starting = true := by rw [hl]; exact Bool.false_ne_true
      cases c <;> simp only [listenerStep, reduceCtorEq] at hstep
      case receiveCommand =>
        split at hstep <;> obtain rfl := Option.some.inj hstep
        · exact (hs.close sock).frame rfl (fun h ↦ absurd h hidle) id
        · exact hs.frame rfl (fun h ↦ absurd h hidle) id
      all_goals
        obtain rfl := Option.some.inj hstep
        exact hs.frame rfl (fun h ↦ absurd h hidle) id
  | loadHold sock =>
      rw [hl] at hstep
      cases c <;> simp only [listenerStep, reduceCtorEq] at hstep
      obtain rfl := Option.some.inj hstep
      exact hs.frame rfl (fun h ↦ by rw [hl] at h; cases h) id
  | storeHold sock v =>
      rw [hl] at hstep
      cases c <;> simp only [listenerStep, reduceCtorEq] at hstep
      obtain rfl := Option.some.inj hstep
      exact hs.starting rfl rfl
  | abortJob sock a =>
      rw [hl] at hstep
      have hidle : ¬ s.listener.starting = true := by rw [hl]; exact Bool.false_ne_true
      cases c <;> simp only [listenerStep, reduceCtorEq] at hstep
      -- what the unlocked update stores is what the flag still is
      have ha : a.Fresh s := by
        cases a with
        | store v =>
            simp only [HoldOk, hl] at hok
            exact hok
        | readHold => trivial
        | load => trivial
      obtain ⟨hinv, -, hlis⟩ := hs.abortStep ha
      split at hstep
      all_goals
        rename_i heq
        rw [heq] at hinv hlis
        obtain rfl := Option.some.inj hstep
        exact hinv.frame rfl (fun h ↦ absurd (hlis ▸ h) hidle) id
  | availmem sock =>
      rw [hl] at hstep
      cases c <;> simp only [listenerStep, reduceCtorEq] at hstep
      simp only [HoldOk, hl] at hok
      rw [hok] at hstep
      obtain rfl := Option.some.inj hstep
      exact hs.starting rfl rfl
  | deleteTasks sock j =>
      rw [hl] at hstep
      cases c <;> simp only [listenerStep, reduceCtorEq] at hstep
      split at hstep
      · rename_i hj
        obtain rfl := Option.some.inj hstep
        split
        · rename_i hrel
          -- only a slot whose task has set `NeedRelease` is cleared
          exact (hs.deleteTask hj hrel).starting rfl rfl
        · exact hs.starting rfl rfl
      · obtain rfl := Option.some.inj hstep
        exact hs.starting rfl rfl
  | findFree sock j =>
      rw [hl] at hstep
      cases c <;> simp only [listenerStep, reduceCtorEq] at hstep
      simp only [HoldOk, hl] at hok
      obtain ⟨hj, hfree⟩ := hok
      rw [if_pos hj] at hstep
      split at hstep
      · obtain rfl := Option.some.inj hstep
        exact hs.starting rfl rfl
      · -- a slot without a task takes the new one
        rename_i hflag
        obtain rfl := Option.some.inj hstep
        exact hs.startTask hj (hfree (Bool.eq_false_iff.mpr hflag)) sock

/-! ## The steps of a task -/

theorem taskStep_inv {c : TaskChoice} (hs : HoldInv s) (ht : t < lprTask)
    (hok : HoldOk s (.task t c)) (hstep : taskStep s t (s.slot t).task c = some u) :
    HoldInv u := by
  cases hpc : (s.slot t).task with
  | none =>
      rw [hpc] at hstep
      cases c <;> simp only [taskStep, reduceCtorEq] at hstep
  | exited =>
      rw [hpc] at hstep
      cases c <;> simp only [taskStep, reduceCtorEq] at hstep
  | command n =>
      rw [hpc] at hstep
      have hhold : (TaskPc.command n).holding = true → n = 0 := of_decide_eq_true
      cases c <;> simp only [taskStep, reduceCtorEq] at hstep
      case disconnect =>
        obtain rfl := Option.some.inj hstep
        -- a task that holds the flag has not lost its connection
        have hn : n ≠ 0 := by
          simp only [HoldOk, hpc] at hok
          exact hok
        exact hs.setTask ht hpc nofun (fun h ↦ absurd (hhold h) hn) nofun
      case dataFile =>
        obtain rfl := Option.some.inj hstep
        refine hs.setTask ht hpc nofun (fun h ↦ ?_) (fun i h ↦ ?_)
        · rw [if_pos (hhold h)]
          rfl
        · split at h <;> cases h
      all_goals
        obtain rfl := Option.some.inj hstep
        exact hs.setTask ht hpc nofun (fun h ↦ decide_eq_true (hhold h)) nofun
  | abortJob n a =>
      rw [hpc] at hstep
      cases c <;> simp only [taskStep, reduceCtorEq] at hstep
      -- as in the listener
      have ha : a.Fresh s := by
        cases a with
        | store v =>
            simp only [HoldOk, hpc] at hok
            exact hok
        | readHold => trivial
        | load => trivial
      obtain ⟨hinv, hslot, -⟩ := hs.abortStep ha
      split at hstep
      all_goals
        rename_i heq
        rw [heq] at hinv hslot
        obtain rfl := Option.some.inj hstep
        have htask : (HoldSys.slot _ t).task = TaskPc.abortJob n a := hslot.symm ▸ hpc
        exact hinv.setTask ht htask nofun id nofun
  | holdTest =>
      rw [hpc] at hstep
      cases c <;> simp only [taskStep, reduceCtorEq] at hstep
      split at hstep <;> obtain rfl := Option.some.inj hstep
      · exact hs.clearHold ht hpc nofun nofun
      · exact hs.setTask ht hpc nofun (fun _ ↦ rfl) nofun
  | holdAbortTest =>
      rw [hpc] at hstep
      cases c <;> simp only [taskStep, reduceCtorEq] at hstep
      simp only [HoldOk, hpc] at hok
      -- no abort is set, so the wait ends only where the flag is cleared
      rw [hok, if_neg Bool.false_ne_true] at hstep
      split at hstep <;> obtain rfl := Option.some.inj hstep
      · exact hs.clearHold ht hpc nofun nofun
      · exact hs.setTask ht hpc nofun (fun _ ↦ rfl) nofun
  | abortTest n =>
      rw [hpc] at hstep
      cases c <;> simp only [taskStep, reduceCtorEq] at hstep
      obtain rfl := Option.some.inj hstep
      refine hs.setTask ht hpc nofun nofun (fun i h ↦ ?_)
      split at h <;> cases h
  | unHold =>
      rw [hpc] at hstep
      cases c <;> simp only [taskStep, reduceCtorEq] at hstep
      obtain rfl := Option.some.inj hstep
      exact hs.clearHold ht hpc nofun nofun
  | receive n =>
      rw [hpc] at hstep
      cases c <;> simp only [taskStep, reduceCtorEq] at hstep
      obtain rfl := Option.some.inj hstep
      refine hs.setTask ht hpc nofun nofun (fun i h ↦ ?_)
      split at h <;> cases h
  | setNoUse =>
      rw [hpc] at hstep
      cases c <;> simp only [taskStep, reduceCtorEq] at hstep
      obtain rfl := Option.some.inj hstep
      exact hs.setTask ht hpc nofun nofun nofun
  | fclose =>
      rw [hpc] at hstep
      cases c <;> simp only [taskStep, reduceCtorEq] at hstep
      obtain rfl := Option.some.inj hstep
      exact (hs.close _).setTask ht hpc nofun nofun nofun
  | findSlot =>
      rw [hpc] at hstep
      cases c <;> simp only [taskStep, reduceCtorEq] at hstep
      simp only [HoldOk, hpc] at hok
      -- the search by the socket finds the task's own slot
      rw [hok] at hstep
      obtain rfl := Option.some.inj hstep
      have htask : ((s.setSlot t { s.slot t with num := 0 }).slot t).task = .findSlot := by
        rw [HoldSys.slot_setSlot_self]
        exact hpc
      have hset : HoldInv (s.setSlot t { s.slot t with num := 0 }) := hs.setSlot _ rfl rfl
      exact hset.setTask ht htask nofun nofun fun i h ↦ (Option.some.inj h).symm
  | clearFlag j =>
      rw [hpc] at hstep
      cases c <;> simp only [taskStep, reduceCtorEq] at hstep
      obtain rfl := hs.ownSlot t ht j (by rw [hpc]; rfl)
      obtain rfl := Option.some.inj hstep
      have htask : ((s.setSlot j { s.slot j with flag := false }).slot j).task = .clearFlag j := by
        rw [HoldSys.slot_setSlot_self]
        exact hpc
      have hset : HoldInv (s.setSlot j { s.slot j with flag := false }) := hs.setSlot _ rfl rfl
      exact hset.setTask ht htask nofun nofun fun i h ↦ (Option.some.inj h).symm
  | setNeedRelease j =>
      rw [hpc] at hstep
      cases c <;> simp only [taskStep, reduceCtorEq] at hstep
      obtain rfl := hs.ownSlot t ht j (by rw [hpc]; rfl)
      obtain rfl := Option.some.inj hstep
      exact hs.releaseSlot ht (by rw [hpc]; rfl)

/-! ## Every run -/

theorem holdStep_inv {a : HoldAct} (hs : HoldInv s) (hok : HoldOk s a)
    (hstep : holdStep s a = some u) : HoldInv u := by
  cases a with
  | listener c => exact listenerStep_inv hs hok hstep
  | task t c =>
      obtain ⟨ht, hst⟩ := Option.ite_none_right_eq_some.mp hstep
      exact taskStep_inv hs ht hok hst

/-- In a run without the branches that lose the flag, somebody who will clear it has it; so it is
clear when no connection is being started and no task is left. -/
theorem hold_flag_owned_of_holdOk (acts : List HoldAct) {s : HoldSys}
    (hok : holdMachine.Along HoldOk holdStart acts) (hrun : holdMachine.run acts = some s) :
    HoldFlagOwned s ∧
      (s.listener.starting = false →
        (∀ t < lprTask, (s.slot t).task = .none ∨ (s.slot t).task = .exited) →
        s.holded = false) := by
  have hs : HoldInv s := Machine.run_invariant holdStart_inv (fun _ _ _ ↦ holdStep_inv) hok hrun
  refine ⟨hs.owned, fun hl hend ↦ ?_⟩
  by_contra hh
  rcases hs.owned (by simpa using hh) with h | ⟨t, ht, hth⟩
  · rw [hl] at h
    cases h
  · rcases hend t ht with h | h <;> rw [h] at hth <;> cases hth

/-- A job with one data file, and a second connection that is refused while the first one waits for
the port. -/
theorem hold_flag_owned_two_connections :
    ∃ s, holdMachine.run [.listener (.accepted 5), .listener .receiveCommand, .listener .go,
        .listener .go, .listener (.lowMemory false), .listener .go, .listener .go, .listener .go,
        .listener .go, .task 0 .dataFile, .task 0 (.portFree false), .listener (.accepted 6),
        .listener .receiveCommand, .task 0 (.portFree true), .task 0 .go, .task 0 (.received true),
        .task 0 .disconnect, .task 0 .go, .task 0 .go, .task 0 .go, .task 0 .go, .task 0 .go]
          = some s ∧ (s.slot 0).task = .exited ∧ s.holded = false ∧ HoldFlagOwned s :=
  ⟨_, rfl, rfl, rfl, (hold_flag_owned_of_holdOk [.listener (.accepted 5),
    .listener .receiveCommand, .listener .go, .listener .go, .listener (.lowMemory false),
    .listener .go, .listener .go, .listener .go, .listener .go, .task 0 .dataFile,
    .task 0 (.portFree false), .listener (.accepted 6), .listener .receiveCommand,
    .task 0 (.portFree true), .task 0 .go, .task 0 (.received true), .task 0 .disconnect,
    .task 0 .go, .task 0 .go, .task 0 .go, .task 0 .go, .task 0 .go] (by decide) rfl).1⟩

/-- A client sends the receive-job command and leaves: its task ends with the flag set. -/
theorem early_disconnect_leaks_hold :
    ∃ s, holdMachine.run [.listener (.accepted 5), .listener .receiveCommand, .listener .go,
        .listener .go, .listener (.lowMemory false), .listener .go, .listener .go, .listener .go,
        .listener .go, .task 0 .disconnect, .task 0 .go, .task 0 .go, .task 0 .go, .task 0 .go,
        .task 0 .go] = some s ∧ s.listener = .accept ∧ (s.slot 0).task = .exited ∧
      (s.slot 1).task = .none ∧ s.holded = true ∧ ¬ HoldFlagOwned s := by
  refine ⟨_, rfl, rfl, rfl, rfl, rfl, fun h ↦ ?_⟩
  rcases h rfl with hl | ⟨t, ht, hth⟩
  · cases hl
  · rcases t with _ | _ | t
    · cases hth
    · cases hth
    · exact absurd ht (by simp [lprTask])

end PrintServer.Lpd
