import PrintServer.Atalk.PapdSessions

/-!
# The steps of papd

Up to `cyg_thread_create` no thread but a deleted one changes, and no flag is cleared that one has
set; what `cyg_thread_create` and `cyg_thread_resume` do is known by the number of the last thread.
-/

namespace PrintServer.Papd

open Lib Port Spooler

variable {s s' : PapSys} {t i : Nat} {r : OpenRequest} {c : PapdInput}

/-! ## Threads and slots -/

theorem Inv.started (hi : Inv s) (hresume : ∀ i, s.papd ≠ .resume i) (hwait : s.papd ≠ .wait)
    (ht : t < s.created) : (s.thread t).pc ≠ .suspended ∧ (s.thread t).pc ≠ .start ∧
      (s.thread t).pc ≠ .post := by
  have hawaited := (hi.threads t ht).awaited
  refine ⟨fun hpc ↦ ?_, fun hpc ↦ ?_, fun hpc ↦ ?_⟩
  · rw [hpc] at hawaited
    exact hresume _ hawaited.1
  · rw [hpc] at hawaited
    exact hwait hawaited.1
  · rw [hpc] at hawaited
    exact hwait hawaited.1

theorem awaited_of_started {pc : SessionPc}
    (h : pc ≠ .suspended ∧ pc ≠ .start ∧ pc ≠ .post) : s.Awaited t pc := by
  cases pc with
  | suspended => exact absurd rfl h.1
  | start => exact absurd rfl h.2.1
  | post => exact absurd rfl h.2.2
  | _ => trivial

/-- What is known of a thread, said of its record. -/
theorem PapSys.ThreadOk.of_thread {th : Session} (hthread : s'.thread t = th)
    (hrequest : th.request < s'.requests) (hhandle : th.pc.ended = false → s'.handle th.slot = t)
    (hflag : th.pc.holds = true → (s'.sock th.slot).flag = true) (hmemory : th.pc ≠ .returned)
    (hawaited : s'.Awaited t th.pc)
    (hserved : th.pc ≠ .suspended → th.pc ≠ .start →
      th.atp = some th.request ∧ th.connid = (s'.request th.request).connid)
    (hreleased : th.released = th.pc.releases) (hjob : th.pc.leaving = true → th.jobOpen = false) :
    s'.ThreadOk t := by
  subst hthread
  exact ⟨hrequest, hhandle, hflag, hmemory, hawaited, hserved, hreleased, hjob⟩

/-- A thread that `papd` leaves alone. -/
theorem PapSys.ThreadOk.frame (h : s.ThreadOk t) (hthread : s'.thread t = s.thread t)
    (hhandle : (s.thread t).pc.ended = false →
      s'.handle (s.thread t).slot = s.handle (s.thread t).slot)
    (hflag : (s.sock (s.thread t).slot).flag = true → (s'.sock (s.thread t).slot).flag = true)
    (hrequests : s.requests ≤ s'.requests)
    (hconn : ∀ r < s.requests, (s'.request r).connid = (s.request r).connid)
    (hawaited : s'.Awaited t (s.thread t).pc) : s'.ThreadOk t := by
  apply PapSys.ThreadOk.of_thread hthread
  · exact Nat.lt_of_lt_of_le h.request_lt hrequests
  · intro hend
    rw [hhandle hend]
    exact h.handle hend
  · exact fun hholds ↦ hflag (h.flag hholds)
  · exact h.memory
  · exact hawaited
  · rw [hconn _ h.request_lt]
    exact h.served
  · exact h.released
  · exact h.job

/-- The thread of a slot whose `needrelase` is set, and that is not on its way out, has ended. -/
theorem PapSys.SlotOk.ended (h : s.SlotOk i) (hneed : (s.sock i).needrelase = true)
    (hleft : s.NoneLeaving i) : (s.thread (s.handle i)).pc.ended = true := by
  obtain ⟨hlt, hslot, hend⟩ := h hneed
  exact hend.resolve_left (hleft _ hlt hslot).2

/-- The threads of a slot without `flag`, none of which is on its way out, have ended. -/
theorem Inv.vacant (hi : Inv s) (hflag : (s.sock i).flag = false) (hleft : s.NoneLeaving i)
    (hneed : (s.sock i).needrelase = false) : s.Vacant i := by
  refine ⟨hneed, fun t ht hslot ↦ ?_⟩
  have hholds : (s.thread t).pc.holds = false := by
    by_contra hholds
    have hset := (hi.threads t ht).flag (by simpa using hholds)
    rw [hslot, hflag] at hset
    contradiction
  obtain ⟨hneedrelase, hexit⟩ := hleft t ht hslot
  cases hpc : (s.thread t).pc <;> simp_all

/-! ## Requests -/

theorem Inv.done_of_lt (hi : Inv s) {k : Nat} (hk : k < s.current) : Settled (s.request k) := by
  apply hi.settled
  exact ⟨Nat.lt_of_lt_of_le hk (Nat.sub_le _ _), .inl hk⟩

/-- A step of `papd` that leaves the threads alone, clears no `flag` and sets no `needrelase`. -/
structure PapSys.Keeps (s s' : PapSys) : Prop where
  threads : s'.thread = s.thread ∧ s'.handle = s.handle ∧ s'.created = s.created
  records : s'.reused = s.reused ∧ s'.deletedAt = s.deletedAt
  flag : ∀ i, (s.sock i).flag = true → (s'.sock i).flag = true
  needrelase : ∀ i, (s'.sock i).needrelase = true → (s.sock i).needrelase = true

theorem Inv.of_progress (hi : Inv s) (hkeeps : s.Keeps s')
    (hpapd : (∀ i, s.papd ≠ .resume i) ∧ s.papd ≠ .wait)
    (hrequests : s.requests ≤ s'.requests)
    (hconn : ∀ r < s.requests, (s'.request r).connid = (s.request r).connid)
    (hsettled : ∀ r, s'.Done r → Settled (s'.request r))
    (hcurrent : s'.papd ≠ .accept → 0 < s'.requests ∧
      s'.connid = (s'.request s'.current).connid ∧
      s'.Progress (s'.request s'.current) s'.papd) : Inv s' := by
  obtain ⟨⟨hthread, hhandle, hcreated⟩, ⟨hreused, hdeleted⟩, hflag, hneed⟩ := hkeeps
  constructor
  · exact hsettled
  · exact hcurrent
  · intro t ht
    rw [hcreated] at ht
    apply (hi.threads t ht).frame (congrFun hthread t) (fun _ ↦ congrFun hhandle _) (hflag _)
      hrequests hconn
    exact awaited_of_started (hi.started hpapd.1 hpapd.2 ht)
  · intro j hset
    rw [hhandle, hcreated, hthread]
    exact hi.slots j (hneed j hset)
  · rw [hreused, hdeleted]
    exact hi.stackEnds

/-- The same where `papd` stays at its request. -/
theorem Inv.of_stays (hi : Inv s) (hkeeps : s.Keeps s')
    (hpapd : (∀ i, s.papd ≠ .resume i) ∧ s.papd ≠ .wait)
    (hactive : s.papd ≠ .accept ∧ s'.papd ≠ .accept)
    (hrequests : s'.requests = s.requests ∧ s'.connid = s.connid)
    (hother : ∀ k, k ≠ s.current → s'.request k = s.request k)
    (hconn : (s'.request s.current).connid = (s.request s.current).connid)
    (hprogress : s'.Progress (s'.request s.current) s'.papd) : Inv s' := by
  obtain ⟨hpos, hconnid, -⟩ := hi.current hactive.1
  have hcur : s'.current = s.current := by rw [PapSys.current, PapSys.current, hrequests.1]
  refine hi.of_progress hkeeps hpapd (Nat.le_of_eq hrequests.1.symm) ?_ ?_ ?_
  · intro k _
    by_cases hk : k = s.current
    · rw [hk, hconn]
    · rw [hother k hk]
  · rintro k ⟨_, hlt | hacc⟩
    · rw [hcur] at hlt
      rw [hother k (Nat.ne_of_lt hlt)]
      exact hi.done_of_lt hlt
    · exact absurd hacc hactive.2
  · intro _
    rw [hrequests.1, hrequests.2, hcur, hconn]
    exact ⟨hpos, hconnid, hprogress⟩

/-- The same where `papd` only changes variables of its own. -/
theorem Inv.goesOn (hi : Inv s) {pc : PapdPc} {err : Nat} {curAtp : Option Nat} {semaphore : Nat}
    (hpapd : (∀ i, s.papd ≠ .resume i) ∧ s.papd ≠ .wait)
    (hactive : s.papd ≠ .accept ∧ pc ≠ .accept)
    (hprogress : PapSys.Progress
      { s with papd := pc, err := err, curAtp := curAtp, semaphore := semaphore }
      (s.request s.current) pc) :
    Inv { s with papd := pc, err := err, curAtp := curAtp, semaphore := semaphore } :=
  hi.of_stays ⟨⟨rfl, rfl, rfl⟩, ⟨rfl, rfl⟩, fun _ h ↦ h, fun _ h ↦ h⟩ hpapd hactive ⟨rfl, rfl⟩
    (fun _ _ ↦ rfl) rfl hprogress

/-- The same where the record of its request changes. -/
theorem Inv.notes (hi : Inv s) {pc : PapdPc} {inUse : UInt8} {r : OpenRequest}
    (hpapd : (∀ i, s.papd ≠ .resume i) ∧ s.papd ≠ .wait)
    (hactive : s.papd ≠ .accept ∧ pc ≠ .accept) (hconn : r.connid = (s.request s.current).connid)
    (hprogress : PapSys.Progress { s.setRequest r with papd := pc, inUse := inUse } r pc) :
    Inv { s.setRequest r with papd := pc, inUse := inUse } := by
  have hnew : (s.setRequest r).request s.current = r := Function.update_self ..
  refine hi.of_stays ⟨⟨rfl, rfl, rfl⟩, ⟨rfl, rfl⟩, fun _ h ↦ h, fun _ h ↦ h⟩ hpapd hactive
    ⟨rfl, rfl⟩ (fun k hk ↦ Function.update_of_ne hk ..) ?_ ?_
  · show ((s.setRequest r).request s.current).connid = _
    rw [hnew, hconn]
  · show PapSys.Progress _ ((s.setRequest r).request s.current) pc
    rw [hnew]
    exact hprogress

/-- The request is given up: `papd` accepts the next one. -/
theorem Inv.givesUp (hi : Inv s) {err : Nat} (hpapd : (∀ i, s.papd ≠ .resume i) ∧ s.papd ≠ .wait)
    (hend : Settled (s.request s.current)) : Inv { s.giveUp with err := err } := by
  refine hi.of_progress ⟨⟨rfl, rfl, rfl⟩, ⟨rfl, rfl⟩, fun _ h ↦ h, fun _ h ↦ h⟩ hpapd
    (Nat.le_refl _) (fun _ _ ↦ rfl) ?_ (fun hne ↦ absurd rfl hne)
  rintro k ⟨hk, -⟩
  have hk : k < s.requests := hk
  show Settled (s.request k)
  by_cases hlt : k < s.current
  · exact hi.done_of_lt hlt
  · have heq : k = s.current := by
      unfold PapSys.current at hlt ⊢
      omega
    rw [heq]
    exact hend

/-! ## The statements -/

theorem Inv.openRequest (hi : Inv s) (hpc : s.papd = .accept) (connid : UInt8) :
    Inv { s with
      papd := .test, connid := connid, requests := s.requests + 1
      request := Function.update s.request s.requests ⟨connid, none, 0, 0⟩ } := by
  have hself : Function.update s.request s.requests ⟨connid, none, 0, 0⟩ s.requests =
      (⟨connid, none, 0, 0⟩ : OpenRequest) := Function.update_self ..
  have hother : ∀ k < s.requests,
      Function.update s.request s.requests ⟨connid, none, 0, 0⟩ k = s.request k :=
    fun k hk ↦ Function.update_of_ne (Nat.ne_of_lt hk) ..
  refine hi.of_progress ⟨⟨rfl, rfl, rfl⟩, ⟨rfl, rfl⟩, fun _ h ↦ h, fun _ h ↦ h⟩ ?_ (Nat.le_succ _)
    ?_ ?_ ?_
  · rw [hpc]
    exact ⟨nofun, nofun⟩
  · intro k hk
    exact congrArg OpenRequest.connid (hother k hk)
  · rintro k ⟨-, hlt | hacc⟩
    · have hk : k < s.requests := hlt
      show Settled (Function.update s.request s.requests ⟨connid, none, 0, 0⟩ k)
      rw [hother k hk]
      exact hi.settled k ⟨hk, .inr hpc⟩
    · cases hacc
  · intro _
    refine ⟨Nat.succ_pos _, ?_, ?_⟩
    · exact (congrArg OpenRequest.connid hself).symm
    · show PapSys.Progress _ (Function.update s.request s.requests ⟨connid, none, 0, 0⟩
        s.requests) .test
      rw [hself]
      exact ⟨rfl, rfl, rfl⟩

/-- The steps up to the lock. -/
theorem papdStep_front (hi : Inv s) (hok : Orderly s (.papd c)) (hc : c ≠ .go)
    (h : papdStep s c = some s') : Inv s' := by
  cases c with
  | go => exact absurd rfl hc
  | openRequest connid =>
      obtain ⟨hpc, h⟩ := Option.ite_none_right_eq_some.mp h
      obtain rfl := Option.some.inj h
      exact hi.openRequest hpc connid
  | otherRequest =>
      obtain ⟨-, h⟩ := Option.ite_none_right_eq_some.mp h
      obtain rfl := Option.some.inj h
      exact hi
  | status st =>
      obtain ⟨hpc, h⟩ := Option.ite_none_right_eq_some.mp h
      obtain rfl := Option.some.inj h
      have hprogress := (hi.current (by simp [hpc])).2.2
      rw [hpc] at hprogress
      refine hi.goesOn (by simp [hpc]) (by simp [hpc]) ⟨hprogress, fun href ↦ ?_⟩
      simp only [href, if_true]
      exact Nat.one_ne_zero
  | opened ok =>
      cases hpc : s.papd <;> simp only [papdStep, hpc, reduceCtorEq] at h
      case openAtp refused =>
        have hprogress := (hi.current (by simp [hpc])).2.2
        rw [hpc] at hprogress
        split at h
        · obtain rfl := Option.some.inj h
          exact hi.goesOn (by simp [hpc]) (by simp [hpc])
            ⟨hprogress.1, hprogress.2, fun _ ↦ rfl⟩
        -- without a socket the request is refused, whatever the test of the port said
        · obtain rfl := Option.some.inj h
          exact hi.goesOn (by simp [hpc]) (by simp [hpc]) ⟨hprogress.1, fun _ ↦ nofun, nofun⟩
  | sent ok =>
      cases hpc : s.papd <;> simp only [papdStep, hpc, reduceCtorEq] at h
      case reply refused =>
        have hprogress := (hi.current (by simp [hpc])).2.2
        rw [hpc] at hprogress
        obtain ⟨⟨hnone, hacquired, hsessions⟩, hrefused, hopened⟩ := hprogress
        split at h
        · rename_i hsent
          subst hsent
          obtain rfl := Option.some.inj h
          refine hi.notes (by simp [hpc]) (by simp [hpc]) rfl ?_
          cases refused with
          | true => exact ⟨⟨hacquired, hsessions⟩, .inl ⟨hrefused rfl, rfl⟩⟩
          -- here `err` has to be clear: a success with an old `err` would be given up
          | false => exact ⟨⟨hacquired, hsessions⟩, .inr ⟨hok hpc, rfl, hopened rfl⟩⟩
        · obtain rfl := Option.some.inj h
          exact hi.givesUp (by simp [hpc]) ⟨by omega, by omega, by simp [hnone, hsessions]⟩

/-! ## The loops over the slots -/

/-- The next pass of the first loop, or what is behind it. -/
theorem PapSys.Progress.nextReap (hcounts : r.acquired = 1 ∧ r.sessions = 0)
    (hreplied : r.replied = some true ∧ s.curAtp = some s.current) :
    s.Progress r (nextReap i) := by
  unfold Papd.nextReap
  split <;> exact ⟨hcounts, hreplied⟩

theorem nextReap_ne_accept (i : Nat) : nextReap i ≠ .accept := by
  unfold nextReap
  split <;> nofun

/-- `cyg_thread_delete` of a thread that has ended. -/
theorem Inv.delete (hi : Inv s) (hpc : s.papd = .delete i) :
    Inv { s.setThread (s.handle i) { s.thread (s.handle i) with pc := .deleted } with
      papd := .clear i, deletedAt := s.deletedAt ++ [(s.thread (s.handle i)).pc] } := by
  obtain ⟨hpos, hconn, hprogress⟩ := hi.current (by simp [hpc])
  rw [hpc] at hprogress
  obtain ⟨hcounts, hreplied, hended⟩ := hprogress
  have hnew : (s.setThread (s.handle i) { s.thread (s.handle i) with pc := .deleted }).thread
      (s.handle i) = { s.thread (s.handle i) with pc := .deleted } := Function.update_self ..
  have hold : ∀ t, t ≠ s.handle i →
      (s.setThread (s.handle i) { s.thread (s.handle i) with pc := .deleted }).thread t =
        s.thread t := fun t ht ↦ Function.update_of_ne ht ..
  constructor
  · rintro k ⟨-, hk | hacc⟩
    · exact hi.done_of_lt hk
    · cases hacc
  · exact fun _ ↦ ⟨hpos, hconn, hcounts, hreplied⟩
  · intro t ht
    by_cases hti : t = s.handle i
    · subst hti
      have hth := hi.threads _ ht
      obtain ⟨hreleases, hleaving⟩ := SessionPc.releases_of_ended hended hth.memory
      obtain ⟨hsuspended, hstart⟩ : (s.thread (s.handle i)).pc ≠ .suspended ∧
          (s.thread (s.handle i)).pc ≠ .start := by
        constructor <;> intro h <;> rw [h] at hended <;> cases hended
      -- what a deleted thread has done is what it had done at its end
      refine .of_thread hnew hth.request_lt nofun nofun nofun trivial ?_ ?_ ?_
      · exact fun _ _ ↦ hth.served hsuspended hstart
      · exact hth.released.trans hreleases
      · exact fun _ ↦ hth.job hleaving
    · exact (hi.threads t ht).frame (hold t hti) (fun _ ↦ rfl) id (Nat.le_refl _) (fun _ _ ↦ rfl)
        (awaited_of_started (hi.started (by simp [hpc]) (by simp [hpc]) ht))
  · intro j hneed
    obtain ⟨hlt, hslot, hend⟩ := hi.slots j hneed
    refine ⟨hlt, ?_⟩
    show ((s.setThread (s.handle i) _).thread (s.handle j)).slot = j ∧
      (((s.setThread (s.handle i) _).thread (s.handle j)).pc = .exit ∨
        ((s.setThread (s.handle i) _).thread (s.handle j)).pc.ended = true)
    by_cases hji : s.handle j = s.handle i
    · rw [hji] at hslot ⊢
      rw [hnew]
      exact ⟨hslot, .inr rfl⟩
    · rw [hold _ hji]
      exact ⟨hslot, hend⟩
  · intro pc hmem
    rcases List.mem_append.mp hmem with hreused | hdeleted
    · exact hi.stackEnds pc (List.mem_append_left _ hreused)
    · rcases List.mem_append.mp hdeleted with hdeleted | hlast
      · exact hi.stackEnds pc (List.mem_append_right _ hdeleted)
      · rw [List.mem_singleton.mp hlast]
        exact hended

/-- A thread in a slot whose threads have ended. -/
theorem Inv.create (hi : Inv s) (hpc : s.papd = .create i) :
    Inv { s.startIn i with papd := .resume i } := by
  obtain ⟨hpos, hconn, hprogress⟩ := hi.current (by simp [hpc])
  rw [hpc] at hprogress
  obtain ⟨⟨hacquired, hsessions⟩, hreplied, hsem, hvacant, hflag⟩ := hprogress
  have hcur : s.current < s.requests := Nat.sub_lt hpos Nat.one_pos
  have hnew : (s.startIn i).thread s.created =
      { noSession with pc := .suspended, slot := i, request := s.current } :=
    Function.update_self ..
  have hold : ∀ t < s.created, (s.startIn i).thread t = s.thread t :=
    fun t ht ↦ Function.update_of_ne (Nat.ne_of_lt ht) ..
  have hhandle : (s.startIn i).handle i = s.created := Function.update_self ..
  have hrequest : (s.startIn i).request s.current =
      { s.request s.current with sessions := (s.request s.current).sessions + 1 } :=
    Function.update_self ..
  constructor
  · rintro k ⟨-, hk | hacc⟩
    · show Settled ((s.startIn i).request k)
      rw [show (s.startIn i).request k = s.request k from
        Function.update_of_ne (Nat.ne_of_lt hk) ..]
      exact hi.done_of_lt hk
    · cases hacc
  · intro _
    show _ ∧ _ = ((s.startIn i).request s.current).connid ∧
      PapSys.Progress _ ((s.startIn i).request s.current) (.resume i)
    rw [hrequest]
    refine ⟨hpos, hconn, ⟨hacquired, congrArg (· + 1) hsessions⟩, hreplied, hsem, ?_, ?_⟩
    · exact congrArg (· + 1) hhandle
    · show ((s.startIn i).thread ((s.startIn i).handle i)).pc = _
      rw [hhandle, hnew]
  · intro t ht
    rcases Nat.lt_succ_iff_lt_or_eq.mp ht with ht | rfl
    · refine (hi.threads t ht).frame (hold t ht) (fun h ↦ ?_) id (Nat.le_refl _) (fun k _ ↦ ?_)
        (awaited_of_started (hi.started (by simp [hpc]) (by simp [hpc]) ht))
      · have hslot : (s.thread t).slot ≠ i := by
          intro hslot
          rw [hvacant.2 t ht hslot] at h
          cases h
        exact Function.update_of_ne hslot ..
      · show ((s.startIn i).request k).connid = _
        by_cases hk : k = s.current
        · rw [hk, hrequest]
        · rw [show (s.startIn i).request k = s.request k from Function.update_of_ne hk ..]
    -- the new thread has the slot, whose `flag` the second loop has set
    · refine .of_thread hnew hcur (fun _ ↦ hhandle) (fun _ ↦ hflag) nofun ?_ ?_ ?_ ?_
      · refine ⟨?_, rfl, ?_⟩
        · show PapdPc.resume i = .resume ((s.startIn i).thread s.created).slot
          rw [hnew]
        · show ((s.startIn i).thread s.created).request = s.current
          rw [hnew]
      · exact fun hne _ ↦ absurd rfl hne
      · rfl
      · nofun
  · intro j hneed
    obtain ⟨hlt, hslot, hend⟩ := hi.slots j hneed
    have hji : j ≠ i := by
      rintro rfl
      have hno := hvacant.1
      rw [show (s.sock j).needrelase = true from hneed] at hno
      cases hno
    have hsame : (s.startIn i).handle j = s.handle j := Function.update_of_ne hji ..
    show (s.startIn i).handle j < s.created + 1 ∧
      ((s.startIn i).thread ((s.startIn i).handle j)).slot = j ∧
        (((s.startIn i).thread ((s.startIn i).handle j)).pc = .exit ∨
          ((s.startIn i).thread ((s.startIn i).handle j)).pc.ended = true)
    rw [hsame, hold _ hlt]
    exact ⟨Nat.lt_succ_of_lt hlt, hslot, hend⟩
  · intro pc hmem
    have hmem' : pc ∈ (s.reused ++ s.onStack i) ++ s.deletedAt := hmem
    rcases List.mem_append.mp hmem' with hmem' | hdel
    · rcases List.mem_append.mp hmem' with hreused | hstack
      · exact hi.stackEnds pc (List.mem_append_left _ hreused)
      · obtain ⟨t, ht, rfl⟩ := List.mem_map.mp hstack
        obtain ⟨hlt, hslot⟩ := List.mem_filter.mp ht
        exact hvacant.2 t (List.mem_range.mp hlt) (by simpa using hslot)
    · exact hi.stackEnds pc (List.mem_append_right _ hdel)

/-- The last thread is the one that starts. -/
theorem Inv.resume (hi : Inv s) (hpc : s.papd = .resume i) :
    Inv { s.setThread (s.handle i) { s.thread (s.handle i) with pc := .start } with
      papd := .wait } := by
  obtain ⟨hpos, hconn, hprogress⟩ := hi.current (by simp [hpc])
  rw [hpc] at hprogress
  obtain ⟨hcounts, hreplied, hsem, hlast, hsuspended⟩ := hprogress
  have hlt : s.handle i < s.created := by omega
  have hnew : (s.setThread (s.handle i) { s.thread (s.handle i) with pc := .start }).thread
      (s.handle i) = { s.thread (s.handle i) with pc := .start } := Function.update_self ..
  have hold : ∀ t, t ≠ s.handle i →
      (s.setThread (s.handle i) { s.thread (s.handle i) with pc := .start }).thread t =
        s.thread t := fun t ht ↦ Function.update_of_ne ht ..
  have hown := hi.threads _ hlt
  have hawaited := hown.awaited
  have hreleased := hown.released
  rw [hsuspended] at hawaited hreleased
  obtain ⟨-, hcreated, hrequest⟩ := hawaited
  have hstarted : ∀ t < s.created, t ≠ s.handle i → (s.thread t).pc ≠ .suspended ∧
      (s.thread t).pc ≠ .start ∧ (s.thread t).pc ≠ .post := by
    intro t ht hne
    have haw := (hi.threads t ht).awaited
    refine ⟨fun h ↦ ?_, fun h ↦ ?_, fun h ↦ ?_⟩
    · rw [h] at haw
      have hlast' := haw.2.1
      omega
    · rw [h] at haw
      cases hpc.symm.trans haw.1
    · rw [h] at haw
      cases hpc.symm.trans haw.1
  constructor
  · rintro k ⟨-, hk | hacc⟩
    · exact hi.done_of_lt hk
    · cases hacc
  · exact fun _ ↦ ⟨hpos, hconn, hcounts, hreplied⟩
  · intro t ht
    by_cases hti : t = s.handle i
    · subst hti
      refine .of_thread hnew hown.request_lt ?_ ?_ ?_ ?_ ?_ ?_ ?_
      · exact fun _ ↦ hown.handle (by rw [hsuspended]; rfl)
      · exact fun _ ↦ hown.flag (by rw [hsuspended]; rfl)
      · nofun
      · refine ⟨rfl, hsem, hcreated, ?_⟩
        show ((s.setThread (s.handle i) _).thread (s.handle i)).request = s.current
        rw [hnew]
        exact hrequest
      · exact fun _ hne ↦ absurd rfl hne
      · exact hreleased
      · nofun
    · exact (hi.threads t ht).frame (hold t hti) (fun _ ↦ rfl) id (Nat.le_refl _) (fun _ _ ↦ rfl)
        (awaited_of_started (hstarted t ht hti))
  · intro j hneed
    obtain ⟨hltj, hslot, hend⟩ := hi.slots j hneed
    have hne : s.handle j ≠ s.handle i := by
      intro heq
      rw [heq, hsuspended] at hend
      simp at hend
    refine ⟨hltj, ?_⟩
    show ((s.setThread (s.handle i) _).thread (s.handle j)).slot = j ∧
      (((s.setThread (s.handle i) _).thread (s.handle j)).pc = .exit ∨
        ((s.setThread (s.handle i) _).thread (s.handle j)).pc.ended = true)
    rw [hold _ hne]
    exact ⟨hslot, hend⟩
  · exact hi.stackEnds

/-- The thread has read `pr`, and `papd` accepts again. -/
theorem Inv.wait (hi : Inv s) (hpc : s.papd = .wait) (hpos : 0 < s.semaphore) :
    Inv { s with semaphore := s.semaphore - 1, papd := .accept } := by
  have hprogress := (hi.current (by simp [hpc])).2.2
  rw [hpc] at hprogress
  obtain ⟨⟨hacquired, hsessions⟩, hreplied, -⟩ := hprogress
  constructor
  · rintro k ⟨hk, -⟩
    by_cases hlt : k < s.current
    · exact hi.done_of_lt hlt
    · have heq : k = s.current := by
        have hk' : k < s.requests := hk
        unfold PapSys.current at hlt ⊢
        omega
      rw [heq]
      exact ⟨Nat.le_of_eq hacquired, hsessions.trans hacquired.symm,
        iff_of_true hreplied hsessions⟩
  · exact fun hne ↦ absurd rfl hne
  · intro t ht
    have hold := hi.threads t ht
    have haw := hold.awaited
    refine hold.frame rfl (fun _ ↦ rfl) id (Nat.le_refl _) (fun _ _ ↦ rfl)
      (awaited_of_started ⟨?_, ?_, ?_⟩)
    · intro h
      rw [h] at haw
      cases hpc.symm.trans haw.1
    · intro h
      rw [h] at haw
      have hzero := haw.2.1
      omega
    · intro h
      rw [h] at haw
      have hzero := haw.2.1
      omega
  · exact hi.slots
  · exact hi.stackEnds

theorem papdStep_inv (hi : Inv s) (hok : Orderly s (.papd c)) (h : papdStep s c = some s') :
    Inv s' := by
  by_cases hc : c = .go
  case neg => exact papdStep_front hi hok hc h
  subst hc
  have hcurrent := hi.current
  have horderly : SlotsOrderly s s.papd := hok
  cases hpc : s.papd <;> simp only [papdStep, hpc, reduceCtorEq] at h <;>
    rw [hpc] at hcurrent horderly
  case checkErr =>
    obtain ⟨⟨hacquired, hsessions⟩, hcases⟩ := (hcurrent nofun).2.2
    split at h
    · rename_i herr
      obtain rfl := Option.some.inj h
      have hreplied := (hcases.resolve_right fun hno ↦ herr hno.1).2
      exact hi.givesUp (by simp [hpc]) ⟨by omega, by omega, by simp [hreplied, hsessions]⟩
    · rename_i herr
      obtain rfl := Option.some.inj h
      have hright := (hcases.resolve_left fun hno ↦ hno.1 (by simpa using herr)).2
      exact hi.goesOn (by simp [hpc]) (by simp [hpc]) ⟨⟨hacquired, hsessions⟩, hright⟩
  case lock =>
    -- the port was free when the reply went out, and the condition says that it still is
    obtain ⟨⟨hacquired, hsessions⟩, hreplied, hcur⟩ := (hcurrent nofun).2.2
    have hfree : s.inUse = prnNoUsed := horderly
    rw [if_neg (by simpa using hfree)] at h
    obtain rfl := Option.some.inj h
    exact hi.notes (by simp [hpc]) (by simp [hpc]) rfl
      ⟨⟨congrArg (· + 1) hacquired, hsessions⟩, hreplied, hcur⟩
  case reap i =>
    obtain ⟨hcounts, hreplied⟩ := (hcurrent nofun).2.2
    split at h
    · rename_i hneed
      obtain rfl := Option.some.inj h
      exact hi.goesOn (by simp [hpc]) (by simp [hpc])
        ⟨hcounts, hreplied, (hi.slots i).ended hneed (horderly hneed)⟩
    · obtain rfl := Option.some.inj h
      exact hi.goesOn (by simp [hpc]) ⟨by simp [hpc], nextReap_ne_accept i⟩
        (.nextReap hcounts hreplied)
  case delete i =>
    obtain rfl := Option.some.inj h
    exact hi.delete hpc
  case clear i =>
    obtain ⟨hcounts, hreplied⟩ := (hcurrent nofun).2.2
    obtain rfl := Option.some.inj h
    refine hi.of_stays ⟨⟨rfl, rfl, rfl⟩, ⟨rfl, rfl⟩, fun j hflag ↦ ?_, fun j hneed ↦ ?_⟩
      (by simp [hpc]) ⟨by simp [hpc], nextReap_ne_accept i⟩ ⟨rfl, rfl⟩ (fun _ _ ↦ rfl) rfl
      (.nextReap hcounts hreplied)
    · show (Function.update s.sock i _ j).flag = true
      by_cases hji : j = i
      · subst hji
        rwa [Function.update_self]
      · rwa [Function.update_of_ne hji]
    · have hneed' : (Function.update s.sock i { s.sock i with needrelase := false } j).needrelase =
        true := hneed
      by_cases hji : j = i
      · subst hji
        rw [Function.update_self] at hneed'
        cases hneed'
      · rwa [Function.update_of_ne hji] at hneed'
  case semInit =>
    obtain ⟨hcounts, hreplied⟩ := (hcurrent nofun).2.2
    obtain rfl := Option.some.inj h
    exact hi.goesOn (by simp [hpc]) (by simp [hpc]) ⟨hcounts, hreplied, rfl⟩
  case search i =>
    obtain ⟨hcounts, hreplied, hsem⟩ := (hcurrent nofun).2.2
    obtain ⟨hfound, hlast⟩ := horderly
    by_cases hflag : (s.sock i).flag = false
    · rw [if_pos hflag] at h
      obtain rfl := Option.some.inj h
      obtain ⟨hleft, hneed⟩ := hfound hflag
      exact hi.goesOn (by simp [hpc]) (by simp [hpc])
        ⟨hcounts, hreplied, hsem, hi.vacant hflag hleft hneed⟩
    · have hlt : i + 1 < papSockSum := Nat.lt_of_not_le fun hle ↦ hflag (hlast hle)
      rw [if_neg hflag, if_pos hlt] at h
      obtain rfl := Option.some.inj h
      exact hi.goesOn (by simp [hpc]) (by simp [hpc]) ⟨hcounts, hreplied, hsem⟩
  case take i =>
    -- `flag` is set in a slot whose threads have ended: `needrelase` stays clear
    obtain ⟨hcounts, hreplied, hsem, hneed, hended⟩ := (hcurrent nofun).2.2
    have hsame : ∀ j, (Function.update s.sock i { s.sock i with flag := true } j).needrelase =
        (s.sock j).needrelase := by
      intro j
      by_cases hji : j = i
      · subst hji
        rw [Function.update_self]
      · rw [Function.update_of_ne hji]
    have hset : (Function.update s.sock i { s.sock i with flag := true } i).flag = true := by
      rw [Function.update_self]
    obtain rfl := Option.some.inj h
    refine hi.of_stays ⟨⟨rfl, rfl, rfl⟩, ⟨rfl, rfl⟩, fun j hflag ↦ ?_,
      fun j h ↦ (hsame j).symm.trans h⟩ (by simp [hpc]) (by simp [hpc]) ⟨rfl, rfl⟩ (fun _ _ ↦ rfl)
      rfl ⟨hcounts, hreplied, hsem, ⟨(hsame i).trans hneed, hended⟩, hset⟩
    show (Function.update s.sock i _ j).flag = true
    by_cases hji : j = i
    · rw [hji]
      exact hset
    · rwa [Function.update_of_ne hji]
  case create i =>
    obtain rfl := Option.some.inj h
    exact hi.create hpc
  case resume i =>
    obtain rfl := Option.some.inj h
    exact hi.resume hpc
  case wait =>
    split at h
    · rename_i hpos
      obtain rfl := Option.some.inj h
      exact hi.wait hpc hpos
    · cases h

/-! ## Runs -/

theorem inv_papStart : Inv papStart := by
  constructor
  · rintro r ⟨hr, -⟩
    cases hr
  · exact fun hne ↦ absurd rfl hne
  · intro t ht
    cases ht
  · exact fun _ ↦ nofun
  · nofun

/-- Another server at the port. -/
theorem Inv.other (hi : Inv s) (inUse : UInt8) : Inv { s with inUse := inUse } := by
  constructor
  · exact hi.settled
  · intro hne
    obtain ⟨hpos, hconn, hprogress⟩ := hi.current hne
    refine ⟨hpos, hconn, ?_⟩
    show PapSys.Progress _ (s.request s.current) s.papd
    cases hpc : s.papd <;> rw [hpc] at hprogress <;> exact hprogress
  · intro t ht
    have hold := hi.threads t ht
    refine ⟨hold.request_lt, hold.handle, hold.flag, hold.memory, ?_, hold.served,
      hold.released, hold.job⟩
    have haw := hold.awaited
    show PapSys.Awaited _ t (s.thread t).pc
    cases hpc : (s.thread t).pc <;> rw [hpc] at haw <;> exact haw
  · exact hi.slots
  · exact hi.stackEnds

theorem papStep_inv (a : PapAct) (hi : Inv s) (hok : Orderly s a) (h : papStep s a = some s') :
    Inv s' := by
  cases a with
  | papd c => exact papdStep_inv hi hok h
  | session t c =>
      obtain ⟨ht, hstep⟩ := Option.ite_none_right_eq_some.mp h
      exact (sessionStep_moves hi ht hok hstep).inv hi ht
  | other inUse =>
      obtain ⟨-, hstep⟩ := Option.ite_none_left_eq_some.mp h
      obtain rfl := Option.some.inj hstep
      exact hi.other inUse

theorem one_to_one_of_orderly {as : List PapAct} (hok : papMachine.Along Orderly papStart as)
    (hrun : papMachine.run as = some s) : OneToOne s :=
  (Machine.run_invariant inv_papStart (fun _ a _ hi hok h ↦ papStep_inv a hi hok h) hok
    hrun).oneToOne

/-- `papd` opens a session, from the request to the reply. -/
def replies : List PapAct :=
  [.papd (.openRequest 1), .papd (.status .ready), .papd (.opened true), .papd (.sent true),
    .papd .go]

/-- It takes the port and starts the thread `t`, which reads `pr`, in slot `i`; the first loop
deletes the threads of `n` slots. -/
def starts (t i n : Nat) : List PapAct :=
  List.replicate (12 + i + 2 * n) (.papd .go) ++ [.session t .go, .session t .go, .papd .go]

/-- The thread prints, and the client closes the session behind the end of the job. -/
def prints (t : Nat) : List PapAct :=
  [.session t (.malloc true), .session t .getBufs, .session t (.print false), .session t .getBufs,
    .session t (.print true), .session t .reply, .session t .quit]

/-- Three sessions: the second one starts in the next slot while the first one is on its way out,
and the third one in the slot of the first. -/
def printSession : List PapAct :=
  replies ++ starts 0 0 0 ++ prints 0 ++ List.replicate 2 (.session 0 .go) ++
    replies ++ starts 1 1 0 ++ List.replicate 4 (.session 0 .go) ++ prints 1 ++
    List.replicate 6 (.session 1 .go) ++
    replies ++ starts 2 0 2 ++ prints 2 ++ List.replicate 6 (.session 2 .go)

theorem one_to_one_printSession :
    ∃ s, papMachine.run printSession = some s ∧ s.created = 3 ∧ OneToOne s := by
  have hok : papMachine.Along Orderly papStart printSession := by decide +kernel
  have hcreated : (papMachine.run printSession).map PapSys.created = some 3 := by decide +kernel
  obtain ⟨s, hrun, hcreated⟩ := Option.map_eq_some_iff.mp hcreated
  exact ⟨s, hrun, hcreated, one_to_one_of_orderly hok hrun⟩

/-- Another server takes the port behind the reply. -/
def takenBehindReply : List PapAct := replies ++ [.other 0x01, .papd .go]

/-- The refusal of a request cannot be sent, and the next one is accepted. -/
def errLeft : List PapAct :=
  [.papd (.openRequest 1), .papd (.status .offLine), .papd (.opened true), .papd (.sent false)] ++
    replies

/-- The memory for `outbuf` is not there. -/
def noOutbuf : List PapAct := replies ++ starts 0 0 0 ++ [.session 0 (.malloc false)]

/-- The client closes the session within its job. -/
def closedInJob : List PapAct :=
  replies ++ starts 0 0 0 ++ [.session 0 (.malloc true), .session 0 .getBufs,
    .session 0 (.print false), .session 0 .quit, .session 0 .go, .session 0 .go]

/-- The next session starts while the thread of the last one is at `cyg_thread_exit`. -/
def deletedBeforeExit : List PapAct :=
  replies ++ starts 0 0 0 ++ [.session 0 (.malloc true), .session 0 .quit] ++
    List.replicate 5 (.session 0 .go) ++ replies ++ List.replicate 3 (.papd .go)

theorem sessions_not_one_to_one :
    (∃ s, papMachine.run takenBehindReply = some s ∧ ¬ OneToOne s) ∧
      (∃ s, papMachine.run errLeft = some s ∧ ¬ OneToOne s) ∧
      (∃ s, papMachine.run noOutbuf = some s ∧ ¬ OneToOne s) ∧
      (∃ s, papMachine.run closedInJob = some s ∧ ¬ OneToOne s) ∧
      ∃ s, papMachine.run deletedBeforeExit = some s ∧ ¬ OneToOne s := by
  refine ⟨⟨_, rfl, fun h ↦ ?_⟩, ⟨_, rfl, fun h ↦ ?_⟩, ⟨_, rfl, fun h ↦ ?_⟩,
    ⟨_, rfl, fun h ↦ ?_⟩, _, rfl, fun h ↦ ?_⟩
  · have hsession := (h.answered 0 ⟨Nat.one_pos, .inr rfl⟩).mp rfl
    exact absurd hsession (by decide)
  · have hsession := (h.answered 1 ⟨Nat.lt_succ_self 1, .inr rfl⟩).mp rfl
    exact absurd hsession (by decide)
  · have hreleased := (h.released 0 Nat.one_pos).2 rfl
    exact absurd hreleased (by decide)
  · have hclosed := h.jobs 0 Nat.one_pos (by decide)
    exact absurd hclosed (by decide)
  · have hended := h.stackEnds .exit (by decide)
    exact absurd hended (by decide)

end PrintServer.Papd
