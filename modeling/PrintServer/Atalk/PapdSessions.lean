import PrintServer.Atalk.Papd

/-!
# One session for each acquisition

The flags of the slots say where a thread may still run: a thread that has its slot keeps `flag`
set, and `needrelase` is set by one that is at its end.  The session that `papd` waits for is the
last one that it created.
-/

namespace PrintServer.Papd

open Lib Port Spooler

variable {s s' : PapSys} {t u i : Nat} {th : Session} {r : OpenRequest} {c : SessionInput}

/-! ## The invariant -/

/-- The thread has its slot. -/
@[simp] def SessionPc.holds : SessionPc → Bool
  | .setNeedrelase | .exit | .exited | .returned | .deleted => false
  | _ => true

/-- How often a thread at a statement has come to `PrnSetNoUse`. -/
@[simp] def SessionPc.releases : SessionPc → Nat
  | .freeOutbuf | .clearFlag | .setNeedrelase | .exit | .exited | .deleted => 1
  | _ => 0

/-- The session has left its loop. -/
@[simp] def SessionPc.leaving : SessionPc → Bool
  | .suspended | .start | .post | .malloc | .loop | .returned => false
  | _ => true

/-- `papd` waits for a thread that has not yet read `pr`. -/
def PapSys.Awaited (s : PapSys) (t : Nat) : SessionPc → Prop
  | .suspended => s.papd = .resume (s.thread t).slot ∧ t + 1 = s.created ∧
      (s.thread t).request = s.current
  | .start => s.papd = .wait ∧ s.semaphore = 0 ∧ t + 1 = s.created ∧
      (s.thread t).request = s.current
  | .post => s.papd = .wait ∧ s.semaphore = 0 ∧ t + 1 = s.created
  | _ => True

structure PapSys.ThreadOk (s : PapSys) (t : Nat) : Prop where
  request_lt : (s.thread t).request < s.requests
  handle : (s.thread t).pc.ended = false → s.handle (s.thread t).slot = t
  flag : (s.thread t).pc.holds = true → (s.sock (s.thread t).slot).flag = true
  memory : (s.thread t).pc ≠ .returned
  awaited : s.Awaited t (s.thread t).pc
  served : (s.thread t).pc ≠ .suspended → (s.thread t).pc ≠ .start →
    (s.thread t).atp = some (s.thread t).request ∧
      (s.thread t).connid = (s.request (s.thread t).request).connid
  released : (s.thread t).released = (s.thread t).pc.releases
  job : (s.thread t).pc.leaving = true → (s.thread t).jobOpen = false

/-- A slot that waits for the deletion of its thread has one at its end. -/
def PapSys.SlotOk (s : PapSys) (i : Nat) : Prop :=
  (s.sock i).needrelase = true → s.handle i < s.created ∧ (s.thread (s.handle i)).slot = i ∧
    ((s.thread (s.handle i)).pc = .exit ∨ (s.thread (s.handle i)).pc.ended = true)

/-- All threads of slot `i` have ended, and none is to be deleted. -/
def PapSys.Vacant (s : PapSys) (i : Nat) : Prop :=
  (s.sock i).needrelase = false ∧
    ∀ t < s.created, (s.thread t).slot = i → (s.thread t).pc.ended = true

structure Settled (r : OpenRequest) : Prop where
  acquired : r.acquired ≤ 1
  sessions : r.sessions = r.acquired
  replied : r.replied = some true ↔ r.sessions = 1

/-- What is recorded of the current request, and `pr.cur_atp` and `err`, with what the loops have
found of the slot. -/
def PapSys.Progress (s : PapSys) (r : OpenRequest) : PapdPc → Prop
  | .accept => True
  | .test => r.replied = none ∧ r.acquired = 0 ∧ r.sessions = 0
  | .openAtp refused => (r.replied = none ∧ r.acquired = 0 ∧ r.sessions = 0) ∧
      (refused = true → s.err ≠ 0)
  | .reply refused => (r.replied = none ∧ r.acquired = 0 ∧ r.sessions = 0) ∧
      (refused = true → s.err ≠ 0) ∧ (refused = false → s.curAtp = some s.current)
  | .checkErr => (r.acquired = 0 ∧ r.sessions = 0) ∧
      ((s.err ≠ 0 ∧ r.replied = some false) ∨
        (s.err = 0 ∧ r.replied = some true ∧ s.curAtp = some s.current))
  | .lock => (r.acquired = 0 ∧ r.sessions = 0) ∧ r.replied = some true ∧
      s.curAtp = some s.current
  | .reap _ | .clear _ | .semInit => (r.acquired = 1 ∧ r.sessions = 0) ∧
      r.replied = some true ∧ s.curAtp = some s.current
  | .delete i => (r.acquired = 1 ∧ r.sessions = 0) ∧
      (r.replied = some true ∧ s.curAtp = some s.current) ∧
      (s.thread (s.handle i)).pc.ended = true
  | .search _ => (r.acquired = 1 ∧ r.sessions = 0) ∧
      (r.replied = some true ∧ s.curAtp = some s.current) ∧ s.semaphore = 0
  | .take i => (r.acquired = 1 ∧ r.sessions = 0) ∧
      (r.replied = some true ∧ s.curAtp = some s.current) ∧ s.semaphore = 0 ∧ s.Vacant i
  | .create i => (r.acquired = 1 ∧ r.sessions = 0) ∧
      (r.replied = some true ∧ s.curAtp = some s.current) ∧ s.semaphore = 0 ∧ s.Vacant i ∧
      (s.sock i).flag = true
  | .resume i => (r.acquired = 1 ∧ r.sessions = 1) ∧
      (r.replied = some true ∧ s.curAtp = some s.current) ∧
      s.semaphore = 0 ∧ s.handle i + 1 = s.created ∧ (s.thread (s.handle i)).pc = .suspended
  | .wait => (r.acquired = 1 ∧ r.sessions = 1) ∧ r.replied = some true ∧
      s.curAtp = some s.current

structure Inv (s : PapSys) : Prop where
  settled : ∀ r, s.Done r → Settled (s.request r)
  current : s.papd ≠ .accept → 0 < s.requests ∧ s.connid = (s.request s.current).connid ∧
    s.Progress (s.request s.current) s.papd
  threads : ∀ t < s.created, s.ThreadOk t
  slots : ∀ i, s.SlotOk i
  stackEnds : ∀ pc ∈ s.reused ++ s.deletedAt, pc.ended = true

theorem SessionPc.releases_le (pc : SessionPc) : pc.releases ≤ 1 := by
  cases pc <;> decide

theorem SessionPc.releases_of_ended {pc : SessionPc} (hend : pc.ended = true)
    (hmemory : pc ≠ .returned) : pc.releases = 1 ∧ pc.leaving = true := by
  cases pc with
  | exited => exact ⟨rfl, rfl⟩
  | deleted => exact ⟨rfl, rfl⟩
  | returned => exact absurd rfl hmemory
  | _ => cases hend

theorem SessionPc.leaving_of_releases {pc : SessionPc} (hpos : 0 < pc.releases) :
    pc.leaving = true := by
  cases pc with
  | freeOutbuf | clearFlag | setNeedrelase | exit | exited | deleted => rfl
  | _ => cases hpos

theorem Inv.oneToOne (hi : Inv s) : OneToOne s := by
  constructor
  · intro r hr
    exact ⟨(hi.settled r hr).acquired, (hi.settled r hr).sessions⟩
  · intro r hr
    exact (hi.settled r hr).replied
  · intro t ht
    exact (hi.threads t ht).served
  · intro t ht
    have hth := hi.threads t ht
    rw [hth.released]
    exact ⟨SessionPc.releases_le _, fun hend ↦ (SessionPc.releases_of_ended hend hth.memory).1⟩
  · intro t ht hpos
    have hth := hi.threads t ht
    rw [hth.released] at hpos
    exact hth.job (SessionPc.leaving_of_releases hpos)
  · exact hi.stackEnds

/-! ## The steps of a session -/

/-- What a step of the thread `t` may do: the rest of the state stays as it is. -/
structure Moves (s : PapSys) (t : Nat) (s' : PapSys) : Prop where
  thread : ∀ u, u ≠ t → s'.thread u = s.thread u
  rest : s'.papd = s.papd ∧ s'.err = s.err ∧ s'.connid = s.connid ∧ s'.curAtp = s.curAtp ∧
    s'.handle = s.handle ∧ s'.created = s.created ∧ s'.request = s.request ∧
    s'.requests = s.requests ∧ s'.reused = s.reused ∧ s'.deletedAt = s.deletedAt
  semaphore : s'.semaphore = s.semaphore ∨ (s.thread t).pc = .post
  runs : (s.thread t).pc.ended = false ∧ (s.thread t).pc ≠ .suspended
  kept : (s'.thread t).slot = (s.thread t).slot ∧ (s'.thread t).request = (s.thread t).request
  memory : (s'.thread t).pc ≠ .returned
  awaited : s'.Awaited t (s'.thread t).pc
  served : (s'.thread t).pc ≠ .suspended ∧ (s'.thread t).pc ≠ .start ∧
    (s'.thread t).atp = some (s.thread t).request ∧
    (s'.thread t).connid = (s.request (s.thread t).request).connid
  released : (s'.thread t).released = (s'.thread t).pc.releases
  job : (s'.thread t).pc.leaving = true → (s'.thread t).jobOpen = false
  holds : (s'.thread t).pc.holds = true → (s.thread t).pc.holds = true
  flag : ∀ i, (s.sock i).flag = true → (s'.sock i).flag = true ∨
    (i = (s.thread t).slot ∧ (s'.thread t).pc.holds = false)
  needrelase : ∀ i, (s'.sock i).needrelase = true → (s.sock i).needrelase = true ∨
    (i = (s.thread t).slot ∧ (s'.thread t).pc = .exit)
  exits : (s.thread t).pc = .exit → (s'.thread t).pc = .exited

/-- A thread that has not ended is the only one of its slot. -/
theorem Inv.slot_ne (hi : Inv s) (ht : t < s.created) (hu : u < s.created) (hne : u ≠ t)
    (hend : (s.thread t).pc.ended = false) (hend' : (s.thread u).pc.ended = false) :
    (s.thread u).slot ≠ (s.thread t).slot := by
  intro hslot
  apply hne
  rw [← (hi.threads u hu).handle hend', ← (hi.threads t ht).handle hend, hslot]

theorem SessionPc.ended_of_holds {pc : SessionPc} (h : pc.holds = true) : pc.ended = false := by
  cases pc <;> simp_all

theorem PapSys.Vacant.moves (h : s.Vacant i) (hm : Moves s t s') (ht : t < s.created) :
    s'.Vacant i := by
  have hslot : i ≠ (s.thread t).slot := by
    intro heq
    have hend := h.2 t ht heq.symm
    rw [hm.runs.1] at hend
    contradiction
  constructor
  · by_contra hneed
    rcases hm.needrelase i (by simpa using hneed) with hold | ⟨heq, -⟩
    · rw [h.1] at hold
      contradiction
    · exact hslot heq
  · obtain ⟨-, -, -, -, -, hcreated, -⟩ := hm.rest
    intro u hu hui
    rw [hcreated] at hu
    by_cases hut : u = t
    · rw [hut, hm.kept.1] at hui
      exact absurd hui.symm hslot
    · rw [hm.thread u hut] at hui ⊢
      exact h.2 u hu hui

/-- What `papd` has found stays true: the thread that moves is none of those it is about. -/
theorem PapSys.Progress.moves (h : s.Progress r s.papd) (hm : Moves s t s') (ht : t < s.created)
    (hth : s.ThreadOk t) : s'.Progress r s.papd := by
  obtain ⟨-, herr, -, hcur, hhandle, hcreated, -, hrequests, -, -⟩ := hm.rest
  have hcurrent : s'.current = s.current := by rw [PapSys.current, PapSys.current, hrequests]
  have hsem : s.papd ≠ .wait → s'.semaphore = s.semaphore := by
    intro hwait
    rcases hm.semaphore with hsame | hpost
    · exact hsame
    · have hawaited := hth.awaited
      rw [hpost] at hawaited
      exact absurd hawaited.1 hwait
  cases hp : s.papd with
  | accept => trivial
  | test =>
      rw [hp] at h
      exact h
  | openAtp | reply | checkErr | lock | reap | clear | semInit | wait =>
      rw [hp] at h
      simp only [PapSys.Progress, herr, hcur, hcurrent]
      exact h
  | delete i =>
      rw [hp] at h
      simp only [PapSys.Progress, hcur, hcurrent]
      refine ⟨h.1, h.2.1, ?_⟩
      have hne : s.handle i ≠ t := by
        intro heq
        have hend := h.2.2
        rw [heq, hm.runs.1] at hend
        contradiction
      rw [hhandle, hm.thread _ hne]
      exact h.2.2
  | search i =>
      rw [hp] at h
      simp only [PapSys.Progress, hcur, hcurrent, hsem (by simp [hp])]
      exact h
  | take i =>
      rw [hp] at h
      simp only [PapSys.Progress, hcur, hcurrent, hsem (by simp [hp])]
      exact ⟨h.1, h.2.1, h.2.2.1, h.2.2.2.moves hm ht⟩
  | create i =>
      rw [hp] at h
      obtain ⟨hcounts, hreplied, hzero, hvacant, hflag⟩ := h
      simp only [PapSys.Progress, hcur, hcurrent, hsem (by simp [hp])]
      refine ⟨hcounts, hreplied, hzero, hvacant.moves hm ht, ?_⟩
      refine (hm.flag i hflag).resolve_right fun hslot ↦ ?_
      have hend := hvacant.2 t ht hslot.1.symm
      rw [hm.runs.1] at hend
      contradiction
  | resume i =>
      rw [hp] at h
      obtain ⟨hcounts, hreplied, hzero, hlast, hsusp⟩ := h
      simp only [PapSys.Progress, hcur, hcurrent, hsem (by simp [hp])]
      have hne : s.handle i ≠ t := by
        intro heq
        rw [heq] at hsusp
        exact hm.runs.2 hsusp
      refine ⟨hcounts, hreplied, hzero, ?_, ?_⟩
      · rwa [hhandle, hcreated]
      · rwa [hhandle, hm.thread _ hne]

theorem PapSys.SlotOk.moves (h : s.SlotOk i) (hm : Moves s t s') (ht : t < s.created)
    (hth : s.ThreadOk t) : s'.SlotOk i := by
  obtain ⟨-, -, -, -, hhandle, hcreated, -⟩ := hm.rest
  intro hneed
  rw [hhandle, hcreated]
  rcases hm.needrelase i hneed with hold | ⟨rfl, hexit⟩
  · obtain ⟨hlt, hslot, hend⟩ := h hold
    refine ⟨hlt, ?_⟩
    by_cases hut : s.handle i = t
    · rw [hut] at hslot hend ⊢
      rcases hend with hexit | hend
      · rw [hm.exits hexit]
        exact ⟨hm.kept.1.trans hslot, .inr rfl⟩
      · rw [hm.runs.1] at hend
        contradiction
    · rw [hm.thread _ hut]
      exact ⟨hslot, hend⟩
  · rw [hth.handle hm.runs.1]
    exact ⟨ht, hm.kept.1, .inl hexit⟩

theorem Moves.inv (h : Moves s t s') (hi : Inv s) (ht : t < s.created) : Inv s' := by
  obtain ⟨hpapd, -, hconnid, -, hhandle, hcreated, hrequest, hrequests, hreused, hdeleted⟩ :=
    h.rest
  have hcurrent : s'.current = s.current := by rw [PapSys.current, PapSys.current, hrequests]
  have hth := hi.threads t ht
  constructor
  · intro r hr
    rw [hrequest]
    apply hi.settled
    rwa [PapSys.Done, hrequests, hcurrent, hpapd] at hr
  · intro hpc
    rw [hpapd] at hpc
    obtain ⟨hpos, hconn, hprogress⟩ := hi.current hpc
    rw [hrequests, hconnid, hrequest, hcurrent, hpapd]
    exact ⟨hpos, hconn, hprogress.moves h ht hth⟩
  · intro u hu
    rw [hcreated] at hu
    -- the thread that moves, then one that stands still
    by_cases hut : u = t
    · subst hut
      constructor
      · rw [h.kept.2, hrequests]
        exact hth.request_lt
      · intro _
        rw [h.kept.1, hhandle]
        exact hth.handle h.runs.1
      · intro hholds
        rw [h.kept.1]
        refine (h.flag _ (hth.flag (h.holds hholds))).resolve_right fun hno ↦ ?_
        rw [hno.2] at hholds
        contradiction
      · exact h.memory
      · exact h.awaited
      · intro _ _
        rw [h.kept.2, hrequest]
        exact h.served.2.2
      · exact h.released
      · exact h.job
    · have hu' := hi.threads u hu
      have hsame := h.thread u hut
      constructor
      · rw [hsame, hrequests]
        exact hu'.request_lt
      · rw [hsame, hhandle]
        exact hu'.handle
      · rw [hsame]
        intro hholds
        refine (h.flag _ (hu'.flag hholds)).resolve_right fun hno ↦ ?_
        -- no other running thread has the slot
        exact hi.slot_ne ht hu hut h.runs.1 (SessionPc.ended_of_holds hholds) hno.1
      · rw [hsame]
        exact hu'.memory
      · have haw := hu'.awaited
        -- the thread that posts is the last one, as is one that is still to read `pr`
        have hsem : u + 1 = s.created → s'.semaphore = s.semaphore := by
          intro hlast
          rcases h.semaphore with hsem | hpost
          · exact hsem
          · have hown := hth.awaited
            rw [hpost] at hown
            have hlast' := hown.2.2
            omega
        rw [hsame]
        cases hp : (s.thread u).pc with
        | suspended =>
            rw [hp] at haw
            show s'.papd = .resume (s'.thread u).slot ∧ _ ∧ (s'.thread u).request = s'.current
            rw [hsame, hpapd, hcreated, hcurrent]
            exact haw
        | start =>
            rw [hp] at haw
            show s'.papd = .wait ∧ s'.semaphore = 0 ∧ _ ∧ (s'.thread u).request = s'.current
            rw [hsame, hpapd, hcreated, hcurrent, hsem haw.2.2.1]
            exact haw
        | post =>
            rw [hp] at haw
            show s'.papd = .wait ∧ s'.semaphore = 0 ∧ u + 1 = s'.created
            rw [hpapd, hcreated, hsem haw.2.2]
            exact haw
        | _ => trivial
      · rw [hsame, hrequest]
        exact hu'.served
      · rw [hsame]
        exact hu'.released
      · rw [hsame]
        exact hu'.job
  · exact fun i ↦ (hi.slots i).moves h ht hth
  · rw [hreused, hdeleted]
    exact hi.stackEnds

/-- A step of a thread that has read `pr`. -/
theorem Moves.of_slots (hth : s.ThreadOk t) {th' : Session} {sem : Nat} {inUse : UInt8}
    {sock : Nat → PapSock} (hsem : sem = s.semaphore ∨ (s.thread t).pc = .post)
    (hflag : ∀ i, (s.sock i).flag = true → (sock i).flag = true ∨
      (i = (s.thread t).slot ∧ th'.pc.holds = false))
    (hneed : ∀ i, (sock i).needrelase = true → (s.sock i).needrelase = true ∨
      (i = (s.thread t).slot ∧ th'.pc = .exit))
    (hholds : th'.pc.holds = true → (s.thread t).pc.holds = true)
    (hstarted : (s.thread t).pc ≠ .suspended ∧ (s.thread t).pc ≠ .start)
    (hend : (s.thread t).pc.ended = false)
    (hkept : th'.slot = (s.thread t).slot ∧ th'.request = (s.thread t).request ∧
      th'.atp = (s.thread t).atp ∧ th'.connid = (s.thread t).connid)
    (hpc : th'.pc ≠ .returned ∧ th'.pc ≠ .suspended ∧ th'.pc ≠ .start ∧ th'.pc ≠ .post)
    (hreleased : th'.released = th'.pc.releases)
    (hjob : th'.pc.leaving = true → th'.jobOpen = false)
    (hexits : (s.thread t).pc = .exit → th'.pc = .exited) :
    Moves s t { s.setThread t th' with semaphore := sem, inUse := inUse, sock := sock } := by
  have hself : (s.setThread t th').thread t = th' := Function.update_self ..
  constructor
  · intro u hu
    exact Function.update_of_ne hu ..
  · exact ⟨rfl, rfl, rfl, rfl, rfl, rfl, rfl, rfl, rfl, rfl⟩
  · exact hsem
  · exact ⟨hend, hstarted.1⟩
  · rw [hself]
    exact ⟨hkept.1, hkept.2.1⟩
  · rw [hself]
    exact hpc.1
  · rw [hself]
    cases hpc' : th'.pc <;> simp_all [PapSys.Awaited]
  · rw [hself, hkept.2.2.1, hkept.2.2.2]
    exact ⟨hpc.2.1, hpc.2.2.1, hth.served hstarted.1 hstarted.2⟩
  · rw [hself]
    exact hreleased
  · rw [hself]
    exact hjob
  · rw [hself]
    exact hholds
  · rw [hself]
    exact hflag
  · rw [hself]
    exact hneed
  · rw [hself]
    exact hexits

/-- The same where the slots stay as they are. -/
theorem Moves.of_update (hth : s.ThreadOk t) {th' : Session} {sem : Nat} {inUse : UInt8}
    (hsem : sem = s.semaphore ∨ (s.thread t).pc = .post)
    (hholds : th'.pc.holds = true → (s.thread t).pc.holds = true)
    (hstarted : (s.thread t).pc ≠ .suspended ∧ (s.thread t).pc ≠ .start)
    (hend : (s.thread t).pc.ended = false)
    (hkept : th'.slot = (s.thread t).slot ∧ th'.request = (s.thread t).request ∧
      th'.atp = (s.thread t).atp ∧ th'.connid = (s.thread t).connid)
    (hpc : th'.pc ≠ .returned ∧ th'.pc ≠ .suspended ∧ th'.pc ≠ .start ∧ th'.pc ≠ .post)
    (hreleased : th'.released = th'.pc.releases)
    (hjob : th'.pc.leaving = true → th'.jobOpen = false)
    (hexits : (s.thread t).pc = .exit → th'.pc = .exited) :
    Moves s t { s.setThread t th' with semaphore := sem, inUse := inUse } :=
  Moves.of_slots hth hsem (fun _ hflag ↦ .inl hflag) (fun _ hneed ↦ .inl hneed) hholds hstarted
    hend hkept hpc hreleased hjob hexits

/-- The thread that `papd` waits for reads `pr`, which is still that of its request. -/
theorem Inv.moves_start (hi : Inv s) (ht : t < s.created) (hpc : (s.thread t).pc = .start) :
    Moves s t
      (s.setThread t { s.thread t with pc := .post, atp := s.curAtp, connid := s.connid }) := by
  have hth := hi.threads t ht
  have hawaited := hth.awaited
  have hreleased := hth.released
  rw [hpc] at hawaited hreleased
  obtain ⟨hwait, hsem, hlast, hreq⟩ := hawaited
  obtain ⟨-, hconn, hprogress⟩ := hi.current (by simp [hwait])
  rw [hwait] at hprogress
  have hcur : s.curAtp = some s.current := hprogress.2.2
  have hself : ∀ th, (s.setThread t th).thread t = th := fun th ↦ Function.update_self ..
  constructor
  · intro u hu
    exact Function.update_of_ne hu ..
  · exact ⟨rfl, rfl, rfl, rfl, rfl, rfl, rfl, rfl, rfl, rfl⟩
  · exact .inl rfl
  · simp [hpc]
  · rw [hself]
    exact ⟨rfl, rfl⟩
  · simp [hself]
  · rw [hself]
    exact ⟨hwait, hsem, hlast⟩
  · rw [hself, hreq]
    exact ⟨nofun, nofun, hcur, hconn⟩
  · rw [hself]
    exact hreleased
  · simp [hself]
  · intro _
    rw [hpc]
    rfl
  · exact fun i hflag ↦ .inl hflag
  · exact fun i hneed ↦ .inl hneed
  · simp [hpc]

theorem sessionStep_moves (hi : Inv s) (ht : t < s.created)
    (hok : Orderly s (.session t c)) (h : sessionStep s t c = some s') : Moves s t s' := by
  have hth := hi.threads t ht
  have hreleased := hth.released
  have hjob := hth.job
  cases hpc : (s.thread t).pc <;> cases c <;>
    simp only [sessionStep, hpc, reduceCtorEq, Option.ite_none_right_eq_some] at h <;>
    simp [hpc] at hreleased hjob
  case start.go =>
    obtain rfl := Option.some.inj h
    exact hi.moves_start ht hpc
  case post.go =>
    obtain rfl := Option.some.inj h
    apply Moves.of_update hth (.inr hpc) <;> simp [hpc, hreleased]
  case malloc.malloc ok =>
    obtain rfl := Option.some.inj h
    obtain rfl : ok = true := hok
    apply Moves.of_update hth (.inl rfl) <;> simp [hpc, hreleased]
  case loop.print last =>
    obtain ⟨hheld, h⟩ := h
    obtain rfl := Option.some.inj h
    apply Moves.of_update hth (.inl rfl) <;> simp [hpc, hreleased]
  case loop.timeOut =>
    split at h
    · obtain rfl := Option.some.inj h
      apply Moves.of_update hth (.inl rfl) <;> simp [hpc, hreleased]
    · rename_i hno
      obtain rfl := Option.some.inj h
      have hclosed : (s.thread t).jobOpen = false := by
        by_contra hopen
        exact hno (hok (by simpa using hopen))
      apply Moves.of_update hth (.inl rfl) <;> simp [hpc, hreleased, hclosed]
  case loop.quit =>
    obtain rfl := Option.some.inj h
    have hclosed : (s.thread t).jobOpen = false := hok
    apply Moves.of_update hth (.inl rfl) <;> simp [hpc, hreleased, hclosed]
  case clearFlag.go =>
    obtain rfl := Option.some.inj h
    refine Moves.of_slots hth (.inl rfl) ?_ ?_ ?_ ?_ ?_ ?_ ?_ ?_ ?_ ?_
    · intro i hflag
      by_cases hi : i = (s.thread t).slot
      · exact .inr ⟨hi, rfl⟩
      · rw [Function.update_of_ne hi]
        exact .inl hflag
    · intro i hneed
      by_cases hi : i = (s.thread t).slot
      · subst hi
        left
        simpa [PapSys.setThread] using hneed
      · rw [Function.update_of_ne hi] at hneed
        exact .inl hneed
    all_goals simp [hpc, hreleased, hjob]
  case setNeedrelase.go =>
    obtain rfl := Option.some.inj h
    refine Moves.of_slots hth (.inl rfl) ?_ ?_ ?_ ?_ ?_ ?_ ?_ ?_ ?_ ?_
    · intro i hflag
      by_cases hi : i = (s.thread t).slot
      · exact .inr ⟨hi, rfl⟩
      · rw [Function.update_of_ne hi]
        exact .inl hflag
    · intro i hneed
      by_cases hi : i = (s.thread t).slot
      · exact .inr ⟨hi, rfl⟩
      · rw [Function.update_of_ne hi] at hneed
        exact .inl hneed
    all_goals simp [hpc, hreleased, hjob]
  all_goals
    obtain rfl := Option.some.inj h
    apply Moves.of_update hth (.inl rfl) <;> simp [hpc, hreleased, hjob]

end PrintServer.Papd
