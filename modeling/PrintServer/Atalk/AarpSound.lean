import PrintServer.Atalk.AarpRun

/-!
# When the AARP table stays sound

An entry whose address `at_gateway` changes stays in the chain of its old address.  The table is
sound in every state of a run just when no answer finds such an entry with its datagram.
-/

namespace PrintServer.Aarp

open Lib

variable {s t : State} {chain : Nat → List Nat} {flight : List Nat} {p bp : Nat} {a : AtAddr}
  {mem : Bool}

/-! ## What stays linked -/

/-- The links of `s` are still there in `t`, and the addresses. -/
def SameLinks (s t : State) : Prop :=
  t.aarptab = s.aarptab ∧ ∀ q, t.next q = s.next q ∧ t.addr q = s.addr q

theorem SameLinks.setEntry (e : Entry) (hnext : e.next = s.next p) (haddr : e.addr = s.addr p) :
    SameLinks s (s.setEntry p e) := by
  refine ⟨rfl, fun q ↦ ?_⟩
  rw [State.next, State.addr, setEntry_entry]
  split
  · rw [hnext, haddr, ‹q = p›]
    exact ⟨rfl, rfl⟩
  · exact ⟨rfl, rfl⟩

theorem SameLinks.trans {u : State} (h : SameLinks s t) (h' : SameLinks t u) : SameLinks s u :=
  ⟨h'.1.trans h.1, fun q ↦ ⟨(h'.2 q).1.trans (h.2 q).1, (h'.2 q).2.trans (h.2 q).2⟩⟩

/-- Every chain of `s` goes on in `t`. -/
def StillLinked (s t : State) : Prop :=
  ∀ h xs, Linked s.next 0 (s.aarptab h) xs → (∀ x ∈ xs, x ≤ s.entries) →
    ∃ ys, Linked t.next 0 (t.aarptab h) ys ∧ ∀ x ∈ xs, x ∈ ys ∧ t.addr x = s.addr x

theorem SameLinks.stillLinked (h : SameLinks s t) : StillLinked s t := by
  intro k xs hl _
  refine ⟨xs, ?_, fun x hx ↦ ⟨hx, (h.2 x).2⟩⟩
  rw [h.1]
  exact hl.congr fun x _ ↦ (h.2 x).1

theorem link_stillLinked (hhead : s.aarptab (aarptabHash a) ≠ s.entries + 1) :
    StillLinked s (s.link a) := by
  intro k xs hl hle
  have hold {x : Nat} (hx : x ∈ xs) :
      (s.link a).next x = s.next x ∧ (s.link a).addr x = s.addr x := by
    have hne : x ≠ s.entries + 1 := by
      have h := hle x hx
      omega
    rw [State.next, State.addr, link_entry hhead, if_neg hne]
    split
    · exact ⟨rfl, rfl⟩
    · exact ⟨rfl, rfl⟩
  have htab : (s.link a).aarptab =
      Function.update s.aarptab (aarptabHash a) (s.entries + 1) := link_same.2.2.2.2.2.2.2
  have hself : (s.link a).next (s.entries + 1) = s.aarptab (aarptabHash a) := by
    rw [State.next, link_entry hhead, if_pos rfl]
  rw [htab, Function.update_apply]
  by_cases hk : k = aarptabHash a
  · rw [if_pos hk]
    rw [hk] at hl
    exact ⟨(s.entries + 1) :: xs, hl.push (Nat.succ_ne_zero _) hself fun x hx ↦ (hold hx).1,
      fun x hx ↦ ⟨List.mem_cons_of_mem _ hx, (hold hx).2⟩⟩
  · rw [if_neg hk]
    exact ⟨xs, hl.congr fun x hx ↦ (hold hx).1, fun x hx ↦ ⟨hx, (hold hx).2⟩⟩

theorem StillLinked.trans_same {u : State} (h : StillLinked s t) (h' : SameLinks t u) :
    StillLinked s u := by
  intro k xs hl hle
  obtain ⟨ys, hys, hmem⟩ := h k xs hl hle
  refine ⟨ys, ?_, fun x hx ↦ ⟨(hmem x hx).1, (h'.2 x).2.trans (hmem x hx).2⟩⟩
  rw [h'.1]
  exact hys.congr fun x _ ↦ (h'.2 x).1

theorem freeQ_sameLinks : SameLinks s (s.freeQ p) :=
  SameLinks.setEntry { s.entry p with pending := [] } rfl rfl

theorem enqueue_sameLinks : SameLinks s (s.enqueue p bp) :=
  SameLinks.setEntry { s.entry p with pending := (s.entry p).pending ++ [bp] } rfl rfl

theorem resolved_stillLinked (hhead : s.aarptab (aarptabHash a) ≠ s.entries + 1) :
    StillLinked s (s.resolved bp a mem) := by
  have hrefl : SameLinks s s := ⟨rfl, fun _ ↦ ⟨rfl, rfl⟩⟩
  rw [State.resolved, State.aarpresolve]
  split
  · exact hrefl.stillLinked
  · by_cases hzero : s.aarpLookup a = 0
    · rw [if_pos hzero]
      cases mem with
      | false => exact hrefl.stillLinked
      | true =>
          let u := (s.link a).updatePending (s.entries + 1)
          have hu : SameLinks (s.link a) u := SameLinks.setEntry
            { (s.link a).entry (s.entries + 1) with state := .pending, alarm := .enabled } rfl rfl
          show StillLinked s (u.enqueue u.entries bp)
          exact (link_stillLinked hhead).trans_same (hu.trans enqueue_sameLinks)
    · rw [if_neg hzero]
      cases hstate : (s.entry (s.aarpLookup a)).state with
      | pending => exact (freeQ_sameLinks.trans enqueue_sameLinks).stillLinked
      | valid =>
          simp only
          by_cases halarm : (s.entry (s.aarpLookup a)).alarm = .enabled
          · rw [if_pos halarm]
            exact hrefl.stillLinked
          · rw [if_neg halarm]
            exact freeQ_sameLinks.stillLinked

/-! ## The entry that is lost -/

theorem not_sound_updateValid (hi : Inv s chain flight) (hp : p ∈ linked chain) (hw : HwAddr)
    {memory : Nat → Bool × Bool} (hpending : (s.entry p).pending ≠ [])
    (hframe : (memory 0).1 = true) (hno : ¬KeepsChain s p) :
    ¬Sound (s.updateValid p hw memory) := by
  have hshort := hi.short p hp
  obtain ⟨bp, hbp⟩ : ∃ bp, (s.entry p).pending = [bp] := by
    apply List.length_eq_one_iff.mp
    have hpos := List.length_pos_iff.mpr hpending
    omega
  let gate := s.iface.atGateway (s.addr p)
  have hself : (s.answered p hw).addr p = s.addr p := answered_addr p
  let t := (s.answered p hw).setEntry p { (s.answered p hw).entry p with addr := gate }
  have hresult : s.updateValid p hw memory = t.resolved bp gate (memory 0).2 := by
    rw [updateValid_single ((hi.armed p).mpr hp) hbp, State.ddpOutputEntry, if_pos hframe]
    show State.resolved ((s.answered p hw).setEntry p { (s.answered p hw).entry p with
      addr := s.iface.atGateway ((s.answered p hw).addr p) }) bp
      (s.iface.atGateway ((s.answered p hw).addr p)) _ = _
    rw [hself]
  have hnext (q : Nat) : t.next q = s.next q := by
    show ((Function.update (Function.update s.entry p _) p _) q).next = _
    rw [Function.update_idem, Function.update_apply]
    split
    · show ((s.answered p hw).entry p).next = _
      rw [State.answered, setEntry_entry, if_pos rfl, ‹q = p›]
      rfl
    · rfl
  have haddr {q : Nat} (hq : q ≠ p) : t.addr q = s.addr q := by
    rw [State.addr, setEntry_entry, if_neg hq]
    exact answered_addr q
  have hgate : t.addr p = gate := by
    rw [State.addr, setEntry_entry, if_pos rfl]
  have hkept (h : Nat) (hh : h < aarptabSize) : Linked t.next 0 (t.aarptab h) (chain h) :=
    (hi.chains.links h hh).linked.congr fun q _ ↦ hnext q
  have hle (h : Nat) (hh : h < aarptabSize) : ∀ x ∈ chain h, x ≤ t.entries := fun x hx ↦
    hi.number x (mem_linked.mpr ⟨h, hh, hx⟩)
  rintro ⟨chain', hsound⟩
  rw [hresult] at hsound
  -- what was linked still is, under the addresses of `t`
  have hstill {q : Nat} (hq : q ∈ linked chain) :
      q ∈ chain' (aarptabHash (s.addr q)) ∧
        (t.resolved bp gate (memory 0).2).addr q = t.addr q := by
    have hlt := aarptabHash_lt (s.addr q)
    have hhead : s.aarptab (aarptabHash gate) ≠ s.entries + 1 := aarptab_ne hi
    obtain ⟨ys, hys, hmem⟩ := resolved_stillLinked (s := t) hhead _ _ (hkept _ hlt) (hle _ hlt)
    have heq := hys.unique (hsound.chains.links _ hlt).linked
    rw [← heq]
    exact hmem q (hi.chains.mem_chain hq)
  have hlt := aarptabHash_lt (s.addr p)
  have hfirst := hstill hp
  rw [hgate] at hfirst
  have hmoved : gate ≠ s.addr p := fun h ↦ hno (Or.inl h)
  by_cases hhash : aarptabHash gate = aarptabHash (s.addr p)
  · -- the gateway has an entry already
    have hne : s.aarpLookup gate ≠ 0 := fun h ↦ hno (Or.inr ⟨hhash, h⟩)
    obtain ⟨hq, hqaddr⟩ := hi.lookup_ne_zero hne
    have hqp : s.aarpLookup gate ≠ p := by
      intro h
      rw [h] at hqaddr
      exact hmoved hqaddr.symm
    have hsecond := hstill hq
    rw [haddr hqp, hqaddr] at hsecond
    apply hqp
    apply hsound.chains.unique _ (mem_linked.mpr ⟨_, aarptabHash_lt gate, hsecond.1⟩) _
      (mem_linked.mpr ⟨_, hlt, hfirst.1⟩)
    rw [hsecond.2, hfirst.2]
  · apply hhash
    have hhashed := hsound.chains.hashed _ hlt p hfirst.1
    rw [hfirst.2] at hhashed
    exact hhashed

/-! ## Runs -/

/-- When the answer for an entry finds its datagram, the entry can stay in its chain. -/
def Calm (s : State) : Act → Prop
  | .aarpInput memory =>
      match s.input with
      | none => True
      | some ea =>
          s.aarpLookup ea.spa ≠ 0 → ea.op ≠ .probe →
            (s.entry (s.aarpLookup ea.spa)).pending ≠ [] → (memory 0).1 = true →
              KeepsChain s (s.aarpLookup ea.spa)
  | _ => True

theorem Inv.start (i : AtIface) : Inv (start i) (fun _ ↦ []) [] := by
  have hempty : linked (fun _ ↦ []) = [] := List.flatMap_eq_nil_iff.mpr fun _ _ ↦ rfl
  refine ⟨⟨fun h _ ↦ rfl, fun h _ p hp ↦ ?_, fun p hp ↦ ?_⟩, fun p hp ↦ ?_, fun p hp ↦ ?_,
    fun p ↦ ?_, fun p hp ↦ ?_, fun p hp ↦ ?_, ?_⟩
  · exact absurd hp List.not_mem_nil
  · exact absurd (hempty ▸ hp) List.not_mem_nil
  · exact absurd (hempty ▸ hp) List.not_mem_nil
  · exact absurd hp List.not_mem_nil
  · rw [hempty]
    exact iff_of_false (fun h ↦ by cases h) List.not_mem_nil
  · exact absurd (hempty ▸ hp) List.not_mem_nil
  · exact absurd (hempty ▸ hp) List.not_mem_nil
  · rw [hempty]
    exact List.Perm.refl []

/-- The network and the packet in hand do not matter to the table. -/
theorem Inv.elsewhere (hi : Inv s chain flight) (iface : AtIface) (input : Option EtherAarp) :
    Inv { s with iface, input } chain flight where
  chains := hi.chains.congr rfl (fun _ _ ↦ rfl) (fun _ _ ↦ rfl) (fun _ _ ↦ rfl)
  number := hi.number
  freed := hi.freed
  armed := hi.armed
  answered := hi.answered
  short := hi.short
  once := hi.once

/-- A new datagram is in hand. -/
theorem Inv.datagram (hi : Inv s chain []) :
    Inv { s with datagrams := s.datagrams + 1 } chain [s.datagrams] where
  chains := hi.chains.congr rfl (fun _ _ ↦ rfl) (fun _ _ ↦ rfl) (fun _ _ ↦ rfl)
  number := hi.number
  freed := hi.freed
  armed := hi.armed
  answered := hi.answered
  short := hi.short
  once := by
    show ([s.datagrams] ++ (s.sent ++ s.dropped ++ s.pendings (linked chain))).Perm
      (List.range (s.datagrams + 1))
    rw [List.range_succ]
    exact (hi.once.append_left _).trans List.perm_append_comm

theorem Inv.aarpInput (hi : Inv s chain flight) (ea : EtherAarp) {memory : Nat → Bool × Bool}
    (hcalm : s.aarpLookup ea.spa ≠ 0 → ea.op ≠ .probe →
      (s.entry (s.aarpLookup ea.spa)).pending ≠ [] → (memory 0).1 = true →
        KeepsChain s (s.aarpLookup ea.spa)) :
    ∃ chain', Inv (s.aarpInput ea memory) chain' flight := by
  simp only [State.aarpInput]
  by_cases hfound : s.aarpLookup ea.spa ≠ 0
  · rw [if_pos hfound]
    have hp := (hi.lookup_ne_zero hfound).1
    by_cases hprobe : ea.op = .probe
    · rw [if_pos hprobe]
      exact ⟨_, hi.aarptfree hp⟩
    · rw [if_neg hprobe]
      exact hi.updateValid hp ea.sha (hcalm hfound hprobe)
  · rw [if_neg hfound]
    split
    · have hself := link_self (a := ea.spa) hi
      refine ⟨inFront chain (aarptabHash ea.spa) (s.entries + 1), ?_⟩
      have hnew : (s.link ea.spa).updateValid (s.entries + 1) ea.sha memory =
          (s.link ea.spa).setEntry (s.entries + 1) { (s.link ea.spa).entry (s.entries + 1) with
            state := .valid, alarm := .enabled, enaddr := ea.sha } := by
        have hset (e : Entry) :
            ((s.link ea.spa).setEntry (s.entries + 1) e).entry (s.entries + 1) = e := by
          rw [setEntry_entry, if_pos rfl]
        simp only [State.updateValid, hset, hself, Entry.clear, setEntry_setEntry,
          List.length_nil, State.flush]
      rw [hnew]
      apply hi.link (not_not.mp hfound)
      · rw [hself]
      · rw [hself]
        rfl
      · rw [hself]
      · rfl
      · rw [hself]
        rfl
    · exact ⟨chain, hi⟩

/-- One step keeps the table. -/
theorem Inv.step {act : Act} (hi : Inv s chain []) (hcalm : Calm s act)
    (hstep : step s act = some t) : ∃ chain', Inv t chain' [] := by
  cases act with
  | ddpOutput dest frame mem =>
      rw [Aarp.step, Option.some.injEq] at hstep
      rw [← hstep]
      exact hi.datagram.ddpOutput dest frame
  | arrive ea =>
      rw [Aarp.step] at hstep
      split at hstep
      · rw [Option.some.injEq] at hstep
        rw [← hstep, State.arrive]
        split
        · exact ⟨chain, hi⟩
        · split
          · exact ⟨chain, hi.elsewhere _ s.input⟩
          · split
            · exact ⟨chain, hi⟩
            · exact ⟨chain, hi.elsewhere s.iface _⟩
      · cases hstep
  | aarpInput memory =>
      rw [Aarp.step] at hstep
      rw [Calm] at hcalm
      cases hinput : s.input with
      | none =>
          rw [hinput] at hstep
          cases hstep
      | some ea =>
          rw [hinput] at hstep hcalm
          simp only [Option.some.injEq] at hstep
          rw [← hstep]
          exact (hi.elsewhere s.iface none).aarpInput ea hcalm
  | alarm p =>
      rw [Aarp.step] at hstep
      split at hstep
      · rw [Option.some.injEq] at hstep
        rw [← hstep]
        exact ⟨_, hi.aarptfree ((hi.armed p).mp ‹_›)⟩
      · cases hstep
  | iface i =>
      rw [Aarp.step, Option.some.injEq] at hstep
      rw [← hstep]
      exact ⟨chain, hi.elsewhere _ s.input⟩

theorem not_sound_step {act : Act} (hi : Inv s chain []) (hno : ¬Calm s act) :
    ∃ t, step s act = some t ∧ ¬Sound t := by
  cases act with
  | aarpInput memory =>
      rw [Calm] at hno
      cases hinput : s.input with
      | none =>
          rw [hinput] at hno
          exact absurd trivial hno
      | some ea =>
          rw [hinput] at hno
          simp only [Classical.not_imp] at hno
          obtain ⟨hfound, hprobe, hpending, hframe, hkeeps⟩ := hno
          let u : State := { s with input := none }
          refine ⟨u.aarpInput ea memory, by rw [Aarp.step, hinput], ?_⟩
          have hu : Inv u chain [] := hi.elsewhere s.iface none
          have hfound' : u.aarpLookup ea.spa ≠ 0 := hfound
          simp only [State.aarpInput]
          rw [if_pos hfound', if_neg hprobe]
          exact not_sound_updateValid hu (hu.lookup_ne_zero hfound').1 ea.sha hpending hframe
            hkeeps
  | ddpOutput dest frame mem => exact absurd trivial hno
  | arrive ea => exact absurd trivial hno
  | alarm p => exact absurd trivial hno
  | iface i => exact absurd trivial hno

/-- The table is sound in every state of a run just when every answer of the run that finds a
datagram leaves its entry in a chain it may be in. -/
theorem sound_iff_calm (i : AtIface) (acts : List Act) :
    (∀ n s, (aarp i).run (acts.take n) = some s → Sound s) ↔
      (aarp i).Along Calm (start i) acts := by
  apply Iff.symm
  refine @Machine.along_iff _ _ (aarp i) Calm (fun s ↦ ∃ chain, Inv s chain []) Sound ?_ ?_ ?_ _
    ?_ acts
  · intro s ⟨chain, hi⟩
    exact ⟨chain, hi.soundWith⟩
  · intro s act t ⟨chain, hi⟩ hcalm hstep
    exact hi.step hcalm hstep
  · intro s act ⟨chain, hi⟩ hno
    exact not_sound_step hi hno
  · exact ⟨fun _ ↦ [], Inv.start i⟩

/-- The network of the start, and what a router has told of it. -/
def startup : AtIface where
  my := ⟨0x00FF, 9⟩
  status := .stable
  first := 0xFF00
  last := 0xFFFE
  gate := ⟨0, 0⟩
  physNode := Vector.replicate 6 1

def routed : AtIface := { startup with first := 0x0100, last := 0x01FF, gate := ⟨0x0001, 2⟩ }

/-- A datagram waits for a node of another network when the router is found; then the node
answers. -/
def lateAnswer : List Act :=
  [.ddpOutput ⟨0x0003, 4⟩ true true, .iface routed,
    .arrive ⟨.response, Vector.replicate 6 2, ⟨0x0003, 4⟩, ⟨0x00FF, 9⟩⟩,
    .aarpInput fun _ ↦ (true, true)]

theorem lateAnswer_misplaces :
    ¬∀ (i : AtIface) (acts : List Act) (s : State), (aarp i).run acts = some s → Sound s := by
  intro hall
  have hlost : ((aarp startup).run lateAnswer).map
      (fun s ↦ (s.aarptab 2, aarptabHash (s.addr 1))) = some (1, 8) := by decide +kernel
  obtain ⟨s, hrun, hs⟩ := Option.map_eq_some_iff.mp hlost
  obtain ⟨hhead, haddr⟩ := Prod.mk.inj hs
  obtain ⟨chain, hsound⟩ := hall startup lateAnswer s hrun
  have hlinks := hsound.chains.links 2 (by decide)
  cases hchain : chain 2 with
  | nil =>
      rw [hchain, hhead] at hlinks
      cases hlinks
  | cons p ps =>
      have hp : p ∈ chain 2 := by
        rw [hchain]
        exact List.mem_cons_self
      have hhashed := hsound.chains.hashed 2 (by decide) p hp
      rw [hchain, hhead] at hlinks
      rw [← hlinks.1, haddr] at hhashed
      cases hhashed

end PrintServer.Aarp
