import PrintServer.Atalk.AarpInv

/-!
# Runs over the AARP table

Every step keeps the table but one: an answer for an entry with a waiting datagram, when the way to
its node has come to lead over the gateway.
-/

namespace PrintServer.Aarp

open Lib

variable {s : State} {chain : Nat → List Nat} {flight : List Nat} {p bp : Nat} {a : AtAddr}
  {mem : Bool}

/-! ## `aarpresolve` -/

theorem aarptab_ne (hi : Inv s chain flight) : s.aarptab (aarptabHash a) ≠ s.entries + 1 := by
  intro heq
  have hmem := hi.chains.head_mem (aarptabHash_lt a) (by omega)
  have hle := hi.number _ (mem_linked.mpr ⟨_, aarptabHash_lt a, hmem⟩)
  omega

theorem link_self (hi : Inv s chain flight) : (s.link a).entry (s.entries + 1) =
    { Entry.clear with next := s.aarptab (aarptabHash a), addr := a } := by
  rw [link_entry (aarptab_ne hi), if_pos rfl]

theorem Inv.resolved (hi : Inv s chain (bp :: flight)) (dest : AtAddr) :
    ∃ chain', Inv (s.resolved bp dest mem) chain' flight := by
  rw [State.resolved, State.aarpresolve]
  split
  · exact ⟨chain, hi.send⟩
  · by_cases hzero : s.aarpLookup dest = 0
    · rw [if_pos hzero]
      cases mem with
      | false => exact ⟨chain, hi.freeP⟩
      | true =>
          have hentries : ((s.link dest).updatePending (s.entries + 1)).entries = s.entries + 1 :=
            link_same.1
          refine ⟨inFront chain (aarptabHash dest) (s.entries + 1), ?_⟩
          show Inv (((s.link dest).updatePending (s.entries + 1)).enqueue _ bp) _ flight
          rw [hentries]
          have hself := link_self (a := dest) hi
          have hlinked := hi.link hzero
            { (s.link dest).entry (s.entries + 1) with state := .pending, alarm := .enabled }
            (by rw [hself]) (by rw [hself]; rfl) (by rw [hself]) rfl (by rw [hself]; rfl)
          apply hlinked.enqueue ((mem_linked_inFront (aarptabHash_lt dest)).mpr (Or.inl rfl))
          · rw [setEntry_entry, if_pos rfl]
          · rw [setEntry_entry, if_pos rfl, hself]
            rfl
    · rw [if_neg hzero]
      have hp := (hi.lookup_ne_zero hzero).1
      cases hstate : (s.entry (s.aarpLookup dest)).state with
      | valid =>
          -- the alarm of a linked entry is set
          simp only [if_pos ((hi.armed _).mpr hp)]
          exact ⟨chain, hi.send⟩
      | pending =>
          refine ⟨chain, ?_⟩
          show Inv ((s.freeQ _).enqueue _ bp) chain flight
          apply (hi.freeQ hp).enqueue hp
          · show ((s.setEntry _ _).entry _).state = _
            rw [setEntry_entry, if_pos rfl]
            exact hstate
          · show ((s.setEntry _ _).entry _).pending = _
            rw [setEntry_entry, if_pos rfl]

theorem Inv.ddpOutput (hi : Inv s chain (bp :: flight)) (dest : AtAddr) (frame : Bool) :
    ∃ chain', Inv (s.ddpOutput bp dest frame mem) chain' flight := by
  rw [State.ddpOutput]
  split
  · exact hi.resolved _
  · exact ⟨chain, hi.freeP⟩

/-! ## An answer -/

/-- An entry takes another address of the same chain that no entry has. -/
theorem Inv.readdress (hi : Inv s chain flight)
    (hhash : aarptabHash a = aarptabHash (s.addr p))
    (hnew : ∀ q ∈ linked chain, q ≠ p → s.addr q ≠ a) :
    Inv (s.setEntry p { s.entry p with addr := a }) chain flight := by
  have hself : (s.setEntry p { s.entry p with addr := a }).entry p =
      { s.entry p with addr := a } := by rw [setEntry_entry, if_pos rfl]
  have hother {q : Nat} (hq : q ≠ p) :
      (s.setEntry p { s.entry p with addr := a }).entry q = s.entry q := by
    rw [setEntry_entry, if_neg hq]
  have hsame (q : Nat) : (s.setEntry p { s.entry p with addr := a }).entry q =
      { s.entry q with addr := if q = p then a else s.addr q } := by
    by_cases hq : q = p
    · rw [hq, hself, if_pos rfl]
    · rw [hother hq, if_neg hq]
      rfl
  refine ⟨⟨fun h hh ↦ ?_, fun h hh q hq ↦ ?_, fun q hq r hr heq ↦ ?_⟩, hi.number, hi.freed,
    fun q ↦ ?_, fun q hq ↦ ?_, fun q hq ↦ ?_, ?_⟩
  · apply (hi.chains.links h hh).congr
    · intro q _
      rw [State.next, hsame]
      rfl
    · intro q _
      rw [State.prev, hsame]
      rfl
  · rw [State.addr, hsame]
    show aarptabHash (if q = p then a else s.addr q) = h
    split
    · rw [hhash, ← ‹q = p›]
      exact hi.chains.hashed h hh q hq
    · exact hi.chains.hashed h hh q hq
  · rw [State.addr, State.addr, hsame, hsame] at heq
    by_cases hqp : q = p
    · by_cases hrp : r = p
      · rw [hqp, hrp]
      · simp only [if_pos hqp, if_neg hrp] at heq
        exact absurd heq.symm (hnew r hr hrp)
    · by_cases hrp : r = p
      · simp only [if_neg hqp, if_pos hrp] at heq
        exact absurd heq (hnew q hq hqp)
      · simp only [if_neg hqp, if_neg hrp] at heq
        exact hi.chains.unique q hq r hr heq
  · rw [hsame]
    exact hi.armed q
  · rw [hsame]
    exact hi.answered q hq
  · rw [hsame]
    exact hi.short q hq
  · have hpendings : (s.setEntry p { s.entry p with addr := a }).pendings (linked chain) =
        s.pendings (linked chain) := pendings_congr fun q _ ↦ by rw [hsame]
    rw [hpendings]
    exact hi.once

theorem setEntry_setEntry (e e' : Entry) : (s.setEntry p e).setEntry p e' = s.setEntry p e' := by
  simp only [State.setEntry, Function.update_idem]

/-- The alarm is set again and the hardware address kept. -/
theorem updateValid_eq (hw : HwAddr) (memory : Nat → Bool × Bool)
    (halarm : (s.entry p).alarm = .enabled) :
    s.updateValid p hw memory = State.flush p memory (s.entry p).pending.length
      (s.setEntry p { s.entry p with state := .valid, enaddr := hw }) := by
  have hself (e : Entry) : (s.setEntry p e).entry p = e := by rw [setEntry_entry, if_pos rfl]
  simp only [State.updateValid, hself, halarm, setEntry_setEntry]

/-- The entry behind an answer, before its datagram is sent. -/
def State.answered (s : State) (p : Nat) (hw : HwAddr) : State :=
  s.setEntry p { s.entry p with state := .valid, enaddr := hw, pending := [] }

theorem updateValid_nil {hw : HwAddr} {memory : Nat → Bool × Bool}
    (halarm : (s.entry p).alarm = .enabled) (hempty : (s.entry p).pending = []) :
    s.updateValid p hw memory = s.answered p hw := by
  rw [updateValid_eq hw memory halarm, hempty, State.answered]
  show s.setEntry p _ = s.setEntry p _
  rw [← hempty]

theorem updateValid_single {hw : HwAddr} {memory : Nat → Bool × Bool}
    (halarm : (s.entry p).alarm = .enabled) (hpending : (s.entry p).pending = [bp]) :
    s.updateValid p hw memory =
      (s.answered p hw).ddpOutputEntry bp p (memory 0).1 (memory 0).2 := by
  have hself (e : Entry) : (s.setEntry p e).entry p = e := by rw [setEntry_entry, if_pos rfl]
  rw [updateValid_eq hw memory halarm, hpending]
  simp only [List.length_cons, List.length_nil, State.flush, hself, hpending, setEntry_setEntry,
    State.answered]

theorem answered_addr {hw : HwAddr} (q : Nat) : (s.answered p hw).addr q = s.addr q := by
  rw [State.addr, State.answered, setEntry_entry]
  split
  · rw [‹q = p›]
    rfl
  · rfl

/-- An answer takes the datagram in hand. -/
theorem Inv.answer {d : List Nat} {hw : HwAddr} (hi : Inv s chain flight)
    (hp : p ∈ linked chain) (hpending : (s.entry p).pending = d) :
    Inv (s.answered p hw) chain (d ++ flight) := by
  apply hi.change hp { s.entry p with state := .valid, enaddr := hw, pending := [] } rfl rfl rfl
    rfl (fun _ ↦ rfl) (Nat.zero_le 1)
  rw [hpending, List.perm_iff_count]
  intro d
  simp only [List.count_append, List.count_nil]
  omega

/-- Where `at_gateway` leads to, the entry can stay in its chain. -/
def KeepsChain (s : State) (p : Nat) : Prop :=
  s.iface.atGateway (s.addr p) = s.addr p ∨
    (aarptabHash (s.iface.atGateway (s.addr p)) = aarptabHash (s.addr p) ∧
      s.aarpLookup (s.iface.atGateway (s.addr p)) = 0)

instance : Decidable (KeepsChain s p) := inferInstanceAs (Decidable (_ ∨ _))

theorem Inv.updateValid (hi : Inv s chain flight) (hp : p ∈ linked chain) (hw : HwAddr)
    {memory : Nat → Bool × Bool}
    (hcalm : (s.entry p).pending ≠ [] → (memory 0).1 = true → KeepsChain s p) :
    ∃ chain', Inv (s.updateValid p hw memory) chain' flight := by
  have halarm := (hi.armed p).mpr hp
  have hshort := hi.short p hp
  cases hpending : (s.entry p).pending with
  | nil =>
      rw [updateValid_nil halarm hpending]
      exact ⟨chain, hi.answer hp hpending⟩
  | cons bp rest =>
      have hrest : rest = [] := by
        rw [hpending, List.length_cons] at hshort
        exact List.length_eq_zero_iff.mp (by omega)
      rw [hrest] at hpending
      have hanswered : Inv (s.answered p hw) chain (bp :: flight) :=
        hi.answer hp hpending
      rw [updateValid_single halarm hpending, State.ddpOutputEntry]
      split
      · have hkeeps := hcalm (by rw [hpending]; exact List.cons_ne_nil bp []) ‹_›
        have hself : (s.answered p hw).entry p =
            { s.entry p with state := .valid, enaddr := hw, pending := [] } := by
          rw [State.answered, setEntry_entry, if_pos rfl]
        apply Inv.resolved
        apply hanswered.readdress
        · rw [answered_addr, hself]
          cases hkeeps with
          | inl heq => exact congrArg aarptabHash heq
          | inr h => exact h.1
        · intro q hq hne
          rw [answered_addr, hself]
          cases hkeeps with
          | inl heq =>
              intro h
              exact hne (hi.chains.unique q hq p hp (h.trans heq))
          | inr h => exact aarpLookup_eq_zero hi.chains hi.length_le h.2 hq
      · exact ⟨chain, hanswered.freeP⟩

end PrintServer.Aarp
