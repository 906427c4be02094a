import PrintServer.Atalk.AarpTable
import Mathlib.Data.List.Perm.Subperm

/-!
# The AARP table in every state

`Sound` is what the table promises; `Inv` adds what carries it through a step, with the datagrams
that are on their way.
-/

namespace PrintServer.Aarp

open Lib

/-- The table promises that its chains are sound, that nothing of it has been freed and no alarm is
set for a freed entry, that a waiting datagram has an alarm, and that every datagram is in one
place. -/
structure SoundWith (s : State) (chain : Nat → List Nat) : Prop where
  chains : Chains s chain
  kept : ∀ p ∈ linked chain, p ∉ s.freed
  alarms : ∀ p, (s.entry p).alarm = .enabled → p ∉ s.freed
  waiting : ∀ p ∈ linked chain, (s.entry p).pending ≠ [] → (s.entry p).alarm = .enabled
  once : (s.sent ++ s.dropped ++ s.pendings (linked chain)).Perm (List.range s.datagrams)

def Sound (s : State) : Prop := ∃ chain, SoundWith s chain

/-- `flight` has the datagrams that a call of `ddp_output` has in hand. -/
structure Inv (s : State) (chain : Nat → List Nat) (flight : List Nat) : Prop where
  chains : Chains s chain
  number : ∀ p ∈ linked chain, p ≤ s.entries
  freed : ∀ p ∈ s.freed, p ≤ s.entries ∧ p ∉ linked chain
  armed : ∀ p, (s.entry p).alarm = .enabled ↔ p ∈ linked chain
  answered : ∀ p ∈ linked chain, (s.entry p).state = .valid → (s.entry p).pending = []
  short : ∀ p ∈ linked chain, (s.entry p).pending.length ≤ 1
  once : (flight ++ s.sent ++ s.dropped ++ s.pendings (linked chain)).Perm
    (List.range s.datagrams)

section

variable {s s' : State} {chain : Nat → List Nat} {flight flight' : List Nat} {p q bp : Nat}
  {a : AtAddr}

theorem Inv.soundWith (hi : Inv s chain []) : SoundWith s chain where
  chains := hi.chains
  kept p hp hf := (hi.freed p hf).2 hp
  alarms p ha hf := (hi.freed p hf).2 ((hi.armed p).mp ha)
  waiting p hp _ := (hi.armed p).mpr hp
  once := hi.once

theorem Inv.length_le (hi : Inv s chain flight) :
    ∀ h < aarptabSize, (chain h).length ≤ s.entries := by
  intro h hh
  have hsub : chain h ⊆ List.range' 1 s.entries := by
    intro p hp
    have hmem := mem_linked.mpr ⟨h, hh, hp⟩
    have hne := hi.chains.ne_zero hmem
    have hle := hi.number p hmem
    rw [List.mem_range'_1]
    omega
  have hle := (List.subperm_of_subset (hi.chains.links h hh).nodup hsub).length_le
  rwa [List.length_range'] at hle

/-- The entry that `aarp_lookup` finds. -/
theorem Inv.lookup_ne_zero (hi : Inv s chain flight) (hne : s.aarpLookup a ≠ 0) :
    s.aarpLookup a ∈ linked chain ∧ s.addr (s.aarpLookup a) = a :=
  aarpLookup_ne_zero hi.chains hi.length_le hne

/-! ## Datagrams -/

theorem pendings_perm {ps : List Nat} (hp : p ∈ ps) :
    (s.pendings ps).Perm ((s.entry p).pending ++ s.pendings (ps.erase p)) :=
  (List.perm_cons_erase hp).flatMap_right _

theorem pendings_congr {ps : List Nat}
    (h : ∀ q ∈ ps, (s'.entry q).pending = (s.entry q).pending) : s'.pendings ps = s.pendings ps :=
  List.flatMap_congr h

/-- The datagrams in hand are sent or freed. -/
theorem Inv.deliver (hi : Inv s chain flight) {sent dropped : List Nat}
    (h : (flight' ++ sent ++ dropped).Perm (flight ++ s.sent ++ s.dropped)) :
    Inv { s with sent, dropped } chain flight' where
  chains := hi.chains.congr rfl (fun _ _ ↦ rfl) (fun _ _ ↦ rfl) (fun _ _ ↦ rfl)
  number := hi.number
  freed := hi.freed
  armed := hi.armed
  answered := hi.answered
  short := hi.short
  once := (h.append_right _).trans hi.once

theorem Inv.send (hi : Inv s chain (bp :: flight)) : Inv (s.send bp) chain flight := by
  apply hi.deliver
  rw [List.perm_iff_count]
  intro d
  simp only [List.count_append, List.count_cons, List.count_nil]
  omega

theorem Inv.freeP (hi : Inv s chain (bp :: flight)) : Inv (s.freeP bp) chain flight := by
  apply hi.deliver
  rw [List.perm_iff_count]
  intro d
  simp only [List.count_append, List.count_cons, List.count_nil]
  omega

/-- An entry changes where no chain looks, and datagrams may leave it or come to it. -/
theorem Inv.change (hi : Inv s chain flight) (hp : p ∈ linked chain) (e : Entry)
    {sent dropped : List Nat} (hnext : e.next = s.next p) (hprev : e.prev = s.prev p)
    (haddr : e.addr = s.addr p) (halarm : e.alarm = (s.entry p).alarm)
    (hanswered : e.state = .valid → e.pending = []) (hshort : e.pending.length ≤ 1)
    (honce : (flight' ++ sent ++ dropped ++ e.pending).Perm
      (flight ++ s.sent ++ s.dropped ++ (s.entry p).pending)) :
    Inv { s.setEntry p e with sent, dropped } chain flight' := by
  have hentry (q : Nat) : ({ s.setEntry p e with sent, dropped } : State).entry q =
      if q = p then e else s.entry q := setEntry_entry p e q
  refine ⟨?_, hi.number, hi.freed, fun q ↦ ?_, fun q hq ↦ ?_, fun q hq ↦ ?_, ?_⟩
  · refine hi.chains.congr rfl ?_ ?_ ?_
    · intro q _
      rw [State.next, hentry]
      split
      · rw [hnext, ‹q = p›]
      · rfl
    · intro q _
      rw [State.prev, hentry]
      split
      · rw [hprev, ‹q = p›]
      · rfl
    · intro q _
      rw [State.addr, hentry]
      split
      · rw [haddr, ‹q = p›]
      · rfl
  · rw [hentry, ← hi.armed q]
    split
    · rw [halarm, ‹q = p›]
    · rfl
  · rw [hentry]
    split
    · exact hanswered
    · exact hi.answered q hq
  · rw [hentry]
    split
    · exact hshort
    · exact hi.short q hq
  · have hnodup := hi.chains.nodup
    have hrest : State.pendings { s.setEntry p e with sent, dropped } ((linked chain).erase p) =
        s.pendings ((linked chain).erase p) := by
      apply pendings_congr
      intro q hq
      rw [hentry, if_neg (hnodup.mem_erase_iff.mp hq).1]
    have hself : ({ s.setEntry p e with sent, dropped } : State).entry p = e := by
      rw [hentry, if_pos rfl]
    have hnew := pendings_perm (s := { s.setEntry p e with sent, dropped }) hp
    rw [hself, hrest] at hnew
    have hold := (pendings_perm (s := s) hp).symm
    have hsplit := (honce.append_right (s.pendings ((linked chain).erase p))).trans
      ((List.append_assoc _ _ _).symm ▸ hold.append_left _)
    apply (hnew.append_left _).trans
    rw [← List.append_assoc]
    exact hsplit.trans hi.once

theorem Inv.freeQ (hi : Inv s chain flight) (hp : p ∈ linked chain) :
    Inv (s.freeQ p) chain flight := by
  apply hi.change hp { s.entry p with pending := [] } rfl rfl rfl rfl (fun _ ↦ rfl)
    (Nat.zero_le 1)
  show (flight ++ s.sent ++ (s.dropped ++ (s.entry p).pending) ++ []).Perm _
  rw [List.perm_iff_count]
  intro d
  simp only [List.count_append, List.count_nil]
  omega

theorem Inv.enqueue (hi : Inv s chain (bp :: flight)) (hp : p ∈ linked chain)
    (hstate : (s.entry p).state = .pending) (hempty : (s.entry p).pending = []) :
    Inv (s.enqueue p bp) chain flight := by
  have hpending : (s.entry p).pending ++ [bp] = [bp] := by rw [hempty, List.nil_append]
  apply hi.change hp { s.entry p with pending := (s.entry p).pending ++ [bp] } rfl rfl rfl rfl
  · intro hvalid
    cases hstate.symm.trans hvalid
  · show ((s.entry p).pending ++ [bp]).length ≤ 1
    rw [hpending]
    exact Nat.le_refl 1
  · show (flight ++ s.sent ++ s.dropped ++ ((s.entry p).pending ++ [bp])).Perm _
    rw [hempty, List.perm_iff_count]
    intro d
    simp only [List.count_append, List.count_cons, List.count_nil]
    omega

/-! ## Entries come and go -/

/-- A new entry is linked, with its alarm set and without a datagram. -/
theorem Inv.link (hi : Inv s chain flight) (hnew : s.aarpLookup a = 0) (e : Entry)
    (hnext : e.next = s.aarptab (aarptabHash a)) (hprev : e.prev = 0) (haddr : e.addr = a)
    (halarm : e.alarm = .enabled) (hempty : e.pending = []) :
    Inv ((s.link a).setEntry (s.entries + 1) e)
      (inFront chain (aarptabHash a) (s.entries + 1)) flight := by
  have hlt := aarptabHash_lt a
  -- the new entry is none of those linked
  have hfresh {q : Nat} (hq : q ∈ linked chain) : q ≠ s.entries + 1 := by
    have hle := hi.number q hq
    omega
  have hhead : s.aarptab (aarptabHash a) ≠ s.entries + 1 := by
    intro heq
    have hmem := hi.chains.head_mem hlt (by omega)
    exact hfresh (mem_linked.mpr ⟨_, hlt, hmem⟩) heq
  have hmem {q : Nat} := @mem_linked_inFront chain (s.entries + 1) q _ hlt
  have hself : ((s.link a).setEntry (s.entries + 1) e).entry (s.entries + 1) = e := by
    rw [setEntry_entry, if_pos rfl]
  have hother {q : Nat} (hq : q ≠ s.entries + 1) :
      ((s.link a).setEntry (s.entries + 1) e).entry q = (s.link a).entry q := by
    rw [setEntry_entry, if_neg hq]
  have hold {q : Nat} (hq : q ≠ s.entries + 1) :
      ((s.link a).entry q).alarm = (s.entry q).alarm ∧
        ((s.link a).entry q).pending = (s.entry q).pending ∧
        ((s.link a).entry q).state = (s.entry q).state := by
    rw [link_entry hhead, if_neg hq]
    split
    · exact ⟨rfl, rfl, rfl⟩
    · exact ⟨rfl, rfl, rfl⟩
  obtain ⟨hentries, hfreed, -, -, hdatagrams, hsent, hdropped, -⟩ := link_same (s := s) (a := a)
  have hchains : Chains ((s.link a).setEntry (s.entries + 1) e)
      (inFront chain (aarptabHash a) (s.entries + 1)) := by
    have hlinkEntry := link_entry (p := s.entries + 1) hhead
    rw [if_pos rfl] at hlinkEntry
    refine (hi.chains.link (fun p hp ↦ aarpLookup_eq_zero hi.chains hi.length_le hnew hp)
      hi.number).congr rfl ?_ ?_ ?_
    · intro q _
      by_cases hq : q = s.entries + 1
      · rw [hq, State.next, State.next, hself, hnext, hlinkEntry]
      · rw [State.next, State.next, hother hq]
    · intro q _
      by_cases hq : q = s.entries + 1
      · rw [hq, State.prev, State.prev, hself, hprev, hlinkEntry]
        rfl
      · rw [State.prev, State.prev, hother hq]
    · intro q _
      by_cases hq : q = s.entries + 1
      · rw [hq, State.addr, State.addr, hself, haddr, hlinkEntry]
      · rw [State.addr, State.addr, hother hq]
  refine ⟨hchains, fun q hq ↦ ?_, fun q hq ↦ ?_, fun q ↦ ?_, fun q hq hvalid ↦ ?_,
    fun q hq ↦ ?_, ?_⟩
  · show q ≤ (s.link a).entries
    rw [hentries]
    rcases hmem.mp hq with rfl | hq
    · exact Nat.le_refl _
    · have hle := hi.number q hq
      omega
  · have hq' : q ∈ s.freed := hfreed ▸ hq
    obtain ⟨hle, hnot⟩ := hi.freed q hq'
    constructor
    · show q ≤ (s.link a).entries
      rw [hentries]
      omega
    · rw [hmem]
      intro h
      rcases h with rfl | h
      · omega
      · exact hnot h
  · by_cases hq : q = s.entries + 1
    · rw [hq, hself, halarm, hmem]
      exact iff_of_true rfl (Or.inl rfl)
    · rw [hother hq, (hold hq).1, hi.armed, hmem]
      exact ⟨Or.inr, fun h ↦ h.resolve_left hq⟩
  · by_cases hne : q = s.entries + 1
    · rw [hne, hself, hempty]
    · rw [hother hne, (hold hne).2.2] at hvalid
      rw [hother hne, (hold hne).2.1]
      exact hi.answered q ((hmem.mp hq).resolve_left hne) hvalid
  · by_cases hne : q = s.entries + 1
    · rw [hne, hself, hempty]
      exact Nat.zero_le 1
    · rw [hother hne, (hold hne).2.1]
      exact hi.short q ((hmem.mp hq).resolve_left hne)
  · -- the new entry holds no packet, so the account is the old one
    have hperm : (linked (inFront chain (aarptabHash a) (s.entries + 1))).Perm
        ((s.entries + 1) :: linked chain) := by
      rw [List.perm_ext_iff_of_nodup hchains.nodup
        (List.nodup_cons.mpr ⟨fun h ↦ hfresh h rfl, hi.chains.nodup⟩)]
      intro q
      rw [hmem, List.mem_cons]
    have hpendings : (State.pendings ((s.link a).setEntry (s.entries + 1) e)
        (linked (inFront chain (aarptabHash a) (s.entries + 1)))).Perm
        (s.pendings (linked chain)) := by
      apply (hperm.flatMap_right _).trans
      rw [List.flatMap_cons, hself, hempty, List.nil_append]
      apply List.Perm.of_eq
      apply pendings_congr
      intro q hq
      rw [hother (hfresh hq), (hold (hfresh hq)).2.1]
    show (flight ++ (s.link a).sent ++ (s.link a).dropped ++ _).Perm
      (List.range (s.link a).datagrams)
    rw [hsent, hdropped, hdatagrams]
    exact (hpendings.append_left _).trans hi.once

/-- An entry of the table is freed with its datagram. -/
theorem Inv.aarptfree (hi : Inv s chain flight) (hp : p ∈ linked chain) :
    Inv ((s.setEntry p { s.entry p with alarm := .disabled }).aarptfree p)
      (without chain (aarptabHash (s.addr p)) p) flight := by
  let t := s.setEntry p { s.entry p with alarm := .disabled }
  have htself : t.entry p = { s.entry p with alarm := .disabled } := by
    rw [setEntry_entry, if_pos rfl]
  have htother {q : Nat} (hq : q ≠ p) : t.entry q = s.entry q := by
    rw [setEntry_entry, if_neg hq]
  have hsame (q : Nat) : t.next q = s.next q ∧ t.prev q = s.prev q ∧ t.addr q = s.addr q := by
    by_cases hq : q = p
    · rw [hq, State.next, State.prev, State.addr, htself]
      exact ⟨rfl, rfl, rfl⟩
    · rw [State.next, State.prev, State.addr, htother hq]
      exact ⟨rfl, rfl, rfl⟩
  have hct : Chains t chain := hi.chains.congr rfl (fun q _ ↦ (hsame q).1)
    (fun q _ ↦ (hsame q).2.1) (fun q _ ↦ (hsame q).2.2)
  -- the lookup of its own address finds the entry, so the test does not stop the call
  have hlookup : t.aarpLookup (t.entry p).addr = p := aarpLookup_mem hct hi.length_le hp
  have haddr : aarptabHash (t.addr p) = aarptabHash (s.addr p) := by rw [(hsame p).2.2]
  obtain ⟨hentries, hfreed, -, -, hdatagrams, hsent, hdropped⟩ := unlink_same (s := t) (p := p)
  have hun (q : Nat) : ((t.unlink p).entry q).alarm = (t.entry q).alarm ∧
      ((t.unlink p).entry q).pending = (t.entry q).pending ∧
      ((t.unlink p).entry q).state = (t.entry q).state := by
    rw [unlink_entry]
    exact ⟨rfl, rfl, rfl⟩
  -- the state behind `free`
  rw [State.aarptfree, if_neg (not_not.mpr hlookup)]
  let u := (t.unlink p).setEntry p { (t.unlink p).entry p with alarm := .none }
  have huself : u.entry p = { (t.unlink p).entry p with alarm := .none } := by
    rw [setEntry_entry, if_pos rfl]
  let v : State := { u.freeQ p with freed := (u.freeQ p).freed ++ [p] }
  show Inv v _ flight
  have hvself : v.entry p = { (t.unlink p).entry p with alarm := .none, pending := [] } := by
    show (u.setEntry p { u.entry p with pending := [] }).entry p = _
    rw [setEntry_entry, if_pos rfl, huself]
  have hvother {q : Nat} (hq : q ≠ p) : v.entry q = (t.unlink p).entry q := by
    show (u.setEntry p { u.entry p with pending := [] }).entry q = _
    rw [setEntry_entry, if_neg hq, setEntry_entry, if_neg hq]
  have hmem {q : Nat} : q ∈ linked (without chain (aarptabHash (s.addr p)) p) ↔
      q ∈ linked chain ∧ q ≠ p := mem_linked_without hi.chains
  have hold {q : Nat} (hq : q ≠ p) : (v.entry q).alarm = (s.entry q).alarm ∧
      (v.entry q).pending = (s.entry q).pending ∧ (v.entry q).state = (s.entry q).state := by
    rw [hvother hq, ← htother hq]
    exact hun q
  -- the chain without the entry; its own links no longer matter
  have hchains : Chains v (without chain (aarptabHash (s.addr p)) p) := by
    rw [← haddr]
    have hun := hct.unlink hp
    refine hun.congr rfl (fun q _ ↦ ?_) (fun q _ ↦ ?_) (fun q _ ↦ ?_)
    · by_cases hq : q = p
      · rw [hq, State.next, State.next, hvself]
      · rw [State.next, State.next, hvother hq]
    · by_cases hq : q = p
      · rw [hq, State.prev, State.prev, hvself]
      · rw [State.prev, State.prev, hvother hq]
    · by_cases hq : q = p
      · rw [hq, State.addr, State.addr, hvself]
      · rw [State.addr, State.addr, hvother hq]
  have hfreed' : v.freed = s.freed ++ [p] := by
    show (t.unlink p).freed ++ [p] = _
    rw [hfreed]
    rfl
  have hentries' : v.entries = s.entries := hentries
  refine ⟨hchains, fun q hq ↦ ?_, fun q hq ↦ ?_, fun q ↦ ?_, fun q hq hvalid ↦ ?_,
    fun q hq ↦ ?_, ?_⟩
  · rw [hentries']
    exact hi.number q (hmem.mp hq).1
  · rw [hentries', hmem]
    rw [hfreed', List.mem_append, List.mem_singleton] at hq
    cases hq with
    | inl hq =>
        have hold := hi.freed q hq
        exact ⟨hold.1, fun h ↦ hold.2 h.1⟩
    | inr hq => exact ⟨hq ▸ hi.number p hp, fun h ↦ h.2 hq⟩
  · rw [hmem]
    by_cases hq : q = p
    · rw [hq, hvself]
      exact iff_of_false (fun h ↦ by cases h) (fun h ↦ h.2 rfl)
    · rw [(hold hq).1, hi.armed]
      exact ⟨fun h ↦ ⟨h, hq⟩, fun h ↦ h.1⟩
  · have hq' := hmem.mp hq
    rw [(hold hq'.2).2.2] at hvalid
    rw [(hold hq'.2).2.1]
    exact hi.answered q hq'.1 hvalid
  · have hq' := hmem.mp hq
    rw [(hold hq'.2).2.1]
    exact hi.short q hq'.1
  · -- the packet that waited in the entry is counted as dropped
    have hnodup := hi.chains.nodup
    have hperm : (linked (without chain (aarptabHash (s.addr p)) p)).Perm
        ((linked chain).erase p) := by
      rw [List.perm_ext_iff_of_nodup hchains.nodup (hnodup.erase p)]
      intro q
      rw [hmem, hnodup.mem_erase_iff]
      exact and_comm
    have hpendings : (v.pendings (linked (without chain (aarptabHash (s.addr p)) p))).Perm
        (s.pendings ((linked chain).erase p)) := by
      apply (hperm.flatMap_right _).trans
      apply List.Perm.of_eq
      apply pendings_congr
      intro q hq
      exact (hold (hnodup.mem_erase_iff.mp hq).1).2.1
    have hgone : (u.entry p).pending = (s.entry p).pending := by
      rw [huself, (hun p).2.1, htself]
    show (flight ++ (t.unlink p).sent ++ ((t.unlink p).dropped ++ (u.entry p).pending) ++ _).Perm
      (List.range (t.unlink p).datagrams)
    rw [hsent, hdropped, hdatagrams, hgone]
    apply (hpendings.append_left _).trans
    apply List.Perm.trans _ hi.once
    show (flight ++ s.sent ++ (s.dropped ++ (s.entry p).pending) ++ _).Perm _
    rw [← List.append_assoc _ s.dropped, List.append_assoc _ (s.entry p).pending]
    exact ((pendings_perm hp).symm.append_left _)

end

end PrintServer.Aarp
