import PrintServer.Atalk.Aarp
import Mathlib.Data.List.Nodup

/-!
# The chains of the AARP table

What holds of the chains, stated with the entries of each chain, and what the steps of aarp.c do to
them: an entry is put in front of its chain, taken out of it, or changed where no chain looks.
-/

namespace PrintServer.Aarp

open Lib

/-- The entries of all chains. -/
def linked (chain : Nat → List Nat) : List Nat := (List.range aarptabSize).flatMap chain

/-- The datagrams that wait in entries. -/
def State.pendings (s : State) (ps : List Nat) : List Nat :=
  ps.flatMap fun p ↦ (s.entry p).pending

namespace State

variable (s : State)

def next (p : Nat) : Nat := (s.entry p).next
def prev (p : Nat) : Nat := (s.entry p).prev
def addr (p : Nat) : AtAddr := (s.entry p).addr

end State

/-- Every chain runs through its entries and back, and holds only entries that belong there, with
an address that no other entry has. -/
structure Chains (s : State) (chain : Nat → List Nat) : Prop where
  links : ∀ h < aarptabSize, DoublyLinked s.next s.prev 0 0 (s.aarptab h) (chain h)
  hashed : ∀ h < aarptabSize, ∀ p ∈ chain h, aarptabHash (s.addr p) = h
  unique : ∀ p ∈ linked chain, ∀ q ∈ linked chain, s.addr p = s.addr q → p = q

section

variable {s s' : State} {chain : Nat → List Nat} {p q h : Nat} {a : AtAddr}

theorem mem_linked : p ∈ linked chain ↔ ∃ h < aarptabSize, p ∈ chain h := by
  simp only [linked, List.mem_flatMap, List.mem_range]

theorem aarptabHash_lt (a : AtAddr) : aarptabHash a < aarptabSize :=
  Nat.mod_lt _ (by decide)

namespace Chains

theorem ne_zero (hc : Chains s chain) (hp : p ∈ linked chain) : p ≠ 0 := by
  obtain ⟨h, hh, hp⟩ := mem_linked.mp hp
  exact (hc.links h hh).linked.ne_nil hp

theorem mem_chain (hc : Chains s chain) (hp : p ∈ linked chain) :
    p ∈ chain (aarptabHash (s.addr p)) := by
  obtain ⟨h, hh, hp⟩ := mem_linked.mp hp
  rw [hc.hashed h hh p hp]
  exact hp

theorem nodup (hc : Chains s chain) : (linked chain).Nodup := by
  apply List.nodup_flatMap.mpr
  constructor
  · exact fun h hh ↦ (hc.links h (List.mem_range.mp hh)).nodup
  · apply List.nodup_range.imp_of_mem
    intro h k hh hk hne p hp hq
    apply hne
    rw [← hc.hashed h (List.mem_range.mp hh) p hp, hc.hashed k (List.mem_range.mp hk) p hq]

/-- What the chains look at is the same. -/
theorem congr (hc : Chains s chain) (htab : s'.aarptab = s.aarptab)
    (hnext : ∀ p ∈ linked chain, s'.next p = s.next p)
    (hprev : ∀ p ∈ linked chain, s'.prev p = s.prev p)
    (haddr : ∀ p ∈ linked chain, s'.addr p = s.addr p) : Chains s' chain where
  links h hh := by
    have hmem {p : Nat} (hp : p ∈ chain h) : p ∈ linked chain := mem_linked.mpr ⟨h, hh, hp⟩
    rw [htab]
    exact (hc.links h hh).congr (fun p hp ↦ hnext p (hmem hp)) (fun p hp ↦ hprev p (hmem hp))
  hashed h hh p hp := by
    rw [haddr p (mem_linked.mpr ⟨h, hh, hp⟩)]
    exact hc.hashed h hh p hp
  unique p hp q hq heq := by
    rw [haddr p hp, haddr q hq] at heq
    exact hc.unique p hp q hq heq

end Chains

/-! ## `aarp_lookup` -/

theorem aarpLookup_eq (hc : Chains s chain)
    (hlen : ∀ h < aarptabSize, (chain h).length ≤ s.entries) :
    s.aarpLookup a = ((chain (aarptabHash a)).find? fun p ↦ s.addr p = a).getD 0 := by
  have hwalk := (hc.links _ (aarptabHash_lt a)).linked.walk_eq (hlen _ (aarptabHash_lt a))
  show ((walk s.next 0 s.entries _).find? _).getD 0 = _
  rw [hwalk]
  rfl

/-- `aarp_lookup` finds the entry with the address. -/
theorem aarpLookup_mem (hc : Chains s chain)
    (hlen : ∀ h < aarptabSize, (chain h).length ≤ s.entries) (hp : p ∈ linked chain) :
    s.aarpLookup (s.addr p) = p := by
  have hmem := hc.mem_chain hp
  rw [aarpLookup_eq hc hlen]
  obtain ⟨q, hq⟩ := Option.isSome_iff_exists.mp
    (List.find?_isSome (p := fun q ↦ decide (s.addr q = s.addr p)).mpr
      ⟨p, hmem, decide_eq_true rfl⟩)
  have haddr : s.addr q = s.addr p := by simpa using List.find?_some hq
  have hqmem := List.mem_of_find?_eq_some hq
  rw [hq, Option.getD_some]
  exact hc.unique q (mem_linked.mpr ⟨_, aarptabHash_lt _, hqmem⟩) p hp haddr

theorem aarpLookup_eq_zero (hc : Chains s chain)
    (hlen : ∀ h < aarptabSize, (chain h).length ≤ s.entries) (hzero : s.aarpLookup a = 0)
    (hp : p ∈ linked chain) : s.addr p ≠ a := by
  intro heq
  rw [← heq, aarpLookup_mem hc hlen hp] at hzero
  exact hc.ne_zero hp hzero

/-- What `aarp_lookup` finds is an entry with the address. -/
theorem aarpLookup_ne_zero (hc : Chains s chain)
    (hlen : ∀ h < aarptabSize, (chain h).length ≤ s.entries) (hne : s.aarpLookup a ≠ 0) :
    s.aarpLookup a ∈ linked chain ∧ s.addr (s.aarpLookup a) = a := by
  rw [aarpLookup_eq hc hlen] at hne ⊢
  cases hfind : (chain (aarptabHash a)).find? fun p ↦ s.addr p = a with
  | none =>
      rw [hfind] at hne
      exact absurd rfl hne
  | some q =>
      have haddr : s.addr q = a := by simpa using List.find?_some hfind
      exact ⟨mem_linked.mpr ⟨_, aarptabHash_lt a, List.mem_of_find?_eq_some hfind⟩, haddr⟩

/-! ## A new entry -/

/-- The entries behind `link`. -/
theorem link_entry (hhead : s.aarptab (aarptabHash a) ≠ s.entries + 1) :
    (s.link a).entry p =
      if p = s.entries + 1 then
        { Entry.clear with next := s.aarptab (aarptabHash a), addr := a }
      else if p = s.aarptab (aarptabHash a) ∧ p ≠ 0 then
        { s.entry p with prev := s.entries + 1 }
      else s.entry p := by
  rw [State.link]
  by_cases hzero : s.aarptab (aarptabHash a) = 0
  · rw [if_neg (not_not.mpr hzero)]
    show Function.update s.entry (s.entries + 1) _ p = _
    rw [Function.update_apply, hzero, if_neg (fun h : p = 0 ∧ p ≠ 0 ↦ h.2 h.1)]
  · rw [if_pos hzero]
    show Function.update (Function.update s.entry (s.entries + 1) _) _ _ p = _
    rw [Function.update_apply]
    by_cases hp : p = s.aarptab (aarptabHash a)
    · rw [if_pos hp, hp, if_neg hhead, if_pos ⟨rfl, hzero⟩]
      show { Function.update s.entry (s.entries + 1) _ _ with prev := _ : Entry } = _
      rw [Function.update_of_ne hhead]
    · rw [if_neg hp, if_neg (c := p = _ ∧ p ≠ 0) (fun h ↦ hp h.1)]
      show Function.update s.entry (s.entries + 1) _ p = _
      rw [Function.update_apply]

theorem link_same : (s.link a).entries = s.entries + 1 ∧ (s.link a).freed = s.freed ∧
    (s.link a).iface = s.iface ∧ (s.link a).input = s.input ∧
    (s.link a).datagrams = s.datagrams ∧ (s.link a).sent = s.sent ∧
    (s.link a).dropped = s.dropped ∧
    (s.link a).aarptab = Function.update s.aarptab (aarptabHash a) (s.entries + 1) := by
  rw [State.link]
  split
  · exact ⟨rfl, rfl, rfl, rfl, rfl, rfl, rfl, rfl⟩
  · exact ⟨rfl, rfl, rfl, rfl, rfl, rfl, rfl, rfl⟩

/-- The chains with the entry `p` in front of chain `h`. -/
def inFront (chain : Nat → List Nat) (h p : Nat) : Nat → List Nat :=
  Function.update chain h (p :: chain h)

theorem mem_linked_inFront (hh : h < aarptabSize) :
    q ∈ linked (inFront chain h p) ↔ q = p ∨ q ∈ linked chain := by
  simp only [mem_linked, inFront, Function.update_apply]
  constructor
  · intro ⟨k, hk, hq⟩
    by_cases hkh : k = h
    · rw [if_pos hkh] at hq
      rcases List.mem_cons.mp hq with hq | hq
      · exact Or.inl hq
      · exact Or.inr ⟨h, hh, hq⟩
    · rw [if_neg hkh] at hq
      exact Or.inr ⟨k, hk, hq⟩
  · intro hq
    rcases hq with hq | ⟨k, hk, hq⟩
    · exact ⟨h, hh, by rw [if_pos rfl, hq]; exact List.mem_cons_self⟩
    · refine ⟨k, hk, ?_⟩
      by_cases hkh : k = h
      · rw [if_pos hkh]
        exact List.mem_cons_of_mem p (hkh ▸ hq)
      · rw [if_neg hkh]
        exact hq

theorem Chains.head_mem (hc : Chains s chain) (hh : h < aarptabSize) (hne : s.aarptab h ≠ 0) :
    s.aarptab h ∈ chain h := by
  have hl := hc.links h hh
  cases hchain : chain h with
  | nil =>
      rw [hchain] at hl
      exact absurd hl hne
  | cons x xs =>
      rw [hchain] at hl
      rw [hl.1]
      exact List.mem_cons_self

theorem Chains.link (hc : Chains s chain) (hnew : ∀ p ∈ linked chain, s.addr p ≠ a)
    (hnumber : ∀ p ∈ linked chain, p ≤ s.entries) :
    Chains (s.link a) (inFront chain (aarptabHash a) (s.entries + 1)) := by
  have hlt := aarptabHash_lt a
  have hfresh {q : Nat} (hq : q ∈ linked chain) : q ≠ s.entries + 1 := by
    have hle := hnumber q hq
    omega
  have hhead : s.aarptab (aarptabHash a) ≠ s.entries + 1 := by
    intro heq
    have hmem := hc.head_mem hlt (by omega)
    exact hfresh (mem_linked.mpr ⟨_, hlt, hmem⟩) heq
  have hentry (q : Nat) := link_entry (p := q) hhead
  have haddr {q : Nat} (hq : q ∈ linked chain) : (s.link a).addr q = s.addr q := by
    rw [State.addr, hentry, if_neg (hfresh hq)]
    split
    · rfl
    · rfl
  have hnext {q : Nat} (hq : q ∈ linked chain) : (s.link a).next q = s.next q := by
    rw [State.next, hentry, if_neg (hfresh hq)]
    split
    · rfl
    · rfl
  have hprev {q : Nat} (hq : q ∈ linked chain) (hne : q ≠ s.aarptab (aarptabHash a)) :
      (s.link a).prev q = s.prev q := by
    rw [State.prev, hentry, if_neg (hfresh hq), if_neg (fun h ↦ hne h.1)]
    rfl
  have hnewEntry : (s.link a).entry (s.entries + 1) =
      { Entry.clear with next := s.aarptab (aarptabHash a), addr := a } := by
    rw [hentry, if_pos rfl]
  have hnewAddr : (s.link a).addr (s.entries + 1) = a := by
    rw [State.addr, hnewEntry]
  refine ⟨fun h hh ↦ ?_, fun h hh q hq ↦ ?_, fun q hq q' hq' heq ↦ ?_⟩
  · have hlinks := hc.links h hh
    have hmem {q : Nat} (hq : q ∈ chain h) : q ∈ linked chain := mem_linked.mpr ⟨h, hh, hq⟩
    rw [link_same.2.2.2.2.2.2.2, inFront, Function.update_apply, Function.update_apply]
    by_cases heq : h = aarptabHash a
    · rw [if_pos heq, if_pos heq, ← heq]
      apply hlinks.push (Nat.succ_ne_zero _)
      · rw [State.next, hnewEntry, heq]
      · rw [State.prev, hnewEntry]
        rfl
      · exact fun q hq ↦ hnext (hmem hq)
      · intro hne
        have hq := hmem (hc.head_mem hh hne)
        rw [State.prev, hentry, if_neg (hfresh hq), heq, if_pos ⟨rfl, heq ▸ hne⟩]
      · exact fun q hq hne ↦ hprev (hmem hq) (heq ▸ hne)
    · rw [if_neg heq, if_neg heq]
      apply hlinks.congr (fun q hq ↦ hnext (hmem hq))
      intro q hq
      apply hprev (hmem hq)
      -- a head belongs to its own chain
      intro hhd
      apply heq
      rw [← hc.hashed h hh q hq, hhd]
      apply hc.hashed _ hlt
      apply hc.head_mem hlt
      rw [← hhd]
      exact hc.ne_zero (hmem hq)
  · rw [inFront, Function.update_apply] at hq
    by_cases heq : h = aarptabHash a
    · rw [if_pos heq] at hq
      rcases List.mem_cons.mp hq with rfl | hq
      · rw [hnewAddr, heq]
      · rw [haddr (mem_linked.mpr ⟨_, hlt, hq⟩), heq]
        exact hc.hashed _ hlt q hq
    · rw [if_neg heq] at hq
      rw [haddr (mem_linked.mpr ⟨h, hh, hq⟩)]
      exact hc.hashed h hh q hq
  · rw [mem_linked_inFront hlt] at hq hq'
    rcases hq with rfl | hq
    · rcases hq' with rfl | hq'
      · rfl
      · rw [hnewAddr, haddr hq'] at heq
        exact absurd heq.symm (hnew q' hq')
    · rcases hq' with rfl | hq'
      · rw [hnewAddr, haddr hq] at heq
        exact absurd heq (hnew q hq)
      · rw [haddr hq, haddr hq'] at heq
        exact hc.unique q hq q' hq' heq

/-! ## An entry is taken out -/

theorem setEntry_entry (p : Nat) (e : Entry) (q : Nat) :
    (s.setEntry p e).entry q = if q = p then e else s.entry q :=
  Function.update_apply s.entry p e q

theorem unlinkNext_entry (e : Entry) : (s.unlinkNext e).entry q =
    { s.entry q with prev := if q = e.next ∧ q ≠ 0 then e.prev else s.prev q } := by
  rw [State.unlinkNext]
  by_cases hx : e.next = 0
  · rw [if_neg (not_not.mpr hx), hx, if_neg (fun h ↦ h.2 h.1)]
    rfl
  · rw [if_pos hx, setEntry_entry]
    by_cases hq : q = e.next
    · rw [if_pos hq, hq, if_pos ⟨rfl, hx⟩]
    · rw [if_neg hq, if_neg (fun h ↦ hq h.1)]
      rfl

theorem unlinkPrev_entry (e : Entry) : (s.unlinkPrev e).entry q =
    { s.entry q with next := if q = e.prev ∧ q ≠ 0 then e.next else s.next q } := by
  rw [State.unlinkPrev]
  by_cases hy : e.prev = 0
  · rw [if_neg (not_not.mpr hy), hy, if_neg (fun h ↦ h.2 h.1)]
    rfl
  · rw [if_pos hy, setEntry_entry]
    by_cases hq : q = e.prev
    · rw [if_pos hq, hq, if_pos ⟨rfl, hy⟩]
    · rw [if_neg hq, if_neg (fun h ↦ hq h.1)]
      rfl

/-- The links of the neighbours of the entry `p` are the ones that change. -/
theorem unlink_entry : (s.unlink p).entry q =
    { s.entry q with
      next := if q = s.prev p ∧ q ≠ 0 then s.next p else s.next q
      prev := if q = s.next p ∧ q ≠ 0 then s.prev p else s.prev q } := by
  rw [State.unlink, unlinkPrev_entry, State.next, unlinkNext_entry]
  rfl

theorem unlink_same : (s.unlink p).entries = s.entries ∧ (s.unlink p).freed = s.freed ∧
    (s.unlink p).iface = s.iface ∧ (s.unlink p).input = s.input ∧
    (s.unlink p).datagrams = s.datagrams ∧ (s.unlink p).sent = s.sent ∧
    (s.unlink p).dropped = s.dropped := by
  rw [State.unlink, State.unlinkPrev, State.unlinkNext]
  split
  · split
    · exact ⟨rfl, rfl, rfl, rfl, rfl, rfl, rfl⟩
    · exact ⟨rfl, rfl, rfl, rfl, rfl, rfl, rfl⟩
  · split
    · exact ⟨rfl, rfl, rfl, rfl, rfl, rfl, rfl⟩
    · exact ⟨rfl, rfl, rfl, rfl, rfl, rfl, rfl⟩

theorem unlink_aarptab : (s.unlink p).aarptab =
    if s.prev p = 0 then Function.update s.aarptab (aarptabHash (s.addr p)) (s.next p)
    else s.aarptab := by
  have hnext : (s.unlinkNext (s.entry p)).aarptab = s.aarptab := by
    rw [State.unlinkNext]
    split
    · rfl
    · rfl
  rw [State.unlink, State.unlinkPrev, hnext, State.prev]
  by_cases hy : (s.entry p).prev = 0
  · rw [if_pos hy, if_neg (not_not.mpr hy)]
    rfl
  · rw [if_neg hy, if_pos hy]
    exact hnext

/-- The chains without the entry `p` of chain `h`. -/
def without (chain : Nat → List Nat) (h p : Nat) : Nat → List Nat :=
  Function.update chain h ((chain h).erase p)

theorem mem_linked_without (hc : Chains s chain) :
    q ∈ linked (without chain (aarptabHash (s.addr p)) p) ↔ q ∈ linked chain ∧ q ≠ p := by
  have hlt := aarptabHash_lt (s.addr p)
  have hnodup := (hc.links _ hlt).nodup
  simp only [mem_linked, without, Function.update_apply]
  constructor
  · intro ⟨k, hk, hq⟩
    by_cases hkh : k = aarptabHash (s.addr p)
    · rw [if_pos hkh, hnodup.mem_erase_iff] at hq
      exact ⟨⟨_, hlt, hq.2⟩, hq.1⟩
    · rw [if_neg hkh] at hq
      refine ⟨⟨k, hk, hq⟩, fun heq ↦ hkh ?_⟩
      rw [← hc.hashed k hk q hq, heq]
  · intro ⟨⟨k, hk, hq⟩, hne⟩
    refine ⟨k, hk, ?_⟩
    by_cases hkh : k = aarptabHash (s.addr p)
    · rw [if_pos hkh, hnodup.mem_erase_iff]
      exact ⟨hne, hkh ▸ hq⟩
    · rw [if_neg hkh]
      exact hq

/-- The entry in front of `p` in its chain, if there is one. -/
theorem Chains.prev_mem (hc : Chains s chain) (hp : p ∈ linked chain) (hne : s.prev p ≠ 0) :
    s.prev p ∈ chain (aarptabHash (s.addr p)) := by
  obtain ⟨us, vs, hsplit⟩ := List.append_of_mem (hc.mem_chain hp)
  have hlinks := hc.links _ (aarptabHash_lt (s.addr p))
  rw [hsplit] at hlinks ⊢
  rw [hlinks.prev_eq] at hne ⊢
  cases us with
  | nil => exact absurd rfl hne
  | cons u us =>
      rw [List.getLast?_eq_some_getLast (List.cons_ne_nil u us), Option.getD_some]
      exact List.mem_append_left _ (List.getLast_mem _)

/-- The entry behind `p` in its chain, if there is one. -/
theorem Chains.next_mem (hc : Chains s chain) (hp : p ∈ linked chain) (hne : s.next p ≠ 0) :
    s.next p ∈ chain (aarptabHash (s.addr p)) := by
  obtain ⟨us, vs, hsplit⟩ := List.append_of_mem (hc.mem_chain hp)
  have hlinks := (hc.links _ (aarptabHash_lt (s.addr p))).linked
  rw [hsplit] at hlinks ⊢
  have hrest := hlinks.drop_of_append
  cases vs with
  | nil => exact absurd hrest hne
  | cons v vs =>
      rw [hrest.1]
      exact List.mem_append_right us (List.mem_cons_of_mem p List.mem_cons_self)

theorem Chains.unlink (hc : Chains s chain) (hp : p ∈ linked chain) :
    Chains (s.unlink p) (without chain (aarptabHash (s.addr p)) p) := by
  have hlt := aarptabHash_lt (s.addr p)
  have haddr (q : Nat) : (s.unlink p).addr q = s.addr q := by
    rw [State.addr, unlink_entry]
    rfl
  have hnext (q : Nat) :
      (s.unlink p).next q = if q = s.prev p ∧ q ≠ 0 then s.next p else s.next q := by
    rw [State.next, unlink_entry]
  have hprev (q : Nat) :
      (s.unlink p).prev q = if q = s.next p ∧ q ≠ 0 then s.prev p else s.prev q := by
    rw [State.prev, unlink_entry]
  refine ⟨fun h hh ↦ ?_, fun h hh q hq ↦ ?_, fun q hq q' hq' heq ↦ ?_⟩
  · have hlinks := hc.links h hh
    have hzero {q : Nat} (hq : q ∈ chain h) : q ≠ 0 := hlinks.linked.ne_nil hq
    rw [unlink_aarptab]
    by_cases heq : h = aarptabHash (s.addr p)
    · obtain ⟨us, vs, -, hsplit, herase⟩ := List.exists_erase_eq (hc.mem_chain hp)
      have hchain : without chain (aarptabHash (s.addr p)) p h = us ++ vs := by
        rw [without, heq, Function.update_self, herase]
      rw [← heq] at hsplit
      rw [hsplit] at hlinks hzero
      have hfront : us = [] ↔ s.prev p = 0 := by
        rw [hlinks.prev_eq]
        cases us with
        | nil => exact iff_of_true rfl rfl
        | cons u us =>
            rw [List.getLast?_eq_some_getLast (List.cons_ne_nil u us), Option.getD_some]
            refine iff_of_false (List.cons_ne_nil u us) (hzero ?_)
            exact List.mem_append_left _ (List.getLast_mem _)
      have hremove : DoublyLinked (s.unlink p).next (s.unlink p).prev 0 0
          (if us = [] then s.next p else s.aarptab h) (us ++ vs) := by
        apply hlinks.remove (fun h ↦ hzero h rfl)
        · exact fun q _ hne ↦ by rw [hnext, if_neg (fun h ↦ hne h.1)]
        · exact fun hus ↦ by rw [hnext, if_pos ⟨rfl, fun h ↦ hus (hfront.mpr h)⟩]
        · exact fun q _ hne ↦ by rw [hprev, if_neg (fun h ↦ hne h.1)]
        · exact fun hne ↦ by rw [hprev, if_pos ⟨rfl, hne⟩]
      rw [hchain, ← heq]
      by_cases hus : us = []
      · rw [if_pos hus] at hremove
        rw [if_pos (hfront.mp hus), Function.update_self]
        exact hremove
      · rw [if_neg hus] at hremove
        rw [if_neg (fun h ↦ hus (hfront.mpr h))]
        exact hremove
    · have hhead : (if s.prev p = 0 then
          Function.update s.aarptab (aarptabHash (s.addr p)) (s.next p) else s.aarptab) h =
          s.aarptab h := by
        split
        · exact Function.update_of_ne heq _ _
        · rfl
      rw [hhead, without, Function.update_of_ne heq]
      -- the neighbours of `p` belong to its own chain
      have hother {q : Nat} (hq : q ∈ chain h) : q ∉ chain (aarptabHash (s.addr p)) :=
        fun hq' ↦ heq ((hc.hashed h hh q hq).symm.trans (hc.hashed _ hlt q hq'))
      apply hlinks.congr
      · intro q hq
        rw [hnext, if_neg]
        intro ⟨hqp, hne⟩
        exact hother hq (hqp ▸ hc.prev_mem hp (hqp ▸ hne))
      · intro q hq
        rw [hprev, if_neg]
        intro ⟨hqp, hne⟩
        exact hother hq (hqp ▸ hc.next_mem hp (hqp ▸ hne))
  · rw [haddr]
    rw [without, Function.update_apply] at hq
    by_cases heq : h = aarptabHash (s.addr p)
    · rw [if_pos heq] at hq
      rw [heq]
      exact hc.hashed _ hlt q (List.mem_of_mem_erase hq)
    · rw [if_neg heq] at hq
      exact hc.hashed h hh q hq
  · rw [haddr, haddr] at heq
    exact hc.unique q ((mem_linked_without hc).mp hq).1 q'
      ((mem_linked_without hc).mp hq').1 heq

end

end PrintServer.Aarp
