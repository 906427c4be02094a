import PrintServer.Lib.Machine
import PrintServer.Lib.Threads
import Mathlib.Data.List.Nodup

/-!
# The packets for the wireless card

`SendPacket`, `send_pkt` and `send_eap_pkt` (pkdriver.c) count a packet in one locked section and
queue it in another; between the two they allocate the buffer.  `WLAN_TX_Thread` takes the packets
out, sends them and counts them off.  The count limits what is under way.
-/

namespace PrintServer.Wlan

open Lib

inductive Fn
  | sendPacket
  | sendPkt
  | sendEapPkt
deriving DecidableEq

/-- What `bridge_dst_lookup` and `usb_usb_send` make of the destination. -/
inductive Dst
  | wlan
  | lan
  | uLan
  | other
deriving DecidableEq

/-- The call comes to the wireless part: for a packet to the card, or to no interface that is
known. -/
def ForWlan (fn : Fn) (dst : Dst) (length : Nat) : Prop :=
  length ≤ 1514 ∧ (fn = .sendEapPkt ∨ dst = .wlan ∨ dst = .other)

instance (fn : Fn) (dst : Dst) (length : Nat) : Decidable (ForWlan fn dst length) :=
  inferInstanceAs (Decidable (_ ∧ _))

/-- A thread outside the three functions, before the first locked section, before the allocation,
and before the second section with its packet. -/
inductive Place
  | idle
  | entering
  | counted
  | filled (pSkb : Nat)
deriving DecidableEq

/-- It has counted a packet that is not in the queue yet. -/
def Place.owes : Place → Bool
  | .counted => true
  | .filled _ => true
  | _ => false

/-- `WLAN_TX_Thread` looks at the queue, has a packet in hand, or has to count it off. -/
inductive TxPlace
  | polling
  | taken (pSkb : Nat)
  | sent
deriving DecidableEq

/-- Packets are numbered as they are allocated.  The last three fields are records and no variables
of the program: the packets in the order they were queued and were handed to `Wlan_SendPacket`,
and how many were under way whenever a sender was refused. -/
structure State where
  /-- `WLan_queuecount` -/
  queuecount : Int
  /-- `WLAN_READ_QUEUE` -/
  queue : List Nat
  pc : Nat → Place
  tx : TxPlace
  packets : Nat
  queued : List Nat
  handed : List Nat
  refusals : List Nat

namespace State

variable (s : State)

def inHand : List Nat :=
  match s.tx with
  | .taken pSkb => [pSkb]
  | _ => []

def beingSent : Nat := if s.tx = .polling then 0 else 1

/-- In the queue, counted but not in it yet, or being sent, with `n` threads. -/
def outstanding (n : Nat) : Nat := s.queue.length + countAt Place.owes s.pc n + s.beingSent

def setPc (t : Nat) (p : Place) : State := { s with pc := Function.update s.pc t p }

end State

/-- One step of thread `t`, or of `WLAN_TX_Thread`; `memory` tells whether `dev_alloc_skb` gets a
buffer. -/
inductive Act
  | call (t : Nat) (fn : Fn) (dst : Dst) (length : Nat)
  | count (t : Nat)
  | alloc (t : Nat) (memory : Bool)
  | enqueue (t : Nat)
  | dequeue
  | send
  | countOff
deriving DecidableEq

def stepThread (n : Nat) (s : State) (t : Nat) : Act → Option State
  | .call _ fn dst length =>
      if s.pc t = .idle then
        some (if ForWlan fn dst length then s.setPc t .entering else s)
      else none
  | .count _ =>
      if s.pc t = .entering then
        if s.queuecount > 10 then
          some { s.setPc t .idle with refusals := s.refusals ++ [s.outstanding n] }
        else some { s.setPc t .counted with queuecount := s.queuecount + 1 }
      else none
  | .alloc _ memory =>
      if s.pc t = .counted then
        if memory then some { s.setPc t (.filled s.packets) with packets := s.packets + 1 }
        -- `return -1`, with the packet still counted
        else some (s.setPc t .idle)
      else none
  | .enqueue _ =>
      match s.pc t with
      | .filled pSkb =>
          some { s.setPc t .idle with queue := s.queue ++ [pSkb], queued := s.queued ++ [pSkb] }
      | _ => none
  | _ => none

/-- `WLAN_TX_Thread`; without a packet it looks again, after a post of the semaphore or 10 ticks. -/
def stepTx (s : State) : Act → Option State
  | .dequeue =>
      if s.tx = .polling then
        match s.queue with
        | [] => some s
        | pSkb :: queue => some { s with queue, tx := .taken pSkb }
      else none
  | .send =>
      match s.tx with
      | .taken pSkb => some { s with handed := s.handed ++ [pSkb], tx := .sent }
      | _ => none
  | .countOff =>
      if s.tx = .sent then some { s with queuecount := s.queuecount - 1, tx := .polling } else none
  | _ => none

def Act.thread : Act → Option Nat
  | .call t _ _ _ => some t
  | .count t => some t
  | .alloc t _ => some t
  | .enqueue t => some t
  | _ => none

def step (n : Nat) (s : State) (a : Act) : Option State :=
  match a.thread with
  | some t => if t < n then stepThread n s t a else none
  | none => stepTx s a

def start : State where
  queuecount := 0
  queue := []
  pc _ := .idle
  tx := .polling
  packets := 0
  queued := []
  handed := []
  refusals := []

/-- `n` threads that send, and `WLAN_TX_Thread`. -/
def wlan (n : Nat) : Machine State Act := ⟨start, step n⟩

/-! ## What the count is for -/

/-- The count is what is under way, the packets are sent in the order they were queued and once
each, and nobody was refused while ten or less were under way. -/
structure Sound (n : Nat) (s : State) : Prop where
  count : s.queuecount = s.outstanding n
  order : s.handed ++ s.inHand ++ s.queue = s.queued
  once : s.queued.Nodup
  refused : ∀ k ∈ s.refusals, 10 < k

/-- Whoever has counted a packet gets a buffer for it. -/
def Allocates (n : Nat) (s : State) : Act → Prop
  | .alloc t memory => t < n → s.pc t = .counted → memory = true
  | _ => True

structure Inv (n : Nat) (s : State) : Prop extends Sound n s where
  numbered : ∀ x ∈ s.queued, x < s.packets
  fresh : ∀ t < n, ∀ x, s.pc t = .filled x → x < s.packets ∧ x ∉ s.queued
  apart : ∀ t < n, ∀ u < n, ∀ x, s.pc t = .filled x → s.pc u = .filled x → t = u

section

variable {n t : Nat} {s s' : State} {p : Place}

theorem outstanding_setPc (ht : t < n) :
    (s.setPc t p).outstanding n + (if (s.pc t).owes then 1 else 0) =
      s.outstanding n + if p.owes then 1 else 0 := by
  have h := countAt_update Place.owes s.pc p ht
  show s.queue.length + countAt Place.owes (Function.update s.pc t p) n + s.beingSent + _ =
    s.queue.length + countAt Place.owes s.pc n + s.beingSent + _
  omega

theorem setPc_self : (s.setPc t p).pc t = p := by
  show Function.update s.pc t p t = p
  rw [Function.update_self]

theorem setPc_of_ne {u : Nat} (h : u ≠ t) : (s.setPc t p).pc u = s.pc u := by
  show Function.update s.pc t p u = s.pc u
  rw [Function.update_of_ne h]

/-- A thread goes to a place without a packet. -/
theorem Inv.setPc (hi : Inv n s) (hp : ∀ x, p ≠ .filled x) :
    (∀ u < n, ∀ x, (s.setPc t p).pc u = .filled x → x < s.packets ∧ x ∉ s.queued) ∧
      ∀ u < n, ∀ v < n, ∀ x, (s.setPc t p).pc u = .filled x → (s.setPc t p).pc v = .filled x →
        u = v := by
  have hold {u x : Nat} (h : (s.setPc t p).pc u = .filled x) : s.pc u = .filled x := by
    by_cases hu : u = t
    · rw [hu, setPc_self] at h
      exact absurd h (hp x)
    · rwa [setPc_of_ne hu] at h
  exact ⟨fun u hu x h ↦ hi.fresh u hu x (hold h),
    fun u hu v hv x h h' ↦ hi.apart u hu v hv x (hold h) (hold h')⟩

theorem Inv.call (hi : Inv n s) (ht : t < n) (hpc : s.pc t = .idle) (hp : p = .entering) :
    Inv n (s.setPc t p) := by
  have hout := outstanding_setPc (s := s) (p := p) ht
  have hfresh := hi.setPc (t := t) (p := p) fun x h ↦ by rw [hp] at h; cases h
  rw [hpc, hp] at hout
  refine ⟨⟨?_, hi.order, hi.once, hi.refused⟩, hi.numbered, hfresh.1, hfresh.2⟩
  have hcount := hi.count
  show s.queuecount = _
  rw [hp]
  simp only [Place.owes, Bool.false_eq_true, if_false, Nat.add_zero] at hout
  omega

theorem Inv.refuse (hi : Inv n s) (ht : t < n) (hpc : s.pc t = .entering)
    (hfull : s.queuecount > 10) :
    Inv n { s.setPc t .idle with refusals := s.refusals ++ [s.outstanding n] } := by
  have hout := outstanding_setPc (s := s) (p := .idle) ht
  have hfresh := hi.setPc (t := t) (p := .idle) fun x h ↦ by cases h
  have hcount := hi.count
  rw [hpc] at hout
  simp only [Place.owes, Bool.false_eq_true, if_false, Nat.add_zero] at hout
  refine ⟨⟨?_, hi.order, hi.once, fun k hk ↦ ?_⟩, hi.numbered, hfresh.1, hfresh.2⟩
  · show s.queuecount = ((s.setPc t .idle).outstanding n : Int)
    omega
  · cases List.mem_append.mp hk with
    | inl h => exact hi.refused k h
    | inr h =>
        rw [List.mem_singleton.mp h]
        omega

theorem Inv.count_step (hi : Inv n s) (ht : t < n) (hpc : s.pc t = .entering) :
    Inv n { s.setPc t .counted with queuecount := s.queuecount + 1 } := by
  have hout := outstanding_setPc (s := s) (p := .counted) ht
  have hfresh := hi.setPc (t := t) (p := .counted) fun x h ↦ by cases h
  have hcount := hi.count
  rw [hpc] at hout
  simp only [Place.owes, Bool.false_eq_true, if_false, if_true, Nat.add_zero] at hout
  refine ⟨⟨?_, hi.order, hi.once, hi.refused⟩, hi.numbered, hfresh.1, hfresh.2⟩
  show s.queuecount + 1 = ((s.setPc t .counted).outstanding n : Int)
  omega

theorem Inv.alloc (hi : Inv n s) (ht : t < n) (hpc : s.pc t = .counted) :
    Inv n { s.setPc t (.filled s.packets) with packets := s.packets + 1 } := by
  have hout := outstanding_setPc (s := s) (p := .filled s.packets) ht
  have hcount := hi.count
  rw [hpc] at hout
  simp only [Place.owes, if_true] at hout
  have hnew {u x : Nat} (h : (s.setPc t (.filled s.packets)).pc u = .filled x) :
      u = t ∧ x = s.packets ∨ u ≠ t ∧ s.pc u = .filled x := by
    by_cases hu : u = t
    · rw [hu, setPc_self] at h
      exact Or.inl ⟨hu, (Place.filled.inj h).symm⟩
    · rw [setPc_of_ne hu] at h
      exact Or.inr ⟨hu, h⟩
  refine ⟨⟨?_, hi.order, hi.once, hi.refused⟩, fun x hx ↦ ?_, fun u hu x h ↦ ?_,
    fun u hu v hv x h h' ↦ ?_⟩
  · show s.queuecount = ((s.setPc t (.filled s.packets)).outstanding n : Int)
    omega
  · exact Nat.lt_succ_of_lt (hi.numbered x hx)
  · show x < s.packets + 1 ∧ x ∉ s.queued
    rcases hnew h with ⟨-, rfl⟩ | ⟨-, hold⟩
    · exact ⟨Nat.lt_succ_self _, fun hx ↦ Nat.lt_irrefl _ (hi.numbered _ hx)⟩
    · have hfresh := hi.fresh u hu x hold
      exact ⟨Nat.lt_succ_of_lt hfresh.1, hfresh.2⟩
  · rcases hnew h with ⟨hut, hx⟩ | ⟨-, hold⟩
    · rcases hnew h' with ⟨hvt, -⟩ | ⟨-, hold'⟩
      · rw [hut, hvt]
      · have hlt := (hi.fresh v hv x hold').1
        omega
    · rcases hnew h' with ⟨-, hx⟩ | ⟨-, hold'⟩
      · have hlt := (hi.fresh u hu x hold).1
        omega
      · exact hi.apart u hu v hv x hold hold'

theorem Inv.enqueue {x : Nat} (hi : Inv n s) (ht : t < n) (hpc : s.pc t = .filled x) :
    Inv n { s.setPc t .idle with queue := s.queue ++ [x], queued := s.queued ++ [x] } := by
  have hcount := hi.count
  have hx := hi.fresh t ht x hpc
  have hcountAt := countAt_update Place.owes s.pc .idle ht
  rw [hpc] at hcountAt
  simp only [Place.owes, Bool.false_eq_true, if_false, if_true, Nat.add_zero] at hcountAt
  have hold {u y : Nat} (h : (s.setPc t .idle).pc u = .filled y) : u ≠ t ∧ s.pc u = .filled y := by
    by_cases hu : u = t
    · rw [hu, setPc_self] at h
      cases h
    · rw [setPc_of_ne hu] at h
      exact ⟨hu, h⟩
  refine ⟨⟨?_, ?_, ?_, hi.refused⟩, fun y hy ↦ ?_, fun u hu y h ↦ ?_, fun u hu v hv y h h' ↦ ?_⟩
  · show s.queuecount = (((s.queue ++ [x]).length +
      countAt Place.owes (Function.update s.pc t .idle) n + s.beingSent : Nat) : Int)
    rw [hcount, State.outstanding, List.length_append, List.length_singleton]
    omega
  · show s.handed ++ s.inHand ++ (s.queue ++ [x]) = s.queued ++ [x]
    rw [← hi.order, List.append_assoc _ s.queue]
  · exact List.nodup_append.mpr ⟨hi.once, List.nodup_singleton x, fun a ha b hb heq ↦
      hx.2 (List.mem_singleton.mp hb ▸ heq ▸ ha)⟩
  · cases List.mem_append.mp hy with
    | inl h => exact hi.numbered y h
    | inr h => exact List.mem_singleton.mp h ▸ hx.1
  · have hfresh := hi.fresh u hu y (hold h).2
    refine ⟨hfresh.1, fun hy ↦ ?_⟩
    cases List.mem_append.mp hy with
    | inl hy => exact hfresh.2 hy
    | inr hy =>
        rw [List.mem_singleton.mp hy] at h
        exact (hold h).1 (hi.apart u hu t ht x (hold h).2 hpc)
  · exact hi.apart u hu v hv y (hold h).2 (hold h').2

theorem Inv.dequeue {x : Nat} {queue : List Nat} (hi : Inv n s) (htx : s.tx = .polling)
    (hqueue : s.queue = x :: queue) : Inv n { s with queue, tx := .taken x } := by
  have hcount := hi.count
  have horder := hi.order
  refine ⟨⟨?_, ?_, hi.once, hi.refused⟩, hi.numbered, hi.fresh, hi.apart⟩
  · show s.queuecount = ((queue.length + countAt Place.owes s.pc n + 1 : Nat) : Int)
    rw [hcount, State.outstanding, State.beingSent, if_pos htx, hqueue, List.length_cons]
    omega
  · rw [State.inHand, htx, hqueue] at horder
    show s.handed ++ [x] ++ queue = s.queued
    rw [← horder, List.append_nil, List.append_assoc, List.singleton_append]

theorem Inv.send {x : Nat} (hi : Inv n s) (htx : s.tx = .taken x) :
    Inv n { s with handed := s.handed ++ [x], tx := .sent } := by
  have hcount := hi.count
  have horder := hi.order
  rw [State.outstanding, State.beingSent, htx, if_neg fun h ↦ by cases h] at hcount
  rw [State.inHand, htx] at horder
  refine ⟨⟨hcount, ?_, hi.once, hi.refused⟩, hi.numbered, hi.fresh, hi.apart⟩
  show s.handed ++ [x] ++ [] ++ s.queue = s.queued
  rw [List.append_nil]
  exact horder

theorem Inv.countOff (hi : Inv n s) (htx : s.tx = .sent) :
    Inv n { s with queuecount := s.queuecount - 1, tx := .polling } := by
  have hcount := hi.count
  have horder := hi.order
  rw [State.outstanding, State.beingSent, htx, if_neg (by decide)] at hcount
  rw [State.inHand, htx] at horder
  refine ⟨⟨?_, horder, hi.once, hi.refused⟩, hi.numbered, hi.fresh, hi.apart⟩
  show s.queuecount - 1 = ((s.queue.length + countAt Place.owes s.pc n + 0 : Nat) : Int)
  omega

theorem Inv.start : Inv n start where
  count := by
    have hzero : countAt Place.owes (fun _ ↦ Place.idle) n = 0 := by
      rw [countAt, List.countP_eq_zero]
      intro t _ h
      cases h
    show (0 : Int) = ((0 + countAt Place.owes (fun _ ↦ Place.idle) n + 0 : Nat) : Int)
    rw [hzero]
    rfl
  order := rfl
  once := List.nodup_nil
  refused := nofun
  numbered := nofun
  fresh _ _ _ h := by cases h
  apart _ _ _ _ _ h := by cases h

theorem Inv.stepThread {a : Act} (hi : Inv n s) (hok : Allocates n s a) (ht : t < n)
    (hthread : a.thread = some t) (hstep : stepThread n s t a = some s') : Inv n s' := by
  cases a with
  | call u fn dst length =>
      simp only [Wlan.stepThread, Option.ite_none_right_eq_some, Option.some.injEq] at hstep
      rw [← hstep.2]
      split
      · exact hi.call ht hstep.1 rfl
      · exact hi
  | count u =>
      simp only [Wlan.stepThread, Option.ite_none_right_eq_some] at hstep
      obtain ⟨hpc, hstep⟩ := hstep
      split at hstep
      · rw [← Option.some.inj hstep]
        exact hi.refuse ht hpc ‹_›
      · rw [← Option.some.inj hstep]
        exact hi.count_step ht hpc
  | alloc u memory =>
      simp only [Wlan.stepThread, Option.ite_none_right_eq_some] at hstep
      obtain ⟨hpc, hstep⟩ := hstep
      have hu : u = t := Option.some.inj hthread
      have hmemory : memory = true := hok (hu ▸ ht) (hu ▸ hpc)
      rw [if_pos hmemory] at hstep
      rw [← Option.some.inj hstep]
      exact hi.alloc ht hpc
  | enqueue u =>
      rw [Wlan.stepThread] at hstep
      split at hstep
      · rw [← Option.some.inj hstep]
        exact hi.enqueue ht ‹_›
      · cases hstep
  | dequeue => cases hstep
  | send => cases hstep
  | countOff => cases hstep

theorem Inv.stepTx {a : Act} (hi : Inv n s) (hstep : stepTx s a = some s') : Inv n s' := by
  cases a with
  | call u fn dst length => cases hstep
  | count u => cases hstep
  | alloc u memory => cases hstep
  | enqueue u => cases hstep
  | dequeue =>
      simp only [Wlan.stepTx, Option.ite_none_right_eq_some] at hstep
      obtain ⟨htx, hstep⟩ := hstep
      split at hstep
      · rw [← Option.some.inj hstep]
        exact hi
      · rw [← Option.some.inj hstep]
        exact hi.dequeue htx ‹_›
  | send =>
      rw [Wlan.stepTx] at hstep
      split at hstep
      · rw [← Option.some.inj hstep]
        exact hi.send ‹_›
      · cases hstep
  | countOff =>
      simp only [Wlan.stepTx, Option.ite_none_right_eq_some, Option.some.injEq] at hstep
      rw [← hstep.2]
      exact hi.countOff hstep.1

theorem Inv.step {a : Act} (hi : Inv n s) (hok : Allocates n s a)
    (hstep : step n s a = some s') : Inv n s' := by
  rw [Wlan.step] at hstep
  split at hstep
  · rw [Option.ite_none_right_eq_some] at hstep
    exact hi.stepThread hok hstep.1 ‹_› hstep.2
  · exact hi.stepTx hstep

/-- A packet without a buffer stays counted. -/
theorem leak {a : Act} (hi : Inv n s) (hno : ¬Allocates n s a) :
    ∃ s', step n s a = some s' ∧ ¬Sound n s' := by
  cases a with
  | alloc t memory =>
      simp only [Allocates, Classical.not_imp, Bool.not_eq_true] at hno
      obtain ⟨ht, hpc, hmemory⟩ := hno
      refine ⟨s.setPc t .idle, ?_, fun hsound ↦ ?_⟩
      · simp only [Wlan.step, Act.thread, if_pos ht, stepThread, if_pos hpc, hmemory,
          Bool.false_eq_true, if_false]
      · have hout := outstanding_setPc (s := s) (p := .idle) ht
        have hcount := hi.count
        have hcount' : s.queuecount = ((s.setPc t .idle).outstanding n : Int) := hsound.count
        rw [hpc] at hout
        simp only [Place.owes, Bool.false_eq_true, if_false, if_true, Nat.add_zero] at hout
        omega
  | call t fn dst length => exact absurd trivial hno
  | count t => exact absurd trivial hno
  | enqueue t => exact absurd trivial hno
  | dequeue => exact absurd trivial hno
  | send => exact absurd trivial hno
  | countOff => exact absurd trivial hno

end

/-- The count is exact in every state of a run just when no allocation fails in it behind the
count. -/
theorem count_exact_iff (n : Nat) (acts : List Act) :
    (∀ k s, (wlan n).run (acts.take k) = some s → Sound n s) ↔
      (wlan n).Along (Allocates n) start acts := by
  apply Iff.symm
  apply @Machine.along_iff _ _ (wlan n) (Allocates n) (Inv n) (Sound n)
  · exact fun s hi ↦ hi.toSound
  · exact fun s a t hi hok hstep ↦ hi.step hok hstep
  · exact fun s a hi hno ↦ leak hi hno
  · exact Inv.start

/-- One thread whose first eleven packets get no buffer, and that sends once more. -/
def elevenFailures : List Act :=
  (List.replicate 11 [.call 0 .sendPkt .wlan 60, .count 0, .alloc 0 false]).flatten ++
    [.call 0 .sendPkt .wlan 60, .count 0]

/-- It is refused with nothing under way. -/
theorem elevenFailures_block : ¬∀ (n : Nat) (acts : List Act) (s : State),
    (wlan n).run acts = some s → Sound n s := by
  intro hall
  have hblocked : ((wlan 1).run elevenFailures).map
      (fun s ↦ (s.queuecount, s.refusals)) = some (11, [0]) := by decide
  obtain ⟨s, hrun, hs⟩ := Option.map_eq_some_iff.mp hblocked
  have hzero : (0 : Nat) ∈ s.refusals := by
    rw [(Prod.mk.inj hs).2]
    exact List.mem_singleton_self 0
  exact absurd ((hall 1 elevenFailures s hrun).refused 0 hzero) (by decide)

end PrintServer.Wlan
