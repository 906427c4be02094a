import Mathlib.Data.List.Nodup
import Mathlib.Data.List.Perm.Basic
import PrintServer.Atalk.Ddp

/-!
# Datagrams are delivered once

What came for a socket is what its thread was given, followed by what is queued.  A datagram that is
nothing but its header breaks this, and so does one that comes while the thread, which found
nothing, is about to clear its semaphore.
-/

namespace PrintServer.Atalk

open Lib

variable {my : AtAddr} {s t : Ddp} {up : DdpCb} {ddps others : List DdpCb} {atport : UInt8}
  {frame bp : List UInt8} {d : Datagram}

/-! ## What should hold -/

def datagramOf (bp : List UInt8) : Datagram :=
  ⟨AtSocket.ofOctets (bp.take sizeofAtSocket), bp.drop sizeofAtSocket⟩

/-- What holds of a socket. -/
structure Delivers (s : Ddp) (up : DdpCb) : Prop where
  count : up.rcvcnt = up.rcvq.length
  once : s.returned up.atport ++ up.rcvq.map datagramOf = s.arrived up.atport
  wakes : up.reader = .waiting → up.rcvq = []

structure DdpSafe (s : Ddp) : Prop where
  tame : s.wild = false
  delivers : ∀ up ∈ s.ddps, Delivers s up

/-- A frame that is not longer than it says, for an open socket of this node, has octets behind its
header, or says that it has not even that; nothing was queued since the thread of a socket found its
queue empty when it clears the semaphore; and no thread is in a socket that is closed. -/
def DdpOk (s : Ddp) : DdpAct → Prop
  | .input frame => sizeofDdpehdr ≤ frame.length → frame.length ≤ amBufSize →
      atIsMyAddr frame s.my = true → dehLen frame ≤ frame.length →
      (ddpLookup (dehDport frame) s.ddps).isSome → dehLen frame = 0 ∨ sizeofDdpehdr < dehLen frame
  | .recv atport _ => ∀ up ∈ s.ddps, up.atport = atport → up.reader = .empty →
      up.mode ≠ .noblock → up.rcvq = []
  | .delDdp atport => ∀ up ∈ s.ddps, up.atport = atport → up.reader = .idle
  | _ => True

instance (s : Ddp) (a : DdpAct) : Decidable (DdpOk s a) := by
  cases a <;> unfold DdpOk <;> infer_instance

/-! ## The list of control blocks -/

theorem ddpLookup_eq_none (h : ddpLookup atport ddps = none) : ∀ up ∈ ddps, up.atport ≠ atport := by
  induction ddps with
  | nil =>
    intro up hup
    cases hup
  | cons a ddps ih =>
    rw [ddpLookup] at h
    split at h
    · cases h
    · next hne =>
      intro up hup
      cases hup with
      | head => exact Ne.symm hne
      | tail _ hup => exact ih (Option.map_eq_none_iff.mp h) up hup

theorem ddpLookup_eq_some (h : ddpLookup atport ddps = some (up, others)) :
    up.atport = atport ∧ (up :: others).Perm ddps := by
  induction ddps generalizing others with
  | nil => cases h
  | cons a ddps ih =>
    rw [ddpLookup] at h
    split at h
    · next heq =>
      obtain ⟨rfl, rfl⟩ := Prod.mk.inj (Option.some.inj h)
      exact ⟨heq.symm, List.Perm.refl _⟩
    · obtain ⟨⟨found, others'⟩, hfound, heq⟩ := Option.map_eq_some_iff.mp h
      obtain ⟨rfl, rfl⟩ := Prod.mk.inj heq
      obtain ⟨hport, hperm⟩ := ih hfound
      exact ⟨hport, (List.Perm.swap _ _ _).trans (hperm.cons a)⟩

/-! ## Input -/

theorem post_rcvq (up : DdpCb) : up.post.rcvq = up.rcvq := by
  rw [DdpCb.post]
  split <;> rfl

/-- The frames that `ddp_input` goes on with behind its tests. -/
def accepted (my : AtAddr) (frame : List UInt8) : Prop :=
  sizeofDdpehdr ≤ frame.length ∧ frame.length ≤ amBufSize ∧ atIsMyAddr frame my = true ∧
    dehLen frame ≤ frame.length

instance : Decidable (accepted my frame) := by
  unfold accepted
  infer_instance

theorem ddpInput_of_not_accepted (h : ¬accepted my frame) :
    ddpInput my ddps frame = some ddps ∧ carried my frame = none := by
  constructor
  · rw [ddpInput]
    split
    · rfl
    split
    · rfl
    split
    · rfl
    split
    · rfl
    · next hhigh hlow hmy hlen =>
      exact absurd ⟨by omega, by omega, not_not.mp hmy, by omega⟩ h
  · rw [carried, if_neg]
    intro ⟨hlow, hhigh, hmy, _, hlen⟩
    exact h ⟨hlow, hhigh, hmy, hlen⟩

/-- The length of a frame is trimmed to its length field. -/
theorem trim_eq (hlen : dehLen frame ≤ frame.length) (hhigh : frame.length ≤ amBufSize)
    (hpos : 0 < dehLen frame) :
    (if frame.length > dehLen frame then trimMbuf2 frame (dehLen frame) else some frame) =
      some (frame.take (dehLen frame)) := by
  split
  · rw [trimMbuf2, if_neg]
    omega
  · rw [List.take_of_length_le (by omega)]

/-- A header is taken off a longer buffer. -/
theorem pullup2_eq (bp : List UInt8) {cnt : Nat} (hcnt : 0 < cnt) (hlen : cnt < bp.length)
    (hsize : bp.length ≤ amBufSize) :
    pullup2 bp cnt = ⟨cnt, bp.take cnt, some (bp.drop cnt)⟩ := by
  simp only [pullup2, if_neg (show ¬cnt = 0 by omega), Nat.min_eq_left (Nat.le_of_lt hlen),
    if_neg (show ¬(cnt > amBufSize ∨ bp.length > amBufSize) by omega),
    if_neg (show ¬bp.length - cnt = 0 by omega)]

theorem pushdown2_eq (bp : List UInt8) {buf : List UInt8} (hbuf : 0 < buf.length)
    (hsize : bp.length + buf.length ≤ amBufSize) :
    pushdown2 (some bp) buf = some (0, some (buf ++ bp)) := by
  simp only [pushdown2,
    if_neg (show ¬(buf.length = 0 ∨ buf.length > amBufSize) by omega),
    if_neg (show ¬(bp.length > amBufSize ∨ bp.length + buf.length > amBufSize) by omega)]

/-- A frame with data is queued with its sender in front. -/
theorem ddpInput_of_data (h : accepted my frame) (hdata : sizeofDdpehdr < dehLen frame)
    (hup : ddpLookup (dehDport frame) ddps = some (up, others)) :
    ddpInput my ddps frame = some ((up.enqueue ((dehSource frame).octets ++
      (frame.take (dehLen frame)).drop sizeofDdpehdr)).post :: others) := by
  obtain ⟨hlow, hhigh, hmy, hlen⟩ := h
  have hsize : sizeofDdpehdr = 12 := rfl
  have hfour : (dehSource frame).octets.length = 4 := rfl
  have htake : (frame.take (dehLen frame)).length = dehLen frame := List.length_take_of_le hlen
  have hpull := pullup2_eq (frame.take (dehLen frame)) (show 0 < sizeofDdpehdr by omega)
    (by omega) (by omega)
  have hrest : ((frame.take (dehLen frame)).drop sizeofDdpehdr).length = dehLen frame - 12 := by
    rw [List.length_drop, htake, hsize]
  have hpush := pushdown2_eq ((frame.take (dehLen frame)).drop sizeofDdpehdr)
    (show 0 < (dehSource frame).octets.length by omega) (by omega)
  rw [ddpInput, if_neg (by omega), if_neg (by omega), if_neg (not_not.mpr hmy),
    if_neg (by omega), hup]
  simp only [trim_eq hlen hhigh (by omega), hpull, hpush,
    if_neg (show ¬sizeofDdpehdr = 0 by omega)]

/-- A frame that says that it is empty is dropped. -/
theorem ddpInput_of_empty (h : accepted my frame) (hdata : dehLen frame = 0)
    (hup : ddpLookup (dehDport frame) ddps = some (up, others)) :
    ddpInput my ddps frame = some (up :: others) := by
  obtain ⟨hlow, hhigh, hmy, hlen⟩ := h
  have hsize : sizeofDdpehdr = 12 := rfl
  have htrim : (if frame.length > dehLen frame then trimMbuf2 frame (dehLen frame)
      else some frame) = none := by
    rw [if_pos (by omega), trimMbuf2, if_pos (Or.inl hdata)]
  rw [ddpInput, if_neg (by omega), if_neg (by omega), if_neg (not_not.mpr hmy),
    if_neg (by omega), hup]
  simp only [htrim]

/-- `ddp_input` queues the datagram of a frame, if it carries one, and nothing else. -/
theorem ddpInput_cases (hok : DdpOk s (.input frame)) :
    (ddpLookup (dehDport frame) s.ddps = none ∧ ddpInput s.my s.ddps frame = some s.ddps) ∨
      ∃ up others, ddpLookup (dehDport frame) s.ddps = some (up, others) ∧
        ((carried s.my frame = none ∧ (ddpInput s.my s.ddps frame = some s.ddps ∨
            ddpInput s.my s.ddps frame = some (up :: others))) ∨
          ∃ bp, carried s.my frame = some (datagramOf bp) ∧ sizeofAtSocket < bp.length ∧
            bp.length ≤ amBufSize ∧
            ddpInput s.my s.ddps frame = some ((up.enqueue bp).post :: others)) := by
  cases hup : ddpLookup (dehDport frame) s.ddps with
  | none =>
    refine Or.inl ⟨rfl, ?_⟩
    by_cases h : accepted s.my frame
    · obtain ⟨hlow, hhigh, hmy, hlen⟩ := h
      rw [ddpInput, if_neg (by omega), if_neg (by omega), if_neg (not_not.mpr hmy),
        if_neg (by omega), hup]
    · exact (ddpInput_of_not_accepted h).1
  | some found =>
    obtain ⟨up, others⟩ := found
    refine Or.inr ⟨up, others, rfl, ?_⟩
    by_cases h : accepted s.my frame
    · have hlength := hok h.1 h.2.1 h.2.2.1 h.2.2.2 (hup ▸ rfl)
      obtain ⟨hlow, hhigh, hmy, hlen⟩ := id h
      obtain hzero | hdata := hlength
      · refine Or.inl ⟨?_, Or.inr (ddpInput_of_empty h hzero hup)⟩
        rw [carried, if_neg]
        intro ⟨_, _, _, hpos, _⟩
        omega
      · apply Or.inr
        have hfour : (dehSource frame).octets.length = 4 := rfl
        have hsocket : sizeofAtSocket = 4 := rfl
        have hsize : sizeofDdpehdr = 12 := rfl
        refine ⟨_, ?_, ?_, ?_, ddpInput_of_data h hdata hup⟩
        · rw [carried, if_pos ⟨hlow, hhigh, hmy, hdata, hlen⟩]
          rfl
        · rw [List.length_append, List.length_drop, List.length_take_of_le hlen]
          omega
        · rw [List.length_append, List.length_drop, List.length_take_of_le hlen]
          omega
    · obtain ⟨hsame, hnone⟩ := @ddpInput_of_not_accepted s.my s.ddps frame h
      exact Or.inl ⟨hnone, Or.inl hsame⟩

/-! ## The invariant -/

/-- What holds of a socket between any two steps. -/
structure SocketInv (s : Ddp) (up : DdpCb) : Prop extends Delivers s up where
  shape : ∀ bp ∈ up.rcvq, sizeofAtSocket < bp.length ∧ bp.length ≤ amBufSize
  posted : up.reader = .wait → up.rcvq ≠ [] → 0 < up.sem

structure DdpInv (s : Ddp) : Prop where
  tame : s.wild = false
  ports : (s.ddps.map (·.atport)).Nodup
  sockets : ∀ up ∈ s.ddps, SocketInv s up

theorem DdpInv.safe (hs : DdpInv s) : DdpSafe s :=
  ⟨hs.tame, fun up hup ↦ (hs.sockets up hup).toDelivers⟩

theorem ddpStart_inv (my : AtAddr) : DdpInv (ddpStart my) := by
  refine ⟨rfl, List.nodup_nil, ?_⟩
  intro up hup
  cases hup

/-- A socket whose port nothing happens to. -/
theorem SocketInv.same (h : SocketInv s up) (harrived : t.arrived up.atport = s.arrived up.atport)
    (hreturned : t.returned up.atport = s.returned up.atport) : SocketInv t up where
  count := h.count
  once := by
    rw [harrived, hreturned]
    exact h.once
  wakes := h.wakes
  shape := h.shape
  posted := h.posted

theorem addAt_of_ne (f : UInt8 → List Datagram) {p q : UInt8} (d : Option Datagram) (h : q ≠ p) :
    addAt f p d q = f q := Function.update_of_ne h ..

theorem addAt_self (f : UInt8 → List Datagram) (p : UInt8) (d : Option Datagram) :
    addAt f p d p = f p ++ d.toList := Function.update_self ..

theorem addAt_none (f : UInt8 → List Datagram) (p q : UInt8) : addAt f p none q = f q := by
  by_cases h : q = p
  · rw [h, addAt_self, Option.toList_none, List.append_nil]
  · exact addAt_of_ne f none h

/-- A datagram is queued and the thread is woken. -/
theorem SocketInv.enqueue {bp : List UInt8} (h : SocketInv s up) (hlow : sizeofAtSocket < bp.length)
    (hhigh : bp.length ≤ amBufSize)
    (harrived : t.arrived up.atport = s.arrived up.atport ++ [datagramOf bp])
    (hreturned : t.returned up.atport = s.returned up.atport) :
    SocketInv t (up.enqueue bp).post := by
  have hport : (up.enqueue bp).post.atport = up.atport := by
    rw [DdpCb.post]
    split <;> rfl
  have hcount : (up.enqueue bp).post.rcvcnt = up.rcvcnt + 1 := by
    rw [DdpCb.post]
    split <;> rfl
  have hqueue : (up.enqueue bp).post.rcvq = up.rcvq ++ [bp] := post_rcvq _
  constructor
  · constructor
    · rw [hcount, hqueue, h.count, List.length_append, List.length_singleton]
      omega
    · rw [hport, harrived, hreturned, hqueue, List.map_append, ← List.append_assoc, h.once]
      rfl
    · intro hwaiting
      rw [DdpCb.post] at hwaiting
      split at hwaiting
      · cases hwaiting
      · next hnot => exact absurd hwaiting hnot
  · intro b hb
    rw [hqueue] at hb
    obtain hb | hb := List.mem_append.mp hb
    · exact h.shape b hb
    · rw [List.mem_singleton.mp hb]
      exact ⟨hlow, hhigh⟩
  · intro hwait _
    rw [DdpCb.post] at hwait ⊢
    split at hwait
    · cases hwait
    · next hnot =>
      rw [if_neg hnot]
      exact Nat.succ_pos _

theorem ddpInput_inv (hs : DdpInv s) (hok : DdpOk s (.input frame))
    (hstep : ddpStep s (.input frame) = some t) : DdpInv t := by
  obtain ⟨hnone, hsame⟩ | ⟨up, others, hup, hcase⟩ := ddpInput_cases hok
  · -- no socket has this port
    rw [ddpStep, hsame] at hstep
    obtain rfl := Option.some.inj hstep
    refine ⟨hs.tame, hs.ports, ?_⟩
    intro cb hcb
    have hne := ddpLookup_eq_none hnone cb hcb
    exact (hs.sockets cb hcb).same (addAt_of_ne _ _ hne) rfl
  · obtain ⟨hport, hperm⟩ := ddpLookup_eq_some hup
    have hports : ((up :: others).map (·.atport)).Nodup := (hperm.map _).nodup_iff.mpr hs.ports
    have hothers : ∀ cb ∈ others, cb.atport ≠ up.atport := by
      intro cb hcb heq
      rw [List.map_cons, List.nodup_cons] at hports
      exact hports.1 (heq ▸ List.mem_map_of_mem hcb)
    obtain ⟨hnothing, hinput⟩ | ⟨bp, hdata, hlow, hhigh, hinput⟩ := hcase
    · have hsockets : ∀ cb ∈ s.ddps, SocketInv
          { s with arrived := addAt s.arrived (dehDport frame) none } cb :=
        fun cb hcb ↦ (hs.sockets cb hcb).same (addAt_none _ _ _) rfl
      rw [ddpStep, hnothing] at hstep
      obtain hsame | hmoved := hinput
      · rw [hsame] at hstep
        obtain rfl := Option.some.inj hstep
        exact ⟨hs.tame, hs.ports, fun cb hcb ↦ (hsockets cb hcb).same rfl rfl⟩
      · rw [hmoved] at hstep
        obtain rfl := Option.some.inj hstep
        exact ⟨hs.tame, hports, fun cb hcb ↦ (hsockets cb (hperm.subset hcb)).same rfl rfl⟩
    · rw [ddpStep, hdata, hinput] at hstep
      obtain rfl := Option.some.inj hstep
      have hnew : (up.enqueue bp).post.atport = up.atport := by
        rw [DdpCb.post]
        split <;> rfl
      refine ⟨hs.tame, ?_, ?_⟩
      · rw [List.map_cons, hnew]
        exact hports
      · intro cb hcb
        cases hcb with
        | head =>
          apply (hs.sockets up (hperm.subset List.mem_cons_self)).enqueue hlow hhigh
          · rw [hport]
            exact addAt_self ..
          · rfl
        | tail _ hcb =>
          apply (hs.sockets cb (hperm.subset (List.mem_cons_of_mem _ hcb))).same
          · apply addAt_of_ne
            rw [← hport]
            exact hothers cb hcb
          · rfl

/-! ## The thread of a socket -/

/-- The thread moves, and its queue stays. -/
theorem SocketInv.move {up' : DdpCb} (h : SocketInv s up) (hport : up'.atport = up.atport)
    (hqueue : up'.rcvq = up.rcvq) (hcount : up'.rcvcnt = up.rcvcnt)
    (hwakes : up'.reader = .waiting → up.rcvq = [])
    (hposted : up'.reader = .wait → up.rcvq ≠ [] → 0 < up'.sem)
    (harrived : t.arrived up.atport = s.arrived up.atport)
    (hreturned : t.returned up.atport = s.returned up.atport) : SocketInv t up' where
  count := by
    rw [hcount, hqueue]
    exact h.count
  once := by
    rw [hport, hqueue, harrived, hreturned]
    exact h.once
  wakes := by
    rw [hqueue]
    exact hwakes
  shape := by
    rw [hqueue]
    exact h.shape
  posted := by
    rw [hqueue]
    exact hposted

theorem recvStep_inv {up' : DdpCb} {expired : Bool} {d : Option Datagram} (h : SocketInv s up)
    (hok : up.reader = .empty → up.mode ≠ .noblock → up.rcvq = [])
    (hstep : recvStep up expired = some (up', d))
    (harrived : t.arrived up.atport = s.arrived up.atport)
    (hreturned : t.returned up.atport = s.returned up.atport ++ d.toList) :
    up'.atport = up.atport ∧ SocketInv t up' := by
  rw [recvStep] at hstep
  have hnothing : d = none → t.returned up.atport = s.returned up.atport := by
    intro hd
    rw [hreturned, hd, Option.toList_none, List.append_nil]
  cases hr : up.reader with
  | idle =>
    rw [hr] at hstep
    obtain ⟨rfl, rfl⟩ := Prod.mk.inj (Option.some.inj hstep)
    refine ⟨rfl, h.move rfl rfl rfl ?_ ?_ harrived (hnothing rfl)⟩
    · intro hw
      cases hw
    · intro hw
      cases hw
  | count =>
    rw [hr] at hstep
    obtain ⟨rfl, rfl⟩ := Prod.mk.inj (Option.some.inj hstep)
    refine ⟨rfl, h.move rfl rfl rfl ?_ ?_ harrived (hnothing rfl)⟩
    · intro hw
      dsimp only at hw
      split at hw <;> cases hw
    · intro hw
      dsimp only at hw
      split at hw <;> cases hw
  | dequeue =>
    rw [hr] at hstep
    cases hq : up.rcvq with
    | nil =>
      rw [hq] at hstep
      obtain ⟨rfl, rfl⟩ := Prod.mk.inj (Option.some.inj hstep)
      refine ⟨rfl, h.move rfl hq.symm rfl ?_ ?_ harrived (hnothing rfl)⟩
      · intro hw
        cases hw
      · intro hw
        cases hw
    | cons buf rcvq =>
      -- the head of the queue is the datagram returned
      obtain ⟨hlow, hhigh⟩ := h.shape buf (hq ▸ List.mem_cons_self)
      rw [hq] at hstep
      simp only [pullup2_eq buf (show 0 < sizeofAtSocket by decide) hlow hhigh,
        if_neg (show ¬sizeofAtSocket = 0 by decide)] at hstep
      obtain ⟨rfl, rfl⟩ := Prod.mk.inj (Option.some.inj hstep)
      refine ⟨rfl, ?_⟩
      have hcount := h.count
      have honce := h.once
      rw [hq] at hcount honce
      constructor
      · constructor
        · show up.rcvcnt - 1 = rcvq.length
          rw [hcount, List.length_cons]
          omega
        · show t.returned up.atport ++ rcvq.map datagramOf = t.arrived up.atport
          rw [hreturned, harrived, ← honce, List.append_assoc]
          rfl
        · intro hw
          cases hw
      · exact fun bp hbp ↦ h.shape bp (hq ▸ List.mem_cons_of_mem _ hbp)
      · intro hw
        cases hw
  | empty =>
    rw [hr] at hstep
    dsimp only at hstep
    split at hstep
    · obtain ⟨rfl, rfl⟩ := Prod.mk.inj (Option.some.inj hstep)
      refine ⟨rfl, h.move rfl rfl rfl ?_ ?_ harrived (hnothing rfl)⟩
      · intro hw
        cases hw
      · intro hw
        cases hw
    · next hmode =>
      obtain ⟨rfl, rfl⟩ := Prod.mk.inj (Option.some.inj hstep)
      refine ⟨rfl, h.move rfl rfl rfl ?_ ?_ harrived (hnothing rfl)⟩
      · intro hw
        cases hw
      · -- the semaphore is cleared, and nothing is queued
        intro _ hne
        exact absurd (hok hr hmode) hne
  | wait =>
    rw [hr] at hstep
    dsimp only at hstep
    split at hstep
    · next hsem =>
      obtain ⟨rfl, rfl⟩ := Prod.mk.inj (Option.some.inj hstep)
      refine ⟨rfl, h.move rfl rfl rfl ?_ ?_ harrived (hnothing rfl)⟩
      · intro _
        by_contra hne
        have hpos := h.posted hr hne
        omega
      · intro hw
        cases hw
    · obtain ⟨rfl, rfl⟩ := Prod.mk.inj (Option.some.inj hstep)
      refine ⟨rfl, h.move rfl rfl rfl ?_ ?_ harrived (hnothing rfl)⟩
      · intro hw
        cases hw
      · intro hw
        cases hw
  | waiting =>
    rw [hr] at hstep
    dsimp only at hstep
    split at hstep
    · obtain ⟨rfl, rfl⟩ := Prod.mk.inj (Option.some.inj hstep)
      refine ⟨rfl, h.move rfl rfl rfl ?_ ?_ harrived (hnothing rfl)⟩
      · intro hw
        cases hw
      · intro hw
        cases hw
    · cases hstep

theorem freeQueue_length (rcvq : List (List UInt8)) : freeQueue rcvq.length rcvq = some [] := by
  induction rcvq with
  | nil => rfl
  | cons b rcvq ih => exact ih

/-! ## Over a run -/

theorem ddpStep_inv {a : DdpAct} (hs : DdpInv s) (hok : DdpOk s a) (hstep : ddpStep s a = some t) :
    DdpInv t := by
  cases a with
  | address my =>
    obtain rfl := Option.some.inj hstep
    exact ⟨hs.tame, hs.ports, fun up hup ↦ (hs.sockets up hup).same rfl rfl⟩
  | openDdp atport mode =>
    rw [ddpStep] at hstep
    cases hup : ddpLookup atport s.ddps with
    | some found =>
      obtain ⟨up, others⟩ := found
      rw [hup] at hstep
      obtain rfl := Option.some.inj hstep
      -- the port is open already, and the lookup only moves its block to the front
      have hperm := (ddpLookup_eq_some hup).2
      refine ⟨hs.tame, (hperm.map _).nodup_iff.mpr hs.ports, ?_⟩
      exact fun cb hcb ↦ (hs.sockets cb (hperm.subset hcb)).same rfl rfl
    | none =>
      rw [hup] at hstep
      obtain rfl := Option.some.inj hstep
      -- a new block, with an empty queue and an account that starts again
      have hne := ddpLookup_eq_none hup
      refine ⟨hs.tame, ?_, ?_⟩
      · rw [List.map_cons, List.nodup_cons]
        refine ⟨?_, hs.ports⟩
        intro hmem
        obtain ⟨cb, hcb, hport⟩ := List.mem_map.mp hmem
        exact hne cb hcb hport
      · intro cb hcb
        cases hcb with
        | head =>
          refine ⟨⟨rfl, ?_, fun _ ↦ rfl⟩, ?_, ?_⟩
          · show Function.update s.returned atport [] atport ++ [] =
              Function.update s.arrived atport [] atport
            rw [Function.update_self, Function.update_self]
            rfl
          · intro bp hbp
            cases hbp
          · intro hw
            cases hw
        | tail _ hcb =>
          exact (hs.sockets cb hcb).same (Function.update_of_ne (hne cb hcb) ..)
            (Function.update_of_ne (hne cb hcb) ..)
  | setsockopt atport mode =>
    obtain rfl := Option.some.inj hstep
    refine ⟨hs.tame, ?_, ?_⟩
    · have hmap : (s.ddps.map fun up ↦ if up.atport = atport then { up with mode } else up).map
          (·.atport) = s.ddps.map (·.atport) := by
        rw [List.map_map]
        apply List.map_congr_left
        intro cb _
        show DdpCb.atport (if cb.atport = atport then { cb with mode } else cb) = cb.atport
        split <;> rfl
      rw [hmap]
      exact hs.ports
    · intro cb hcb
      obtain ⟨up, hup, rfl⟩ := List.mem_map.mp hcb
      have h := hs.sockets up hup
      split
      · exact h.move rfl rfl rfl h.wakes h.posted rfl rfl
      · exact h.same rfl rfl
  | input frame => exact ddpInput_inv hs hok hstep
  | recv atport expired =>
    rw [ddpStep] at hstep
    cases hup : ddpLookup atport s.ddps with
    | none =>
      rw [hup] at hstep
      cases hstep
    | some found =>
      obtain ⟨up, others⟩ := found
      rw [hup] at hstep
      obtain ⟨⟨up', d⟩, hrecv, rfl⟩ := Option.map_eq_some_iff.mp hstep
      obtain ⟨hport, hperm⟩ := ddpLookup_eq_some hup
      have hmem : up ∈ s.ddps := hperm.subset List.mem_cons_self
      subst hport
      -- the reader moves one block, and the others keep their accounts
      have hmoved : up'.atport = up.atport ∧ SocketInv { s with
          ddps := s.ddps.map fun cb ↦ if cb.atport = up.atport then up' else cb
          returned := addAt s.returned up.atport d } up' :=
        recvStep_inv (hs.sockets up hmem) (hok up hmem rfl) hrecv rfl (addAt_self ..)
      obtain ⟨hsame, hinv⟩ := hmoved
      refine ⟨hs.tame, ?_, ?_⟩
      · have hmap : (s.ddps.map fun cb ↦ if cb.atport = up.atport then up' else cb).map
            (·.atport) = s.ddps.map (·.atport) := by
          rw [List.map_map]
          apply List.map_congr_left
          intro cb _
          show DdpCb.atport (if cb.atport = up.atport then up' else cb) = cb.atport
          split
          · next heq => exact hsame.trans heq.symm
          · rfl
        rw [hmap]
        exact hs.ports
      · intro cb hcb
        obtain ⟨old, hold, heq⟩ := List.mem_map.mp hcb
        by_cases hmoves : old.atport = up.atport
        · rw [if_pos hmoves] at heq
          exact heq ▸ hinv
        · rw [if_neg hmoves] at heq
          exact heq ▸ (hs.sockets old hold).same rfl (addAt_of_ne _ _ hmoves)
  | delDdp atport =>
    rw [ddpStep] at hstep
    cases hup : ddpLookup atport s.ddps with
    | none =>
      rw [hup] at hstep
      obtain rfl := Option.some.inj hstep
      exact hs
    | some found =>
      obtain ⟨up, others⟩ := found
      obtain ⟨hport, hperm⟩ := ddpLookup_eq_some hup
      have hmem : up ∈ s.ddps := hperm.subset List.mem_cons_self
      -- the counter is the length of the queue, so the loop frees all of it
      have hcount : up.rcvcnt.toNat = up.rcvq.length := by
        rw [(hs.sockets up hmem).count]
        rfl
      have hidle : ¬up.reader ≠ .idle := not_not.mpr (hok up hmem hport)
      rw [hup] at hstep
      simp only [if_neg hidle, hcount, freeQueue_length] at hstep
      obtain rfl := Option.some.inj hstep
      refine ⟨hs.tame, ?_, ?_⟩
      · have hports := (hperm.map (·.atport)).nodup_iff.mpr hs.ports
        rw [List.map_cons, List.nodup_cons] at hports
        exact hports.2
      · intro cb hcb
        exact (hs.sockets cb (hperm.subset (List.mem_cons_of_mem _ hcb))).same rfl rfl

/-- Every run of input, threads and sockets that open and close, as long as each step meets the
condition. -/
theorem ddp_safe (my : AtAddr) (acts : List DdpAct)
    (hok : (ddpMachine my).Along DdpOk (ddpStart my) acts)
    (hrun : (ddpMachine my).run acts = some s) : DdpSafe s := by
  have hs : DdpInv s := by
    apply Machine.run_invariant (ddpStart_inv my) _ hok hrun
    intro s a t hs ha hstep
    exact ddpStep_inv hs ha hstep
  exact hs.safe

/-- A frame from node 9 for port 2 of node 5. -/
def ddpFrame (len : UInt8) (data : List UInt8) : List UInt8 :=
  [0, len, 0, 0, 0, 0, 0, 0, 5, 9, 2, 3] ++ data

/-- The thread of port 2 goes through `so_ddp_recv` up to its wait. -/
def recvOne : List DdpAct :=
  [.openDdp 2 .block, .recv 2 false, .recv 2 false, .recv 2 false, .recv 2 false]

/-- The thread waits; a padded frame wakes it. -/
theorem ddp_safe_padded :
    ∃ s, (ddpMachine ⟨0, 1, 5⟩).run (recvOne ++ [.input (ddpFrame 14 [7, 8, 0, 0]),
        .recv 2 false, .recv 2 false]) = some s ∧
      s.returned 2 = [⟨⟨0, 0, 9, 3⟩, [7, 8]⟩] ∧ DdpSafe s := by
  have hok : (ddpMachine ⟨0, 1, 5⟩).Along DdpOk (ddpStart ⟨0, 1, 5⟩)
      (recvOne ++ [.input (ddpFrame 14 [7, 8, 0, 0]), .recv 2 false, .recv 2 false]) := by
    decide
  have hrun : ((ddpMachine ⟨0, 1, 5⟩).run (recvOne ++ [.input (ddpFrame 14 [7, 8, 0, 0]),
      .recv 2 false, .recv 2 false])).map (·.returned 2) = some [⟨⟨0, 0, 9, 3⟩, [7, 8]⟩] := by
    decide
  obtain ⟨s, hs, hreturned⟩ := Option.map_eq_some_iff.mp hrun
  exact ⟨s, hs, hreturned, ddp_safe _ _ hok hs⟩

/-- A frame that is nothing but its header, and a datagram between the count and the wait of the
thread. -/
theorem bareHeader_or_lostPost :
    (∃ s, (ddpMachine ⟨0, 1, 5⟩).run [.openDdp 2 .block, .input (ddpFrame 12 [])] = some s ∧
      s.wild = true) ∧
    ∃ s, (ddpMachine ⟨0, 1, 5⟩).run [.openDdp 2 .block, .recv 2 false, .recv 2 false,
        .input (ddpFrame 13 [7]), .recv 2 false, .recv 2 false] = some s ∧
      s.wild = false ∧ ¬DdpSafe s := by
  constructor
  · have hrun : ((ddpMachine ⟨0, 1, 5⟩).run [.openDdp 2 .block, .input (ddpFrame 12 [])]).map
        (·.wild) = some true := by decide
    exact Option.map_eq_some_iff.mp hrun
  · have hrun : ((ddpMachine ⟨0, 1, 5⟩).run [.openDdp 2 .block, .recv 2 false, .recv 2 false,
        .input (ddpFrame 13 [7]), .recv 2 false, .recv 2 false]).map (fun s ↦ (s.wild, s.ddps)) =
          some (false, [⟨2, [[0, 0, 9, 3, 7]], 1, 0, .block, .waiting⟩]) := by decide
    obtain ⟨s, hs, heq⟩ := Option.map_eq_some_iff.mp hrun
    obtain ⟨hwild, hddps⟩ := Prod.mk.inj heq
    refine ⟨s, hs, hwild, ?_⟩
    intro hsafe
    have hdelivers := hsafe.delivers _ (hddps ▸ List.mem_singleton_self _)
    have hempty := hdelivers.wakes rfl
    cases hempty

end PrintServer.Atalk
