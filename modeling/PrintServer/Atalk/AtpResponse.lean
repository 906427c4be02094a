import Mathlib.Logic.Function.Basic
import PrintServer.Lib.Machine

/-!
# The response to an ATP request

A request goes out with a bitmap of the response packets that are wanted (atp_sreq.c), and each
packet that comes in clears its bit (atp_rsel.c).  The datagrams may be lost, doubled and come in
any order, those of earlier requests among them.  When no bit is left, the packets are handed out
(atp_rrsp.c).
-/

namespace PrintServer.Atp

open Lib

/-- A response packet: `seq` is `atphd_bitmap`, `eom` and `sts` are `ATP_EOM` and `ATP_STS` of
`atphd_ctrlinfo`. -/
structure AtpPacket where
  tid : UInt16
  seq : Nat
  eom : Bool
  sts : Bool
  data : List UInt8

/-- The part of an ATP handle for its requests. -/
structure AtpHandle where
  tid : UInt16
  reqtries : Option Nat
  rrespcount : Nat
  rbitmap : BitVec 8
  reqTid : UInt16
  resppkt : Nat → Option AtpPacket

def AtpHandle.requesting (ah : AtpHandle) : Bool :=
  0 < ah.rrespcount && ah.reqtries != some 0

/-- The bitmap behind a packet: its bit is cleared, and with `ATP_EOM` all higher ones. -/
def clearBits (rbitmap : BitVec 8) (p : AtpPacket) : BitVec 8 :=
  let mask : BitVec 8 := 1#8 <<< p.seq
  let rbitmap := rbitmap &&& ~~~mask
  if p.eom then rbitmap &&& (mask ||| (mask - 1#8)) else rbitmap

/-- What `atp_rsel` makes of a response; `sent` says whether `sendto2` sends the request again, with
the bits that are left, for a packet with `ATP_STS`. -/
def recvResponse (ah : AtpHandle) (p : AtpPacket) (sent : Bool) : Option AtpHandle :=
  if ah.requesting && ah.rbitmap &&& 1#8 <<< p.seq != 0#8 && ah.reqTid == p.tid then
    -- the packet is freed in its slot, and the request is given up
    if p.sts && !sent then none
    else
      some { ah with
        rbitmap := clearBits ah.rbitmap p
        resppkt := Function.update ah.resppkt p.seq (some p) }
  else some ah

/-- `resend_request` -/
def resendRequest (ah : AtpHandle) (sent : Bool) : Option AtpHandle :=
  if sent then some { ah with reqtries := ah.reqtries.map (· - 1) } else none

/-- What happens between a request and its completion. -/
inductive AtpEvent
  | response (p : AtpPacket) (sent : Bool)
  | resend (sent : Bool)

@[simp] def AtpEvent.sent : AtpEvent → Bool
  | .response _ sent => sent
  | .resend sent => sent

/-- One turn of `atp_rsel`; `none` is its error, for which `atp_rresp` gives the request up. -/
def AtpHandle.step (ah : AtpHandle) : AtpEvent → Option AtpHandle
  | .response p sent => recvResponse ah p sent
  | .resend sent => resendRequest ah sent

/-- The packets with the number of the request are those of `resp`, and the last is marked. -/
def Genuine (reqTid : UInt16) (resp : List (List UInt8)) (p : AtpPacket) : Prop :=
  p.tid = reqTid → resp[p.seq]? = some p.data ∧ (p.eom ↔ p.seq + 1 = resp.length)

/-- The handle has some of the packets of `resp`, and asks for the others. -/
structure Collecting (ah : AtpHandle) (reqTid : UInt16) (respcount : Nat)
    (resp : List (List UInt8)) : Prop where
  reqTid : ah.reqTid = reqTid
  wanted : ∀ i < 8, ah.rbitmap.getLsbD i = true → i < respcount ∧ ah.resppkt i = none
  had : ∀ i p, ah.resppkt i = some p → resp[i]? = some p.data
  asked : ∀ i < resp.length, ah.resppkt i = none → ah.rbitmap.getLsbD i = true
  ended : (∃ p, ah.resppkt (resp.length - 1) = some p) →
    ∀ i < 8, resp.length ≤ i → ah.rbitmap.getLsbD i = false

variable {ah done : AtpHandle} {reqTid : UInt16} {respcount : Nat} {resp : List (List UInt8)}

theorem getLsbD_mask : ∀ s < 8, ∀ i < 8, (1#8 <<< s).getLsbD i = decide (i = s) := by decide

theorem getLsbD_low : ∀ s < 8, ∀ i < 8,
    ((1#8 <<< s) ||| (1#8 <<< s) - 1#8).getLsbD i = decide (i ≤ s) := by decide

/-- A bit that is asked for is one of the eight. -/
theorem and_mask_ne_zero {b : BitVec 8} {s : Nat} :
    (b &&& 1#8 <<< s != 0#8) = true ↔ s < 8 ∧ b.getLsbD s = true := by
  rw [bne_iff_ne]
  by_cases hs : s < 8
  · constructor
    · intro hne
      refine ⟨hs, ?_⟩
      by_contra hbit
      apply hne
      apply BitVec.eq_of_getLsbD_eq
      intro i hi
      rw [BitVec.getLsbD_and, getLsbD_mask s hs i hi, BitVec.getLsbD_zero]
      by_cases his : i = s
      · rw [his, Bool.eq_false_iff.mpr hbit, Bool.false_and]
      · rw [decide_eq_false his, Bool.and_false]
    · rintro ⟨-, hbit⟩ hzero
      have hget := congrArg (·.getLsbD s) hzero
      simp only [BitVec.getLsbD_and, getLsbD_mask s hs s hs, hbit, BitVec.getLsbD_zero,
        decide_true, Bool.and_self] at hget
      exact absurd hget (by decide)
  · have hmask : 1#8 <<< s = 0#8 := BitVec.shiftLeft_eq_zero (Nat.le_of_not_lt hs)
    rw [hmask, BitVec.and_zero]
    simp [hs]

/-- A packet is taken exactly when its bit is asked for. -/
theorem recvResponse_eq_some {p : AtpPacket} {sent : Bool} (h : recvResponse ah p sent = some done) :
    done = if ah.requesting = true ∧ (p.seq < 8 ∧ ah.rbitmap.getLsbD p.seq = true) ∧
          ah.reqTid = p.tid then
        { ah with
          rbitmap := clearBits ah.rbitmap p
          resppkt := Function.update ah.resppkt p.seq (some p) }
      else ah := by
  simp only [recvResponse, Bool.and_eq_true, and_mask_ne_zero, beq_iff_eq, and_assoc] at h ⊢
  split at h
  · rename_i htaken
    rw [if_pos htaken]
    split at h
    · cases h
    · exact (Option.some.inj h).symm
  · rename_i hnot
    rw [if_neg hnot]
    exact (Option.some.inj h).symm

theorem getLsbD_clearBits {b : BitVec 8} {p : AtpPacket} {i : Nat} (hs : p.seq < 8) (hi : i < 8) :
    (clearBits b p).getLsbD i = true ↔
      b.getLsbD i = true ∧ i ≠ p.seq ∧ (p.eom = true → i ≤ p.seq) := by
  unfold clearBits
  cases p.eom
  · simp only [Bool.false_eq_true, if_false, BitVec.getLsbD_and, BitVec.getLsbD_not,
      getLsbD_mask p.seq hs i hi, Bool.and_eq_true, Bool.not_eq_true', decide_eq_true_iff,
      decide_eq_false_iff_not]
    tauto
  · simp only [if_true, BitVec.getLsbD_and, BitVec.getLsbD_not, getLsbD_low p.seq hs i hi,
      getLsbD_mask p.seq hs i hi, Bool.and_eq_true, Bool.not_eq_true', decide_eq_true_iff,
      decide_eq_false_iff_not]
    tauto

theorem Collecting.recv (h : Collecting ah reqTid respcount resp) {p : AtpPacket} {sent : Bool}
    (hp : Genuine reqTid resp p) (hlen : resp.length ≤ 8)
    (hstep : recvResponse ah p sent = some done) : Collecting done reqTid respcount resp := by
  rw [recvResponse_eq_some hstep]
  split
  · rename_i htaken
    obtain ⟨-, ⟨hs, hbit⟩, htid⟩ := htaken
    obtain ⟨hdata, heom⟩ := hp (htid.symm.trans h.reqTid)
    obtain ⟨hseq, -⟩ := List.getElem?_eq_some_iff.mp hdata
    have hother (i : Nat) (hi : i ≠ p.seq) :
        Function.update ah.resppkt p.seq (some p) i = ah.resppkt i := Function.update_of_ne hi ..
    have hself : Function.update ah.resppkt p.seq (some p) p.seq = some p :=
      Function.update_self ..
    refine ⟨h.reqTid, ?_, ?_, ?_, ?_⟩
    · intro i hi hset
      obtain ⟨hset, hne, -⟩ := (getLsbD_clearBits hs hi).mp hset
      obtain ⟨hcount, hnone⟩ := h.wanted i hi hset
      exact ⟨hcount, (hother i hne).trans hnone⟩
    · intro i q hq
      by_cases his : i = p.seq
      · subst his
        cases hself.symm.trans hq
        exact hdata
      · exact h.had i q ((hother i his).symm.trans hq)
    · intro i hi hnone
      by_cases his : i = p.seq
      · subst his
        cases hself.symm.trans hnone
      · have hset := h.asked i hi ((hother i his).symm.trans hnone)
        refine (getLsbD_clearBits hs (by omega)).mpr ⟨hset, his, ?_⟩
        intro he
        have hend := heom.mp he
        omega
    · rintro ⟨q, hq⟩ i hi hge
      by_contra hset
      obtain ⟨hset, hne, hle⟩ := (getLsbD_clearBits hs hi).mp (Bool.not_eq_false _ ▸ hset)
      -- the last packet clears the bits behind its own
      by_cases hls : resp.length - 1 = p.seq
      · have hend := hle (heom.mpr (by omega))
        omega
      · have hclear := h.ended ⟨q, (hother _ hls).symm.trans hq⟩ i hi hge
        rw [hclear] at hset
        cases hset
  · exact h

variable {events : List AtpEvent} {m : Machine AtpHandle AtpEvent}

theorem resendRequest_eq_some {sent : Bool} (h : resendRequest ah sent = some done) :
    done = { ah with reqtries := ah.reqtries.map (· - 1) } :=
  (Option.some.inj (Option.ite_none_right_eq_some.mp h).2).symm

theorem Collecting.step (h : Collecting ah reqTid respcount resp) (hlen : resp.length ≤ 8)
    {e : AtpEvent} (hgen : ∀ p sent, e = .response p sent → Genuine reqTid resp p)
    (hstep : ah.step e = some done) : Collecting done reqTid respcount resp := by
  cases e with
  | response p sent => exact h.recv (hgen p sent rfl) hlen hstep
  | resend sent =>
      rw [resendRequest_eq_some hstep]
      exact ⟨h.reqTid, h.wanted, h.had, h.asked, h.ended⟩

theorem Collecting.run (h : Collecting ah reqTid respcount resp) (hm : m.step = AtpHandle.step)
    (hlen : resp.length ≤ 8) (hgen : ∀ p sent, .response p sent ∈ events → Genuine reqTid resp p)
    (hrun : m.runFrom ah events = some done) : Collecting done reqTid respcount resp := by
  induction events generalizing ah with
  | nil =>
      obtain rfl := Option.some.inj hrun
      exact h
  | cons e events ih =>
      obtain ⟨t, hstep, hrest⟩ := Machine.runFrom_cons_some.mp hrun
      rw [hm] at hstep
      refine ih (h.step hlen (fun p sent he ↦ ?_) hstep)
        (fun p sent hp ↦ hgen p sent (List.mem_cons_of_mem e hp)) hrest
      exact hgen p sent (he ▸ List.mem_cons_self)

end PrintServer.Atp
