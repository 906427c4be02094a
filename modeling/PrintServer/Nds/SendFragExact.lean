import Mathlib.Algebra.Order.BigOperators.Group.List
import Mathlib.Algebra.Order.Ring.Int
import PrintServer.Nds.SendFrag

/-!
# Replies that are assembled in bounds

The lengths of the fragments are tested one by one against the whole of `outbuf`, and not at all
against what was received; the length of the first one goes down twice before its test.
-/

namespace PrintServer.Nds

/-! ## What the reply should be -/

/-- The octets of a fragment behind its header, and behind the reply code in the first one. -/
def Reply.payload (r : Reply) (firstReply : Bool) : List UInt8 :=
  if firstReply then ((r.data.take r.received).drop 12).take (r.fragLen - 4 - 4).toNat
  else ((r.data.take r.received).drop 8).take (r.fragLen - 4).toNat

def payloads : Bool → List Answer → List UInt8
  | firstReply, .reply r :: answers =>
      let empty := r.fragLen - 4 = 0
      (if empty then [] else r.payload firstReply) ++
        if r.fraghnd = none then [] else payloads (firstReply && empty) answers
  | _, _ => []

def SendState.total (s : SendState) : Int := (s.copies.map (·.len)).sum

def SendState.Inside (s : SendState) : Prop :=
  ∀ c ∈ s.copies, 0 ≤ c.len ∧ c.hdr + c.len ≤ c.received

def SendState.request (s : SendState) : List UInt8 := s.sent.flatMap (·.payload)

/-- The reply is assembled as it was sent, and in bounds; so is the request. -/
structure Assembled (p : SendParams) (answers : List Answer) : Prop where
  inside : (sendFrag p answers).1.Inside
  room : (sendFrag p answers).1.total ≤ p.outbufsize
  reply : ∀ n, (sendFrag p answers).2 = .done 0 n →
    n = (sendFrag p answers).1.total ∧ (sendFrag p answers).1.outbuf = payloads true answers
  sizes : ∀ f ∈ (sendFrag p answers).1.sent, f.ncpSize = 12 + f.payload.length
  requested : (sendFrag p answers).1.request <+: verbHeader p ++ p.request
  complete : ∀ n, (sendFrag p answers).2 = .done 0 n →
    (sendFrag p answers).1.request = verbHeader p ++ p.request

/-- The lengths that the code needs: `room` is what is left of `outbuf`, `unsent` of the request
behind its next fragment. -/
def Fits (size : Int) : Int → Nat → Bool → List Answer → Prop
  | room, unsent, firstReply, .reply r :: answers =>
      let hdr : Int := if firstReply then 12 else 8
      let len := r.fragLen - 4 - if firstReply then 4 else 0
      let more (room : Int) (firstReply : Bool) :=
        r.fraghnd ≠ none → Fits size room (unsent - (maxDataSize - 5)) firstReply answers
      r.fragLen < 4 ∨ r.fragLen = 4 ∧ (unsent ≠ 0 → more room firstReply) ∨
        r.fragLen > 4 ∧ (len > size ∨
          0 ≤ len ∧ hdr + len ≤ r.received ∧ len ≤ room ∧ more (room - len) false)
  | _, _, _, _ => True

/-! ## The request -/

variable {p : SendParams} {s s' : SendState} {r : Reply} {answers : List Answer}

/-- What is still to be sent. -/
def SendState.pending (p : SendParams) (s : SendState) : List UInt8 :=
  (if s.first then verbHeader p else []) ++ s.inbuf

/-- What was sent and what is pending is the whole. -/
structure Sending (p : SendParams) (s : SendState) : Prop where
  whole : s.request ++ s.pending p = verbHeader p ++ p.request
  sizes : ∀ f ∈ s.sent, f.ncpSize = 12 + f.payload.length

theorem sending_start (p : SendParams) : Sending p (sendStart p) := by
  constructor
  · rfl
  · intro f hf
    contradiction

theorem Sending.sendFragment (h : Sending p s) : Sending p (sendFragment p s) := by
  constructor
  · rw [← h.whole]
    show (s.sent ++ [_]).flatMap _ ++ s.inbuf.drop _ = _
    rw [List.flatMap_append, List.flatMap_singleton]
    show s.request ++ (_ ++ s.inbuf.take _) ++ s.inbuf.drop _ = s.request ++ (_ ++ s.inbuf)
    rw [List.append_assoc, List.append_assoc, List.take_append_drop]
  · intro f hf
    rcases List.mem_append.mp hf with hf | hf
    · exact h.sizes f hf
    · rw [List.mem_singleton.mp hf]
      show 12 + _ + min _ s.inbuf.length = 12 + (_ ++ List.take _ _).length
      rw [List.length_append, List.length_take, Nat.add_assoc, Nat.min_assoc, Nat.min_self]

theorem dataTurn_request : (dataTurn p s r).1.sent = s.sent ∧
    (dataTurn p s r).1.inbuf = s.inbuf ∧ (dataTurn p s r).1.first = s.first := by
  rw [dataTurn]
  split
  · exact ⟨rfl, rfl, rfl⟩
  · split <;> exact ⟨rfl, rfl, rfl⟩

/-- An answer changes nothing of the request. -/
theorem replyTurn_request : (replyTurn p s r).1.sent = s.sent ∧
    (replyTurn p s r).1.inbuf = s.inbuf ∧ (replyTurn p s r).1.first = s.first := by
  rw [replyTurn]
  split
  · exact ⟨rfl, rfl, rfl⟩
  split
  · exact ⟨rfl, rfl, rfl⟩
  · exact dataTurn_request

theorem ndsError_ne_zero {group code : Nat} (h : 0 < group) : ndsError group code ≠ 0 := by
  intro hzero
  unfold ndsError at hzero
  have hle : group ≤ group ||| code := Nat.left_le_or
  have hnat : group ||| code = 0 := Int.ofNat_eq_zero.mp hzero
  omega

theorem sendEnd_done {n : Int} (h : sendEnd s = .done 0 n) :
    s.inbuf = [] ∧ s.firstReply = false ∧ n = s.replyLen := by
  rw [sendEnd] at h
  split at h
  · cases h
  rename_i hdone
  rw [not_or] at hdone
  refine ⟨Decidable.not_not.mp hdone.1, Bool.eq_false_iff.mpr hdone.2, ?_⟩
  split at h
  · cases h
    rfl
  rename_i hcode
  split at h
  · exact absurd (SendStatus.done.inj h).1 (ndsError_ne_zero (by decide))
  · exact absurd (SendStatus.done.inj h).1 hcode

/-- Only the end of the loop is a success. -/
theorem replyTurn_done {n : Int} (h : (replyTurn p s r).2 = some (.done 0 n)) :
    sendEnd (replyTurn p s r).1 = .done 0 n := by
  rw [replyTurn] at h ⊢
  split at h
  · exact absurd (SendStatus.done.inj (Option.some.inj h)).1 (by decide)
  rename_i hshort
  rw [if_neg hshort]
  split at h
  · rename_i hempty
    rw [if_pos hempty]
    rw [emptyTurn] at h ⊢
    dsimp only at h ⊢
    split at h
    · exact Option.some.inj h
    split at h
    · exact absurd (SendStatus.done.inj (Option.some.inj h)).1 (by decide)
    · cases h
  · rename_i hdata
    rw [if_neg hdata]
    rw [dataTurn] at h ⊢
    dsimp only at h ⊢
    split at h
    · exact absurd (SendStatus.done.inj (Option.some.inj h)).1 (by decide)
    rename_i hlarge
    rw [if_neg hlarge]
    split at h
    · exact absurd (Option.some.inj h) (by intro hw; cases hw)
    rename_i hneg
    rw [if_neg hneg]
    dsimp only at h ⊢
    split at h
    · exact Option.some.inj h
    · cases h

/-- All that was sent is a beginning of the request, and all of it at the end. -/
theorem sendFragLoop_request (h : Sending p s) :
    Sending p (sendFragLoop p s answers).1 ∧ (sendFragLoop p s answers).1.first = false ∧
      ∀ n, (sendFragLoop p s answers).2 = .done 0 n → (sendFragLoop p s answers).1.inbuf = [] := by
  induction answers generalizing s with
  | nil =>
    refine ⟨h.sendFragment, rfl, fun n hn ↦ ?_⟩
    cases hn
  | cons a answers ih =>
    cases a with
    | error result =>
      rw [sendFragLoop]
      refine ⟨h.sendFragment, rfl, fun n hn ↦ ?_⟩
      exact absurd (SendStatus.done.inj hn).1 (ndsError_ne_zero (by decide))
    | reply r =>
      obtain ⟨hsent, hinbuf, hfirst⟩ := @replyTurn_request p (sendFragment p s) r
      have hsending : Sending p (replyTurn p (sendFragment p s) r).1 := by
        have hs := h.sendFragment
        constructor
        · rw [← hs.whole, SendState.request, SendState.request, SendState.pending,
            SendState.pending, hsent, hinbuf, hfirst]
        · rw [hsent]
          exact hs.sizes
      rw [sendFragLoop]
      have hdone := @replyTurn_done p (sendFragment p s) r
      generalize replyTurn p (sendFragment p s) r = turn at hsending hfirst hdone
      obtain ⟨s', _ | status⟩ := turn
      · exact ih hsending
      · refine ⟨hsending, hfirst, fun n hn ↦ ?_⟩
        exact (sendEnd_done (hdone (congrArg some hn))).1

/-! ## The reply -/

/-- What the call should come to. -/
structure Good (p : SendParams) (o : SendState × SendStatus) (reply : List UInt8) : Prop where
  inside : o.1.Inside
  room : o.1.total ≤ p.outbufsize
  reply : ∀ n, o.2 = .done 0 n → n = o.1.total ∧ o.1.outbuf = reply

/-- What the loop keeps: what is in `outbuf` so far fits. -/
structure Fitting (p : SendParams) (s : SendState) : Prop where
  inside : s.Inside
  room : s.total ≤ p.outbufsize
  replyLen : s.replyLen = s.total

theorem total_nonneg (h : s.Inside) : 0 ≤ s.total := by
  apply List.sum_nonneg
  intro n hn
  obtain ⟨c, hc, rfl⟩ := List.mem_map.mp hn
  exact (h c hc).1

theorem total_copyReply (s : SendState) (r : Reply) (c : Copy) :
    (copyReply s r c).total = s.total + c.len := by
  show ((s.copies ++ [c]).map (·.len)).sum = _
  rw [List.map_append, List.sum_append]
  simp [SendState.total]

theorem toInt16_of_lt {n : Int} (hn : 0 ≤ n) (hlt : n < 2 ^ 15) : toInt16 n = n := by
  unfold toInt16
  rw [Int.bmod_eq_of_le]
  · omega
  · omega

/-- A copy that fits what is left of `outbuf`. -/
theorem Fitting.copyReply {c : Copy} (h : Fitting p s) (hlen : 0 ≤ c.len)
    (hinside : c.hdr + c.len ≤ c.received) (hroom : c.len ≤ p.outbufsize - s.total) :
    Fitting p (copyReply s r c) := by
  have hsize := p.outbufsize_lt
  have hnonneg := total_nonneg h.inside
  refine ⟨?_, ?_, ?_⟩
  · intro d hd
    rcases List.mem_append.mp hd with hd | hd
    · exact h.inside d hd
    · rw [List.mem_singleton.mp hd]
      exact ⟨hlen, hinside⟩
  · rw [total_copyReply]
    omega
  · rw [total_copyReply]
    show toInt16 (s.replyLen + c.len) = _
    rw [h.replyLen, toInt16_of_lt (by omega) (by omega)]

/-- The copies only grow. -/
theorem dataTurn_copies : s.copies <+: (dataTurn p s r).1.copies := by
  rw [dataTurn]
  split
  · exact List.prefix_refl _
  · split <;> exact List.prefix_append _ _

theorem replyTurn_copies : s.copies <+: (replyTurn p s r).1.copies := by
  rw [replyTurn]
  split
  · exact List.prefix_refl _
  split
  · exact List.prefix_refl _
  · exact @dataTurn_copies p { s with fraghnd := r.fraghnd } r

theorem sendFragLoop_copies : s.copies <+: (sendFragLoop p s answers).1.copies := by
  induction answers generalizing s with
  | nil => exact List.prefix_refl _
  | cons a answers ih =>
    cases a with
    | error result =>
      rw [sendFragLoop]
      exact List.prefix_refl _
    | reply r =>
      have hturn := @replyTurn_copies p (sendFragment p s) r
      rw [sendFragLoop]
      generalize replyTurn p (sendFragment p s) r = turn at hturn
      obtain ⟨s', _ | status⟩ := turn
      · exact hturn.trans ih
      · exact hturn

theorem afterTurn_copies {turn : SendState × Option SendStatus} :
    turn.1.copies <+: (afterTurn (sendFragLoop p · answers) turn).1.copies := by
  obtain ⟨s, _ | status⟩ := turn
  · exact sendFragLoop_copies
  · exact List.prefix_refl _

/-- So a total that is too large stays so, and a copy outside a packet stays in the record. -/
theorem total_le_of_prefix {f : SendState} (h : s.copies <+: f.copies) (hf : f.Inside) :
    s.Inside ∧ s.total ≤ f.total := by
  obtain ⟨more, hmore⟩ := h
  have hall : ∀ c ∈ s.copies ++ more, 0 ≤ c.len ∧ c.hdr + c.len ≤ c.received := hmore ▸ hf
  constructor
  · exact fun c hc ↦ hall c (List.mem_append_left _ hc)
  · have hnonneg : 0 ≤ (more.map (·.len)).sum := by
      apply List.sum_nonneg
      intro n hn
      obtain ⟨c, hc, rfl⟩ := List.mem_map.mp hn
      exact (hall c (List.mem_append_right _ hc)).1
    rw [SendState.total, SendState.total, ← hmore, List.map_append, List.sum_append]
    omega

/-- What the request has behind its next fragment. -/
def SendState.unsent (p : SendParams) (s : SendState) : Nat := (sendFragment p s).inbuf.length

theorem unsent_eq (hfirst : s.first = false) :
    s.unsent p = s.inbuf.length - (maxDataSize - 5) := by
  show (s.inbuf.drop (min (if s.first then _ else _) s.inbuf.length)).length = _
  rw [hfirst, List.length_drop]
  show s.inbuf.length - min (maxDataSize - 5) s.inbuf.length = _
  omega

theorem copy_true (r : Reply) : r.copy true = ⟨12, r.fragLen - 4 - 4, r.received⟩ := by
  rw [Reply.copy, if_pos rfl]

theorem copy_false (r : Reply) : r.copy false = ⟨8, r.fragLen - 4, r.received⟩ := by
  rw [Reply.copy, if_neg (by decide)]

theorem copy_eq (r : Reply) (firstReply : Bool) : r.copy firstReply =
    ⟨if firstReply then 12 else 8, r.fragLen - 4 - if firstReply then 4 else 0, r.received⟩ := by
  cases firstReply with
  | true => rw [copy_true, if_pos rfl, if_pos rfl]
  | false => rw [copy_false, if_neg (by decide), if_neg (by decide), Int.sub_zero]

theorem payload_eq_copy (r : Reply) (firstReply : Bool) : r.payload firstReply =
    ((r.data.take r.received).drop (r.copy firstReply).hdr).take
      (r.copy firstReply).len.toNat := by
  cases firstReply with
  | true => rw [Reply.payload, copy_true, if_pos rfl]
  | false => rw [Reply.payload, copy_false, if_neg (by decide)]

/-- What is copied from inside the packet is the payload. -/
theorem payload_eq {firstReply : Bool} (hlen : 0 ≤ (r.copy firstReply).len)
    (hinside : (r.copy firstReply).hdr + (r.copy firstReply).len ≤ r.received) :
    (r.data.drop (r.copy firstReply).hdr).take (r.copy firstReply).len.toNat =
      r.payload firstReply := by
  rw [payload_eq_copy]
  generalize r.copy firstReply = c at hlen hinside
  rw [List.drop_take, List.take_take, Nat.min_eq_left (by omega)]

theorem Fitting.good {o : SendState × SendStatus} {reply : List UInt8} (h : Fitting p o.1)
    (hreply : ∀ n, o.2 = .done 0 n → n = o.1.replyLen ∧ o.1.outbuf = reply) : Good p o reply :=
  ⟨h.inside, h.room, fun n hn ↦ ⟨(hreply n hn).1.trans h.replyLen, (hreply n hn).2⟩⟩

theorem Fitting.sendEnd {reply : List UInt8} (h : Fitting p s) (hreply : s.outbuf = reply) :
    Good p (s, sendEnd s) reply :=
  h.good fun _ hn ↦ ⟨(sendEnd_done hn).2.2, hreply⟩

theorem Fitting.refused {rc n : Int} {reply : List UInt8} (h : Fitting p s) (hrc : rc ≠ 0) :
    Good p (s, .done rc n) reply :=
  h.good fun _ hn ↦ absurd (SendStatus.done.inj hn).1 hrc

/-- Fields that say nothing of the reply. -/
theorem Fitting.congr (h : Fitting p s) (hcopies : s'.copies = s.copies)
    (hreplyLen : s'.replyLen = s.replyLen) : Fitting p s' := by
  have htotal : s'.total = s.total := congrArg (fun l ↦ (l.map Copy.len).sum) hcopies
  refine ⟨?_, htotal ▸ h.room, hreplyLen.trans (h.replyLen.trans htotal.symm)⟩
  intro c hc
  exact h.inside c (hcopies ▸ hc)

theorem dataTurn_eq {c : Copy} (hc : r.copy s.firstReply = c) : dataTurn p s r =
    if c.len > p.outbufsize then (seeReply s r, some (.done ndsBufferOverflow 0))
    else if c.len < 0 then (copyReply (seeReply s r) r c, some .wild)
    else (copyReply (seeReply s r) r c,
      if (seeReply s r).fraghnd = none then some (Nds.sendEnd (copyReply (seeReply s r) r c))
      else none) := by
  rw [dataTurn, hc]

/-- Induction on the answers: each turn is one of the cases of `Fits`. -/
theorem sendFragLoop_good_iff (h : Fitting p s) :
    Good p (sendFragLoop p s answers) (s.outbuf ++ payloads s.firstReply answers) ↔
      Fits p.outbufsize (p.outbufsize - s.total) (s.unsent p) s.firstReply answers := by
  induction answers generalizing s with
  | nil =>
    rw [sendFragLoop, Fits]
    · -- the last fragment went out and no reply came
      have hsent : Fitting p (sendFragment p s) := h.congr rfl rfl
      refine iff_of_true (Fitting.good hsent fun n hn ↦ ?_) trivial
      cases hn
    · intro _ _ hcons
      cases hcons
  | cons a answers ih =>
    have hfrag : Fitting p (sendFragment p s) := h.congr rfl rfl
    cases a with
    | error result =>
      rw [sendFragLoop, Fits]
      · exact iff_of_true (hfrag.refused (ndsError_ne_zero (by decide))) trivial
      · intro _ _ hcons
        cases hcons
    | reply r =>
      rw [sendFragLoop, replyTurn, Fits]
      by_cases hshort : r.fragLen < 4
      · rw [if_pos hshort]
        exact iff_of_true (hfrag.refused (by decide)) (.inl hshort)
      rw [if_neg hshort]
      by_cases hempty : r.fragLen - 4 = 0
      · -- a turn without data
        rw [if_pos hempty, emptyTurn]
        have hfour : r.fragLen = 4 := by omega
        have hseen : Fitting p { sendFragment p s with fraghnd := r.fraghnd } := hfrag.congr rfl rfl
        have hrest : payloads s.firstReply (.reply r :: answers) =
            if r.fraghnd = none then [] else payloads s.firstReply answers := by
          rw [payloads]
          simp [hempty]
        rw [hrest]
        -- the reply ends the call, asks for more than there is, or asks for the next fragment
        by_cases hend : r.fraghnd = none
        · simp only [hend, if_true]
          refine iff_of_true ?_ (.inr (.inl ⟨hfour, fun _ hne ↦ absurd rfl hne⟩))
          rw [List.append_nil]
          exact Fitting.sendEnd (hend ▸ hseen) rfl
        · simp only [hend, if_false]
          by_cases hsent : (sendFragment p s).inbuf = []
          · simp only [hsent, if_true]
            have hnone : s.unsent p = 0 := by rw [SendState.unsent, hsent, List.length_nil]
            refine iff_of_true ?_ (.inr (.inl ⟨hfour, fun hne ↦ absurd hnone hne⟩))
            exact Fitting.refused (hsent ▸ hseen) (by decide)
          · simp only [hsent, if_false]
            have hnext := ih hseen
            rw [unsent_eq rfl] at hnext
            refine hnext.trans ?_
            have hne : s.unsent p ≠ 0 := by
              rw [SendState.unsent, Ne, List.length_eq_zero_iff]
              exact hsent
            constructor
            · exact fun hfits ↦ .inr (.inl ⟨hfour, fun _ _ ↦ hfits⟩)
            · intro hfits
              rcases hfits with hlt | ⟨-, hfits⟩ | ⟨hgt, -⟩
              · exact absurd hlt hshort
              · exact hfits hne hend
              · omega
      · -- one with data
        rw [if_neg hempty]
        have hgt : r.fragLen > 4 := by omega
        have hhdr : (if s.firstReply then 12 else 8 : Int) = (r.copy s.firstReply).hdr := by
          rw [copy_eq]
          split <;> rfl
        have hlen : (r.fragLen - 4 - if s.firstReply then 4 else 0) = (r.copy s.firstReply).len := by
          rw [copy_eq]
        have hreceived : (r.copy s.firstReply).received = r.received := by rw [copy_eq]
        have hpayload := @payload_eq r s.firstReply
        have hrest : payloads s.firstReply (.reply r :: answers) =
            r.payload s.firstReply ++ if r.fraghnd = none then [] else payloads false answers := by
          rw [payloads]
          simp [hempty]
        rw [hrest, hhdr, hlen, ← hreceived]
        generalize hc : r.copy s.firstReply = c at hpayload hreceived
        have hc' : r.copy (SendState.firstReply { sendFragment p s with fraghnd := r.fraghnd }) = c := hc
        rw [dataTurn_eq hc']
        have hseen : Fitting p (seeReply { sendFragment p s with fraghnd := r.fraghnd } r) :=
          hfrag.congr rfl rfl
        refine Iff.trans ?_ (or_iff_right (fun hlt ↦ absurd hlt hshort)).symm
        refine Iff.trans ?_ (or_iff_right (fun hfour ↦ absurd hfour.1 (by omega))).symm
        refine Iff.trans ?_ (and_iff_right hgt).symm
        -- each test of the source drops one disjunct of `Fits`
        by_cases hbig : c.len > p.outbufsize
        · rw [if_pos hbig]
          exact iff_of_true (hseen.refused (by decide)) (.inl hbig)
        rw [if_neg hbig]
        refine Iff.trans ?_ (or_iff_right hbig).symm
        by_cases hneg : c.len < 0
        · -- the copy of a negative length
          rw [if_pos hneg]
          refine iff_of_false (fun hgood ↦ ?_) (fun hfits ↦ absurd hneg (by omega))
          have hmem := hgood.inside c (List.mem_append_right _ (List.mem_singleton_self _))
          omega
        rw [if_neg hneg]
        generalize hs₁ : seeReply { sendFragment p s with fraghnd := r.fraghnd } r = s₁ at hseen
        have htotal : s₁.total = s.total := by
          rw [← hs₁]
          rfl
        have hfirst : s₁.first = false := by
          rw [← hs₁]
          rfl
        have hfirstReply : s₁.firstReply = false := by
          rw [← hs₁]
          rfl
        have hfraghnd : s₁.fraghnd = r.fraghnd := by
          rw [← hs₁]
          rfl
        have houtbuf : s₁.outbuf = s.outbuf := by
          rw [← hs₁]
          rfl
        have hunsent : s₁.inbuf.length = s.unsent p := by
          rw [← hs₁]
          rfl
        rw [hfraghnd]
        -- what no test of the source sees: the packet received and the room that is left
        by_cases hfit : c.hdr + c.len ≤ c.received ∧ c.len ≤ p.outbufsize - s.total
        · have hpayload := hpayload (by omega) (hreceived ▸ hfit.1)
          have hnext : Fitting p (copyReply s₁ r c) :=
            hseen.copyReply (by omega) hfit.1 (htotal ▸ hfit.2)
          have hcopied : (copyReply s₁ r c).outbuf = s.outbuf ++ r.payload s.firstReply := by
            show s₁.outbuf ++ _ = _
            rw [houtbuf, hpayload]
          by_cases hend : r.fraghnd = none
          · simp only [hend, if_true]
            rw [List.append_nil]
            refine iff_of_true (Fitting.sendEnd hnext hcopied) ?_
            exact ⟨by omega, hfit.1, hfit.2, fun hne ↦ absurd rfl hne⟩
          · simp only [hend, if_false]
            have hih := ih hnext
            have hfirst' : (copyReply s₁ r c).first = false := hfirst
            have hfirstReply' : (copyReply s₁ r c).firstReply = false := hfirstReply
            have hunsent' : (copyReply s₁ r c).inbuf.length = s.unsent p := hunsent
            rw [hcopied, unsent_eq hfirst', hunsent', total_copyReply, htotal, hfirstReply',
              List.append_assoc, ← Int.sub_sub] at hih
            refine hih.trans ⟨fun hfits ↦ ?_, fun hfits ↦ ?_⟩
            · exact ⟨by omega, hfit.1, hfit.2, fun _ ↦ hfits⟩
            · exact hfits.2.2.2 hend
        · -- a copy that does not fit stays in the record
          refine iff_of_false (fun hgood ↦ ?_) (fun hfits ↦ hfit ⟨hfits.2.1, hfits.2.2.1⟩)
          obtain ⟨hinside, htotal'⟩ := total_le_of_prefix afterTurn_copies hgood.inside
          have hroom : (copyReply s₁ r c).total ≤ p.outbufsize := htotal'.trans hgood.room
          have hcopied : (copyReply s₁ r c).total = s.total + c.len := by
            rw [total_copyReply, htotal]
          have hmem := hinside c (List.mem_append_right _ (List.mem_singleton_self _))
          exact hfit ⟨hmem.2, by omega⟩

/-! ## The call -/

/-- A reply is assembled exactly and in bounds if and only if the lengths in it fit: each is too
short or too long to be taken at all, or is that of octets that were received, the first one with
the reply code, and `outbuf` has room left for them. -/
theorem assembled_iff (p : SendParams) (answers : List Answer) : Assembled p answers ↔
    Fits p.outbufsize p.outbufsize (p.request.length - (maxDataSize - 25)) true answers := by
  have hstart : Fitting p (sendStart p) := by
    refine ⟨fun c hc ↦ ?_, ?_, rfl⟩
    · contradiction
    · exact Int.natCast_nonneg _
  have hgood := @sendFragLoop_good_iff p (sendStart p) answers hstart
  have hunsent : (sendStart p).unsent p = p.request.length - (maxDataSize - 25) := by
    show (p.request.drop (min (maxDataSize - 25) p.request.length)).length = _
    rw [List.length_drop]
    omega
  have htotal : (p.outbufsize - (sendStart p).total : Int) = p.outbufsize := Int.sub_zero _
  rw [hunsent, htotal] at hgood
  refine Iff.trans ?_ hgood
  constructor
  · intro h
    exact ⟨h.inside, h.room, h.reply⟩
  · intro h
    obtain ⟨hsending, hfirst, hdone⟩ := @sendFragLoop_request p _ answers (sending_start p)
    have hpending : (sendFrag p answers).1.pending p = (sendFrag p answers).1.inbuf := by
      rw [SendState.pending, sendFrag, hfirst]
      rfl
    have hwhole : (sendFrag p answers).1.request ++ (sendFrag p answers).1.inbuf =
        verbHeader p ++ p.request := by
      rw [← hpending]
      exact hsending.whole
    refine ⟨h.inside, h.room, h.reply, hsending.sizes, ⟨_, hwhole⟩, fun n hn ↦ ?_⟩
    have hnil : (sendFrag p answers).1.inbuf = [] := hdone n hn
    rw [hnil, List.append_nil] at hwhole
    exact hwhole

/-- A request without data, and a reply of one octet with the reply code still in its length. -/
def shortParams : SendParams := ⟨3, [], 2048, by decide⟩

def shortReply : Answer := .reply ⟨[5, 0, 0, 0, 255, 255, 255, 255] ++ List.replicate 1484 0, 16⟩

/-- Its copy has the length -3. -/
theorem shortReply_not_assembled : ¬ Assembled shortParams [shortReply] := by
  intro h
  have hcopies : (sendFrag shortParams [shortReply]).1.copies = [⟨12, -3, 16⟩] := by
    decide +kernel
  have hinside := h.inside ⟨12, -3, 16⟩ (hcopies ▸ List.mem_singleton_self _)
  exact absurd hinside.1 (by decide)

end PrintServer.Nds
