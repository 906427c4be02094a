import PrintServer.Lib.RoundRobin
import PrintServer.Novell.Service

/-!
# Every NetWare queue has its turn

The queues still to be asked in each list and those that were asked make up a round robin, once the
list that is not being served stands at its head.
-/

namespace PrintServer.Novell

open Lib

variable {t : Tables} {nPort : Nat} {nds : Bool} {b c : UInt8} {ys l₁ l₂ : List UInt8}
  {done rest : List Visit} {s u : Service} {m : Meets}

/-! ## The queues of a list -/

/-- How often `NPS3main` asks a PCB in a round: one without queues is asked, too. -/
def Tables.turns (t : Tables) (nPort : Nat) (b : UInt8) : Nat :=
  max 1 (t.pcb nPort b.toNat).totalQueue.toNat

def Tables.order (t : Tables) (nPort : Nat) (nds : Bool) (ys : List UInt8) : List Visit :=
  ys.flatMap fun b ↦ (List.range (t.turns nPort b)).map (Visit.mk nds b)

/-- An active list with its current PCB: the others start with their first queues. -/
structure Cursor (t : Tables) (nPort : Nat) (ys : List UInt8) : Prop where
  act : Linked (t.link nPort) nullByte (t.actPort nPort) ys
  curPort : (ys = [] ∧ t.curPort nPort = nullByte) ∨ t.curPort nPort ∈ ys
  others : ∀ b ∈ ys, b ≠ t.curPort nPort → (t.pcb nPort b.toNat).qCount = 0
  current : ∀ b ∈ ys, (t.pcb nPort b.toNat).qCount.toNat < t.turns nPort b
  routine : ∀ b ∈ ys, (t.pcb nPort b.toNat).processRoutine = some .serviceNetWareQueue

/-- Where a list stands: the queues that were asked in this round, and those still to be asked. -/
inductive Position (nds : Bool) (t : Tables) (nPort : Nat) :
    List UInt8 → List Visit → List Visit → Prop
  | empty (h : t.curPort nPort = nullByte) : Position nds t nPort [] [] []
  | mid (l₁ l₂ : List UInt8) {c : UInt8} {q n : Nat} (hc : t.curPort nPort = c)
      (hq : (t.pcb nPort c.toNat).qCount.toNat = q) (hn : t.turns nPort c = q + (n + 1)) :
      Position nds t nPort (l₁ ++ c :: l₂)
        (t.order nPort nds l₁ ++ (List.range q).map (Visit.mk nds c))
        ((List.range' q (n + 1)).map (Visit.mk nds c) ++ t.order nPort nds l₂)

theorem order_append : t.order nPort nds (l₁ ++ l₂) =
    t.order nPort nds l₁ ++ t.order nPort nds l₂ := List.flatMap_append

theorem order_cons : t.order nPort nds (c :: l₂) =
    (List.range (t.turns nPort c)).map (Visit.mk nds c) ++ t.order nPort nds l₂ := rfl

theorem Cursor.position (h : Cursor t nPort ys) (nds : Bool) :
    ∃ done rest, Position nds t nPort ys done rest := by
  obtain ⟨hys, hcur⟩ | hcur := h.curPort
  · rw [hys]
    exact ⟨[], [], Position.empty hcur⟩
  · obtain ⟨l₁, l₂, rfl⟩ := List.append_of_mem hcur
    have hlt := h.current _ hcur
    exact ⟨_, _, Position.mid (n := t.turns nPort (t.curPort nPort) -
      (t.pcb nPort (t.curPort nPort).toNat).qCount.toNat - 1) l₁ l₂ rfl rfl (by omega)⟩

theorem Position.order_eq (h : Position nds t nPort ys done rest) :
    t.order nPort nds ys = done ++ rest := by
  cases h with
  | empty h => rfl
  | mid l₁ l₂ hc hq hn =>
    rename_i c q n
    have hrange : List.range (t.turns nPort c) = List.range q ++ List.range' q (n + 1) := by
      rw [hn, List.range_eq_range', List.range_eq_range', ← List.range'_append]
      simp only [Nat.one_mul, Nat.zero_add]
    rw [order_append, order_cons, hrange, List.map_append, List.append_assoc, List.append_assoc]

/-! ## The next queue -/

theorem turns_congr {t' : Tables} (h : (t'.pcb nPort b.toNat).totalQueue =
    (t.pcb nPort b.toNat).totalQueue) : t'.turns nPort b = t.turns nPort b := by
  rw [Tables.turns, h, Tables.turns]

theorem order_congr {t' : Tables} (h : ∀ b : UInt8, t'.turns nPort b = t.turns nPort b) :
    t'.order nPort nds ys = t.order nPort nds ys := by
  rw [Tables.order, Tables.order]
  congr 1
  funext b
  rw [h b]

/-- The current PCB with its next `QCount`. -/
def Tables.advance (t : Tables) (nPort : Nat) (qCount : UInt8) : Tables :=
  t.setPCB nPort (t.curPort nPort) { t.pcb nPort (t.curPort nPort).toNat with
    processRoutine := some .serviceNetWareQueue, qCount }

theorem turns_advance (t : Tables) (nPort : Nat) (qCount : UInt8) (b : UInt8) :
    (t.advance nPort qCount).turns nPort b = t.turns nPort b := by
  apply turns_congr
  rw [Tables.advance]
  by_cases hb : b = t.curPort nPort
  · rw [hb, Tables.pcb_setPCB_self]
  · rw [Tables.pcb_setPCB_of_ne _ hb]

theorem qCount_advance (t : Tables) (nPort : Nat) (qCount : UInt8) :
    ((t.advance nPort qCount).pcb nPort (t.curPort nPort).toNat).qCount = qCount := by
  rw [Tables.advance, Tables.pcb_setPCB_self]

theorem pcb_advance_of_ne (qCount : UInt8) (hb : b ≠ t.curPort nPort) :
    (t.advance nPort qCount).pcb nPort b.toNat = t.pcb nPort b.toNat :=
  Tables.pcb_setPCB_of_ne _ hb

/-- What `nextQueue` does inside a PCB, and behind its last queue. -/
theorem nextQueue_cases (t : Tables) (nPort : Nat) :
    let x := t.pcb nPort (t.curPort nPort).toNat
    (x.qCount + 1 < x.totalQueue ∧ t.nextQueue nPort = t.advance nPort (x.qCount + 1)) ∨
      (x.totalQueue ≤ x.qCount + 1 ∧ t.nextQueue nPort = (t.advance nPort 0).setCurPort nPort
        (if x.nextPortPCB = nullByte then t.actPort nPort else x.nextPortPCB)) := by
  by_cases h : (t.pcb nPort (t.curPort nPort).toNat).totalQueue ≤
      (t.pcb nPort (t.curPort nPort).toNat).qCount + 1
  · refine Or.inr ⟨h, ?_⟩
    rw [Tables.nextQueue]
    exact if_pos h
  · refine Or.inl ⟨UInt8.not_le.mp h, ?_⟩
    rw [Tables.nextQueue]
    exact if_neg h

theorem turns_pos (t : Tables) (nPort : Nat) (b : UInt8) : 0 < t.turns nPort b :=
  Nat.lt_of_lt_of_le Nat.one_pos (Nat.le_max_left _ _)

theorem turns_lt (t : Tables) (nPort : Nat) (b : UInt8) : t.turns nPort b < 256 := by
  have hlt := (t.pcb nPort b.toNat).totalQueue.toNat_lt
  rw [Tables.turns]
  omega

/-- A list that stands at the first queue of a PCB. -/
theorem position_start (l₁ l₂ : List UInt8) (hc : t.curPort nPort = c)
    (hq : (t.pcb nPort c.toNat).qCount = 0) :
    Position nds t nPort (l₁ ++ c :: l₂) (t.order nPort nds l₁) (t.order nPort nds (c :: l₂)) := by
  have hpos := turns_pos t nPort c
  have hmid : Position nds t nPort (l₁ ++ c :: l₂) _ _ :=
    Position.mid (n := t.turns nPort c - 1) l₁ l₂ hc (q := 0) (by rw [hq]; rfl) (by omega)
  rw [List.range_zero, List.map_nil, List.append_nil] at hmid
  rw [order_cons, List.range_eq_range', show t.turns nPort c = t.turns nPort c - 1 + 1 by omega]
  exact hmid

/-- What `nextQueue` leaves of a list: nothing but its place. -/
structure Keeps (t t' : Tables) (nPort : Nat) : Prop where
  link : t'.link nPort = t.link nPort
  actPort : t'.actPort nPort = t.actPort nPort
  turns : ∀ b : UInt8, t'.turns nPort b = t.turns nPort b

theorem keeps_advance (t : Tables) (nPort : Nat) (qCount : UInt8) :
    Keeps t (t.advance nPort qCount) nPort :=
  ⟨Tables.link_setPCB rfl, rfl, turns_advance t nPort qCount⟩

theorem keeps_nextQueue (t : Tables) (nPort : Nat) : Keeps t (t.nextQueue nPort) nPort := by
  obtain ⟨-, heq⟩ | ⟨-, heq⟩ := nextQueue_cases t nPort
  · rw [heq]
    exact keeps_advance t nPort _
  · rw [heq]
    obtain ⟨hlink, hact, hturns⟩ := keeps_advance t nPort 0
    exact ⟨hlink, hact, hturns⟩

theorem routine_advance (qCount : UInt8)
    (h : ∀ b ∈ ys, (t.pcb nPort b.toNat).processRoutine = some .serviceNetWareQueue) :
    ∀ b ∈ ys, ((t.advance nPort qCount).pcb nPort b.toNat).processRoutine =
      some .serviceNetWareQueue := by
  intro b hb
  by_cases hcur : b = t.curPort nPort
  · rw [hcur, Tables.advance, Tables.pcb_setPCB_self]
  · rw [pcb_advance_of_ne _ hcur]
    exact h b hb

/-- The next queue of the same PCB. -/
theorem Cursor.inside (h : Cursor t nPort ys) {q n : Nat} (hc : t.curPort nPort = c)
    (hq : (t.pcb nPort c.toNat).qCount.toNat = q) (hn : t.turns nPort c = q + (n + 1))
    (hlt : (t.pcb nPort c.toNat).qCount + 1 < (t.pcb nPort c.toNat).totalQueue) :
    Cursor (t.advance nPort ((t.pcb nPort c.toNat).qCount + 1)) nPort ys ∧ n ≠ 0 ∧
      ((t.pcb nPort c.toNat).qCount + 1).toNat = q + 1 := by
  have hbound := turns_lt t nPort c
  have hsucc : ((t.pcb nPort c.toNat).qCount + 1).toNat = q + 1 := by
    rw [UInt8.toNat_add, hq]
    show (q + 1) % 256 = q + 1
    omega
  have hmore : q + 1 < t.turns nPort c := by
    have hnat := UInt8.lt_iff_toNat_lt.mp hlt
    rw [hsucc] at hnat
    rw [Tables.turns]
    omega
  refine ⟨?_, by omega, hsucc⟩
  constructor
  · rw [(keeps_advance t nPort _).link]
    exact h.act
  · exact h.curPort
  · intro b hb hne
    have hne : b ≠ t.curPort nPort := hne
    rw [pcb_advance_of_ne _ hne]
    exact h.others b hb hne
  · intro b hb
    rw [turns_advance]
    by_cases hcur : b = t.curPort nPort
    · rw [hcur, qCount_advance, hsucc, hc]
      exact hmore
    · rw [pcb_advance_of_ne _ hcur]
      exact h.current b hb
  · exact routine_advance _ h.routine

/-- The first queue of another PCB. -/
theorem Cursor.leave (h : Cursor t nPort ys) (hb : b ∈ ys) :
    Cursor ((t.advance nPort 0).setCurPort nPort b) nPort ys ∧
      ∀ x ∈ ys, (((t.advance nPort 0).setCurPort nPort b).pcb nPort x.toNat).qCount = 0 := by
  have hzero : ∀ x ∈ ys, ((t.advance nPort 0).pcb nPort x.toNat).qCount = 0 := by
    intro x hx
    by_cases hcur : x = t.curPort nPort
    · rw [hcur, qCount_advance]
    · rw [pcb_advance_of_ne _ hcur]
      exact h.others x hx hcur
  refine ⟨?_, hzero⟩
  constructor
  · show Linked ((t.advance nPort 0).link nPort) _ _ _
    rw [(keeps_advance t nPort _).link]
    exact h.act
  · rw [Tables.curPort_setCurPort]
    exact Or.inr hb
  · exact fun x hx _ ↦ hzero x hx
  · intro x hx
    show ((t.advance nPort 0).pcb nPort x.toNat).qCount.toNat < _
    rw [hzero x hx]
    exact turns_pos _ nPort x
  · exact routine_advance 0 h.routine

theorem order_keeps {t' : Tables} (h : Keeps t t' nPort) (nds : Bool) (ys : List UInt8) :
    t'.order nPort nds ys = t.order nPort nds ys := order_congr h.turns

/-- What `NPS3main` asks. -/
def Tables.visit (t : Tables) (nPort : Nat) (nds : Bool) : Visit :=
  ⟨nds, t.curPort nPort, (t.pcb nPort (t.curPort nPort).toNat).qCount.toNat⟩

/-- Behind the last queue of a PCB comes the first one of the next PCB, or the round ends. -/
theorem Cursor.leaves (h : Cursor t nPort (l₁ ++ t.curPort nPort :: l₂))
    (hend : (t.pcb nPort (t.curPort nPort).toNat).totalQueue ≤
      (t.pcb nPort (t.curPort nPort).toNat).qCount + 1)
    (heq : t.nextQueue nPort = (t.advance nPort 0).setCurPort nPort
      (if (t.pcb nPort (t.curPort nPort).toNat).nextPortPCB = nullByte then t.actPort nPort
        else (t.pcb nPort (t.curPort nPort).toNat).nextPortPCB)) :
    Cursor (t.nextQueue nPort) nPort (l₁ ++ t.curPort nPort :: l₂) ∧
      ((t.atEnd nPort = false ∧ l₂ ≠ [] ∧
          Position nds (t.nextQueue nPort) nPort (l₁ ++ t.curPort nPort :: l₂)
            (t.order nPort nds (l₁ ++ [t.curPort nPort])) (t.order nPort nds l₂)) ∨
        (t.atEnd nPort = true ∧ l₂ = [] ∧
          Position nds (t.nextQueue nPort) nPort (l₁ ++ t.curPort nPort :: l₂) []
            (t.order nPort nds (l₁ ++ t.curPort nPort :: l₂)))) := by
  have hkeeps := keeps_nextQueue t nPort
  have hlink : Linked (t.link nPort) nullByte
      (t.pcb nPort (t.curPort nPort).toNat).nextPortPCB l₂ := h.act.drop_of_append
  cases l₂ with
  | nil =>
    have hnil : (t.pcb nPort (t.curPort nPort).toNat).nextPortPCB = nullByte := hlink
    have hat : t.atEnd nPort = true := decide_eq_true ⟨hend, hnil⟩
    rw [if_pos hnil] at heq
    obtain ⟨y, ys, hys⟩ : ∃ y ys, l₁ ++ [t.curPort nPort] = y :: ys :=
      List.exists_cons_of_ne_nil (List.append_ne_nil_of_right_ne_nil _ (List.cons_ne_nil _ _))
    rw [hys] at h ⊢
    have hhead : t.actPort nPort = y := h.act.1
    obtain ⟨hcursor, hzero⟩ := h.leave (b := y) List.mem_cons_self
    rw [hhead] at heq
    have hstart := @position_start (t.nextQueue nPort) nPort nds y [] ys
      (by rw [heq]; exact Tables.curPort_setCurPort) (by rw [heq]; exact hzero y List.mem_cons_self)
    rw [order_keeps hkeeps, order_keeps hkeeps] at hstart
    rw [heq] at hstart ⊢
    exact ⟨hcursor, Or.inr ⟨hat, rfl, hstart⟩⟩
  | cons b l₂ =>
    have hb : (t.pcb nPort (t.curPort nPort).toNat).nextPortPCB = b := hlink.1
    have hnil : b ≠ nullByte := hlink.2.1
    have hat : t.atEnd nPort = false := decide_eq_false (fun hand ↦ hnil (hb ▸ hand.2))
    rw [hb, if_neg hnil] at heq
    have hmem : b ∈ l₁ ++ t.curPort nPort :: b :: l₂ :=
      List.mem_append_right _ (List.mem_cons_of_mem _ List.mem_cons_self)
    obtain ⟨hcursor, hzero⟩ := h.leave hmem
    have hstart := @position_start (t.nextQueue nPort) nPort nds b (l₁ ++ [t.curPort nPort]) l₂
      (by rw [heq]; exact Tables.curPort_setCurPort)
      (by rw [heq]; exact hzero b hmem)
    rw [order_keeps hkeeps, order_keeps hkeeps, List.append_assoc, List.singleton_append] at hstart
    rw [heq] at hstart ⊢
    exact ⟨hcursor, Or.inl ⟨hat, List.cons_ne_nil _ _, hstart⟩⟩

/-- The next queue of a list, with the end of its round. -/
theorem Position.nextQueue (hs : Cursor t nPort ys) (h : Position nds t nPort ys done rest)
    (hys : ys ≠ []) : Cursor (t.nextQueue nPort) nPort ys ∧
      ∃ rest', rest = t.visit nPort nds :: rest' ∧
        ((t.atEnd nPort = false ∧ Position nds (t.nextQueue nPort) nPort ys
            (done ++ [t.visit nPort nds]) rest') ∨
          (t.atEnd nPort = true ∧ rest' = [] ∧
            Position nds (t.nextQueue nPort) nPort ys [] (t.order nPort nds ys))) := by
  have hkeeps := keeps_nextQueue t nPort
  cases h with
  | empty h => exact absurd rfl hys
  | mid l₁ l₂ hc hq hn =>
    rename_i c q n
    subst hc
    have hvisit : t.visit nPort nds = ⟨nds, t.curPort nPort, q⟩ := by rw [Tables.visit, hq]
    have hrest : (List.range' q (n + 1)).map (Visit.mk nds (t.curPort nPort)) ++
        t.order nPort nds l₂ = t.visit nPort nds ::
          ((List.range' (q + 1) n).map (Visit.mk nds (t.curPort nPort)) ++
            t.order nPort nds l₂) := by
      rw [hvisit, List.range'_succ, List.map_cons, List.cons_append]
    have hdone : t.order nPort nds l₁ ++ (List.range (q + 1)).map (Visit.mk nds (t.curPort nPort)) =
        t.order nPort nds l₁ ++ (List.range q).map (Visit.mk nds (t.curPort nPort)) ++
          [t.visit nPort nds] := by
      rw [hvisit, List.range_succ, List.map_append, List.append_assoc]
      rfl
    obtain ⟨hlt, heq⟩ | ⟨hend, heq⟩ := nextQueue_cases t nPort
    · obtain ⟨hcursor, hmore, hsucc⟩ := hs.inside rfl hq hn hlt
      have hat : t.atEnd nPort = false :=
        decide_eq_false (fun hand ↦ absurd hand.1 (UInt8.not_le.mpr hlt))
      rw [← heq] at hcursor
      refine ⟨hcursor, _, hrest, Or.inl ⟨hat, ?_⟩⟩
      have hnow : ((t.nextQueue nPort).pcb nPort (t.curPort nPort).toNat).qCount.toNat = q + 1 := by
        rw [heq, qCount_advance, hsucc]
      have hcur : (t.nextQueue nPort).curPort nPort = t.curPort nPort := by rw [heq]; rfl
      have hmid : Position nds (t.nextQueue nPort) nPort (l₁ ++ t.curPort nPort :: l₂) _ _ :=
        Position.mid (n := n - 1) l₁ l₂ hcur hnow (by rw [hkeeps.turns, hn]; omega)
      rw [order_keeps hkeeps, order_keeps hkeeps, hdone, show n - 1 + 1 = n by omega] at hmid
      exact hmid
    · obtain ⟨hcursor, hnext⟩ := hs.leaves hend heq
      have hlast : n = 0 := by
        have hnat := UInt8.le_iff_toNat_le.mp hend
        have hbound := turns_lt t nPort (t.curPort nPort)
        rw [UInt8.toNat_add, hq] at hnat
        have hmod : (q + (1 : UInt8).toNat) % 2 ^ 8 = q + 1 := by
          show (q + 1) % 256 = q + 1
          omega
        rw [hmod] at hnat
        rw [Tables.turns] at hn
        omega
      subst hlast
      rw [List.range'_zero, List.map_nil, List.nil_append] at hrest
      refine ⟨hcursor, _, hrest, ?_⟩
      obtain ⟨hat, -, hposition⟩ | ⟨hat, hnil, hposition⟩ := hnext
      · apply Or.inl
        rw [order_append, order_cons, hn] at hposition
        refine ⟨hat, ?_⟩
        rw [← hdone]
        have htail : t.order nPort nds [] = [] := rfl
        rw [htail, List.append_nil] at hposition
        exact hposition
      · apply Or.inr
        rw [hnil] at hposition ⊢
        exact ⟨hat, rfl, hposition⟩

end PrintServer.Novell
