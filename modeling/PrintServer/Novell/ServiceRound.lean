import PrintServer.Novell.ServiceTurn

/-!
# Rounds of both modes

`NPS3main` goes through one list, toggles the mode and goes through the other one.  A server that
is attached goes in front of the current PCB of its list, so that a list that is not being served
need not stand at its head.
-/

namespace PrintServer.Novell

open Lib

variable {nPort : Nat} {lists : Bool → List UInt8} {done rest : Bool → List Visit}
  {s t u : Service} {m : Meets}

/-! ## What should hold -/

/-- The active lists of both modes, and nothing but these modes. -/
structure Lists (nPort : Nat) (lists : Bool → List UInt8) (s : Service) : Prop where
  mode : s.curServiceMode = psNetwareMode ∨ s.curServiceMode = psNdsMode
  cursor : ∀ nds, Cursor (s.tables nds) nPort (lists nds)

namespace Service

variable (s : Service) (nPort : Nat) (lists : Bool → List UInt8)

/-- The queues that are asked in a round of a list, in this order. -/
def order (nds : Bool) : List Visit := (s.tables nds).order nPort nds (lists nds)

/-- The queues of the PCBs of both lists. -/
def pairs : List Visit :=
  [false, true].flatMap fun nds ↦ (lists nds).flatMap fun b ↦
    (List.range ((s.tables nds).pcb nPort b.toNat).totalQueue.toNat).map (Visit.mk nds b)

/-- The list that is not being served stands at its first queue, or one list is empty. -/
def AtHead : Prop :=
  (s.tables s.isDSmode).curPort nPort = nullByte ∨
    (s.tables (!s.isDSmode)).curPort nPort = nullByte ∨
    (s.tables (!s.isDSmode)).curPort nPort = (s.tables (!s.isDSmode)).actPort nPort ∧
      ((s.tables (!s.isDSmode)).pcb nPort
        ((s.tables (!s.isDSmode)).curPort nPort).toNat).qCount = 0

instance : Decidable (s.AtHead nPort) := by
  unfold AtHead
  infer_instance

end Service

/-- Every queue has no job. -/
def NoJob (_ : Service) (m : Meets) : Prop := m.answer = noQueueJob

instance (s : Service) (m : Meets) : Decidable (NoJob s m) := by
  unfold NoJob
  infer_instance

/-! ## The state as a round robin -/

/-- Where both lists stand. -/
structure Standing (nPort : Nat) (lists : Bool → List UInt8) (done rest : Bool → List Visit)
    (s : Service) : Prop extends Lists nPort lists s where
  position : ∀ nds, Position nds (s.tables nds) nPort (lists nds) (done nds) (rest nds)

/-- The queues in the order in which they will be asked. -/
def queue (done rest : Bool → List Visit) (nds : Bool) : List Visit :=
  rest nds ++ rest (!nds) ++ done nds ++ done (!nds)

/-- The list that is not being served has its whole round to come. -/
def Fresh (lists : Bool → List UInt8) (done : Bool → List Visit) (nds : Bool) : Prop :=
  lists nds = [] ∨ done (!nds) = []

theorem Lists.standing (h : Lists nPort lists s) :
    ∃ done rest, Standing nPort lists done rest s := by
  obtain ⟨doneB, restB, hB⟩ := (h.cursor false).position false
  obtain ⟨doneN, restN, hN⟩ := (h.cursor true).position true
  refine ⟨fun nds ↦ cond nds doneN doneB, fun nds ↦ cond nds restN restB, h, ?_⟩
  intro nds
  cases nds with
  | false => exact hB
  | true => exact hN

theorem Cursor.eq_nil_iff {t : Tables} {ys : List UInt8} (h : Cursor t nPort ys) :
    ys = [] ↔ t.curPort nPort = nullByte := by
  constructor
  · intro hys
    obtain ⟨-, hcur⟩ | hcur := h.curPort
    · exact hcur
    · rw [hys] at hcur
      cases hcur
  · intro hcur
    obtain ⟨hys, -⟩ | hmem := h.curPort
    · exact hys
    · exact absurd hcur (h.act.ne_nil hmem)

theorem Position.done_eq_nil_iff {nds : Bool} {t : Tables} {ys : List UInt8}
    {done rest : List Visit} (hs : Cursor t nPort ys) (h : Position nds t nPort ys done rest) :
    done = [] ↔ t.curPort nPort = nullByte ∨
      t.curPort nPort = t.actPort nPort ∧ (t.pcb nPort (t.curPort nPort).toNat).qCount = 0 := by
  have hempty := hs.eq_nil_iff
  have hact := hs.act
  have hnodup := hs.act.nodup
  cases h with
  | empty h => exact iff_of_true rfl (Or.inl h)
  | mid l₁ l₂ hc hq hn =>
    rename_i c q n
    subst hc
    have hne : t.curPort nPort ≠ nullByte := fun h ↦
      List.append_ne_nil_of_right_ne_nil l₁ (List.cons_ne_nil _ l₂) (hempty.mpr h)
    rw [List.append_eq_nil_iff, List.map_eq_nil_iff, List.range_eq_nil]
    constructor
    · intro ⟨hfirst, hzero⟩
      apply Or.inr
      cases l₁ with
      | nil =>
        refine ⟨hact.1.symm, ?_⟩
        apply UInt8.toNat_inj.mp
        rw [hq, hzero]
        rfl
      | cons y l₁ =>
        -- each PCB is asked
        rw [order_cons, List.append_eq_nil_iff, List.map_eq_nil_iff, List.range_eq_nil] at hfirst
        have hpos := turns_pos t nPort y
        omega
    · intro h
      obtain h | ⟨hhead, hzero⟩ := h
      · exact absurd h hne
      · refine ⟨?_, ?_⟩
        · cases l₁ with
          | nil => rfl
          | cons y l₁ =>
            have hy : t.curPort nPort = y := hhead.trans hact.1
            rw [List.cons_append, List.nodup_cons] at hnodup
            exact absurd (List.mem_append_right _ (hy ▸ List.mem_cons_self)) hnodup.1
        · rw [← hq, hzero]
          rfl

theorem Standing.fresh_iff (h : Standing nPort lists done rest s) :
    Fresh lists done s.isDSmode ↔ s.AtHead nPort := by
  rw [Fresh, Service.AtHead, (h.cursor s.isDSmode).eq_nil_iff,
    (h.position (!s.isDSmode)).done_eq_nil_iff (h.cursor (!s.isDSmode))]

/-! ## Modes -/

theorem Lists.isBmode (h : Lists nPort lists s) : s.isBmode = !s.isDSmode := by
  obtain hmode | hmode := h.mode
  · rw [Service.isBmode, Service.isDSmode, hmode]
    rfl
  · rw [Service.isBmode, Service.isDSmode, hmode]
    rfl

theorem isDSmode_modeToggle (h : s.curServiceMode = psNetwareMode ∨ s.curServiceMode = psNdsMode) :
    s.modeToggle.isDSmode = !s.isDSmode := by
  obtain hmode | hmode := h
  · rw [Service.isDSmode, Service.isDSmode, Service.modeToggle, hmode]
    show decide ((psNetwareMode ^^^ (psNetwareMode ||| psNdsMode)) &&& psNdsMode ≠ 0) =
      !decide (psNetwareMode &&& psNdsMode ≠ 0)
    decide
  · rw [Service.isDSmode, Service.isDSmode, Service.modeToggle, hmode]
    show decide ((psNdsMode ^^^ (psNetwareMode ||| psNdsMode)) &&& psNdsMode ≠ 0) =
      !decide (psNdsMode &&& psNdsMode ≠ 0)
    decide

theorem tables_modeToggle (s : Service) (nds : Bool) : s.modeToggle.tables nds = s.tables nds := by
  cases nds with
  | false => rfl
  | true => rfl

theorem Standing.modeToggle (h : Standing nPort lists done rest s) :
    Standing nPort lists done rest s.modeToggle where
  mode := by
    obtain hmode | hmode := h.mode
    · rw [Service.modeToggle, hmode]
      exact Or.inr rfl
    · rw [Service.modeToggle, hmode]
      exact Or.inl rfl
  cursor := fun nds ↦ by
    rw [tables_modeToggle]
    exact h.cursor nds
  position := fun nds ↦ by
    rw [tables_modeToggle]
    exact h.position nds

/-- An empty list is passed over. -/
theorem Standing.pass (h : Standing nPort lists done rest s) {nds : Bool} (hys : lists nds = []) :
    Fresh lists done (!nds) ∧ queue done rest (!nds) = queue done rest nds := by
  have hposition := h.position nds
  rw [hys] at hposition
  have hnil : done nds = [] ∧ rest nds = [] := by
    generalize done nds = d, rest nds = r at hposition
    generalize hy : ([] : List UInt8) = ys at hposition
    cases hposition with
    | empty h => exact ⟨rfl, rfl⟩
    | mid l₁ l₂ hc hq hn =>
      exact absurd hy.symm (List.append_ne_nil_of_right_ne_nil l₁ (List.cons_ne_nil _ l₂))
  constructor
  · apply Or.inr
    rw [Bool.not_not]
    exact hnil.1
  · rw [queue, queue, Bool.not_not, hnil.1, hnil.2, List.append_nil, List.append_nil,
      List.nil_append, List.append_nil]

/-! ## A call -/

theorem tables_setTables (s : Service) (nds nds' : Bool) (x : Tables) :
    (s.setTables nds x).tables nds' = if nds' = nds then x else s.tables nds' := by
  cases nds <;> cases nds' <;> rfl

/-- What a call does to the turns. -/
structure Turns (lists : Bool → List UInt8) (done rest done' rest' : Bool → List Visit)
    (s u : Service) : Prop where
  fresh : Fresh lists done s.isDSmode → Fresh lists done' u.isDSmode ∧
    (u.visits = s.visits ∧ queue done' rest' u.isDSmode = queue done rest s.isDSmode ∨
      ∃ v q, u.visits = s.visits ++ [v] ∧ queue done rest s.isDSmode = v :: q ∧
        queue done' rest' u.isDSmode = q ++ [v])
  first : Fresh lists done' u.isDSmode ∨ u.isDSmode = s.isDSmode ∧
    u.visits.length + (rest' u.isDSmode).length = s.visits.length + (rest s.isDSmode).length

theorem Turns.refl (lists : Bool → List UInt8) (done rest : Bool → List Visit) (s : Service) :
    Turns lists done rest done rest s s :=
  ⟨fun h ↦ ⟨h, Or.inl ⟨rfl, rfl⟩⟩, Or.inr ⟨rfl, rfl⟩⟩

/-- The state once a queue without a job was asked. -/
def Service.asked (s : Service) (nPort : Nat) (nds : Bool) : Service :=
  let t := s.tables nds
  let s' := ({ s with visits := s.visits ++ [t.visit nPort nds] } : Service).setTables nds
    (t.nextQueue nPort)
  if t.atEnd nPort then s'.modeToggle else s'

theorem isDSmode_setTables (s : Service) (nds : Bool) (x : Tables) :
    (s.setTables nds x).isDSmode = s.isDSmode := by
  cases nds with
  | false => rfl
  | true => rfl

theorem Standing.setTables {nds : Bool} {x : Tables} {d r : List Visit}
    (h : Standing nPort lists done rest s) (visits : List Visit)
    (hcursor : Cursor x nPort (lists nds)) (hposition : Position nds x nPort (lists nds) d r) :
    Standing nPort lists (Function.update done nds d) (Function.update rest nds r)
      (({ s with visits } : Service).setTables nds x) where
  mode := by
    cases nds with
    | false => exact h.mode
    | true => exact h.mode
  cursor := by
    intro nds'
    rw [tables_setTables]
    split
    · next heq => exact heq ▸ hcursor
    · exact h.cursor nds'
  position := by
    intro nds'
    rw [tables_setTables]
    by_cases heq : nds' = nds
    · rw [if_pos heq, heq, Function.update_self, Function.update_self]
      exact hposition
    · rw [if_neg heq, Function.update_of_ne heq, Function.update_of_ne heq]
      exact h.position nds'

theorem Standing.ask (h : Standing nPort lists done rest s) (hys : lists s.isDSmode ≠ []) :
    ∃ done' rest', Standing nPort lists done' rest' (s.asked nPort s.isDSmode) ∧
      Turns lists done rest done' rest' s (s.asked nPort s.isDSmode) := by
  obtain ⟨hcursor, rest', hrest, hnext⟩ :=
    (h.position s.isDSmode).nextQueue (h.cursor s.isDSmode) hys
  have hother : (!s.isDSmode) ≠ s.isDSmode := by cases s.isDSmode <;> decide
  have horder := (h.position s.isDSmode).order_eq
  generalize hv : (s.tables s.isDSmode).visit nPort s.isDSmode = v at hrest hnext
  obtain ⟨hat, hposition⟩ | ⟨hat, hnil, hposition⟩ := hnext
  · -- the list goes on
    have hstanding := h.setTables (s.visits ++ [v]) hcursor hposition
    have hasked : s.asked nPort s.isDSmode =
        ({ s with visits := s.visits ++ [v] } : Service).setTables s.isDSmode
          ((s.tables s.isDSmode).nextQueue nPort) := by
      rw [Service.asked, hv]
      exact if_neg (Bool.eq_false_iff.mp hat)
    rw [hasked]
    refine ⟨_, _, hstanding, ?_⟩
    have hmode : (({ s with visits := s.visits ++ [v] } : Service).setTables s.isDSmode
        ((s.tables s.isDSmode).nextQueue nPort)).isDSmode = s.isDSmode := isDSmode_setTables _ _ _
    have hvisits : (({ s with visits := s.visits ++ [v] } : Service).setTables s.isDSmode
        ((s.tables s.isDSmode).nextQueue nPort)).visits = s.visits ++ [v] := by
      cases s.isDSmode with
      | false => rfl
      | true => rfl
    constructor
    · intro hfresh
      rw [hmode]
      have hdone : done (!s.isDSmode) = [] := hfresh.resolve_left hys
      refine ⟨Or.inr ?_, Or.inr
        ⟨v, rest' ++ rest (!s.isDSmode) ++ done s.isDSmode, hvisits, ?_, ?_⟩⟩
      · rw [Function.update_of_ne hother]
        exact hdone
      · rw [queue, hrest, hdone, List.append_nil]
        rfl
      · rw [queue, Function.update_self, Function.update_self, Function.update_of_ne hother,
          Function.update_of_ne hother, hdone, List.append_nil, List.append_assoc,
          List.append_assoc, List.append_assoc]
    · apply Or.inr
      rw [hmode, Function.update_self, hvisits, hrest, List.length_append, List.length_cons,
        List.length_cons, List.length_nil]
      exact ⟨rfl, by omega⟩
  · -- the list is through: the other mode
    have hset := h.setTables (s.visits ++ [v]) hcursor hposition
    have hasked : s.asked nPort s.isDSmode =
        (({ s with visits := s.visits ++ [v] } : Service).setTables s.isDSmode
          ((s.tables s.isDSmode).nextQueue nPort)).modeToggle := by
      rw [Service.asked, hv]
      exact if_pos hat
    rw [hasked]
    refine ⟨_, _, hset.modeToggle, ?_⟩
    have hmode : (({ s with visits := s.visits ++ [v] } : Service).setTables s.isDSmode
        ((s.tables s.isDSmode).nextQueue nPort)).modeToggle.isDSmode = !s.isDSmode := by
      rw [isDSmode_modeToggle hset.mode, isDSmode_setTables]
      rfl
    have hvisits : (({ s with visits := s.visits ++ [v] } : Service).setTables s.isDSmode
        ((s.tables s.isDSmode).nextQueue nPort)).modeToggle.visits = s.visits ++ [v] := by
      cases s.isDSmode with
      | false => rfl
      | true => rfl
    have hfresh' : Fresh lists (Function.update done s.isDSmode []) (!s.isDSmode) := by
      apply Or.inr
      rw [Bool.not_not, Function.update_self]
    constructor
    · intro hfresh
      rw [hmode]
      have hdone : done (!s.isDSmode) = [] := hfresh.resolve_left hys
      rw [hnil] at hrest
      refine ⟨hfresh', Or.inr ⟨v, rest (!s.isDSmode) ++ done s.isDSmode, hvisits, ?_, ?_⟩⟩
      · rw [queue, hrest, hdone, List.append_nil]
        rfl
      · rw [queue, Bool.not_not, Function.update_self, Function.update_self,
          Function.update_of_ne hother, Function.update_of_ne hother, hdone, horder, hrest,
          List.append_nil, List.append_nil, List.append_assoc]
    · rw [hmode]
      exact Or.inl hfresh'

theorem serviceNetWareQueue_cases (m : Meets) : serviceNetWareQueue m = (0, false) ∨
    serviceNetWareQueue m = (serviceAgain, false) ∨ serviceNetWareQueue m = (m.answer, true) := by
  rw [serviceNetWareQueue]
  split
  · exact Or.inl rfl
  split
  · exact Or.inl rfl
  split
  · exact Or.inr (Or.inl rfl)
  · exact Or.inr (Or.inr rfl)

theorem callRoutine_turns {retCode : UInt8} (h : Standing nPort lists done rest s)
    (hys : lists s.isDSmode ≠ []) (hm : NoJob s m)
    (hcall : callRoutine nPort s m = some (u, retCode)) :
    ∃ done' rest', Standing nPort lists done' rest' u ∧ Turns lists done rest done' rest' s u := by
  have hcur : (s.tables s.isDSmode).curPort nPort ∈ lists s.isDSmode :=
    (h.cursor s.isDSmode).curPort.resolve_left (fun hnil ↦ hys hnil.1)
  have hroutine := (h.cursor s.isDSmode).routine _ hcur
  simp only [callRoutine, h.isBmode, Bool.not_not, hroutine] at hcall
  obtain heq | heq | heq := serviceNetWareQueue_cases m
  · rw [heq] at hcall
    obtain ⟨rfl, -⟩ := Prod.mk.inj (Option.some.inj hcall)
    exact ⟨done, rest, h, Turns.refl lists done rest s⟩
  · rw [heq] at hcall
    obtain ⟨rfl, -⟩ := Prod.mk.inj (Option.some.inj hcall)
    exact ⟨done, rest, h, Turns.refl lists done rest s⟩
  · rw [heq, show m.answer = noQueueJob from hm] at hcall
    have hu : u = s.asked nPort s.isDSmode := (Prod.mk.inj (Option.some.inj hcall)).1.symm
    rw [hu]
    exact h.ask hys

/-- In front of what a call does an empty list is passed over. -/
theorem Turns.of_pass {t : Service} {done' rest' : Bool → List Visit}
    (hvisits : t.visits = s.visits)
    (hpass : Fresh lists done t.isDSmode ∧
      queue done rest t.isDSmode = queue done rest s.isDSmode)
    (h : Turns lists done rest done' rest' t u) : Turns lists done rest done' rest' s u := by
  obtain ⟨hfresh, hqueue⟩ := hpass
  have hturn := h.fresh hfresh
  rw [hvisits, hqueue] at hturn
  exact ⟨fun _ ↦ hturn, Or.inl hturn.1⟩

theorem Standing.toggle_empty (h : Standing nPort lists done rest s)
    (hys : lists s.isDSmode = []) : Fresh lists done s.modeToggle.isDSmode ∧
      queue done rest s.modeToggle.isDSmode = queue done rest s.isDSmode := by
  rw [isDSmode_modeToggle h.mode]
  exact h.pass hys

/-- What `NPS3main` does behind the test of the Bindery list. -/
theorem behindBindery_turns {retCode : UInt8} (h : Standing nPort lists done rest s)
    (hbindery : s.isDSmode = false → lists false ≠ []) (hm : NoJob s m)
    (hcall : (if s.isDSmode ∧ s.nds.curPort nPort = nullByte then
      some (s.modeToggle, serviceNextPS) else callRoutine nPort s m) = some (u, retCode)) :
    ∃ done' rest', Standing nPort lists done' rest' u ∧ Turns lists done rest done' rest' s u := by
  have hnds : lists true = [] ↔ s.nds.curPort nPort = nullByte := (h.cursor true).eq_nil_iff
  split at hcall
  · next hempty =>
    obtain ⟨rfl, -⟩ := Prod.mk.inj (Option.some.inj hcall)
    have hys : lists s.isDSmode = [] := by
      rw [hempty.1]
      exact hnds.mpr hempty.2
    refine ⟨done, rest, h.modeToggle, ?_⟩
    exact Turns.of_pass (t := s.modeToggle) rfl (h.toggle_empty hys)
      (Turns.refl lists done rest s.modeToggle)
  · next hempty =>
    apply callRoutine_turns h _ hm hcall
    cases hmode : s.isDSmode with
    | false => exact hbindery hmode
    | true => exact fun hys ↦ hempty ⟨hmode, hnds.mp hys⟩

theorem nps3main_turns {retCode : UInt8} (h : Standing nPort lists done rest s) (hm : NoJob s m)
    (hcall : nps3main nPort s m = some (u, retCode)) :
    ∃ done' rest', Standing nPort lists done' rest' u ∧ Turns lists done rest done' rest' s u := by
  have hbindery : lists false = [] ↔ s.bindery.curPort nPort = nullByte :=
    (h.cursor false).eq_nil_iff
  rw [nps3main] at hcall
  split at hcall
  · obtain ⟨rfl, -⟩ := Prod.mk.inj (Option.some.inj hcall)
    exact ⟨done, rest, h, Turns.refl lists done rest s⟩
  by_cases hempty : s.isBmode ∧ s.bindery.curPort nPort = nullByte
  · simp only [if_pos hempty] at hcall
    have hmode : s.isDSmode = false := by
      have hb := hempty.1
      rw [h.isBmode] at hb
      exact Bool.not_eq_true' _ |>.mp hb
    have hys : lists s.isDSmode = [] := by
      rw [hmode]
      exact hbindery.mpr hempty.2
    have hnow : s.modeToggle.isDSmode = true := by
      rw [isDSmode_modeToggle h.mode, hmode]
      rfl
    obtain ⟨done', rest', hstanding, hturns⟩ := behindBindery_turns h.modeToggle
      (fun hfalse ↦ absurd (hnow.symm.trans hfalse) (by decide)) hm hcall
    refine ⟨done', rest', hstanding, ?_⟩
    exact Turns.of_pass (t := s.modeToggle) rfl (h.toggle_empty hys) hturns
  · simp only [if_neg hempty] at hcall
    apply behindBindery_turns h _ hm hcall
    intro hmode hys
    apply hempty
    rw [h.isBmode, hmode]
    exact ⟨rfl, hbindery.mp hys⟩

/-! ## Over a run -/

/-- What a run from `s` keeps: the turns of a round robin once both lists are at a start, and before
that no more than the rest of the first list. -/
structure Rounds (nPort : Nat) (lists : Bool → List UInt8) (q : List Visit) (size : Nat)
    (start : Prop) (done rest : Bool → List Visit) (u : Service) : Prop where
  standing : Standing nPort lists done rest u
  fresh : start → Fresh lists done u.isDSmode ∧
    RoundRobin q u.visits (queue done rest u.isDSmode)
  first : Fresh lists done u.isDSmode ∨ u.visits.length + (rest u.isDSmode).length ≤ size

theorem Rounds.step {q : List Visit} {size : Nat} {start : Prop} {retCode : UInt8}
    (h : Rounds nPort lists q size start done rest s) (hm : NoJob s m)
    (hcall : nps3main nPort s m = some (u, retCode)) :
    ∃ done' rest', Rounds nPort lists q size start done' rest' u := by
  obtain ⟨done', rest', hstanding, hturns⟩ := nps3main_turns h.standing hm hcall
  refine ⟨done', rest', hstanding, ?_, ?_⟩
  · intro hstart
    obtain ⟨hfresh, hround⟩ := h.fresh hstart
    obtain ⟨hfresh', ⟨hvisits, hqueue⟩ | ⟨v, q', hvisits, hqueue, hqueue'⟩⟩ := hturns.fresh hfresh
    · rw [hvisits, hqueue]
      exact ⟨hfresh', hround⟩
    · rw [hqueue] at hround
      rw [hvisits, hqueue']
      exact ⟨hfresh', hround.turn⟩
  · obtain hfresh' | ⟨hmode, hlength⟩ := hturns.first
    · exact Or.inl hfresh'
    · obtain hfresh | hsize := h.first
      · exact Or.inl (hturns.fresh hfresh).1
      · apply Or.inr
        omega

theorem mem_order {v : Visit} {nds : Bool} {t : Tables} {ys : List UInt8} :
    v ∈ t.order nPort nds ys ↔ v.nds = nds ∧ v.pcb ∈ ys ∧ v.queue < t.turns nPort v.pcb := by
  rw [Tables.order, List.mem_flatMap]
  constructor
  · rintro ⟨b, hb, hv⟩
    obtain ⟨k, hk, rfl⟩ := List.mem_map.mp hv
    exact ⟨rfl, hb, List.mem_range.mp hk⟩
  · rintro ⟨hnds, hb, hk⟩
    refine ⟨v.pcb, hb, List.mem_map.mpr ⟨v.queue, List.mem_range.mpr hk, ?_⟩⟩
    rw [← hnds]

theorem order_nodup {nds : Bool} {t : Tables} {ys : List UInt8} (hys : ys.Nodup) :
    (t.order nPort nds ys).Nodup := by
  induction ys with
  | nil => exact List.nodup_nil
  | cons b ys ih =>
    obtain ⟨hb, hys⟩ := List.nodup_cons.mp hys
    rw [order_cons]
    apply List.Nodup.append _ (ih hys) _
    · apply List.nodup_range.map
      intro x y hxy
      exact congrArg Visit.queue hxy
    · intro v hv hv'
      obtain ⟨k, -, rfl⟩ := List.mem_map.mp hv
      exact hb (mem_order.mp hv').2.1

/-- The queues to be asked are those of both lists. -/
theorem Standing.queue_perm (h : Standing nPort lists done rest s) :
    (queue done rest s.isDSmode).Perm
      (s.order nPort lists s.isDSmode ++ s.order nPort lists (!s.isDSmode)) := by
  rw [Service.order, Service.order, (h.position _).order_eq, (h.position _).order_eq, queue]
  rw [List.perm_iff_count]
  intro v
  simp only [List.count_append]
  omega

theorem Standing.queue_nodup (h : Standing nPort lists done rest s) :
    (queue done rest s.isDSmode).Nodup := by
  rw [h.queue_perm.nodup_iff]
  apply List.Nodup.append (order_nodup (h.cursor _).act.nodup) (order_nodup (h.cursor _).act.nodup)
  intro v hv hv'
  have hne := (mem_order.mp hv).1.symm.trans (mem_order.mp hv').1
  cases hmode : s.isDSmode with
  | false =>
    rw [hmode] at hne
    cases hne
  | true =>
    rw [hmode] at hne
    cases hne

theorem Standing.mem_queue {v : Visit} (h : Standing nPort lists done rest s)
    (hv : v ∈ s.pairs nPort lists) : v ∈ queue done rest s.isDSmode := by
  rw [h.queue_perm.mem_iff, List.mem_append]
  obtain ⟨nds, -, hv⟩ := List.mem_flatMap.mp hv
  obtain ⟨b, hb, hv⟩ := List.mem_flatMap.mp hv
  obtain ⟨k, hk, rfl⟩ := List.mem_map.mp hv
  have hmem : (⟨nds, b, k⟩ : Visit) ∈ s.order nPort lists nds := by
    refine mem_order.mpr ⟨rfl, hb, ?_⟩
    have hlt := List.mem_range.mp hk
    exact Nat.lt_of_lt_of_le hlt (Nat.le_max_right _ _)
  by_cases hnds : nds = s.isDSmode
  · exact Or.inl (hnds ▸ hmem)
  · have hother : nds = !s.isDSmode := by
      cases nds <;> cases hmode : s.isDSmode <;> simp_all
    exact Or.inr (hother ▸ hmem)

/-- The calls from a state on, as long as no queue has a job: each queue of both lists is asked in
its turn, once the list that is not being served stands at its head; and the list that is being
served is gone through first. -/
theorem queues_inTurn (hs : Lists nPort lists s) (hvisits : s.visits = []) (calls : List Meets)
    (hjob : (serviceMachine nPort s).Along NoJob s calls)
    (hrun : (serviceMachine nPort s).run calls = some u) :
    Lists nPort lists u ∧
      (s.AtHead nPort → u.AtHead nPort ∧ InTurn (s.pairs nPort lists) u.visits ∧
        ((s.order nPort lists false).length + (s.order nPort lists true).length ≤
          u.visits.length → ∀ v ∈ s.pairs nPort lists, v ∈ u.visits)) ∧
      (¬u.AtHead nPort → u.visits.length < (s.order nPort lists s.isDSmode).length) := by
  obtain ⟨done, rest, hstanding⟩ := hs.standing
  have hu : ∃ done' rest', Rounds nPort lists (queue done rest s.isDSmode)
      (rest s.isDSmode).length (s.AtHead nPort) done' rest' u := by
    apply Machine.run_invariant (m := serviceMachine nPort s) _ _ hjob hrun
    · refine ⟨done, rest, hstanding, ?_, ?_⟩
      · intro hhead
        refine ⟨hstanding.fresh_iff.mpr hhead, ?_⟩
        show RoundRobin _ s.visits _
        rw [hvisits]
        exact RoundRobin.start
      · apply Or.inr
        show s.visits.length + _ ≤ _
        rw [hvisits, List.length_nil, Nat.zero_add]
        exact Nat.le_refl _
    · intro s' m t ⟨done', rest', hinv⟩ hm hstep
      obtain ⟨⟨t', retCode⟩, hcall, rfl⟩ := Option.map_eq_some_iff.mp hstep
      exact hinv.step hm hcall
  obtain ⟨done', rest', hinv⟩ := hu
  refine ⟨hinv.standing.toLists, ?_, ?_⟩
  · intro hhead
    obtain ⟨hfresh, hround⟩ := hinv.fresh hhead
    refine ⟨hinv.standing.fresh_iff.mp hfresh, ?_, ?_⟩
    · intro i j v w hij hi hj hw hne
      exact hround.inTurn hstanding.queue_nodup i j v w hij hi hj (hstanding.mem_queue hw) hne
    · intro hlen v hv
      apply hround.mem_served _ (hstanding.mem_queue hv)
      rw [hstanding.queue_perm.length_eq, List.length_append]
      cases hmode : s.isDSmode with
      | false => exact hlen
      | true =>
        show (s.order nPort lists true).length + (s.order nPort lists false).length ≤ _
        omega
  · intro hhead
    have hnot : ¬Fresh lists done' u.isDSmode := fun h ↦ hhead (hinv.standing.fresh_iff.mp h)
    have hys : lists u.isDSmode ≠ [] := fun h ↦ hnot (Or.inl h)
    obtain ⟨-, tail, htail, -⟩ :=
      (hinv.standing.position u.isDSmode).nextQueue (hinv.standing.cursor u.isDSmode) hys
    have hfirst := hinv.first.resolve_left hnot
    rw [htail, List.length_cons] at hfirst
    rw [Service.order, (hstanding.position s.isDSmode).order_eq, List.length_append]
    omega

/-! ## A list that does not stand at its head -/

/-- One queue for the port. -/
def oneQueueReply : Nat → PortReply := fun _ ↦
  ⟨.okay, fun i ↦ if i = 0 then .attached [0, 0, 0, 1] else .readEnd, true⟩

/-- The Bindery tables once two servers were attached. -/
def twoBindery : Tables :=
  (((binderyPrintServerInit 2).attachToFileServer 0 (some oneQueueReply)).1.attachToFileServer 1
    (some oneQueueReply)).1

/-- The PCBs of two NDS servers, each with a queue, none of them active. -/
def twoFree : Tables :=
  { binderyPrintServerInit 2 with
    pcb := fun _ j ↦ { clearedPCB with
      nextPortPCB := if j = 0 then 1 else nullByte
      pFSInfo := some j
      totalQueue := 1
      processRoutine := some .serviceNetWareQueue } }

/-- The first server of each mode is the current one, behind the second one. -/
def twoServers : Service where
  bindery := twoBindery
  nds := ((twoFree.activatePort 0 0).1.activatePort 0 1).1
  curServiceMode := psNetwareMode
  visits := []

def oneNdsServer : Service := { twoServers with nds := (twoFree.activatePort 0 0).1 }

/-- A call that reaches the request. -/
def idleCall : Meets := ⟨true, false, 10, 300, 300, noQueueJob⟩

theorem twoBindery_cursor : Cursor twoBindery 0 [1, 0] where
  act := ⟨by decide +kernel, by decide +kernel, by decide +kernel, by decide +kernel,
    Linked.nil_iff.mpr (by decide +kernel)⟩
  curPort := Or.inr (by decide +kernel)
  others := by decide +kernel
  current := by decide +kernel
  routine := by decide +kernel

theorem oneNdsServer_lists : Lists 0 (fun nds ↦ if nds then [0] else [1, 0]) oneNdsServer where
  mode := Or.inl rfl
  cursor := by
    intro nds
    cases nds with
    | false => exact twoBindery_cursor
    | true =>
      exact ⟨⟨by decide +kernel, by decide +kernel, Linked.nil_iff.mpr (by decide +kernel)⟩,
        Or.inr (by decide +kernel), by decide +kernel, by decide +kernel, by decide +kernel⟩

theorem queues_inTurn_oneNdsServer :
    oneNdsServer.AtHead 0 ∧
      ∃ u, (serviceMachine 0 oneNdsServer).run (List.replicate 5 idleCall) = some u ∧
        u.visits = [⟨false, 0, 0⟩, ⟨true, 0, 0⟩, ⟨false, 1, 0⟩, ⟨false, 0, 0⟩, ⟨true, 0, 0⟩] ∧
        InTurn (oneNdsServer.pairs 0 (fun nds ↦ if nds then [0] else [1, 0])) u.visits := by
  have hhead : oneNdsServer.AtHead 0 := by decide +kernel
  have hrun : ((serviceMachine 0 oneNdsServer).run (List.replicate 5 idleCall)).map (·.visits) =
      some [⟨false, 0, 0⟩, ⟨true, 0, 0⟩, ⟨false, 1, 0⟩, ⟨false, 0, 0⟩, ⟨true, 0, 0⟩] := by
    decide +kernel
  obtain ⟨u, hu, hvisits⟩ := Option.map_eq_some_iff.mp hrun
  refine ⟨hhead, u, hu, hvisits, ?_⟩
  exact ((queues_inTurn oneNdsServer_lists rfl _ (by decide +kernel) hu).2.1 hhead).2.1

/-- The queue of the first Bindery server is asked again before that of the second NDS server, which
was attached in front of the current one. -/
theorem secondServer_passedOver :
    Lists 0 (fun _ ↦ [1, 0]) twoServers ∧
      (serviceMachine 0 twoServers).Along NoJob twoServers (List.replicate 4 idleCall) ∧
      ∃ u, (serviceMachine 0 twoServers).run (List.replicate 4 idleCall) = some u ∧
        u.visits = [⟨false, 0, 0⟩, ⟨true, 0, 0⟩, ⟨false, 1, 0⟩, ⟨false, 0, 0⟩] ∧
        ¬InTurn (twoServers.pairs 0 (fun _ ↦ [1, 0])) u.visits := by
  have hrun : ((serviceMachine 0 twoServers).run (List.replicate 4 idleCall)).map (·.visits) =
      some [⟨false, 0, 0⟩, ⟨true, 0, 0⟩, ⟨false, 1, 0⟩, ⟨false, 0, 0⟩] := by
    decide +kernel
  obtain ⟨u, hu, hvisits⟩ := Option.map_eq_some_iff.mp hrun
  refine ⟨⟨Or.inl rfl, ?_⟩, by decide +kernel, u, hu, hvisits, ?_⟩
  · intro nds
    cases nds with
    | false => exact twoBindery_cursor
    | true =>
      exact ⟨⟨by decide +kernel, by decide +kernel, by decide +kernel, by decide +kernel,
        Linked.nil_iff.mpr (by decide +kernel)⟩, Or.inr (by decide +kernel), by decide +kernel,
        by decide +kernel, by decide +kernel⟩
  · intro hturn
    have hmem : (⟨true, 1, 0⟩ : Visit) ∈ twoServers.pairs 0 (fun _ ↦ [1, 0]) := by decide +kernel
    obtain ⟨k, -, hk, hvisit⟩ :=
      hturn 0 3 ⟨false, 0, 0⟩ ⟨true, 1, 0⟩ (by decide) (by rw [hvisits]; rfl) (by rw [hvisits]; rfl)
        hmem (by decide)
    have hvisit := List.mem_of_getElem? hvisit
    rw [hvisits] at hvisit
    exact absurd hvisit (by decide)

end PrintServer.Novell
