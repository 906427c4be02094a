import Mathlib.Data.List.Nodup
import Mathlib.Logic.Function.Basic

/-!
# Slots that own what they hold

A fixed set of slots, each empty or the owner of one allocation.  A slot is assigned without regard
to what it held, and what all slots hold is released at the end: each allocation is released exactly
once if and only if no slot is assigned while it holds one.
-/

namespace Lib

variable {F V : Type*}

/-- An allocation is named by its index in `made`. -/
structure Owned (F V : Type*) where
  held : F → Option Nat
  made : List V

namespace Owned

def empty : Owned F V := ⟨fun _ ↦ none, []⟩

/-- What a slot refers to. -/
def value (s : Owned F V) (f : F) : Option V := (s.held f).bind (s.made[·]?)

/-- What is released when every slot of `fs` is. -/
def released (fs : List F) (s : Owned F V) : List Nat := fs.filterMap s.held

/-- No two slots own the same allocation. -/
structure Inv (s : Owned F V) : Prop where
  lt : ∀ {f i}, s.held f = some i → i < s.made.length
  inj : ∀ {f g i}, s.held f = some i → s.held g = some i → f = g

def NoneLost (s : Owned F V) : Prop := ∀ i < s.made.length, ∃ f, s.held f = some i

variable {s : Owned F V} {a : F × Option V} {as : List (F × Option V)} {f : F} {i : Nat}

theorem inv_empty : Inv (empty : Owned F V) where
  lt := by
    intro f i h
    cases h
  inj := by
    intro f g i h
    cases h

/-- Each allocation is released once, if none is lost. -/
theorem count_released_iff {fs : List F} (hs : Inv s) (hnodup : fs.Nodup) (hfs : ∀ f, f ∈ fs) :
    (∀ i < s.made.length, (s.released fs).count i = 1) ↔ NoneLost s := by
  have hrel : (s.released fs).Nodup :=
    hnodup.filterMap fun f g i hf hg ↦ hs.inj hf hg
  have hmem (i : Nat) : i ∈ s.released fs ↔ ∃ f, s.held f = some i := by
    simp [released, List.mem_filterMap, hfs]
  apply forall_congr'
  intro i
  apply forall_congr'
  intro _
  rw [← hmem]
  constructor
  · intro hone
    apply List.count_pos_iff.mp
    omega
  · exact List.count_eq_one_of_mem hrel

/-! ## Assignments -/

variable [DecidableEq F]

/-- A slot is assigned a new allocation, or nothing. -/
def assign (s : Owned F V) (a : F × Option V) : Owned F V :=
  match a.2 with
  | some v => ⟨Function.update s.held a.1 (some s.made.length), s.made ++ [v]⟩
  | none => ⟨Function.update s.held a.1 none, s.made⟩

def run (s : Owned F V) (as : List (F × Option V)) : Owned F V := as.foldl assign s

theorem held_assign_of_ne (h : f ≠ a.1) : (s.assign a).held f = s.held f := by
  unfold assign
  split <;> exact Function.update_of_ne h ..

theorem held_assign_self : (s.assign a).held a.1 = a.2.map fun _ ↦ s.made.length := by
  unfold assign
  split <;> rename_i hv <;> rw [hv] <;> exact Function.update_self ..

theorem made_assign : (s.assign a).made = s.made ++ a.2.toList := by
  unfold assign
  split <;> rename_i hv <;> simp [hv]

/-- What a slot owns after an assignment: what it owned, or the new allocation. -/
theorem held_assign_cases (h : (s.assign a).held f = some i) :
    (f ≠ a.1 ∧ s.held f = some i) ∨ (f = a.1 ∧ i = s.made.length ∧ ∃ v, a.2 = some v) := by
  by_cases hf : f = a.1
  · rw [hf, held_assign_self] at h
    obtain ⟨v, hv, rfl⟩ := Option.map_eq_some_iff.mp h
    exact .inr ⟨hf, rfl, v, hv⟩
  · rw [held_assign_of_ne hf] at h
    exact .inl ⟨hf, h⟩

theorem length_made_le : s.made.length ≤ (s.assign a).made.length := by
  rw [made_assign, List.length_append]
  exact Nat.le_add_right ..

theorem Inv.assign (hs : Inv s) (a : F × Option V) : Inv (s.assign a) where
  lt := by
    intro f i h
    rcases held_assign_cases h with ⟨-, hold⟩ | ⟨-, rfl, v, hv⟩
    · exact Nat.lt_of_lt_of_le (hs.lt hold) length_made_le
    · rw [made_assign, hv]
      simp
  inj := by
    intro f g i hf hg
    rcases held_assign_cases hf with ⟨-, hf'⟩ | ⟨rfl, rfl, -⟩
    · rcases held_assign_cases hg with ⟨-, hg'⟩ | ⟨-, rfl, -⟩
      · exact hs.inj hf' hg'
      · exact absurd (hs.lt hf') (Nat.lt_irrefl _)
    · rcases held_assign_cases hg with ⟨-, hg'⟩ | ⟨hg', -⟩
      · exact absurd (hs.lt hg') (Nat.lt_irrefl _)
      · exact hg'.symm

theorem value_assign (hs : Inv s) {g : F} {v : V} :
    (s.assign (g, some v)).value f = if f = g then some v else s.value f := by
  unfold value
  rw [made_assign]
  split
  · rename_i hfg
    rw [hfg]
    show (((s.assign (g, some v)).held g).bind _) = _
    rw [show (s.assign (g, some v)).held g = some s.made.length from held_assign_self]
    simp
  · rename_i hfg
    rw [held_assign_of_ne (a := (g, some v)) hfg]
    cases hold : s.held f with
    | none => rfl
    | some i => exact List.getElem?_append_left (hs.lt hold)

/-- An assignment loses what its slot held, and nothing else. -/
theorem noneLost_assign (hs : Inv s) :
    NoneLost (s.assign a) ↔ NoneLost s ∧ s.held a.1 = none := by
  constructor
  · intro hall
    -- an old allocation is owned by another slot, which owned it before
    have hold : ∀ i < s.made.length, ∃ f, f ≠ a.1 ∧ s.held f = some i := by
      intro i hi
      obtain ⟨f, hf⟩ := hall i (Nat.lt_of_lt_of_le hi length_made_le)
      rcases held_assign_cases hf with h | ⟨-, rfl, -⟩
      · exact ⟨f, h⟩
      · exact absurd hi (Nat.lt_irrefl _)
    refine ⟨fun i hi ↦ (hold i hi).imp fun _ h ↦ h.2, ?_⟩
    cases hself : s.held a.1 with
    | none => rfl
    | some i =>
        obtain ⟨f, hne, hf⟩ := hold i (hs.lt hself)
        exact absurd (hs.inj hf hself) hne
  · intro ⟨hall, hfree⟩ i hi
    by_cases hlt : i < s.made.length
    · obtain ⟨f, hf⟩ := hall i hlt
      have hne : f ≠ a.1 := by
        rintro rfl
        rw [hfree] at hf
        cases hf
      exact ⟨f, (held_assign_of_ne hne).trans hf⟩
    · rw [made_assign, List.length_append] at hi
      cases hv : a.2 with
      | none =>
          rw [hv] at hi
          exact absurd hi hlt
      | some v =>
          have hlast : i = s.made.length := by
            rw [hv] at hi
            simp only [Option.toList_some, List.length_singleton] at hi
            omega
          refine ⟨a.1, ?_⟩
          rw [held_assign_self, hv, hlast]
          rfl

theorem Inv.run (hs : Inv s) (as : List (F × Option V)) : Inv (s.run as) := by
  induction as generalizing s with
  | nil => exact hs
  | cons a as ih => exact ih (hs.assign a)

theorem noneLost_run (hs : Inv s) :
    NoneLost (s.run as) ↔ NoneLost s ∧ (∀ a ∈ as, s.held a.1 = none) ∧
      as.Pairwise fun a b ↦ a.1 = b.1 → a.2 = none := by
  induction as generalizing s with
  | nil => simp [run]
  | cons a as ih =>
      have hafter (b : F × Option V) : (s.assign a).held b.1 = none ↔
          if a.1 = b.1 then a.2 = none else s.held b.1 = none := by
        split
        · rename_i hab
          rw [← hab, held_assign_self, Option.map_eq_none_iff]
        · rename_i hab
          rw [held_assign_of_ne (Ne.symm hab)]
      change NoneLost ((s.assign a).run as) ↔ _
      rw [ih (hs.assign a), noneLost_assign hs, List.pairwise_cons, List.forall_mem_cons]
      constructor
      · rintro ⟨⟨hall, hself⟩, hfree, hpair⟩
        refine ⟨hall, ⟨hself, fun b hb ↦ ?_⟩, fun b hb hab ↦ ?_, hpair⟩
        · by_cases hab : a.1 = b.1
          · exact hab ▸ hself
          · exact (if_neg hab).mp ((hafter b).mp (hfree b hb))
        · exact (if_pos hab).mp ((hafter b).mp (hfree b hb))
      · rintro ⟨hall, ⟨hself, hfree⟩, hfirst, hpair⟩
        refine ⟨⟨hall, hself⟩, fun b hb ↦ (hafter b).mpr ?_, hpair⟩
        split
        · exact hfirst b hb ‹_›
        · exact hfree b hb

/-- The rule for a whole run: everything is released once if and only if no slot that may hold
something is assigned. -/
theorem released_once_iff {fs : List F} (hnodup : fs.Nodup) (hfs : ∀ f, f ∈ fs) :
    (∀ i < ((empty : Owned F V).run as).made.length,
      ((empty.run as).released fs).count i = 1) ↔
      as.Pairwise fun a b ↦ a.1 = b.1 → a.2 = none := by
  have hempty : NoneLost (empty : Owned F V) := fun i hi ↦ absurd hi (Nat.not_lt_zero i)
  rw [count_released_iff (inv_empty.run as) hnodup hfs, noneLost_run inv_empty]
  constructor
  · exact fun h ↦ h.2.2
  · exact fun h ↦ ⟨hempty, fun _ _ ↦ rfl, h⟩

/-- What a slot refers to in the end was assigned to it. -/
theorem value_run {v : V} (h : (empty.run as).value f = some v) : (f, some v) ∈ as := by
  have hgen : ∀ (as : List (F × Option V)) (s : Owned F V), Inv s →
      ∀ v, (s.run as).value f = some v → s.value f = some v ∨ (f, some v) ∈ as := by
    intro as
    induction as with
    | nil => exact fun s _ v h ↦ .inl h
    | cons a as ih =>
        intro s hs v h
        rcases ih (s.assign a) (hs.assign a) v h with hassign | hmem
        · obtain ⟨i, hi, hv⟩ := Option.bind_eq_some_iff.mp hassign
          rw [made_assign] at hv
          rcases held_assign_cases hi with ⟨-, hold⟩ | ⟨rfl, rfl, w, hw⟩
          · rw [List.getElem?_append_left (hs.lt hold)] at hv
            exact .inl (Option.bind_eq_some_iff.mpr ⟨i, hold, hv⟩)
          · have hvw : w = v := by simpa [hw] using hv
            right
            rw [← hvw, ← hw]
            exact List.mem_cons_self
        · exact .inr (List.mem_cons_of_mem a hmem)
  rcases hgen as empty inv_empty v h with hnone | hmem
  · cases hnone
  · exact hmem

end Owned

end Lib
