import Mathlib.Data.List.Basic
import Mathlib.Order.Basic

/-!
# Labelled machines and their finite runs

A machine is an initial state with a partial step function over labels: a label names the thread
that moves and what its environment answers, so that a list of labels is one interleaving.  Runs
compute, so a concrete interleaving is checked by evaluation, and `run_invariant` is the induction
that carries a state predicate along every run.
-/

namespace Lib

variable {σ α : Type*}

/-- An initial state and a partial transition function; `none` is a label that is not enabled. -/
structure Machine (σ α : Type*) where
  init : σ
  step : σ → α → Option σ

namespace Machine

def runFrom (m : Machine σ α) : σ → List α → Option σ
  | s, [] => some s
  | s, a :: as =>
      match m.step s a with
      | none => none
      | some s' => m.runFrom s' as

def run (m : Machine σ α) (as : List α) : Option σ := m.runFrom m.init as

/-- Every step that the labels take from `s` satisfies `ok` in the state before it. -/
def Along (m : Machine σ α) (ok : σ → α → Prop) : σ → List α → Prop
  | _, [] => True
  | s, a :: as =>
      ok s a ∧ match m.step s a with
        | none => True
        | some s' => m.Along ok s' as

instance decidableAlong (m : Machine σ α) (ok : σ → α → Prop) [∀ s a, Decidable (ok s a)] :
    ∀ (as : List α) (s : σ), Decidable (m.Along ok s as)
  | [], _ => isTrue trivial
  | a :: as, s =>
      have : Decidable (match m.step s a with
          | none => True
          | some s' => m.Along ok s' as) :=
        match m.step s a with
        | none => isTrue trivial
        | some s' => decidableAlong m ok as s'
      inferInstanceAs (Decidable (_ ∧ _))

def Reachable (m : Machine σ α) (s : σ) : Prop := ∃ as, m.run as = some s

@[simp] theorem runFrom_nil (m : Machine σ α) (s : σ) : m.runFrom s [] = some s := rfl

theorem runFrom_cons_some {m : Machine σ α} {s s' : σ} {a : α} {as : List α} :
    m.runFrom s (a :: as) = some s' ↔ ∃ t, m.step s a = some t ∧ m.runFrom t as = some s' := by
  rw [runFrom]
  cases m.step s a with
  | none => simp
  | some t => simp

theorem runFrom_append (m : Machine σ α) (as bs : List α) (s : σ) :
    m.runFrom s (as ++ bs) = (m.runFrom s as).bind (m.runFrom · bs) := by
  induction as generalizing s with
  | nil => rfl
  | cons a as ih =>
      simp only [List.cons_append, runFrom]
      cases m.step s a with
      | none => rfl
      | some t => exact ih t

theorem along_cons {m : Machine σ α} {ok : σ → α → Prop} {s t : σ} {a : α} {as : List α}
    (h : m.Along ok s (a :: as)) (hstep : m.step s a = some t) : ok s a ∧ m.Along ok t as := by
  simp only [Along, hstep] at h
  exact h

theorem along_cons_of {m : Machine σ α} {ok : σ → α → Prop} {s t : σ} {a : α} {as : List α}
    (ha : ok s a) (hstep : m.step s a = some t) (has : m.Along ok t as) :
    m.Along ok s (a :: as) := by
  simp only [Along, hstep]
  exact ⟨ha, has⟩

theorem along_append {m : Machine σ α} {ok : σ → α → Prop} {s t : σ} {as bs : List α}
    (has : m.Along ok s as) (hrun : m.runFrom s as = some t) (hbs : m.Along ok t bs) :
    m.Along ok s (as ++ bs) := by
  induction as generalizing s with
  | nil =>
      rw [runFrom_nil, Option.some.injEq] at hrun
      exact hrun ▸ hbs
  | cons a as ih =>
      obtain ⟨u, hstep, hrest⟩ := runFrom_cons_some.mp hrun
      obtain ⟨ha, has⟩ := along_cons has hstep
      exact along_cons_of ha hstep (ih has hrest)

theorem along_of_append {m : Machine σ α} {ok : σ → α → Prop} {s t : σ} {as bs : List α}
    (h : m.Along ok s (as ++ bs)) (hrun : m.runFrom s as = some t) : m.Along ok t bs := by
  induction as generalizing s with
  | nil =>
      rw [runFrom_nil, Option.some.injEq] at hrun
      exact hrun ▸ h
  | cons a as ih =>
      obtain ⟨u, hstep, hrest⟩ := runFrom_cons_some.mp hrun
      exact ih (along_cons h hstep).2 hrest

theorem along_true (m : Machine σ α) (s : σ) (as : List α) :
    m.Along (fun _ _ ↦ True) s as := by
  induction as generalizing s with
  | nil => trivial
  | cons a as ih =>
      refine ⟨trivial, ?_⟩
      cases m.step s a with
      | none => trivial
      | some t => exact ih t

/-- The invariant rule: what one step under `ok` preserves, every run whose steps are all
under `ok` preserves. -/
theorem runFrom_invariant {m : Machine σ α} {ok : σ → α → Prop} {inv : σ → Prop}
    (hstep : ∀ s a t, inv s → ok s a → m.step s a = some t → inv t)
    {s s' : σ} {as : List α} (hs : inv s) (hok : m.Along ok s as)
    (hrun : m.runFrom s as = some s') : inv s' := by
  induction as generalizing s with
  | nil =>
      rw [runFrom_nil, Option.some.injEq] at hrun
      exact hrun ▸ hs
  | cons a as ih =>
      obtain ⟨t, hst, hrest⟩ := runFrom_cons_some.mp hrun
      obtain ⟨ha, has⟩ := along_cons hok hst
      exact ih (hstep s a t hs ha hst) has hrest

theorem run_invariant {m : Machine σ α} {ok : σ → α → Prop} {inv : σ → Prop}
    (hinit : inv m.init) (hstep : ∀ s a t, inv s → ok s a → m.step s a = some t → inv t)
    {s : σ} {as : List α} (hok : m.Along ok m.init as) (hrun : m.run as = some s) : inv s :=
  runFrom_invariant hstep hinit hok hrun

/-- Where a step outside `ok` shows in the state behind it, the runs under `ok` are those that
pass through good states only. -/
theorem along_iff {m : Machine σ α} {ok : σ → α → Prop} {inv good : σ → Prop}
    (hgood : ∀ s, inv s → good s)
    (hstep : ∀ s a t, inv s → ok s a → m.step s a = some t → inv t)
    (hbad : ∀ s a, inv s → ¬ok s a → ∃ t, m.step s a = some t ∧ ¬good t)
    {s : σ} (hs : inv s) (as : List α) :
    m.Along ok s as ↔ ∀ n t, m.runFrom s (as.take n) = some t → good t := by
  induction as generalizing s with
  | nil =>
      refine ⟨fun _ n t hrun ↦ ?_, fun _ ↦ trivial⟩
      rw [List.take_nil, runFrom_nil, Option.some.injEq] at hrun
      exact hrun ▸ hgood s hs
  | cons a as ih =>
      constructor
      · intro hok n t hrun
        cases n with
        | zero =>
            rw [List.take_zero, runFrom_nil, Option.some.injEq] at hrun
            exact hrun ▸ hgood s hs
        | succ n =>
            rw [List.take_succ_cons] at hrun
            obtain ⟨u, hst, hrest⟩ := runFrom_cons_some.mp hrun
            obtain ⟨ha, has⟩ := along_cons hok hst
            exact (ih (hstep s a u hs ha hst)).mp has n t hrest
      · intro hall
        have ha : ok s a := by
          by_contra hno
          obtain ⟨t, hst, hnot⟩ := hbad s a hs hno
          have hrun : m.runFrom s ((a :: as).take 1) = some t := by
            rw [List.take_succ_cons, List.take_zero]
            exact runFrom_cons_some.mpr ⟨t, hst, rfl⟩
          exact hnot (hall 1 t hrun)
        refine ⟨ha, ?_⟩
        cases hst : m.step s a with
        | none => trivial
        | some t =>
            apply (ih (hstep s a t hs ha hst)).mpr
            intro n u hrun
            have hrun' : m.runFrom s ((a :: as).take (n + 1)) = some u := by
              rw [List.take_succ_cons]
              exact runFrom_cons_some.mpr ⟨t, hst, hrun⟩
            exact hall (n + 1) u hrun'

/-- A machine that is never stuck where the predicate holds runs to the end of every list of
labels, and the predicate holds there. -/
theorem runFrom_total {m : Machine σ α} {inv : σ → Prop}
    (hstep : ∀ s a, inv s → ∃ t, m.step s a = some t ∧ inv t) {s : σ} (hs : inv s)
    (as : List α) : ∃ s', m.runFrom s as = some s' ∧ inv s' := by
  induction as generalizing s with
  | nil => exact ⟨s, rfl, hs⟩
  | cons a as ih =>
      obtain ⟨t, hst, ht⟩ := hstep s a hs
      obtain ⟨s', hrun, hs'⟩ := ih ht
      exact ⟨s', runFrom_cons_some.mpr ⟨t, hst, hrun⟩, hs'⟩

/-- The invariant rule for a machine all of whose steps preserve the predicate. -/
theorem reachable_invariant {m : Machine σ α} {inv : σ → Prop}
    (hinit : inv m.init) (hstep : ∀ s a t, inv s → m.step s a = some t → inv t)
    {s : σ} (hs : m.Reachable s) : inv s := by
  obtain ⟨as, hrun⟩ := hs
  exact run_invariant hinit (fun s a t hi _ h ↦ hstep s a t hi h) (along_true m _ as) hrun

end Machine

end Lib
