import Mathlib.Init

/-!
# Programs with a state and an error exit

A program that leaves early leaves the state as it is there.  `Keeps` says what holds of the state
wherever the program leaves, and of its value when it comes to its end.
-/

namespace Lib

variable {ε σ α β : Type} {P : σ → Prop} {Q : α → Prop} {R : β → Prop} {m : EStateM ε σ α}
  {f : α → EStateM ε σ β} {s s' : σ} {a : α} {e : ε}

/-- The state that the program leaves, by its end or by an error. -/
def exitState (m : EStateM ε σ α) (s : σ) : σ :=
  match m s with
  | .ok _ s' => s'
  | .error _ s' => s'

theorem exitState_ok (h : m s = .ok a s') : exitState m s = s' := by
  rw [exitState, h]

theorem exitState_error (h : m s = .error e s') : exitState m s = s' := by
  rw [exitState, h]

theorem bind_ok (h : m s = .ok a s') : (m >>= f) s = f a s' := by
  show EStateM.bind m f s = f a s'
  rw [EStateM.bind, h]

theorem bind_error (h : m s = .error e s') : (m >>= f) s = .error e s' := by
  show EStateM.bind m f s = .error e s'
  rw [EStateM.bind, h]

theorem exitState_bind_ok (h : m s = .ok a s') : exitState (m >>= f) s = exitState (f a) s' := by
  rw [exitState, exitState, bind_ok h]

theorem exitState_bind_error (h : m s = .error e s') : exitState (m >>= f) s = s' :=
  exitState_error (bind_error h)

/-- The program keeps `P`, and its value is one of `Q`. -/
def Keeps (P : σ → Prop) (m : EStateM ε σ α) (Q : α → Prop) : Prop :=
  ∀ s, P s → P (exitState m s) ∧ ∀ a s', m s = .ok a s' → Q a

namespace Keeps

theorem of_ok (hok : ∀ s, P s → ∃ a s', m s = .ok a s' ∧ P s' ∧ Q a) : Keeps P m Q := by
  intro s hs
  obtain ⟨a, s', hm, hs', ha⟩ := hok s hs
  constructor
  · rw [exitState_ok hm]
    exact hs'
  · intro b t hb
    rw [hm] at hb
    cases hb
    exact ha

theorem pure (ha : Q a) : Keeps P (Pure.pure a : EStateM ε σ α) Q :=
  of_ok fun s hs ↦ ⟨a, s, rfl, hs, ha⟩

theorem throw : Keeps P (throw e : EStateM ε σ α) Q :=
  fun _ hs ↦ ⟨hs, fun _ _ h ↦ nomatch h⟩

theorem modify {g : σ → σ} (hg : ∀ s, P s → P (g s)) :
    Keeps P (modify g : EStateM ε σ PUnit) (fun _ ↦ True) :=
  of_ok fun s hs ↦ ⟨⟨⟩, g s, rfl, hg s hs, trivial⟩

theorem bind (hm : Keeps P m Q) (hf : ∀ a, Q a → Keeps P (f a) R) : Keeps P (m >>= f) R := by
  intro s hs
  obtain ⟨hexit, hvalue⟩ := hm s hs
  cases h : m s with
  | ok a s' =>
      rw [exitState_ok h] at hexit
      rw [exitState_bind_ok h, bind_ok h]
      exact hf a (hvalue a s' h) s' hexit
  | error e s' =>
      rw [exitState_error h] at hexit
      rw [exitState_bind_error h, bind_error h]
      exact ⟨hexit, fun _ _ h ↦ nomatch h⟩

theorem ite {c : Prop} [Decidable c] {m' : EStateM ε σ α} (h : c → Keeps P m Q)
    (h' : ¬ c → Keeps P m' Q) : Keeps P (if c then m else m') Q := by
  split
  · exact h ‹_›
  · exact h' ‹_›

end Keeps

end Lib
