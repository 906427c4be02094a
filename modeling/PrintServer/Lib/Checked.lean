import Mathlib.Data.List.Basic

/-!
# Computations that may fault

A checked computation throws where the program that it models would go wrong.  `Sound` says that it
does not, and is decided piece by piece: a sequence is sound if its first part is and what follows
is for the value of that part.  A loop that takes its items in order until a turn leaves it is sound
if the turns and the end are, each behind the items that were taken before it.
-/

namespace Lib

universe u v

variable {ε : Type u} {α β σ : Type v}

/-- The computation comes to its end. -/
def Sound (x : Except ε α) : Prop := ∃ a, x = .ok a

namespace Sound

theorem ok (a : α) : Sound (.ok a : Except ε α) := ⟨a, rfl⟩

theorem of_pure (a : α) : Sound (pure a : Except ε α) := ⟨a, rfl⟩

@[simp] theorem pure_iff (a : α) : Sound (pure a : Except ε α) ↔ True := iff_true_intro ⟨a, rfl⟩

@[simp] theorem ok_iff (a : α) : Sound (.ok a : Except ε α) ↔ True := iff_true_intro ⟨a, rfl⟩

@[simp] theorem throw_iff (e : ε) : Sound (throw e : Except ε α) ↔ False := by
  apply iff_false_intro
  intro h
  obtain ⟨a, h⟩ := h
  exact nomatch h

/-- The second part counts only where the first one has a value. -/
theorem bind_iff (x : Except ε α) (f : α → Except ε β) :
    Sound (x >>= f) ↔ Sound x ∧ ∀ a, x = .ok a → Sound (f a) := by
  cases x with
  | error e =>
    apply iff_of_false
    · exact (throw_iff e).mp
    · intro h
      exact (throw_iff e).mp h.1
  | ok a =>
    constructor
    · intro h
      refine ⟨ok a, fun b hb ↦ ?_⟩
      cases hb
      exact h
    · intro h
      exact h.2 a rfl

/-- A value that is only passed on. -/
theorem map_iff (x : Except ε α) (f : α → β) : Sound (f <$> x) ↔ Sound x := by
  cases x with
  | error e => exact iff_of_false (throw_iff e).mp (throw_iff e).mp
  | ok a => exact iff_of_true (ok (f a)) (ok a)

/-- A second part that is sound whatever it is given. -/
theorem bind_iff_left (x : Except ε α) {f : α → Except ε β} (hf : ∀ a, Sound (f a)) :
    Sound (x >>= f) ↔ Sound x := by
  rw [bind_iff]
  exact and_iff_left fun a _ ↦ hf a

theorem ite_iff (c : Prop) [Decidable c] (x y : Except ε α) :
    Sound (if c then x else y) ↔ (c → Sound x) ∧ (¬c → Sound y) := by
  split
  · rename_i hc
    exact ⟨fun h ↦ ⟨fun _ ↦ h, fun hn ↦ absurd hc hn⟩, fun h ↦ h.1 hc⟩
  · rename_i hc
    exact ⟨fun h ↦ ⟨fun hp ↦ absurd hp hc, fun _ ↦ h⟩, fun h ↦ h.2 hc⟩

end Sound

/-! ## Loops -/

/-- What a turn of a loop leaves behind. -/
inductive Turn (σ β : Type v)
  | next (s : σ)
  | leave (b : β)

variable (turn : σ → α → Except ε (Turn σ β)) (finish : σ → Except ε β)

/-- The items one after the other, until a turn leaves the loop or they are all taken. -/
def turns : σ → List α → Except ε β
  | s, [] => finish s
  | s, a :: as => do
      match ← turn s a with
      | .next s => turns s as
      | .leave b => return b

/-- Each item that is looked at meets `ok` behind the items in front of it, and the end `okEnd`. -/
def TurnsMeet (ok : List α → α → Prop) (okEnd : List α → Prop) : List α → σ → List α → Prop
  | front, _, [] => okEnd front
  | front, s, a :: as =>
      ok front a ∧ ∀ t, turn s a = .ok (.next t) → TurnsMeet ok okEnd (front ++ [a]) t as

variable {turn finish} {ok : List α → α → Prop} {okEnd : List α → Prop}

/-- The loop is sound where its turns and its end are; `r` says what the state keeps of the items
that were taken. -/
theorem sound_turns_iff {r : List α → σ → Prop}
    (hturn : ∀ front s a, r front s → (Sound (turn s a) ↔ ok front a))
    (hnext : ∀ front s a t, r front s → turn s a = .ok (.next t) → r (front ++ [a]) t)
    (hfinish : ∀ front s, r front s → (Sound (finish s) ↔ okEnd front)) {front : List α} {s : σ}
    (hs : r front s) (as : List α) :
    Sound (turns turn finish s as) ↔ TurnsMeet turn ok okEnd front s as := by
  induction as generalizing front s with
  | nil => exact hfinish front s hs
  | cons a as ih =>
    rw [turns, Sound.bind_iff, hturn front s a hs, TurnsMeet]
    apply and_congr_right
    intro _
    constructor
    · intro h t ht
      exact (ih (hnext front s a t hs ht)).mp (h _ ht)
    · intro h after hr
      cases after with
      | next t => exact (ih (hnext front s a t hs hr)).mpr (h t hr)
      | leave b => exact Sound.ok b

/-- What a turn leaves behind is good. -/
def Turn.Meets (inv : σ → Prop) (post : β → Prop) : Turn σ β → Prop
  | .next s => inv s
  | .leave b => post b

/-- What every turn keeps up and the ways out establish holds behind the loop. -/
theorem turns_post {inv : σ → Prop} {post : β → Prop}
    (hturn : ∀ s a r, inv s → turn s a = .ok r → r.Meets inv post)
    (hfinish : ∀ s b, inv s → finish s = .ok b → post b) {s : σ} {as : List α} {b : β}
    (hs : inv s) (h : turns turn finish s as = .ok b) : post b := by
  induction as generalizing s with
  | nil => exact hfinish s b hs h
  | cons a as ih =>
    rw [turns] at h
    cases hr : turn s a with
    | error e =>
      rw [hr] at h
      exact nomatch h
    | ok r =>
      rw [hr] at h
      have hmeets := hturn s a r hs hr
      cases r with
      | next t => exact ih hmeets h
      | leave b' =>
        cases h
        exact hmeets

theorem map_eq_ok {x : Except ε α} {f : α → β} {b : β} (h : f <$> x = .ok b) :
    ∃ a, x = .ok a ∧ f a = b := by
  cases x with
  | error e => exact nomatch h
  | ok a => exact ⟨a, rfl, Except.ok.inj h⟩

theorem bind_eq_ok {x : Except ε α} {f : α → Except ε β} {b : β} (h : x >>= f = .ok b) :
    ∃ a, x = .ok a ∧ f a = .ok b := by
  cases x with
  | error e => exact nomatch h
  | ok a => exact ⟨a, rfl, h⟩

end Lib
