import Mathlib.Data.List.Basic

/-!
# Ciphers of rounds, and the chaining of their blocks

A cipher is a sequence of rounds, each of which can be undone.  Blocks are chained when each is
mixed with the code of the one before it, so that equal blocks have different codes.
-/

namespace Lib

variable {α β σ : Type*}

/-- What rounds did is undone from the last one to the first. -/
theorem foldr_undo_foldl {step undo : σ → α → σ} (hundo : ∀ s a, undo (step s a) a = s) (s : σ)
    (rounds : List α) : rounds.foldr (fun a s ↦ undo s a) (rounds.foldl step s) = s := by
  induction rounds generalizing s with
  | nil => rfl
  | cons a rounds ih =>
    simp only [List.foldl_cons, List.foldr_cons]
    rw [ih, hundo]

section Chain

variable (mix : β → β → β) (encode decode : β → β)

def chain : β → List β → List β
  | _, [] => []
  | prev, b :: bs => encode (mix prev b) :: chain (encode (mix prev b)) bs

def unchain : β → List β → List β
  | _, [] => []
  | prev, c :: cs => mix (decode c) prev :: unchain c cs

/-- The blocks are those that satisfy `P`: mixing and coding stay among them. -/
structure Chainable (P : β → Prop) : Prop where
  mixed {x y : β} : P x → P y → P (mix x y)
  encoded {x : β} : P x → P (encode x)
  unmixed {x y : β} : P x → P y → mix (mix x y) x = y
  decoded {x : β} : P x → decode (encode x) = x

variable {mix encode decode} {P : β → Prop} {prev : β} {bs : List β}

@[simp] theorem length_chain : (chain mix encode prev bs).length = bs.length := by
  induction bs generalizing prev with
  | nil => rfl
  | cons b bs ih => simp [chain, ih]

theorem Chainable.of_mem_chain (h : Chainable mix encode decode P) (hprev : P prev)
    (hbs : ∀ b ∈ bs, P b) : ∀ c ∈ chain mix encode prev bs, P c := by
  induction bs generalizing prev with
  | nil => intro c hc; cases hc
  | cons b bs ih =>
    have hcode : P (encode (mix prev b)) :=
      h.encoded (h.mixed hprev (hbs b List.mem_cons_self))
    intro c hc
    cases hc with
    | head => exact hcode
    | tail _ hc => exact ih hcode (fun b hb ↦ hbs b (List.mem_cons_of_mem _ hb)) c hc

theorem Chainable.unchain_chain (h : Chainable mix encode decode P) (hprev : P prev)
    (hbs : ∀ b ∈ bs, P b) : unchain mix decode prev (chain mix encode prev bs) = bs := by
  induction bs generalizing prev with
  | nil => rfl
  | cons b bs ih =>
    have hb : P b := hbs b List.mem_cons_self
    have hmixed : P (mix prev b) := h.mixed hprev hb
    have hrest : ∀ b ∈ bs, P b := fun b hb ↦ hbs b (List.mem_cons_of_mem _ hb)
    simp only [chain, unchain]
    rw [h.decoded hmixed, h.unmixed hprev hb, ih (h.encoded hmixed) hrest]

end Chain

end Lib
