import Mathlib.Data.List.Basic

/-!
# Escape codes

Some symbols must not be sent as they are.  Each of them is sent as a mark and a symbol that stands
for it, all others as they are.
-/

namespace Lib

variable {α : Type*}

/-- A code whose mark is itself escaped, and whose change of a symbol undoes itself. -/
structure EscapeCode (α : Type*) where
  mark : α
  escaped : α → Bool
  change : α → α
  escaped_mark : escaped mark = true
  change_change : ∀ x, change (change x) = x

namespace EscapeCode

variable (c : EscapeCode α)

def symbol (x : α) : List α := if c.escaped x then [c.mark, c.change x] else [x]

def encode (xs : List α) : List α := xs.flatMap c.symbol

def decode [DecidableEq α] : List α → List α
  | [] => []
  | x :: xs =>
      if x = c.mark then
        match xs with
        | [] => []
        | y :: ys => c.change y :: decode ys
      else x :: decode xs

@[simp] theorem encode_nil : c.encode [] = [] := rfl

theorem encode_cons (x : α) (xs : List α) : c.encode (x :: xs) = c.symbol x ++ c.encode xs :=
  List.flatMap_cons

theorem encode_append (xs ys : List α) : c.encode (xs ++ ys) = c.encode xs ++ c.encode ys :=
  List.flatMap_append

theorem length_symbol_le (x : α) : (c.symbol x).length ≤ 2 := by
  unfold symbol
  split
  · exact Nat.le_refl 2
  · exact Nat.le_succ 1

/-- At worst the code doubles what is sent. -/
theorem length_encode_le (xs : List α) : (c.encode xs).length ≤ 2 * xs.length := by
  induction xs with
  | nil => exact Nat.le_refl 0
  | cons x xs ih =>
      have hx := c.length_symbol_le x
      rw [encode_cons, List.length_append, List.length_cons]
      omega

variable [DecidableEq α]

theorem decode_mark (y : α) (ys : List α) :
    c.decode (c.mark :: y :: ys) = c.change y :: c.decode ys := by
  rw [decode, if_pos rfl]

theorem decode_cons {x : α} (hx : x ≠ c.mark) (xs : List α) :
    c.decode (x :: xs) = x :: c.decode xs := by
  cases xs with
  | nil => simp only [decode, if_neg hx]
  | cons y ys => rw [decode, if_neg hx]

theorem decode_symbol (x : α) (xs : List α) : c.decode (c.symbol x ++ xs) = x :: c.decode xs := by
  unfold symbol
  by_cases hx : c.escaped x = true
  · rw [if_pos hx]
    show c.decode (c.mark :: c.change x :: xs) = x :: c.decode xs
    rw [decode_mark, change_change]
  · have hmark : x ≠ c.mark := by
      intro h
      rw [h, escaped_mark] at hx
      exact hx rfl
    rw [if_neg hx]
    exact c.decode_cons hmark xs

/-- Undoing the escapes gives back what was sent, and goes on behind it. -/
theorem decode_encode_append (xs ys : List α) :
    c.decode (c.encode xs ++ ys) = xs ++ c.decode ys := by
  induction xs with
  | nil => rfl
  | cons x xs ih => rw [encode_cons, List.append_assoc, decode_symbol, ih, List.cons_append]

theorem decode_encode (xs : List α) : c.decode (c.encode xs) = xs := by
  have h := c.decode_encode_append xs []
  rw [List.append_nil] at h
  rw [h]
  exact List.append_nil xs

end EscapeCode

end Lib
