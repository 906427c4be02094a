import Mathlib.Algebra.BigOperators.Group.List.Basic
import Mathlib.Algebra.Order.Ring.Int

/-!
# The depth of a lock

A lock that counts: what one thread does to it, in order, with the places where the thread must
not hold it.
-/

namespace Lib

inductive LockOp
  | lock
  | unlock
  -- a place where nothing may be locked
  | rest
deriving DecidableEq

def LockOp.delta : LockOp → Int
  | .lock => 1
  | .unlock => -1
  | .rest => 0

def depth (ops : List LockOp) : Int := (ops.map LockOp.delta).sum

/-- From the depth `d` every unlock has its lock, and nothing is locked at a rest. -/
def BalancedFrom : Int → List LockOp → Prop
  | _, [] => True
  | d, .lock :: ops => BalancedFrom (d + 1) ops
  | d, .unlock :: ops => 0 < d ∧ BalancedFrom (d - 1) ops
  | d, .rest :: ops => d = 0 ∧ BalancedFrom d ops

def Balanced (ops : List LockOp) : Prop := BalancedFrom 0 ops

instance decidableBalancedFrom : ∀ (ops : List LockOp) (d : Int), Decidable (BalancedFrom d ops)
  | [], _ => isTrue trivial
  | .lock :: ops, d => decidableBalancedFrom ops (d + 1)
  | .unlock :: ops, d =>
      have := decidableBalancedFrom ops (d - 1)
      inferInstanceAs (Decidable (_ ∧ _))
  | .rest :: ops, d =>
      have := decidableBalancedFrom ops d
      inferInstanceAs (Decidable (_ ∧ _))

instance (ops : List LockOp) : Decidable (Balanced ops) := decidableBalancedFrom ops 0

variable {ops ops' : List LockOp} {d : Int}

@[simp] theorem depth_nil : depth [] = 0 := rfl

@[simp] theorem depth_append (ops ops' : List LockOp) :
    depth (ops ++ ops') = depth ops + depth ops' := by
  unfold depth
  rw [List.map_append, List.sum_append]

@[simp] theorem depth_cons (op : LockOp) (ops : List LockOp) :
    depth (op :: ops) = op.delta + depth ops := by
  unfold depth
  rw [List.map_cons, List.sum_cons]

theorem balancedFrom_append :
    BalancedFrom d (ops ++ ops') ↔ BalancedFrom d ops ∧ BalancedFrom (d + depth ops) ops' := by
  induction ops generalizing d with
  | nil =>
      rw [List.nil_append, depth_nil, Int.add_zero]
      exact ⟨fun h ↦ ⟨trivial, h⟩, fun h ↦ h.2⟩
  | cons op ops ih =>
      rw [List.cons_append, depth_cons]
      cases op with
      | lock =>
          rw [BalancedFrom, BalancedFrom, ih, LockOp.delta, Int.add_assoc]
      | unlock =>
          rw [BalancedFrom, BalancedFrom, ih, LockOp.delta, and_assoc, ← Int.add_assoc]
          rfl
      | rest =>
          rw [BalancedFrom, BalancedFrom, ih, LockOp.delta, and_assoc, Int.zero_add]

theorem balanced_append :
    Balanced (ops ++ ops') ↔ Balanced ops ∧ BalancedFrom (depth ops) ops' := by
  unfold Balanced
  rw [balancedFrom_append, Int.zero_add]

end Lib
