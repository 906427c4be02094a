import Mathlib.Data.List.Nodup

/-!
# Linked lists through a next function

`Linked next nil h xs` says that following `next` from `h` visits exactly `xs` and then stops at
`nil`.  The nodes are of any type, so the same lemmas serve lists threaded through an array of
indices and lists of pointers.
-/

namespace Lib

variable {ι : Type*}

def Linked (next : ι → ι) (nil : ι) : ι → List ι → Prop
  | h, [] => h = nil
  | h, x :: xs => h = x ∧ x ≠ nil ∧ Linked next nil (next x) xs

namespace Linked

variable {next next' : ι → ι} {nil h x y z : ι} {xs ys : List ι}

@[simp] theorem nil_iff : Linked next nil h [] ↔ h = nil := Iff.rfl

@[simp] theorem cons_iff :
    Linked next nil h (x :: xs) ↔ h = x ∧ x ≠ nil ∧ Linked next nil (next x) xs := Iff.rfl

theorem ne_nil (hl : Linked next nil h xs) (hx : x ∈ xs) : x ≠ nil := by
  induction xs generalizing h with
  | nil => cases hx
  | cons a as ih =>
      rcases List.mem_cons.mp hx with rfl | hx
      · exact hl.2.1
      · exact ih hl.2.2 hx

theorem eq_nil_iff (hl : Linked next nil h xs) : xs = [] ↔ h = nil := by
  cases xs with
  | nil => exact iff_of_true rfl hl
  | cons a as => exact iff_of_false (List.cons_ne_nil _ _) (fun hh ↦ hl.2.1 (hl.1 ▸ hh))

/-- The head and the links determine the list. -/
theorem unique (hx : Linked next nil h xs) (hy : Linked next nil h ys) : xs = ys := by
  induction xs generalizing h ys with
  | nil => exact (hy.eq_nil_iff.mpr hx).symm
  | cons a as ih =>
      cases ys with
      | nil => exact absurd (hx.1.symm.trans hy) hx.2.1
      | cons b bs =>
          obtain rfl : a = b := hx.1.symm.trans hy.1
          rw [ih hx.2.2 hy.2.2]

theorem drop_of_append (hl : Linked next nil h (xs ++ y :: ys)) :
    Linked next nil (next y) ys := by
  induction xs generalizing h with
  | nil => exact hl.2.2
  | cons a as ih => exact ih hl.2.2

/-- A list of links that ends is acyclic. -/
theorem nodup (hl : Linked next nil h xs) : xs.Nodup := by
  induction xs generalizing h with
  | nil => exact List.nodup_nil
  | cons a as ih =>
      refine List.nodup_cons.mpr ⟨fun ha ↦ ?_, ih hl.2.2⟩
      obtain ⟨us, vs, rfl⟩ := List.append_of_mem ha
      have hv : Linked next nil (next a) vs := drop_of_append hl.2.2
      have hlen := congrArg List.length (hl.2.2.unique hv)
      simp only [List.length_append, List.length_cons] at hlen
      omega

/-- Links outside the list may change. -/
theorem congr (hl : Linked next nil h xs) (hn : ∀ x ∈ xs, next' x = next x) :
    Linked next' nil h xs := by
  induction xs generalizing h with
  | nil => exact hl
  | cons a as ih =>
      refine ⟨hl.1, hl.2.1, ?_⟩
      rw [hn a List.mem_cons_self]
      exact ih hl.2.2 (fun x hx ↦ hn x (List.mem_cons_of_mem a hx))

/-- Pushing a node in front: it links to the old head. -/
theorem push (hl : Linked next nil h xs) (hz : z ≠ nil) (hnz : next' z = h)
    (hn : ∀ x ∈ xs, next' x = next x) : Linked next' nil z (z :: xs) :=
  ⟨rfl, hz, hnz ▸ hl.congr hn⟩

/-- Appending a node behind the last one: the last one links to it and it links to the end. -/
theorem snoc (hl : Linked next nil h xs) (hlast : xs.getLast? = some y) (hz : z ≠ nil)
    (hy : next' y = z) (hnz : next' z = nil) (hn : ∀ x ∈ xs, x ≠ y → next' x = next x) :
    Linked next' nil h (xs ++ [z]) := by
  induction xs generalizing h with
  | nil => simp at hlast
  | cons a as ih =>
      refine ⟨hl.1, hl.2.1, ?_⟩
      cases as with
      | nil =>
          obtain rfl : a = y := by simpa using hlast
          simpa [hy, hnz] using hz
      | cons b bs =>
          have hlast' : (b :: bs).getLast? = some y := by simpa using hlast
          have hne : a ≠ y := by
            rintro rfl
            exact (List.nodup_cons.mp hl.nodup).1 (List.mem_of_getLast? hlast')
          rw [hn a List.mem_cons_self hne]
          exact ih hl.2.2 hlast' (fun x hx ↦ hn x (List.mem_cons_of_mem a hx))

/-- The head is taken off: the list goes on at its link. -/
theorem tail (hl : Linked next nil h (x :: xs)) : Linked next nil (next x) xs := hl.2.2

/-- Cutting out the node behind `y`. -/
theorem splice {l₁ l₂ : List ι} (hl : Linked next nil h (l₁ ++ y :: x :: l₂))
    (hy : next' y = next x) (hn : ∀ z, z ≠ y → next' z = next z) :
    Linked next' nil h (l₁ ++ y :: l₂) := by
  induction l₁ generalizing h with
  | nil =>
      have hnodup := List.nodup_cons.mp hl.nodup
      obtain ⟨rfl, hnil, -, -, hl₂⟩ := hl
      refine ⟨rfl, hnil, hy ▸ hl₂.congr fun z hz ↦ hn z ?_⟩
      rintro rfl
      exact hnodup.1 (List.mem_cons_of_mem _ hz)
  | cons a as ih =>
      have ha : a ≠ y := by
        rintro rfl
        exact (List.nodup_cons.mp hl.nodup).1 (by simp)
      refine ⟨hl.1, hl.2.1, ?_⟩
      rw [hn a ha]
      exact ih hl.2.2

/-- The node behind a node of the list is what it links to. -/
theorem next_of_infix (hl : Linked next nil h xs) (hi : [y, x] <:+: xs) : next y = x := by
  obtain ⟨l₁, l₂, rfl⟩ := hi
  rw [List.append_assoc] at hl
  exact hl.drop_of_append.1

/-- A node that links to a node stands in front of it. -/
theorem infix_of_next (hl : Linked next nil h xs) (hy : y ∈ xs) (hn : next y ≠ nil) :
    [y, next y] <:+: xs := by
  obtain ⟨l₁, l₂, rfl⟩ := List.append_of_mem hy
  have hl₂ := hl.drop_of_append
  cases l₂ with
  | nil => exact absurd hl₂ hn
  | cons a as =>
      obtain rfl : next y = a := hl₂.1
      exact ⟨l₁, as, by simp⟩

/-- The last node links to the end. -/
theorem next_last (hl : Linked next nil h xs) (hlast : xs.getLast? = some y) : next y = nil := by
  obtain ⟨l₁, rfl⟩ := List.getLast?_eq_some_iff.mp hlast
  exact hl.drop_of_append

end Linked

/-- Following the links for at most `fuel` nodes. -/
def walk [DecidableEq ι] (next : ι → ι) (nil : ι) : Nat → ι → List ι
  | 0, _ => []
  | fuel + 1, h => if h = nil then [] else h :: walk next nil fuel (next h)

theorem Linked.walk_eq [DecidableEq ι] {next : ι → ι} {nil h : ι} {xs : List ι}
    (hl : Linked next nil h xs) {fuel : Nat} (hf : xs.length ≤ fuel) :
    walk next nil fuel h = xs := by
  induction xs generalizing h fuel with
  | nil =>
      cases fuel with
      | zero => rfl
      | succ fuel => exact if_pos hl
  | cons a as ih =>
      cases fuel with
      | zero => simp at hf
      | succ fuel =>
          obtain ⟨rfl, hnil, htail⟩ := hl
          rw [walk, if_neg hnil, ih htail (by simpa using hf)]

/-! ## Searching with the node in front -/

/-- The walk that looks for a node with `p` and keeps the node in front of it, `nil` for the
head. -/
def search [DecidableEq ι] (next : ι → ι) (nil : ι) (p : ι → Bool) : Nat → ι → ι → Option (ι × ι)
  | 0, _, _ => none
  | fuel + 1, pre, cur =>
      if cur = nil then none
      else if p cur then some (pre, cur)
      else search next nil p fuel cur (next cur)

namespace Linked

variable [DecidableEq ι] {next : ι → ι} {nil h pre c : ι} {xs l₁ l₂ : List ι} {p : ι → Bool}
  {fuel : Nat}

theorem search_eq_some (hl : Linked next nil h (l₁ ++ c :: l₂)) (hp : ∀ x ∈ l₁, p x = false)
    (hc : p c = true) (hfuel : l₁.length < fuel) :
    search next nil p fuel pre h = some ((pre :: l₁).getLast (List.cons_ne_nil _ _), c) := by
  induction l₁ generalizing pre h fuel with
  | nil =>
      obtain ⟨n, rfl⟩ := Nat.exists_eq_succ_of_ne_zero (Nat.ne_of_gt hfuel)
      obtain ⟨rfl, hnil, -⟩ := hl
      rw [search, if_neg hnil, if_pos hc]
      rfl
  | cons x l₁ ih =>
      obtain ⟨n, rfl⟩ := Nat.exists_eq_succ_of_ne_zero (Nat.ne_of_gt (Nat.zero_lt_of_lt hfuel))
      obtain ⟨rfl, hnil, htail⟩ := hl
      rw [search, if_neg hnil, if_neg (by simp [hp h List.mem_cons_self])]
      exact ih htail (fun y hy ↦ hp y (List.mem_cons_of_mem h hy)) (Nat.lt_of_succ_lt_succ hfuel)

end Linked

end Lib
