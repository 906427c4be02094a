import Mathlib.Data.List.Basic

/-!
# Lists whose equal elements stand together

`Contiguous l` says that between two equal elements of `l` there is no other one.  A list of
owners is contiguous when each owner wrote in one go.
-/

namespace Lib

variable {α : Type*}

def Contiguous (l : List α) : Prop :=
  ∀ pre x mid post, l = pre ++ x :: (mid ++ x :: post) → ∀ y ∈ mid, y = x

namespace Contiguous

variable {l : List α} {x : α}

theorem nil : Contiguous ([] : List α) := by
  intro pre x mid post h
  simp at h

/-- A split of a longer list either splits the shorter one or ends in the new element. -/
theorem split_snoc {pre mid post : List α} {y z : α}
    (h : l ++ [x] = pre ++ y :: (mid ++ z :: post)) :
    (∃ post', post = post' ++ [x] ∧ l = pre ++ y :: (mid ++ z :: post')) ∨
      (post = [] ∧ z = x ∧ l = pre ++ y :: mid) := by
  rcases List.eq_nil_or_concat' post with rfl | ⟨post', w, rfl⟩
  · right
    have hl : l ++ [x] = (pre ++ y :: mid) ++ [z] := by simpa using h
    obtain ⟨hl', hz⟩ := List.append_inj' hl rfl
    exact ⟨rfl, (by simpa using hz.symm), hl'⟩
  · left
    have hl : l ++ [x] = (pre ++ y :: (mid ++ z :: post')) ++ [w] := by simpa using h
    obtain ⟨hl', hw⟩ := List.append_inj' hl rfl
    obtain rfl : x = w := by simpa using hw
    exact ⟨post', rfl, hl'⟩

theorem snoc_fresh (h : Contiguous l) (hx : x ∉ l) : Contiguous (l ++ [x]) := by
  intro pre y mid post heq
  rcases split_snoc heq with ⟨post', -, hl⟩ | ⟨-, rfl, hl⟩
  · exact h pre y mid post' hl
  · exact absurd (by rw [hl]; simp) hx

/-- The last element may be repeated. -/
theorem snoc_last (h : Contiguous l) (hx : l.getLast? = some x) : Contiguous (l ++ [x]) := by
  intro pre y mid post heq
  rcases split_snoc heq with ⟨post', -, hl⟩ | ⟨-, rfl, hl⟩
  · exact h pre y mid post' hl
  · -- the old list ends in `y` and starts its last part with `y`
    rcases List.eq_nil_or_concat' mid with rfl | ⟨mid', w, rfl⟩
    · simp
    · have hw : w = y := by
        have hlast : (pre ++ y :: (mid' ++ [w])) = (pre ++ y :: mid') ++ [w] := by simp
        rw [hl, hlast, List.getLast?_concat] at hx
        exact Option.some.inj hx
      subst hw
      have hmid : ∀ z ∈ mid', z = w := h pre w mid' [] (by simpa using hl)
      intro z hz
      rcases List.mem_append.mp hz with hz | hz
      · exact hmid z hz
      · exact List.mem_singleton.mp hz

/-- An element that comes again is the last one so far. -/
theorem getLast?_of_mem {m : List α} (h : Contiguous (l ++ x :: m)) (hx : x ∈ l) :
    l.getLast? = some x := by
  obtain ⟨pre, mid, rfl⟩ := List.append_of_mem hx
  have hmid := h pre x mid m (by simp)
  rw [List.getLast?_append, List.getLast?_cons]
  rcases List.eq_nil_or_concat' mid with rfl | ⟨mid', y, rfl⟩
  · rfl
  · rw [List.getLast?_concat, hmid y (by simp)]
    rfl

/-- Other names for the elements change nothing. -/
theorem map_iff {β : Type*} {f : α → β} (hf : ∀ x ∈ l, ∀ y ∈ l, f x = f y → x = y) :
    Contiguous (l.map f) ↔ Contiguous l := by
  constructor
  · rintro h pre x mid post rfl y hy
    have heq := h (pre.map f) (f x) (mid.map f) (post.map f) (by simp) (f y)
      (List.mem_map_of_mem hy)
    exact hf y (by simp [hy]) x (by simp) heq
  · intro h pre x mid post heq y hy
    obtain ⟨pre', rest, rfl, rfl, hrest⟩ := List.map_eq_append_iff.mp heq
    obtain ⟨x', rest', rfl, rfl, hrest'⟩ := List.map_eq_cons_iff.mp hrest
    obtain ⟨mid', rest'', rfl, rfl, hend⟩ := List.map_eq_append_iff.mp hrest'
    obtain ⟨z, post', rfl, hz, rfl⟩ := List.map_eq_cons_iff.mp hend
    obtain rfl := hf z (by simp) x' (by simp) hz
    obtain ⟨y', hy', rfl⟩ := List.mem_map.mp hy
    rw [h pre' z mid' post' rfl y' hy']

end Contiguous

end Lib
