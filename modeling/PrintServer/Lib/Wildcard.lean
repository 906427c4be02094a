import Mathlib.Data.List.Basic

/-!
# A wildcard between a beginning and an end

Texts are compared letter by letter through a `key`, such as the lower case of a letter.
-/

namespace Lib

variable {α β : Type*}

/-- The text is one like `beg`, then anything, then one like `fin`. -/
def Between (key : α → β) (beg fin text : List α) : Prop :=
  ∃ b mid e, text = b ++ mid ++ e ∧ b.map key = beg.map key ∧ e.map key = fin.map key

/-- The beginning and the end are found by their lengths, and do not overlap. -/
theorem between_iff (key : α → β) (beg fin text : List α) :
    Between key beg fin text ↔ beg.length + fin.length ≤ text.length ∧
      (text.take beg.length).map key = beg.map key ∧
      (text.drop (text.length - fin.length)).map key = fin.map key := by
  constructor
  · rintro ⟨b, mid, e, rfl, hb, he⟩
    have hblen : b.length = beg.length := by
      have hlen := congrArg List.length hb
      rwa [List.length_map, List.length_map] at hlen
    have helen : e.length = fin.length := by
      have hlen := congrArg List.length he
      rwa [List.length_map, List.length_map] at hlen
    have hdrop : (b ++ mid ++ e).length - fin.length = (b ++ mid).length := by
      rw [@List.length_append _ (b ++ mid)]
      omega
    refine ⟨?_, ?_, ?_⟩
    · simp only [List.length_append]
      omega
    · rw [← hblen, List.append_assoc, List.take_left]
      exact hb
    · rw [hdrop, List.drop_left]
      exact he
  · intro ⟨hlen, hbeg, hfin⟩
    refine ⟨text.take beg.length,
      (text.drop beg.length).take (text.length - fin.length - beg.length),
      text.drop (text.length - fin.length), ?_, hbeg, hfin⟩
    have hsplit : text.drop (text.length - fin.length) =
        (text.drop beg.length).drop (text.length - fin.length - beg.length) := by
      rw [List.drop_drop]
      congr 1
      omega
    rw [hsplit, List.append_assoc, List.take_append_drop, List.take_append_drop]

end Lib
