import PrintServer.Lib.LinkedList

/-!
# Doubly linked lists

`DoublyLinked next prev nil b h xs` says that following `next` from `h` visits exactly `xs` and
stops at `nil`, and that every node links back to the one in front of it, the first one to `b`.
-/

namespace Lib

variable {ι : Type*}

def DoublyLinked (next prev : ι → ι) (nil : ι) : ι → ι → List ι → Prop
  | _, h, [] => h = nil
  | b, h, x :: xs => h = x ∧ x ≠ nil ∧ prev x = b ∧ DoublyLinked next prev nil x (next x) xs

namespace DoublyLinked

variable {next prev next' prev' : ι → ι} {nil b h x z : ι} {xs us vs : List ι}

theorem linked (hl : DoublyLinked next prev nil b h xs) : Linked next nil h xs := by
  induction xs generalizing b h with
  | nil => exact hl
  | cons a as ih => exact ⟨hl.1, hl.2.1, ih hl.2.2.2⟩

theorem nodup (hl : DoublyLinked next prev nil b h xs) : xs.Nodup := hl.linked.nodup

theorem congr (hl : DoublyLinked next prev nil b h xs) (hn : ∀ x ∈ xs, next' x = next x)
    (hp : ∀ x ∈ xs, prev' x = prev x) : DoublyLinked next' prev' nil b h xs := by
  induction xs generalizing b h with
  | nil => exact hl
  | cons a as ih =>
      refine ⟨hl.1, hl.2.1, (hp a List.mem_cons_self).trans hl.2.2.1, ?_⟩
      rw [hn a List.mem_cons_self]
      exact ih hl.2.2.2 (fun x hx ↦ hn x (List.mem_cons_of_mem a hx))
        (fun x hx ↦ hp x (List.mem_cons_of_mem a hx))

/-- A node in front of the others. -/
theorem push (hl : DoublyLinked next prev nil b h xs) (hz : z ≠ nil) (hnz : next' z = h)
    (hpz : prev' z = b) (hn : ∀ x ∈ xs, next' x = next x) (hh : h ≠ nil → prev' h = z)
    (hp : ∀ x ∈ xs, x ≠ h → prev' x = prev x) : DoublyLinked next' prev' nil b z (z :: xs) := by
  refine ⟨rfl, hz, hpz, ?_⟩
  rw [hnz]
  cases xs with
  | nil => exact hl
  | cons a as =>
      have hnodup := List.nodup_cons.mp hl.nodup
      obtain ⟨rfl, hnil, -, hrest⟩ := hl
      refine ⟨rfl, hnil, hh hnil, ?_⟩
      rw [hn h List.mem_cons_self]
      apply hrest.congr
      · exact fun x hx ↦ hn x (List.mem_cons_of_mem h hx)
      · exact fun x hx ↦ hp x (List.mem_cons_of_mem h hx) fun heq ↦ hnodup.1 (heq ▸ hx)

/-- A node links back to the one in front of it. -/
theorem prev_eq (hl : DoublyLinked next prev nil b h (us ++ x :: vs)) :
    prev x = us.getLast?.getD b := by
  induction us generalizing b h with
  | nil => exact hl.2.2.1
  | cons a as ih =>
      have hrest := ih hl.2.2.2
      rw [hrest, List.getLast?_cons, Option.getD_some]

/-- A node is taken out: its neighbours are linked to each other. -/
theorem remove (hl : DoublyLinked next prev nil b h (us ++ x :: vs)) (hb : b ∉ us ++ x :: vs)
    (hn : ∀ z ∈ us ++ vs, z ≠ prev x → next' z = next z)
    (hnx : us ≠ [] → next' (prev x) = next x)
    (hp : ∀ z ∈ us ++ vs, z ≠ next x → prev' z = prev z)
    (hpx : next x ≠ nil → prev' (next x) = prev x) :
    DoublyLinked next' prev' nil b (if us = [] then next x else h) (us ++ vs) := by
  induction us generalizing b h with
  | nil =>
      have hnodup := List.nodup_cons.mp hl.nodup
      obtain ⟨rfl, -, hprev, hrest⟩ := hl
      rw [if_pos rfl]
      cases vs with
      | nil => exact hrest
      | cons y ws =>
          have hnodup' := List.nodup_cons.mp hnodup.2
          obtain ⟨hy, hnil, -, hws⟩ := hrest
          have hne (z : ι) (hz : z ∈ y :: ws) : z ≠ prev h := by
            rw [hprev]
            exact fun heq ↦ hb (List.mem_cons_of_mem h (heq ▸ hz))
          refine ⟨hy, hnil, ?_, ?_⟩
          · rw [← hy, hpx (hy.symm ▸ hnil), hprev]
          · rw [hn y List.mem_cons_self (hne y List.mem_cons_self)]
            apply hws.congr
            · exact fun z hz ↦ hn z (List.mem_cons_of_mem y hz) (hne z (List.mem_cons_of_mem y hz))
            · intro z hz
              apply hp z (List.mem_cons_of_mem y hz)
              rw [hy]
              exact fun heq ↦ hnodup'.1 (heq ▸ hz)
  | cons u us ih =>
      have hnodup := List.nodup_cons.mp hl.nodup
      have hprev : prev x = (u :: us).getLast?.getD b := prev_eq hl
      have hlinked := hl.linked
      obtain ⟨rfl, hnil, hback, hrest⟩ := hl
      rw [if_neg (List.cons_ne_nil h us)]
      have hmid := ih hrest hnodup.1 (fun z hz ↦ hn z (List.mem_cons_of_mem h hz))
        (fun _ ↦ hnx (List.cons_ne_nil h us)) (fun z hz ↦ hp z (List.mem_cons_of_mem h hz))
      refine ⟨rfl, hnil, ?_, ?_⟩
      · rw [hp h List.mem_cons_self, hback]
        -- the node behind `x` is not the head
        intro heq
        have hvs := @Linked.drop_of_append _ _ _ _ _ (h :: us) _ hlinked
        cases vs with
        | nil =>
            rw [heq] at hnil
            exact hnil hvs
        | cons y ws =>
            have hy : h = y := heq.trans hvs.1
            apply hnodup.1
            rw [hy]
            exact List.mem_append_right us (List.mem_cons_of_mem x List.mem_cons_self)
      · rw [List.getLast?_cons, Option.getD_some] at hprev
        cases us with
        | nil =>
            rw [if_pos rfl] at hmid
            have hlast : prev x = h := hprev
            have hnext := hnx (List.cons_ne_nil h [])
            rw [hlast] at hnext
            rw [hnext]
            exact hmid
        | cons u' us' =>
            rw [if_neg (List.cons_ne_nil u' us')] at hmid
            have hne : h ≠ prev x := by
              intro heq
              rw [hprev, List.getLast?_eq_some_getLast (List.cons_ne_nil u' us'),
                Option.getD_some] at heq
              apply hnodup.1
              rw [heq]
              exact List.mem_append_left _ (List.getLast_mem _)
            rw [hn h List.mem_cons_self hne]
            exact hmid

end DoublyLinked

end Lib
