import PrintServer.Lib.Memory

/-!
# Straight-line copying between two memories

A record is converted to another by a list of assignments from one memory to the other.  If they
come in the order of the places they write, each place holds in the end what its own assignment
wrote; and if they all write what a third memory holds, the result is that memory.
-/

namespace Lib

variable {α : Type*}

/-- `copy` is a `memcpy` of `size` bytes; `value` writes what it makes of both memories to a place
of `size` bytes. -/
inductive Transfer (α : Type*)
  | copy (dst src size : Nat)
  | value (dst size : Nat) (v : (Nat → α) → (Nat → α) → List α)

namespace Transfer

def dst : Transfer α → Nat
  | copy d _ _ => d
  | value d _ _ => d

def size : Transfer α → Nat
  | copy _ _ n => n
  | value _ n _ => n

/-- What is written when the memories are `src` and `mem`. -/
def written (src mem : Nat → α) : Transfer α → List α
  | copy _ s n => readMem src s n
  | value _ _ v => v src mem

def step (src mem : Nat → α) (t : Transfer α) : Nat → α := writeMem mem t.dst (t.written src mem)

def run (src : Nat → α) (ts : List (Transfer α)) (mem : Nat → α) : Nat → α :=
  ts.foldl (step src) mem

/-- The copies of a list, as destination, source and size. -/
def copies : List (Transfer α) → List (Nat × Nat × Nat)
  | [] => []
  | copy d s n :: ts => (d, s, n) :: copies ts
  | value _ _ _ :: ts => copies ts

def values : List (Transfer α) → List (Transfer α)
  | [] => []
  | copy _ _ _ :: ts => values ts
  | value d n v :: ts => value d n v :: values ts

/-- In the order of the places, which do not overlap; what is written may be longer than its
place. -/
def Ordered (ts : List (Transfer α)) : Prop :=
  (ts.map fun t ↦ (t.dst, t.size)).Pairwise fun p q ↦ p.1 + p.2 ≤ q.1

variable {src mem target : Nat → α} {t : Transfer α} {ts us : List (Transfer α)} {i d s n : Nat}

@[simp] theorem run_nil : run src [] mem = mem := rfl

@[simp] theorem run_cons : run src (t :: ts) mem = run src ts (step src mem t) := rfl

theorem run_append : run src (ts ++ us) mem = run src us (run src ts mem) := List.foldl_append

theorem mem_copies : (d, s, n) ∈ copies ts ↔ copy d s n ∈ ts := by
  induction ts with
  | nil => simp [copies]
  | cons t ts ih => cases t <;> simp [copies, ih]

theorem forall_mem_of {P : Transfer α → Prop} (hcopies : ∀ c ∈ copies ts, P (copy c.1 c.2.1 c.2.2))
    (hvalues : ∀ t ∈ values ts, P t) : ∀ t ∈ ts, P t := by
  induction ts with
  | nil => nofun
  | cons t ts ih =>
      cases t with
      | copy d s n =>
          obtain ⟨hhead, htail⟩ := List.forall_mem_cons.mp hcopies
          exact List.forall_mem_cons.mpr ⟨hhead, ih htail hvalues⟩
      | value d n v =>
          obtain ⟨hhead, htail⟩ := List.forall_mem_cons.mp hvalues
          exact List.forall_mem_cons.mpr ⟨hhead, ih hcopies htail⟩

/-- In front of all places nothing changes. -/
theorem run_of_lt (h : ∀ t ∈ ts, i < t.dst) : run src ts mem i = mem i := by
  induction ts generalizing mem with
  | nil => rfl
  | cons t ts ih =>
      obtain ⟨ht, hts⟩ := List.forall_mem_cons.mp h
      rw [run_cons, ih hts]
      exact writeMem_of_lt ht

/-- Behind all that is written nothing changes. -/
theorem run_of_ge (h : ∀ t ∈ ts, ∀ m, t.dst + (t.written src m).length ≤ i) :
    run src ts mem i = mem i := by
  induction ts generalizing mem with
  | nil => rfl
  | cons t ts ih =>
      obtain ⟨ht, hts⟩ := List.forall_mem_cons.mp h
      rw [run_cons, ih hts]
      exact writeMem_of_ge (ht mem)

theorem Ordered.head (h : Ordered (t :: ts)) : ∀ u ∈ ts, t.dst + t.size ≤ u.dst := by
  intro u hu
  exact (List.pairwise_cons.mp h).1 (u.dst, u.size) (List.mem_map_of_mem hu)

theorem Ordered.append_right (h : Ordered (us ++ ts)) : Ordered ts := by
  unfold Ordered at h ⊢
  rw [List.map_append, List.pairwise_append] at h
  exact h.2.1

/-- What the place of an assignment holds when all are done. -/
theorem Ordered.readMem_run (h : Ordered (us ++ t :: ts)) (hn : n ≤ t.size) :
    readMem (run src (us ++ t :: ts) mem) t.dst n =
      readMem (step src (run src us mem) t) t.dst n := by
  rw [run_append, run_cons]
  apply readMem_congr
  intro i _ hi
  apply run_of_lt
  intro u hu
  have hle := h.append_right.head u hu
  omega

theorem Ordered.readMem_copy (h : Ordered ts) (hmem : copy d s n ∈ ts) :
    readMem (run src ts mem) d n = readMem src s n := by
  obtain ⟨us, vs, rfl⟩ := List.append_of_mem hmem
  have hread := @Ordered.readMem_run _ src mem (copy d s n) vs us n h (Nat.le_refl n)
  have hwritten : readMem (writeMem (run src us mem) d (readMem src s n)) d n =
      readMem src s n := by
    have hback := @readMem_writeMem _ (run src us mem) d (readMem src s n)
    rwa [length_readMem] at hback
  exact hread.trans hwritten

theorem Ordered.readMem_value {v : (Nat → α) → (Nat → α) → List α} {w : List α}
    (h : Ordered ts) (hmem : value d s v ∈ ts) (hv : ∀ m, v src m = w) (hn : n ≤ s)
    (hw : n ≤ w.length) : readMem (run src ts mem) d n = w.take n := by
  obtain ⟨us, vs, rfl⟩ := List.append_of_mem hmem
  have hread := @Ordered.readMem_run _ src mem (value d s v) vs us n h hn
  have hwritten : readMem (step src (run src us mem) (value d s v)) d n = w.take n := by
    change readMem (writeMem _ d (v src _)) d n = _
    rw [hv]
    exact readMem_writeMem_take hw
  exact hread.trans hwritten

/-- An assignment that writes what `target` holds. -/
theorem step_target (ht : t.written src mem = readMem target t.dst t.size)
    (hi : mem i = target i ∨ t.dst ≤ i ∧ i < t.dst + t.size) : step src mem t i = target i := by
  have hlen : (t.written src mem).length = t.size := by rw [ht, length_readMem]
  unfold step
  by_cases hin : t.dst ≤ i ∧ i < t.dst + t.size
  · obtain ⟨j, rfl⟩ := Nat.exists_eq_add_of_le hin.1
    rw [writeMem_add (by omega)]
    have hget := List.getElem_of_eq ht (i := j) (by omega)
    rw [hget]
    simp [readMem]
  · have hkeep : writeMem mem t.dst (t.written src mem) i = mem i := by
      by_cases hlt : i < t.dst
      · exact writeMem_of_lt hlt
      · exact writeMem_of_ge (by omega)
    rw [hkeep]
    exact hi.resolve_right hin

/-- Assignments that write what `target` holds, into a memory that was right outside `wrong`. -/
theorem run_target {wrong : Nat → Prop} (hmem : ∀ i, ¬ wrong i → mem i = target i)
    (hts : ∀ t ∈ ts, ∀ m : Nat → α, (∀ i, ¬ wrong i → m i = target i) →
      t.written src m = readMem target t.dst t.size)
    (hi : ¬ wrong i ∨ ∃ t ∈ ts, t.dst ≤ i ∧ i < t.dst + t.size) :
    run src ts mem i = target i := by
  induction ts generalizing mem wrong with
  | nil =>
      rcases hi with hi | ⟨t, ht, -⟩
      · exact hmem i hi
      · exact absurd ht List.not_mem_nil
  | cons t ts ih =>
      obtain ⟨ht, hts⟩ := List.forall_mem_cons.mp hts
      -- what the first assignment writes is not wrong any more
      apply @ih _ fun i ↦ wrong i ∧ ¬ (t.dst ≤ i ∧ i < t.dst + t.size)
      · intro j hj
        apply step_target (ht mem hmem)
        by_cases hw : wrong j
        · exact Or.inr (not_not.mp fun hin ↦ hj ⟨hw, hin⟩)
        · exact Or.inl (hmem j hw)
      · intro u hu m hm
        exact hts u hu m fun j hj ↦ hm j fun h ↦ hj h.1
      · rcases hi with hi | ⟨u, hu, hin⟩
        · exact Or.inl fun h ↦ hi h.1
        · rcases List.mem_cons.mp hu with rfl | hu
          · exact Or.inl fun h ↦ h.2 hin
          · exact Or.inr ⟨u, hu, hin⟩

end Transfer

end Lib
