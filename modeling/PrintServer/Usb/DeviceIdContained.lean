import Mathlib.Data.List.TakeWhile
import PrintServer.Usb.DeviceId

/-!
# When a device id is parsed without harm

The block for a description has no room for the NUL of its value, and a key that is given again
takes the place of a block that nobody frees.  Which of it happens is decided by the keys of the id
and the answers of `malloc`.
-/

namespace PrintServer.Usb

open Http (Str bytes chr cstr strstr)

/-! ## What is asked -/

/-- The key and the value of a part of the id, where a branch claims the key. -/
def partClaim (part : Str) : Option (Field × Str) :=
  match part.dropWhile (· ≠ chr ':') with
  | [] => none
  | _ :: value =>
      (fieldOf ((part.takeWhile (· ≠ chr ':')).map toupper)).map fun f ↦ (f, value)

/-- What stands between the semicolons. -/
def pieces : Str → List Str
  | [] => [[]]
  | c :: cs =>
      if c = chr ';' then [] :: pieces cs
      else
        match pieces cs with
        | [] => [[c]]
        | piece :: rest => (c :: piece) :: rest

/-- The claims of an id, in order. -/
def claims (id : Str) : List (Field × Str) := (pieces id).filterMap partClaim

/-- Of the string only its own bytes are written, of a block only those that it has, which are
enough for the value and its NUL; a field is NULL or holds a value of its key; and
`PrnFreeDeviceInfo` frees all blocks. -/
structure Contained (id : Str) (d : Parsing) : Prop where
  inString : ∀ i ∈ d.stores, i < id.length
  inBlocks : ∀ n ∈ d.strings.live, (d.strings.block n).wrote ≤ (d.strings.block n).size
  room : ∀ n ∈ d.strings.live, (d.strings.block n).text.length + 1 ≤ (d.strings.block n).size
  fields : ∀ f n, d.strings.field f = some n → n ∈ d.strings.live ∧
    (f, (d.strings.block n).text) ∈ claims id
  released : (prnFreeDeviceInfo d.strings).live = []

/-- No description has a value, and behind a key whose block was allocated the key does not come
again; `n` calls of `malloc` have been made. -/
def Tame (heap : Nat → Bool) : Nat → List (Field × Str) → Prop
  | _, [] => True
  | n, (f, value) :: cs =>
      if f = .description then value = [] ∧ Tame heap n cs
      else (heap n = true → f ∉ cs.map Prod.fst) ∧ Tame heap (n + 1) cs

/-! ## Blocks -/

namespace Strings

variable {heap : Nat → Bool} {wait : Nat} {s t : Strings} {f g : Field} {value : Str} {n : Nat}

/-- A branch that had its block. -/
structure Stores (s t : Strings) (f : Field) (value : Str) (size n : Nat) : Prop where
  field : t.field = Function.update s.field f (some n)
  live : t.live = n :: s.live
  same : ∀ m ≠ n, t.block m = s.block m
  block : t.block n = ⟨size, value.length + 1, value⟩
  fresh : s.calls ≤ n
  calls : t.calls = n + 1

/-- A branch whose allocation failed. -/
structure Misses (s t : Strings) (f : Field) : Prop where
  field : t.field = Function.update s.field f none
  live : t.live = s.live
  block : t.block = s.block
  calls : s.calls ≤ t.calls

theorem storeValue_pos (hf : f ≠ .description) (hheap : heap s.calls = true) :
    ∃ t, s.storeValue heap wait f value = some t ∧
      Stores s t f value (value.length + 1) s.calls := by
  have hstore : s.storeValue heap wait f value = some
      ((((s.malloc heap (value.length + 1)).2.setField f (some s.calls)).memset s.calls
        value.length).strcpy s.calls value) := by
    cases f with
    | description => contradiction
    | _ => simp [storeValue, malloc, hheap]
  refine ⟨_, hstore, ?_⟩
  have hmalloc : s.malloc heap (value.length + 1) = (some s.calls, { s with
      calls := s.calls + 1
      block := Function.update s.block s.calls ⟨value.length + 1, 0, []⟩
      live := s.calls :: s.live }) := by
    simp [malloc, hheap]
  rw [hmalloc]
  constructor
  · rfl
  · rfl
  · intro m hm
    simp [strcpy, memset, setField, hm]
  · simp [strcpy, memset, setField]
  · exact Nat.le_refl _
  · rfl

theorem storeValue_neg (hf : f ≠ .description) (hheap : heap s.calls = false) :
    ∃ t, s.storeValue heap wait f value = some t ∧ Misses s t f ∧ t.calls = s.calls + 1 := by
  have hstore : s.storeValue heap wait f value =
      some ((s.malloc heap (value.length + 1)).2.setField f none) := by
    cases f with
    | description => contradiction
    | _ => simp [storeValue, malloc, hheap]
  have hmalloc : s.malloc heap (value.length + 1) = (none, { s with calls := s.calls + 1 }) := by
    simp [malloc, hheap]
  refine ⟨_, hstore, ?_⟩
  rw [hmalloc]
  exact ⟨⟨rfl, rfl, rfl, Nat.le_succ _⟩, rfl⟩

theorem storeValue_nil : s.storeValue heap wait .description [] =
    some (s.setField .description none) := by
  simp [storeValue, mallocw]

/-- When `mallocw` has its block. -/
theorem mallocwLoop_eq {size : Nat} {p : Option Nat}
    (h : mallocwLoop heap wait s size = some (p, t)) :
    ∃ n, p = some n ∧ s.calls ≤ n ∧ t = { s with
      calls := n + 1
      block := Function.update s.block n ⟨size, 0, []⟩
      live := n :: s.live } := by
  induction wait generalizing s with
  | zero => exact nomatch h
  | succ wait ih =>
    rw [mallocwLoop] at h
    by_cases hheap : heap s.calls = true
    · have hmalloc : s.malloc heap size = (some s.calls, { s with
          calls := s.calls + 1
          block := Function.update s.block s.calls ⟨size, 0, []⟩
          live := s.calls :: s.live }) := by
        simp [malloc, hheap]
      rw [hmalloc] at h
      cases h
      exact ⟨s.calls, rfl, Nat.le_refl _, rfl⟩
    · have hmalloc : s.malloc heap size = (none, { s with calls := s.calls + 1 }) := by
        simp [malloc, hheap]
      rw [hmalloc] at h
      obtain ⟨n, hp, hn, ht⟩ := ih h
      exact ⟨n, hp, by exact Nat.le_of_succ_le hn, ht⟩

/-- A value of a description is written over the end of its block. -/
theorem storeValue_description (hvalue : value ≠ [])
    (h : s.storeValue heap wait .description value = some t) :
    ∃ n, Stores s t .description value value.length n := by
  have hlength : value.length ≠ 0 := List.length_eq_zero_iff.not.mpr hvalue
  rw [storeValue, mallocw, if_neg hlength, Option.map_eq_some_iff] at h
  obtain ⟨⟨p, u⟩, hloop, ht⟩ := h
  obtain ⟨n, rfl, hn, rfl⟩ := mallocwLoop_eq hloop
  refine ⟨n, ?_⟩
  dsimp only at ht
  rw [← ht]
  constructor
  · rfl
  · rfl
  · intro m hm
    simp [strcpy, setField, hm]
  · simp [strcpy, setField]
  · exact hn
  · rfl

/-- What a branch does, whatever it is. -/
theorem storeValue_cases (h : s.storeValue heap wait f value = some t) :
    Misses s t f ∨ ∃ size n, Stores s t f value size n := by
  by_cases hf : f = .description
  · subst hf
    by_cases hvalue : value = []
    · rw [hvalue, storeValue_nil] at h
      cases h
      exact .inl ⟨rfl, rfl, rfl, Nat.le_refl _⟩
    · exact .inr ⟨_, storeValue_description hvalue h⟩
  · cases hheap : heap s.calls with
    | true =>
      obtain ⟨t', ht', hstores⟩ := @storeValue_pos heap wait s f value hf hheap
      rw [ht'] at h
      cases h
      exact .inr ⟨_, _, hstores⟩
    | false =>
      obtain ⟨t', ht', hmisses, -⟩ := @storeValue_neg heap wait s f value hf hheap
      rw [ht'] at h
      cases h
      exact .inl hmisses

/-! ## `PrnFreeDeviceInfo` -/

theorem field_freeField (s : Strings) (f : Field) :
    (s.freeField f).field = Function.update s.field f none := by
  rw [freeField]
  split
  · rename_i hnone
    rw [← hnone, Function.update_eq_self]
  · rfl

theorem nodup_freeField (hs : s.live.Nodup) (f : Field) : (s.freeField f).live.Nodup := by
  rw [freeField]
  split
  · exact hs
  · exact hs.erase _

theorem mem_freeField (hs : s.live.Nodup) (f : Field) :
    n ∈ (s.freeField f).live ↔ n ∈ s.live ∧ s.field f ≠ some n := by
  rw [freeField]
  split
  · rename_i hnone
    rw [hnone]
    exact (and_iff_left (Option.some_ne_none n).symm).symm
  · rename_i m hm
    show n ∈ s.live.erase m ↔ _
    rw [hs.mem_erase_iff, hm, and_comm, Ne, Ne, Option.some.injEq, eq_comm]

theorem mem_freeField_of_lost (hlive : n ∈ s.live) (hlost : ∀ g, s.field g ≠ some n) (f : Field) :
    n ∈ (s.freeField f).live ∧ ∀ g, (s.freeField f).field g ≠ some n := by
  constructor
  · rw [freeField]
    split
    · exact hlive
    · rename_i m hm
      have hne : n ≠ m := fun heq ↦ hlost f (heq ▸ hm)
      exact (List.mem_erase_of_ne hne).mpr hlive
  · intro g
    rw [field_freeField]
    by_cases hg : g = f
    · rw [hg, Function.update_self]
      exact (Option.some_ne_none n).symm
    · rw [Function.update_of_ne hg]
      exact hlost g

/-- A block that no field points to stays. -/
theorem mem_released_of_lost (hlive : n ∈ s.live) (hlost : ∀ g, s.field g ≠ some n) :
    n ∈ (prnFreeDeviceInfo s).live := by
  obtain ⟨h1, h1'⟩ := mem_freeField_of_lost hlive hlost .manufacture
  obtain ⟨h2, h2'⟩ := mem_freeField_of_lost h1 h1' .model
  obtain ⟨h3, h3'⟩ := mem_freeField_of_lost h2 h2' .commandSet
  exact (mem_freeField_of_lost h3 h3' .description).1

/-- The blocks that are left are those that no field points to. -/
theorem mem_prnFreeDeviceInfo (hs : s.live.Nodup) :
    n ∈ (prnFreeDeviceInfo s).live ↔ n ∈ s.live ∧ ∀ f, s.field f ≠ some n := by
  have h1 := nodup_freeField hs .manufacture
  have h2 := nodup_freeField h1 .model
  have h3 := nodup_freeField h2 .commandSet
  rw [prnFreeDeviceInfo, mem_freeField h3, mem_freeField h2, mem_freeField h1, mem_freeField hs]
  simp only [field_freeField]
  constructor
  · rintro ⟨⟨⟨⟨hlive, hmanufacture⟩, hmodel⟩, hcommandSet⟩, hdescription⟩
    refine ⟨hlive, fun f ↦ ?_⟩
    cases f with
    | manufacture => exact hmanufacture
    | model => exact hmodel
    | commandSet => exact hcommandSet
    | description => exact hdescription
  · rintro ⟨hlive, hfield⟩
    exact ⟨⟨⟨⟨hlive, hfield _⟩, hfield .model⟩, hfield .commandSet⟩, hfield .description⟩

/-! ## All the claims -/

def runClaims (heap : Nat → Bool) (wait : Nat) : Strings → List (Field × Str) → Option Strings
  | s, [] => some s
  | s, (f, value) :: cs => (s.storeValue heap wait f value).bind (runClaims heap wait · cs)

variable {cs all : List (Field × Str)}

/-- What holds while all is well: the fields share out the blocks, and a key whose field is set does
not come again. -/
structure Good (all cs : List (Field × Str)) (s : Strings) : Prop where
  nodup : s.live.Nodup
  bound : ∀ n ∈ s.live, n < s.calls
  block : ∀ n ∈ s.live, (s.block n).wrote = (s.block n).text.length + 1 ∧
    (s.block n).size = (s.block n).text.length + 1
  owned : ∀ n ∈ s.live, ∃ f, s.field f = some n
  valid : ∀ f n, s.field f = some n → n ∈ s.live ∧ (f, (s.block n).text) ∈ all
  once : ∀ f n, s.field f = some n → f ∉ cs.map Prod.fst

theorem Good.misses (hs : Good all ((f, value) :: cs) s) (h : Misses s t f) : Good all cs t := by
  have hfree : s.field f = none := by
    by_contra hne
    obtain ⟨n, hn⟩ := Option.ne_none_iff_exists'.mp hne
    exact hs.once f n hn List.mem_cons_self
  have hfield : t.field = s.field := by rw [h.field, ← hfree, Function.update_eq_self]
  constructor
  · rw [h.live]
    exact hs.nodup
  · intro n hn
    rw [h.live] at hn
    exact Nat.lt_of_lt_of_le (hs.bound n hn) h.calls
  · rw [h.live, h.block]
    exact hs.block
  · rw [h.live, hfield]
    exact hs.owned
  · rw [h.live, hfield, h.block]
    exact hs.valid
  · rw [hfield]
    exact fun g n hn hmem ↦ hs.once g n hn (List.mem_cons_of_mem _ hmem)

theorem Good.stores (hs : Good all ((f, value) :: cs) s) (hall : (f, value) ∈ all)
    (hnot : f ∉ cs.map Prod.fst) (h : Stores s t f value (value.length + 1) n) :
    Good all cs t := by
  have hfresh : n ∉ s.live := fun hn ↦ Nat.lt_irrefl n (Nat.lt_of_lt_of_le (hs.bound n hn) h.fresh)
  have hsame (m : Nat) (hm : m ∈ s.live) : t.block m = s.block m :=
    h.same m fun heq ↦ hfresh (heq ▸ hm)
  constructor
  · rw [h.live]
    exact List.nodup_cons.mpr ⟨hfresh, hs.nodup⟩
  · intro m hm
    rw [h.live] at hm
    have hcalls := h.calls
    have hle := h.fresh
    rcases List.mem_cons.mp hm with hnew | hold
    · omega
    · have hlt := hs.bound m hold
      omega
  · intro m hm
    rw [h.live] at hm
    rcases List.mem_cons.mp hm with hnew | hold
    · rw [hnew, h.block]
      exact ⟨rfl, rfl⟩
    · rw [hsame m hold]
      exact hs.block m hold
  · intro m hm
    rw [h.live] at hm
    rw [h.field]
    rcases List.mem_cons.mp hm with hnew | hold
    · exact ⟨f, by rw [Function.update_self, hnew]⟩
    · obtain ⟨g, hg⟩ := hs.owned m hold
      have hne : g ≠ f := fun heq ↦ hs.once g m hg (heq ▸ List.mem_cons_self)
      exact ⟨g, by rw [Function.update_of_ne hne, hg]⟩
  · intro g m hg
    rw [h.field] at hg
    rw [h.live]
    by_cases hgf : g = f
    · rw [hgf, Function.update_self, Option.some.injEq] at hg
      rw [hgf, ← hg, h.block]
      exact ⟨List.mem_cons_self, hall⟩
    · rw [Function.update_of_ne hgf] at hg
      obtain ⟨hlive, hmem⟩ := hs.valid g m hg
      rw [hsame m hlive]
      exact ⟨List.mem_cons_of_mem _ hlive, hmem⟩
  · intro g m hg hmem
    rw [h.field] at hg
    by_cases hgf : g = f
    · exact hnot (hgf ▸ hmem)
    · rw [Function.update_of_ne hgf] at hg
      exact hs.once g m hg (List.mem_cons_of_mem _ hmem)

/-- Tame claims go well, without waiting. -/
theorem Good.run (hs : Good all cs s) (hall : ∀ c ∈ cs, c ∈ all) (htame : Tame heap s.calls cs) :
    ∃ t, runClaims heap wait s cs = some t ∧ Good all [] t := by
  induction cs generalizing s with
  | nil => exact ⟨s, rfl, hs⟩
  | cons c cs ih =>
    obtain ⟨f, value⟩ := c
    obtain ⟨hc, hcs⟩ := List.forall_mem_cons.mp hall
    rw [Tame] at htame
    rw [runClaims]
    split at htame
    · rename_i hf
      subst hf
      rw [htame.1, storeValue_nil]
      exact ih (hs.misses ⟨rfl, rfl, rfl, Nat.le_refl _⟩) hcs htame.2
    · rename_i hf
      cases hheap : heap s.calls with
      | true =>
        obtain ⟨t, ht, hstores⟩ := @storeValue_pos heap wait s f value hf hheap
        rw [ht]
        refine ih (hs.stores hc (htame.1 hheap) hstores) hcs ?_
        rw [hstores.calls]
        exact htame.2
      | false =>
        obtain ⟨t, ht, hmisses, hcalls⟩ := @storeValue_neg heap wait s f value hf hheap
        rw [ht]
        refine ih (hs.misses hmisses) hcs ?_
        rw [hcalls]
        exact htame.2

/-! ## Where it goes wrong -/

/-- A block that was written beyond its end, or one that no field points to. -/
def Broken (s : Strings) : Prop :=
  ∃ n ∈ s.live, n < s.calls ∧ ((s.block n).size < (s.block n).wrote ∨ ∀ f, s.field f ≠ some n)

/-- Nothing mends it. -/
theorem Broken.storeValue (hs : Broken s) (h : s.storeValue heap wait f value = some t) :
    Broken t := by
  obtain ⟨n, hlive, hbound, hn⟩ := hs
  rcases storeValue_cases h with hmisses | ⟨size, m, hstores⟩
  · refine ⟨n, hmisses.live ▸ hlive, Nat.lt_of_lt_of_le hbound hmisses.calls, ?_⟩
    rw [hmisses.block]
    refine hn.imp_right fun hfield g ↦ ?_
    rw [hmisses.field]
    by_cases hg : g = f
    · rw [hg, Function.update_self]
      exact (Option.some_ne_none n).symm
    · rw [Function.update_of_ne hg]
      exact hfield g
  · have hle := hstores.fresh
    have hne : n ≠ m := by omega
    refine ⟨n, ?_, ?_, ?_⟩
    · rw [hstores.live]
      exact List.mem_cons_of_mem _ hlive
    · rw [hstores.calls]
      omega
    · rw [hstores.same n hne]
      refine hn.imp_right fun hfield g ↦ ?_
      rw [hstores.field]
      by_cases hg : g = f
      · rw [hg, Function.update_self]
        exact fun heq ↦ hne (Option.some.inj heq).symm
      · rw [Function.update_of_ne hg]
        exact hfield g

theorem Broken.run (hs : Broken s) (h : runClaims heap wait s cs = some t) : Broken t := by
  induction cs generalizing s with
  | nil =>
    cases h
    exact hs
  | cons c cs ih =>
    obtain ⟨u, hu, hrest⟩ := Option.bind_eq_some_iff.mp h
    exact ih (hs.storeValue hu) hrest

/-- The block of a field is lost where the key comes again. -/
theorem broken_of_again (hlive : n ∈ s.live) (hbound : n < s.calls) (hfield : s.field f = some n)
    (hother : ∀ g ≠ f, s.field g ≠ some n) (hagain : f ∈ cs.map Prod.fst)
    (h : runClaims heap wait s cs = some t) : Broken t := by
  induction cs generalizing s with
  | nil => exact absurd hagain List.not_mem_nil
  | cons c cs ih =>
    obtain ⟨g, value⟩ := c
    obtain ⟨u, hu, hrest⟩ := Option.bind_eq_some_iff.mp h
    -- whatever the branch for `g` does, the block and the fields but `g` are as they were
    obtain ⟨p, hp, hkept, hboundu, hlost⟩ : ∃ p, p ≠ some n ∧ n ∈ u.live ∧ n < u.calls ∧
        u.field = Function.update s.field g p := by
      rcases storeValue_cases hu with hmisses | ⟨size, m, hstores⟩
      · exact ⟨none, (Option.some_ne_none n).symm, hmisses.live ▸ hlive,
          Nat.lt_of_lt_of_le hbound hmisses.calls, hmisses.field⟩
      · have hle := hstores.fresh
        have hcalls := hstores.calls
        refine ⟨some m, ?_, ?_, by omega, hstores.field⟩
        · rw [Ne, Option.some.injEq]
          omega
        · rw [hstores.live]
          exact List.mem_cons_of_mem _ hlive
    have hotheru (g' : Field) (hne : g' ≠ f) : u.field g' ≠ some n := by
      rw [hlost]
      by_cases hg' : g' = g
      · rw [hg', Function.update_self]
        exact hp
      · rw [Function.update_of_ne hg']
        exact hother g' hne
    by_cases hg : g = f
    · refine Broken.run ⟨n, hkept, hboundu, .inr fun g' ↦ ?_⟩ hrest
      by_cases hg' : g' = f
      · rw [hg', ← hg, hlost, Function.update_self]
        exact hp
      · exact hotheru g' hg'
    · have hfieldu : u.field f = some n := by
        rw [hlost, Function.update_of_ne fun heq ↦ hg heq.symm]
        exact hfield
      have hmem : f ∈ cs.map Prod.fst := by
        rcases List.mem_cons.mp hagain with heq | hmem
        · exact absurd heq.symm hg
        · exact hmem
      exact ih hkept hboundu hfieldu hotheru hmem hrest

/-- What is not tame ends with a broken block, if it ends. -/
theorem broken_of_not_tame (hfields : ∀ g m, s.field g = some m → m < s.calls)
    (htame : ¬Tame heap s.calls cs) (h : runClaims heap wait s cs = some t) : Broken t := by
  induction cs generalizing s with
  | nil => exact absurd trivial htame
  | cons c cs ih =>
    obtain ⟨f, value⟩ := c
    obtain ⟨u, hu, hrest⟩ := Option.bind_eq_some_iff.mp h
    rw [Tame] at htame
    by_cases hf : f = .description
    · subst hf
      rw [if_pos rfl] at htame
      by_cases hvalue : value = []
      · rw [hvalue, storeValue_nil] at hu
        cases hu
        refine @ih (s.setField .description none) ?_ (fun hcs ↦ htame ⟨hvalue, hcs⟩) hrest
        intro g m hg
        have hg : Function.update s.field .description none g = some m := hg
        by_cases hgd : g = .description
        · rw [hgd, Function.update_self] at hg
          exact nomatch hg
        · rw [Function.update_of_ne hgd] at hg
          exact hfields g m hg
      · obtain ⟨n, hstores⟩ := storeValue_description hvalue hu
        have hbroken : Broken u := by
          refine ⟨n, ?_, ?_, .inl ?_⟩
          · rw [hstores.live]
            exact List.mem_cons_self
          · rw [hstores.calls]
            exact Nat.lt_succ_self n
          · rw [hstores.block]
            exact Nat.lt_succ_self _
        exact hbroken.run hrest
    · rw [if_neg hf] at htame
      cases hheap : heap s.calls with
      | false =>
        obtain ⟨u', hu', hmisses, hcalls⟩ := @storeValue_neg heap wait s f value hf hheap
        rw [hu'] at hu
        cases hu
        refine ih ?_ (fun hcs ↦ htame ⟨fun htrue ↦ ?_, hcalls ▸ hcs⟩) hrest
        · intro g m hg
          rw [hmisses.field] at hg
          rw [hcalls]
          by_cases hgf : g = f
          · rw [hgf, Function.update_self] at hg
            exact nomatch hg
          · rw [Function.update_of_ne hgf] at hg
            exact Nat.lt_succ_of_lt (hfields g m hg)
        · rw [hheap] at htrue
          exact nomatch htrue
      | true =>
        obtain ⟨u', hu', hstores⟩ := @storeValue_pos heap wait s f value hf hheap
        rw [hu'] at hu
        cases hu
        have hcalls := hstores.calls
        by_cases hagain : f ∈ cs.map Prod.fst
        · refine broken_of_again (n := s.calls) ?_ ?_ ?_ ?_ hagain hrest
          · rw [hstores.live]
            exact List.mem_cons_self
          · omega
          · rw [hstores.field, Function.update_self]
          · intro g hg
            rw [hstores.field, Function.update_of_ne hg]
            exact fun heq ↦ Nat.lt_irrefl _ (hfields g _ heq)
        · refine ih ?_ (fun hcs ↦ htame ⟨fun _ ↦ hagain, hcalls ▸ hcs⟩) hrest
          intro g m hg
          rw [hstores.field] at hg
          by_cases hgf : g = f
          · rw [hgf, Function.update_self, Option.some.injEq] at hg
            omega
          · rw [Function.update_of_ne hgf] at hg
            have hlt := hfields g m hg
            omega

end Strings

/-! ## The string -/

theorem cstr_behind {front s : List UInt8} (hs : 0 ∉ s) (tail : List UInt8) :
    cstr (front ++ (s ++ 0 :: tail)) front.length = s := by
  have hs' : ∀ c ∈ s, decide (c ≠ 0) = true := fun c hc ↦ by
    simpa using ne_of_mem_of_not_mem hc hs
  rw [cstr, List.drop_left, List.takeWhile_append_of_pos hs']
  simp

theorem set_behind (front a b : List UInt8) (c x : UInt8) :
    (front ++ (a ++ c :: b)).set (front.length + a.length) x = front ++ (a ++ x :: b) := by
  rw [List.set_append_right _ _ (Nat.le_add_right _ _), Nat.add_sub_cancel_left,
    List.set_append_right _ _ (Nat.le_refl _), Nat.sub_self, List.set_cons_zero]

theorem toupper_ne_zero {c : UInt8} (hc : c ≠ 0) : toupper c ≠ 0 := by
  rw [toupper]
  split
  · rename_i h
    intro hzero
    have hlow : 97 ≤ c.toNat := UInt8.le_iff_toNat_le.mp h.1
    have hsub := congrArg UInt8.toNat hzero
    have hle : (32 : UInt8) ≤ c := UInt8.le_iff_toNat_le.mpr (by show 32 ≤ c.toNat; omega)
    rw [UInt8.toNat_sub_of_le _ _ hle] at hsub
    have hzero' : c.toNat - 32 = 0 := hsub
    omega
  · exact hc

theorem zero_not_mem_map_toupper {s : Str} (hs : 0 ∉ s) : 0 ∉ s.map toupper := by
  intro h
  obtain ⟨c, hc, hzero⟩ := List.mem_map.mp h
  exact toupper_ne_zero (ne_of_mem_of_not_mem hc hs) hzero

namespace Parsing

variable {d : Parsing} {front tail : List UInt8}

/-- The loop stops at the NUL. -/
theorem upperLoop_behind {s : Str} (hs : 0 ∉ s) {n : Nat} (hn : s.length < n)
    (hmem : d.mem = front ++ (s ++ 0 :: tail)) :
    ∃ stores, upperLoop n d front.length =
        { d with mem := front ++ (s.map toupper ++ 0 :: tail), stores := stores } ∧
      ∀ i ∈ stores, i ∈ d.stores ∨ i < front.length + s.length := by
  induction s generalizing d front n with
  | nil =>
    obtain ⟨n, rfl⟩ := Nat.exists_eq_add_one_of_ne_zero (Nat.ne_of_gt hn)
    have hget : d.mem.getD front.length 0 = 0 := by
      rw [hmem, List.getD_eq_getElem?_getD, List.getElem?_append_right (Nat.le_refl _)]
      simp
    refine ⟨d.stores, ?_, fun i hi ↦ .inl hi⟩
    rw [upperLoop, if_pos hget, List.map_nil, ← hmem]
  | cons c s ih =>
    obtain ⟨n, rfl⟩ := Nat.exists_eq_add_one_of_ne_zero (Nat.ne_of_gt (Nat.zero_lt_of_lt hn))
    obtain ⟨hc, hs⟩ := not_or.mp (List.mem_cons.not.mp hs)
    have hget : d.mem.getD front.length 0 = c := by
      rw [hmem, List.getD_eq_getElem?_getD, List.getElem?_append_right (Nat.le_refl _)]
      simp
    have hstore : (d.storeAt front.length (toupper c)).mem =
        (front ++ [toupper c]) ++ (s ++ 0 :: tail) := by
      have hset := set_behind front [] (s ++ 0 :: tail) c (toupper c)
      rw [List.append_assoc]
      show d.mem.set front.length (toupper c) = _
      rw [hmem]
      exact hset
    have hlen : (front ++ [toupper c]).length = front.length + 1 := by simp
    obtain ⟨stores, heq, hstores⟩ := ih hs (Nat.lt_of_succ_lt_succ hn) hstore
    rw [hlen] at heq hstores
    refine ⟨stores, ?_, fun i hi ↦ ?_⟩
    · rw [upperLoop, hget, if_neg (Ne.symm hc), heq, List.append_assoc]
      rfl
    · rw [List.length_cons]
      rcases hstores i hi with hold | hnew
      · rcases List.mem_cons.mp hold with hfirst | hold
        · right
          omega
        · exact .inl hold
      · right
        omega

theorem upper_behind {s : Str} (hs : 0 ∉ s) (hmem : d.mem = front ++ (s ++ 0 :: tail)) :
    ∃ stores, d.upper front.length =
        { d with mem := front ++ (s.map toupper ++ 0 :: tail), stores := stores } ∧
      ∀ i ∈ stores, i ∈ d.stores ∨ i < front.length + s.length := by
  apply upperLoop_behind hs _ hmem
  rw [hmem]
  simp only [List.length_append, List.length_cons]
  omega

/-- `strchr` looks at the part only. -/
theorem strchrAt_behind {s : Str} (hs : 0 ∉ s) (c : UInt8) :
    strchrAt (front ++ (s ++ 0 :: tail)) front.length c = (s.idxOf? c).map (front.length + ·) := by
  rw [strchrAt, cstr_behind hs]

theorem idxOf?_append_cons {key : Str} {c : UInt8} (hkey : c ∉ key) (value : Str) :
    (key ++ c :: value).idxOf? c = some key.length := by
  refine List.idxOf?_eq_some_iff.mpr ⟨by simp, by simp, fun j hj ↦ ?_⟩
  rw [List.getElem_append_left hj]
  exact ne_of_mem_of_not_mem (List.getElem_mem hj) hkey

variable {heap : Nat → Bool} {wait : Nat}

def runPart (heap : Nat → Bool) (wait : Nat) (s : Strings) (part : Str) : Option Strings :=
  match partClaim part with
  | none => some s
  | some (f, value) => s.storeValue heap wait f value

/-- How far a part has been worked on: what stands behind it is as it was. -/
structure Within (front tail part : List UInt8) (d d' : Parsing) : Prop where
  mem : ∃ part', part'.length = part.length ∧ d'.mem = front ++ (part' ++ 0 :: tail)
  stores : ∀ i ∈ d'.stores, i ∈ d.stores ∨ i < front.length + part.length

theorem takeKey_behind {key value : Str} (hkey : 0 ∉ key) (hvalue : 0 ∉ value)
    (hmem : d.mem = front ++ ((key ++ chr ':' :: value) ++ 0 :: tail)) :
    ∃ g : Strings → Parsing,
      d.takeKey heap wait front.length (front.length + key.length) =
        (match (fieldOf (key.map toupper)).map fun f ↦ (f, value) with
          | none => some d.strings
          | some (f, value) => d.strings.storeValue heap wait f value).map g ∧
      ∀ t, (g t).strings = t ∧ Within front tail (key ++ chr ':' :: value) d (g t) := by
  have hlength : (key ++ chr ':' :: value).length = key.length + 1 + value.length := by
    rw [List.length_append, List.length_cons]
    omega
  -- the colon is cut off, then the key is put into capitals
  have hcut : (d.storeAt (front.length + key.length) 0).mem =
      front ++ (key ++ 0 :: (value ++ 0 :: tail)) := by
    show d.mem.set _ _ = _
    rw [hmem, List.append_assoc, List.cons_append]
    exact set_behind front key _ _ _
  obtain ⟨stores, hupper, hstores⟩ := upper_behind hkey hcut
  have hbound : ∀ i ∈ stores, i ∈ d.stores ∨
      i < front.length + (key.length + 1 + value.length) := by
    intro i hi
    rcases hstores i hi with hold | hnew
    · rcases List.mem_cons.mp hold with hcolon | hold
      · right
        omega
      · exact .inl hold
    · right
      omega
  have hfront : front.length + key.length + 1 = (front ++ key.map toupper ++ [0]).length := by
    simp only [List.length_append, List.length_map, List.length_cons, List.length_nil]
  have hbehind : front ++ (key.map toupper ++ 0 :: (value ++ 0 :: tail)) =
      (front ++ key.map toupper ++ [0]) ++ (value ++ 0 :: tail) := by
    simp only [List.append_assoc, List.cons_append, List.nil_append]
  have hpart : (key.map toupper ++ 0 :: value).length = key.length + 1 + value.length := by
    rw [List.length_append, List.length_map, List.length_cons]
    omega
  have hwhole : front ++ (key.map toupper ++ 0 :: (value ++ 0 :: tail)) =
      front ++ ((key.map toupper ++ 0 :: value) ++ 0 :: tail) := by
    rw [List.append_assoc, List.cons_append]
  rw [takeKey, hupper]
  dsimp only
  rw [cstr_behind (zero_not_mem_map_toupper hkey)]
  cases hfield : fieldOf (key.map toupper) with
  | none =>
    refine ⟨fun t ↦ { d with
      mem := front ++ (key.map toupper ++ 0 :: (value ++ 0 :: tail))
      stores := stores
      strings := t }, rfl, fun t ↦ ⟨rfl, ⟨_, ?_, hwhole⟩, ?_⟩⟩
    · rw [hpart, hlength]
    · rw [hlength]
      exact hbound
  | some f =>
    dsimp only [Option.map_some]
    rw [hbehind, hfront, cstr_behind hvalue]
    have hsame : (d.storeAt (front.length + key.length) 0).strings = d.strings := rfl
    rw [hsame]
    by_cases hf : f = .commandSet
    · -- the value is put into capitals too, behind the block's copy
      simp only [if_pos hf]
      refine ⟨_, rfl, fun t ↦ ?_⟩
      obtain ⟨stores', hupper', hstores'⟩ := @upper_behind
        { d with
          mem := (front ++ key.map toupper ++ [0]) ++ (value ++ 0 :: tail)
          stores := stores
          strings := t }
        (front ++ key.map toupper ++ [0]) tail value hvalue rfl
      have hmem' : (front ++ key.map toupper ++ [0]) ++ (value.map toupper ++ 0 :: tail) =
          front ++ ((key.map toupper ++ 0 :: value.map toupper) ++ 0 :: tail) := by
        simp only [List.append_assoc, List.cons_append, List.nil_append]
      have hpart' : (key.map toupper ++ 0 :: value.map toupper).length =
          (key ++ chr ':' :: value).length := by
        simp only [List.length_append, List.length_cons, List.length_map]
      refine ⟨congrArg strings hupper', ⟨_, hpart', (congrArg mem hupper').trans hmem'⟩, ?_⟩
      intro i hi
      have hi : i ∈ stores' := (congrArg (i ∈ Parsing.stores ·) hupper').mp hi
      rw [hlength]
      rcases hstores' i hi with hold | hnew
      · exact hbound i hold
      · rw [← hfront] at hnew
        right
        omega
    · simp only [if_neg hf]
      refine ⟨_, rfl, fun t ↦ ⟨rfl, ⟨key.map toupper ++ 0 :: value, ?_, ?_⟩, ?_⟩⟩
      · rw [hpart, hlength]
      · exact hbehind.symm.trans hwhole
      · rw [hlength]
        exact hbound

/-- One part: its claim is served, and what stands behind it stays. -/
theorem part_behind {part : Str} (hpart : 0 ∉ part)
    (hmem : d.mem = front ++ (part ++ 0 :: tail)) :
    ∃ g : Strings → Parsing,
      d.takePart heap wait front.length = (runPart heap wait d.strings part).map g ∧
      ∀ t, (g t).strings = t ∧ Within front tail part d (g t) := by
  have hstrchr := @strchrAt_behind front tail part hpart (chr ':')
  rw [← hmem] at hstrchr
  have hsplit := List.takeWhile_append_dropWhile (p := (· ≠ chr ':')) (l := part)
  rw [takePart, runPart, partClaim]
  cases hdrop : part.dropWhile (· ≠ chr ':') with
  | nil =>
    have hnot : chr ':' ∉ part := by
      intro h
      have hall := List.dropWhile_eq_nil_iff.mp hdrop _ h
      simp at hall
    rw [List.idxOf?_eq_none_iff.mpr hnot] at hstrchr
    rw [hstrchr]
    exact ⟨fun t ↦ { d with strings := t }, rfl, fun t ↦
      ⟨rfl, ⟨part, rfl, hmem⟩, fun i hi ↦ .inl hi⟩⟩
  | cons c value =>
    have hcolon : c = chr ':' := by
      have hhead := List.head?_dropWhile_not (· ≠ chr ':') part
      rw [hdrop] at hhead
      simpa using hhead
    have hkey : chr ':' ∉ part.takeWhile (· ≠ chr ':') := by
      intro h
      have htake := List.mem_takeWhile_imp h
      simp at htake
    rw [hdrop, hcolon] at hsplit
    generalize part.takeWhile (· ≠ chr ':') = key at hsplit hkey
    subst hsplit
    rw [idxOf?_append_cons hkey] at hstrchr
    rw [hstrchr]
    have hzero : 0 ∉ key ∧ 0 ∉ value := by
      simp only [List.mem_append, List.mem_cons, not_or] at hpart
      exact ⟨hpart.1, hpart.2.2⟩
    exact takeKey_behind hzero.1 hzero.2 hmem

end Parsing

/-! ## All the parts -/

theorem pieces_of_not_mem {s : Str} (hs : chr ';' ∉ s) : pieces s = [s] := by
  induction s with
  | nil => rfl
  | cons c s ih =>
    obtain ⟨hc, hs⟩ := not_or.mp (List.mem_cons.not.mp hs)
    rw [pieces, if_neg (Ne.symm hc), ih hs]

theorem pieces_append {part : Str} (hpart : chr ';' ∉ part) (rest : Str) :
    pieces (part ++ chr ';' :: rest) = part :: pieces rest := by
  induction part with
  | nil => rw [List.nil_append, pieces, if_pos rfl]
  | cons c part ih =>
    obtain ⟨hc, hpart⟩ := not_or.mp (List.mem_cons.not.mp hpart)
    rw [List.cons_append, pieces, if_neg (Ne.symm hc), ih hpart]

variable {heap : Nat → Bool} {wait : Nat}

theorem runClaims_cons (s : Strings) (part : Str) (parts : List Str) :
    Strings.runClaims heap wait s ((part :: parts).filterMap partClaim) =
      (Parsing.runPart heap wait s part).bind
        (Strings.runClaims heap wait · (parts.filterMap partClaim)) := by
  rw [List.filterMap_cons, Parsing.runPart]
  cases partClaim part with
  | none => rfl
  | some c => rfl

namespace Parsing

variable {d d' : Parsing} {front tail : List UInt8}

theorem turn_last {s : Str} (hs : 0 ∉ s) (hlast : chr ';' ∉ s)
    (hmem : d.mem = front ++ (s ++ 0 :: tail)) :
    ∃ g : Strings → Parsing, d.turn heap wait front.length =
        (runPart heap wait d.strings s).map (fun t ↦ (g t, none)) ∧
      ∀ t, (g t).strings = t ∧ Within front tail s d (g t) := by
  obtain ⟨g, hpart, hg⟩ := @part_behind d front tail heap wait s hs hmem
  have hsemi := @strchrAt_behind front tail s hs (chr ';')
  rw [← hmem, List.idxOf?_eq_none_iff.mpr hlast] at hsemi
  refine ⟨g, ?_, hg⟩
  rw [turn, hsemi]
  dsimp only [Option.map_none]
  rw [hpart, Option.map_map]
  rfl

theorem turn_cons {part rest : Str} (hs : 0 ∉ part ++ chr ';' :: rest) (hpart : chr ';' ∉ part)
    (hmem : d.mem = front ++ ((part ++ chr ';' :: rest) ++ 0 :: tail)) :
    ∃ g : Strings → Parsing, d.turn heap wait front.length =
        (runPart heap wait d.strings part).map
          (fun t ↦ (g t, some (front.length + part.length + 1))) ∧
      ∀ t, (g t).strings = t ∧ Within front (rest ++ 0 :: tail) part
        (d.storeAt (front.length + part.length) 0) (g t) := by
  have hsemi := @strchrAt_behind front tail (part ++ chr ';' :: rest) hs (chr ';')
  rw [← hmem, idxOf?_append_cons hpart] at hsemi
  have hcut : (d.storeAt (front.length + part.length) 0).mem =
      front ++ (part ++ 0 :: (rest ++ 0 :: tail)) := by
    show d.mem.set _ _ = _
    rw [hmem, List.append_assoc, List.cons_append]
    exact set_behind front part _ _ _
  have hzero : 0 ∉ part := fun h ↦ hs (List.mem_append_left _ h)
  obtain ⟨g, hkey, hg⟩ := @part_behind _ _ _ heap wait _ hzero hcut
  refine ⟨g, ?_, hg⟩
  rw [turn, hsemi]
  dsimp only [Option.map_some]
  rw [hkey, Option.map_map]
  rfl

theorem parseLoop_none (fuel : Nat) (d : Parsing) : parseLoop heap wait fuel d none = some d := by
  cases fuel with
  | zero => rfl
  | succ fuel => rfl

/-- The whole loop serves the claims of the string, and ends when the string is shorter than its
fuel. -/
theorem parseLoop_behind {s : Str} (hs : 0 ∉ s) {fuel : Nat} (hfuel : s.length < fuel)
    (hmem : d.mem = front ++ (s ++ 0 :: tail)) :
    ∃ g : Strings → Parsing, parseLoop heap wait fuel d (some front.length) =
        (Strings.runClaims heap wait d.strings ((pieces s).filterMap partClaim)).map g ∧
      ∀ t, (g t).strings = t ∧ ∀ i ∈ (g t).stores, i ∈ d.stores ∨ i < front.length + s.length := by
  induction fuel generalizing s d front with
  | zero => exact absurd hfuel (Nat.not_lt_zero _)
  | succ fuel ih =>
    by_cases hlast : chr ';' ∈ s
    · obtain ⟨part, rest, rfl, hpart⟩ := List.eq_append_cons_of_mem hlast
      obtain ⟨g, hturn, hg⟩ := @turn_cons heap wait d front tail part rest hs hpart hmem
      rw [parseLoop, hturn, pieces_append hpart, runClaims_cons]
      have hlength : (part ++ chr ';' :: rest).length = part.length + 1 + rest.length := by
        rw [List.length_append, List.length_cons]
        omega
      rw [hlength] at hfuel ⊢
      cases runPart heap wait d.strings part with
      | none =>
        exact ⟨fun t ↦ { d with strings := t }, rfl, fun t ↦ ⟨rfl, fun i hi ↦ .inl hi⟩⟩
      | some t =>
        obtain ⟨hstrings, ⟨part', hpart', hmem'⟩, hstores⟩ := hg t
        have hmem'' : (g t).mem = (front ++ part' ++ [0]) ++ (rest ++ 0 :: tail) := by
          rw [hmem']
          simp only [List.append_assoc, List.cons_append, List.nil_append]
        have hfront : (front ++ part' ++ [0]).length = front.length + part.length + 1 := by
          rw [List.length_append, List.length_append, hpart']
          rfl
        have hrest : 0 ∉ rest := fun h ↦
          hs (List.mem_append_right _ (List.mem_cons_of_mem _ h))
        obtain ⟨g', hloop, hg'⟩ := ih hrest (by omega) hmem''
        rw [hfront, hstrings] at hloop
        rw [hfront] at hg'
        refine ⟨g', hloop, fun u ↦ ⟨(hg' u).1, fun i hi ↦ ?_⟩⟩
        rcases (hg' u).2 i hi with hold | hnew
        · rcases hstores i hold with hold | hnew
          · rcases List.mem_cons.mp hold with hsemi | hold
            · right
              omega
            · exact .inl hold
          · right
            omega
        · right
          omega
    · obtain ⟨g, hturn, hg⟩ := @turn_last heap wait d front tail s hs hlast hmem
      refine ⟨g, ?_, fun t ↦ ⟨(hg t).1, (hg t).2.stores⟩⟩
      rw [parseLoop, hturn, pieces_of_not_mem hlast, runClaims_cons]
      cases runPart heap wait d.strings s with
      | none => rfl
      | some t => exact parseLoop_none fuel (g t)

end Parsing

/-! ## The parse -/

theorem cstr_append_zero (buffer : List UInt8) :
    0 ∉ cstr (buffer ++ [0]) 0 ∧ ∃ tail, buffer ++ [0] = cstr (buffer ++ [0]) 0 ++ 0 :: tail := by
  rw [cstr, List.drop_zero]
  refine ⟨fun h ↦ by simpa using List.mem_takeWhile_imp h, ?_⟩
  have hsplit := List.takeWhile_append_dropWhile (p := (· ≠ (0 : UInt8))) (l := buffer ++ [0])
  cases hdrop : (buffer ++ [0]).dropWhile (· ≠ (0 : UInt8)) with
  | nil =>
    have hall := List.dropWhile_eq_nil_iff.mp hdrop 0 (List.mem_append_right _ List.mem_cons_self)
    simp at hall
  | cons c tail =>
    have hhead := List.head?_dropWhile_not (· ≠ (0 : UInt8)) (buffer ++ [0])
    rw [hdrop] at hhead
    have hc : c = 0 := by simpa using hhead
    rw [hdrop, hc] at hsplit
    exact ⟨tail, hsplit.symm⟩

/-- What the parse of a buffer gives, with enough turns for its string. -/
theorem parseDeviceId_eq (buffer : List UInt8) {fuel : Nat} (hfuel : buffer.length < fuel) :
    ∃ g : Strings → Parsing, parseDeviceId heap wait fuel buffer =
        (Strings.runClaims heap wait .empty (claims (cstr (buffer ++ [0]) 0))).map g ∧
      ∀ t, (g t).strings = t ∧ ∀ i ∈ (g t).stores, i < (cstr (buffer ++ [0]) 0).length := by
  obtain ⟨hzero, tail, hsplit⟩ := cstr_append_zero buffer
  have hlength : (cstr (buffer ++ [0]) 0).length < fuel := by
    have hle := congrArg List.length hsplit
    simp only [List.length_append, List.length_cons, List.length_nil] at hle
    omega
  obtain ⟨g, hloop, hg⟩ := @Parsing.parseLoop_behind heap wait
    ⟨buffer ++ [0], [], 0, .empty⟩ [] tail _ hzero fuel hlength hsplit
  refine ⟨g, hloop, fun t ↦ ⟨(hg t).1, fun i hi ↦ ?_⟩⟩
  rcases (hg t).2 i hi with hold | hnew
  · exact absurd hold List.not_mem_nil
  · simpa using hnew

theorem good_empty (all : List (Field × Str)) : Strings.Good all all .empty := by
  constructor
  · exact List.nodup_nil
  · exact fun n hn ↦ absurd hn List.not_mem_nil
  · exact fun n hn ↦ absurd hn List.not_mem_nil
  · exact fun n hn ↦ absurd hn List.not_mem_nil
  · exact fun f n hn ↦ nomatch hn
  · exact fun f n hn ↦ nomatch hn

theorem Strings.Good.released {all : List (Field × Str)} {s : Strings} (hs : Good all [] s) :
    (prnFreeDeviceInfo s).live = [] := by
  apply List.eq_nil_iff_forall_not_mem.mpr
  intro n hn
  obtain ⟨hlive, hfield⟩ := (mem_prnFreeDeviceInfo hs.nodup).mp hn
  obtain ⟨f, hf⟩ := hs.owned n hlive
  exact hfield f hf

/-- A tame id is parsed as it should be, however long `mallocw` may wait. -/
theorem contained_of_tame {buffer : List UInt8}
    (htame : Tame heap 0 (claims (cstr (buffer ++ [0]) 0))) {fuel : Nat}
    (hfuel : buffer.length < fuel) :
    ∃ d, parseDeviceId heap wait fuel buffer = some d ∧
      Contained (cstr (buffer ++ [0]) 0) d := by
  obtain ⟨g, hparse, hg⟩ := @parseDeviceId_eq heap wait buffer fuel hfuel
  obtain ⟨t, hrun, hgood⟩ := @Strings.Good.run heap wait _ _ _
    (good_empty (claims (cstr (buffer ++ [0]) 0))) (fun c hc ↦ hc) htame
  obtain ⟨hstrings, hstores⟩ := hg t
  refine ⟨g t, by rw [hparse, hrun]; rfl, ⟨hstores, ?_, ?_, ?_, ?_⟩⟩
  · rw [hstrings]
    intro n hn
    obtain ⟨hwrote, hsize⟩ := hgood.block n hn
    exact Nat.le_of_eq (hwrote.trans hsize.symm)
  · rw [hstrings]
    intro n hn
    exact Nat.le_of_eq (hgood.block n hn).2.symm
  · rw [hstrings]
    exact hgood.valid
  · rw [hstrings]
    exact hgood.released

/-- Any other id, if its parse ends, has written beyond a block or has lost one. -/
theorem not_contained {buffer : List UInt8}
    (htame : ¬Tame heap 0 (claims (cstr (buffer ++ [0]) 0))) {fuel : Nat}
    (hfuel : buffer.length < fuel) {d : Parsing}
    (hparse : parseDeviceId heap wait fuel buffer = some d) :
    ¬Contained (cstr (buffer ++ [0]) 0) d := by
  intro hd
  obtain ⟨g, heq, hg⟩ := @parseDeviceId_eq heap wait buffer fuel hfuel
  rw [heq] at hparse
  obtain ⟨t, hrun, rfl⟩ := Option.map_eq_some_iff.mp hparse
  have hfields (f : Field) (m : Nat) (hm : Strings.empty.field f = some m) :
      m < Strings.empty.calls := nomatch hm
  obtain ⟨n, hlive, -, hbroken⟩ := Strings.broken_of_not_tame hfields htame hrun
  have hstrings := (hg t).1
  rcases hbroken with hbeyond | hlost
  · have hwithin := hd.inBlocks n (hstrings.symm ▸ hlive)
    rw [hstrings] at hwithin
    omega
  · have hleft := Strings.mem_released_of_lost hlive hlost
    rw [← hstrings, hd.released] at hleft
    exact absurd hleft List.not_mem_nil

/-- For every device id and all answers of `malloc`. -/
theorem parse_contained_iff (heap : Nat → Bool) (buffer : List UInt8) :
    (∃ n, ∀ wait ≥ n, ∀ fuel ≥ n, ∃ d, parseDeviceId heap wait fuel buffer = some d ∧
      Contained (cstr (buffer ++ [0]) 0) d) ↔
    Tame heap 0 (claims (cstr (buffer ++ [0]) 0)) := by
  constructor
  · rintro ⟨n, hparse⟩
    by_contra htame
    obtain ⟨d, heq, hd⟩ := hparse (n + buffer.length + 1) (by omega) (n + buffer.length + 1)
      (by omega)
    exact not_contained htame (by omega) heq hd
  · intro htame
    refine ⟨buffer.length + 1, fun wait _ fuel hfuel ↦ ?_⟩
    exact contained_of_tame htame hfuel

/-- A manufacturer that is given twice. -/
theorem manufacturer_lost : ¬∀ (heap : Nat → Bool) (buffer : List UInt8),
    ∃ n, ∀ wait ≥ n, ∀ fuel ≥ n, ∃ d, parseDeviceId heap wait fuel buffer = some d ∧
      Contained (cstr (buffer ++ [0]) 0) d := by
  intro h
  obtain ⟨n, hparse⟩ := h (fun _ ↦ true) (bytes "MFG:A;MFG:B")
  obtain ⟨d, heq, hd⟩ := hparse (n + 12) (by omega) (n + 12) (by omega)
  have hclaims : claims (cstr (bytes "MFG:A;MFG:B" ++ [0]) 0) =
      [(.manufacture, bytes "A"), (.manufacture, bytes "B")] := by
    decide +kernel
  have htame : ¬Tame (fun _ ↦ true) 0 (claims (cstr (bytes "MFG:A;MFG:B" ++ [0]) 0)) := by
    rw [hclaims]
    intro htame
    simp [Tame] at htame
  have hlength : (bytes "MFG:A;MFG:B").length = 11 := by decide +kernel
  exact not_contained htame (by omega) heq hd

end PrintServer.Usb
