import PrintServer.Http.CString
import PrintServer.Lib.Scan
import Mathlib.Data.List.TakeWhile

/-!
# The table of the file servers

`EEPROMInit` (eeprom.c) counts the names that are packed into `FileServerNames` and keeps where
each begins.  The field is the front of the memory that the loop goes through.
-/

namespace PrintServer.Novell

open Lib Http

/-- `MAX_FS` -/
def maxFS : Nat := 64

/-- `LENGTH_OF_FS_NAMES` -/
def lengthOfFSNames : Nat := 254

/-- What the loop has counted. -/
structure FileServers where
  fsNameTotalLen : UInt16
  serviceFSCount : UInt16
  offsetOfFSName : Nat → UInt16

def FileServers.count (r : FileServers) (fsNameLen : UInt16) : FileServers :=
  { offsetOfFSName := Function.update r.offsetOfFSName r.serviceFSCount.toNat r.fsNameTotalLen
    fsNameTotalLen := r.fsNameTotalLen + (fsNameLen + 1)
    serviceFSCount := r.serviceFSCount + 1 }

/-- The loop with its pointer at `pos`, `s` being the memory from there on: the offsets that it
reads, and what it leaves unless it runs out of the memory. -/
def fileServerLoop (pos : Nat) (s : List UInt8) (r : FileServers) :
    List Nat × Option FileServers :=
  match s with
  | [] => ([pos], none)
  | c :: t =>
      if c = 0 then ([pos], some r)
      else
        let name := (c :: t).takeWhile (· ≠ 0)
        let reads := pos :: scanned (· ≠ 0) pos (c :: t)
        if name.length = t.length + 1 then (reads, none)
        else
          let fsNameLen := UInt16.ofNat name.length
          let next := fsNameLen.toNat + 1
          let l := fileServerLoop (pos + next) (t.drop (next - 1)) (r.count fsNameLen)
          (reads ++ l.1, l.2)
termination_by s.length
decreasing_by simp only [List.length_drop, List.length_cons]; omega

/-- The loop over a field with `behind` behind it, `table` being what the table holds before. -/
def countFileServers (names : Vector UInt8 lengthOfFSNames) (behind : List UInt8)
    (table : Nat → UInt16) : List Nat × Option FileServers :=
  fileServerLoop 0 (names.toList ++ behind) ⟨0, 0, table⟩

/-! ## The property -/

/-- The offset of a name, the names being counted from 0. -/
def nameOffset (s : List UInt8) : Nat → Nat
  | 0 => 0
  | i + 1 => (cstr s 0).length + 1 + nameOffset (s.drop ((cstr s 0).length + 1)) i

/-- The loop reads inside the field and ends with the offsets of at most `MAX_FS` names, behind
which there is an empty one. -/
structure CountsInside (names : Vector UInt8 lengthOfFSNames) (behind : List UInt8)
    (table : Nat → UInt16) : Prop where
  reads : ∀ i ∈ (countFileServers names behind table).1, i < lengthOfFSNames
  counted : ∃ r, (countFileServers names behind table).2 = some r ∧
    r.serviceFSCount.toNat ≤ maxFS ∧
    (∀ i < r.serviceFSCount.toNat,
      (r.offsetOfFSName i).toNat = nameOffset names.toList i ∧
        cstr names.toList (nameOffset names.toList i) ≠ []) ∧
    names.toList[nameOffset names.toList r.serviceFSCount.toNat]? = some 0

/-- Names with their NULs. -/
def packed (l : List Str) : List UInt8 := l.flatMap (· ++ [0])

def IsName (n : Str) : Prop := n ≠ [] ∧ 0 ∉ n

/-- The field begins with at most `MAX_FS` names and the empty one behind them. -/
def ListsServers (s : List UInt8) : Prop :=
  ∃ l rest, l.length ≤ maxFS ∧ (∀ n ∈ l, IsName n) ∧ s = packed l ++ 0 :: rest

variable {n : Str} {l : List Str} {s rest front behind : List UInt8} {r t : FileServers}
  {pos : Nat}

/-! ## Names -/

theorem cstr_name (hn : 0 ∉ n) (s : List UInt8) : cstr (n ++ 0 :: s) 0 = n := by
  change (n ++ 0 :: s).takeWhile (fun c ↦ decide (c ≠ 0)) = n
  rw [List.takeWhile_append_of_pos, List.takeWhile_cons_of_neg (by simp), List.append_nil]
  intro c hc
  exact decide_eq_true fun hzero ↦ hn (hzero ▸ hc)

theorem drop_name (n : Str) (s : List UInt8) : (n ++ 0 :: s).drop (n.length + 1) = s := by
  rw [List.drop_length_add_append]
  rfl

theorem packed_cons (n : Str) (l : List Str) (rest : List UInt8) :
    packed (n :: l) ++ 0 :: rest = n ++ 0 :: (packed l ++ 0 :: rest) := by
  rw [packed, List.flatMap_cons, List.append_assoc, List.append_assoc]
  rfl

theorem length_packed_cons (n : Str) (l : List Str) :
    (packed (n :: l)).length = n.length + 1 + (packed l).length := by
  rw [packed, List.flatMap_cons, List.length_append, List.length_append]
  rfl

/-- The first names begin where the names before them end. -/
theorem nameOffset_cons (hn : 0 ∉ n) (s : List UInt8) (i : Nat) :
    nameOffset (n ++ 0 :: s) (i + 1) = n.length + 1 + nameOffset s i := by
  rw [nameOffset, cstr_name hn, drop_name]

/-- What is at an offset behind the first name. -/
theorem drop_behind_name (n : Str) (s : List UInt8) (k : Nat) :
    (n ++ 0 :: s).drop (n.length + 1 + k) = s.drop k := by
  rw [← List.drop_drop, drop_name]

/-- What is behind the names has no part in their offsets. -/
theorem nameOffset_rest (hl : ∀ n ∈ l, IsName n) {i : Nat} (hi : i ≤ l.length)
    (rest rest' : List UInt8) :
    nameOffset (packed l ++ 0 :: rest) i = nameOffset (packed l ++ 0 :: rest') i := by
  induction l generalizing i with
  | nil =>
      obtain rfl := Nat.le_zero.mp hi
      rfl
  | cons n l ih =>
      obtain ⟨hn, hl⟩ := List.forall_mem_cons.mp hl
      cases i with
      | zero => rfl
      | succ i =>
          rw [packed_cons, packed_cons, nameOffset_cons hn.2, nameOffset_cons hn.2,
            ih hl (Nat.le_of_succ_le_succ hi)]

theorem names_packed (hl : ∀ n ∈ l, IsName n) (rest : List UInt8) :
    (∀ i < l.length, cstr (packed l ++ 0 :: rest) (nameOffset (packed l ++ 0 :: rest) i) ≠ []) ∧
      (packed l ++ 0 :: rest)[nameOffset (packed l ++ 0 :: rest) l.length]? = some 0 := by
  induction l with
  | nil => exact ⟨fun i hi ↦ absurd hi (Nat.not_lt_zero i), rfl⟩
  | cons n l ih =>
      obtain ⟨hn, hl⟩ := List.forall_mem_cons.mp hl
      obtain ⟨hnames, hend⟩ := ih hl
      rw [packed_cons]
      constructor
      · intro i hi
        cases i with
        | zero =>
            rw [nameOffset, cstr_name hn.2]
            exact hn.1
        | succ i =>
            have hname := hnames i (Nat.lt_of_succ_lt_succ hi)
            unfold cstr at hname ⊢
            rwa [nameOffset_cons hn.2, drop_behind_name]
      · rw [List.length_cons, nameOffset_cons hn.2, ← List.getElem?_drop, drop_name]
        exact hend

/-! ## The loop -/

theorem fileServerLoop_end : fileServerLoop pos (0 :: s) r = ([pos], some r) := by
  unfold fileServerLoop
  rw [if_pos rfl]

/-- A turn of the loop over a name. -/
theorem fileServerLoop_name (hn : IsName n) (hlen : n.length < 65536) :
    fileServerLoop pos (n ++ 0 :: s) r =
      (pos :: List.range' pos (n.length + 1) ++
          (fileServerLoop (pos + (n.length + 1)) s (r.count (UInt16.ofNat n.length))).1,
        (fileServerLoop (pos + (n.length + 1)) s (r.count (UInt16.ofNat n.length))).2) := by
  obtain ⟨c, n, rfl⟩ := List.exists_cons_of_ne_nil hn.1
  have htake : (c :: (n ++ 0 :: s)).takeWhile (fun c ↦ decide (c ≠ 0)) = c :: n :=
    cstr_name hn.2 s
  have hc : c ≠ 0 := fun hzero ↦ hn.2 (hzero ▸ List.mem_cons_self)
  rw [List.cons_append, fileServerLoop, if_neg hc]
  simp only [scanned, htake]
  rw [if_neg (by simp), UInt16.toNat_ofNat_of_lt' hlen,
    show (n ++ 0 :: s).drop ((c :: n).length + 1 - 1) = s from drop_name n s]

/-- What the loop has counted behind the names `l`, which `r` did not count. -/
structure Counted (r : FileServers) (l : List Str) (s : List UInt8) (t : FileServers) : Prop where
  count : t.serviceFSCount.toNat = r.serviceFSCount.toNat + l.length
  before : ∀ j < r.serviceFSCount.toNat, t.offsetOfFSName j = r.offsetOfFSName j
  behind : ∀ i < l.length, (t.offsetOfFSName (r.serviceFSCount.toNat + i)).toNat =
    r.fsNameTotalLen.toNat + nameOffset s i

theorem toNat_count (r : FileServers) {k : Nat} (hcount : r.serviceFSCount.toNat + 1 < 65536)
    (hlen : r.fsNameTotalLen.toNat + (k + 1) < 65536) :
    (r.count (UInt16.ofNat k)).serviceFSCount.toNat = r.serviceFSCount.toNat + 1 ∧
      (r.count (UInt16.ofNat k)).fsNameTotalLen.toNat = r.fsNameTotalLen.toNat + (k + 1) := by
  constructor
  · show (r.serviceFSCount + 1).toNat = _
    rw [UInt16.toNat_add]
    exact Nat.mod_eq_of_lt hcount
  · show (r.fsNameTotalLen + (UInt16.ofNat k + 1)).toNat = _
    rw [show UInt16.ofNat k + 1 = UInt16.ofNat (k + 1) from (UInt16.ofNat_add k 1).symm,
      UInt16.toNat_add, UInt16.toNat_ofNat_of_lt' (show k + 1 < 65536 by omega)]
    exact Nat.mod_eq_of_lt hlen

/-- The loop over names with an empty one behind them. -/
theorem fileServerLoop_packed (pos : Nat) (rest : List UInt8) (hl : ∀ n ∈ l, IsName n)
    (hlen : r.fsNameTotalLen.toNat + (packed l).length < 65536)
    (hcount : r.serviceFSCount.toNat + l.length < 65536) :
    (∀ i ∈ (fileServerLoop pos (packed l ++ 0 :: rest) r).1, i ≤ pos + (packed l).length) ∧
      ∃ t, (fileServerLoop pos (packed l ++ 0 :: rest) r).2 = some t ∧
        Counted r l (packed l ++ 0 :: rest) t := by
  induction l generalizing pos r with
  | nil =>
      rw [packed, List.flatMap_nil, List.nil_append, fileServerLoop_end]
      refine ⟨fun i hi ↦ ?_, r, rfl, rfl, fun j _ ↦ rfl, fun i hi ↦ absurd hi (Nat.not_lt_zero i)⟩
      rw [List.mem_singleton.mp hi]
      exact Nat.le_add_right _ _
  | cons n l ih =>
      obtain ⟨hn, hl⟩ := List.forall_mem_cons.mp hl
      rw [length_packed_cons] at hlen
      rw [List.length_cons] at hcount
      obtain ⟨hone, htotal⟩ := toNat_count r (k := n.length) (by omega) (by omega)
      obtain ⟨hreads, t, ht, hcounted⟩ := @ih (r.count (UInt16.ofNat n.length))
        (pos + (n.length + 1)) hl (by omega) (by omega)
      rw [packed_cons, fileServerLoop_name hn (by omega), length_packed_cons]
      constructor
      · intro i hi
        rcases List.mem_append.mp hi with hi | hi
        · rcases List.mem_cons.mp hi with rfl | hi
          · omega
          · rw [List.mem_range'_1] at hi
            omega
        · have hle := hreads i hi
          omega
      · refine ⟨t, ht, ?_, ?_, ?_⟩
        · rw [hcounted.count, hone, List.length_cons]
          omega
        · intro j hj
          rw [hcounted.before j (by omega)]
          exact Function.update_of_ne (by omega) ..
        · intro i hi
          cases i with
          | zero =>
              rw [Nat.add_zero, hcounted.before _ (by omega), nameOffset, Nat.add_zero]
              exact congrArg UInt16.toNat (Function.update_self ..)
          | succ i =>
              have hrest := hcounted.behind i (Nat.lt_of_succ_lt_succ hi)
              rw [hone, htotal] at hrest
              rw [nameOffset_cons hn.2, show r.serviceFSCount.toNat + (i + 1) =
                r.serviceFSCount.toNat + 1 + i from by omega, hrest]
              omega

theorem name_of_dropWhile {c : UInt8} (hc : c ≠ 0)
    (hne : (c :: s).dropWhile (fun c ↦ decide (c ≠ 0)) ≠ []) :
    ∃ n rest, IsName n ∧ c :: s = n ++ 0 :: rest := by
  obtain ⟨d, rest, hdrop⟩ := List.exists_cons_of_ne_nil hne
  obtain rfl : d = 0 := by
    have hhead := List.head?_dropWhile_not (fun c ↦ decide (c ≠ 0)) (c :: s)
    rw [hdrop] at hhead
    simpa using hhead
  refine ⟨(c :: s).takeWhile fun c ↦ decide (c ≠ 0), rest, ⟨?_, ?_⟩, ?_⟩
  · rw [List.takeWhile_cons_of_pos (by simpa using hc)]
    exact List.cons_ne_nil _ _
  · intro hzero
    have hp := List.mem_takeWhile_imp hzero
    simp at hp
  · rw [← hdrop, List.takeWhile_append_dropWhile]

/-- A loop that reads inside the field only and ends has gone through its names. -/
theorem exists_names (hinside : ∀ i ∈ (fileServerLoop pos (front ++ behind) r).1,
      i < pos + front.length) (hlen : front.length < 65536) :
    ∃ l rest, (∀ n ∈ l, IsName n) ∧ front = packed l ++ 0 :: rest := by
  induction hk : front.length using Nat.strongRecOn generalizing pos front r with
  | ind k ih =>
    subst hk
    cases front with
    | nil =>
        -- the first read is behind an empty field
        have hpos : pos ∈ (fileServerLoop pos ([] ++ behind) r).1 := by
          unfold fileServerLoop
          split
          · exact List.mem_cons_self
          · split
            · exact List.mem_cons_self
            · dsimp only
              split
              · exact List.mem_cons_self
              · exact List.mem_append_left _ List.mem_cons_self
        exact absurd (hinside pos hpos) (Nat.lt_irrefl _)
    | cons c front =>
        by_cases hc : c = 0
        · subst hc
          exact ⟨[], front, fun n hn ↦ absurd hn List.not_mem_nil, rfl⟩
        have hscan : ∀ i ∈ scanned (· ≠ 0) pos (c :: front ++ behind),
            i < pos + (c :: front).length := by
          intro i hi
          apply hinside
          rw [List.cons_append, fileServerLoop, if_neg hc]
          dsimp only
          split
          · exact List.mem_cons_of_mem _ hi
          · exact List.mem_append_left _ (List.mem_cons_of_mem _ hi)
        have hstop := scanned_lt_iff.mp hscan
        have hne := stops_inside_iff.mp (Nat.lt_of_add_lt_add_left hstop)
        obtain ⟨n, front', hn, hsplit⟩ := name_of_dropWhile hc hne
        rw [hsplit] at hinside hlen ih
        rw [List.append_assoc, List.cons_append, fileServerLoop_name hn (by
          rw [List.length_append] at hlen; omega)] at hinside
        rw [List.length_append, List.length_cons] at hinside hlen ih
        obtain ⟨l, rest, hl, hfront⟩ := ih front'.length (by omega) (fun i hi ↦ by
          have hlt := hinside i (List.mem_append_right _ hi)
          omega) (by omega) rfl
        refine ⟨n :: l, rest, List.forall_mem_cons.mpr ⟨hn, hl⟩, ?_⟩
        rw [hsplit, packed_cons, hfront]

theorem length_packed_lt (names : Vector UInt8 lengthOfFSNames)
    (h : names.toList = packed l ++ 0 :: rest) : (packed l).length < lengthOfFSNames := by
  have hlen := congrArg List.length h
  rw [Vector.length_toList, List.length_append, List.length_cons] at hlen
  omega

theorem length_le_packed (l : List Str) : l.length ≤ (packed l).length := by
  induction l with
  | nil => exact Nat.le_refl _
  | cons n l ih =>
      rw [length_packed_cons, List.length_cons]
      omega

/-- What the loop makes of a field that begins with the names `l` and an empty one. -/
theorem countFileServers_packed {names : Vector UInt8 lengthOfFSNames} (hl : ∀ n ∈ l, IsName n)
    (h : names.toList = packed l ++ 0 :: rest) (behind : List UInt8) (table : Nat → UInt16) :
    (∀ i ∈ (countFileServers names behind table).1, i < lengthOfFSNames) ∧
      ∃ t, (countFileServers names behind table).2 = some t ∧
        t.serviceFSCount.toNat = l.length ∧
        ∀ i < l.length, (t.offsetOfFSName i).toNat = nameOffset names.toList i := by
  have hlen := length_packed_lt names h
  have hle := length_le_packed l
  have hmax : lengthOfFSNames < 65536 := by decide
  have hsplit : names.toList ++ behind = packed l ++ 0 :: (rest ++ behind) := by
    rw [h, List.append_assoc, List.cons_append]
  obtain ⟨hreads, t, ht, hcounted⟩ := @fileServerLoop_packed l ⟨0, 0, table⟩ 0 (rest ++ behind) hl
    (by show 0 + _ < _; omega) (by show 0 + _ < _; omega)
  rw [← hsplit] at hreads ht
  have hcount : t.serviceFSCount.toNat = 0 + l.length := hcounted.count
  refine ⟨fun i hi ↦ ?_, t, ht, by omega, fun i hi ↦ ?_⟩
  · have hi' := hreads i hi
    omega
  · have hoffset : (t.offsetOfFSName (0 + i)).toNat = 0 + _ := hcounted.behind i hi
    rw [h, nameOffset_rest hl hi.le rest (rest ++ behind)]
    rwa [Nat.zero_add, Nat.zero_add] at hoffset

theorem counts_inside_iff (names : Vector UInt8 lengthOfFSNames) (behind : List UInt8)
    (table : Nat → UInt16) : CountsInside names behind table ↔ ListsServers names.toList := by
  constructor
  · intro h
    obtain ⟨l, rest, hl, hnames⟩ := @exists_names names.toList behind ⟨0, 0, table⟩ 0 (by
      rw [Vector.length_toList, Nat.zero_add]
      exact h.reads) (by rw [Vector.length_toList]; decide)
    obtain ⟨-, t, ht, hcount, -⟩ := countFileServers_packed hl hnames behind table
    obtain ⟨t', ht', hle, -⟩ := h.counted
    obtain rfl := Option.some.inj (ht.symm.trans ht')
    exact ⟨l, rest, hcount ▸ hle, hl, hnames⟩
  · rintro ⟨l, rest, hmax, hl, hnames⟩
    obtain ⟨hreads, t, ht, hcount, hoffsets⟩ := countFileServers_packed hl hnames behind table
    refine ⟨hreads, t, ht, hcount ▸ hmax, ?_⟩
    obtain ⟨hname, hend⟩ := names_packed hl rest
    rw [hcount, hnames]
    refine ⟨fun i hi ↦ ⟨?_, hname i hi⟩, hend⟩
    rw [hoffsets i hi, hnames]

/-- A field without a NUL. -/
def unterminatedNames : Vector UInt8 lengthOfFSNames := Vector.replicate lengthOfFSNames 0x41

/-- A field with 65 names of one letter. -/
def shortNames : Vector UInt8 lengthOfFSNames :=
  ⟨(packed (List.replicate 65 [0x41]) ++ List.replicate 124 0).toArray, by decide +kernel⟩

/-- Without an end the loop goes on behind the field, and short names do not fit the table. -/
theorem names_not_inside : ¬ CountsInside unterminatedNames [0, 0] (fun _ ↦ 0) ∧
    ¬ CountsInside shortNames [0, 0] (fun _ ↦ 0) := by
  constructor
  · intro h
    obtain ⟨l, rest, -, hnames⟩ :=
      @exists_names unterminatedNames.toList [0, 0] ⟨0, 0, fun _ ↦ 0⟩ 0 (by
        rw [Vector.length_toList, Nat.zero_add]
        exact h.reads) (by rw [Vector.length_toList]; decide)
    have hzero : (0 : UInt8) ∈ unterminatedNames.toList := by
      rw [hnames]
      exact List.mem_append_right _ List.mem_cons_self
    rw [unterminatedNames, Vector.toList_replicate] at hzero
    exact absurd (List.eq_of_mem_replicate hzero) (by decide)
  · intro h
    have hnames : shortNames.toList =
        packed (List.replicate 65 [0x41]) ++ 0 :: List.replicate 123 0 := by
      show _ ++ List.replicate (123 + 1) 0 = _
      exact congrArg _ List.replicate_succ
    obtain ⟨-, t, ht, hcount, -⟩ := countFileServers_packed (by
      intro n hn
      rw [List.eq_of_mem_replicate hn]
      exact ⟨by decide, by decide⟩) hnames [0, 0] fun _ ↦ 0
    obtain ⟨t', ht', hle, -⟩ := h.counted
    obtain rfl := Option.some.inj (ht.symm.trans ht')
    rw [hcount] at hle
    exact absurd hle (by decide)

end PrintServer.Novell
