import PrintServer.Flash.Store

/-!
# What the check of an image reads

The bytes that `PSCheckImageIntegrity` and the loop of `ApUpgradeFirmware` look at.  Neither knows
how long the upload is: an image ends where its header says.
-/

namespace PrintServer.Flash

open Lib

variable {σ : Type} (chip : Chip σ) (model : UInt8)

/-- The addresses of a field. -/
def fieldReads (p size : Nat) : List Nat := (List.range size).map (p + ·)

/-- The comparisons with "XGZ", up to the first that fails. -/
def markReads (m : Memory) (p : Nat) : List Nat :=
  (p + 4) :: if m (p + 4) ≠ 0x58 then [] else
    (p + 5) :: if m (p + 5) ≠ 0x47 then [] else [p + 6]

/-- What `PSCheckImageIntegrity` reads. -/
def psCheckReads (m : Memory) (p : Nat) : List Nat :=
  let hdr := header m p
  markReads m p ++
    if hdr.mark ≠ xgz then []
    else
      (p + 34) ::
        if hdr.model ≠ model then []
        else
          let n := (hdr.fileLen + 252).toNat
          fieldReads p 4 ++ fieldReads (p + 8) 4 ++ fieldReads (p + binIdOffset) n ++
            if crc32 (readMem m (p + binIdOffset) n) ≠ hdr.crc32Chksum then [] else [p + 7]

/-- The loop of `ApUpgradeFirmware` from the header at `p`, with what it reads of the upload but for
the images that the `vProgram` functions are given. -/
def headerWalk (eeprom : EepromData) : Nat → Nat → Box σ → List Nat × Option (Bool × Box σ)
  | 0, _, _ => ([], none)
  | fuel + 1, p, b =>
      let check := psCheckReads model b.ram p
      let offset := psCheckImageIntegrity model b.ram p
      if offset = maxFlashOff then (check, some (false, b))
      else
        let kind := (p + 7) :: if (header b.ram p).bintype = allflashMark then [p + 12] else []
        if isChain b.ram p then
          -- the condition of the loop looks at `next` again
          let r := headerWalk eeprom fuel ((p + sizeofHeader) % 2 ^ 32) b
          (check ++ kind ++ [p + 12] ++ r.1, r.2)
        else
          let d := programImage chip model eeprom offset p b
          let behind := fieldReads (p + 8) 4 ++ markReads d.state.ram p ++ fieldReads (p + 8) 4 ++
            [p + 12]
          if (header d.state.ram p).next = 1 then
            let r := headerWalk eeprom fuel (advance d.state.ram p) d.state
            (check ++ kind ++ behind ++ r.1, r.2)
          else (check ++ kind ++ behind, some (true, d.state))

/-! ## The condition -/

/-- A header whose bytes lie between `lo` and `hi`, up to the first that is wrong; if none is, the
image lies there as its length says. -/
structure HeaderInside (lo hi : Nat) (m : Memory) (p : Nat) : Prop where
  first : lo ≤ p + 4 ∧ p + 4 < hi
  second : m (p + 4) = 0x58 → p + 5 < hi
  third : m (p + 4) = 0x58 → m (p + 5) = 0x47 → p + 6 < hi
  modelByte : (header m p).mark = xgz → p + 34 < hi
  image : (header m p).mark = xgz → (header m p).model = model →
    lo ≤ p ∧ p + 4 + ((header m p).fileLen + 252).toNat ≤ hi

/-- Every header of the chain is inside, as far as the loop comes in `fuel` turns. -/
def ChainInside (eeprom : EepromData) (lo hi : Nat) : Nat → Nat → Box σ → Prop
  | 0, _, _ => True
  | fuel + 1, p, b =>
      HeaderInside model lo hi b.ram p ∧
        (psCheckImageIntegrity model b.ram p ≠ maxFlashOff →
          if isChain b.ram p then
            ChainInside eeprom lo hi fuel ((p + sizeofHeader) % 2 ^ 32) b
          else
            let d := programImage chip model eeprom (psCheckImageIntegrity model b.ram p) p b
            (header d.state.ram p).next = 1 →
              ChainInside eeprom lo hi fuel (advance d.state.ram p) d.state)

/-- All addresses are between `lo` and `hi`. -/
def AllIn (lo hi : Nat) (reads : List Nat) : Prop := ∀ a ∈ reads, lo ≤ a ∧ a < hi

variable {chip model} {eeprom : EepromData} {lo hi p n : Nat} {m m' : Memory} {b : Box σ}
  {as bs : List Nat}

/-- The loop is that of `ApUpgradeFirmware`. -/
theorem headerWalk_result (fuel : Nat) : (headerWalk chip model eeprom fuel p b).2 =
    (apUpgradeFirmware chip model eeprom fuel p b).map fun r ↦ (r.1, r.2.1) := by
  induction fuel generalizing p b with
  | zero => rfl
  | succ fuel ih =>
    rw [headerWalk, apUpgradeFirmware]
    dsimp only
    split
    · rfl
    split
    · exact ih
    split
    · rw [Option.map_map]
      exact ih
    · rfl

/-! ## One header -/

theorem allIn_append : AllIn lo hi (as ++ bs) ↔ AllIn lo hi as ∧ AllIn lo hi bs :=
  List.forall_mem_append

theorem allIn_cons {a : Nat} : AllIn lo hi (a :: as) ↔ (lo ≤ a ∧ a < hi) ∧ AllIn lo hi as :=
  List.forall_mem_cons

theorem allIn_nil : AllIn lo hi [] := fun _ h ↦ absurd h List.not_mem_nil

theorem allIn_fieldReads (hn : 0 < n) :
    AllIn lo hi (fieldReads p n) ↔ lo ≤ p ∧ p + n ≤ hi := by
  constructor
  · intro h
    have hfirst := h (p + 0) (List.mem_map_of_mem (List.mem_range.mpr hn))
    have hlast := h (p + (n - 1)) (List.mem_map_of_mem (List.mem_range.mpr (by omega)))
    omega
  · intro h a ha
    obtain ⟨i, hi, rfl⟩ := List.mem_map.mp ha
    have hlt := List.mem_range.mp hi
    omega

/-- A field behind others, which may be empty. -/
theorem allIn_fieldReads_behind {k : Nat} (hlo : lo ≤ p) (hhi : p + k ≤ hi) :
    AllIn lo hi (fieldReads (p + k) n) ↔ p + k + n ≤ hi := by
  cases n with
  | zero => exact ⟨fun _ ↦ hhi, fun _ ↦ allIn_nil⟩
  | succ n =>
    rw [allIn_fieldReads (Nat.succ_pos n)]
    exact and_iff_right (Nat.le_add_right_of_le hlo)

theorem mark_eq_xgz_iff :
    (header m p).mark = xgz ↔ m (p + 4) = 0x58 ∧ m (p + 5) = 0x47 ∧ m (p + 6) = 0x5A := by
  have hmark : (header m p).mark = [m (p + 4), m (p + 5), m (p + 6)] := rfl
  rw [hmark, xgz, List.cons.injEq, List.cons.injEq, List.cons.injEq]
  simp only [and_true]

theorem allIn_markReads : AllIn lo hi (markReads m p) ↔
    (lo ≤ p + 4 ∧ p + 4 < hi) ∧ (m (p + 4) = 0x58 → p + 5 < hi) ∧
      (m (p + 4) = 0x58 → m (p + 5) = 0x47 → p + 6 < hi) := by
  rw [markReads, allIn_cons]
  refine and_congr_right fun hfirst ↦ ?_
  split
  · rename_i hx
    exact ⟨fun _ ↦ ⟨fun h ↦ absurd h hx, fun h ↦ absurd h hx⟩, fun _ ↦ allIn_nil⟩
  rename_i hx
  have hx := not_not.mp hx
  rw [allIn_cons]
  split
  · rename_i hg
    constructor
    · exact fun h ↦ ⟨fun _ ↦ h.1.2, fun _ h ↦ absurd h hg⟩
    · intro h
      have hsecond := h.1 hx
      exact ⟨by omega, allIn_nil⟩
  · rename_i hg
    have hg := not_not.mp hg
    rw [allIn_cons]
    constructor
    · exact fun h ↦ ⟨fun _ ↦ h.1.2, fun _ _ ↦ h.2.1.2⟩
    · intro h
      have hsecond := h.1 hx
      have hthird := h.2 hx hg
      exact ⟨by omega, by omega, allIn_nil⟩

/-- `PSCheckImageIntegrity` stays inside exactly where the header and its image do. -/
theorem allIn_psCheckReads :
    AllIn lo hi (psCheckReads model m p) ↔ HeaderInside model lo hi m p := by
  rw [psCheckReads]
  dsimp only
  rw [allIn_append, allIn_markReads]
  constructor
  · rintro ⟨⟨hfirst, hsecond, hthird⟩, hrest⟩
    refine ⟨hfirst, hsecond, hthird, fun hmark ↦ ?_, fun hmark hmodel ↦ ?_⟩
    · rw [if_neg (not_not.mpr hmark), allIn_cons] at hrest
      exact hrest.1.2
    · rw [if_neg (not_not.mpr hmark), allIn_cons, if_neg (not_not.mpr hmodel), allIn_append,
        allIn_append, allIn_append, allIn_fieldReads (by decide)] at hrest
      obtain ⟨-, ⟨⟨hsum, -⟩, hcrc⟩, -⟩ := hrest
      exact ⟨hsum.1, (allIn_fieldReads_behind hsum.1 hsum.2).mp hcrc⟩
  · intro h
    refine ⟨⟨h.first, h.second, h.third⟩, ?_⟩
    split
    · exact allIn_nil
    rename_i hmark
    have hmark := not_not.mp hmark
    have hmodelByte := h.modelByte hmark
    have hfirst := h.first
    rw [allIn_cons]
    refine ⟨by omega, ?_⟩
    split
    · exact allIn_nil
    rename_i hmodel
    obtain ⟨hlo, hend⟩ := h.image hmark (not_not.mp hmodel)
    rw [allIn_append, allIn_append, allIn_append, allIn_fieldReads (by decide)]
    refine ⟨⟨⟨⟨hlo, by omega⟩, ?_⟩, ?_⟩, ?_⟩
    · exact (allIn_fieldReads (by decide)).mpr ⟨by omega, by omega⟩
    · exact (allIn_fieldReads_behind (k := 4) hlo (by omega)).mpr hend
    · split
      · exact allIn_nil
      · exact allIn_cons.mpr ⟨by omega, allIn_nil⟩

/-- A header that passed the check lies inside as a whole. -/
theorem HeaderInside.passed (h : HeaderInside model lo hi m p)
    (hpassed : psCheckImageIntegrity model m p ≠ maxFlashOff) : lo ≤ p ∧ p + 34 < hi := by
  have hmark : (header m p).mark = xgz ∧ (header m p).model = model := by
    rw [psCheckImageIntegrity] at hpassed
    by_contra hwrong
    rw [if_pos (by rw [← not_and_or]; exact hwrong)] at hpassed
    exact hpassed rfl
  exact ⟨(h.image hmark.1 hmark.2).1, h.modelByte hmark.1⟩

/-- What the loop reads of a header that passed the check. -/
theorem allIn_header (hlo : lo ≤ p) (hhi : p + 34 < hi) {k : Nat} (hn : 0 < n) (hk : k + n ≤ 35) :
    AllIn lo hi (fieldReads (p + k) n) := by
  rw [allIn_fieldReads hn]
  omega

theorem allIn_kind (hlo : lo ≤ p) (hhi : p + 34 < hi) :
    AllIn lo hi ((p + 7) :: if (header m p).bintype = allflashMark then [p + 12] else []) := by
  rw [allIn_cons]
  refine ⟨by omega, ?_⟩
  split
  · exact allIn_cons.mpr ⟨by omega, allIn_nil⟩
  · exact allIn_nil

theorem allIn_behind (hlo : lo ≤ p) (hhi : p + 34 < hi) :
    AllIn lo hi (fieldReads (p + 8) 4 ++ markReads m p ++ fieldReads (p + 8) 4 ++ [p + 12]) := by
  have hlength : AllIn lo hi (fieldReads (p + 8) 4) := allIn_header hlo hhi (by decide) (by decide)
  have hmark : AllIn lo hi (markReads m p) :=
    allIn_markReads.mpr ⟨by omega, fun _ ↦ by omega, fun _ _ ↦ by omega⟩
  rw [allIn_append, allIn_append, allIn_append]
  exact ⟨⟨⟨hlength, hmark⟩, hlength⟩, allIn_cons.mpr ⟨by omega, allIn_nil⟩⟩

/-! ## The chain -/

/-- As far as it comes in `fuel` turns, the loop reads inside exactly where the chain is inside. -/
theorem allIn_headerWalk (fuel : Nat) :
    AllIn lo hi (headerWalk chip model eeprom fuel p b).1 ↔
      ChainInside chip model eeprom lo hi fuel p b := by
  induction fuel generalizing p b with
  | zero => exact iff_of_true allIn_nil trivial
  | succ fuel ih =>
    rw [headerWalk, ChainInside]
    dsimp only
    by_cases hfail : psCheckImageIntegrity model b.ram p = maxFlashOff
    · rw [if_pos hfail, allIn_psCheckReads]
      exact (and_iff_left fun hpassed ↦ absurd hfail hpassed).symm
    rw [if_neg hfail]
    by_cases hin : HeaderInside model lo hi b.ram p
    · obtain ⟨hlo, hhi⟩ := hin.passed hfail
      have hkind := @allIn_kind lo hi p b.ram hlo hhi
      have hcheck : AllIn lo hi (psCheckReads model b.ram p) := allIn_psCheckReads.mpr hin
      rw [and_iff_right hin, imp_iff_right hfail]
      split
      · rw [allIn_append, allIn_append, allIn_append, ih]
        exact and_iff_right ⟨⟨hcheck, hkind⟩, allIn_cons.mpr ⟨by omega, allIn_nil⟩⟩
      · have hbehind := @allIn_behind lo hi p
          (programImage chip model eeprom (psCheckImageIntegrity model b.ram p) p b).state.ram
            hlo hhi
        split
        · rename_i hnext
          rw [imp_iff_right hnext, allIn_append, allIn_append, allIn_append, ih]
          exact and_iff_right ⟨⟨hcheck, hkind⟩, hbehind⟩
        · rename_i hnext
          rw [allIn_append, allIn_append]
          exact iff_of_true ⟨⟨hcheck, hkind⟩, hbehind⟩ fun h ↦ absurd h hnext
    · -- the check comes first, whatever is read behind it
      have hcheck : ¬AllIn lo hi (psCheckReads model b.ram p) :=
        fun h ↦ hin (allIn_psCheckReads.mp h)
      refine iff_of_false (fun h ↦ hcheck ?_) fun h ↦ hin h.1
      split at h
      · exact (allIn_append.mp (allIn_append.mp (allIn_append.mp h).1).1).1
      split at h
      · exact (allIn_append.mp (allIn_append.mp (allIn_append.mp h).1).1).1
      · exact (allIn_append.mp (allIn_append.mp h).1).1

/-- For every upload of `len` bytes at `pData`, however many headers it has. -/
theorem reads_inside_iff (chip : Chip σ) (model : UInt8) (eeprom : EepromData) (pData len : Nat)
    (b : Box σ) :
    (∀ fuel, AllIn pData (pData + len) (headerWalk chip model eeprom fuel pData b).1) ↔
      ∀ fuel, ChainInside chip model eeprom pData (pData + len) fuel pData b :=
  forall_congr' fun fuel ↦ allIn_headerWalk fuel

/-- A header of the model 1 for 4096 bytes that did not arrive. -/
def bareHeader : Memory := fun i ↦
  ([0, 0, 0, 0, 0x58, 0x47, 0x5A, 0xB1, 0x00, 0x10, 0, 0].getD i (if i = 34 then 1 else 0))

theorem bareHeader_fields : (header bareHeader 0).mark = xgz ∧ (header bareHeader 0).model = 1 ∧
    ((header bareHeader 0).fileLen + 252).toNat = 4348 := by
  decide

theorem bare_header_read_beyond : ¬∀ (model : UInt8) (pData len : Nat) (b : Box Memory)
    (fuel : Nat), AllIn pData (pData + len) (headerWalk pageChip model zotRecord fuel pData b).1 := by
  intro h
  obtain ⟨hmark, hmodel, hlength⟩ := bareHeader_fields
  have hin := (allIn_headerWalk 1).mp (h 1 0 256 ⟨fun _ ↦ 0, bareHeader⟩ 1)
  have himage := (hin.1.image hmark hmodel).2
  have hend : 0 + 4 + ((header bareHeader 0).fileLen + 252).toNat ≤ 0 + 256 := himage
  omega

end PrintServer.Flash
