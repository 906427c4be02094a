import PrintServer.Tftp.ConfigLines
import PrintServer.Lib.Scan

/-!
# The reach of the loop that finds the lines

Only the outer of the three loops that cut the file into lines compares `CurBufPos` with `bufsize`.
-/

namespace PrintServer.Tftp

open Lib Http

/-- The indices of `configbuf` in one turn of the loop. -/
def lineIndices (curBufPos : Nat) (s : List UInt8) : List Nat :=
  scanned notEol curBufPos s ++
    scanned isEol (curBufPos + (s.takeWhile notEol).length) (s.dropWhile notEol)

/-- The loop of `cutLines`: the indices of `configbuf`, and how many entries of `LineInfo` it
writes. -/
def cutIndices (behind : Nat) : Nat → Nat → List UInt8 → List Nat × Nat
  | 0, _, _ => ([], 0)
  | n + 1, curBufPos, s =>
      if behind < s.length then
        match cutLine s with
        | none => (lineIndices curBufPos s, 1)
        | some (line, rest) =>
            let r := cutIndices behind n (curBufPos + line.length) rest
            (lineIndices curBufPos s ++ r.1, r.2 + 1)
      else ([], 0)

/-- What `ReadConfigData` uses while it cuts the file into lines. -/
def configIndices (file behind : List UInt8) : List Nat × Nat :=
  if (file ++ behind).head? = some 0 then ([], 0)
  else cutIndices behind.length (configFileLineNum + 2) 0 (file ++ behind)

/-- The indices stay in the file and the entries in `LineInfo`. -/
def CutsInside (file behind : List UInt8) : Prop :=
  (∀ i ∈ (configIndices file behind).1, i < file.length) ∧
    (configIndices file behind).2 ≤ configFileLineNum + 2

instance (file behind : List UInt8) : Decidable (CutsInside file behind) :=
  inferInstanceAs (Decidable (_ ∧ _))

variable {s rest file behind : List UInt8} {lines : List (List UInt8)} {n m pos : Nat}

/-- The entries that are written are the lines of `ReadConfigData`. -/
theorem cutIndices_lines (h : cutLines m n s = some (lines, rest)) (pos : Nat) :
    (cutIndices m n pos s).2 = lines.length := by
  induction n generalizing s lines pos with
  | zero =>
      obtain ⟨rfl, rfl⟩ := Prod.mk.inj (Option.some.inj h)
      rfl
  | succ n ih =>
      rw [cutLines] at h
      rw [cutIndices]
      split at h
      · rename_i hlt
        rw [if_pos hlt]
        cases hcut : cutLine s with
        | none =>
            rw [hcut] at h
            cases h
        | some r =>
            rw [hcut] at h
            obtain ⟨⟨lines', rest'⟩, hmore, heq⟩ := Option.map_eq_some_iff.mp h
            obtain ⟨rfl, rfl⟩ := Prod.mk.inj heq
            exact congrArg (· + 1) (ih hmore _)
      · rename_i hlt
        rw [if_neg hlt]
        obtain ⟨rfl, rfl⟩ := Prod.mk.inj (Option.some.inj h)
        rfl

theorem cutIndices_le : (cutIndices m n pos s).2 ≤ n := by
  induction n generalizing s pos with
  | zero => exact Nat.le_refl _
  | succ n ih =>
      rw [cutIndices]
      split
      · split
        · exact Nat.succ_le_succ (Nat.zero_le n)
        · exact Nat.succ_le_succ ih
      · exact Nat.zero_le _

/-- A turn stays in the file only if there is more of it behind the line. -/
theorem lineIndices_inside_iff (behind : List UInt8) (pos : Nat) :
    (∀ i ∈ lineIndices pos (s ++ behind), i < pos + s.length) ↔ behindLine s ≠ [] := by
  have hlen := congrArg List.length (List.takeWhile_append_dropWhile (p := notEol) (l := s))
  rw [List.length_append] at hlen
  rw [lineIndices, List.forall_mem_append, scanned_lt_iff, scanned_lt_iff]
  constructor
  · rintro ⟨hline, hends⟩
    have hne := stops_inside_iff.mp (Nat.lt_of_add_lt_add_left hline)
    obtain ⟨htake, hdrop⟩ := scan_append hne behind
    rw [htake, hdrop] at hends
    exact (stops_inside_iff (t := behind)).mp (by omega)
  · intro hrest
    have hne : s.dropWhile notEol ≠ [] := by
      intro hnil
      exact hrest (by rw [behindLine, hnil]; rfl)
    obtain ⟨htake, hdrop⟩ := scan_append hne behind
    have hline := (stops_inside_iff (t := behind)).mpr hne
    have hends := (stops_inside_iff (t := behind)).mpr hrest
    rw [htake] at hline ⊢
    rw [hdrop]
    omega

theorem cutLine_behind (h : behindLine s ≠ []) (behind : List UInt8) :
    ∃ line, cutLine (s ++ behind) = some (line, behindLine s ++ behind) ∧
      line.length + (behindLine s).length = s.length := by
  have hne : s.dropWhile notEol ≠ [] := by
    intro hnil
    exact h (by rw [behindLine, hnil]; rfl)
  obtain ⟨htake, hdrop⟩ := scan_append hne behind
  obtain ⟨htake', hdrop'⟩ := scan_append (p := isEol) h behind
  refine ⟨s.takeWhile notEol ++ ((s.dropWhile notEol).takeWhile isEol).map fun _ ↦ 0, ?_, ?_⟩
  · unfold cutLine
    dsimp only
    rw [htake, hdrop, hdrop', htake']
    exact if_neg (List.append_ne_nil_of_left_ne_nil h _)
  · have hline := congrArg List.length (List.takeWhile_append_dropWhile (p := notEol) (l := s))
    have hends := congrArg List.length
      (List.takeWhile_append_dropWhile (p := isEol) (l := s.dropWhile notEol))
    rw [List.length_append] at hline hends
    rw [List.length_append, List.length_map]
    show _ + ((s.dropWhile notEol).dropWhile isEol).length = _
    omega

theorem cutIndices_inside_iff : (∀ i ∈ (cutIndices behind.length n pos (s ++ behind)).1,
    i < pos + s.length) ↔ s = [] ∨ n < (fileLines s).length := by
  induction n generalizing s pos with
  | zero =>
      refine iff_of_true (fun i hi ↦ absurd hi List.not_mem_nil) ?_
      by_cases hs : s = []
      · exact .inl hs
      · rw [fileLines_cons hs, List.length_cons]
        exact .inr (Nat.succ_pos _)
  | succ n ih =>
      by_cases hs : s = []
      · subst hs
        simp [cutIndices]
      have hpos := List.length_pos_iff.mpr hs
      rw [or_iff_right hs, fileLines_cons hs, List.length_cons, Nat.succ_lt_succ_iff,
        cutIndices, if_pos (by rw [List.length_append]; omega)]
      by_cases hrest : behindLine s = []
      · -- the last line of the file, or what the end of it is read behind
        rw [hrest]
        refine iff_of_false (fun h ↦ ?_) (Nat.not_lt_zero n)
        apply (lineIndices_inside_iff behind pos).mp _ hrest
        intro i hi
        apply h
        split
        · exact hi
        · exact List.mem_append_left _ hi
      · obtain ⟨line, hcut, hlen⟩ := cutLine_behind hrest behind
        have hmore := @ih (behindLine s) (pos + line.length)
        rw [Nat.add_assoc, hlen, or_iff_right hrest] at hmore
        rw [hcut]
        dsimp only
        rw [List.forall_mem_append, hmore]
        exact and_iff_right ((lineIndices_inside_iff behind pos).mpr hrest)

theorem cuts_inside_iff (file behind : List UInt8) : CutsInside file behind ↔
    file = [] ∨ file.head? = some 0 ∨ configFileLineNum + 2 < (fileLines file).length := by
  unfold CutsInside configIndices
  by_cases hfile : file = []
  · subst hfile
    simp [cutIndices, configFileLineNum]
  have hhead : (file ++ behind).head? = file.head? := by
    rw [List.head?_append_of_ne_nil _ hfile]
  rw [hhead, or_iff_right hfile]
  by_cases hzero : file.head? = some 0
  · simp [hzero]
  · rw [if_neg hzero, or_iff_right hzero]
    have hinside := @cutIndices_inside_iff file behind (configFileLineNum + 2) 0
    rw [Nat.zero_add, or_iff_right hfile] at hinside
    rw [hinside]
    exact and_iff_left cutIndices_le

/-- A file of one line, with its end and without. -/
theorem last_line_not_inside :
    ¬ CutsInside (bytes "01 BoxName      : PS" ++ [0x0D, 0x0A]) (bytes "ON" ++ [0x0A, 0]) ∧
      ¬ CutsInside (bytes "01 BoxName      : PS") (bytes "716U2" ++ [0x0A, 0]) :=
  ⟨by decide, by decide⟩

end PrintServer.Tftp
