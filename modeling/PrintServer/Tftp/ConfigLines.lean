import PrintServer.Tftp.Config

/-!
# The lines of the file

The loop that finds the lines against the lines the client has sent: they are the same, but that a
last line without an end goes on in what was in memory before.
-/

namespace PrintServer.Tftp

open Http

/-- The text at a pointer. -/
def text (s : List UInt8) : Str := cstr s 0

/-- What is behind a line of `s`. -/
def behindLine (s : List UInt8) : List UInt8 := (s.dropWhile notEol).dropWhile isEol

def fileRows : Nat → List UInt8 → List (List UInt8)
  | 0, _ => []
  | n + 1, s => if s = [] then [] else s.takeWhile notEol :: fileRows n (behindLine s)

/-- The lines of a file, which CRs and LFs end. -/
def fileLines (file : List UInt8) : List Str := (fileRows file.length file).map text

/-- The lines of the loop. -/
def seenLines (file behind : List UInt8) : Option (List Str) :=
  (cutLines behind.length (configFileLineNum + 2) (file ++ behind)).map fun r ↦ r.1.map text

def EndsLine (file : List UInt8) : Prop := ∀ c ∈ file.getLast?, isEol c = true

instance (file : List UInt8) : Decidable (EndsLine file) :=
  inferInstanceAs (Decidable (∀ c ∈ file.getLast?, isEol c = true))

/-! ## Texts -/

variable {s t p file behind : List UInt8}

theorem text_zero : text (0 :: s) = [] := rfl

theorem text_cons {c : UInt8} (hc : c ≠ 0) : text (c :: s) = c :: text s := by
  change (c :: s).takeWhile (fun c ↦ decide (c ≠ 0)) = _
  rw [List.takeWhile_cons, if_pos (decide_eq_true hc)]
  rfl

theorem text_front (hp : ∀ c ∈ p, c ≠ 0) : text (p ++ s) = p ++ text s := by
  induction p with
  | nil => rfl
  | cons c p ih =>
      obtain ⟨hc, hrest⟩ := List.forall_mem_cons.mp hp
      rw [List.cons_append, text_cons hc, ih hrest, List.cons_append]

theorem text_ne_zero : ∀ c ∈ text s, c ≠ 0 := by
  intro c hc
  have hnul := List.mem_takeWhile_imp hc
  simpa using hnul

theorem text_head? {c : UInt8} (hc : c ≠ 0) : (text s).head? = some c ↔ s.head? = some c := by
  cases s with
  | nil => exact Iff.rfl
  | cons d s =>
      by_cases hd : d = 0
      · rw [hd, text_zero]
        exact iff_of_false (Option.some_ne_none c ·.symm) fun h ↦ hc (Option.some.inj h).symm
      · rw [text_cons hd]
        rfl

theorem text_split (s : List UInt8) :
    ∃ z, s = text s ++ z ∧ text z = [] ∧ ∀ x ∈ z.head?, x = 0 := by
  induction s with
  | nil => exact ⟨[], rfl, rfl, fun x hx ↦ absurd hx (Option.not_mem_none x)⟩
  | cons c s ih =>
      by_cases hc : c = 0
      · refine ⟨c :: s, ?_, by rw [hc, text_zero], fun x hx ↦ ?_⟩
        · rw [hc, text_zero, List.nil_append]
        · rw [← Option.some.inj hx, hc]
      · obtain ⟨z, hz, hnil, hhead⟩ := ih
        exact ⟨z, by rw [text_cons hc, List.cons_append, ← hz], hnil, hhead⟩

/-- A line ends in NULs, so that nothing behind it is part of its text. -/
theorem text_line (hne : t ≠ []) (hzero : ∀ c ∈ t, c = 0) : text (p ++ t ++ s) = text p := by
  obtain ⟨c, u, rfl⟩ := List.exists_cons_of_ne_nil hne
  obtain rfl := hzero c List.mem_cons_self
  induction p with
  | nil => rfl
  | cons d p ih =>
      rw [List.cons_append, List.cons_append]
      by_cases hd : d = 0
      · rw [hd, text_zero, text_zero]
      · rw [text_cons hd, text_cons hd, ih]

/-! ## Cutting lines -/

theorem behindLine_length : (behindLine s).length ≤ s.length :=
  ((List.dropWhile_sublist _).trans (List.dropWhile_sublist _)).length_le

theorem behindLine_lt (h : s ≠ []) : (behindLine s).length < s.length := by
  obtain ⟨c, s, rfl⟩ := List.exists_cons_of_ne_nil h
  by_cases hc : notEol c = true
  · change (((c :: s).dropWhile notEol).dropWhile isEol).length < _
    rw [List.dropWhile_cons_of_pos hc]
    exact Nat.lt_succ_of_le behindLine_length
  · have heol : isEol c = true := by simpa [notEol] using hc
    change (((c :: s).dropWhile notEol).dropWhile isEol).length < _
    rw [List.dropWhile_cons_of_neg hc, List.dropWhile_cons_of_pos heol]
    exact Nat.lt_succ_of_le (List.dropWhile_sublist _).length_le

/-- A turn of the loop: the text of the line, and what is behind it. -/
theorem cutLine_text {line rest : List UInt8} (h : cutLine s = some (line, rest)) :
    (∀ u, text (line ++ u) = text (s.takeWhile notEol)) ∧ rest = behindLine s := by
  unfold cutLine at h
  simp only at h
  split at h
  · cases h
  rename_i hrest
  obtain ⟨rfl, rfl⟩ := Prod.mk.inj (Option.some.inj h)
  refine ⟨fun u ↦ text_line ?_ ?_, rfl⟩
  · -- what stopped `notEol` is an end of the line
    intro hnil
    rw [List.map_eq_nil_iff] at hnil
    cases hends : s.dropWhile notEol with
    | nil => exact hrest (by rw [hends]; rfl)
    | cons c ends =>
        have hc : notEol c = false := by
          have hhead := List.head?_dropWhile_not notEol s
          rw [hends] at hhead
          exact hhead
        rw [hends, List.takeWhile_cons_of_pos (by simpa [notEol] using hc)] at hnil
        exact List.cons_ne_nil _ _ hnil
  · intro c hc
    obtain ⟨-, -, rfl⟩ := List.mem_map.mp hc
    rfl

theorem fileRows_of_le {n m : Nat} (hn : s.length ≤ n) (hm : s.length ≤ m) :
    fileRows n s = fileRows m s := by
  induction n generalizing s m with
  | zero =>
      obtain rfl := List.length_eq_zero_iff.mp (Nat.le_zero.mp hn)
      cases m <;> rfl
  | succ n ih =>
      by_cases hs : s = []
      · subst hs
        cases m <;> rfl
      · have hlt := behindLine_lt hs
        obtain ⟨m, rfl⟩ : ∃ k, m = k + 1 := ⟨m - 1, by
          have := List.length_pos_iff.mpr hs
          omega⟩
        rw [fileRows, fileRows, if_neg hs, if_neg hs]
        rw [@ih (behindLine s) m (by omega) (by omega)]

theorem fileLines_cons (hs : file ≠ []) :
    fileLines file = text (file.takeWhile notEol) :: fileLines (behindLine file) := by
  obtain ⟨k, hk⟩ : ∃ k, file.length = k + 1 :=
    Nat.exists_eq_succ_of_ne_zero fun h ↦ hs (List.length_eq_zero_iff.mp h)
  have hlt := behindLine_lt hs
  unfold fileLines
  rw [hk, fileRows, if_neg hs, List.map_cons]
  congr 2
  exact fileRows_of_le (by omega) le_rfl

theorem cutLines_text {n m : Nat} {lines : List (List UInt8)} {rest : List UInt8}
    (h : cutLines m n s = some (lines, rest)) :
    ∀ line ∈ lines, ∀ u, text (line ++ u) = text line := by
  induction n generalizing s lines with
  | zero =>
      obtain ⟨rfl, -⟩ := Prod.mk.inj (Option.some.inj h)
      exact fun line hline ↦ absurd hline List.not_mem_nil
  | succ n ih =>
      rw [cutLines] at h
      split at h
      · cases hcut : cutLine s with
        | none =>
            rw [hcut] at h
            cases h
        | some r =>
            rw [hcut] at h
            obtain ⟨⟨more, rest'⟩, hmore, heq⟩ := Option.map_eq_some_iff.mp h
            obtain ⟨rfl, rfl⟩ := Prod.mk.inj heq
            refine List.forall_mem_cons.mpr ⟨fun u ↦ ?_, ih hmore⟩
            have hline := (cutLine_text hcut).1
            have hown := hline []
            rw [List.append_nil] at hown
            rw [hline u, hown]
      · obtain ⟨rfl, -⟩ := Prod.mk.inj (Option.some.inj h)
        exact fun line hline ↦ absurd hline List.not_mem_nil

theorem cutLines_head {n m : Nat} {lines : List (List UInt8)} {line rest : List UInt8}
    (h : cutLines m n s = some (lines, rest)) (hline : lines[0]? = some line) :
    text line = text (s.takeWhile notEol) := by
  cases n with
  | zero =>
      obtain ⟨rfl, -⟩ := Prod.mk.inj (Option.some.inj h)
      cases hline
  | succ n =>
      rw [cutLines] at h
      split at h
      · cases hcut : cutLine s with
        | none =>
            rw [hcut] at h
            cases h
        | some r =>
            rw [hcut] at h
            obtain ⟨r', -, heq⟩ := Option.map_eq_some_iff.mp h
            obtain ⟨rfl, -⟩ := Prod.mk.inj heq
            obtain rfl := Option.some.inj hline
            have hown := (cutLine_text hcut).1 []
            rwa [List.append_nil] at hown
      · obtain ⟨rfl, -⟩ := Prod.mk.inj (Option.some.inj h)
        cases hline

theorem lineInfo_length {lines : List (List UInt8)} {rest : List UInt8} :
    (lineInfo rest lines).length = lines.length := by
  induction lines with
  | nil => rfl
  | cons line lines ih => rw [lineInfo, List.length_cons, List.length_cons, ih]

theorem lineInfo_text {lines : List (List UInt8)} {rest : List UInt8}
    (h : ∀ line ∈ lines, ∀ u, text (line ++ u) = text line) :
    (lineInfo rest lines).map text = lines.map text := by
  induction lines with
  | nil => rfl
  | cons line lines ih =>
      obtain ⟨hline, hlines⟩ := List.forall_mem_cons.mp h
      rw [lineInfo, List.map_cons, List.map_cons, hline, ih hlines]

/-! ## What the loop finds -/

/-- The lines that the loop finds and those of the file: only the last may differ, and only if no
line end is behind it. -/
structure SameLines (file : List UInt8) (seen own : List Str) : Prop where
  length : own.length = seen.length
  dropLast : own.dropLast = seen.dropLast
  ended : EndsLine file → own = seen

theorem cutLines_behind {n m : Nat} (h : s.length ≤ n) : cutLines n m s = some ([], s) := by
  cases m with
  | zero => rfl
  | succ m => rw [cutLines, if_neg (by omega)]

theorem while_append {q : UInt8 → Bool} (h : s.dropWhile q ≠ []) :
    (s ++ t).takeWhile q = s.takeWhile q ∧ (s ++ t).dropWhile q = s.dropWhile q ++ t := by
  have hlen : (s.takeWhile q).length ≠ s.length := by
    intro heq
    have hsplit := congrArg List.length (@List.takeWhile_append_dropWhile _ q s)
    rw [List.length_append] at hsplit
    exact h (List.length_eq_zero_iff.mp (by omega))
  rw [List.takeWhile_append, List.dropWhile_append, if_neg hlen,
    if_neg (by rwa [List.isEmpty_iff])]
  exact ⟨rfl, rfl⟩

theorem dropWhile_ended (h : s.dropWhile notEol = []) (hs : s ≠ []) : ¬ EndsLine s := by
  obtain ⟨c, hc⟩ := Option.ne_none_iff_exists'.mp (mt List.getLast?_eq_none_iff.mp hs)
  intro hend
  have heol := hend c hc
  have hnot := List.dropWhile_eq_nil_iff.mp h c (List.mem_of_getLast? hc)
  rw [notEol, heol] at hnot
  exact absurd hnot (by decide)

/-- What is left behind a line ends as the file does. -/
theorem endsLine_behindLine (h : behindLine file ≠ []) :
    EndsLine (behindLine file) ↔ EndsLine file := by
  have hsplit : ∃ u, file = u ++ behindLine file := by
    refine ⟨file.takeWhile notEol ++ (file.dropWhile notEol).takeWhile isEol, ?_⟩
    unfold behindLine
    rw [List.append_assoc, List.takeWhile_append_dropWhile, List.takeWhile_append_dropWhile]
  obtain ⟨u, hu⟩ := hsplit
  have hlast : file.getLast? = (behindLine file).getLast? := by
    conv_lhs => rw [hu]
    rw [List.getLast?_append, Option.or_of_isSome]
    rw [Option.isSome_iff_ne_none]
    exact mt List.getLast?_eq_none_iff.mp h
  unfold EndsLine
  rw [hlast]

theorem SameLines.cons {t : Str} {rest : List UInt8} {seen own : List Str} (hne : own ≠ [])
    (hends : EndsLine rest ↔ EndsLine file) (h : SameLines rest seen own) :
    SameLines file (t :: seen) (t :: own) := by
  have hne' : seen ≠ [] := fun hnil ↦ hne (List.length_eq_zero_iff.mp (by rw [h.length, hnil]; rfl))
  refine ⟨by rw [List.length_cons, List.length_cons, h.length], ?_, fun hend ↦ ?_⟩
  · rw [List.dropLast_cons_of_ne_nil hne, List.dropLast_cons_of_ne_nil hne', h.dropLast]
  · rw [h.ended (hends.mpr hend)]

/-- The last line of the file: it may go on behind the file if it has no end. -/
theorem lastLine_same (hfile : file ≠ []) (hleft : behindLine file = []) :
    SameLines file [text ((file ++ behind).takeWhile notEol)] [text (file.takeWhile notEol)] ∧
      (behindLine (file ++ behind)).length ≤ behind.length := by
  unfold behindLine at hleft ⊢
  by_cases hends : file.dropWhile notEol = []
  · refine ⟨⟨rfl, rfl, fun hend ↦ absurd hend (dropWhile_ended hends hfile)⟩, ?_⟩
    rw [List.dropWhile_append, if_pos (by rw [hends]; rfl)]
    exact behindLine_length
  · obtain ⟨htake, hdrop⟩ := @while_append _ behind _ hends
    rw [htake, hdrop, List.dropWhile_append, if_pos (by rw [hleft]; rfl)]
    exact ⟨⟨rfl, rfl, fun _ ↦ rfl⟩, (List.dropWhile_sublist _).length_le⟩

theorem behindLine_append (h : behindLine file ≠ []) :
    (file ++ behind).takeWhile notEol = file.takeWhile notEol ∧
      behindLine (file ++ behind) = behindLine file ++ behind := by
  have hends : file.dropWhile notEol ≠ [] := by
    intro hnil
    exact h (by unfold behindLine; rw [hnil]; rfl)
  obtain ⟨htake, hdrop⟩ := @while_append _ behind _ hends
  refine ⟨htake, ?_⟩
  unfold behindLine
  rw [hdrop]
  exact (while_append h).2

theorem cutLines_same {n : Nat} {lines : List (List UInt8)} {rest : List UInt8}
    (h : cutLines behind.length n (file ++ behind) = some (lines, rest)) (hn : lines.length < n) :
    SameLines file (lines.map text) (fileLines file) := by
  induction n generalizing file lines with
  | zero => exact absurd hn (Nat.not_lt_zero _)
  | succ n ih =>
      by_cases hfile : file = []
      · subst hfile
        rw [List.nil_append, cutLines_behind le_rfl] at h
        obtain ⟨rfl, -⟩ := Prod.mk.inj (Option.some.inj h)
        exact ⟨rfl, rfl, fun _ ↦ rfl⟩
      have hpos := List.length_pos_iff.mpr hfile
      rw [cutLines, if_pos (by rw [List.length_append]; omega)] at h
      cases hcut : cutLine (file ++ behind) with
      | none =>
          rw [hcut] at h
          cases h
      | some r =>
          obtain ⟨line, s⟩ := r
          rw [hcut] at h
          obtain ⟨hline, hs⟩ := cutLine_text hcut
          obtain ⟨⟨more, rest'⟩, hmore, heq⟩ := Option.map_eq_some_iff.mp h
          obtain ⟨rfl, rfl⟩ := Prod.mk.inj heq
          have htext := hline []
          rw [List.append_nil] at htext
          rw [fileLines_cons hfile, List.map_cons, htext]
          by_cases hleft : behindLine file = []
          · obtain ⟨hsame, hlen⟩ := @lastLine_same _ behind hfile hleft
            rw [hs, cutLines_behind hlen] at hmore
            obtain ⟨rfl, -⟩ := Prod.mk.inj (Option.some.inj hmore)
            rw [hleft]
            exact hsame
          · obtain ⟨htake, hbehind⟩ := @behindLine_append _ behind hleft
            rw [hs, hbehind] at hmore
            rw [htake]
            refine (ih hmore (Nat.lt_of_succ_lt_succ hn)).cons ?_ (endsLine_behindLine hleft)
            rw [fileLines_cons hleft]
            exact List.cons_ne_nil _ _

end PrintServer.Tftp
