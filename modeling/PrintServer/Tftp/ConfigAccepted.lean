import PrintServer.Tftp.ConfigLines

/-!
# Which files are accepted

What a configuration file should be, what `ReadConfigData` lets through, and when the two agree.
-/

namespace PrintServer.Tftp

open Http

/-- Line `n` with its number and its title, and the value `v`. -/
def Titled (n : Nat) (t v : Str) : Prop :=
  ∃ b c : Str, (∀ x ∈ b ++ c, isBlank x = true) ∧ (∀ x ∈ v.head?, isBlank x = false) ∧
    t = (twoDigits n ++ [chr ' '] ++ lineTitle n ++ b ++ [chr ':'] ++ c) ++ v

/-- Line `n` of a file is there, with a value that satisfies `P`. -/
def HasValue (ls : List Str) (n : Nat) (P : Str → Prop) : Prop :=
  ∃ t ∈ ls[n - 1]?, ∃ v, Titled n t v ∧ P v

def IsWord (ws : List Str) (v : Str) : Prop := strupr (word v) ∈ ws

def OnOrOff : Str → Prop := IsWord [bytes "ON", bytes "OFF"]
def EnableOrDisable : Str → Prop := IsWord [bytes "ENABLE", bytes "DISABLE"]

def addressLines : List Nat := [5, 6, 7]

def numLines (password : Str) : Nat := configFileLineNum + if password = [] then 0 else 1

/-- The lines in order with numbers below 256 in the addresses that satisfy `part`, and a password
line that satisfies `brackets` if one is asked for. -/
structure Shape (part : Nat → Prop) (password : Str) (brackets : Str → Prop) (ls : List Str) :
    Prop where
  count : ls.length = numLines password
  titled : ∀ n, 1 ≤ n → n ≤ configFileLineNum → HasValue ls n fun _ ↦ True
  address : ∀ n ∈ addressLines, HasValue ls n (Quad part 3)
  password : password ≠ [] → HasValue ls (configFileLineNum + 1) brackets

/-- The text in the brackets, which blanks may fill up. -/
def InBrackets (a v : Str) : Prop :=
  ∃ k m, v = chr '[' :: (a ++ List.replicate k (chr ' ') ++ chr ']' :: List.replicate m (chr ' '))

/-- The file that the server sends out, with its values changed. -/
structure Conforms (password : Str) (ls : List Str) : Prop where
  shape : Shape (· ≤ 255) password (InBrackets password) ls
  dhcp : HasValue ls 4 OnOrOff
  netWare : HasValue ls 8 EnableOrDisable

/-- What `ReadConfigData` looks at of the password. -/
def Bracketed (a v : Str) : Prop := v.head? = some (chr '[') ∧ bracketed v.tail = some a

def Accepted (password : Str) (ls : List Str) : Prop :=
  Shape FitsTempIP password (Bracketed password) ls

/-- A word in the brackets and nothing but blanks behind it. -/
def Padded (v : Str) : Prop := ∃ a, (∀ c ∈ a, c ≠ chr ' ') ∧ InBrackets a v

/-- Behind a line end, only what is in the brackets matters; without one, the last line is not to
need the bytes behind the file. -/
def Complete (password : Str) (file : List UInt8) : Prop :=
  if EndsLine file then
    password ≠ [] → HasValue (fileLines file) (configFileLineNum + 1) Padded
  else if password = [] then HasValue (fileLines file) configFileLineNum fun _ ↦ True
  else HasValue (fileLines file) (configFileLineNum + 1) (InBrackets password)

/-! ## The title of a line -/

variable {n : Nat} {s t v : List UInt8}

theorem skipwhite_append {b : List UInt8} (hb : ∀ x ∈ b, isBlank x = true)
    (hs : ∀ x ∈ s.head?, isBlank x = false) : skipwhite (b ++ s) = s := by
  unfold skipwhite
  rw [List.dropWhile_append_of_pos hb]
  cases s with
  | nil => rfl
  | cons x s => exact List.dropWhile_cons_of_neg (by rw [hs x rfl]; exact Bool.false_ne_true)

theorem skipwhite_split (s : List UInt8) : ∃ b, s = b ++ skipwhite s ∧
    (∀ x ∈ b, isBlank x = true) ∧ ∀ x ∈ (skipwhite s).head?, isBlank x = false := by
  refine ⟨s.takeWhile isBlank, List.takeWhile_append_dropWhile.symm,
    fun x hx ↦ List.mem_takeWhile_imp hx, fun x hx ↦ ?_⟩
  have hhead := List.head?_dropWhile_not isBlank s
  change (s.dropWhile isBlank).head? = some x at hx
  rw [hx] at hhead
  exact hhead

theorem skipLineTitle_iff : skipLineTitle n s = some v ↔ Titled n s v := by
  have hlen : (twoDigits n ++ [chr ' ']).length = 3 := rfl
  constructor
  · intro h
    unfold skipLineTitle at h
    simp only at h
    split at h
    · cases h
    rename_i htitle
    rw [not_or, not_not, not_not] at htitle
    obtain ⟨hnumber, htitle⟩ := htitle
    obtain ⟨b, hb, hblank, -⟩ := skipwhite_split (s.drop ((lineTitle n).length + 3))
    cases hrest : skipwhite (s.drop ((lineTitle n).length + 3)) with
    | nil =>
        rw [hrest] at h
        cases h
    | cons x rest =>
        rw [hrest] at h hb
        simp only at h
        split at h
        · cases h
        rename_i hx
        obtain ⟨c, hc, hblank', hv⟩ := skipwhite_split rest
        rw [Option.some.inj h] at hc hv
        refine ⟨b, c, fun y hy ↦ (List.mem_append.mp hy).elim (hblank y) (hblank' y), hv, ?_⟩
        have htail : s.drop 3 = lineTitle n ++ (b ++ chr ':' :: (c ++ v)) := by
          rw [← List.take_append_drop (lineTitle n).length (s.drop 3), htitle, List.drop_drop,
            Nat.add_comm, hb, not_not.mp hx, hc]
        calc s = s.take 3 ++ s.drop 3 := (List.take_append_drop 3 s).symm
          _ = _ := by
              rw [hnumber, htail]
              simp only [List.append_assoc, List.cons_append, List.nil_append]
  · rintro ⟨b, c, hblank, hv, hs⟩
    obtain ⟨hb, hc⟩ := List.forall_mem_append.mp hblank
    have hs' : s = (twoDigits n ++ [chr ' ']) ++ (lineTitle n ++ (b ++ chr ':' :: (c ++ v))) := by
      rw [hs]
      simp only [List.append_assoc, List.cons_append, List.nil_append]
    have hdrop : s.drop 3 = lineTitle n ++ (b ++ chr ':' :: (c ++ v)) := by
      rw [hs', List.drop_left' hlen]
    have hcolon : skipwhite (s.drop ((lineTitle n).length + 3)) = chr ':' :: (c ++ v) := by
      rw [Nat.add_comm, ← List.drop_drop, hdrop, List.drop_left]
      refine skipwhite_append hb fun x hx ↦ ?_
      obtain rfl := Option.some.inj hx
      decide
    unfold skipLineTitle
    simp only
    rw [if_neg, hcolon]
    · simp only
      rw [if_neg (not_not.mpr rfl), skipwhite_append hc hv]
    · rw [not_or, not_not, not_not, hdrop, List.take_left, hs', List.take_left' hlen]
      exact ⟨rfl, rfl⟩

/-- Each line has one value. -/
theorem Titled.unique {w : Str} (hv : Titled n t v) (hw : Titled n t w) : v = w :=
  Option.some.inj ((skipLineTitle_iff.mpr hv).symm.trans (skipLineTitle_iff.mpr hw))

theorem title_ne_zero (hn : n ≤ configFileLineNum + 1) :
    ∀ c ∈ twoDigits n ++ [chr ' '] ++ lineTitle n, c ≠ 0 := by
  have hmem : ∀ n ≤ configFileLineNum + 1, 0 ∉ twoDigits n ++ [chr ' '] ++ lineTitle n := by
    decide +kernel
  intro c hc hzero
  rw [hzero] at hc
  exact hmem n hn hc

theorem blank_ne_zero : ∀ c : UInt8, isBlank c = true → c ≠ 0 := by
  refine forall_byte ?_
  decide +kernel

/-- The title is in front of the NUL. -/
theorem titled_text (hn : n ≤ configFileLineNum + 1) :
    Titled n (text s) v ↔ ∃ data, Titled n s data ∧ text data = v := by
  have hfront {b c : Str} (hblank : ∀ x ∈ b ++ c, isBlank x = true) :
      ∀ x ∈ twoDigits n ++ [chr ' '] ++ lineTitle n ++ b ++ [chr ':'] ++ c, x ≠ 0 := by
    obtain ⟨hb, hc⟩ := List.forall_mem_append.mp hblank
    refine List.forall_mem_append.mpr ⟨List.forall_mem_append.mpr ⟨List.forall_mem_append.mpr
      ⟨title_ne_zero hn, fun x hx ↦ blank_ne_zero x (hb x hx)⟩, ?_⟩,
      fun x hx ↦ blank_ne_zero x (hc x hx)⟩
    decide +kernel
  constructor
  · rintro ⟨b, c, hblank, hv, hs⟩
    have hv0 : ∀ x ∈ v, x ≠ 0 := fun x hx ↦
      text_ne_zero x (by rw [hs]; exact List.mem_append_right _ hx)
    obtain ⟨z, hz, hnil, hhead⟩ := text_split s
    refine ⟨v ++ z, ⟨b, c, hblank, fun x hx ↦ ?_, ?_⟩, ?_⟩
    · cases v with
      | nil =>
          rw [hhead x hx]
          decide
      | cons y v => exact hv x hx
    · rw [← List.append_assoc, ← hs, ← hz]
    · rw [text_front hv0, hnil, List.append_nil]
  · rintro ⟨data, ⟨b, c, hblank, hdata, hs⟩, rfl⟩
    refine ⟨b, c, hblank, fun x hx ↦ ?_, by rw [hs, text_front (hfront hblank)]⟩
    have hx0 := text_ne_zero x (List.mem_of_mem_head? hx)
    exact hdata x ((text_head? hx0).mp hx)

/-! ## The lines -/

theorem putByte_isSome {i : Int} : (putByte i s).isSome = true := by
  unfold putByte
  simp only
  rw [if_neg (by omega)]
  rfl

/-- The error of `IsDHCPOn` and `IsPsEnable` is none in an unsigned byte. -/
theorem readValue_isSome {line data : List UInt8} : (readValue n line data).isSome = true ↔
    (n + 1 ∈ addressLines → Quad FitsTempIP 3 (text data)) := by
  have haddress : n + 1 ∈ addressLines ↔ n = 4 ∨ n = 5 ∨ n = 6 := by
    unfold addressLines
    simp only [List.mem_cons, List.not_mem_nil, or_false]
    omega
  rw [haddress, ← addrToIP_isSome]
  unfold readValue
  by_cases h : n = 4 ∨ n = 5 ∨ n = 6
  · rw [if_neg (by omega), if_neg (by omega), if_pos h, Option.isSome_map]
    exact ⟨fun hip _ ↦ hip, fun hip ↦ hip h⟩
  · refine iff_of_true ?_ fun haddr ↦ absurd haddr h
    rw [if_neg h]
    split
    · rfl
    split
    · exact putByte_isSome
    split
    · exact putByte_isSome
    · rfl

/-- What the loop asks of line `n`. -/
def LineOk (n : Nat) (v : Str) : Prop := n ∈ addressLines → Quad FitsTempIP 3 v

theorem readLines_cons {i : Nat} {line : List UInt8} {lines : List (List UInt8)} :
    (∃ values, readLines i (line :: lines) = .ok values) ↔
      (∃ data, skipLineTitle (i + 1) line = some data ∧ LineOk (i + 1) (text data)) ∧
        ∃ values, readLines (i + 1) lines = .ok values := by
  rw [readLines]
  cases hskip : skipLineTitle (i + 1) line with
  | none =>
      constructor
      · rintro ⟨values, h⟩
        cases h
      · rintro ⟨⟨data, h, -⟩, -⟩
        cases h
  | some data =>
      have hvalue := @readValue_isSome i line data
      simp only
      cases hread : readValue i line data with
      | none =>
          rw [hread] at hvalue
          constructor
          · rintro ⟨values, h⟩
            cases h
          · rintro ⟨⟨data', h, hok⟩, -⟩
            obtain rfl := Option.some.inj h
            exact absurd (hvalue.mpr hok) Bool.false_ne_true
      | some first =>
          rw [hread] at hvalue
          simp only
          constructor
          · rintro ⟨values, h⟩
            refine ⟨⟨data, rfl, hvalue.mp rfl⟩, ?_⟩
            cases hmore : readLines (i + 1) lines with
            | error rc =>
                rw [hmore] at h
                cases h
            | ok more => exact ⟨more, rfl⟩
          · rintro ⟨-, more, hmore⟩
            rw [hmore]
            exact ⟨first :: more, rfl⟩

theorem readLines_ok {i : Nat} {lines : List (List UInt8)} :
    (∃ values, readLines i lines = .ok values) ↔
      ∀ k line, lines[k]? = some line →
        ∃ data, skipLineTitle (i + k + 1) line = some data ∧ LineOk (i + k + 1) (text data) := by
  induction lines generalizing i with
  | nil => exact iff_of_true ⟨[], rfl⟩ fun k line h ↦ absurd h (Option.not_mem_none line)
  | cons line lines ih =>
      rw [readLines_cons, ih]
      constructor
      · rintro ⟨hfirst, hrest⟩ k
        cases k with
        | zero =>
            intro line' h
            obtain rfl := Option.some.inj h
            exact hfirst
        | succ k =>
            intro line' h
            rw [show i + (k + 1) + 1 = i + 1 + k + 1 by omega]
            exact hrest k line' h
      · intro h
        refine ⟨h 0 line rfl, fun k line' hline ↦ ?_⟩
        rw [show i + 1 + k + 1 = i + (k + 1) + 1 by omega]
        exact h (k + 1) line' hline

/-- A line that `SkipLineTitle` takes has its title in its text. -/
theorem skipLineTitle_text {P : Str → Prop} (hn : n ≤ configFileLineNum + 1) :
    (∃ data, skipLineTitle n s = some data ∧ P (text data)) ↔ ∃ v, Titled n (text s) v ∧ P v := by
  constructor
  · rintro ⟨data, hskip, hp⟩
    exact ⟨text data, (titled_text hn).mpr ⟨data, skipLineTitle_iff.mp hskip, rfl⟩, hp⟩
  · rintro ⟨v, hv, hp⟩
    obtain ⟨data, hdata, rfl⟩ := (titled_text hn).mp hv
    exact ⟨data, skipLineTitle_iff.mpr hdata, hp⟩

/-! ## The password -/

variable {password : Str}

theorem checkPassword_iff {line : List UInt8} {values : List (List UInt8)} :
    (checkPassword password line values).rc = 0 ↔
      ∃ v, Titled (configFileLineNum + 1) (text line) v ∧ Bracketed password v := by
  rw [← skipLineTitle_text le_rfl]
  unfold checkPassword
  cases hskip : skipLineTitle (configFileLineNum + 1) line with
  | none =>
      refine iff_of_false (Nat.succ_ne_zero _) ?_
      rintro ⟨data, h, -⟩
      cases h
  | some data =>
      have hdata : (∃ d, some data = some d ∧ Bracketed password (text d)) ↔
          Bracketed password (text data) := by
        constructor
        · rintro ⟨d, h, hb⟩
          rwa [Option.some.inj h]
        · exact fun hb ↦ ⟨data, rfl, hb⟩
      rw [hdata, Bracketed, text_head? (by decide)]
      simp only
      by_cases hhead : data.head? = some (chr '[')
      · obtain ⟨d, rfl⟩ : ∃ d, data = chr '[' :: d := by
          cases data with
          | nil => cases hhead
          | cons c d => exact ⟨d, by rw [Option.some.inj hhead]⟩
        rw [if_neg (not_not.mpr hhead), text_cons (by decide), List.tail_cons]
        have htext : cstr (chr '[' :: d) 1 = text d := rfl
        rw [htext]
        cases hb : bracketed (text d) with
        | none => exact iff_of_false (Nat.succ_ne_zero _) fun h ↦ by cases h.2
        | some a =>
            simp only
            split
            · rename_i ha
              exact iff_of_true rfl ⟨rfl, by rw [ha]⟩
            · rename_i ha
              exact iff_of_false Nat.one_ne_zero fun h ↦ ha (Option.some.inj h.2)
      · rw [if_pos hhead]
        exact iff_of_false (Nat.succ_ne_zero _) fun h ↦ hhead h.1

/-! ## The result -/

theorem hasValue_map {P : Str → Prop} {info : List (List UInt8)} (hn : n ≤ configFileLineNum + 1) :
    HasValue (info.map text) n P ↔
      ∃ line ∈ info[n - 1]?, ∃ data, skipLineTitle n line = some data ∧ P (text data) := by
  unfold HasValue
  rw [List.getElem?_map]
  constructor
  · rintro ⟨t, ht, hv⟩
    obtain ⟨line, hline, rfl⟩ := Option.map_eq_some_iff.mp ht
    exact ⟨line, hline, (skipLineTitle_text hn).mpr hv⟩
  · rintro ⟨line, hline, hdata⟩
    exact ⟨text line, Option.mem_map_of_mem _ hline, (skipLineTitle_text hn).mp hdata⟩

/-- The two loops over the lines in one. -/
theorem accepted_iff {ls : List Str} : Accepted password ls ↔
    ls.length = numLines password ∧
      (∀ k < configFileLineNum, HasValue ls (k + 1) (LineOk (k + 1))) ∧
      (password ≠ [] → HasValue ls (configFileLineNum + 1) (Bracketed password)) := by
  constructor
  · rintro ⟨hcount, htitled, haddress, hpassword⟩
    refine ⟨hcount, fun k hk ↦ ?_, hpassword⟩
    by_cases haddr : k + 1 ∈ addressLines
    · obtain ⟨t, ht, v, hv, hquad⟩ := haddress (k + 1) haddr
      exact ⟨t, ht, v, hv, fun _ ↦ hquad⟩
    · obtain ⟨t, ht, v, hv, -⟩ := htitled (k + 1) (Nat.succ_pos k) hk
      exact ⟨t, ht, v, hv, fun h ↦ absurd h haddr⟩
  · rintro ⟨hcount, hlines, hpassword⟩
    refine ⟨hcount, fun n hpos hn ↦ ?_, fun n hn ↦ ?_, hpassword⟩
    · obtain ⟨k, rfl⟩ := Nat.exists_eq_succ_of_ne_zero (Nat.pos_iff_ne_zero.mp hpos)
      obtain ⟨t, ht, v, hv, -⟩ := hlines k hn
      exact ⟨t, ht, v, hv, trivial⟩
    · have hbound : ∀ n ∈ addressLines, 1 ≤ n ∧ n ≤ configFileLineNum := by decide
      obtain ⟨hpos, hle⟩ := hbound n hn
      obtain ⟨k, rfl⟩ := Nat.exists_eq_succ_of_ne_zero (Nat.pos_iff_ne_zero.mp hpos)
      obtain ⟨t, ht, v, hv, hok⟩ := hlines k hle
      exact ⟨t, ht, v, hv, hok hn⟩

theorem readLines_error {i rc : Nat} {lines : List (List UInt8)}
    (h : readLines i lines = .error rc) : rc ≠ 0 := by
  induction lines generalizing i with
  | nil => cases h
  | cons line lines ih =>
      rw [readLines] at h
      split at h
      · rw [← Except.error.inj h]
        exact Nat.succ_ne_zero i
      · split at h
        · rw [← Except.error.inj h]
          exact Nat.succ_ne_zero i
        · split at h
          · rename_i hmore
            obtain rfl := Except.error.inj h
            exact ih hmore
          · cases h

theorem not_titled_nil : ¬ Titled n [] v := by
  rintro ⟨b, c, -, -, h⟩
  have hlen := congrArg List.length h
  simp only [List.length_append, List.length_cons, List.length_nil] at hlen
  omega

/-- A file that starts with a NUL is no file of the right lines either. -/
theorem not_accepted_zero {file behind : List UInt8} {ls : List Str}
    (hzero : (file ++ behind).head? = some 0) (h : seenLines file behind = some ls) :
    ¬ Accepted password ls := by
  obtain ⟨⟨lines, rest⟩, hcut, rfl⟩ := Option.map_eq_some_iff.mp h
  rintro ⟨-, htitled, -, -⟩
  obtain ⟨t, ht, v, hv, -⟩ := htitled 1 le_rfl (by decide)
  obtain ⟨line, hline, rfl⟩ := Option.map_eq_some_iff.mp (List.getElem?_map .. ▸ ht)
  have hnil : text line = [] := by
    rw [cutLines_head hcut hline]
    cases hs : file ++ behind with
    | nil => rfl
    | cons c s =>
        rw [hs] at hzero
        rw [Option.some.inj hzero, List.takeWhile_cons_of_pos (by decide), text_zero]
  rw [hnil] at hv
  exact not_titled_nil hv

theorem readLines_hasValue {info : List (List UInt8)} (hlen : configFileLineNum ≤ info.length) :
    (∃ values, readLines 0 (info.take configFileLineNum) = .ok values) ↔
      ∀ k < configFileLineNum, HasValue (info.map text) (k + 1) (LineOk (k + 1)) := by
  rw [readLines_ok]
  simp only [Nat.zero_add, List.getElem?_take]
  constructor
  · intro h k hk
    rw [hasValue_map (by omega), Nat.add_sub_cancel]
    obtain ⟨line, hline⟩ : ∃ line, info[k]? = some line :=
      ⟨_, List.getElem?_eq_getElem (by omega)⟩
    exact ⟨line, hline, h k line (by rw [if_pos hk, hline])⟩
  · intro h k line hline
    split at hline
    · rename_i hk
      have hvalue := h k hk
      rw [hasValue_map (by omega), Nat.add_sub_cancel] at hvalue
      obtain ⟨line', hline', hdata⟩ := hvalue
      rwa [Option.some.inj (hline.symm.trans hline')]
    · cases hline

theorem readConfigData_lines {file behind rest : List UInt8} {lines : List (List UInt8)}
    (hzero : (file ++ behind).head? ≠ some 0)
    (h : cutLines behind.length (configFileLineNum + 2) (file ++ behind) = some (lines, rest)) :
    (∃ r, readConfigData password file behind = some r ∧ r.rc = 0) ↔
      Accepted password (lines.map text) := by
  have hinfo := @lineInfo_text lines rest (cutLines_text h)
  have hlen := @lineInfo_length lines rest
  rw [accepted_iff, List.length_map, ← hinfo]
  unfold readConfigData
  rw [if_neg hzero, h]
  simp only [numLines]
  generalize hneed : (if password = [] then 0 else 1) = need
  generalize lineInfo rest lines = info at hlen ⊢
  by_cases hcount : lines.length = configFileLineNum + need
  · rw [if_neg (by omega), show lines.length - need = configFileLineNum by omega]
    have hloop := @readLines_hasValue info (by omega)
    rw [← hloop]
    cases hread : readLines 0 (info.take configFileLineNum) with
    | error rc =>
        refine iff_of_false ?_ ?_
        · rintro ⟨r, hr, hrc⟩
          rw [← Option.some.inj hr] at hrc
          exact readLines_error hread hrc
        · rintro ⟨-, ⟨values, h⟩, -⟩
          cases h
    | ok values =>
        simp only [not_true_eq_false, ne_eq, if_false]
        by_cases hpw : password = []
        · rw [if_pos hpw]
          exact iff_of_true ⟨_, rfl, rfl⟩ ⟨hcount, ⟨values, rfl⟩, fun hne ↦ absurd hpw hne⟩
        · rw [if_neg hpw]
          rw [if_neg hpw] at hneed
          have hline : configFileLineNum < info.length := by omega
          have hvalue : HasValue (info.map text) (configFileLineNum + 1) (Bracketed password) ↔
              (checkPassword password (info.getD configFileLineNum []) values).rc = 0 := by
            rw [checkPassword_iff, hasValue_map le_rfl, Nat.add_sub_cancel,
              List.getD_eq_getElem?_getD, List.getElem?_eq_getElem hline, Option.getD_some,
              ← skipLineTitle_text le_rfl]
            constructor
            · rintro ⟨line, h, hdata⟩
              rwa [← Option.some.inj h] at hdata
            · exact fun hdata ↦ ⟨_, rfl, hdata⟩
          constructor
          · rintro ⟨r, hr, hrc⟩
            rw [← Option.some.inj hr] at hrc
            exact ⟨hcount, ⟨values, rfl⟩, fun _ ↦ hvalue.mpr hrc⟩
          · rintro ⟨-, -, hpassword⟩
            exact ⟨_, rfl, hvalue.mp (hpassword hpw)⟩
  · -- the wrong number of lines is an error in one of them
    refine iff_of_false ?_ fun hacc ↦ hcount hacc.1
    rintro ⟨r, hr, hrc⟩
    split at hr
    · cases hr
    split at hr
    · rename_i rc hread
      rw [← Option.some.inj hr] at hrc
      exact readLines_error hread hrc
    · rw [if_pos (by omega)] at hr
      rw [← Option.some.inj hr] at hrc
      have hpos : 0 < configFileLineNum := by decide
      by_cases hrow : lines.length - need < configFileLineNum
      · rw [if_pos hrow] at hrc
        exact Nat.succ_ne_zero _ hrc
      · rw [if_neg hrow] at hrc
        change lines.length - need = 0 at hrc
        omega

/-- `ReadConfigData` returns 0 for the files that it accepts. -/
theorem readConfigData_iff {file behind : List UInt8} :
    (∃ r, readConfigData password file behind = some r ∧ r.rc = 0) ↔
      ∃ ls, seenLines file behind = some ls ∧ Accepted password ls := by
  by_cases hzero : (file ++ behind).head? = some 0
  · refine iff_of_false ?_ ?_
    · rintro ⟨r, hr, hrc⟩
      unfold readConfigData at hr
      rw [if_pos hzero] at hr
      rw [← Option.some.inj hr] at hrc
      cases hrc
    · rintro ⟨ls, hls, hacc⟩
      exact not_accepted_zero hzero hls hacc
  cases hcut : cutLines behind.length (configFileLineNum + 2) (file ++ behind) with
  | none =>
      refine iff_of_false ?_ ?_
      · rintro ⟨r, hr, -⟩
        unfold readConfigData at hr
        rw [if_neg hzero, hcut] at hr
        cases hr
      · rintro ⟨ls, hls, -⟩
        unfold seenLines at hls
        rw [hcut] at hls
        cases hls
  | some r =>
      rw [readConfigData_lines hzero hcut]
      have hseen : seenLines file behind = some (r.1.map text) := by
        unfold seenLines
        rw [hcut]
        rfl
      constructor
      · exact fun hacc ↦ ⟨_, hseen, hacc⟩
      · rintro ⟨ls, hls, hacc⟩
        rwa [← Option.some.inj (hls.symm.trans hseen)]

/-! ## Brackets -/

theorem takeWhile_word {a : Str} (ha : ∀ c ∈ a, c ≠ chr ' ') (k : Nat) :
    (a ++ List.replicate k (chr ' ')).takeWhile (· ≠ chr ' ') = a := by
  rw [List.takeWhile_append_of_pos fun c hc ↦ decide_eq_true (ha c hc)]
  cases k with
  | zero => exact List.append_nil a
  | succ k => rw [List.replicate_succ, List.takeWhile_cons_of_neg (by decide), List.append_nil]

/-- The last `]` is found behind the blanks. -/
theorem bracketed_word {x w : Str} {m : Nat}
    (h : bracketed (x ++ chr ']' :: List.replicate m (chr ' ')) = some w) :
    w = x.takeWhile (· ≠ chr ' ') := by
  have hstrip : (x ++ chr ']' :: List.replicate m (chr ' ')).reverse.dropWhile (· = chr ' ') =
      chr ']' :: x.reverse := by
    rw [List.reverse_append, List.reverse_cons, List.reverse_replicate, List.append_assoc,
      List.dropWhile_append_of_pos, List.singleton_append, List.dropWhile_cons_of_neg (by decide)]
    intro c hc
    exact decide_eq_true (List.eq_of_mem_replicate hc)
  unfold bracketed at h
  split at h
  · cases h
  · rw [hstrip] at h
    simp only [if_true, List.reverse_reverse] at h
    exact (Option.some.inj h).symm

theorem bracketed_blank {x w : Str} (h : bracketed x = some w) : ∀ c ∈ w, c ≠ chr ' ' := by
  unfold bracketed at h
  split at h
  · cases h
  split at h
  · cases h
  split at h
  · rw [← Option.some.inj h]
    intro c hc
    have hword := List.mem_takeWhile_imp hc
    simpa using hword
  · cases h

/-- Where the code compares the first word, it compares all of the text if nothing is behind that
word. -/
theorem padded_iff (h : Bracketed password v) : Padded v ↔ InBrackets password v := by
  obtain ⟨-, hword⟩ := h
  constructor
  · rintro ⟨a, ha, k, m, rfl⟩
    rw [List.tail_cons] at hword
    have heq := bracketed_word hword
    rw [takeWhile_word ha] at heq
    rw [heq]
    exact ⟨k, m, rfl⟩
  · exact fun hin ↦ ⟨password, bracketed_blank hword, hin⟩

/-! ## Acceptance -/

variable {P Q : Str → Prop} {file behind : List UInt8} {ls own : List Str}

theorem HasValue.mono (h : ∀ v, P v → Q v) (hp : HasValue ls n P) : HasValue ls n Q := by
  obtain ⟨t, ht, v, hv, hpv⟩ := hp
  exact ⟨t, ht, v, hv, h v hpv⟩

theorem HasValue.and (hp : HasValue ls n P) (hq : HasValue ls n Q) :
    HasValue ls n fun v ↦ P v ∧ Q v := by
  obtain ⟨t, ht, v, hv, hpv⟩ := hp
  obtain ⟨t', ht', v', hv', hqv⟩ := hq
  obtain rfl := Option.mem_unique ht ht'
  obtain rfl := hv.unique hv'
  exact ⟨t, ht, v, hv, hpv, hqv⟩

/-- In front of the last line the file is what the loop has seen. -/
theorem SameLines.hasValue (h : SameLines file ls own) (hn : n - 1 + 1 < ls.length) :
    HasValue own n P ↔ HasValue ls n P := by
  have hget : own[n - 1]? = ls[n - 1]? := by
    have hdrop := congrArg (·[n - 1]?) h.dropLast
    simp only [List.getElem?_dropLast, h.length] at hdrop
    rwa [if_pos (by omega), if_pos (by omega)] at hdrop
  unfold HasValue
  rw [hget]

theorem seenLines_same (h : seenLines file behind = some ls) (hacc : Accepted password ls) :
    SameLines file ls (fileLines file) := by
  obtain ⟨⟨lines, rest⟩, hcut, rfl⟩ := Option.map_eq_some_iff.mp h
  have hcount := hacc.count
  rw [List.length_map] at hcount
  refine cutLines_same hcut ?_
  unfold numLines at hcount
  split at hcount <;> omega

/-- What `ReadConfigData` does not check of the files that it accepts. -/
structure Unchecked (password : Str) (file : List UInt8) : Prop where
  dhcp : HasValue (fileLines file) 4 OnOrOff
  netWare : HasValue (fileLines file) 8 EnableOrDisable
  address : ∀ n ∈ addressLines, HasValue (fileLines file) n (Quad (· < 65536) 3)
  complete : Complete password file

theorem conforms_of_unchecked (hsame : SameLines file ls (fileLines file))
    (hacc : Accepted password ls) (h : Unchecked password file) :
    Conforms password (fileLines file) := by
  have hcount := hacc.count
  have hcomplete := h.complete
  unfold numLines at hcount
  unfold Complete at hcomplete
  refine ⟨⟨hsame.length.trans hacc.count, fun n hpos hn ↦ ?_, fun n hn ↦ ?_, fun hpw ↦ ?_⟩,
    h.dhcp, h.netWare⟩
  · by_cases hlast : n - 1 + 1 < ls.length
    · exact (hsame.hasValue hlast).mpr (hacc.titled n hpos hn)
    · -- without a password the last printer is the last line
      by_cases hpw : password = []
      · rw [if_pos hpw] at hcount
        obtain rfl : n = configFileLineNum := by omega
        by_cases hend : EndsLine file
        · rw [hsame.ended hend]
          exact hacc.titled _ hpos hn
        · rwa [if_neg hend, if_pos hpw] at hcomplete
      · rw [if_neg hpw] at hcount
        omega
  · have hbound : ∀ n ∈ addressLines, n - 1 + 1 < configFileLineNum := by decide
    have hlt := hbound n hn
    have hfits := (hsame.hasValue (by omega)).mpr (hacc.address n hn)
    refine (hfits.and (h.address n hn)).mono fun v hv ↦ ?_
    exact (hv.1.and hv.2).mono fun k hk ↦ (fitsTempIP_iff hk.2).mp hk.1
  · by_cases hend : EndsLine file
    · rw [if_pos hend] at hcomplete
      have hpadded := hcomplete hpw
      rw [hsame.ended hend] at hpadded ⊢
      exact (hpadded.and (hacc.password hpw)).mono fun v hv ↦ (padded_iff hv.2).mp hv.1
    · rwa [if_neg hend, if_neg hpw] at hcomplete

theorem unchecked_of_conforms (hsame : SameLines file ls (fileLines file))
    (hacc : Accepted password ls) (h : Conforms password (fileLines file)) :
    Unchecked password file := by
  refine ⟨h.dhcp, h.netWare, fun n hn ↦ ?_, ?_⟩
  · exact (h.shape.address n hn).mono fun v hv ↦ hv.mono fun k hk ↦ by omega
  · unfold Complete
    split
    · rename_i hend
      intro hpw
      have hin := h.shape.password hpw
      rw [hsame.ended hend] at hin ⊢
      exact (hin.and (hacc.password hpw)).mono fun v hv ↦ (padded_iff hv.2).mpr hv.1
    · split
      · exact h.shape.titled configFileLineNum (by decide) le_rfl
      · rename_i hpw
        exact h.shape.password hpw

theorem accepted_conforms_iff (password : Str) (file behind : List UInt8) :
    (∀ r, readConfigData password file behind = some r → r.rc = 0 →
      Conforms password (fileLines file)) ↔
    ∀ ls, seenLines file behind = some ls → Accepted password ls → Unchecked password file := by
  constructor
  · intro h ls hls hacc
    obtain ⟨r, hr, hrc⟩ := readConfigData_iff.mpr ⟨ls, hls, hacc⟩
    exact unchecked_of_conforms (seenLines_same hls hacc) hacc (h r hr hrc)
  · intro h r hr hrc
    obtain ⟨ls, hls, hacc⟩ := readConfigData_iff.mp ⟨r, hr, hrc⟩
    exact conforms_of_unchecked (seenLines_same hls hacc) hacc (h ls hls hacc)

def maybeFile : List UInt8 :=
  bytes "01 BoxName : A\n" ++ bytes "02 BoxVersion : 1\n" ++ bytes "03 BoxNodeID : 1\n" ++
    bytes "04 DHCP/BOOTP : MAYBE\n" ++ bytes "05 BoxIPAddress : 10.0.0.2\n" ++
    bytes "06 Gateway : 10.0.0.1\n" ++ bytes "07 SubnetMask : 255.0.0.0\n" ++
    bytes "08 NetWare : Enable\n" ++ bytes "09 Printer1Name : P1\n"

theorem maybeFile_accepted :
    ¬ ∀ (password : Str) (file behind : List UInt8) (r : ConfigRead),
      readConfigData password file behind = some r → r.rc = 0 →
        Conforms password (fileLines file) := by
  intro h
  have hrc : (readConfigData [] maybeFile [0]).map ConfigRead.rc = some 0 := by decide +kernel
  obtain ⟨r, hr, hrc⟩ := Option.map_eq_some_iff.mp hrc
  obtain ⟨t, ht, v, hv, hword⟩ := (h [] maybeFile [0] r hr hrc).dhcp
  have hline : (fileLines maybeFile)[4 - 1]? = some (bytes "04 DHCP/BOOTP : MAYBE") := by
    decide +kernel
  have hvalue : skipLineTitle 4 (bytes "04 DHCP/BOOTP : MAYBE") = some (bytes "MAYBE") := by
    decide +kernel
  rw [hline] at ht
  rw [← Option.some.inj ht] at hv
  rw [hv.unique (skipLineTitle_iff.mp hvalue)] at hword
  unfold OnOrOff IsWord at hword
  revert hword
  decide +kernel

end PrintServer.Tftp
