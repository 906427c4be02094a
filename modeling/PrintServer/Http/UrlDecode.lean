import PrintServer.Http.Form

/-!
# The loop of decode

`decode` of httpd.c counts in `int16` and takes three characters for an escape, whatever comes
behind the `%`.  A string is followed by its NUL and then by memory that it may not read.
-/

namespace PrintServer.Http

open Lib

/-- What `decode` makes of a character that is no `%`. -/
def decodeChar (isPath : Bool) (c : UInt8) : UInt8 :=
  if ¬ isPath ∧ c = chr '+' then chr ' '
  else if ¬ isPath ∧ c = chr '&' then 0xff
  else c

/-- `code[0]` and `code[1]` as `(int8)htoi(code)`. -/
def decodeCode (a b : UInt8) : UInt8 := UInt8.ofInt (htoi [a, b])

/-- The loop at index `i`, with what is from there to the NUL: the bytes it stores, `none` where it
reads outside of the string. -/
def decodeLoop (isPath : Bool) (slen : Int) : List UInt8 → Nat → Option (List UInt8)
  | rest, i =>
      -- `i` has wrapped, and the next character would be in front of the string
      if 32767 < i then none
      else if slen < i then some []
      else
        match rest with
        | [] => none
        | c :: rest =>
            if c = chr '%' then
              match rest with
              | a :: b :: rest =>
                  (decodeLoop isPath slen rest (i + 3)).map (decodeCode a b :: ·)
              | _ => none
            else (decodeLoop isPath slen rest (i + 1)).map (decodeChar isPath c :: ·)

/-- The block that `decode` allocates and the bytes it stores from its start. -/
structure Decoded where
  size : Int
  tmp : List UInt8
deriving DecidableEq

/-- `decode`; `slen` is an `int16`. -/
def decodeRun (isPath : Bool) (s : Str) : Option Decoded :=
  let slen := (s.length : Int).bmod 65536
  (decodeLoop isPath slen (s ++ [0]) 0).map fun tmp ↦ ⟨slen + 1, tmp⟩

/-! ## What it should do -/

/-- Every `%` is followed by two hexadecimal digits. -/
def WellFormed (s : Str) : Prop :=
  ∀ u v, s = u ++ chr '%' :: v → ∃ a b w, v = a :: b :: w ∧
    (hexDigit a).isSome = true ∧ (hexDigit b).isSome = true

/-- The bytes of a string whose escapes have these values. -/
def unescape (value : UInt8 → UInt8 → UInt8) (isPath : Bool) : Str → List UInt8
  | [] => []
  | c :: s =>
      if c = chr '%' then
        match s with
        | a :: b :: s => value a b :: unescape value isPath s
        | _ => []
      else decodeChar isPath c :: unescape value isPath s

/-- The value of two hexadecimal digits. -/
def hexCode (a b : UInt8) : UInt8 :=
  UInt8.ofNat (16 * (hexDigit a).getD 0 + (hexDigit b).getD 0)

def percentDecode : Bool → Str → List UInt8 := unescape hexCode

/-- It reads no further than the NUL, fills no more than the `slen + 1` bytes for the string, one of
them with a NUL, and decodes what is well-formed. -/
def DecodesWell (isPath : Bool) (s : Str) : Prop :=
  ∃ d, decodeRun isPath s = some d ∧ d.size = s.length + 1 ∧ d.tmp.length ≤ d.size ∧
    0 ∈ d.tmp ∧ (WellFormed s → d.tmp = percentDecode isPath s ++ [0])

/-! ## Whole escapes -/

/-- Characters and escapes that are not cut. -/
inductive Whole : Str → Prop
  | nil : Whole []
  | char {c : UInt8} {s : Str} : c ≠ chr '%' → Whole s → Whole (c :: s)
  | escape {a b : UInt8} {s : Str} : Whole s → Whole (chr '%' :: a :: b :: s)

/-- An escape among them that stands for 0. -/
def ZeroEscape (s : Str) : Prop :=
  ∃ u a b v, s = u ++ chr '%' :: a :: b :: v ∧ Whole u ∧ decodeCode a b = 0

variable {value : UInt8 → UInt8 → UInt8} {isPath : Bool} {s u t : Str} {c a b : UInt8} {slen : Int}
  {i : Nat}

@[simp] theorem unescape_escape : unescape value isPath (chr '%' :: a :: b :: s) =
    value a b :: unescape value isPath s := by
  rw [unescape, if_pos rfl]

theorem unescape_char (hc : c ≠ chr '%') :
    unescape value isPath (c :: s) = decodeChar isPath c :: unescape value isPath s := by
  rw [unescape.eq_def]
  exact if_neg hc

/-- At the end of a string an escape may be cut behind its `%` or behind one character. -/
theorem whole_cases (s : Str) : Whole s ∨ (∃ u, s = u ++ [chr '%'] ∧ Whole u) ∨
    ∃ u a, s = u ++ [chr '%', a] ∧ Whole u := by
  induction s using unescape.induct with
  | case1 => exact .inl .nil
  | case2 a b s ih =>
      rcases ih with h | ⟨u, rfl, hu⟩ | ⟨u, c, rfl, hu⟩
      · exact .inl h.escape
      · exact .inr (.inl ⟨_ :: a :: b :: u, rfl, hu.escape⟩)
      · exact .inr (.inr ⟨_ :: a :: b :: u, c, rfl, hu.escape⟩)
  | case3 s hcut =>
      cases s with
      | nil => exact .inr (.inl ⟨[], rfl, .nil⟩)
      | cons a s =>
          cases s with
          | nil => exact .inr (.inr ⟨[], a, rfl, .nil⟩)
          | cons b s => exact absurd rfl (hcut a b s)
  | case4 c s hc ih =>
      rcases ih with h | ⟨u, rfl, hu⟩ | ⟨u, a, rfl, hu⟩
      · exact .inl (h.char hc)
      · exact .inr (.inl ⟨c :: u, rfl, hu.char hc⟩)
      · exact .inr (.inr ⟨c :: u, a, rfl, hu.char hc⟩)

theorem length_unescape (hu : Whole u) : (unescape value isPath u).length ≤ u.length := by
  induction hu with
  | nil => exact Nat.le_refl 0
  | char hc _ ih =>
      rw [unescape_char hc, List.length_cons, List.length_cons]
      omega
  | escape _ ih =>
      rw [unescape_escape, List.length_cons, List.length_cons, List.length_cons, List.length_cons]
      omega

theorem decodeChar_ne_zero (hc : c ≠ 0) : decodeChar isPath c ≠ 0 := by
  unfold decodeChar
  split
  · decide
  split
  · decide
  · exact hc

theorem zeroEscape_char (hc : c ≠ chr '%') : ZeroEscape (c :: s) ↔ ZeroEscape s := by
  constructor
  · intro ⟨u, a, b, v, heq, hu, hzero⟩
    cases hu with
    | nil => exact absurd (List.cons.inj heq).1 hc
    | char _ hu => exact ⟨_, a, b, v, (List.cons.inj heq).2, hu, hzero⟩
    | escape _ => exact absurd (List.cons.inj heq).1 hc
  · intro ⟨u, a, b, v, heq, hu, hzero⟩
    exact ⟨c :: u, a, b, v, congrArg (c :: ·) heq, hu.char hc, hzero⟩

theorem zeroEscape_escape : ZeroEscape (chr '%' :: a :: b :: s) ↔
    decodeCode a b = 0 ∨ ZeroEscape s := by
  constructor
  · intro ⟨u, a', b', v, heq, hu, hzero⟩
    cases hu with
    | nil =>
        obtain ⟨ha, hb, -⟩ : a = a' ∧ b = b' ∧ s = v := by simpa using heq
        exact .inl (ha ▸ hb ▸ hzero)
    | char hc _ => exact absurd (List.cons.inj heq).1.symm hc
    | @escape a'' b'' u hu =>
        obtain ⟨-, -, hs⟩ : a = a'' ∧ b = b'' ∧ s = u ++ chr '%' :: a' :: b' :: v := by
          simpa using heq
        exact .inr ⟨u, a', b', v, hs, hu, hzero⟩
  · rintro (hzero | ⟨u, a', b', v, rfl, hu, hzero⟩)
    · exact ⟨[], a, b, s, rfl, .nil, hzero⟩
    · exact ⟨_ :: a :: b :: u, a', b', v, rfl, hu.escape, hzero⟩

/-- Among whole escapes, only they can make a NUL. -/
theorem zero_mem_unescape (hu : Whole u) (hne : 0 ∉ u) :
    0 ∈ unescape decodeCode isPath u ↔ ZeroEscape u := by
  induction hu with
  | nil =>
      refine iff_of_false List.not_mem_nil ?_
      intro ⟨u, a, b, v, heq, _⟩
      exact absurd heq.symm (List.append_ne_nil_of_right_ne_nil u (List.cons_ne_nil _ _))
  | @char c s hc _ ih =>
      obtain ⟨hzero, hs⟩ := not_or.mp fun h ↦ hne (List.mem_cons.mpr h)
      rw [unescape_char hc, zeroEscape_char hc, ← ih hs, List.mem_cons]
      exact or_iff_right (decodeChar_ne_zero (Ne.symm hzero)).symm
  | @escape a b s _ ih =>
      have hs : 0 ∉ s := fun h ↦ hne
        (List.mem_cons_of_mem _ (List.mem_cons_of_mem _ (List.mem_cons_of_mem _ h)))
      rw [unescape_escape, zeroEscape_escape, ← ih hs, List.mem_cons, eq_comm]

/-! ## The loop -/

theorem decodeLoop_char (hi : i ≤ 32767) (hle : (i : Int) ≤ slen) (hc : c ≠ chr '%') :
    decodeLoop isPath slen (c :: s) i =
      (decodeLoop isPath slen s (i + 1)).map (decodeChar isPath c :: ·) := by
  rw [decodeLoop.eq_def]
  simp only
  rw [if_neg (by omega), if_neg (by omega), if_neg hc]

theorem decodeLoop_escape (hi : i ≤ 32767) (hle : (i : Int) ≤ slen) :
    decodeLoop isPath slen (chr '%' :: a :: b :: s) i =
      (decodeLoop isPath slen s (i + 3)).map (decodeCode a b :: ·) := by
  rw [decodeLoop.eq_def]
  simp only
  rw [if_neg (by omega), if_neg (by omega), if_pos trivial]

/-- An escape that is cut is read behind the NUL. -/
theorem decodeLoop_cut (hi : i ≤ 32767) (hle : (i : Int) ≤ slen) (hcut : s.length < 2) :
    decodeLoop isPath slen (chr '%' :: s) i = none := by
  rw [decodeLoop.eq_def]
  simp only
  rw [if_neg (by omega), if_neg (by omega), if_pos trivial]
  match s, hcut with
  | [], _ => rfl
  | [a], _ => rfl

theorem decodeLoop_end (hi : i ≤ 32767) (hlt : slen < i) :
    decodeLoop isPath slen s i = some [] := by
  rw [decodeLoop.eq_def]
  simp only
  rw [if_neg (by omega), if_pos hlt]

/-- Whole escapes are decoded, and it goes on behind them. -/
theorem decodeLoop_whole (hu : Whole u) (hmax : slen ≤ 32767)
    (hle : (i : Int) + u.length ≤ slen + 1) :
    decodeLoop isPath slen (u ++ t) i =
      (decodeLoop isPath slen t (i + u.length)).map (unescape decodeCode isPath u ++ ·) := by
  induction hu generalizing i with
  | nil =>
      change _ = (decodeLoop isPath slen t i).map id
      rw [Option.map_id]
      rfl
  | @char c s hc _ ih =>
      rw [List.length_cons] at hle
      rw [List.cons_append, decodeLoop_char (by omega) (by omega) hc, ih (by omega),
        Option.map_map, unescape_char hc, List.length_cons,
        show i + 1 + s.length = i + (s.length + 1) by omega]
      rfl
  | @escape a b s _ ih =>
      rw [List.length_cons, List.length_cons, List.length_cons] at hle
      rw [List.cons_append, List.cons_append, List.cons_append,
        decodeLoop_escape (by omega) (by omega), ih (by omega), Option.map_map, unescape_escape,
        List.length_cons, List.length_cons, List.length_cons,
        show i + 3 + s.length = i + (s.length + 1 + 1 + 1) by omega]
      rfl

/-- With the largest length it runs out of the string. -/
theorem decodeLoop_max : decodeLoop isPath 32767 s i = none := by
  induction s using unescape.induct generalizing i with
  | case1 =>
      rw [decodeLoop.eq_def]
      simp only
      split_ifs with h h'
      · rfl
      · omega
      · rfl
  | case2 a b s ih =>
      by_cases hi : i ≤ 32767
      · rw [decodeLoop_escape hi (by omega), ih, Option.map_none]
      · rw [decodeLoop.eq_def]
        exact if_pos (by omega)
  | case3 s hcut =>
      by_cases hi : i ≤ 32767
      · apply decodeLoop_cut hi (by omega)
        by_contra hlong
        match s, hlong with
        | a :: b :: s, _ => exact hcut a b s rfl
        | [_], h => exact h (Nat.lt_succ_self 1)
        | [], h => exact h (Nat.zero_lt_two)
      · rw [decodeLoop.eq_def]
        exact if_pos (by omega)
  | case4 c s hc ih =>
      by_cases hi : i ≤ 32767
      · rw [decodeLoop_char hi (by omega) hc, ih, Option.map_none]
      · rw [decodeLoop.eq_def]
        exact if_pos (by omega)

theorem length_lt (s : Str) : (s.length : Int).bmod 65536 = s.length ↔ s.length < 32768 := by
  rw [Int.bmod_def]
  omega

/-- An escape that is cut behind one character, with one that stands for 0. -/
def CutWithZero (s : Str) : Prop :=
  ∃ u a, s = u ++ [chr '%', a] ∧ Whole u ∧ (decodeCode a 0 = 0 ∨ ZeroEscape u)

theorem wellFormed_tail (h : WellFormed (u ++ s)) : WellFormed s := by
  intro v w heq
  exact h (u ++ v) w (by rw [heq, List.append_assoc])

theorem decodeCode_hex (ha : (hexDigit a).isSome = true) (hb : (hexDigit b).isSome = true) :
    decodeCode a b = hexCode a b := by
  obtain ⟨hi, ha⟩ := Option.isSome_iff_exists.mp ha
  obtain ⟨lo, hb⟩ := Option.isSome_iff_exists.mp hb
  unfold decodeCode hexCode
  rw [ofInt_htoi_two ha hb, ha, hb, Option.getD_some, Option.getD_some]

theorem unescape_wellFormed (hu : Whole u) (hwell : WellFormed u) :
    unescape decodeCode isPath u = percentDecode isPath u := by
  unfold percentDecode
  induction hu with
  | nil => rfl
  | @char c s hc _ ih =>
      rw [unescape_char hc, unescape_char hc, ih (@wellFormed_tail s [c] hwell)]
  | @escape a b s _ ih =>
      obtain ⟨a', b', w, heq, ha, hb⟩ := hwell [] (a :: b :: s) rfl
      obtain ⟨rfl, rfl, -⟩ : a = a' ∧ b = b' ∧ s = w := by simpa using heq
      rw [unescape_escape, unescape_escape, decodeCode_hex ha hb,
        ih (@wellFormed_tail s [chr '%', a, b] hwell)]

theorem decodeRun_short (hlt : s.length < 32767) :
    decodeRun isPath s = (decodeLoop isPath s.length (s ++ [0]) 0).map
      fun tmp ↦ ⟨s.length + 1, tmp⟩ := by
  unfold decodeRun
  rw [(length_lt s).mpr (by omega)]

/-- The NUL behind whole escapes. -/
theorem decodeRun_whole (hs : Whole s) (hlt : s.length < 32767) :
    decodeRun isPath s = some ⟨s.length + 1, unescape decodeCode isPath s ++ [0]⟩ := by
  have hend : decodeLoop isPath s.length [0] s.length = some [0] := by
    rw [decodeLoop_char (by omega) (Int.le_refl _) (by decide),
      decodeLoop_end (by omega) (by omega)]
    cases isPath <;> rfl
  rw [decodeRun_short hlt, decodeLoop_whole hs (by omega) (by omega), Nat.zero_add, hend]
  rfl

theorem decodeRun_cut (hu : Whole u) (hlt : (u ++ [chr '%']).length < 32767) :
    decodeRun isPath (u ++ [chr '%']) = none := by
  have hlength : (u ++ [chr '%']).length = u.length + 1 := List.length_append
  have hcut : decodeLoop isPath (u ++ [chr '%']).length ([chr '%'] ++ [0]) (0 + u.length) = none :=
    decodeLoop_cut (by omega) (by omega) (by decide)
  rw [decodeRun_short hlt, List.append_assoc, decodeLoop_whole hu (by omega) (by omega), hcut]
  rfl

theorem decodeRun_cut_one (hu : Whole u) (hlt : (u ++ [chr '%', a]).length < 32767) :
    decodeRun isPath (u ++ [chr '%', a]) = some
      ⟨(u ++ [chr '%', a]).length + 1, unescape decodeCode isPath u ++ [decodeCode a 0]⟩ := by
  have hlength : (u ++ [chr '%', a]).length = u.length + 2 := List.length_append
  have hcut : decodeLoop isPath (u ++ [chr '%', a]).length ([chr '%', a] ++ [0]) (0 + u.length) =
      some [decodeCode a 0] := by
    change decodeLoop isPath _ [chr '%', a, 0] _ = _
    rw [decodeLoop_escape (by omega) (by omega), decodeLoop_end (by omega) (by omega)]
    rfl
  rw [decodeRun_short hlt, List.append_assoc, decodeLoop_whole hu (by omega) (by omega), hcut]
  rfl

theorem decodeBytes_whole (hu : Whole u) :
    decodeBytes isPath (u ++ t) = unescape decodeCode isPath u ++ decodeBytes isPath t := by
  induction hu with
  | nil => rfl
  | @char c s hc _ ih =>
      rw [List.cons_append, decodeBytes.eq_def, unescape_char hc]
      simp only [hc, if_false, ih]
      unfold decodeChar
      split_ifs <;> rfl
  | @escape a b s _ ih =>
      rw [List.cons_append, List.cons_append, List.cons_append, decodeBytes.eq_def,
        unescape_escape]
      simp only [if_true, ih]
      rfl

/-- Where it does not read behind the NUL, the loop stores what `decodeBytes` says. -/
theorem decodeRun_eq (hlt : s.length < 32767)
    (hends : Whole s ∨ ∃ u a, s = u ++ [chr '%', a] ∧ Whole u) :
    decodeRun isPath s = some ⟨s.length + 1, decodeBytes isPath s⟩ := by
  rcases hends with hwhole | ⟨u, a, rfl, hu⟩
  · have hbytes := @decodeBytes_whole isPath s [] hwhole
    rw [List.append_nil] at hbytes
    rw [decodeRun_whole hwhole hlt, hbytes]
    rfl
  · have hnul (i : Int) : htoi.go i [0] = htoi.go i [] := by
      rw [htoi.go.eq_def i [0]]
      simp only
      rw [if_neg (by decide), if_neg (by decide), if_neg (by decide), if_neg (by decide), htoi.go]
    have hcode : htoi [a, 0] = htoi [a] := by
      unfold htoi
      rw [htoi.go.eq_def 0 [a, 0], htoi.go.eq_def 0 [a]]
      simp only [hnul]
    rw [decodeRun_cut_one hu hlt, decodeBytes_whole hu]
    unfold decodeCode
    rw [hcode]
    rfl

/-- From 32767 characters on the block is not of `slen + 1` bytes, or the loop does not end. -/
theorem not_decodesWell_long (hlong : 32767 ≤ s.length) : ¬ DecodesWell isPath s := by
  intro ⟨d, hrun, hsize, _⟩
  unfold decodeRun at hrun
  obtain ⟨tmp, hloop, rfl⟩ := Option.map_eq_some_iff.mp hrun
  have hlt : s.length < 32768 := (length_lt s).mp (by simpa using hsize)
  have hmax : (s.length : Int).bmod 65536 = 32767 := by
    rw [(length_lt s).mpr hlt]
    omega
  rw [hmax, decodeLoop_max] at hloop
  cases hloop

/-- `decode` is safe and right for a string of fewer than 32767 characters whose escapes are whole,
or of which the last is cut behind one character, while one of them stands for 0. -/
theorem decodesWell_iff (isPath : Bool) (hs : 0 ∉ s) :
    DecodesWell isPath s ↔ s.length < 32767 ∧ (Whole s ∨ CutWithZero s) := by
  constructor
  · intro hwell
    have hlt : s.length < 32767 := by
      by_contra hlong
      exact not_decodesWell_long (Nat.le_of_not_lt hlong) hwell
    refine ⟨hlt, ?_⟩
    obtain ⟨d, hrun, -, -, hzero, -⟩ := hwell
    rcases whole_cases s with hwhole | ⟨u, rfl, hu⟩ | ⟨u, a, rfl, hu⟩
    · exact .inl hwhole
    · rw [decodeRun_cut hu hlt] at hrun
      cases hrun
    · rw [decodeRun_cut_one hu hlt] at hrun
      obtain rfl := Option.some.inj hrun
      have hne : 0 ∉ u := fun h ↦ hs (List.mem_append_left _ h)
      rw [List.mem_append, List.mem_singleton, zero_mem_unescape hu hne] at hzero
      exact .inr ⟨u, a, rfl, hu, hzero.symm.imp_left Eq.symm⟩
  · intro ⟨hlt, hends⟩
    rcases hends with hwhole | ⟨u, a, rfl, hu, hzero⟩
    · refine ⟨_, decodeRun_whole hwhole hlt, rfl, ?_, List.mem_append_right _ (by simp), ?_⟩
      · have hle := @length_unescape decodeCode isPath s hwhole
        simp only [List.length_append, List.length_singleton]
        omega
      · intro hwell
        simp only [unescape_wellFormed hwhole hwell]
    · have hne : 0 ∉ u := fun h ↦ hs (List.mem_append_left _ h)
      refine ⟨_, decodeRun_cut_one hu hlt, rfl, ?_, ?_, ?_⟩
      · have hle := @length_unescape decodeCode isPath u hu
        simp only [List.length_append, List.length_cons]
        omega
      · rw [List.mem_append, List.mem_singleton, zero_mem_unescape hu hne]
        exact (hzero.imp_left Eq.symm).symm
      · intro hwell
        obtain ⟨a', b', w, heq, -⟩ := hwell u [a] rfl
        cases heq

/-- A `%` at the end: the character behind the NUL is read. -/
theorem decode_percent : ¬ DecodesWell true (bytes "index.htm%") := by
  intro ⟨d, hrun, _⟩
  have hnone : decodeRun true (bytes "index.htm%") = none := by decide +kernel
  exact Option.some_ne_none d (hrun.symm.trans hnone)

theorem decodesWell_query : DecodesWell false (bytes "a%20b+") := by
  refine (decodesWell_iff false (by decide +kernel)).mpr ⟨by decide +kernel, .inl ?_⟩
  have htext : bytes "a%20b+" =
      [chr 'a', chr '%', chr '2', chr '0', chr 'b', chr '+'] := by decide +kernel
  rw [htext]
  exact .char (by decide) (.escape (.char (by decide) (.char (by decide) .nil)))

end PrintServer.Http
