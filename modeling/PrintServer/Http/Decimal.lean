import Mathlib.Data.List.TakeWhile
import PrintServer.Http.CString

/-!
# Numbers in a text

What `atol` makes of digits, and `AddrToIP` of httpd.c, which tftpd.c uses too.
-/

namespace PrintServer.Http

/-- The number that decimal digits stand for. -/
def decimalValue (s : Str) : Nat := s.foldl (fun n c ↦ 10 * n + (c - chr '0').toNat) 0

def IsDigits (s : Str) : Prop := s ≠ [] ∧ ∀ c ∈ s, chr '0' ≤ c ∧ c ≤ chr '9'

variable {s : Str}

/-- `atol` reads the digits behind the blanks, up to the next character that is none. -/
theorem atol_number {k : Nat} {rest : Str} (hs : IsDigits s)
    (hrest : ∀ c ∈ rest.head?, ¬ (chr '0' ≤ c ∧ c ≤ chr '9')) :
    atol (List.replicate k (chr ' ') ++ (s ++ rest)) =
      Int32.ofInt (min 2147483647 (decimalValue s)) := by
  obtain ⟨hne, hdigits⟩ := hs
  obtain ⟨c, t, rfl⟩ := List.exists_cons_of_ne_nil hne
  have hc := hdigits c List.mem_cons_self
  have hdigit : ∀ d : UInt8, chr '0' ≤ d ∧ d ≤ chr '9' →
      ¬ (d = chr ' ' ∨ (9 ≤ d ∧ d ≤ 13)) ∧ d ≠ chr '-' ∧ d ≠ chr '+' := by
    refine forall_byte ?_
    decide +kernel
  obtain ⟨hblank, hminus, hplus⟩ := hdigit c hc
  have hdrop : (List.replicate k (chr ' ') ++ (c :: t ++ rest)).dropWhile
      (fun c ↦ c = chr ' ' ∨ (9 ≤ c ∧ c ≤ 13)) = c :: (t ++ rest) := by
    rw [List.dropWhile_append_of_pos, List.cons_append, List.dropWhile_cons_of_neg]
    · simpa using hblank
    · intro d hd
      rw [List.eq_of_mem_replicate hd]
      decide
  have hnone : rest.takeWhile (fun c ↦ chr '0' ≤ c ∧ c ≤ chr '9') = [] := by
    cases rest with
    | nil => rfl
    | cons d rest => exact List.takeWhile_cons_of_neg (by simpa using hrest d rfl)
  have hall : (c :: (t ++ rest)).takeWhile (fun c ↦ chr '0' ≤ c ∧ c ≤ chr '9') = c :: t := by
    rw [← List.cons_append, List.takeWhile_append_of_pos, hnone, List.append_nil]
    intro d hd
    simpa using hdigits d hd
  have hvalue (u : Str) (n : Nat) :
      u.foldl (fun (n : Int) c ↦ 10 * n + (c - chr '0').toNat) n =
        (u.foldl (fun n c ↦ 10 * n + (c - chr '0').toNat) n : Nat) := by
    induction u generalizing n with
    | nil => rfl
    | cons d u ih =>
        rw [List.foldl_cons, List.foldl_cons, ← ih]
        congr 1
  have hvalue' : (c :: t).foldl (fun (n : Int) c ↦ 10 * n + (c - chr '0').toNat) 0 =
      decimalValue (c :: t) := hvalue (c :: t) 0
  unfold atol
  simp only [hdrop, hminus, hplus, if_false, hall, hvalue']
  congr 1
  omega

theorem atol_blanks {k : Nat} (hs : IsDigits s) :
    atol (List.replicate k (chr ' ') ++ s) = Int32.ofInt (min 2147483647 (decimalValue s)) := by
  have hnumber := @atol_number s k [] hs fun c hc ↦ absurd hc (Option.not_mem_none c)
  rwa [List.append_nil] at hnumber

/-! ## Dotted quads -/

def isDigit (c : UInt8) : Bool := chr '0' ≤ c ∧ c ≤ chr '9'

/-- The end of a number for `AddrToIP`. -/
def inPart (c : UInt8) : Bool := c ≠ chr '.' ∧ c ≠ chr ' '

/-- `TempIP = atoi( Startp )`, an `int16`. -/
def tempIP (part : Str) : Int16 := (atol part).toInt16

/-- The loop of `AddrToIP` with `n` numbers to come behind this one. -/
def addrLoop : Nat → Str → Option (List UInt8)
  | n, s =>
      let part := s.takeWhile inPart
      let rest := s.dropWhile inPart
      if part.all isDigit = false then none
      else if part = [] ∨ tempIP part < 0 ∨ tempIP part > 255 then none
      else
        let b := (tempIP part).toUInt16.toUInt8
        match n, rest with
        | 0, rest =>
            if rest.head? = some (chr '.') then none
            else if rest.dropWhile (· = chr ' ') = [] then some [b] else none
        | n + 1, c :: rest => if c = chr '.' then (addrLoop n rest).map (b :: ·) else none
        | _ + 1, [] => none

def addrToIP (s : Str) : Option (List UInt8) := addrLoop 3 s

/-! ## What it accepts -/

/-- Numbers that satisfy `ok` with dots between them, `n` behind the first one, and blanks behind
the last. -/
def Quad (ok : Nat → Prop) : Nat → Str → Prop
  | n, s =>
      s.takeWhile isDigit ≠ [] ∧ ok (decimalValue (s.takeWhile isDigit)) ∧
        match n with
        | 0 => ∀ c ∈ s.dropWhile isDigit, c = chr ' '
        | n + 1 => ∃ t, s.dropWhile isDigit = chr '.' :: t ∧ Quad ok n t

/-- What the tests of `TempIP` let through: `atoi` clamps, and an `int16` wraps. -/
def FitsTempIP (n : Nat) : Prop :=
  let t := (Int32.ofInt (min 2147483647 n)).toInt16
  0 ≤ t ∧ t ≤ 255

theorem fitsTempIP_iff {n : Nat} (h : n < 65536) : FitsTempIP n ↔ n ≤ 255 := by
  have hmin : min (2147483647 : Int) n = n := by omega
  have hint : ((Int32.ofInt n).toInt16).toInt = (n : Int).bmod 65536 := by
    rw [Int32.toInt_toInt16, Int32.toInt_ofInt_of_le (by omega) (by omega)]
  unfold FitsTempIP
  simp only
  rw [hmin, Int16.le_iff_toInt_le, Int16.le_iff_toInt_le, hint]
  change 0 ≤ (n : Int).bmod 65536 ∧ (n : Int).bmod 65536 ≤ 255 ↔ _
  rw [Int.bmod_def]
  omega

theorem inPart_of_isDigit (c : UInt8) : isDigit c = true → inPart c = true := by
  revert c
  refine forall_byte ?_
  decide +kernel

/-- A number that ends where `AddrToIP` stops ends where its digits do. -/
theorem digits_eq_part (h : ∀ c ∈ s.takeWhile inPart, isDigit c = true) :
    s.takeWhile isDigit = s.takeWhile inPart ∧ s.dropWhile isDigit = s.dropWhile inPart := by
  induction s with
  | nil => exact ⟨rfl, rfl⟩
  | cons c s ih =>
      by_cases hc : inPart c = true
      · rw [List.takeWhile_cons_of_pos hc] at h
        obtain ⟨hdigit, hrest⟩ := List.forall_mem_cons.mp h
        obtain ⟨htake, hdrop⟩ := ih hrest
        rw [List.takeWhile_cons_of_pos hc, List.takeWhile_cons_of_pos hdigit,
          List.dropWhile_cons_of_pos hc, List.dropWhile_cons_of_pos hdigit, htake, hdrop]
        exact ⟨rfl, rfl⟩
      · have hdigit : ¬ isDigit c = true := fun hd ↦ hc (inPart_of_isDigit c hd)
        rw [List.takeWhile_cons_of_neg hc, List.takeWhile_cons_of_neg hdigit,
          List.dropWhile_cons_of_neg hc, List.dropWhile_cons_of_neg hdigit]
        exact ⟨rfl, rfl⟩

theorem part_eq_digits (h : ∀ c ∈ (s.dropWhile isDigit).head?, inPart c = false) :
    s.takeWhile isDigit = s.takeWhile inPart ∧ s.dropWhile isDigit = s.dropWhile inPart := by
  refine digits_eq_part fun c hc ↦ ?_
  rw [← @List.takeWhile_append_dropWhile _ isDigit s] at hc
  have hdigits : ∀ d ∈ s.takeWhile isDigit, inPart d = true := fun d hd ↦
    inPart_of_isDigit d (List.mem_takeWhile_imp hd)
  rw [List.takeWhile_append_of_pos hdigits] at hc
  have hstop : (s.dropWhile isDigit).takeWhile inPart = [] := by
    cases hrest : s.dropWhile isDigit with
    | nil => rfl
    | cons d t =>
        rw [hrest] at h
        exact List.takeWhile_cons_of_neg (by rw [h d rfl]; exact Bool.false_ne_true)
  rw [hstop, List.append_nil] at hc
  exact List.mem_takeWhile_imp hc

theorem tempIP_digits (hne : s ≠ []) (h : ∀ c ∈ s, isDigit c = true) :
    ¬ (tempIP s < 0 ∨ tempIP s > 255) ↔ FitsTempIP (decimalValue s) := by
  have hdigits : IsDigits s := ⟨hne, fun c hc ↦ by simpa [isDigit] using h c hc⟩
  have hatol := @atol_blanks s 0 hdigits
  rw [List.replicate_zero, List.nil_append] at hatol
  unfold tempIP FitsTempIP
  rw [hatol, not_or, Int16.not_lt, gt_iff_lt, Int16.not_lt]

/-- What is behind a number, with `n` numbers to come, of which `more` holds. -/
def Behind (more : Str → Prop) (rest : Str) : Nat → Prop
  | 0 => ∀ c ∈ rest, c = chr ' '
  | _ + 1 => ∃ t, rest = chr '.' :: t ∧ more t

theorem quad_iff {ok : Nat → Prop} {n : Nat} : Quad ok n s ↔
    s.takeWhile isDigit ≠ [] ∧ ok (decimalValue (s.takeWhile isDigit)) ∧
      Behind (Quad ok (n - 1)) (s.dropWhile isDigit) n := by
  cases n <;> rfl

theorem Behind.mono {P Q : Str → Prop} (h : ∀ t, P t → Q t) {t : Str} {n : Nat}
    (hb : Behind P t n) : Behind Q t n := by
  cases n with
  | zero => exact hb
  | succ n =>
      obtain ⟨u, heq, hu⟩ := hb
      exact ⟨u, heq, h u hu⟩

/-- Behind a number `AddrToIP` stops. -/
theorem Behind.stops {more : Str → Prop} {t : Str} {n : Nat} (h : Behind more t n) :
    ∀ c ∈ t.head?, inPart c = false := by
  intro c hc
  cases n with
  | zero =>
      have hblank := h c (List.mem_of_mem_head? hc)
      rw [hblank]
      decide
  | succ n =>
      obtain ⟨u, rfl, -⟩ := h
      obtain rfl := Option.mem_some.mp hc
      decide

theorem dropWhile_blank_eq_nil {t : Str} :
    t.head? ≠ some (chr '.') ∧ t.dropWhile (· = chr ' ') = [] ↔ ∀ c ∈ t, c = chr ' ' := by
  rw [List.dropWhile_eq_nil_iff]
  constructor
  · exact fun h c hc ↦ of_decide_eq_true (h.2 c hc)
  · refine fun h ↦ ⟨fun hdot ↦ ?_, fun c hc ↦ decide_eq_true (h c hc)⟩
    have heq := h _ (List.mem_of_mem_head? hdot)
    exact absurd heq (by decide)

/-- One turn of the loop. -/
theorem addrLoop_isSome_iff {n : Nat} : (addrLoop n s).isSome = true ↔
    s.takeWhile isDigit ≠ [] ∧ FitsTempIP (decimalValue (s.takeWhile isDigit)) ∧
      Behind (fun t ↦ (addrLoop (n - 1) t).isSome = true) (s.dropWhile isDigit) n := by
  rw [addrLoop]
  simp only
  by_cases hall : (s.takeWhile inPart).all isDigit = true
  · obtain ⟨htake, hdrop⟩ := digits_eq_part (List.all_eq_true.mp hall)
    rw [if_neg (by rw [hall]; exact Bool.noConfusion), htake, hdrop]
    by_cases hne : s.takeWhile inPart = []
    · rw [if_pos (.inl hne)]
      exact iff_of_false Bool.false_ne_true fun h ↦ h.1 hne
    have hfits := tempIP_digits hne (List.all_eq_true.mp hall)
    by_cases htemp : tempIP (s.takeWhile inPart) < 0 ∨ tempIP (s.takeWhile inPart) > 255
    · rw [if_pos (.inr htemp)]
      exact iff_of_false Bool.false_ne_true fun h ↦ hfits.mpr h.2.1 htemp
    rw [if_neg (not_or.mpr ⟨hne, htemp⟩)]
    refine Iff.trans ?_ ⟨fun h ↦ ⟨hne, hfits.mp htemp, h⟩, fun h ↦ h.2.2⟩
    cases n with
    | zero =>
        refine Iff.trans ?_ dropWhile_blank_eq_nil
        simp only
        split
        · exact iff_of_false Bool.false_ne_true fun h ↦ h.1 ‹_›
        · split
          · exact iff_of_true rfl ⟨‹_›, ‹_›⟩
          · exact iff_of_false Bool.false_ne_true fun h ↦ absurd h.2 ‹_›
    | succ n =>
        unfold Behind
        cases s.dropWhile inPart with
        | nil =>
            refine iff_of_false Bool.false_ne_true ?_
            rintro ⟨t, heq, -⟩
            exact List.cons_ne_nil _ _ heq.symm
        | cons c t =>
            simp only
            split
            · rename_i hdot
              rw [Option.isSome_map]
              constructor
              · exact fun h ↦ ⟨t, by rw [hdot], h⟩
              · rintro ⟨u, heq, hu⟩
                rwa [(List.cons.inj heq).2]
            · rename_i hdot
              refine iff_of_false Bool.false_ne_true ?_
              rintro ⟨u, heq, -⟩
              exact hdot (List.cons.inj heq).1
  · -- another character in the number
    rw [if_pos (Bool.not_eq_true _ ▸ hall)]
    refine iff_of_false Bool.false_ne_true fun h ↦ hall ?_
    obtain ⟨htake, -⟩ := part_eq_digits h.2.2.stops
    rw [← htake]
    exact List.all_eq_true.mpr fun c hc ↦ List.mem_takeWhile_imp hc

/-- `AddrToIP` accepts the quads whose numbers pass its tests. -/
theorem addrLoop_isSome {n : Nat} : (addrLoop n s).isSome = true ↔ Quad FitsTempIP n s := by
  induction n generalizing s with
  | zero =>
      rw [addrLoop_isSome_iff, quad_iff]
      rfl
  | succ n ih =>
      rw [addrLoop_isSome_iff, quad_iff]
      have hmore : (fun t ↦ (addrLoop (n + 1 - 1) t).isSome = true) = Quad FitsTempIP (n + 1 - 1) :=
        funext fun t ↦ propext ih
      rw [hmore]

theorem addrToIP_isSome : (addrToIP s).isSome = true ↔ Quad FitsTempIP 3 s := addrLoop_isSome

theorem Quad.mono {P Q : Nat → Prop} (h : ∀ n, P n → Q n) {n : Nat} (hq : Quad P n s) :
    Quad Q n s := by
  induction n generalizing s with
  | zero =>
      rw [quad_iff] at hq ⊢
      exact ⟨hq.1, h _ hq.2.1, hq.2.2⟩
  | succ n ih =>
      rw [quad_iff] at hq ⊢
      exact ⟨hq.1, h _ hq.2.1, hq.2.2.mono fun t ht ↦ ih ht⟩

theorem Quad.and {P Q : Nat → Prop} {n : Nat} (hp : Quad P n s) (hq : Quad Q n s) :
    Quad (fun k ↦ P k ∧ Q k) n s := by
  induction n generalizing s with
  | zero =>
      rw [quad_iff] at hp hq ⊢
      exact ⟨hp.1, ⟨hp.2.1, hq.2.1⟩, hp.2.2⟩
  | succ n ih =>
      rw [quad_iff] at hp hq ⊢
      obtain ⟨t, hrest, ht⟩ := hp.2.2
      obtain ⟨u, hrest', hu⟩ := hq.2.2
      obtain ⟨-, rfl⟩ := List.cons.inj (hrest.symm.trans hrest')
      exact ⟨hp.1, ⟨hp.2.1, hq.2.1⟩, t, hrest, ih ht hu⟩

end PrintServer.Http
