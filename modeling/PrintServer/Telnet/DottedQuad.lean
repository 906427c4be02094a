import Mathlib.Data.List.DropRight
import Mathlib.Data.List.Forall2
import Mathlib.Tactic.IntervalCases
import PrintServer.Telnet.SetItems

/-!
# Dotted quads

What `CheckInputIPAddress` lets through, and what `aton` makes of it.
-/

namespace PrintServer.Telnet

open Flash Http

def blanks (k : Nat) : Str := List.replicate k (chr ' ')

/-- A number with blanks around it. -/
def Numeral (part : Str) (n : UInt8) : Prop :=
  ∃ j k digits, part = blanks j ++ digits ++ blanks k ∧ IsDigits digits ∧
    decimalValue digits = n.toNat

def parts (text : Str) : List Str := text.splitOn (chr '.')

/-- Four numbers with dots between them. -/
def IsQuad (text : Str) (q : List UInt8) : Prop :=
  q.length = 4 ∧ List.Forall₂ Numeral (parts text) q

def isSpace (ch : UInt8) : Bool := ch = chr ' '

def trim (part : Str) : Str := (part.dropWhile isSpace).rdropWhile isSpace

/-- A part has no blank inside its number, which fits a byte. -/
def Unbroken (part : Str) : Prop := chr ' ' ∉ trim part ∧ decimalValue (trim part) ≤ 255

instance (part : Str) : Decidable (Unbroken part) := inferInstanceAs (Decidable (_ ∧ _))

/-! ## The counters -/

variable {text part head digits : Str} {tail : List Str} {c : Counters} {ch n : UInt8} {k : Nat}
  {q : List UInt8}

def HasDigit (part : Str) : Prop := ∃ ch ∈ part, isDigit ch = true

theorem HasDigit.cons (h : HasDigit part) : HasDigit (ch :: part) := by
  obtain ⟨d, hmem, hd⟩ := h
  exact ⟨d, List.mem_cons_of_mem ch hmem, hd⟩

def countersFrom (c : Counters) (text : Str) : Counters := text.foldl Counters.char c

/-- `DotCounter` goes up with `TotalDot` or stays behind. -/
structure Counters.Grows (c d : Counters) : Prop where
  total : c.totalDot ≤ d.totalDot
  dots : d.dotCounter + c.totalDot ≤ c.dotCounter + d.totalDot

theorem Counters.char_digit (h : isDigit ch = true) :
    c.char ch = { c with
      numCounter := if c.numCounter = c.dotCounter then c.numCounter + 1 else c.numCounter
      counter := c.counter + 1 } := by
  have hx : isXDigit ch = true := by simp [isXDigit, h]
  rw [Counters.char, if_pos hx, if_pos h]

theorem Counters.char_dot :
    c.char (chr '.') = { c with
      dotCounter := if c.dotCounter < c.numCounter then c.dotCounter + 1 else c.dotCounter
      totalDot := c.totalDot + 1
      counter := c.counter + 1 } := by
  rw [Counters.char, if_neg (by decide), if_neg (by decide), if_pos rfl]

/-- Other characters count at most as characters. -/
theorem Counters.char_other (hdigit : isDigit ch = false) (hdot : ch ≠ chr '.') :
    (c.char ch).numCounter = c.numCounter ∧ (c.char ch).dotCounter = c.dotCounter ∧
      (c.char ch).totalDot = c.totalDot ∧
      (c.char ch).counter = if ch = chr ' ' then c.counter + 1 else c.counter := by
  unfold Counters.char
  by_cases hx : isXDigit ch = true
  · have hspace : ch ≠ chr ' ' := by
      intro h
      subst h
      exact absurd hx (by decide)
    rw [if_pos hx, if_neg (by simp [hdigit]), if_neg hspace]
    exact ⟨rfl, rfl, rfl, rfl⟩
  · rw [if_neg hx]
    by_cases hspace : ch = chr ' '
    · rw [if_pos hspace, if_pos hspace]
      exact ⟨rfl, rfl, rfl, rfl⟩
    · rw [if_neg hspace, if_neg hdot, if_neg hspace]
      exact ⟨rfl, rfl, rfl, rfl⟩

theorem Counters.char_grows : Grows c (c.char ch) := by
  by_cases hdot : ch = chr '.'
  · subst hdot
    rw [char_dot]
    constructor
    · exact Nat.le_succ _
    · dsimp only
      split <;> omega
  · cases hdigit : isDigit ch with
    | true =>
        rw [char_digit hdigit]
        exact ⟨Nat.le_refl _, Nat.le_refl _⟩
    | false =>
        obtain ⟨-, hd, ht, -⟩ := char_other hdigit hdot (c := c)
        exact ⟨by rw [ht], by rw [hd, ht]⟩

theorem countersFrom_grows (text : Str) : c.Grows (countersFrom c text) := by
  induction text generalizing c with
  | nil => exact ⟨Nat.le_refl _, Nat.le_refl _⟩
  | cons ch text ih =>
      have hstep : c.Grows (c.char ch) := Counters.char_grows
      have hrest := ih (c := c.char ch)
      constructor
      · exact Nat.le_trans hstep.total hrest.total
      · have h1 := hstep.dots
        have h2 := hrest.dots
        change (countersFrom (c.char ch) text).dotCounter + c.totalDot ≤
          c.dotCounter + (countersFrom (c.char ch) text).totalDot
        omega

theorem parts_cons_dot : parts (chr '.' :: text) = [] :: parts text := by
  rw [parts, List.splitOn_cons_eq_if_modifyHead, if_pos (by decide)]
  rfl

theorem parts_cons (h : ch ≠ chr '.') : parts (ch :: text) = (parts text).modifyHead (ch :: ·) := by
  rw [parts, List.splitOn_cons_eq_if_modifyHead, if_neg (by simpa using h)]
  rfl

theorem exists_parts (text : Str) : ∃ head tail, parts text = head :: tail :=
  List.exists_cons_of_ne_nil (List.splitOn_ne_nil _ _)

theorem totalDot_eq (text : Str) :
    (countersFrom c text).totalDot + 1 = c.totalDot + (parts text).length := by
  induction text generalizing c with
  | nil => rfl
  | cons ch text ih =>
      change (countersFrom (c.char ch) text).totalDot + 1 = _
      rw [ih]
      by_cases hdot : ch = chr '.'
      · subst hdot
        rw [Counters.char_dot, parts_cons_dot, List.length_cons]
        dsimp only
        omega
      · rw [parts_cons hdot, List.length_modifyHead]
        cases hdigit : isDigit ch with
        | true => rw [Counters.char_digit hdigit]
        | false => rw [(Counters.char_other hdigit hdot).2.2.1]

/-- Where no dot was left out of `DotCounter` and the last part has a number, all parts have. -/
theorem hasDigit_of_counters (text : Str)
    (hc : c.numCounter = c.dotCounter ∨ c.numCounter = c.dotCounter + 1)
    (hdots : (countersFrom c text).dotCounter + c.totalDot =
      c.dotCounter + (countersFrom c text).totalDot)
    (hlast : (countersFrom c text).numCounter = (countersFrom c text).dotCounter + 1)
    (hparts : parts text = head :: tail) :
    (c.numCounter = c.dotCounter + 1 ∨ HasDigit head) ∧ ∀ part ∈ tail, HasDigit part := by
  induction text generalizing c head tail with
  | nil =>
      cases hparts
      exact ⟨.inl hlast, fun part h ↦ absurd h List.not_mem_nil⟩
  | cons ch text ih =>
      change (countersFrom (c.char ch) text).dotCounter + _ =
        _ + (countersFrom (c.char ch) text).totalDot at hdots
      change (countersFrom (c.char ch) text).numCounter =
        (countersFrom (c.char ch) text).dotCounter + 1 at hlast
      obtain ⟨head', tail', hrest⟩ := exists_parts text
      have hgrows := (countersFrom_grows (c := c.char ch) text).dots
      by_cases hdot : ch = chr '.'
      · subst hdot
        rw [parts_cons_dot, hrest] at hparts
        cases hparts
        rw [Counters.char_dot] at *
        dsimp only at hgrows
        by_cases hnum : c.dotCounter < c.numCounter
        · rw [if_pos hnum] at *
          have hstart : c.numCounter = c.dotCounter + 1 := by omega
          have hmore := ih (.inl hstart) (by dsimp only; omega) hlast hrest
          refine ⟨.inl hstart, ?_⟩
          intro part hmem
          rcases List.mem_cons.mp hmem with rfl | htail
          · rcases hmore.1 with hno | hdigit
            · exact absurd hno (by dsimp only; omega)
            · exact hdigit
          · exact hmore.2 part htail
        · -- this dot was left out
          rw [if_neg hnum] at *
          omega
      · rw [parts_cons hdot, hrest] at hparts
        cases hparts
        cases hdigit : isDigit ch with
        | true =>
            rw [Counters.char_digit hdigit] at *
            have hone : (if c.numCounter = c.dotCounter then c.numCounter + 1 else c.numCounter) =
                c.dotCounter + 1 := by
              split <;> omega
            have hmore := ih (.inr hone) hdots hlast hrest
            exact ⟨.inr ⟨ch, List.mem_cons_self, hdigit⟩, hmore.2⟩
        | false =>
            obtain ⟨hn, hd, ht, -⟩ := Counters.char_other hdigit hdot (c := c)
            have hmore := ih (c := c.char ch) (by rwa [hn, hd]) (by rw [hd, ht]; exact hdots) hlast
              hrest
            rw [hn, hd] at hmore
            exact ⟨hmore.1.imp_right HasDigit.cons, hmore.2⟩

/-! ## The characters -/

def Allowed (ch : UInt8) : Prop := isDigit ch = true ∨ ch = chr ' ' ∨ ch = chr '.'

theorem counter_le (text : Str) :
    (countersFrom c text).counter ≤ c.counter + text.length ∧
      ((countersFrom c text).counter = c.counter + text.length → ∀ ch ∈ text, Allowed ch) := by
  induction text generalizing c with
  | nil => exact ⟨Nat.le_refl _, fun _ ch h ↦ absurd h List.not_mem_nil⟩
  | cons ch text ih =>
      obtain ⟨hle, hall⟩ := ih (c := c.char ch)
      change (countersFrom (c.char ch) text).counter ≤ _ ∧
        ((countersFrom (c.char ch) text).counter = _ → _)
      rw [List.length_cons]
      have hstep : (c.char ch).counter ≤ c.counter + 1 ∧
          ((c.char ch).counter = c.counter + 1 → Allowed ch) := by
        by_cases hdot : ch = chr '.'
        · subst hdot
          rw [Counters.char_dot]
          exact ⟨Nat.le_refl _, fun _ ↦ .inr (.inr rfl)⟩
        · cases hdigit : isDigit ch with
          | true =>
              rw [Counters.char_digit hdigit]
              exact ⟨Nat.le_refl _, fun _ ↦ .inl hdigit⟩
          | false =>
              rw [(Counters.char_other hdigit hdot).2.2.2]
              by_cases hspace : ch = chr ' '
              · rw [if_pos hspace]
                exact ⟨Nat.le_refl _, fun _ ↦ .inr (.inl hspace)⟩
              · rw [if_neg hspace]
                exact ⟨Nat.le_succ _, fun h ↦ by omega⟩
      constructor
      · omega
      · intro heq d hmem
        rcases List.mem_cons.mp hmem with rfl | hrest
        · exact hstep.2 (by omega)
        · exact hall (by omega) d hrest

theorem allowed_of_mem_parts (hall : ∀ ch ∈ text, Allowed ch) :
    ∀ part ∈ parts text, ∀ ch ∈ part, isDigit ch = true ∨ ch = chr ' ' := by
  induction text with
  | nil =>
      intro part hpart ch hch
      cases List.mem_singleton.mp hpart
      exact absurd hch List.not_mem_nil
  | cons d text ih =>
      have hrest := ih fun ch hmem ↦ hall ch (List.mem_cons_of_mem d hmem)
      by_cases hdot : d = chr '.'
      · subst hdot
        rw [parts_cons_dot]
        intro part hpart ch hch
        rcases List.mem_cons.mp hpart with rfl | htail
        · exact absurd hch List.not_mem_nil
        · exact hrest part htail ch hch
      · obtain ⟨head, tail, hparts⟩ := exists_parts text
        rw [parts_cons hdot, hparts]
        rw [hparts] at hrest
        intro part hpart ch hch
        rcases List.mem_cons.mp hpart with rfl | htail
        · rcases List.mem_cons.mp hch with rfl | hhead
          · rcases hall ch List.mem_cons_self with hdigit | hspace | hdot'
            · exact .inl hdigit
            · exact .inr hspace
            · exact absurd hdot' hdot
          · exact hrest head List.mem_cons_self ch hhead
        · exact hrest part (List.mem_cons_of_mem head htail) ch hch

/-- Four parts, each of digits and blanks with a digit. -/
theorem Formatted.hasDigits (h : Formatted text) :
    (parts text).length = 4 ∧ ∀ part ∈ parts text,
      HasDigit part ∧ ∀ ch ∈ part, isDigit ch = true ∨ ch = chr ' ' := by
  obtain ⟨-, hcount, hdots, htotal, hnum⟩ := h
  have htotal' := totalDot_eq (c := ⟨0, 0, 0, 0⟩) text
  change (counters text).totalDot + 1 = 0 + _ at htotal'
  obtain ⟨head, tail, hparts⟩ := exists_parts text
  have hdigits := hasDigit_of_counters text (c := ⟨0, 0, 0, 0⟩) (.inl rfl)
    (show (counters text).dotCounter + 0 = 0 + (counters text).totalDot by omega)
    (show (counters text).numCounter = (counters text).dotCounter + 1 by omega) hparts
  have hall := (counter_le (c := ⟨0, 0, 0, 0⟩) text).2
    (show (counters text).counter = 0 + text.length by omega)
  refine ⟨by omega, fun part hmem ↦ ⟨?_, allowed_of_mem_parts hall part hmem⟩⟩
  rw [hparts] at hmem
  rcases List.mem_cons.mp hmem with rfl | htail
  · rcases hdigits.1 with hno | hdigit
    · exact absurd hno (by decide)
    · exact hdigit
  · exact hdigits.2 part htail

/-! ## Parts that are numbers -/

theorem trim_split (part : Str) : ∃ j k, part = blanks j ++ trim part ++ blanks k := by
  have hleft : part.takeWhile isSpace = blanks (part.takeWhile isSpace).length := by
    apply List.eq_replicate_of_mem
    intro ch hmem
    simpa [isSpace] using List.mem_takeWhile_imp hmem
  have hright : (part.dropWhile isSpace).rtakeWhile isSpace =
      blanks ((part.dropWhile isSpace).rtakeWhile isSpace).length := by
    apply List.eq_replicate_of_mem
    intro ch hmem
    simpa [isSpace] using List.mem_rtakeWhile_imp hmem
  refine ⟨(part.takeWhile isSpace).length,
    ((part.dropWhile isSpace).rtakeWhile isSpace).length, ?_⟩
  rw [← hleft, ← hright, List.append_assoc, trim, List.rdropWhile_append_rtakeWhile,
    List.takeWhile_append_dropWhile]

theorem isDigit_iff : isDigit ch = true ↔ chr '0' ≤ ch ∧ ch ≤ chr '9' := by
  rw [isDigit, decide_eq_true_iff]

theorem not_space_of_digit : ∀ d : UInt8, isDigit d = true → isSpace d = false := by
  apply forall_byte
  (set_option maxRecDepth 8000 in decide)

theorem trim_of_digits {j : Nat} (hdigits : IsDigits digits) :
    trim (blanks j ++ digits ++ blanks k) = digits := by
  obtain ⟨hne, hall⟩ := hdigits
  have hspace : ∀ d ∈ digits, isSpace d = false := fun d hmem ↦
    not_space_of_digit d (isDigit_iff.mpr (hall d hmem))
  obtain ⟨d, ds, rfl⟩ := List.exists_cons_of_ne_nil hne
  have hdrop : (blanks j ++ d :: ds ++ blanks k).dropWhile isSpace = d :: ds ++ blanks k := by
    rw [List.append_assoc, List.dropWhile_append_of_pos]
    · rw [List.cons_append, List.dropWhile_cons_of_neg (by simp [hspace d List.mem_cons_self])]
    · intro ch hmem
      simp [isSpace, List.eq_of_mem_replicate hmem]
  rw [trim, hdrop, List.rdropWhile, List.reverse_append, List.dropWhile_append_of_pos]
  · rw [List.dropWhile_eq_self_iff.mpr, List.reverse_reverse]
    intro hlt
    have hmem : (d :: ds).reverse[0] ∈ d :: ds := List.mem_reverse.mp (List.getElem_mem hlt)
    simpa using hspace _ hmem
  · intro ch hmem
    simp [isSpace, List.eq_of_mem_replicate (List.mem_reverse.mp hmem)]

theorem Numeral.unbroken (h : Numeral part n) : Unbroken part := by
  obtain ⟨j, k, digits, rfl, hdigits, hvalue⟩ := h
  unfold Unbroken
  rw [trim_of_digits hdigits]
  constructor
  · intro hmem
    exact absurd (hdigits.2 _ hmem) (by decide)
  · rw [hvalue]
    exact Nat.le_of_lt_succ n.toNat_lt

theorem numeral_of_unbroken (h : Unbroken part) (hdigit : HasDigit part)
    (hall : ∀ ch ∈ part, isDigit ch = true ∨ ch = chr ' ') :
    Numeral part (decimalValue (trim part)).toUInt8 := by
  obtain ⟨j, k, hsplit⟩ := trim_split part
  refine ⟨j, k, trim part, hsplit, ⟨?_, ?_⟩, ?_⟩
  · intro hnil
    obtain ⟨d, hmem, hd⟩ := hdigit
    rw [hsplit, hnil, List.append_nil] at hmem
    have hspace : d = chr ' ' := by
      rcases List.mem_append.mp hmem with hleft | hright
      · exact List.eq_of_mem_replicate hleft
      · exact List.eq_of_mem_replicate hright
    subst hspace
    exact absurd hd (by decide)
  · intro d hmem
    have hpart : d ∈ part := by
      rw [hsplit]
      exact List.mem_append_left _ (List.mem_append_right _ hmem)
    rcases hall d hpart with hd | hspace
    · exact isDigit_iff.mp hd
    · exact absurd (hspace ▸ hmem) h.1
  · have hle := h.2
    rw [Nat.toUInt8, UInt8.toNat_ofNat', Nat.mod_eq_of_lt (by omega)]

/-- A line that passed the tests is a dotted quad if no part of it has a blank inside a number or
a number above 255. -/
theorem Formatted.isQuad (h : Formatted text) (hparts : ∀ part ∈ parts text, Unbroken part) :
    ∃ q, IsQuad text q := by
  obtain ⟨hlength, hall⟩ := h.hasDigits
  refine ⟨(parts text).map fun part ↦ (decimalValue (trim part)).toUInt8, ?_, ?_⟩
  · rw [List.length_map, hlength]
  · rw [List.forall₂_map_right_iff, List.forall₂_same]
    intro part hmem
    exact numeral_of_unbroken (hparts part hmem) (hall part hmem).1 (hall part hmem).2

theorem IsQuad.unbroken (h : IsQuad text q) : ∀ part ∈ parts text, Unbroken part := by
  have hforall := h.2
  intro part hmem
  obtain ⟨i, hi, rfl⟩ := List.mem_iff_getElem.mp hmem
  have hi' : i < q.length := by rwa [← hforall.length_eq]
  exact (hforall.get hi hi').unbroken

/-! ## `aton` -/

theorem toUInt32_atol : ∀ n : UInt8,
    (Int32.ofInt (min 2147483647 (n.toNat : Int))).toUInt32 = n.toUInt32 := by
  apply forall_byte
  (set_option maxRecDepth 8000 in decide)

/-- A round of the loop takes a number and stops at `rest`. -/
theorem atonLoop_numeral (rest : Str) {m : UInt32} (h : Numeral part n) :
    (∀ ch ∈ rest.head?, ch = chr '.') → atonLoop (k + 1) (part ++ rest) m =
      match rest with
      | [] => m ||| n.toUInt32 <<< (8 * k).toUInt32
      | _ :: s => atonLoop k s (m ||| n.toUInt32 <<< (8 * k).toUInt32) := by
  intro hrest
  obtain ⟨j, i, digits, rfl, hdigits, hvalue⟩ := h
  obtain ⟨d, ds, rfl⟩ := List.exists_cons_of_ne_nil hdigits.1
  have hdigit : ∀ d' ∈ d :: ds, isDigit d' = true := fun d' hmem ↦ isDigit_iff.mpr (hdigits.2 d' hmem)
  have hstart : (blanks j ++ d :: ds ++ blanks i ++ rest).dropWhile (fun ch ↦ ¬ isDigit ch) =
      d :: (ds ++ (blanks i ++ rest)) := by
    rw [List.append_assoc, List.append_assoc, List.dropWhile_append_of_pos]
    · rw [List.cons_append, List.dropWhile_cons_of_neg (by simp [hdigit d List.mem_cons_self])]
    · intro ch hmem
      rw [List.eq_of_mem_replicate hmem]
      decide
  have hbehind : ∀ ch ∈ (blanks i ++ rest).head?, ¬ (chr '0' ≤ ch ∧ ch ≤ chr '9') := by
    intro ch hmem
    cases i with
    | zero =>
        rw [hrest ch hmem]
        decide
    | succ i =>
        cases hmem
        decide
  have hnumber : (atol (d :: (ds ++ (blanks i ++ rest)))).toUInt32 = n.toUInt32 := by
    have hatol := atol_number (k := 0) hdigits hbehind
    change atol (d :: (ds ++ (blanks i ++ rest))) = _ at hatol
    rw [hatol, hvalue]
    exact toUInt32_atol n
  have hstop : (d :: (ds ++ (blanks i ++ rest))).dropWhile (· ≠ chr '.') = rest := by
    have hnodot : ∀ ch ∈ d :: ds ++ blanks i, decide (ch ≠ chr '.') = true := by
      intro ch hmem
      rcases List.mem_append.mp hmem with hdig | hblank
      · rw [decide_eq_true_iff]
        rintro rfl
        exact absurd (hdigit _ hdig) (by decide)
      · rw [List.eq_of_mem_replicate hblank]
        decide
    rw [← List.cons_append, ← List.append_assoc, List.dropWhile_append_of_pos hnodot]
    cases rest with
    | nil => rfl
    | cons ch s => exact List.dropWhile_cons_of_neg (by simp [hrest ch rfl])
  rw [atonLoop, hstart]
  dsimp only
  rw [hnumber, hstop]
  cases rest <;> rfl

def quadWord (a b c d : UInt8) : UInt32 :=
  (0 : UInt32) ||| a.toUInt32 <<< 24 ||| b.toUInt32 <<< 16 ||| c.toUInt32 <<< 8 ||| d.toUInt32 <<< 0

theorem IsQuad.aton (h : IsQuad text q) : ∃ a b c d, q = [a, b, c, d] ∧
    aton text = quadWord a b c d := by
  obtain ⟨hlength, hforall⟩ := h
  obtain ⟨a, b, c, d, rfl⟩ : ∃ a b c d, q = [a, b, c, d] := by
    match q, hlength with
    | [a, b, c, d], _ => exact ⟨a, b, c, d, rfl⟩
  have htext : [chr '.'].intercalate (parts text) = text := List.intercalate_splitOn _
  generalize parts text = ps at hforall htext
  cases hforall with
  | @cons pa _ _ _ ha hforall =>
  cases hforall with
  | @cons pb _ _ _ hb hforall =>
  cases hforall with
  | @cons pc _ _ _ hc hforall =>
  cases hforall with
  | @cons pd _ _ _ hd hforall =>
  cases hforall
  refine ⟨a, b, c, d, rfl, ?_⟩
  rw [← htext]
  have hdot {s : Str} : ∀ ch ∈ (chr '.' :: s).head?, ch = chr '.' := fun ch hmem ↦
    (Option.mem_some_iff.mp hmem).symm
  have hend {m : UInt32} := @atonLoop_numeral _ _ 0 [] m hd fun ch hmem ↦
    absurd hmem (Option.not_mem_none ch)
  simp only [List.append_nil] at hend
  have hjoin : [chr '.'].intercalate [pa, pb, pc, pd] =
      pa ++ chr '.' :: (pb ++ chr '.' :: (pc ++ chr '.' :: pd)) := by
    simp [List.intercalate]
  rw [hjoin, Telnet.aton]
  rw [atonLoop_numeral _ ha hdot]
  dsimp only
  rw [atonLoop_numeral _ hb hdot]
  dsimp only
  rw [atonLoop_numeral _ hc hdot]
  dsimp only
  rw [hend]
  rfl

theorem le32_dwordSwap (x : UInt32) : le32 (dwordSwap x) = (le32 x).reverse := by
  unfold le32 dwordSwap
  simp only [List.reverse_cons, List.reverse_nil, List.nil_append, List.cons_append,
    List.cons.injEq, and_true]
  refine ⟨?_, ?_, ?_, ?_⟩ <;>
  · apply UInt8.toBitVec_inj.mp
    apply BitVec.eq_of_getLsbD_eq
    intro i hi
    interval_cases i <;> simp

theorem le32_quadWord (a b c d : UInt8) : le32 (quadWord a b c d) = [d, c, b, a] := by
  have h24 : ∀ x : UInt8, (x.toUInt32 <<< 24).toUInt8 = 0 ∧
      (x.toUInt32 <<< 24 >>> 8).toUInt8 = 0 ∧ (x.toUInt32 <<< 24 >>> 16).toUInt8 = 0 ∧
      (x.toUInt32 <<< 24 >>> 24).toUInt8 = x := forall_byte (by decide +kernel)
  have h16 : ∀ x : UInt8, (x.toUInt32 <<< 16).toUInt8 = 0 ∧
      (x.toUInt32 <<< 16 >>> 8).toUInt8 = 0 ∧ (x.toUInt32 <<< 16 >>> 16).toUInt8 = x ∧
      (x.toUInt32 <<< 16 >>> 24).toUInt8 = 0 := forall_byte (by decide +kernel)
  have h8 : ∀ x : UInt8, (x.toUInt32 <<< 8).toUInt8 = 0 ∧ (x.toUInt32 <<< 8 >>> 8).toUInt8 = x ∧
      (x.toUInt32 <<< 8 >>> 16).toUInt8 = 0 ∧ (x.toUInt32 <<< 8 >>> 24).toUInt8 = 0 :=
    forall_byte (by decide +kernel)
  have h0 : ∀ x : UInt8, (x.toUInt32 <<< 0).toUInt8 = x ∧ (x.toUInt32 <<< 0 >>> 8).toUInt8 = 0 ∧
      (x.toUInt32 <<< 0 >>> 16).toUInt8 = 0 ∧ (x.toUInt32 <<< 0 >>> 24).toUInt8 = 0 :=
    forall_byte (by decide +kernel)
  unfold le32 quadWord
  simp only [UInt32.toUInt8_or, UInt32.shiftRight_or, h24, h16, h8, h0]
  simp

theorem IsQuad.trapBytes (h : IsQuad text q) : Setup.trapBytes text = q := by
  obtain ⟨a, b, c, d, rfl, haton⟩ := h.aton
  rw [Setup.trapBytes, haton, le32_quadWord]
  rfl

theorem IsQuad.boxBytes (h : IsQuad text q) : Setup.boxBytes text = q := by
  rw [Setup.boxBytes, le32_dwordSwap]
  exact h.trapBytes

end PrintServer.Telnet
