import Mathlib.Data.List.Forall2
import Mathlib.Tactic.IntervalCases
import PrintServer.Flash.Eeprom
import PrintServer.Tftp.ConfigAccepted

/-!
# The configuration file, there and back

`FillConfigFile` and `TftpSetEEPROM` of tftpd.c.  A client that fetches the configuration file and
sends it back as it is leaves the settings of the box as they were.
-/

namespace PrintServer.Tftp

open Http Flash

def psNetWareMode : UInt8 := 0x01
def psDHCPOn : UInt8 := 0x80

/-! ## FillConfigFile -/

def digit (n : Nat) : UInt8 := (bytes "0123456789ABCDEF").getD n 0

/-- `"%d"` for a byte. -/
def decimal (b : UInt8) : Str :=
  let n := b.toNat
  (if n < 100 then [] else [digit (n / 100)]) ++ (if n < 10 then [] else [digit (n / 10 % 10)]) ++
    [digit (n % 10)]

/-- `"%02X"` for a byte. -/
def hexByte (b : UInt8) : Str := [digit (b.toNat / 16), digit (b.toNat % 16)]

/-- `"%X"` for a byte. -/
def hex (b : UInt8) : Str := if b < 16 then [digit b.toNat] else hexByte b

/-- `"%d.%d.%d.%d"`. -/
def dottedQuad (ip : List UInt8) : Str :=
  decimal (ip.getD 0 0) ++ chr '.' :: (decimal (ip.getD 1 0) ++ chr '.' ::
    (decimal (ip.getD 2 0) ++ chr '.' :: decimal (ip.getD 3 0)))

/-- `"%02X-%02X-..."`. -/
def dashed : List UInt8 → Str
  | [] => []
  | [a] => hexByte a
  | a :: b :: id => hexByte a ++ chr '-' :: dashed (b :: id)

/-- `"%02d %-12s : "` and the value. -/
def configLine (n : Nat) (v : Str) : Str :=
  twoDigits n ++ [chr ' '] ++ lineTitle n ++
    (List.replicate (12 - (lineTitle n).length) (chr ' ') ++ [chr ' ']) ++ [chr ':'] ++
    [chr ' '] ++ v

def fixed : Str := bytes " (fixed)"

def prnGetPrinterName (port : Nat) : Str := bytes "lp" ++ [UInt8.ofNat (port + 49)]

/-- The version of the firmware and the global `PSMode`. -/
structure ConfigEnv where
  majorVer : UInt8
  minorVer : UInt8
  psMode : UInt8

def configValues (env : ConfigEnv) (e : EepromData) : List Str :=
  [text (e.get Eeprom.boxName),
    hex env.majorVer ++ chr '.' :: hexByte env.minorVer ++ fixed,
    dashed (e.get Eeprom.ethernetID) ++ fixed,
    if env.psMode &&& psDHCPOn ≠ 0 then bytes "ON" else bytes "OFF",
    dottedQuad (e.get Eeprom.boxIPAddress),
    dottedQuad (e.get Eeprom.getwayAddress),
    dottedQuad (e.get Eeprom.subNetMask),
    if e.byte Eeprom.printServerMode &&& psNetWareMode ≠ 0 then bytes "Enable"
    else bytes "Disable"] ++
  (List.range numOfPrnPort).map fun port ↦ prnGetPrinterName port ++ fixed

/-- The lines from number `n` on. -/
def configLines : Nat → List Str → List Str
  | _, [] => []
  | n, v :: vs => configLine n v :: configLines (n + 1) vs

def endLines (ls : List Str) : List UInt8 := ls.flatMap (· ++ [0x0A])

def fillConfigFile (password : Str) (env : ConfigEnv) (e : EepromData) : List UInt8 :=
  let values := configValues env e
  endLines (configLines 1
    (if password = [] then values
    else values ++ [chr '[' :: List.replicate 8 (chr '*') ++ [chr ']']]))

/-! ## TftpSetEEPROM -/

def setMode (bit v mode : UInt8) : UInt8 := if v ≠ 0 then mode ||| bit else mode &&& ~~~bit

/-- `EEPROM_Data` after `TftpSetEEPROM`, but for what `WriteToEEPROM` counts. -/
def tftpSetEEPROM (lines : List (List UInt8)) (e : EepromData) : EepromData :=
  let line (i : Nat) : List UInt8 := lines.getD i []
  let newPSMode := setMode psDHCPOn ((line 3).getD 0 0)
    (setMode psNetWareMode ((line 7).getD 0 0) (e.byte Eeprom.printServerMode))
  ((((e.put Eeprom.boxName ((line 0).take 18)).put Eeprom.boxIPAddress ((line 4).take 4)).put
    Eeprom.getwayAddress ((line 5).take 4)).put Eeprom.subNetMask ((line 6).take 4)).putByte
    Eeprom.printServerMode newPSMode

/-- What is in memory behind a file in `buf`: old bytes of `buf`, and then `ackbuf` with the
acknowledgement of block 0. -/
def behindFile (old rest : List UInt8) : List UInt8 := old ++ [0x00, 0x04, 0x00, 0x00] ++ rest

/-! ## The loop that finds the lines -/

/-- A line that the loop cut: its end is a NUL. -/
def Cut (l : Str) (line : List UInt8) : Prop := ∃ z, line = l ++ 0 :: z

theorem cutLine_endLines {l : Str} {s : List UInt8} (hl : ∀ c ∈ l, notEol c = true)
    (hs : s.dropWhile isEol ≠ []) :
    ∃ line, cutLine (l ++ 0x0A :: s) = some (line, s.dropWhile isEol) ∧ Cut l line := by
  have htake : (l ++ 0x0A :: s).takeWhile notEol = l := by
    rw [List.takeWhile_append_of_pos hl, List.takeWhile_cons_of_neg (by decide), List.append_nil]
  have hdrop : (l ++ 0x0A :: s).dropWhile notEol = 0x0A :: s := by
    rw [List.dropWhile_append_of_pos hl, List.dropWhile_cons_of_neg (by decide)]
  unfold cutLine
  simp only [htake, hdrop]
  rw [List.dropWhile_cons_of_pos (by decide), if_neg hs, List.takeWhile_cons_of_pos (by decide),
    List.map_cons]
  exact ⟨_, rfl, _, rfl⟩

theorem dropWhile_isEol {s : List UInt8} (h : ∃ c ∈ s, isEol c = false) :
    s.dropWhile isEol ≠ [] := by
  obtain ⟨c, hc, heol⟩ := h
  intro hnil
  rw [List.dropWhile_eq_nil_iff.mp hnil c hc] at heol
  cases heol

/-- The loop finds the lines that were written, also if line ends follow in memory. -/
theorem cutLines_endLines {ls : List Str} {behind : List UInt8} {n : Nat} (hn : ls.length < n)
    (hls : ∀ l ∈ ls, l ≠ [] ∧ ∀ c ∈ l, notEol c = true)
    (hbehind : ∃ c ∈ behind, isEol c = false) :
    ∃ lines rest, cutLines behind.length n (endLines ls ++ behind) = some (lines, rest) ∧
      List.Forall₂ Cut ls lines := by
  induction ls generalizing n with
  | nil => exact ⟨[], behind, cutLines_behind (Nat.le_refl _), .nil⟩
  | cons l ls ih =>
      obtain ⟨n, rfl⟩ := Nat.exists_eq_succ_of_ne_zero (Nat.ne_of_gt (Nat.zero_lt_of_lt hn))
      obtain ⟨⟨-, hl⟩, hls⟩ := List.forall_mem_cons.mp hls
      have hsplit : endLines (l :: ls) ++ behind = l ++ 0x0A :: (endLines ls ++ behind) := by
        simp [endLines]
      have hlen : behind.length < (l ++ 0x0A :: (endLines ls ++ behind)).length := by
        simp only [List.length_append, List.length_cons]
        omega
      have hrest : ∃ c ∈ endLines ls ++ behind, isEol c = false := by
        obtain ⟨c, hc, heol⟩ := hbehind
        exact ⟨c, List.mem_append_right _ hc, heol⟩
      obtain ⟨line, hcut, hline⟩ := cutLine_endLines hl (dropWhile_isEol hrest)
      rw [hsplit, cutLines, if_pos hlen, hcut]
      cases ls with
      | nil =>
          -- line ends behind the file go with the last line
          have hshort : (behind.dropWhile isEol).length ≤ behind.length :=
            (List.dropWhile_sublist _).length_le
          refine ⟨[line], behind.dropWhile isEol, ?_, .cons hline .nil⟩
          have hnil : endLines [] ++ behind = behind := rfl
          simp only [hnil, cutLines_behind hshort, Option.map_some]
      | cons l' ls =>
          -- the next line starts here
          obtain ⟨⟨hne, hl'⟩, -⟩ := List.forall_mem_cons.mp hls
          obtain ⟨c, t, rfl⟩ := List.exists_cons_of_ne_nil hne
          have hstart : isEol c = false := by
            have hc := hl' c List.mem_cons_self
            simpa [notEol] using hc
          have hdrop : (endLines ((c :: t) :: ls) ++ behind).dropWhile isEol =
              endLines ((c :: t) :: ls) ++ behind := by
            have hhead : endLines ((c :: t) :: ls) ++ behind =
                c :: (t ++ 0x0A :: (endLines ls ++ behind)) := by
              simp [endLines]
            rw [hhead, List.dropWhile_cons_of_neg (by rw [hstart]; decide)]
          obtain ⟨lines, rest, hlines, hall⟩ := ih (Nat.lt_of_succ_lt_succ hn) hls
          refine ⟨line :: lines, rest, ?_, .cons hline hall⟩
          simp only [hdrop, hlines, Option.map_some]

theorem lineInfo_cut {ls : List Str} {lines : List (List UInt8)} (h : List.Forall₂ Cut ls lines)
    (rest : List UInt8) : List.Forall₂ Cut ls (lineInfo rest lines) := by
  induction h with
  | nil => exact .nil
  | @cons l line ls lines hline _ ih =>
      obtain ⟨z, rfl⟩ := hline
      refine .cons ⟨z ++ (lines.flatten ++ rest), ?_⟩ ih
      rw [List.append_assoc, List.cons_append]

/-! ## The loop that reads the values -/

/-- A value that the loop takes in line `n`. -/
structure Readable (n : Nat) (v : Str) : Prop where
  ne_zero : ∀ c ∈ v, c ≠ 0
  head : ∀ c ∈ v.head?, isBlank c = false
  lineOk : LineOk n v

theorem text_cut {v z : List UInt8} (hv : ∀ c ∈ v, c ≠ 0) : text (v ++ 0 :: z) = v := by
  rw [text_front hv, text_zero, List.append_nil]

theorem skipLineTitle_configLine {n : Nat} {v : Str} (hv : ∀ c ∈ v.head?, isBlank c = false)
    (z : List UInt8) : skipLineTitle n (configLine n v ++ 0 :: z) = some (v ++ 0 :: z) := by
  apply skipLineTitle_iff.mpr
  refine ⟨List.replicate (12 - (lineTitle n).length) (chr ' ') ++ [chr ' '], [chr ' '], ?_, ?_, ?_⟩
  · intro c hc
    have hblank : c = chr ' ' := by
      simp only [List.mem_append, List.mem_replicate, List.mem_singleton] at hc
      tauto
    rw [hblank]
    decide
  · intro c hc
    cases v with
    | nil =>
        rw [← Option.some.inj hc]
        decide
    | cons d v => exact hv c hc
  · unfold configLine
    rw [List.append_assoc _ v]

theorem readLines_configLines {i : Nat} {vs : List Str} {info : List (List UInt8)}
    (h : List.Forall₂ Cut (configLines (i + 1) vs) info)
    (hvs : ∀ k v, vs[k]? = some v → Readable (i + k + 1) v) :
    ∃ values, readLines i info = .ok values ∧ ∀ k v, vs[k]? = some v → ∃ z value,
      values[k]? = some value ∧
        readValue (i + k) (configLine (i + k + 1) v ++ 0 :: z) (v ++ 0 :: z) = some value := by
  induction vs generalizing i info with
  | nil =>
      obtain rfl := List.forall₂_nil_left_iff.mp h
      exact ⟨[], rfl, fun k v hk ↦ absurd hk (Option.not_mem_none v)⟩
  | cons v vs ih =>
      obtain ⟨line, more, ⟨z, rfl⟩, hmore, rfl⟩ := List.forall₂_cons_left_iff.mp h
      have hv := hvs 0 v rfl
      have hvalue := (@readValue_isSome i (configLine (i + 1) v ++ 0 :: z) (v ++ 0 :: z)).mpr (by
        rw [text_cut hv.ne_zero]
        exact hv.lineOk)
      obtain ⟨value, hread⟩ := Option.isSome_iff_exists.mp hvalue
      obtain ⟨values, hrest, hall⟩ := @ih (i + 1) more hmore fun k w hk ↦ by
        rw [show i + 1 + k + 1 = i + (k + 1) + 1 by omega]
        exact hvs (k + 1) w hk
      refine ⟨value :: values, ?_, ?_⟩
      · rw [readLines, skipLineTitle_configLine hv.head]
        simp only [hread, hrest]
      · intro k w hk
        cases k with
        | zero =>
            obtain rfl := Option.some.inj hk
            exact ⟨z, value, rfl, hread⟩
        | succ k =>
            obtain ⟨z', value', hget, hread'⟩ := hall k w hk
            refine ⟨z', value', hget, ?_⟩
            rw [show i + (k + 1) = i + 1 + k by omega]
            exact hread'

/-! ## Addresses -/

theorem decimal_digits (b : UInt8) : (∀ c ∈ decimal b, isDigit c = true ∧ inPart c = true) ∧
    decimal b ≠ [] ∧ ¬ (tempIP (decimal b) < 0 ∨ tempIP (decimal b) > 255) ∧
      (tempIP (decimal b)).toUInt16.toUInt8 = b := by
  -- as a fold over the digits: a bounded quantifier over bytes would be checked for every byte
  have hall : (decimal b).all (fun c ↦ isDigit c && inPart c) = true ∧
      decimal b ≠ [] ∧ ¬ (tempIP (decimal b) < 0 ∨ tempIP (decimal b) > 255) ∧
        (tempIP (decimal b)).toUInt16.toUInt8 = b := by
    revert b
    apply forall_byte
    decide +kernel
  simp only [List.all_eq_true, Bool.and_eq_true] at hall
  exact hall

theorem addrLoop_decimal {n : Nat} (b : UInt8) (s : Str) :
    addrLoop (n + 1) (decimal b ++ chr '.' :: s) = (addrLoop n s).map (b :: ·) := by
  obtain ⟨hdigits, hne, htemp, hbyte⟩ := decimal_digits b
  have htake : (decimal b ++ chr '.' :: s).takeWhile inPart = decimal b := by
    rw [List.takeWhile_append_of_pos fun c hc ↦ (hdigits c hc).2,
      List.takeWhile_cons_of_neg (by decide), List.append_nil]
  have hdrop : (decimal b ++ chr '.' :: s).dropWhile inPart = chr '.' :: s := by
    rw [List.dropWhile_append_of_pos fun c hc ↦ (hdigits c hc).2,
      List.dropWhile_cons_of_neg (by decide)]
  have hall : (decimal b).all isDigit = true := List.all_eq_true.mpr fun c hc ↦ (hdigits c hc).1
  rw [addrLoop]
  simp only [htake, hdrop, hall, Bool.true_eq_false, if_false, hne, htemp, or_self, hbyte, if_true]

theorem addrLoop_last (b : UInt8) : addrLoop 0 (decimal b) = some [b] := by
  obtain ⟨hdigits, hne, htemp, hbyte⟩ := decimal_digits b
  have htake : (decimal b).takeWhile inPart = decimal b :=
    List.takeWhile_eq_self_iff.mpr fun c hc ↦ (hdigits c hc).2
  have hdrop : (decimal b).dropWhile inPart = [] :=
    List.dropWhile_eq_nil_iff.mpr fun c hc ↦ (hdigits c hc).2
  have hall : (decimal b).all isDigit = true := List.all_eq_true.mpr fun c hc ↦ (hdigits c hc).1
  rw [addrLoop]
  simp [htake, hdrop, hall, hne, htemp, hbyte]

/-- `AddrToIP` takes back what was printed. -/
theorem addrToIP_dottedQuad {ip : List UInt8} (hip : ip.length = 4) :
    addrToIP (dottedQuad ip) = some ip := by
  obtain ⟨a, b, c, d, rfl⟩ := List.length_eq_four.mp hip
  unfold addrToIP dottedQuad
  rw [addrLoop_decimal, addrLoop_decimal, addrLoop_decimal, addrLoop_last]
  rfl

/-! ## The values that are written -/

/-- A character of a word. -/
def solid (c : UInt8) : Bool := c ≠ 0 ∧ notEol c = true ∧ isBlank c = false

/-- A value that fills a line to its end and no more. -/
structure Plain (v : Str) : Prop where
  all : ∀ c ∈ v, c ≠ 0 ∧ notEol c = true
  head : ∀ c ∈ v.head?, isBlank c = false

theorem solid_iff {c : UInt8} :
    solid c = true ↔ c ≠ 0 ∧ notEol c = true ∧ isBlank c = false := decide_eq_true_iff

theorem plain_of_solid {v : Str} (h : ∀ c ∈ v, solid c = true) : Plain v := by
  apply Plain.mk
  · intro c hc
    obtain ⟨hzero, heol, -⟩ := solid_iff.mp (h c hc)
    exact ⟨hzero, heol⟩
  · intro c hc
    exact (solid_iff.mp (h c (List.mem_of_mem_head? hc))).2.2

theorem plain_fixed {v : Str} (hne : v ≠ []) (h : ∀ c ∈ v, solid c = true) :
    Plain (v ++ fixed) := by
  have hfixed : ∀ c ∈ fixed, c ≠ 0 ∧ notEol c = true := by decide +kernel
  apply Plain.mk
  · exact List.forall_mem_append.mpr ⟨(plain_of_solid h).all, hfixed⟩
  · intro c hc
    rw [List.head?_append_of_ne_nil _ hne] at hc
    exact (plain_of_solid h).head c hc

theorem solid_decimal (b : UInt8) : ∀ c ∈ decimal b, solid c = true := by
  apply List.all_eq_true.mp
  revert b
  apply forall_byte
  decide +kernel

theorem solid_hex (b : UInt8) :
    (∀ c ∈ hex b ++ hexByte b, solid c = true) ∧ hex b ≠ [] ∧ hexByte b ≠ [] := by
  rw [← List.all_eq_true]
  revert b
  apply forall_byte
  decide +kernel

theorem solid_dottedQuad (ip : List UInt8) : ∀ c ∈ dottedQuad ip, solid c = true := by
  have hdot : solid (chr '.') = true := by decide
  unfold dottedQuad
  simp only [List.forall_mem_append, List.forall_mem_cons, hdot, true_and]
  exact ⟨solid_decimal _, solid_decimal _, solid_decimal _, solid_decimal _⟩

theorem solid_dashed (id : List UInt8) : ∀ c ∈ dashed id, solid c = true := by
  have hbyte (a : UInt8) : ∀ c ∈ hexByte a, solid c = true :=
    (List.forall_mem_append.mp (solid_hex a).1).2
  induction id using dashed.induct with
  | case1 => exact nofun
  | case2 a => exact hbyte a
  | case3 a b id ih =>
      rw [dashed, List.forall_mem_append, List.forall_mem_cons]
      exact ⟨hbyte a, by decide, ih⟩

theorem dashed_ne_nil {id : List UInt8} (h : id ≠ []) : dashed id ≠ [] := by
  obtain ⟨a, id, rfl⟩ := List.exists_cons_of_ne_nil h
  cases id with
  | nil => exact (solid_hex a).2.2
  | cons b id =>
      rw [dashed]
      exact List.append_ne_nil_of_left_ne_nil (solid_hex a).2.2 _

/-- A printable name that does not start with a blank. -/
structure Printable (name : Str) : Prop where
  all : ∀ c ∈ name, 0x20 ≤ c ∧ c ≤ 0x7E
  head : name.head? ≠ some (chr ' ')

theorem Printable.plain {name : Str} (h : Printable name) : Plain name := by
  have hprint : ∀ c : UInt8, (0x20 ≤ c ∧ c ≤ 0x7E) →
      (c ≠ 0 ∧ notEol c = true) ∧ (c ≠ chr ' ' → isBlank c = false) := by
    apply forall_byte
    decide +kernel
  apply Plain.mk
  · intro c hc
    exact (hprint c (h.all c hc)).1
  · intro c hc
    apply (hprint c (h.all c (List.mem_of_mem_head? hc))).2
    intro hblank
    rw [hblank] at hc
    exact h.head hc

theorem plain_ite {p : Prop} [Decidable p] {v w : Str} (hv : ∀ c ∈ v, solid c = true)
    (hw : ∀ c ∈ w, solid c = true) : Plain (if p then v else w) := by
  split
  · exact plain_of_solid hv
  · exact plain_of_solid hw

theorem lineOk_dottedQuad {n : Nat} {ip : List UInt8} (hip : ip.length = 4) :
    LineOk n (dottedQuad ip) := by
  intro _
  apply addrToIP_isSome.mp
  rw [addrToIP_dottedQuad hip]
  rfl

theorem configValues_plain (env : ConfigEnv) {e : EepromData}
    (hname : Printable (text (e.get Eeprom.boxName))) {k : Nat} {v : Str}
    (h : (configValues env e)[k]? = some v) : Plain v ∧ LineOk (k + 1) v := by
  have hother {n : Nat} {v : Str} (hn : n ∉ addressLines) : LineOk n v := fun h ↦ absurd h hn
  have hk : k < 9 := (List.getElem?_eq_some_iff.mp h).1
  interval_cases k
  · obtain rfl := Option.some.inj h
    exact ⟨hname.plain, hother (by decide)⟩
  · obtain rfl := Option.some.inj h
    obtain ⟨hmajor, hne, -⟩ := solid_hex env.majorVer
    obtain ⟨hminor, -, -⟩ := solid_hex env.minorVer
    refine ⟨?_, hother (by decide)⟩
    show Plain ((hex env.majorVer ++ chr '.' :: hexByte env.minorVer) ++ fixed)
    apply plain_fixed (List.append_ne_nil_of_left_ne_nil hne _)
    rw [List.forall_mem_append, List.forall_mem_cons]
    exact ⟨(List.forall_mem_append.mp hmajor).1, by decide, (List.forall_mem_append.mp hminor).2⟩
  · obtain rfl := Option.some.inj h
    have hne : e.get Eeprom.ethernetID ≠ [] := by
      apply List.ne_nil_of_length_pos
      rw [EepromData.length_get]
      decide
    exact ⟨plain_fixed (dashed_ne_nil hne) (solid_dashed _), hother (by decide)⟩
  · obtain rfl := Option.some.inj h
    exact ⟨plain_ite (by decide +kernel) (by decide +kernel), hother (by decide)⟩
  · obtain rfl := Option.some.inj h
    exact ⟨plain_of_solid (solid_dottedQuad _), lineOk_dottedQuad EepromData.length_get⟩
  · obtain rfl := Option.some.inj h
    exact ⟨plain_of_solid (solid_dottedQuad _), lineOk_dottedQuad EepromData.length_get⟩
  · obtain rfl := Option.some.inj h
    exact ⟨plain_of_solid (solid_dottedQuad _), lineOk_dottedQuad EepromData.length_get⟩
  · obtain rfl := Option.some.inj h
    exact ⟨plain_ite (by decide +kernel) (by decide +kernel), hother (by decide)⟩
  · obtain rfl := Option.some.inj h
    exact ⟨plain_fixed (by decide +kernel) (by decide +kernel), hother (by decide)⟩

theorem configLine_eol {n : Nat} (hn : n ≤ configFileLineNum + 1) {v : Str} (hv : Plain v) :
    configLine n v ≠ [] ∧ ∀ c ∈ configLine n v, notEol c = true := by
  have htitle : ∀ n ≤ configFileLineNum + 1, ∀ c ∈ twoDigits n ++ [chr ' '] ++ lineTitle n ++
      (List.replicate (12 - (lineTitle n).length) (chr ' ') ++ [chr ' ']) ++ [chr ':'] ++
      [chr ' '], notEol c = true := by
    simp only [← List.all_eq_true]
    decide +kernel
  apply And.intro
  · exact List.cons_ne_nil _ _
  · unfold configLine
    exact List.forall_mem_append.mpr ⟨htitle n hn, fun c hc ↦ (hv.all c hc).2⟩

theorem configLines_eol {n : Nat} {vs : List Str} (hn : n + vs.length ≤ configFileLineNum + 2)
    (hvs : ∀ v ∈ vs, Plain v) :
    ∀ l ∈ configLines n vs, l ≠ [] ∧ ∀ c ∈ l, notEol c = true := by
  induction vs generalizing n with
  | nil => exact nofun
  | cons v vs ih =>
      obtain ⟨hv, hvs⟩ := List.forall_mem_cons.mp hvs
      rw [List.length_cons] at hn
      rw [configLines, List.forall_mem_cons]
      exact ⟨configLine_eol (by omega) hv, ih (by omega) hvs⟩

theorem length_configLines (n : Nat) (vs : List Str) : (configLines n vs).length = vs.length := by
  induction vs generalizing n with
  | nil => rfl
  | cons v vs ih => rw [configLines, List.length_cons, List.length_cons, ih]

/-! ## The round trip -/

/-- The settings of the configuration file. -/
structure SameSettings (e e' : EepromData) : Prop where
  boxName : text (e'.get Eeprom.boxName) = text (e.get Eeprom.boxName)
  boxIPAddress : e'.get Eeprom.boxIPAddress = e.get Eeprom.boxIPAddress
  getwayAddress : e'.get Eeprom.getwayAddress = e.get Eeprom.getwayAddress
  subNetMask : e'.get Eeprom.subNetMask = e.get Eeprom.subNetMask
  printServerMode : e'.byte Eeprom.printServerMode = e.byte Eeprom.printServerMode

/-- What the loop makes of the lines that `FillConfigFile` writes. -/
structure ReadBack (env : ConfigEnv) (e : EepromData) (values : List (List UInt8)) : Prop where
  boxName : ∃ z, values[0]? = some (text (e.get Eeprom.boxName) ++ 0 :: z) ∧ 17 ≤ z.length
  dhcp : ∃ z, values[3]? = some ((if env.psMode &&& psDHCPOn ≠ 0 then 1 else 0) :: z)
  boxIPAddress : ∃ z, values[4]? = some (e.get Eeprom.boxIPAddress ++ z)
  getwayAddress : ∃ z, values[5]? = some (e.get Eeprom.getwayAddress ++ z)
  subNetMask : ∃ z, values[6]? = some (e.get Eeprom.subNetMask ++ z)
  netWare : ∃ z, values[7]? =
    some ((if e.byte Eeprom.printServerMode &&& psNetWareMode ≠ 0 then 1 else 0) :: z)

theorem readConfigData_fill (env : ConfigEnv) {e : EepromData}
    (hname : Printable (text (e.get Eeprom.boxName))) (old rest : List UInt8) :
    ∃ r, readConfigData [] (fillConfigFile [] env e) (behindFile old rest) = some r ∧ r.rc = 0 ∧
      ∀ k v, (configValues env e)[k]? = some v → ∃ z value, r.lines[k]? = some value ∧
        readValue k (configLine (k + 1) v ++ 0 :: z) (v ++ 0 :: z) = some value := by
  have hplain : ∀ v ∈ configValues env e, Plain v := by
    intro v hv
    obtain ⟨k, hk⟩ := List.getElem?_of_mem hv
    exact (configValues_plain env hname hk).1
  have hcount : (configValues env e).length = configFileLineNum := rfl
  have hbehind : ∃ c ∈ behindFile old rest, isEol c = false := by
    refine ⟨0x04, ?_, by decide⟩
    simp [behindFile]
  obtain ⟨lines, more, hcut, hlines⟩ := @cutLines_endLines (configLines 1 (configValues env e))
    (behindFile old rest) (configFileLineNum + 2) (by rw [length_configLines, hcount]; decide)
    (configLines_eol (by rw [hcount]; decide) hplain) hbehind
  have hinfo := lineInfo_cut hlines more
  obtain ⟨values, hread, hall⟩ := readLines_configLines hinfo fun k v hk ↦ by
    rw [Nat.zero_add]
    obtain ⟨hv, hok⟩ := configValues_plain env hname hk
    exact ⟨fun c hc ↦ (hv.all c hc).1, hv.head, hok⟩
  have hlen : lines.length = configFileLineNum := by
    rw [← hlines.length_eq, length_configLines, hcount]
  refine ⟨⟨0, none, values⟩, ?_, rfl, fun k v hk ↦ ?_⟩
  · have hfile : fillConfigFile [] env e = endLines (configLines 1 (configValues env e)) := rfl
    have hhead : (fillConfigFile [] env e ++ behindFile old rest).head? ≠ some 0 := by
      show some (0x30 : UInt8) ≠ some 0
      decide
    have htake : (lineInfo more lines).take configFileLineNum = lineInfo more lines := by
      rw [← hlen, ← @lineInfo_length lines more, List.take_length]
    unfold readConfigData
    rw [if_neg hhead, hfile, hcut]
    simp only [if_true, Nat.not_lt_zero, if_false, Nat.sub_zero, hlen, htake, hread, ne_eq,
      not_true_eq_false]
  · have hvalue := hall k v hk
    rwa [Nat.zero_add] at hvalue

theorem readAddress {i : Nat} {ip z value : List UInt8} (hip : ip.length = 4)
    (hi : i = 4 ∨ i = 5 ∨ i = 6) {line : List UInt8}
    (h : readValue i line (dottedQuad ip ++ 0 :: z) = some value) : ∃ z, value = ip ++ z := by
  have hzero : ∀ c ∈ dottedQuad ip, c ≠ 0 := fun c hc ↦ (solid_iff.mp (solid_dottedQuad ip c hc)).1
  have htext : cstr (dottedQuad ip ++ 0 :: z) 0 = dottedQuad ip := text_cut hzero
  unfold readValue at h
  rw [if_neg (by omega), if_neg (by omega), if_pos hi, htext, addrToIP_dottedQuad hip] at h
  exact ⟨_, (Option.some.inj h).symm⟩

/-- `LineInfo[i][0]` for a line that is not empty. -/
theorem putByte_cons {b : UInt8} {i : Int} {line value : List UInt8} (hline : line ≠ [])
    (hb : UInt8.ofInt i = b) (h : putByte i line = some value) : ∃ z, value = b :: z := by
  obtain ⟨c, t, rfl⟩ := List.exists_cons_of_ne_nil hline
  unfold putByte at h
  simp only at h
  rw [if_neg (by omega), hb] at h
  exact ⟨t, (Option.some.inj h).symm⟩

theorem isDHCPOn_printed (p : Prop) [Decidable p] (z : List UInt8) :
    isDHCPOn ((if p then bytes "ON" else bytes "OFF") ++ 0 :: z) = if p then 1 else 0 := by
  split <;> rfl

theorem isPsEnable_printed (p : Prop) [Decidable p] (z : List UInt8) :
    isPsEnable ((if p then bytes "Enable" else bytes "Disable") ++ 0 :: z) =
      if p then 1 else 0 := by
  split <;> rfl

theorem readBack (env : ConfigEnv) {e : EepromData}
    (hname : Printable (text (e.get Eeprom.boxName))) {values : List (List UInt8)}
    (h : ∀ k v, (configValues env e)[k]? = some v → ∃ z value, values[k]? = some value ∧
      readValue k (configLine (k + 1) v ++ 0 :: z) (v ++ 0 :: z) = some value) :
    ReadBack env e values := by
  have hcons {n : Nat} {v : Str} {z : List UInt8} : configLine n v ++ 0 :: z ≠ [] :=
    List.append_ne_nil_of_right_ne_nil _ (List.cons_ne_nil _ _)
  have hbit {p : Prop} [Decidable p] :
      UInt8.ofInt (if p then 1 else 0) = if p then 1 else 0 := by
    split <;> rfl
  constructor
  · obtain ⟨z, value, hget, hread⟩ := h 0 _ rfl
    have htext : cstr (text (e.get Eeprom.boxName) ++ 0 :: z) 0 = text (e.get Eeprom.boxName) :=
      text_cut fun c hc ↦ (hname.plain.all c hc).1
    refine ⟨(configLine 1 (text (e.get Eeprom.boxName)) ++ 0 :: z).drop
      ((text (e.get Eeprom.boxName)).length + 1), ?_, ?_⟩
    · rw [hget, ← hread]
      unfold readValue
      rw [if_pos rfl, htext]
      rfl
    · -- the line is its title and the name
      have hdigits : (twoDigits 1).length = 2 := rfl
      have htitle : (lineTitle 1).length = 7 := by decide +kernel
      unfold configLine
      simp only [List.length_drop, List.length_append, List.length_replicate, List.length_cons,
        hdigits, htitle]
      omega
  · obtain ⟨z, value, hget, hread⟩ := h 3 _ rfl
    have hput : putByte (if env.psMode &&& psDHCPOn ≠ 0 then 1 else 0)
        (configLine 4 (if env.psMode &&& psDHCPOn ≠ 0 then bytes "ON" else bytes "OFF") ++
          0 :: z) = some value := by
      rw [← isDHCPOn_printed _ z]
      exact hread
    obtain ⟨z', rfl⟩ := putByte_cons hcons hbit hput
    exact ⟨z', hget⟩
  · obtain ⟨z, value, hget, hread⟩ := h 4 _ rfl
    obtain ⟨z', rfl⟩ := readAddress EepromData.length_get (by decide) hread
    exact ⟨z', hget⟩
  · obtain ⟨z, value, hget, hread⟩ := h 5 _ rfl
    obtain ⟨z', rfl⟩ := readAddress EepromData.length_get (by decide) hread
    exact ⟨z', hget⟩
  · obtain ⟨z, value, hget, hread⟩ := h 6 _ rfl
    obtain ⟨z', rfl⟩ := readAddress EepromData.length_get (by decide) hread
    exact ⟨z', hget⟩
  · obtain ⟨z, value, hget, hread⟩ := h 7 _ rfl
    have hput : putByte (if e.byte Eeprom.printServerMode &&& psNetWareMode ≠ 0 then 1 else 0)
        (configLine 8 (if e.byte Eeprom.printServerMode &&& psNetWareMode ≠ 0 then bytes "Enable"
          else bytes "Disable") ++ 0 :: z) = some value := by
      rw [← isPsEnable_printed _ z]
      exact hread
    obtain ⟨z', rfl⟩ := putByte_cons hcons hbit hput
    exact ⟨z', hget⟩

/-- The two bits that are set are those that were read. -/
theorem setMode_same : ∀ mode : UInt8,
    setMode psDHCPOn (if mode &&& psDHCPOn ≠ 0 then 1 else 0)
      (setMode psNetWareMode (if mode &&& psNetWareMode ≠ 0 then 1 else 0) mode) = mode := by
  apply forall_byte
  decide +kernel

theorem text_take {v z : List UInt8} {n : Nat} (hv : ∀ c ∈ v, c ≠ 0) (hn : v.length ≤ n) :
    text ((v ++ 0 :: z).take n) = v := by
  rw [List.take_append, List.take_of_length_le hn, text_front hv]
  cases hk : n - v.length with
  | zero => exact List.append_nil v
  | succ k => exact List.append_nil v

theorem sameSettings_of_readBack {env : ConfigEnv} {e : EepromData} {values : List (List UInt8)}
    (hdhcp : env.psMode &&& psDHCPOn = e.byte Eeprom.printServerMode &&& psDHCPOn)
    (h : ReadBack env e values) : SameSettings e (tftpSetEEPROM values e) := by
  obtain ⟨name, hname, hlen⟩ := h.boxName
  obtain ⟨dhcp, hdhcp'⟩ := h.dhcp
  obtain ⟨ip, hip⟩ := h.boxIPAddress
  obtain ⟨gateway, hgateway⟩ := h.getwayAddress
  obtain ⟨mask, hmask⟩ := h.subNetMask
  obtain ⟨netWare, hnetWare⟩ := h.netWare
  have hshort : (text (e.get Eeprom.boxName)).length ≤ 18 := by
    have hle := (List.takeWhile_sublist (fun c ↦ decide (c ≠ 0))
      (l := (e.get Eeprom.boxName).drop 0)).length_le
    have hget : (e.get Eeprom.boxName).length = 18 := EepromData.length_get
    rw [List.drop_zero, hget] at hle
    exact hle
  have htake {f : Flash.Field} (hf : f.size = 4) (z : List UInt8) :
      (e.get f ++ z).take 4 = e.get f := by
    rw [List.take_left' (EepromData.length_get.trans hf)]
  have htake18 : ((text (e.get Eeprom.boxName) ++ 0 :: name).take 18).length = 18 := by
    rw [List.length_take, List.length_append, List.length_cons]
    omega
  have hmode : setMode psDHCPOn (if env.psMode &&& psDHCPOn ≠ 0 then 1 else 0)
      (setMode psNetWareMode
        (if e.byte Eeprom.printServerMode &&& psNetWareMode ≠ 0 then 1 else 0)
        (e.byte Eeprom.printServerMode)) = e.byte Eeprom.printServerMode := by
    rw [hdhcp]
    exact setMode_same _
  have hget4 {f : Flash.Field} (hf : f.size = 4) : (e.get f).length = 4 :=
    EepromData.length_get.trans hf
  unfold tftpSetEEPROM
  simp only [List.getD_eq_getElem?_getD, hname, hdhcp', hip, hgateway, hmask, hnetWare,
    Option.getD_some, List.getElem?_cons_zero, hmode]
  rw [htake rfl, htake rfl, htake rfl]
  have hname18 := Nat.le_of_eq htake18
  have hip4 := Nat.le_of_eq (@hget4 Eeprom.boxIPAddress rfl)
  have hgateway4 := Nat.le_of_eq (@hget4 Eeprom.getwayAddress rfl)
  have hmask4 := Nat.le_of_eq (@hget4 Eeprom.subNetMask rfl)
  have hmode1 {m : UInt8} : [m].length ≤ Eeprom.printServerMode.size := Nat.le_refl 1
  unfold EepromData.putByte
  constructor
  · rw [EepromData.get_put_of_apart (by decide) (by decide) hmode1,
      EepromData.get_put_of_apart (by decide) (by decide) hmask4,
      EepromData.get_put_of_apart (by decide) (by decide) hgateway4,
      EepromData.get_put_of_apart (by decide) (by decide) hip4,
      EepromData.get_put (by decide) htake18]
    exact text_take text_ne_zero hshort
  · rw [EepromData.get_put_of_apart (by decide) (by decide) hmode1,
      EepromData.get_put_of_apart (by decide) (by decide) hmask4,
      EepromData.get_put_of_apart (by decide) (by decide) hgateway4,
      EepromData.get_put (by decide) (hget4 rfl)]
  · rw [EepromData.get_put_of_apart (by decide) (by decide) hmode1,
      EepromData.get_put_of_apart (by decide) (by decide) hmask4,
      EepromData.get_put (by decide) (hget4 rfl)]
  · rw [EepromData.get_put_of_apart (by decide) (by decide) hmode1,
      EepromData.get_put (by decide) (hget4 rfl)]
  · exact EepromData.byte_putByte (by decide)

/-- A configuration file that is fetched and sent back changes nothing. -/
theorem config_round_trip (e : EepromData) (env : ConfigEnv) (old rest : List UInt8)
    (hname : Printable (text (e.get Eeprom.boxName)))
    (hdhcp : env.psMode &&& psDHCPOn = e.byte Eeprom.printServerMode &&& psDHCPOn) :
    ∃ r, readConfigData [] (fillConfigFile [] env e) (behindFile old rest) = some r ∧ r.rc = 0 ∧
      SameSettings e (tftpSetEEPROM r.lines e) := by
  obtain ⟨r, hr, hrc, hvalues⟩ := readConfigData_fill env hname old rest
  exact ⟨r, hr, hrc, sameSettings_of_readBack hdhcp (readBack env hname hvalues)⟩

/-- A box with the name A whose mode has DHCP on. -/
def dhcpBox : EepromData := .ofMemory fun i ↦ if i = 14 then 0x41 else if i = 41 then 0x80 else 0

theorem config_round_trip_dhcp :
    ∃ r, readConfigData [] (fillConfigFile [] ⟨1, 0, 0x80⟩ dhcpBox) (behindFile [] []) = some r ∧
      r.rc = 0 ∧ SameSettings dhcpBox (tftpSetEEPROM r.lines dhcpBox) := by
  have hmode : dhcpBox.byte Eeprom.printServerMode = 0x80 := EepromData.mem_ofMemory (by decide)
  have hname : text (dhcpBox.get Eeprom.boxName) = [0x41] := by
    unfold dhcpBox
    rw [EepromData.get_ofMemory (by decide)]
    decide
  apply config_round_trip dhcpBox ⟨1, 0, 0x80⟩ [] []
  · rw [hname]
    exact ⟨List.forall_mem_singleton.mpr (by decide), by decide⟩
  · rw [hmode]

end PrintServer.Tftp
