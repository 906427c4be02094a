import Mathlib.Data.List.GetD
import Mathlib.Data.List.TakeWhile
import Mathlib.Data.Nat.Bitwise
import PrintServer.Novell.Banner

/-!
# When banner pages are exact

The letters that `print_large` searches must be in `CharTable`, which has no end that the search
would see, and the length of its buffer is that of a string that nothing in it ends: the octet behind
the text is one of an earlier job.
-/

namespace PrintServer.Novell

open Http (Str bytes chr cstr store)

/-! ## What should be printed -/

/-- A letter's dot, by its row and column. -/
def dot (ch : UInt8) (row col : Nat) : Bool :=
  ((lrgchars.getD (charTable.idxOf ch) []).getD row 0).toNat.testBit (6 - col)

/-- The row of a letter, with the space behind it. -/
def letterRow (row : Nat) (ch : UInt8) : Str :=
  ((List.range 7).map fun col ↦ if dot ch row col then ch else chr ' ') ++ [chr ' ']

/-- The letters that fit a line. -/
def bannerName (name : Str) : Str := (strupr name).take maxChar

/-- The name in its seven rows, and the line behind it. -/
def largeText (name : Str) : Str :=
  let margin := List.replicate ((lineLen - (bannerName name).length * 8) / 2) (chr ' ')
  ((List.range 7).flatMap fun row ↦
    margin ++ (bannerName name).flatMap (letterRow row) ++ [chr '\r', chr '\n']) ++
    [chr '\r', chr '\n'] ++ endText

/-! ## `print_large` -/

/-- The dots that the loop of `scancol` finds. -/
def scanDots : Nat → UInt8 → List Bool
  | 0, _ => []
  | n + 1, bits => decide (bits &&& 0x40 ≠ 0) :: scanDots n (bits <<< 1)

theorem scanBits_eq_map (n : Nat) (ch bits : UInt8) :
    scanBits n ch bits = (scanDots n bits).map fun d ↦ if d then ch else chr ' ' := by
  induction n generalizing bits with
  | zero => rfl
  | succ n ih =>
    rw [scanBits, scanDots, List.map_cons, ih]
    simp

theorem topDot (bits : UInt8) : decide (bits &&& 0x40 ≠ 0) = bits.toNat.testBit 6 := by
  have hand : (bits &&& 0x40).toNat = (bits.toNat.testBit 6).toNat * 2 ^ 6 := by
    rw [UInt8.toNat_and]
    exact Nat.and_two_pow bits.toNat 6
  rw [Bool.eq_iff_iff, decide_eq_true_iff, Ne, ← UInt8.toNat_inj, hand]
  cases bits.toNat.testBit 6 with
  | false => decide
  | true => decide

theorem scanDots_eq {n : Nat} (hn : n ≤ 7) (bits : UInt8) :
    scanDots n bits = (List.range n).map fun col ↦ bits.toNat.testBit (6 - col) := by
  induction n generalizing bits with
  | zero => rfl
  | succ n ih =>
    have hshift (col : Nat) (hcol : col < n) :
        (bits <<< 1).toNat.testBit (6 - col) = bits.toNat.testBit (6 - (col + 1)) := by
      rw [UInt8.toNat_shiftLeft, Nat.testBit_mod_two_pow, Nat.testBit_shiftLeft]
      show (decide (6 - col < 8) && (decide (6 - col ≥ 1) && _)) = _
      rw [decide_eq_true (by omega : 6 - col < 8), decide_eq_true (by omega : 6 - col ≥ 1),
        ← Nat.sub_sub]
      rfl
    rw [scanDots, ih (by omega), topDot, List.range_succ_eq_map, List.map_cons, List.map_map]
    congr 1
    apply List.map_congr_left
    intro col hcol
    exact hshift col (List.mem_range.mp hcol)

theorem scanBits_eq (ch bits : UInt8) : scanBits 7 ch bits =
    (List.range 7).map fun col ↦ if bits.toNat.testBit (6 - col) then ch else chr ' ' := by
  rw [scanBits_eq_map, scanDots_eq (le_refl 7), List.map_map]
  rfl

theorem lrgchars_length : lrgchars.length = charTable.length := by decide

theorem lrgchars_rows : lrgchars.all (·.length = 7) = true := by decide

theorem idxOf?_of_mem {table : List UInt8} {ch : UInt8} (h : ch ∈ table) :
    table.idxOf? ch = some (table.idxOf ch) := by
  have hlt : table.idxOf ch < table.length := List.idxOf_lt_length_of_mem h
  rw [List.idxOf?_eq_some_iff]
  refine ⟨hlt, ?_, ?_⟩
  · rw [List.getElem_idxOf]
  · intro j hj heq
    exact absurd heq (by simpa using List.not_of_lt_findIdx hj)

theorem largeChar_of_mem {row : Nat} {ch : UInt8} (hrow : row < 7) (h : ch ∈ charTable) :
    largeChar row ch = some (letterRow row ch) := by
  have hlt : charTable.idxOf ch < charTable.length := List.idxOf_lt_length_of_mem h
  have hglyph : charTable.idxOf ch < lrgchars.length := lrgchars_length ▸ hlt
  have hseven : row < (lrgchars[charTable.idxOf ch]).length := by
    have hall := List.all_eq_true.mp lrgchars_rows _ (List.getElem_mem hglyph)
    have hlength := of_decide_eq_true hall
    omega
  have hch : charTable[charTable.idxOf ch]? = some ch := by
    rw [List.getElem?_eq_getElem hlt, List.getElem_idxOf]
  have hdot (col : Nat) : dot ch row col =
      (lrgchars[charTable.idxOf ch][row]).toNat.testBit (6 - col) := by
    rw [dot, List.getD_eq_getElem _ _ hglyph, List.getD_eq_getElem _ _ hseven]
  rw [largeChar, idxOf?_of_mem h]
  simp only [hch, List.getElem?_eq_getElem hglyph]
  rw [List.getElem?_eq_getElem hseven, Option.map_some, scanBits_eq, letterRow]
  simp only [hdot]

theorem largeChar_of_not_mem {row : Nat} {ch : UInt8} (h : ch ∉ charTable) :
    largeChar row ch = none := by
  rw [largeChar, List.idxOf?_eq_none_iff.mpr h]

theorem mapM_of_all {α β : Type} {f : α → Option β} {g : α → β} {l : List α}
    (h : ∀ x ∈ l, f x = some (g x)) : l.mapM f = some (l.map g) := by
  induction l with
  | nil => rfl
  | cons x l ih =>
    obtain ⟨hx, hl⟩ := List.forall_mem_cons.mp h
    rw [List.mapM_cons, hx, ih hl]
    rfl

theorem mapM_of_none {α β : Type} {f : α → Option β} {l : List α} {x : α} (hx : x ∈ l)
    (h : f x = none) : l.mapM f = none := by
  induction l with
  | nil => contradiction
  | cons y l ih =>
    rw [List.mapM_cons]
    rcases List.mem_cons.mp hx with rfl | hx
    · rw [h]
      rfl
    · rw [ih hx]
      cases f y <;> rfl

theorem bannerName_eq (name : Str) :
    bannerName name = (strupr name).take (min (strupr name).length maxChar) := by
  rw [bannerName, List.take_eq_take_iff]
  omega

theorem printLarge_of_drawable {name : Str} (h : ∀ ch ∈ bannerName name, ch ∈ charTable) :
    printLarge name true = some (largeText name) := by
  have hlength : (bannerName name).length = min (strupr name).length maxChar := by
    rw [bannerName, List.length_take, Nat.min_comm]
  have hline (row : Nat) (hrow : row ∈ List.range 7) :
      largeLine ((lineLen - (bannerName name).length * 8) / 2) (bannerName name) row =
        some (List.replicate ((lineLen - (bannerName name).length * 8) / 2) (chr ' ') ++
          (bannerName name).flatMap (letterRow row) ++ [chr '\r', chr '\n']) := by
    have hmap := mapM_of_all fun ch hch ↦ largeChar_of_mem (List.mem_range.mp hrow) (h ch hch)
    rw [largeLine, hmap, Option.map_some, List.flatMap_def]
  rw [printLarge, ← bannerName_eq, ← hlength, mapM_of_all hline, Option.map_some, largeText,
    List.flatMap_def]
  rfl

theorem printLarge_of_not_drawable {name : Str} {ch : UInt8} (hch : ch ∈ bannerName name)
    (h : ch ∉ charTable) : printLarge name true = none := by
  rw [printLarge, ← bannerName_eq]
  have hrow : (0 : Nat) ∈ List.range 7 := by decide
  have hnone (space : Nat) : largeLine space (bannerName name) 0 = none := by
    rw [largeLine, mapM_of_none hch (largeChar_of_not_mem h)]
    rfl
  rw [mapM_of_none hrow (hnone _)]
  rfl

/-! ## Texts without a NUL -/

theorem zero_not_mem_flatten {texts : List Str} (h : ∀ s ∈ texts, 0 ∉ s) : 0 ∉ texts.flatten := by
  intro hmem
  obtain ⟨s, hs, hzero⟩ := List.mem_flatten.mp hmem
  exact h s hs hzero

theorem zero_not_mem_append {s t : Str} (hs : 0 ∉ s) (ht : 0 ∉ t) : 0 ∉ s ++ t := by
  intro hmem
  rcases List.mem_append.mp hmem with h | h
  · exact hs h
  · exact ht h

theorem zero_not_mem_replicate {n : Nat} {c : UInt8} (hc : c ≠ 0) : 0 ∉ List.replicate n c := by
  intro hmem
  exact hc (List.eq_of_mem_replicate hmem).symm

theorem zero_not_mem_charTable : 0 ∉ charTable := by decide

theorem zero_not_mem_letterRow {row : Nat} {ch : UInt8} (hch : ch ≠ 0) : 0 ∉ letterRow row ch := by
  apply zero_not_mem_append
  · intro hmem
    obtain ⟨col, -, hcol⟩ := List.mem_map.mp hmem
    split at hcol
    · exact hch hcol
    · exact absurd hcol (by decide)
  · decide

theorem zero_not_mem_largeText {name : Str} (h : ∀ ch ∈ bannerName name, ch ∈ charTable) :
    0 ∉ largeText name := by
  rw [largeText, List.flatMap_def]
  apply zero_not_mem_append
  · apply zero_not_mem_append _ (by decide)
    apply zero_not_mem_flatten
    intro s hs
    obtain ⟨row, -, rfl⟩ := List.mem_map.mp hs
    apply zero_not_mem_append _ (by decide)
    apply zero_not_mem_append (zero_not_mem_replicate (by decide))
    rw [List.flatMap_def]
    apply zero_not_mem_flatten
    intro t ht
    obtain ⟨ch, hch, rfl⟩ := List.mem_map.mp ht
    apply zero_not_mem_letterRow
    intro hzero
    exact zero_not_mem_charTable (hzero ▸ h ch hch)
  · decide

theorem zero_not_mem_sprintf {parts args : List Str} (hp : ∀ s ∈ parts, 0 ∉ s)
    (ha : ∀ s ∈ args, 0 ∉ s) : 0 ∉ sprintf parts args := by
  induction parts generalizing args with
  | nil =>
    rw [sprintf]
    · decide
    · intro _ _ _ _ h
      contradiction
  | cons part parts ih =>
    obtain ⟨hpart, hparts⟩ := List.forall_mem_cons.mp hp
    cases args with
    | nil =>
      rw [sprintf]
      · exact zero_not_mem_flatten hp
      · intro _ _ _ _ _ h
        contradiction
    | cons arg args =>
      obtain ⟨harg, hargs⟩ := List.forall_mem_cons.mp ha
      rw [sprintf]
      exact zero_not_mem_append (zero_not_mem_append hpart harg) (ih hparts hargs)

theorem length_sprintf_le (parts args : List Str) :
    (sprintf parts args).length ≤ parts.flatten.length + args.flatten.length := by
  induction parts generalizing args with
  | nil => 
    rw [sprintf]
    · exact Nat.zero_le _
    · intro _ _ _ _ h
      contradiction
  | cons part parts ih =>
    cases args with
    | nil =>
      rw [sprintf]
      · exact Nat.le_add_right _ _
      · intro _ _ _ _ _ h
        contradiction
    | cons arg args =>
      have hrest := ih args
      rw [sprintf]
      simp only [List.flatten_cons, List.length_append]
      omega

theorem padRight_spec {s : Str} (width : Nat) (h : 0 ∉ s) :
    0 ∉ padRight width s ∧ (padRight width s).length ≤ width + s.length := by
  constructor
  · exact zero_not_mem_append h (zero_not_mem_replicate (by decide))
  · rw [padRight, List.length_append, List.length_replicate]
    omega

theorem padLeft_spec {s : Str} (width : Nat) {c : Char} (hc : chr c ≠ 0) (h : 0 ∉ s) :
    0 ∉ padLeft width c s ∧ (padLeft width c s).length ≤ width + s.length := by
  constructor
  · exact zero_not_mem_append (zero_not_mem_replicate hc) h
  · rw [padLeft, List.length_append, List.length_replicate]
    omega

theorem zero_not_mem_decimal (n : Nat) : 0 ∉ decimal n := by
  intro h
  obtain ⟨c, hc, hzero⟩ := List.mem_map.mp h
  have hdigit := Nat.isDigit_of_mem_toDigits (by decide) (by decide) hc
  rw [Char.isDigit, Bool.and_eq_true, decide_eq_true_iff, decide_eq_true_iff] at hdigit
  have hval : c.toNat % 256 = 0 := congrArg UInt8.toNat hzero
  have hlow : 48 ≤ c.toNat := hdigit.1
  have hhigh : c.toNat ≤ 57 := hdigit.2
  omega

theorem length_decimal_le {n k : Nat} (hk : 0 < k) (h : n < 10 ^ k) : (decimal n).length ≤ k := by
  rw [decimal, List.length_map]
  exact (Nat.length_toDigits_le_iff (by decide) hk).mpr h

/-- A year of four digits. -/
theorem length_decimal_year {n : Nat} (hlow : 1000 ≤ n) (hhigh : n < 10000) :
    (decimal n).length = 4 := by
  apply Nat.le_antisymm (length_decimal_le (by decide) hhigh)
  rw [decimal, List.length_map]
  by_contra h
  have hshort := (Nat.length_toDigits_le_iff (b := 10) (by decide) (by decide)).mp
    (Nat.lt_succ_iff.mp (Nat.not_le.mp h))
  omega

theorem decimal_byte (c : UInt8) : 0 ∉ decimal c.toNat ∧ (decimal c.toNat).length ≤ 3 ∧
    0 ∉ decimal (1900 + c.toNat) ∧ (decimal (1900 + c.toNat)).length = 4 ∧
    0 ∉ decimal (2000 + c.toNat) ∧ (decimal (2000 + c.toNat)).length = 4 := by
  have hlt := c.toNat_lt
  refine ⟨zero_not_mem_decimal _, length_decimal_le (by decide) (by omega),
    zero_not_mem_decimal _, ?_, zero_not_mem_decimal _, ?_⟩
  · exact length_decimal_year (by omega) (by omega)
  · exact length_decimal_year (by omega) (by omega)

theorem bannerData_spec : bannerData.all (fun s ↦ ! s.contains 0) = true ∧
    bannerData.flatten.length ≤ 800 := by
  simp only [bannerData, starLine, emptyLine, Http.bytes_eq_map rfl]
  (set_option maxRecDepth 8000 in decide)

/-! ## The buffers -/

theorem strlen_append {text : Str} (h : 0 ∉ text) (rest : List UInt8) :
    strlen (text ++ rest) = (strlen rest).map (text.length + ·) := by
  have hmem : 0 ∈ text ++ rest ↔ 0 ∈ rest := by
    rw [List.mem_append]
    exact or_iff_right h
  rw [strlen, strlen, Http.cstr_append h, List.length_append]
  by_cases hzero : 0 ∈ rest
  · rw [if_pos hzero, if_pos (hmem.mpr hzero)]
    rfl
  · rw [if_neg hzero, if_neg (mt hmem.mp hzero)]
    rfl

theorem strlen_eq_zero_iff {data : List UInt8} : strlen data = some 0 ↔ data.head? = some 0 := by
  rw [strlen]
  cases data with
  | nil => simp
  | cons c data =>
    by_cases hc : c = 0
    · simp [hc, cstr]
    · simp [hc, cstr, Ne.symm hc]

/-- A text with its NUL is the string of its buffer. -/
theorem bufOf_writeString {text data : List UInt8} (h : 0 ∉ text) (hfit : text.length < data.length) :
    writeString text data >>= bufOf = some ⟨store text data, text.length⟩ := by
  have hlen : strlen (store text data) = some text.length := by
    rw [store, strlen_append h, strlen_eq_zero_iff.mpr rfl]
    rfl
  rw [writeString, if_pos hfit]
  show bufOf (store text data) = _
  rw [bufOf, hlen, Option.map_some]

/-- One without is so if the octet behind it is a NUL already. -/
theorem bufOf_writeOver_iff {text data : List UInt8} (h : 0 ∉ text) (hfit : text.length ≤ data.length)
    {b : BannerBuf} : writeOver text data >>= bufOf = some b →
      (b.size = text.length ↔ data[text.length]? = some 0) := by
  rw [writeOver, if_pos hfit]
  show bufOf (text ++ data.drop text.length) = some b → _
  rw [bufOf, strlen_append h]
  intro hb
  obtain ⟨size, hsize, rfl⟩ := Option.map_eq_some_iff.mp hb
  obtain ⟨rest, hrest, rfl⟩ := Option.map_eq_some_iff.mp hsize
  show text.length + rest = text.length ↔ _
  rw [← List.head?_drop, ← strlen_eq_zero_iff, hrest, Option.some.injEq]
  omega

theorem stringAt_spec {sub : List UInt8} {k : Nat} {s : Str} (h : stringAt sub k = some s) :
    0 ∉ s ∧ s.length ≤ sub.length := by
  rw [stringAt] at h
  split at h
  · cases h
    constructor
    · intro hmem
      have hne := List.mem_takeWhile_imp hmem
      contradiction
    · have hle := (List.takeWhile_sublist (l := sub.drop k) (· ≠ 0)).length_le
      rw [List.length_drop] at hle
      show (List.takeWhile _ (sub.drop k)).length ≤ _
      omega
  · contradiction

/-! ## Entries with a banner -/

/-- An entry with the banner flag, and the two free buffers for its pages that
`ServiceNetWareQueue` asks for. -/
structure BannerEntry where
  copies : UInt16
  clientStation : UInt8
  sub : List UInt8
  sub_length : sub.length = 1492
  flagged : sub.getD (104 + 5) 0 &&& 0x80 ≠ 0
  titleData : List UInt8
  titleData_length : titleData.length = bannerBlockSize
  largeData : List UInt8
  largeData_length : largeData.length = bannerBlockSize
  inQueue : List (List UInt8)
  outQueue : List BannerBuf

namespace BannerEntry

variable (e : BannerEntry)

def entry : JobEntry :=
  ⟨e.copies, e.clientStation, e.sub, e.titleData :: e.largeData :: e.inQueue, e.outQueue⟩

def name : Str := cstr e.sub (104 + 32)

end BannerEntry

/-- A buffer with a text, of the size that says so. -/
def BannerBuf.Holds (b : BannerBuf) (text : Str) : Prop :=
  b.size = text.length ∧ b.data.take b.size = text

/-- Both pages of the banner, and nothing else, go on the output queue, and no read leaves an
array. -/
def BannerEntry.Exact (e : BannerEntry) : Prop :=
  ∃ banner title large e', bannerOf e.sub = some banner ∧
    readQueueJobEntry 0 false e.entry = some (0, none, e') ∧
    e'.outQueue = e.outQueue ++ [title, large] ∧ e'.inQueue = e.inQueue ∧
    title.Holds banner.title ∧ large.Holds (largeText e.name)

theorem stringAt_of_mem {sub : List UInt8} {j k : Nat} (hjk : j ≤ k) (h : 0 ∈ sub.drop k) :
    stringAt sub j = some (cstr sub j) := by
  have hmem : 0 ∈ sub.drop j := by
    have hdrop : sub.drop k = (sub.drop j).drop (k - j) := by
      rw [List.drop_drop]
      congr 1
      omega
    rw [hdrop] at h
    exact List.mem_of_mem_drop h
  rw [stringAt, if_pos hmem]

/-- The name is the last of the strings: where it ends, all of them do. -/
theorem bannerOf_isSome_iff {sub : List UInt8} :
    (bannerOf sub).isSome = true ↔ 0 ∈ sub.drop (104 + 32) := by
  constructor
  · intro h
    by_contra hnot
    rw [bannerOf, stringAt, if_neg hnot] at h
    contradiction
  · intro h
    rw [bannerOf, stringAt_of_mem (Nat.le_refl _) h, stringAt_of_mem (by omega) h,
      stringAt_of_mem (by omega) h]
    rfl

/-- The arguments are strings, and short enough for a buffer. -/
structure Banner.Ok (b : Banner) (room : Nat) : Prop where
  name : 0 ∉ b.name ∧ b.name.length ≤ room
  form : 0 ∉ b.form ∧ b.form.length ≤ room
  description : 0 ∉ b.description ∧ b.description.length ≤ room
  year : 0 ∉ decimal b.year ∧ (decimal b.year).length ≤ 4
  apm : chr b.apm ≠ 0

theorem clockHour_letter (hour : UInt8) : chr (clockHour hour).2 ≠ 0 := by
  rw [clockHour]
  split
  · show chr 'P' ≠ 0
    decide
  · show chr 'A' ≠ 0
    decide

theorem bannerOf_ok {sub : List UInt8} {b : Banner} (h : bannerOf sub = some b) :
    b.name = cstr sub (104 + 32) ∧ b.Ok sub.length := by
  have hmem := bannerOf_isSome_iff.mp (Option.isSome_of_eq_some h)
  have hname := stringAt_of_mem (Nat.le_refl _) hmem
  have hform : stringAt sub (104 + 10) = _ := stringAt_of_mem (by omega) hmem
  have hdescription : stringAt sub 54 = _ := stringAt_of_mem (by omega) hmem
  rw [bannerOf, hname, hform, hdescription] at h
  obtain rfl := Option.some.inj h
  refine ⟨rfl, stringAt_spec hname, stringAt_spec hform, stringAt_spec hdescription, ?_, ?_⟩
  · obtain ⟨-, -, h1900, hlen1900, h2000, hlen2000⟩ := decimal_byte (sub.getD (16 + 0) 0)
    dsimp only
    split
    · exact ⟨h1900, hlen1900.le⟩
    · exact ⟨h2000, hlen2000.le⟩
  · exact clockHour_letter _

theorem Banner.Ok.title {b : Banner} {room : Nat} (h : b.Ok room) :
    0 ∉ b.title ∧ b.title.length ≤ 1000 + 3 * room := by
  have hname := padRight_spec 13 h.name.1
  have hform := padRight_spec 16 h.form.1
  have hdescription := padRight_spec 50 h.description.1
  have hbyte (c : UInt8) : 0 ∉ decimal c.toNat ∧ (decimal c.toNat).length ≤ 3 :=
    ⟨(decimal_byte c).1, (decimal_byte c).2.1⟩
  have hzeros (c : UInt8) := @padLeft_spec _ 2 '0' (by decide) (hbyte c).1
  have hblanks (c : UInt8) := @padLeft_spec _ 2 ' ' (by decide) (hbyte c).1
  have hapm : 0 ∉ [chr b.apm, chr 'M'] := by
    intro hmem
    rcases List.mem_cons.mp hmem with hzero | hmem
    · exact h.apm hzero.symm
    · exact absurd hmem (by decide)
  constructor
  · apply zero_not_mem_sprintf
    · intro s hs hzero
      have hall := List.all_eq_true.mp bannerData_spec.1 s hs
      rw [List.contains_eq_mem, decide_eq_true hzero] at hall
      exact absurd hall Bool.false_ne_true
    · simp only [args, List.forall_mem_cons]
      exact ⟨hname.1, hform.1, hdescription.1, (hzeros _).1, (hzeros _).1, h.year.1, (hblanks _).1,
        (hzeros _).1, (hzeros _).1, hapm, fun _ hs ↦ absurd hs List.not_mem_nil⟩
  · have hle := length_sprintf_le bannerData b.args
    have hdata := bannerData_spec.2
    have hargs : b.args.flatten.length ≤ 120 + 3 * room := by
      have hmonth := (hzeros b.month).2
      have hmonth' := (hbyte b.month).2
      have hday := (hzeros b.day).2
      have hday' := (hbyte b.day).2
      have hhour := (hblanks b.hour).2
      have hhour' := (hbyte b.hour).2
      have hmin := (hzeros b.min).2
      have hmin' := (hbyte b.min).2
      have hsec := (hzeros b.sec).2
      have hsec' := (hbyte b.sec).2
      have hyear := h.year.2
      have hroom := h.name.2
      have hroom' := h.form.2
      have hroom'' := h.description.2
      simp only [args, List.flatten_cons, List.flatten_nil, List.length_append, List.length_cons,
        List.length_nil]
      omega
    rw [Banner.title]
    omega

/-! ## Both pages -/

namespace BannerEntry

variable {e : BannerEntry}

theorem length_largeText (name : Str) : (largeText name).length =
    7 * ((lineLen - (bannerName name).length * 8) / 2 + (bannerName name).length * 8 + 2) + 84 := by
  have hletter (row : Nat) (ch : UInt8) : (letterRow row ch).length = 8 := by
    rw [letterRow, List.length_append, List.length_map, List.length_range]
    rfl
  have hend : endText.length = 82 := by decide
  rw [largeText]
  simp only [List.length_append, List.length_flatMap, List.length_replicate, hletter, hend,
    List.map_const', List.sum_replicate_nat, List.length_range, List.length_cons, List.length_nil]

/-- With a banner the first page is always there; the second one hangs on the name. -/
theorem printBanner_entry {b : Banner} (hb : bannerOf e.sub = some b) (copies : UInt16)
    (clientStation : UInt8) :
    printBanner { e.entry with copies, clientStation } =
      (printLarge b.name true).bind fun text ↦
        (writeOver text e.largeData >>= bufOf).map fun large ↦
          { copies, clientStation, inQueue := e.inQueue
            sub := (e.sub.set (16 + 3) b.hour).take (104 + 32) ++ strupr b.name ++
              (e.sub.set (16 + 3) b.hour).drop (104 + 32 + b.name.length)
            outQueue := e.outQueue ++ [⟨store b.title e.titleData, b.title.length⟩, large] } := by
  obtain ⟨hnul, hlength⟩ := (bannerOf_ok hb).2.title
  have hfit : b.title.length < e.titleData.length := by
    rw [e.titleData_length]
    have hroom := e.sub_length
    unfold bannerBlockSize
    omega
  have htitle := bufOf_writeString hnul hfit
  simp only [printBanner, entry, hb, Option.bind_eq_bind, Option.bind_some] at htitle ⊢
  rw [htitle]
  cases printLarge b.name true with
  | none => rfl
  | some text =>
    cases hlarge : (writeOver text e.largeData).bind bufOf with
    | none => simp only [Option.bind_some, hlarge, Option.bind_none, Option.map_none]
    | some large => simp only [Option.bind_some, hlarge, Option.map_some]

theorem readQueueJobEntry_entry (e : BannerEntry) : ∃ copies clientStation,
    readQueueJobEntry 0 false e.entry =
      (printBanner { e.entry with copies, clientStation }).map (0, none, ·) := by
  refine ⟨Ipx.wordSwap (Ipx.nget16 (e.sub.getD (104 + 2) 0, e.sub.getD (104 + 3) 0)),
    if e.sub.getD (104 + 5) 0 &&& 0x10 = 0 then 0 else e.clientStation, ?_⟩
  have hflag : e.entry.sub.getD (104 + 5) 0 &&& 0x80 ≠ 0 := e.flagged
  rw [readQueueJobEntry, if_neg (fun h ↦ h rfl), if_neg (by decide)]
  exact if_pos hflag

/-- What the name and the buffers must be like. -/
structure Good (e : BannerEntry) : Prop where
  terminated : 0 ∈ e.sub.drop (104 + 32)
  drawable : ∀ ch ∈ bannerName e.name, ch ∈ charTable
  behind : e.largeData[7 * ((lineLen - (bannerName e.name).length * 8) / 2 +
    (bannerName e.name).length * 8 + 2) + 84]? = some 0

theorem largeText_fits (e : BannerEntry) : (largeText e.name).length < e.largeData.length := by
  have hle : (bannerName e.name).length ≤ maxChar := List.length_take_le _ _
  rw [length_largeText, e.largeData_length]
  unfold maxChar at hle
  unfold lineLen bannerBlockSize
  omega

theorem Good.exact (h : e.Good) : e.Exact := by
  obtain ⟨b, hb⟩ := Option.isSome_iff_exists.mp (bannerOf_isSome_iff.mpr h.terminated)
  obtain ⟨copies, clientStation, hread⟩ := readQueueJobEntry_entry e
  have hname : b.name = e.name := (bannerOf_ok hb).1
  have hprint : printLarge b.name true = some (largeText e.name) := by
    rw [hname]
    exact printLarge_of_drawable h.drawable
  have hfit := (largeText_fits e).le
  have hnul := zero_not_mem_largeText h.drawable
  have hzero : strlen (e.largeData.drop (largeText e.name).length) = some 0 := by
    rw [strlen_eq_zero_iff, List.head?_drop, length_largeText]
    exact h.behind
  have hlarge : writeOver (largeText e.name) e.largeData >>= bufOf =
      some ⟨largeText e.name ++ e.largeData.drop (largeText e.name).length,
        (largeText e.name).length⟩ := by
    rw [writeOver, if_pos hfit]
    show bufOf _ = _
    rw [bufOf, strlen_append hnul, hzero]
    rfl
  rw [printBanner_entry hb, hprint, Option.bind_some, hlarge] at hread
  refine ⟨b, _, _, _, hb, hread, rfl, rfl, ?_, ?_⟩
  · exact ⟨rfl, List.take_left⟩
  · exact ⟨rfl, List.take_left⟩

theorem Exact.good (h : e.Exact) : e.Good := by
  obtain ⟨b, title, large, e', hb, hread, hout, -, -, hlarge⟩ := h
  have hname : b.name = e.name := (bannerOf_ok hb).1
  obtain ⟨copies, clientStation, hentry⟩ := readQueueJobEntry_entry e
  rw [hentry, printBanner_entry hb, hname] at hread
  obtain ⟨x, hx, hpair⟩ := Option.map_eq_some_iff.mp hread
  obtain ⟨text, htext, hx⟩ := Option.bind_eq_some_iff.mp hx
  obtain ⟨page, hpage, rfl⟩ := Option.map_eq_some_iff.mp hx
  have hdrawable : ∀ ch ∈ bannerName e.name, ch ∈ charTable := by
    intro ch hch
    by_contra hnot
    rw [printLarge_of_not_drawable hch hnot] at htext
    contradiction
  rw [printLarge_of_drawable hdrawable] at htext
  cases htext
  have hsame : page = large := by
    have hqueue := congrArg (fun p ↦ p.2.2.outQueue) hpair
    have htwo : [_, page] = [title, large] := List.append_cancel_left (hqueue.trans hout)
    exact (List.cons.inj (List.cons.inj htwo).2).1
  rw [← hsame] at hlarge
  have hnul := zero_not_mem_largeText hdrawable
  have hbehind := (bufOf_writeOver_iff hnul (largeText_fits e).le hpage).mp hlarge.1
  rw [length_largeText] at hbehind
  exact ⟨bannerOf_isSome_iff.mp (Option.isSome_of_eq_some hb), hdrawable, hbehind⟩

end BannerEntry

/-- The pages of a banner are exact if and only if the strings of the entry end in it, the letters
of the name are in `CharTable`, and the buffer of the second page holds a NUL behind the text. -/
theorem bannerExact_iff (e : BannerEntry) : e.Exact ↔
    0 ∈ e.sub.drop (104 + 32) ∧ (∀ ch ∈ bannerName e.name, ch ∈ charTable) ∧
      e.largeData[7 * ((lineLen - (bannerName e.name).length * 8) / 2 +
        (bannerName e.name).length * 8 + 2) + 84]? = some 0 := by
  constructor
  · intro h
    obtain ⟨hterminated, hdrawable, hbehind⟩ := BannerEntry.Exact.good h
    exact ⟨hterminated, hdrawable, hbehind⟩
  · intro h
    exact BannerEntry.Good.exact ⟨h.1, h.2.1, h.2.2⟩

/-- The entry of a user with a space in the name, all buffers being fresh. -/
def spacedName : BannerEntry where
  copies := 1
  clientStation := 0
  sub := List.replicate 109 0 ++ [0x80] ++ List.replicate 26 0 ++ bytes "J SMITH" ++
    List.replicate 1349 0
  sub_length := by (set_option maxRecDepth 8000 in decide)
  flagged := by decide
  titleData := List.replicate bannerBlockSize 0
  titleData_length := List.length_replicate
  largeData := List.replicate bannerBlockSize 0
  largeData_length := List.length_replicate
  inQueue := []
  outQueue := []

/-- Its search of the space leaves `CharTable`. -/
theorem spacedName_not_exact : ¬ spacedName.Exact := by
  intro h
  have hspace : chr ' ' ∈ bannerName spacedName.name := by decide
  have hnot : chr ' ' ∉ charTable := by decide
  exact hnot ((BannerEntry.Exact.good h).drawable _ hspace)

end PrintServer.Novell
