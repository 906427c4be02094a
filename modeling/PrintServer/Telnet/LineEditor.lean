import PrintServer.Http.EchoName
import PrintServer.Telnet.CommandStream

/-!
# The line editor of the Telnet menus

`GetInputString` (telutil.c) puts the characters that `GetCharFromString` returns into the array of
its caller.  Over it stands the line that a sequence of key strokes spells.
-/

namespace PrintServer.Telnet

open Http

/-- What the next calls of `GetCharFromString` return, `none` for `EOF`, and what was sent. -/
structure Terminal where
  keys : List (Option UInt8)
  sent : List UInt8
  quitMenu : Bool

def Terminal.fputs (t : Terminal) (s : Str) : Terminal := { t with sent := t.sent ++ s }

/-- The locals of `GetInputString`, the array at `buf`, and the indices that were written. -/
structure Editor where
  buf : List UInt8
  index : Nat
  done : Bool
  crlfCharFlag : Bool
  sent : List UInt8
  writes : List Nat

namespace Editor

def write (e : Editor) (i : Nat) (data : UInt8) : Editor :=
  { e with buf := e.buf.set i data, writes := e.writes ++ [i] }

def fputs (e : Editor) (s : Str) : Editor := { e with sent := e.sent ++ s }

/-- `GetCharFromString` sends a character back. -/
def echoed (echo : Nat) (e : Editor) (data : UInt8) : Editor :=
  if isPrint data ∧ echo = 1 then e.fputs [data] else e

/-- The `switch` of `GetInputString`. -/
def key (len echo : Nat) (e : Editor) (data : UInt8) : Editor :=
  if data = 10 then e
  else if data = 13 then
    if e.index < len then { e.write e.index 0 with crlfCharFlag := true, done := true }
    else { e with done := true }
  else if data = 27 then { e.write 0 0 with done := true }
  else if data = 8 then
    if 0 < e.index then
      { (if echo ≠ 2 then e.fputs [8, chr ' ', 8] else e) with index := e.index - 1 }
    else e.fputs [7]
  else if data = 0 then e
  else if e.index + 1 < len then { e.write e.index data with index := e.index + 1 }
  else if e.index + 1 = len then
    -- one past the limit
    { (e.write e.index data).write (e.index + 1) 0 with index := e.index + 1, done := true }
  else { e with index := e.index + 1 }

end Editor

/-- `GetInputString` waits for a key, returns `INPUT_ERROR`, or has a string. -/
inductive Input
  | reading
  | error
  | ok
deriving DecidableEq

/-- The loop, and the keys that it leaves. -/
def inputLoop (len echo : Nat) : List (Option UInt8) → Editor → Input × Editor × List (Option UInt8)
  | [], e => (.reading, e, [])
  | none :: keys, e => (.error, e, keys)
  | some data :: keys, e =>
      if ((e.echoed echo data).key len echo data).done then
        (.ok, (e.echoed echo data).key len echo data, keys)
      else inputLoop len echo keys ((e.echoed echo data).key len echo data)

structure Entered where
  input : Input
  term : Terminal
  buf : List UInt8
  writes : List Nat

def getInputString (t : Terminal) (buf : List UInt8) (len echo : Nat) : Entered :=
  match inputLoop len echo t.keys ⟨buf, 0, false, false, t.sent, []⟩ with
  | (.ok, e, keys) =>
      let sent := if echo = 1 ∧ (cstr e.buf 0 ≠ [] ∨ e.crlfCharFlag = true) then e.sent ++ crlf
        else e.sent
      ⟨.ok, { t with keys, sent }, e.buf, e.writes⟩
  | (.error, e, keys) => ⟨.error, ⟨keys, e.sent, true⟩, e.buf, e.writes⟩
  | (.reading, e, keys) => ⟨.reading, { t with keys, sent := e.sent }, e.buf, e.writes⟩

/-! ## The line that keys spell -/

/-- A line of at most `len` characters that goes on or has ended. -/
inductive Line
  | more (text : Str)
  | ended (text : Str)

def Line.key (len : Nat) (text : Str) (data : UInt8) : Line :=
  if data = 10 ∨ data = 0 then .more text
  else if data = 13 then .ended text
  else if data = 27 then .ended []
  else if data = 8 then .more text.dropLast
  else if text.length + 1 < len then .more (text ++ [data])
  else .ended (text ++ [data])

def typedBehind (len : Nat) : Str → List (Option UInt8) → Option Str
  | text, some data :: keys =>
      match Line.key len text data with
      | .more text => typedBehind len text keys
      | .ended text => some text
  | _, _ => none

/-- The line, if the keys end one. -/
def typed (len : Nat) (keys : List (Option UInt8)) : Option Str := typedBehind len [] keys

/-! ## The editor keeps the line -/

variable {len echo n : Nat} {e : Editor} {text : Str} {data : UInt8} {keys : List (Option UInt8)}
  {t : Terminal} {buf : List UInt8}

/-- In an array of `n` bytes the editor has `text`, and there is room for more. -/
structure Editor.Shows (n len : Nat) (text : Str) (e : Editor) : Prop where
  size : e.buf.length = n
  index : e.index = text.length
  short : text.length < len
  take : e.buf.take text.length = text
  noNul : 0 ∉ text
  running : e.done = false
  inside : ∀ i ∈ e.writes, i < n

/-- The editor has left `text` as a C string. -/
structure Editor.Leaves (n len : Nat) (text : Str) (e : Editor) : Prop where
  string : cstr e.buf 0 = text
  short : text.length ≤ len
  done : e.done = true
  inside : ∀ i ∈ e.writes, i < n

theorem cstr_of_take (htake : buf.take text.length = text) (hnul : 0 ∉ text)
    (hend : buf[text.length]? = some 0) : cstr buf 0 = text := by
  obtain ⟨hlt, hget⟩ := List.getElem?_eq_some_iff.mp hend
  have hsplit : buf = text ++ 0 :: buf.drop (text.length + 1) := by
    conv_lhs => rw [← List.take_append_drop text.length buf, htake, List.drop_eq_getElem_cons hlt]
    rw [hget]
  rw [hsplit, cstr_append hnul]
  simp [cstr]

namespace Editor.Shows

theorem echoed (h : e.Shows n len text) (echo : Nat) (data : UInt8) :
    (e.echoed echo data).Shows n len text := by
  unfold Editor.echoed
  split
  · exact ⟨h.size, h.index, h.short, h.take, h.noNul, h.running, h.inside⟩
  · exact h

theorem inside_write (h : e.Shows n len text) (data : UInt8) {i : Nat} (hi : i < n) :
    ∀ j ∈ (e.write i data).writes, j < n := by
  intro j hj
  rcases List.mem_append.mp hj with hold | hnew
  · exact h.inside j hold
  · rwa [List.mem_singleton.mp hnew]

theorem take_write (h : e.Shows n len text) (hn : len < n) :
    (e.write e.index data).buf.take (text ++ [data]).length = text ++ [data] := by
  have hlt : text.length < e.buf.length := by
    rw [h.size]
    exact Nat.lt_trans h.short hn
  show (e.buf.set e.index data).take _ = _
  rw [h.index, List.length_append, List.length_singleton,
    List.take_add_one, List.take_set_of_le (Nat.le_refl _), h.take,
    List.getElem?_set_self hlt]
  rfl

/-- A character behind the text. -/
theorem push (h : e.Shows n len text) (hn : len < n) (hdata : data ≠ 0)
    (hshort : text.length + 1 < len) :
    Shows n len (text ++ [data]) { e.write e.index data with index := e.index + 1 } where
  size := by
    show (e.buf.set e.index data).length = n
    rw [List.length_set, h.size]
  index := by
    show e.index + 1 = _
    rw [h.index, List.length_append, List.length_singleton]
  short := by
    rw [List.length_append, List.length_singleton]
    exact hshort
  take := h.take_write hn
  noNul := by
    intro hmem
    rcases List.mem_append.mp hmem with hold | hnew
    · exact h.noNul hold
    · exact hdata (List.mem_singleton.mp hnew).symm
  running := h.running
  inside := h.inside_write data (by rw [h.index]; exact Nat.lt_trans h.short hn)

/-- The character that fills the line. -/
theorem fill (h : e.Shows n len text) (hn : len < n) (hdata : data ≠ 0)
    (hlast : text.length + 1 = len) :
    Leaves n len (text ++ [data]) { (e.write e.index data).write (e.index + 1) 0 with
      index := e.index + 1, done := true } where
  string := by
    have hlength : (text ++ [data]).length = e.index + 1 := by
      rw [List.length_append, List.length_singleton, h.index]
    have hlt : e.index + 1 < (e.write e.index data).buf.length := by
      show _ < (e.buf.set e.index data).length
      rw [List.length_set, h.size, h.index]
      omega
    apply cstr_of_take
    · show ((e.write e.index data).buf.set (e.index + 1) 0).take _ = _
      rw [List.take_set_of_le (Nat.le_of_eq hlength)]
      exact h.take_write hn
    · intro hmem
      rcases List.mem_append.mp hmem with hold | hnew
      · exact h.noNul hold
      · exact hdata (List.mem_singleton.mp hnew).symm
    · rw [hlength]
      exact List.getElem?_set_self hlt
  short := by
    rw [List.length_append, List.length_singleton]
    exact Nat.le_of_eq hlast
  done := rfl
  inside := by
    have hidx : e.index + 1 < n := by
      rw [h.index]
      omega
    intro j hj
    rcases List.mem_append.mp hj with hold | hnew
    · exact h.inside_write data (Nat.lt_of_succ_lt hidx) j hold
    · rwa [List.mem_singleton.mp hnew]

theorem enter (h : e.Shows n len text) (hn : len < n) :
    Leaves n len text { e.write e.index 0 with crlfCharFlag := true, done := true } where
  string := by
    have hlt : text.length < e.buf.length := by
      rw [h.size]
      exact Nat.lt_trans h.short hn
    show cstr (e.buf.set e.index 0) 0 = text
    rw [h.index]
    apply cstr_of_take
    · rw [List.take_set_of_le (Nat.le_refl _), h.take]
    · exact h.noNul
    · exact List.getElem?_set_self hlt
  short := Nat.le_of_lt h.short
  done := rfl
  inside := h.inside_write 0 (by rw [h.index]; exact Nat.lt_trans h.short hn)

theorem escape (h : e.Shows n len text) (hn : len < n) :
    Leaves n len [] { e.write 0 0 with done := true } where
  string := by
    have hlt : 0 < e.buf.length := by
      rw [h.size]
      omega
    show cstr (e.buf.set 0 0) 0 = []
    exact cstr_of_take rfl List.not_mem_nil (List.getElem?_set_self hlt)
  short := Nat.zero_le _
  done := rfl
  inside := h.inside_write 0 (by omega)

theorem backspace (h : e.Shows n len text) :
    Shows n len text.dropLast { (if echo ≠ 2 then e.fputs [8, chr ' ', 8] else e) with
      index := e.index - 1 } := by
  have hbuf : (if echo ≠ 2 then e.fputs [8, chr ' ', 8] else e).buf = e.buf ∧
      (if echo ≠ 2 then e.fputs [8, chr ' ', 8] else e).done = e.done ∧
      (if echo ≠ 2 then e.fputs [8, chr ' ', 8] else e).writes = e.writes := by
    split <;> exact ⟨rfl, rfl, rfl⟩
  obtain ⟨hbuf, hdone, hwrites⟩ := hbuf
  constructor
  case size => exact (congrArg List.length hbuf).trans h.size
  case index =>
    show e.index - 1 = _
    rw [h.index, List.length_dropLast]
  case short =>
    rw [List.length_dropLast]
    exact Nat.lt_of_le_of_lt (Nat.sub_le _ _) h.short
  case take =>
    show List.take _ (if echo ≠ 2 then e.fputs [8, chr ' ', 8] else e).buf = _
    have htake : text.dropLast = (e.buf.take text.length).take (text.length - 1) := by
      rw [h.take, List.dropLast_eq_take]
    rw [hbuf, List.length_dropLast, htake, List.take_take, Nat.min_eq_left (Nat.sub_le _ _)]
  case noNul => exact fun hmem ↦ h.noNul (List.dropLast_subset text hmem)
  case running => exact hdone.trans h.running
  case inside =>
    show ∀ i ∈ (if echo ≠ 2 then e.fputs [8, chr ' ', 8] else e).writes, i < n
    rw [hwrites]
    exact h.inside

theorem bell (h : e.Shows n len text) (hzero : ¬ 0 < e.index) :
    Shows n len text.dropLast (e.fputs [7]) := by
  have hnil : text = [] := by
    apply List.length_eq_zero_iff.mp
    rw [← h.index]
    omega
  subst hnil
  exact ⟨h.size, h.index, h.short, h.take, h.noNul, h.running, h.inside⟩

/-- What a key does to the array is what it does to the line. -/
theorem key (h : e.Shows n len text) (hn : len < n) (echo : Nat) (data : UInt8) :
    match Line.key len text data with
    | .more text => (e.key len echo data).Shows n len text
    | .ended text => (e.key len echo data).Leaves n len text := by
  unfold Line.key Editor.key
  by_cases h10 : data = 10
  · simpa [h10] using h
  by_cases h0 : data = 0
  · simpa [h0] using h
  have hskip : ¬ (data = 10 ∨ data = 0) := by simp [h10, h0]
  rw [if_neg hskip, if_neg h10]
  by_cases h13 : data = 13
  · rw [if_pos h13, if_pos h13, if_pos (by rw [h.index]; exact h.short)]
    exact h.enter hn
  rw [if_neg h13, if_neg h13]
  by_cases h27 : data = 27
  · rw [if_pos h27, if_pos h27]
    exact h.escape hn
  rw [if_neg h27, if_neg h27]
  by_cases h8 : data = 8
  · rw [if_pos h8, if_pos h8]
    by_cases hzero : 0 < e.index
    · rw [if_pos hzero]
      exact h.backspace
    · rw [if_neg hzero]
      exact h.bell hzero
  rw [if_neg h8, if_neg h8, if_neg h0, h.index]
  by_cases hmore : text.length + 1 < len
  · rw [if_pos hmore, if_pos hmore, ← h.index]
    exact h.push hn h0 hmore
  · have hlast : text.length + 1 = len := by
      have hshort := h.short
      omega
    rw [if_neg hmore, if_neg hmore, if_pos hlast, ← h.index]
    exact h.fill hn h0 hlast

end Editor.Shows

/-- How a loop ends that began with `text`. -/
def LoopEnds (n len : Nat) (text : Str) (keys : List (Option UInt8))
    (r : Input × Editor × List (Option UInt8)) : Prop :=
  (∀ i ∈ r.2.1.writes, i < n) ∧
    match typedBehind len text keys with
    | some text => r.1 = .ok ∧ r.2.1.Leaves n len text
    | none => r.1 ≠ .ok

theorem inputLoop_ends (h : e.Shows n len text) (hn : len < n) :
    LoopEnds n len text keys (inputLoop len echo keys e) := by
  unfold LoopEnds
  induction keys generalizing e text with
  | nil => exact ⟨h.inside, Input.noConfusion⟩
  | cons k keys ih =>
      cases k with
      | none => exact ⟨h.inside, Input.noConfusion⟩
      | some data =>
          have hkey := (h.echoed echo data).key hn echo data
          unfold inputLoop typedBehind
          cases hline : Line.key len text data with
          | more text' =>
              rw [hline] at hkey
              rw [if_neg (by rw [hkey.running]; exact Bool.false_ne_true)]
              exact ih hkey
          | ended text' =>
              rw [hline] at hkey
              rw [if_pos hkey.done]
              exact ⟨hkey.inside, rfl, hkey⟩

/-- `GetInputString` writes inside an array that is longer than the limit, and returns the line. -/
structure Entered.Sound (len : Nat) (keys : List (Option UInt8)) (buf : List UInt8) (r : Entered) :
    Prop where
  inside : ∀ i ∈ r.writes, i < buf.length
  ok_iff : ∀ text, typed len keys = some text ↔ r.input = .ok ∧ cstr r.buf 0 = text
  short : r.input = .ok → (cstr r.buf 0).length ≤ len

theorem getInputString_sound (hlen : 0 < len) (hbuf : len < buf.length) :
    (getInputString t buf len echo).Sound len t.keys buf := by
  have hstart : Editor.Shows buf.length len [] ⟨buf, 0, false, false, t.sent, []⟩ :=
    ⟨rfl, rfl, hlen, rfl, List.not_mem_nil, rfl, fun i hi ↦ absurd hi List.not_mem_nil⟩
  have hends : LoopEnds _ len [] t.keys (inputLoop len echo t.keys _) :=
    inputLoop_ends hstart hbuf
  unfold LoopEnds at hends
  unfold getInputString
  generalize inputLoop len echo t.keys _ = r at hends ⊢
  obtain ⟨input, e, keys⟩ := r
  obtain ⟨hinside, htext⟩ := hends
  cases htyped : typedBehind len [] t.keys with
  | none =>
      rw [htyped] at htext
      cases input with
      | ok => exact absurd rfl htext
      | error => exact ⟨hinside, by simp [typed, htyped], Input.noConfusion⟩
      | reading => exact ⟨hinside, by simp [typed, htyped], Input.noConfusion⟩
  | some text =>
      rw [htyped] at htext
      obtain ⟨hok, hleaves⟩ := htext
      change input = .ok at hok
      subst hok
      refine ⟨hinside, ?_, fun _ ↦ ?_⟩
      · intro text'
        simp only [typed, htyped, hleaves.string, true_and, Option.some.injEq]
      · rw [hleaves.string]
        exact hleaves.short

end PrintServer.Telnet
