import Mathlib.Data.List.Basic

/-!
# The C strings of httpd

A `Str` is the text of a C string without its NUL; a buffer is the memory of an array, and `cstr`
reads the string that starts at an index of it.  What lies behind the NUL of a buffer stays there.
-/

namespace PrintServer.Http

abbrev Str := List UInt8

def bytes (s : String) : Str := s.toList.map fun c ↦ c.toNat.toUInt8

/-- A literal is evaluated by its characters: `h` is then `rfl`. -/
theorem bytes_eq_map {s : String} {l : List Char} (h : s = String.ofList l) :
    bytes s = l.map fun c ↦ c.toNat.toUInt8 := by
  rw [h, bytes, String.toList_ofList]

def chr (c : Char) : UInt8 := c.toNat.toUInt8

/-- The string at index `k` of a buffer. -/
def cstr (b : List UInt8) (k : Nat) : Str := (b.drop k).takeWhile (· ≠ 0)

/-- `fgets` stores what it read and a NUL over the old contents. -/
def store (line b : List UInt8) : List UInt8 := line ++ 0 :: b.drop (line.length + 1)

def tolower (c : UInt8) : UInt8 := if chr 'A' ≤ c ∧ c ≤ chr 'Z' then c + 32 else c

/-- `strnicmp` of psmain.c: the end of either string ends the comparison as equal. -/
def strnicmp : Str → Str → Nat → Int
  | _, _, 0 => 0
  | [], _, _ => 0
  | _, [], _ => 0
  | a :: as, b :: bs, n + 1 =>
      if tolower a = tolower b then strnicmp as bs n
      else if tolower b < tolower a then 1
      else -1

def stricmp : Str → Str → Int
  | [], [] => 0
  | [], _ :: _ => -1
  | _ :: _, [] => 1
  | a :: as, b :: bs =>
      if tolower b < tolower a then 1
      else if tolower a < tolower b then -1
      else stricmp as bs

def strstr (s pat : Str) : Option Str :=
  if pat.isPrefixOf s then some s
  else match s with
    | [] => none
    | _ :: t => strstr t pat

/-- The index of the last `c`. -/
def strrchr (s : Str) (c : UInt8) : Option Nat :=
  (s.reverse.idxOf? c).map fun i ↦ s.length - 1 - i

def isBlank (c : UInt8) : Bool := c = chr ' ' ∨ c = chr '\t'

def skipnonwhite (s : List UInt8) : List UInt8 := s.dropWhile fun c ↦ c ≠ 0 ∧ ¬ isBlank c
def skipwhite (s : List UInt8) : List UInt8 := s.dropWhile isBlank

/-- Writes a NUL over the first `c` of the string in the buffer. -/
def cutAt (c : UInt8) (b : List UInt8) : List UInt8 :=
  match (cstr b 0).idxOf? c with
  | some i => b.set i 0
  | none => b

def rip (b : List UInt8) : List UInt8 := cutAt (chr '\r') (cutAt (chr '\n') b)

/-- `atol`, with the clamping of `strtol`. -/
def atol (s : Str) : Int32 :=
  let s := s.dropWhile fun c ↦ c = chr ' ' ∨ (9 ≤ c ∧ c ≤ 13)
  let digits (s : Str) : Int := (s.takeWhile fun c ↦ chr '0' ≤ c ∧ c ≤ chr '9').foldl
    (fun n c ↦ 10 * n + (c - chr '0').toNat) 0
  let n := match s with
    | c :: t => if c = chr '-' then - digits t else if c = chr '+' then digits t else digits s
    | [] => 0
  Int32.ofInt (max (-2147483648) (min 2147483647 n))

def htoi (s : Str) : Int := go 0 s
where
  go (i : Int) : Str → Int
    | [] => i
    | c :: s =>
        if c = chr 'x' then go i s
        else if chr '0' ≤ c ∧ c ≤ chr '9' then go (i * 16 + (c - chr '0').toNat) s
        else if chr 'a' ≤ c ∧ c ≤ chr 'f' then go (i * 16 + (c - chr 'a').toNat + 10) s
        else if chr 'A' ≤ c ∧ c ≤ chr 'F' then go (i * 16 + (c - chr 'A').toNat + 10) s
        else i

/-- What `decode` writes: the NUL of the string is copied unless a `%` less than two characters
before it steps over it. -/
def decodeBytes (isPath : Bool) : Str → List UInt8
  | [] => [0]
  | c :: s =>
      if c = chr '%' then
        match s with
        | [] => [0]
        | [a] => [UInt8.ofInt (htoi [a])]
        | a :: b :: s => UInt8.ofInt (htoi [a, b]) :: decodeBytes isPath s
      else if ¬ isPath ∧ c = chr '+' then chr ' ' :: decodeBytes isPath s
      else if ¬ isPath ∧ c = chr '&' then 0xff :: decodeBytes isPath s
      else c :: decodeBytes isPath s

/-- `decode`, in memory that held `heap`.  Its `int16` indices suffice for what one call of
`zot_fgets` takes from a piece. -/
def decode (heap : List UInt8) (s : Str) (isPath : Bool) : Str :=
  let tmp := decodeBytes isPath s
  cstr (tmp ++ heap.drop tmp.length) 0

/-- A property of bytes that holds for each of the 256. -/
theorem forall_byte {P : UInt8 → Prop} (h : ∀ i < 256, P (UInt8.ofNat i)) (c : UInt8) : P c := by
  have hc := h c.toNat c.toNat_lt
  rwa [UInt8.ofNat_toNat] at hc

end PrintServer.Http
