import Mathlib.Logic.Function.Basic
import PrintServer.Http.CString

/-!
# Parsing a device id

`parse_device_id` and `PrnFreeDeviceInfo` (prnport.c) with their memory: the string is cut up in
place, and each value is copied into a block of its own.  A block is known by the number of the call
of `malloc` that gave it.
-/

namespace PrintServer.Usb

open Http (Str bytes chr cstr strstr)

def toupper (c : UInt8) : UInt8 := if chr 'a' ≤ c ∧ c ≤ chr 'z' then c - 32 else c

/-- The strings of a `struct parport`. -/
inductive Field
  | manufacture
  | model
  | commandSet
  | description
deriving DecidableEq

/-- The field for a key in capitals, by the first branch that claims it. -/
def fieldOf (key : Str) : Option Field :=
  if (strstr key (bytes "MFG")).isSome ∨ (strstr key (bytes "MANUFACTURER")).isSome then
    some .manufacture
  else if key = bytes "MDL" ∨ key = bytes "MODEL" then some .model
  else if (strstr key (bytes "CMD")).isSome ∨ (strstr key (bytes "COMMAND SET")).isSome then
    some .commandSet
  else if (strstr key (bytes "DESCRIPTION")).isSome then some .description
  else none

/-! ## Blocks -/

/-- `wrote` bytes have been written from the start of the block, which begins with `text`. -/
structure Block where
  size : Nat
  wrote : Nat
  text : Str

/-- The pointers and the blocks; `calls` counts the calls of `malloc`. -/
structure Strings where
  field : Field → Option Nat
  block : Nat → Block
  live : List Nat
  calls : Nat

namespace Strings

def empty : Strings := ⟨fun _ ↦ none, fun _ ↦ ⟨0, 0, []⟩, [], 0⟩

variable (heap : Nat → Bool) (s : Strings)

/-- `malloc`, whose calls `heap` answers. -/
def malloc (size : Nat) : Option Nat × Strings :=
  let s' := { s with calls := s.calls + 1 }
  if heap s.calls then
    (some s.calls, { s' with
      block := Function.update s.block s.calls ⟨size, 0, []⟩
      live := s.calls :: s.live })
  else (none, s')

/-- The loop of `mallocw`, for `wait` turns at most. -/
def mallocwLoop : Nat → Strings → Nat → Option (Option Nat × Strings)
  | 0, _, _ => none
  | wait + 1, s, size =>
      match s.malloc heap size with
      | (some n, s) => some (some n, s)
      | (none, s) => mallocwLoop wait s size

/-- `mallocw`, which gives NULL for no bytes. -/
def mallocw (wait size : Nat) : Option (Option Nat × Strings) :=
  if size = 0 then some (none, s) else mallocwLoop heap wait s size

def setField (f : Field) (p : Option Nat) : Strings :=
  { s with field := Function.update s.field f p }

/-- `strcpy` to a block. -/
def strcpy (n : Nat) (text : Str) : Strings :=
  { s with
    block := Function.update s.block n
      { s.block n with wrote := max (s.block n).wrote (text.length + 1), text := text } }

/-- `memset` to 0 from the start of a block. -/
def memset (n length : Nat) : Strings :=
  { s with
    block := Function.update s.block n
      { s.block n with wrote := max (s.block n).wrote length, text := [] } }

/-- What a branch does with the value of its key. -/
def storeValue (wait : Nat) (f : Field) (value : Str) : Option Strings :=
  match f with
  | .description =>
      (s.mallocw heap wait value.length).map fun (p, s) ↦
        match p with
        | none => s.setField f none
        | some n => (s.setField f (some n)).strcpy n value
  | _ =>
      let (p, s) := s.malloc heap (value.length + 1)
      match p with
      | none => some (s.setField f none)
      | some n => some (((s.setField f (some n)).memset n value.length).strcpy n value)

/-- A field of `PrnFreeDeviceInfo`. -/
def freeField (f : Field) : Strings :=
  match s.field f with
  | none => s
  | some n => { s.setField f none with live := s.live.erase n }

end Strings

def prnFreeDeviceInfo (s : Strings) : Strings :=
  (((s.freeField .manufacture).freeField .model).freeField .commandSet).freeField .description

/-! ## The string -/

/-- The string's memory, the indices that were written, and the strings that were stored. -/
structure Parsing where
  mem : List UInt8
  stores : List Nat
  supportLang : UInt8
  strings : Strings

def strchrAt (mem : List UInt8) (p : Nat) (c : UInt8) : Option Nat :=
  ((cstr mem p).idxOf? c).map (p + ·)

namespace Parsing

variable (d : Parsing)

def storeAt (i : Nat) (c : UInt8) : Parsing :=
  { d with mem := d.mem.set i c, stores := i :: d.stores }

/-- The loop that puts a string into capitals. -/
def upperLoop : Nat → Parsing → Nat → Parsing
  | 0, d, _ => d
  | n + 1, d, u =>
      if d.mem.getD u 0 = 0 then d
      else upperLoop n (d.storeAt u (toupper (d.mem.getD u 0))) (u + 1)

def upper (u : Nat) : Parsing := upperLoop d.mem.length d u

/-- `P1284_PJL`, `P1284_PCL` and `P1284_POSTSCRIPT` -/
def langBits (sep : Str) : UInt8 :=
  (if (strstr sep (bytes "PJL")).isSome then 1 else 0) |||
    (if (strstr sep (bytes "PCL")).isSome then 2 else 0) |||
    (if (strstr sep (bytes "POSTSCRIPT")).isSome then 4 else 0)

variable (heap : Nat → Bool) (wait : Nat)

/-- The part from `p`, whose end is cut off, with its colon at `sep`. -/
def takeKey (p sep : Nat) : Option Parsing :=
  let d := (d.storeAt sep 0).upper p
  match fieldOf (cstr d.mem p) with
  | none => some d
  | some f =>
      (d.strings.storeValue heap wait f (cstr d.mem (sep + 1))).map fun strings ↦
        let d := { d with strings := strings }
        if f = .commandSet then
          let d := d.upper (sep + 1)
          { d with supportLang := langBits (cstr d.mem (sep + 1)) }
        else d

/-- The part from `p`, when it has a colon. -/
def takePart (p : Nat) : Option Parsing :=
  match strchrAt d.mem p (chr ':') with
  | none => some d
  | some sep => d.takeKey heap wait p sep

/-- One turn; with it comes where the next one begins. -/
def turn (p : Nat) : Option (Parsing × Option Nat) :=
  let q := strchrAt d.mem p (chr ';')
  let d := match q with
    | some q => d.storeAt q 0
    | none => d
  (d.takePart heap wait p).map fun d ↦ (d, q.map (· + 1))

def parseLoop : Nat → Parsing → Option Nat → Option Parsing
  | _, d, none => some d
  | 0, _, some _ => none
  | fuel + 1, d, some p => (d.turn heap wait p).bind fun (d, p) ↦ parseLoop fuel d p

end Parsing

/-- `parse_device_id` of the string that the buffer begins with, for a port without strings. -/
def parseDeviceId (heap : Nat → Bool) (wait fuel : Nat) (buffer : List UInt8) : Option Parsing :=
  Parsing.parseLoop heap wait fuel ⟨buffer ++ [0], [], 0, .empty⟩ (some 0)

end PrintServer.Usb
