import Mathlib.Data.List.TakeWhile

/-!
# Attributes of an IPP request

`ippGetAttribute` and `ippAddAttribute` of ippd.c.  An attribute is read from a transport, of which
only the bytes matter that are still to come: `httpRead` gives them in pieces of any size.
-/

namespace PrintServer.Ipp

/-! ## Transport -/

/-- `httpRead`, and the bytes that the client will have sent when the body ends. -/
structure Transport (σ : Type) where
  httpRead : Int → σ → List UInt8 × σ
  pending : σ → List UInt8
  piece : ∀ n s, 0 < n → (httpRead n s).1 ++ pending (httpRead n s).2 = pending s
  piece_le : ∀ n s, 0 < n → (httpRead n s).1.length ≤ n.toNat
  piece_ne_nil : ∀ n s, 0 < n → pending s ≠ [] → (httpRead n s).1 ≠ []
  shrinks : ∀ n s, (httpRead n s).1.length + (pending (httpRead n s).2).length ≤ (pending s).length

variable {σ : Type} (T : Transport σ)

/-- The loop of `ippRead`; each of its turns takes bytes from the transport. -/
def ippReadLoop : Nat → Int → σ → List UInt8 × σ
  | 0, _, s => ([], s)
  | fuel + 1, length, s =>
      if length = 0 then ([], s)
      else
        let r := T.httpRead length s
        if r.1 = [] then ([], r.2)
        else
          let r' := ippReadLoop fuel (length - r.1.length) r.2
          (r.1 ++ r'.1, r'.2)

/-- `ippRead`: the bytes it stores. -/
def ippRead (length : Int) (s : σ) : List UInt8 × σ :=
  ippReadLoop T ((T.pending s).length + 1) length s

/-! ## Values -/

/-- What the values of a tag look like. -/
inductive Kind
  | integer | boolean | string | date | resolution | range | language | unknown
deriving DecidableEq

/-- The cases of the `switch` over the tag, the same in both functions. -/
def kindOf (tag : UInt8) : Kind :=
  if tag = 0x21 ∨ tag = 0x23 then .integer
  else if tag = 0x22 then .boolean
  else if tag = 0x41 ∨ tag = 0x42 ∨ tag = 0x44 ∨ tag = 0x30 ∨ tag = 0x45 ∨ tag = 0x46 ∨
    tag = 0x47 ∨ tag = 0x48 ∨ tag = 0x49 then .string
  else if tag = 0x31 then .date
  else if tag = 0x32 then .resolution
  else if tag = 0x33 then .range
  else if tag = 0x35 ∨ tag = 0x36 then .language
  else .unknown

/-- `ipp_value_t`, as far as it belongs to the kind.  Of `units` one byte is read and written. -/
inductive Value : Kind → Type
  | integer (n : Int32) : Value .integer
  | boolean (b : UInt8) : Value .boolean
  | string (text : List UInt8) : Value .string
  | date (bytes : Vector UInt8 11) : Value .date
  | resolution (xres yres : Int32) (units : UInt8) : Value .resolution
  | range (lower upper : Int32) : Value .range
  | language (charset text : List UInt8) : Value .language
  | unknown (length : Int) (data : List UInt8) : Value .unknown

structure Attribute where
  tag : UInt8
  name : List UInt8
  value : Value (kindOf tag)

def ippMaxAttribName : Nat := 80

/-- Numbers in network order. -/
def be16 (n : Nat) : List UInt8 := [UInt8.ofNat (n / 256), UInt8.ofNat n]

def be32 (x : Int32) : List UInt8 :=
  let n := x.toUInt32.toNat
  [UInt8.ofNat (n / 16777216), UInt8.ofNat (n / 65536), UInt8.ofNat (n / 256), UInt8.ofNat n]

/-- An `int16` after `ntohs`. -/
def int16 (a b : UInt8) : Int :=
  let n := a.toNat * 256 + b.toNat
  if n < 32768 then n else n - 65536

/-- An `int32` after `ntohl`. -/
def int32 (bs : List UInt8) : Int32 :=
  (UInt32.ofNat ((bs.getD 0 0).toNat * 16777216 + (bs.getD 1 0).toNat * 65536 +
    (bs.getD 2 0).toNat * 256 + (bs.getD 3 0).toNat)).toInt32

/-! ## Writing -/

/-- A string up to its NUL. -/
def cString (bs : List UInt8) : List UInt8 := bs.takeWhile fun c ↦ c ≠ 0

/-- The `switch` of `ippAddAttribute`. -/
def ippAddValue : {k : Kind} → Value k → List UInt8
  | _, .integer n => be16 4 ++ be32 n
  | _, .boolean b => be16 1 ++ [b]
  | _, .string text => be16 (cString text).length ++ cString text
  | _, .date bytes => be16 11 ++ bytes.toList
  | _, .resolution xres yres units => be16 9 ++ (be32 xres ++ (be32 yres ++ [units]))
  | _, .range lower upper => be16 8 ++ (be32 lower ++ be32 upper)
  | _, .language charset text =>
      be16 ((cString charset).length + (cString text).length) ++
        (be16 (cString charset).length ++ (cString charset ++
          (be16 (cString text).length ++ cString text)))
  | _, .unknown length data => be16 (length % 65536).toNat ++ data.take length.toNat

/-- The bytes that `ippAddAttribute` appends. -/
def ippAddAttribute (a : Attribute) : List UInt8 :=
  a.tag :: (be16 (cString a.name).length ++ (cString a.name ++ ippAddValue a.value))

/-! ## Reading -/

/-- A call of `ippRead` with the size of its destination, and the index where `attrib_name` is
terminated. -/
inductive ReadEvent
  | read (size : Nat) (length : Int)
  | terminate (index : Int)
deriving DecidableEq

structure Parsing (σ : Type) where
  conn : σ
  events : List ReadEvent

/-- A part of `ippGetAttribute`; `none` returns `IPP_TAG_ZERO`. -/
def Getter (σ α : Type) : Type := Parsing σ → Option α × Parsing σ

namespace Getter

variable {α β : Type}

def pure (a : α) : Getter σ α := fun p ↦ (some a, p)

def fail : Getter σ α := fun p ↦ (none, p)

def bind (x : Getter σ α) (f : α → Getter σ β) : Getter σ β := fun p ↦
  match x p with
  | (none, p) => (none, p)
  | (some a, p) => f a p

instance : Monad (Getter σ) where
  pure := pure
  bind := bind

end Getter

/-- `ippRead` of `n` bytes into a destination of a size, and the test for less than `n`. -/
def readOr (size : Nat) (n : Int) : Getter σ (List UInt8) := fun p ↦
  let r := ippRead T n p.conn
  let p := ⟨r.2, p.events ++ [.read size n]⟩
  if r.1.length < n then (none, p) else (some r.1, p)

def readInt16 : Getter σ Int := do
  let bs ← readOr T 2 2
  return int16 (bs.getD 0 0) (bs.getD 1 0)

/-- `t->attrib_name[i] = '\0'` -/
def terminate (i : Int) : Getter σ Unit := fun p ↦
  (some (), { p with events := p.events ++ [.terminate i] })

def getName (n16 : Int) : Getter σ (List UInt8) :=
  if n16 = 0 then do
    terminate 0
    return []
  else do
    let name ← readOr T ippMaxAttribName n16
    terminate n16
    return name

/-- The argument of `calloc` and `malloc` is a `size_t`. -/
def sizeT (n : Int) : Nat := (n % 4294967296).toNat

variable (calloc : Nat → Nat → Bool)

/-- `calloc( n16 + 1, 1 )` and the text that is read into it; `i` allocations came before. -/
def getText (i : Nat) (n16 : Int) : Getter σ (List UInt8) :=
  if calloc i (sizeT (n16 + 1)) then readOr T (sizeT (n16 + 1)) n16 else .fail

/-- The `switch` of `ippGetAttribute`. -/
def getValue (n16 : Int) : (k : Kind) → Getter σ (Value k)
  | .integer =>
      if n16 ≠ 4 then .fail
      else do
        let n32 ← readOr T 4 4
        return .integer (int32 n32)
  | .boolean =>
      if n16 ≠ 1 then .fail
      else do
        let n8 ← readOr T 1 1
        return .boolean (n8.getD 0 0)
  | .string => do
      let text ← getText T calloc 0 n16
      return .string text
  | .date =>
      if n16 ≠ 11 then .fail
      else do
        let bs ← readOr T 11 11
        return .date (Vector.ofFn fun i ↦ bs.getD i 0)
  | .resolution =>
      if n16 ≠ 9 then .fail
      else do
        let xres ← readOr T 4 4
        let yres ← readOr T 4 4
        let units ← readOr T 1 1
        return .resolution (int32 xres) (int32 yres) (units.getD 0 0)
  | .range =>
      if n16 ≠ 8 then .fail
      else do
        let lower ← readOr T 4 4
        let upper ← readOr T 4 4
        return .range (int32 lower) (int32 upper)
  | .language => do
      let charsetLen ← readInt16 T
      let charset ← getText T calloc 0 charsetLen
      let textLen ← readInt16 T
      if n16 - charsetLen ≠ textLen then .fail
      else do
        let text ← getText T calloc 1 textLen
        return .language charset text
  | .unknown =>
      if n16 > 0 then
        if calloc 0 (sizeT n16) then do
          let data ← readOr T (sizeT n16) n16
          return .unknown n16 data
        else .fail
      else return .unknown n16 []

/-- A tag of a group, or an attribute. -/
inductive Got
  | group (tag : UInt8)
  | attribute (a : Attribute)

def ippGetAttribute : Getter σ Got := do
  let n8 ← readOr T 1 1
  let tag := n8.getD 0 0
  if tag < 0x10 then return .group tag
  else do
    let n16 ← readInt16 T
    if n16 > ippMaxAttribName then .fail
    else do
      let name ← getName T n16
      let n16 ← readInt16 T
      let value ← getValue T calloc n16 (kindOf tag)
      return .attribute ⟨tag, name, value⟩

end PrintServer.Ipp
