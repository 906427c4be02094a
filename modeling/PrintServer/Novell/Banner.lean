import PrintServer.Http.EchoName
import PrintServer.Ipx.Sockets

/-!
# Banner pages

`ReadQueueJobEntry` (nps3.c) prints two buffers for a job entry with the banner flag: the title of
`BannerData` and the name in the large letters of `print_large` (banner.c).
-/

namespace PrintServer.Novell

open Http (Str bytes chr cstr store)

def maxChar : Nat := 9
def lineLen : Nat := 80
def bannerBlockSize : Nat := 10220

def charTable : List UInt8 := bytes "0123456789ABCDEFGHIJKLMNOPQRSTUVWXYZ!@#$%^&()_-"

/-- The rows of each letter of `CharTable`, seven dots in the lower bits of each. -/
def lrgchars : List (List UInt8) := [
  [0x3E, 0x43, 0x45, 0x49, 0x51, 0x61, 0x3E], [0x08, 0x18, 0x08, 0x08, 0x08, 0x08, 0x1C],
  [0x3E, 0x41, 0x01, 0x3E, 0x40, 0x40, 0x7F], [0x3E, 0x41, 0x01, 0x3E, 0x01, 0x41, 0x3E],
  [0x06, 0x0A, 0x12, 0x22, 0x42, 0x7F, 0x02], [0x7F, 0x40, 0x40, 0x7E, 0x01, 0x41, 0x3E],
  [0x3E, 0x40, 0x40, 0x7E, 0x41, 0x41, 0x3E], [0x7F, 0x41, 0x02, 0x04, 0x08, 0x08, 0x08],
  [0x3E, 0x41, 0x41, 0x3E, 0x41, 0x41, 0x3E], [0x3E, 0x41, 0x41, 0x3F, 0x01, 0x41, 0x3C],
  [0x1C, 0x22, 0x41, 0x41, 0x7F, 0x41, 0x41], [0x7E, 0x21, 0x21, 0x3E, 0x21, 0x21, 0x7E],
  [0x1E, 0x21, 0x40, 0x40, 0x40, 0x21, 0x1E], [0x7C, 0x22, 0x21, 0x21, 0x21, 0x22, 0x7C],
  [0x7F, 0x40, 0x40, 0x7E, 0x40, 0x40, 0x7F], [0x7F, 0x40, 0x40, 0x7E, 0x40, 0x40, 0x40],
  [0x1E, 0x21, 0x40, 0x4F, 0x41, 0x21, 0x1E], [0x41, 0x41, 0x41, 0x7F, 0x41, 0x41, 0x41],
  [0x3E, 0x08, 0x08, 0x08, 0x08, 0x08, 0x3E], [0x1F, 0x04, 0x04, 0x04, 0x04, 0x44, 0x38],
  [0x41, 0x42, 0x44, 0x48, 0x54, 0x62, 0x41], [0x40, 0x40, 0x40, 0x40, 0x40, 0x40, 0x7F],
  [0x41, 0x63, 0x55, 0x49, 0x41, 0x41, 0x41], [0x41, 0x61, 0x51, 0x49, 0x45, 0x43, 0x41],
  [0x1C, 0x22, 0x41, 0x41, 0x41, 0x22, 0x1C], [0x7E, 0x41, 0x41, 0x7E, 0x40, 0x40, 0x40],
  [0x1C, 0x22, 0x41, 0x49, 0x45, 0x22, 0x1D], [0x7E, 0x41, 0x41, 0x7E, 0x44, 0x42, 0x41],
  [0x3E, 0x41, 0x40, 0x3E, 0x01, 0x41, 0x3E], [0x7F, 0x08, 0x08, 0x08, 0x08, 0x08, 0x08],
  [0x41, 0x41, 0x41, 0x41, 0x41, 0x41, 0x3E], [0x41, 0x41, 0x41, 0x41, 0x22, 0x14, 0x08],
  [0x41, 0x41, 0x41, 0x49, 0x55, 0x63, 0x41], [0x41, 0x22, 0x14, 0x08, 0x14, 0x22, 0x41],
  [0x41, 0x41, 0x22, 0x14, 0x08, 0x08, 0x08], [0x7F, 0x02, 0x04, 0x08, 0x10, 0x20, 0x7F],
  [0x18, 0x18, 0x18, 0x18, 0x00, 0x18, 0x18], [0x1E, 0x21, 0x4D, 0x55, 0x4E, 0x21, 0x1E],
  [0x14, 0x14, 0x7F, 0x14, 0x7F, 0x14, 0x14], [0x08, 0x3F, 0x48, 0x3E, 0x09, 0x7E, 0x08],
  [0x21, 0x52, 0x24, 0x08, 0x12, 0x25, 0x42], [0x08, 0x14, 0x22, 0x41, 0x00, 0x00, 0x00],
  [0x38, 0x44, 0x28, 0x10, 0x29, 0x46, 0x39], [0x04, 0x08, 0x10, 0x10, 0x10, 0x08, 0x04],
  [0x10, 0x08, 0x04, 0x04, 0x04, 0x08, 0x10], [0x00, 0x00, 0x00, 0x00, 0x00, 0x00, 0x7F],
  [0x00, 0x00, 0x00, 0x7F, 0x00, 0x00, 0x00]]

/-! ## `print_large` -/

def strupr (s : Str) : Str := s.map fun c ↦ if chr 'a' ≤ c ∧ c ≤ chr 'z' then c - 32 else c

/-- The loop of `scancol`. -/
def scanBits : Nat → UInt8 → UInt8 → Str
  | 0, _, _ => []
  | n + 1, ch, bits => (if bits &&& 0x40 ≠ 0 then ch else chr ' ') :: scanBits n ch (bits <<< 1)

/-- One row of one letter.  The search for the letter has no end: where `CharTable` does not have
it, it is left (`none`). -/
def largeChar (scanline : Nat) (ch : UInt8) : Option Str :=
  match charTable.idxOf? ch with
  | none => none
  | some nc =>
      match charTable[nc]?, lrgchars[nc]? with
      | some dot, some rows => rows[scanline]?.map fun bits ↦ scanBits 7 dot bits ++ [chr ' ']
      | _, _ => none

def largeLine (space : Nat) (string : Str) (scanline : Nat) : Option Str :=
  (string.mapM (largeChar scanline)).map fun cols ↦
    List.replicate space (chr ' ') ++ cols.flatten ++ [chr '\r', chr '\n']

def endText : Str :=
  List.replicate 37 (chr '*') ++ bytes " O K " ++ List.replicate 37 (chr '*') ++
    [chr '\r', chr '\n', 0x0C]

/-- What `print_large` writes to the buffer. -/
def printLarge (string : Str) (isEndText : Bool) : Option Str :=
  let string := strupr string
  let charlen := min string.length maxChar
  let space := (lineLen - charlen * 8) / 2
  ((List.range 7).mapM (largeLine space (string.take charlen))).map fun lines ↦
    lines.flatten ++ [chr '\r', chr '\n'] ++ if isEndText then endText else []

/-! ## The title -/

def decimal (n : Nat) : Str := (Nat.toDigits 10 n).map chr

/-- `%-13s` and the like. -/
def padRight (width : Nat) (s : Str) : Str := s ++ List.replicate (width - s.length) (chr ' ')

/-- `%2d` and `%02d`. -/
def padLeft (width : Nat) (c : Char) (s : Str) : Str :=
  List.replicate (width - s.length) (chr c) ++ s

def starLine : Str := List.replicate 79 (chr '*') ++ bytes "\r\n"

def emptyLine : Str := chr '*' :: List.replicate 77 (chr ' ') ++ bytes "*\r\n"

/-- `BannerData`, cut at its conversions. -/
def bannerData : List Str :=
  [starLine ++
      bytes "*          > >>> >>>>>>>>>>    Print Banner    <<<<<<<<<<< <<< <              *\r\n" ++
      emptyLine ++ bytes "*     User Name   : ",
    bytes "                                             *\r\n*     Form Name   : ",
    bytes "                                          *\r\n*     Description : ",
    bytes "        *\r\n" ++ emptyLine ++ bytes "*     Date :  ",
    bytes "/",
    bytes ", ",
    bytes "       Time :  ",
    bytes ":",
    bytes ":",
    bytes " ",
    bytes "                           *\r\n" ++ starLine ++ bytes "\r\n"]

/-- The parts of a format with the arguments between them. -/
def sprintf : List Str → List Str → Str
  | part :: parts, arg :: args => part ++ arg ++ sprintf parts args
  | parts, _ => parts.flatten

structure Banner where
  name : Str
  form : Str
  description : Str
  month : UInt8
  day : UInt8
  year : Nat
  hour : UInt8
  min : UInt8
  sec : UInt8
  apm : Char

def Banner.args (b : Banner) : List Str :=
  [padRight 13 b.name, padRight 16 b.form, padRight 50 b.description,
    padLeft 2 '0' (decimal b.month.toNat), padLeft 2 '0' (decimal b.day.toNat), decimal b.year,
    padLeft 2 ' ' (decimal b.hour.toNat), padLeft 2 '0' (decimal b.min.toNat),
    padLeft 2 '0' (decimal b.sec.toNat), [chr b.apm, chr 'M']]

def Banner.title (b : Banner) : Str := sprintf bannerData b.args

/-! ## `ReadQueueJobEntry` -/

structure BannerBuf where
  data : List UInt8
  size : Nat
deriving DecidableEq

/-- The fields of the PCB that the entry sets, the data behind the header of the reply, the free
buffers of the port and its output queue. -/
structure JobEntry where
  copies : UInt16
  clientStation : UInt8
  sub : List UInt8
  inQueue : List (List UInt8)
  outQueue : List BannerBuf

/-- The string at an offset of the data, which must end in them. -/
def stringAt (sub : List UInt8) (k : Nat) : Option Str :=
  if 0 ∈ sub.drop k then some (cstr sub k) else none

def strlen (data : List UInt8) : Option Nat :=
  if 0 ∈ data then some (cstr data 0).length else none

/-- `JobEntryTime[3]` as it is written back, with the letter in front of `'M'`. -/
def clockHour (hour : UInt8) : UInt8 × Char :=
  if hour ≥ 12 then (if hour - 12 = 0 then 12 else hour - 12, 'P')
  else (if hour = 0 then 12 else hour, 'A')

def bannerOf (sub : List UInt8) : Option Banner :=
  let time (i : Nat) := sub.getD (16 + i) 0
  match stringAt sub (104 + 32), stringAt sub (104 + 10), stringAt sub 54 with
  | some name, some form, some description =>
      some {
        name, form, description, month := time 1, day := time 2
        year := if time 0 > 90 then 1900 + (time 0).toNat else 2000 + (time 0).toNat
        hour := (clockHour (time 3)).1, min := time 4, sec := time 5
        apm := (clockHour (time 3)).2 }
  | _, _, _ => none

/-- A buffer after a text and a NUL were written to it. -/
def writeString (text data : List UInt8) : Option (List UInt8) :=
  if text.length < data.length then some (store text data) else none

/-- A buffer after a text was written over its start. -/
def writeOver (text data : List UInt8) : Option (List UInt8) :=
  if text.length ≤ data.length then some (text ++ data.drop text.length) else none

/-- The size of a buffer is the length of the string in it. -/
def bufOf (data : List UInt8) : Option BannerBuf := (strlen data).map fun size ↦ ⟨data, size⟩

def printBanner (e : JobEntry) : Option JobEntry := do
  let b ← bannerOf e.sub
  let sub := e.sub.set (16 + 3) b.hour
  match e.inQueue with
  | titleData :: largeData :: inQueue =>
      let title ← writeString b.title titleData >>= bufOf
      let text ← printLarge b.name true
      let large ← writeOver text largeData >>= bufOf
      -- `strupr` works on the reply itself
      let sub := sub.take (104 + 32) ++ strupr b.name ++ sub.drop (104 + 32 + b.name.length)
      some { e with sub, inQueue, outQueue := e.outQueue ++ [title, large] }
  | _ => none

/-- What `ReadQueueJobEntry` does with the reply; a caller that asks for the description gets its
offset only. -/
def readQueueJobEntry (ncpRetCode : UInt16) (textScript : Bool) (e : JobEntry) :
    Option (UInt16 × Option Nat × JobEntry) :=
  if ncpRetCode ≠ 0 then some (ncpRetCode, none, e)
  else if textScript then some (0, some 54, e)
  else
    let bannerFlag := e.sub.getD (104 + 5) 0
    let copies := Ipx.wordSwap (Ipx.nget16 (e.sub.getD (104 + 2) 0, e.sub.getD (104 + 3) 0))
    let clientStation := if bannerFlag &&& 0x10 = 0 then 0 else e.clientStation
    let e := { e with copies, clientStation }
    if bannerFlag &&& 0x80 ≠ 0 then (printBanner e).map (0, none, ·)
    else some (0, none, e)

end PrintServer.Novell
