import PrintServer.Http.Decimal

/-!
# The configuration file

`ReadConfigData` of tftpd.c with `SkipLineTitle`, `IsDHCPOn` and `IsPsEnable`.  A pointer into the
buffer is the list of the bytes from there to the end of the memory that a `WORD` index reaches, as
the file may go on behind what the client sent.
-/

namespace PrintServer.Tftp

open Http

def configFileNormalNum : Nat := 8
def numOfPrnPort : Nat := 1
def configFileLineNum : Nat := configFileNormalNum + numOfPrnPort

def tftpdlinename : List Str :=
  [bytes "BoxName", bytes "BoxVersion", bytes "BoxNodeID", bytes "DHCP/BOOTP",
    bytes "BoxIPAddress", bytes "Gateway", bytes "SubnetMask", bytes "NetWare", bytes "Password"]

/-- `Tftpdprintername` with the digit of a port. -/
def tftpdprintername (port : Nat) : Str :=
  bytes "Printer" ++ UInt8.ofNat (port + 48) :: bytes "Name"

/-- The title that `SkipLineTitle` looks for in line `rowNum`. -/
def lineTitle (rowNum : Nat) : Str :=
  if rowNum > configFileNormalNum then
    if rowNum = configFileLineNum + 1 then tftpdlinename.getD configFileNormalNum []
    else tftpdprintername (rowNum - configFileNormalNum)
  else tftpdlinename.getD (rowNum - 1) []

/-- `"%02d"` for a number below 100. -/
def twoDigits (n : Nat) : Str := [UInt8.ofNat (n / 10 + 48), UInt8.ofNat (n % 10 + 48)]

def skipLineTitle (rowNum : Nat) (line : List UInt8) : Option (List UInt8) :=
  let title := lineTitle rowNum
  if line.take 3 ≠ twoDigits rowNum ++ [chr ' '] ∨ (line.drop 3).take title.length ≠ title then none
  else
    match skipwhite (line.drop (title.length + 3)) with
    | [] => none
    | c :: rest => if c ≠ chr ':' then none else some (skipwhite rest)

/-- A string up to its first blank or its NUL. -/
def word (s : List UInt8) : Str := s.takeWhile fun c ↦ c ≠ 0 ∧ ¬ isBlank c

def toupper (c : UInt8) : UInt8 := if chr 'a' ≤ c ∧ c ≤ chr 'z' then c - 32 else c

def strupr (s : Str) : Str := s.map toupper

def isDHCPOn (s : List UInt8) : Int :=
  if strupr (word s) = bytes "ON" then 1
  else if strupr (word s) = bytes "OFF" then 0
  else -1

/-- `strnicmp` with a message, and the NUL behind as many characters. -/
def isMsg (msg : Str) (s : List UInt8) : Bool :=
  let s := store (word s) s
  strnicmp (cstr s 0) msg msg.length = 0 ∧ s.getD msg.length 0 = 0

def isPsEnable (s : List UInt8) : Int :=
  if isMsg (bytes "Disable") s then 0
  else if isMsg (bytes "Enable") s then 1
  else -1

/-- `( LineInfo[i][0] = v ) < 0` with an unsigned `LineInfo[i][0]`. -/
def putByte (v : Int) (line : List UInt8) : Option (List UInt8) :=
  let b := UInt8.ofInt v
  if (b.toNat : Int) < 0 then none else some (line.set 0 b)

/-- The cases of the `switch` over the index of a line: `LineInfo[i]` afterwards, but for the word
that `IsDHCPOn` and `IsPsEnable` cut, which is not read again. -/
def readValue (i : Nat) (line data : List UInt8) : Option (List UInt8) :=
  if i = 0 then some (store (cstr data 0) line)
  else if i = 3 then putByte (isDHCPOn data) line
  else if i = 4 ∨ i = 5 ∨ i = 6 then (addrToIP (cstr data 0)).map fun ip ↦ ip ++ line.drop 4
  else if i = 7 then putByte (isPsEnable data) line
  else some line

/-- The loop over the lines from index `i` on: `LineInfo`, or the number of the line in error. -/
def readLines : Nat → List (List UInt8) → Except Nat (List (List UInt8))
  | _, [] => .ok []
  | i, line :: lines =>
      match skipLineTitle (i + 1) line with
      | none => .error (i + 1)
      | some data =>
          match readValue i line data with
          | none => .error (i + 1)
          | some line =>
              match readLines (i + 1) lines with
              | .error rc => .error rc
              | .ok lines => .ok (line :: lines)

/-! ## The lines -/

def isEol (c : UInt8) : Bool := c = 0x0D ∨ c = 0x0A

def notEol (c : UInt8) : Bool := ¬ isEol c

/-- One turn of the loop that finds the lines: a line with its end as NULs, and what is behind it.
The end of the memory is not followed; there `CurBufPos`, a `WORD`, wraps. -/
def cutLine (s : List UInt8) : Option (List UInt8 × List UInt8) :=
  let ends := s.dropWhile notEol
  let rest := ends.dropWhile isEol
  if rest = [] then none
  else some (s.takeWhile notEol ++ (ends.takeWhile isEol).map fun _ ↦ 0, rest)

/-- The loop with room for `n` lines, `behind` bytes of `s` not being in the file. -/
def cutLines (behind : Nat) : Nat → List UInt8 → Option (List (List UInt8) × List UInt8)
  | 0, s => some ([], s)
  | n + 1, s =>
      if behind < s.length then
        match cutLine s with
        | none => none
        | some (line, s) => (cutLines behind n s).map fun r ↦ (line :: r.1, r.2)
      else some ([], s)

/-- The pointers to the lines. -/
def lineInfo (rest : List UInt8) : List (List UInt8) → List (List UInt8)
  | [] => []
  | line :: lines => (line ++ (lines.flatten ++ rest)) :: lineInfo rest lines

/-! ## ReadConfigData -/

inductive ConfigNak
  | format (line : Nat)
  | badPwd
deriving DecidableEq

/-- The result of `ReadConfigData`, the error it has sent and `LineInfo`. -/
structure ConfigRead where
  rc : Nat
  nak : Option ConfigNak
  lines : List (List UInt8)
deriving DecidableEq

def formatError (line : Nat) : ConfigRead := ⟨line, some (.format line), []⟩

/-- The text in the brackets up to its first blank, if there is a `]` with nothing but blanks
behind it; the index of the `]` is an `int16`. -/
def bracketed (s : Str) : Option Str :=
  if s.length > 32768 then none
  else
    match s.reverse.dropWhile (· = chr ' ') with
    | [] => none
    | c :: t => if c = chr ']' then some (t.reverse.takeWhile (· ≠ chr ' ')) else none

/-- The line of the password. -/
def checkPassword (password : Str) (line : List UInt8) (lines : List (List UInt8)) : ConfigRead :=
  match skipLineTitle (configFileLineNum + 1) line with
  | none => formatError (configFileLineNum + 1)
  | some data =>
      if data.head? ≠ some (chr '[') then formatError (configFileLineNum + 1)
      else
        match bracketed (cstr data 1) with
        | none => formatError (configFileLineNum + 1)
        | some text => if text = password then ⟨0, none, lines⟩ else ⟨1, some .badPwd, []⟩

/-- `ReadConfigData` for the bytes `file` of the client, with `behind` behind them in memory and
`CurSetupPassword` the string `password`.  For a file without lines `RowNum - 1` wraps and the loop
runs out of `LineInfo`, which is not followed. -/
def readConfigData (password : Str) (file behind : List UInt8) : Option ConfigRead :=
  if (file ++ behind).head? = some 0 then some ⟨1, none, []⟩
  else
    match cutLines behind.length (configFileLineNum + 2) (file ++ behind) with
    | none => none
    | some (lines, rest) =>
        let needCheckPwd := if password = [] then 0 else 1
        if lines.length < needCheckPwd then none
        else
          let rowNum := lines.length - needCheckPwd
          let info := lineInfo rest lines
          match readLines 0 (info.take rowNum) with
          | .error rc => some (formatError rc)
          | .ok values =>
              if rowNum ≠ configFileLineNum then
                some (formatError (if rowNum < configFileLineNum then rowNum + 1 else rowNum))
              else if password = [] then some ⟨0, none, values⟩
              else some (checkPassword password (info.getD rowNum []) values)

end PrintServer.Tftp
