import PrintServer.Atalk.BinPaprint

/-!
# `PostScript`

`PostScript` (magics.c) reads the first line of a job with `markline` (file.c), matches it against
the magic lines and prints the packets with `paprint` (paprint.c).  A turn of its loop is the same
however much is kept of a session: it uses the operations of `PapOps` only.
-/

namespace PrintServer.Atalk

open Http (bytes chr)

/-- The handlers of `magics`. -/
inductive Handler
  | psquery
  | psadobe
  | psswitch
deriving DecidableEq

/-- What `markline` returns: 0, -1, or a line that lies from `start` to `stop`. -/
inductive Mark
  | eof
  | more
  | line (text : List UInt8)
deriving DecidableEq

/-! ## The magic lines -/

structure Comment where
  begins : List UInt8
  handler : Handler
  full : Bool

def magics : List Comment :=
  [⟨bytes "%!PS-Adobe-3.0 Query", .psquery, true⟩, ⟨bytes "%!PS-Adobe-3.0", .psadobe, true⟩,
    ⟨bytes "%!PS-Adobe-", .psswitch, false⟩]

/-- `comcmp`, the last octet of the line being at `stop`. -/
def comcmp (text : List UInt8) (c : Comment) : Bool :=
  if c.full then c.begins = text.dropLast else c.begins.isPrefixOf text.dropLast

def commatch (text : List UInt8) : Option Handler :=
  (magics.find? (comcmp text)).map (·.handler)

def isBlank (ch : UInt8) : Bool := ch = chr ' ' ∨ ch = chr '\t'

/-- The test of `cm_psswitch` for the word behind the first one. -/
def saysQuery (text : List UInt8) : Bool :=
  let p := (text.dropLast.dropWhile (! isBlank ·)).dropWhile isBlank
  (bytes "Query").isPrefixOf p

/-! ## The handlers -/

/-- What a turn uses of a session of type `σ`: the tests of `PF_BOT` and `PF_EOF` of `in` and the
clear of `PF_BOT`, `markline`, `paprint`, the flags `PF_EOF` and `PF_EOP` of `out`, the packet that is
put in when there is none, and the stack of handlers. -/
structure PapOps (ε σ : Type) where
  bot : σ → Bool
  eof : σ → Bool
  clearBot : σ → σ
  markline : σ → σ × Mark
  paprint : PrnFlag → σ → Except ε σ
  endFile : σ → σ
  endPage : σ → σ
  firstPacket : σ → σ
  compush : Handler → σ → σ
  compop : σ → σ

inductive Ch
  | done
  | more
deriving DecidableEq

namespace PapOps

variable {ε σ : Type} (ops : PapOps ε σ)

def cmPsadobe (s : σ) : Except ε (σ × Ch) :=
  if ops.eof s then do
    let s := ops.firstPacket (ops.compop (ops.endPage (ops.endFile s)))
    let s ← ops.paprint .eof s
    return (s, .done)
  else do
    let s ← ops.paprint .normal s
    return (s, .more)

def cmPsswitch (s : σ) : σ × Ch :=
  match ops.markline s with
  | (s, .eof) => (ops.compop (ops.endFile s), .done)
  | (s, .more) => (s, .more)
  | (s, .line text) =>
      let handler := if saysQuery text then .psquery else .psadobe
      (ops.compush handler (ops.compop s), .done)

/-- The end of a turn without a handler: `matched` says that one was done in this call. -/
def printPackets (matched : Bool) (s : σ) : Except ε σ :=
  if ops.eof s then
    let s := ops.endFile s
    if matched then return s else ops.paprint .eof (ops.endPage s)
  else ops.paprint .normal s

/-- A turn without a handler, with whether a line was matched and the loop goes on. -/
def command (matched : Bool) (s : σ) : Except ε (σ × Bool) :=
  if ops.bot s then
    match ops.markline s with
    | (s, .eof) => return (ops.endFile s, false)
    | (s, .more) => return (s, false)
    | (s, .line text) =>
        match commatch text with
        | some handler => return (ops.compush handler s, true)
        | none => do
            let s ← ops.printPackets matched (ops.clearBot s)
            return (s, false)
  else do
    let s ← ops.printPackets matched s
    return (s, false)

end PapOps

end PrintServer.Atalk
