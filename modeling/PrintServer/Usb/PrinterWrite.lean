import Mathlib.Data.List.Basic

/-!
# Writing a block to a USB printer

`usblp_write` and `usbprn_write` of printer.c, and the write loop of `PortNWrite` in prnport.c.  The
host controller is an outcome for each urb that is submitted.
-/

namespace PrintServer.Usb

def usblpBufSize : Nat := 8192

def eio : Int := 5

def enomem : Int := 12

def enodev : Int := 19

/-- What the host controller makes of an urb: `usb_submit_urb` fails, and may leave the urb marked
as in progress; or the urb is in progress at `late` looks and then ends; or it never ends. -/
inductive UrbOutcome
  | refused (err : Int) (pending : Bool)
  | ends (late : Nat) (good : Bool)
  | never
deriving DecidableEq

inductive UrbStatus
  | ok
  | inProgress
  | failed
deriving DecidableEq

/-- The last three fields are no variables of the driver: the urb under way with its bytes, the
number of urbs submitted and the bytes of all urbs that ended well. -/
structure Usblp where
  present : Bool
  wcomplete : Bool
  status : UrbStatus
  flight : Option (UrbOutcome × List UInt8)
  urbs : Nat
  sent : List UInt8

namespace Usblp

/-- After `usblp_open`. -/
def opened : Usblp := ⟨true, true, .ok, none, 0, []⟩

/-- The wait for the urb, up to its time-out. -/
def wait (s : Usblp) : Usblp :=
  if s.wcomplete then s
  else
    match s.flight with
    | some (.ends 0 true, bytes) =>
        { s with wcomplete := true, status := .ok, flight := none, sent := s.sent ++ bytes }
    | some (.ends 0 false, _) => { s with wcomplete := true, status := .failed, flight := none }
    | some (.ends (late + 1) good, bytes) => { s with flight := some (.ends late good, bytes) }
    | _ => s

/-- `usb_submit_urb` with the error that it returns. -/
def submit (o : UrbOutcome) (bytes : List UInt8) (s : Usblp) : Option Int × Usblp :=
  match o with
  | .refused err pending =>
      (some err, { s with
        wcomplete := true
        status := if pending then .inProgress else s.status
        urbs := s.urbs + 1 })
  | o =>
      (none, { s with
        wcomplete := false
        status := .inProgress
        flight := some (o, bytes)
        urbs := s.urbs + 1 })

end Usblp

/-- The loop of `usblp_write` from `writecount` and `transfer_length` on, with what it returns;
`none` when it takes more than `fuel` rounds. -/
def usblpWrite (outcome : Nat → UrbOutcome) (buffer : List UInt8) :
    Nat → Nat → Nat → Usblp → Option Int × Usblp
  | 0, _, _, s => (none, s)
  | fuel + 1, writecount, transferLength, s =>
      if buffer.length ≤ writecount then (some buffer.length, s)
      else
        let s := s.wait
        if s.present = false then (some (-enodev), s)
        else
          match s.status with
          | .failed => (some writecount, { s with status := .ok })
          -- `usblp_check_status` only reads the status of the printer
          | .inProgress => usblpWrite outcome buffer fuel writecount transferLength s
          | .ok =>
              let writecount := writecount + transferLength
              if writecount = buffer.length then (some buffer.length, s)
              else
                let transferLength := min (buffer.length - writecount) usblpBufSize
                let bytes := (buffer.drop writecount).take transferLength
                match s.submit (outcome s.urbs) bytes with
                | (some err, s) =>
                    if err ≠ -enomem then (some (-eio), s)
                    else (some (if writecount ≠ 0 then writecount else -enomem), s)
                | (none, s) => usblpWrite outcome buffer fuel writecount transferLength s

/-- `usbprn_write` returns the length it was given. -/
def usbprnWrite (outcome : Nat → UrbOutcome) (fuel : Nat) (buf : List UInt8) (nLength : Nat)
    (s : Usblp) : Option Nat × Usblp :=
  if s.present then
    match usblpWrite outcome (buf.take nLength) fuel 0 0 s with
    | (none, s) => (none, s)
    | (some _, s) => (some nLength, s)
  else (some nLength, s)

/-- The do-while loop of `PortNWrite` over the block at `DataPtr`, with the `DataSize` it leaves:
the pointer stays when the rest is tried again. -/
def portNWrite (outcome : Nat → UrbOutcome) (block : List UInt8) :
    Nat → Nat → Usblp → Option Nat × Usblp
  | 0, _, s => (none, s)
  | fuel + 1, dataSize, s =>
      match usbprnWrite outcome (fuel + 1) block dataSize s with
      | (none, s) => (none, s)
      | (some written, s) =>
          let dataSize := block.length - written
          if written < block.length then portNWrite outcome block fuel dataSize s
          else (some dataSize, s)

/-- The states in which `PortNWrite` begins with a block. -/
inductive Between (outcome : Nat → UrbOutcome) : Usblp → Prop
  | opened : Between outcome .opened
  | block {s s' : Usblp} {block : List UInt8} {fuel dataSize : Nat} :
      Between outcome s →
        portNWrite outcome block fuel block.length s = (some dataSize, s') → Between outcome s'

/-- Nothing of the block is dropped: what has arrived is always the front of it, and all of it when
`PortNWrite` goes on to the next one. -/
def KeepsData (outcome : Nat → UrbOutcome) (block : List UInt8) (s : Usblp) : Prop :=
  ∀ fuel, let r := portNWrite outcome block fuel block.length s
    (∃ arrived, r.2.sent = s.sent ++ arrived ∧ arrived <+: block) ∧
      ∀ dataSize, r.1 = some dataSize → dataSize = 0 ∧ r.2.sent = s.sent ++ block

/-! ## The urbs of a block -/

def Delivers : UrbOutcome → Prop
  | .ends _ true => True
  | _ => False

def Fails : UrbOutcome → Prop
  | .refused _ _ => True
  | .ends _ false => True
  | _ => False

/-- The urbs from number `first` on carry `n` bytes, and one fails after all before it have
delivered theirs. -/
def Breaks (outcome : Nat → UrbOutcome) (first n k : Nat) : Prop :=
  usblpBufSize * k < n ∧ (∀ j < k, Delivers (outcome (first + j))) ∧ Fails (outcome (first + k))

end PrintServer.Usb
