import PrintServer.Receive.Convert
import PrintServer.Spooler.Queue

/-!
# The receivers of print data

`receive_bin_data_file` and `receive_txt_data_file` (lpd.c), `ippProcessBINJob` and
`ippProcessTXTJob` (ippd.c) and one connection of `rawtcpd` (rawtcpd.c), while the port stays in
use.  The n-th buffer that `PrnGetInQueueBuf` returned has the number n; `ops` records what the
receiver did with its buffers.  What the network answers is a list of rounds, one for each pass of
the outer loop; a receiver that waits for more has no result yet.
-/

namespace PrintServer.Receive

open Spooler

def packetSize : Nat := 1460
def statusOK : UInt8 := 0
def statusErr : UInt8 := 1

inductive BufOp
  | putOut (buf : Nat) (data : List UInt8) (flags : UInt8)
  | putIn (buf : Nat)
  | abort (buf : Nat)
deriving DecidableEq

def BufOp.buf : BufOp → Nat
  | .putOut b _ _ | .putIn b | .abort b => b

structure Bufs where
  got : Nat
  ops : List BufOp
deriving DecidableEq

def Bufs.get (b : Bufs) (n : Nat) : Bufs := { b with got := b.got + n }

def Bufs.op (b : Bufs) (o : BufOp) : Bufs := { b with ops := b.ops ++ [o] }

def noBufs : Bufs := { got := 0, ops := [] }

/-! ## LPD -/

/-- One `recv` of up to `BLOCK_SIZE` bytes, nothing if it failed, and `get_socket_rcevent` after
it. -/
structure Read where
  data : List UInt8
  rcevent : Bool
deriving DecidableEq

structure BinRound where
  aborted : Bool
  reads : List Read
deriving DecidableEq

/-- The inner loop of `receive_bin_data_file`: what the buffer holds, and whether the last `recv`
succeeded. -/
def recvBlock (blocksize : Int) : List UInt8 → List Read → Option (List UInt8 × Bool)
  | _, [] => none
  | buf, r :: rs =>
      if r.data = [] then some (buf, false)
      else if ((buf ++ r.data).length : Int) + packetSize > blocksize ∨ r.rcevent = false then
        some (buf ++ r.data, true)
      else recvBlock blocksize (buf ++ r.data) rs

def firstBlocksize (filesize : UInt32) : Int :=
  if filesize > UInt32.ofNat blockSize then blockSize else filesize.toNat

def nextBlocksize (filesize total : UInt32) (blocksize : Int) : Int :=
  if filesize - total < UInt32.ofNat blockSize then (filesize - total).toNat else blocksize

/-- The variables of an LPD receiver; `filesize` counts the status byte already. -/
structure LpdVars where
  filesize : UInt32
  total : UInt32
  blocksize : Int
  status : UInt8
  keepCR : Bool
deriving DecidableEq

def lpdVars (filesize : UInt32) : LpdVars :=
  { filesize := filesize + 1, total := 0, blocksize := firstBlocksize (filesize + 1),
    status := statusOK, keepCR := false }

/-- The block just received, without the status byte where it ends the file. -/
def takeStatus (v : LpdVars) (data : List UInt8) : List UInt8 × UInt8 :=
  if v.total + UInt32.ofNat data.length = v.filesize then
    (data.dropLast, data.getLast?.getD statusOK)
  else (data, v.status)

/-- The counters after a received block. -/
def countBlock (v : LpdVars) (data : List UInt8) : LpdVars :=
  let total := v.total + UInt32.ofNat data.length
  { v with
    total := total
    blocksize := nextBlocksize v.filesize total v.blocksize
    status := (takeStatus v data).2 }

structure Outcome (ρ : Type) where
  bufs : Bufs
  result : ρ
deriving DecidableEq

/-- The end of `receive_bin_data_file`; `late` is its test of the time-out. -/
def binEnd (status : UInt8) (late : Bool) (pbuf : Nat) (b : Bufs) : Outcome Int :=
  if status ≠ statusOK then ⟨b.op (.abort pbuf), if late then -3 else -1⟩ else ⟨b, 0⟩

def binLoop (late : Bool) : LpdVars → Bufs → List BinRound → Option (Outcome Int)
  | _, _, [] => none
  | v, b, r :: rs =>
      let pbuf := b.got
      let b := b.get 1
      if r.aborted then some (binEnd statusErr late pbuf b)
      else
        match recvBlock v.blocksize [] r.reads with
        | none => none
        | some (data, false) =>
            if data ≠ [] then some (binEnd statusOK late pbuf (b.op (.putOut pbuf data prnQEof)))
            else some (binEnd statusErr late pbuf b)
        | some (data, true) =>
            let v' := countBlock v data
            if v'.total < v.filesize then
              binLoop late v' (b.op (.putOut pbuf (takeStatus v data).1 prnQNormal)) rs
            else
              some (binEnd v'.status late pbuf
                (b.op (.putOut pbuf (takeStatus v data).1 prnQEof)))

def receiveBinDataFile (filesize : UInt32) (late : Bool) (rounds : List BinRound) :
    Option (Outcome Int) :=
  binLoop late (lpdVars filesize) noBufs rounds

/-- One `recv` of up to `blocksize` bytes, nothing if it failed. -/
structure TxtRound where
  aborted : Bool
  data : List UInt8
deriving DecidableEq

def halfBlock : Nat := blockSize / 2

/-- The two half blocks of a text receiver: `pbuf[0]` goes out, `pbuf[1]` goes out or back. -/
def putHalves (keepCR : Bool) (pbuf0 pbuf1 : Nat) (data : List UInt8) (b : Bufs) : Bool × Bufs :=
  let first := processCRLF keepCR (data.take halfBlock)
  let b := b.op (.putOut pbuf0 first.2 prnQNormal)
  if halfBlock < data.length then
    let second := processCRLF first.1 (data.drop halfBlock)
    (second.1, b.op (.putOut pbuf1 second.2 prnQNormal))
  else (first.1, b.op (.putIn pbuf1))

/-- The end of `receive_txt_data_file` for the buffers of its last pass. -/
def txtEnd (status : UInt8) (pbuf0 pbuf1 pbuf2 : Nat) (b : Bufs) : Outcome Int :=
  if status ≠ statusOK then
    ⟨((b.op (.putIn pbuf0)).op (.putIn pbuf1)).op (.abort pbuf2), -1⟩
  else ⟨b.op (.putOut pbuf2 [] prnQEof), 0⟩

def txtLoop (pbuf2 : Nat) : LpdVars → Bufs → List TxtRound → Option (Outcome Int)
  | _, _, [] => none
  | v, b, r :: rs =>
      let pbuf0 := b.got
      let pbuf1 := b.got + 1
      let b := b.get 2
      if r.aborted then some (txtEnd statusErr pbuf0 pbuf1 pbuf2 b)
      else if r.data = [] then some (txtEnd statusErr pbuf0 pbuf1 pbuf2 b)
      else
        let v' := countBlock v r.data
        let out := putHalves v.keepCR pbuf0 pbuf1 (takeStatus v r.data).1 b
        if v'.total < v.filesize then txtLoop pbuf2 { v' with keepCR := out.1 } out.2 rs
        else some (txtEnd v'.status pbuf0 pbuf1 pbuf2 out.2)

def receiveTxtDataFile (filesize : UInt32) (rounds : List TxtRound) : Option (Outcome Int) :=
  txtLoop noBufs.got (lpdVars filesize) (noBufs.get 1) rounds

/-! ## IPP -/

inductive JobState
  | noJob
  | pending
  | process
  | cancel
  | complete
  | aborting
deriving DecidableEq

/-- One `httpRead` of up to `BLOCKSIZE` bytes, nothing if it returned 0; whether the request timed
out and whether a Cancel-Job has set `IPP_JOB_ABORTING` by then. -/
structure IppRound where
  data : List UInt8
  timedOut : Bool
  aborting : Bool
deriving DecidableEq

/-- `job_state` after a round that ends the job. -/
def IppRound.endState (r : IppRound) : JobState :=
  if r.data = [] then
    if r.timedOut then .cancel else if r.aborting then .aborting else .process
  else .cancel

def IppRound.ends (r : IppRound) : Bool := r.data = [] ∨ r.aborting

def ippBinLoop : Bufs → List IppRound → Option (Outcome JobState)
  | _, [] => none
  | b, r :: rs =>
      let pbuf := b.got
      let b := b.get 1
      if r.ends then
        if r.endState = .cancel then some ⟨b.op (.abort pbuf), r.endState⟩
        else some ⟨b.op (.putOut pbuf r.data prnQEof), r.endState⟩
      else ippBinLoop (b.op (.putOut pbuf r.data prnQNormal)) rs

def ippProcessBINJob (rounds : List IppRound) : Option (Outcome JobState) :=
  ippBinLoop noBufs rounds

def ippTxtLoop (pbuf2 : Nat) : Bool → Bufs → List IppRound → Option (Outcome JobState)
  | _, _, [] => none
  | keepCR, b, r :: rs =>
      let pbuf0 := b.got
      let pbuf1 := b.got + 1
      let b := b.get 2
      if r.ends then
        let b :=
          if r.endState = .cancel then b.op (.abort pbuf2) else b.op (.putOut pbuf2 [] prnQEof)
        some ⟨(b.op (.putIn pbuf0)).op (.putIn pbuf1), r.endState⟩
      else
        let out := putHalves keepCR pbuf0 pbuf1 r.data b
        ippTxtLoop pbuf2 out.1 out.2 rs

def ippProcessTXTJob (rounds : List IppRound) : Option (Outcome JobState) :=
  ippTxtLoop noBufs.got false (noBufs.get 1) rounds

/-! ## Raw TCP -/

/-- The inner loop of `rawtcpd`; a `recv` that failed is an empty list. -/
def rawBlock : List UInt8 → List (List UInt8) → Option (List UInt8 × Bool)
  | _, [] => none
  | buf, d :: ds =>
      if d = [] then some (buf, false)
      else if (buf ++ d).length + packetSize > blockSize then some (buf ++ d, true)
      else rawBlock (buf ++ d) ds

def rawLoop : Bufs → List (List (List UInt8)) → Option (Outcome Unit)
  | _, [] => none
  | b, r :: rs =>
      let pbuf := b.got
      let b := b.get 1
      match rawBlock [] r with
      | none => none
      | some (data, true) => rawLoop (b.op (.putOut pbuf data prnQNormal)) rs
      | some (data, false) =>
          if data ≠ [] then some ⟨b.op (.putOut pbuf data prnQNormal), ()⟩
          else some ⟨b.op (.putIn pbuf), ()⟩

def rawtcpdConnection (rounds : List (List (List UInt8))) : Option (Outcome Unit) :=
  rawLoop noBufs rounds

end PrintServer.Receive
