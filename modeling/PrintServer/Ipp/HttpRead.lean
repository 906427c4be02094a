import PrintServer.Http.ZotFile
import PrintServer.Lib.Chunked
import PrintServer.Receive.Receivers

/-!
# The body of an IPP request

`httpRead` of ippd.c and the document that `ippProcessBINJob` and `ippProcessTXTJob` read with it,
from the state in which the attributes of the request left the connection.
-/

namespace PrintServer.Ipp

open Lib Http Receive

/-- The prefix of a hexadecimal number in C. -/
def skip0x : List UInt8 → List UInt8
  | 0x30 :: c :: s => if c = 0x58 ∨ c = 0x78 then s else 0x30 :: c :: s
  | s => s

/-- `strtol` with base 16; the end of the list is the NUL. -/
def strtol16 (s : List UInt8) : Int :=
  let s := s.dropWhile fun c ↦ c = 0x20 ∨ (9 ≤ c ∧ c ≤ 13)
  let neg := s.head? = some 0x2D
  let s := if neg ∨ s.head? = some 0x2B then s.tail else s
  let n : Int := if neg then - hexValue (skip0x s) else hexValue (skip0x s)
  max (-2147483648) (min 2147483647 n)

/-- The fields of an `ipp_t` that `httpRead` uses; `timedOut` is
`ippreq == IPP_PRINT_JOB_TIME_OUT`. -/
structure IppBody where
  chunked : Bool
  qsize : Int
  timedOut : Bool
  network : ZotFile

/-- The array `len` of `httpRead` after `fgets` stored a line in it. -/
def storeLen (old : Nat → UInt8) (line : List UInt8) : Nat → UInt8 := fun i ↦
  if i = line.length then 0 else line.getD i (old i)

/-- `fgets(len, sizeof(len), ippObj->network)` for a line that nothing looks at. -/
def dropLine (old : Nat → UInt8) (b : IppBody) (rs : List Recv) :
    Option (IppBody × List Recv) :=
  match zotFgets old 64 b.network rs with
  | none => none
  | some (_, f, rs) => some ({ b with network := f }, rs)

/-- `httpRead` behind the chunk-size line. -/
def readBody (old : Nat → UInt8) (b : IppBody) (length : Int) (rs : List Recv) :
    Option (List UInt8 × IppBody × List Recv) :=
  if b.qsize ≤ 0 then
    if b.chunked then (dropLine old { b with chunked := false } rs).map fun r ↦ ([], r)
    else some ([], b, rs)
  else
    match zotRecv b.network (min length b.qsize) rs with
    | none => none
    | some ((n, data), f, rs) =>
        if n ≤ 0 then
          some ([], { chunked := false, qsize := 0, timedOut := true, network := f }, rs)
        else
          let b := { b with qsize := b.qsize - n, network := f }
          if b.chunked ∧ b.qsize ≤ 0 then (dropLine old b rs).map fun r ↦ (data, r)
          else some (data, b, rs)

/-- `httpRead` with `old` in its array `len`: the bytes it returns. -/
def httpRead (old : Nat → UInt8) (b : IppBody) (length : Int) (rs : List Recv) :
    Option (List UInt8 × IppBody × List Recv) :=
  if b.chunked ∧ b.qsize ≤ 0 then
    match zotFgets old 64 b.network rs with
    | none => none
    | some (none, f, rs) => some ([], { b with network := f }, rs)
    | some (some line, f, rs) =>
        readBody (storeLen old line) { b with qsize := strtol16 line, network := f } length rs
  else readBody old b length rs

/-- A call of `httpRead` by a receiver: what its stack holds, and whether a Cancel-Job has set
`IPP_JOB_ABORTING` when it returns. -/
structure Call where
  old : Nat → UInt8
  aborting : Bool

/-- The rounds of a receiver. -/
def httpRounds : IppBody → List Call → List Recv → List IppRound
  | _, [], _ => []
  | b, c :: cs, rs =>
      match httpRead c.old b Spooler.blockSize rs with
      | none => []
      | some (data, b', rs') => ⟨data, b'.timedOut, c.aborting⟩ :: httpRounds b' cs rs'

def printBINJob (b : IppBody) (calls : List Call) (rs : List Recv) : Option (Outcome JobState) :=
  ippProcessBINJob (httpRounds b calls rs)

def printTXTJob (b : IppBody) (calls : List Call) (rs : List Recv) : Option (Outcome JobState) :=
  ippProcessTXTJob (httpRounds b calls rs)

/-- The data on the output queue. -/
def outData (ops : List BufOp) : List UInt8 :=
  ops.flatMap fun
    | .putOut _ data _ => data
    | _ => []

/-! ## The property -/

/-- The connection has delivered the rest of the body, which is the document `doc`. -/
def WholeBody (b : IppBody) (rs : List Recv) (doc : List UInt8) : Prop :=
  if b.chunked then Dechunk b.qsize.toNat (received b.network rs) doc
  else doc.length = b.qsize.toNat ∧ doc <+: received b.network rs

/-- A job that ends in another state than cancelled was received as a whole, and `convert` of its
document was put out; and a job whose connection fails before that ends as cancelled. -/
structure Faithful (b : IppBody) (calls : List Call) (rs : List Recv)
    (job : Option (Outcome JobState)) (convert : List UInt8 → List UInt8) : Prop where
  whole : ∀ o ∈ job, o.result ≠ .cancel →
    ∃ doc, WholeBody b rs doc ∧ outData o.bufs.ops = convert doc
  truncated : (∃ r ∈ rs, r.isPiece = false) → (received b.network rs).length < calls.length →
    (¬ ∃ doc, WholeBody b rs doc) → ∃ o ∈ job, o.result = .cancel

/-! ## Framing lines that arrive whole -/

/-- A line that a call of `fgets` is about to read has arrived whole, in the buffer or in the next
piece when the buffer is empty, fits and satisfies `ok`; or nothing has arrived yet. -/
def LineWhole (ok : List UInt8 → List UInt8 → List Recv → Prop) (buf : List UInt8)
    (rs : List Recv) : Prop :=
  match buf, rs with
  | [], [] => True
  | [], r :: rs =>
      match cutLine r.bytes with
      | none => False
      | some (line, rest) => line.length < 63 ∧ ok line rest rs
  | c :: buf, rs =>
      match cutLine (c :: buf) with
      | none => False
      | some (line, rest) => line.length < 63 ∧ ok line rest rs

/-- If the next bytes end the chunk, of which `n` are to come, the empty line behind it has
arrived whole. -/
def ChunkEndOk (n : Nat) (buf : List UInt8) (rs : List Recv) : Prop :=
  match buf, rs with
  | [], [] => True
  | [], r :: rs => n ≤ r.bytes.length → LineWhole (fun line _ _ ↦ line = []) (r.bytes.drop n) rs
  | c :: buf, rs =>
      n ≤ (c :: buf).length → LineWhole (fun line _ _ ↦ line = []) ((c :: buf).drop n) rs

/-- The line has a chunk size that an `int32` holds. -/
def SizeLineOk (line rest : List UInt8) (rs : List Recv) : Prop :=
  match chunkSize line with
  | none => False
  | some n => n < 2147483648 ∧ (n ≠ 0 → ChunkEndOk n rest rs)

/-- The framing lines that the next call of `httpRead` reads have arrived whole. -/
def ReadOk (b : IppBody) (rs : List Recv) : Prop :=
  b.chunked = true → 0 ≤ b.network.ibufCnt ∧
    if b.qsize ≤ 0 then LineWhole SizeLineOk b.network.buffered rs
    else ChunkEndOk b.qsize.toNat b.network.buffered rs

/-- `ReadOk` before every call up to the one that ends the job. -/
def ReadsOk : IppBody → List Call → List Recv → Prop
  | _, [], _ => True
  | b, c :: cs, rs =>
      ReadOk b rs ∧
        match httpRead c.old b Spooler.blockSize rs with
        | none => True
        | some (data, b', rs') => data = [] ∨ c.aborting = true ∨ ReadsOk b' cs rs'

/-- `ReadOk` before every call up to one that finds the connection failed where the size of a
chunk is due. -/
def FailsAtSize : IppBody → List Call → List Recv → Prop
  | _, [], _ => False
  | b, c :: cs, rs =>
      (b.chunked = true ∧ b.qsize ≤ 0 ∧ b.network.ibufCnt = 0 ∧
          rs.head?.map Recv.isPiece = some false) ∨
        (ReadOk b rs ∧
          match httpRead c.old b Spooler.blockSize rs with
          | none => False
          | some (data, b', rs') => data ≠ [] ∧ c.aborting = false ∧ FailsAtSize b' cs rs')

instance (ok : List UInt8 → List UInt8 → List Recv → Prop) [∀ l s rs, Decidable (ok l s rs)]
    (buf : List UInt8) (rs : List Recv) : Decidable (LineWhole ok buf rs) := by
  unfold LineWhole
  split
  · infer_instance
  · split <;> infer_instance
  · split <;> infer_instance

instance (n : Nat) (buf : List UInt8) (rs : List Recv) : Decidable (ChunkEndOk n buf rs) := by
  unfold ChunkEndOk
  split <;> infer_instance

instance (line rest : List UInt8) (rs : List Recv) : Decidable (SizeLineOk line rest rs) := by
  unfold SizeLineOk
  split <;> infer_instance

instance (b : IppBody) (rs : List Recv) : Decidable (ReadOk b rs) := by
  unfold ReadOk
  infer_instance

instance decidableReadsOk : ∀ (b : IppBody) (calls : List Call) (rs : List Recv),
    Decidable (ReadsOk b calls rs)
  | _, [], _ => isTrue trivial
  | b, c :: cs, rs =>
      have : Decidable (match httpRead c.old b Spooler.blockSize rs with
          | none => True
          | some (data, b', rs') => data = [] ∨ c.aborting = true ∨ ReadsOk b' cs rs') :=
        match httpRead c.old b Spooler.blockSize rs with
        | none => isTrue trivial
        | some (_, b', rs') =>
            have := decidableReadsOk b' cs rs'
            inferInstance
      inferInstanceAs (Decidable (_ ∧ _))

instance decidableFailsAtSize : ∀ (b : IppBody) (calls : List Call) (rs : List Recv),
    Decidable (FailsAtSize b calls rs)
  | _, [], _ => isFalse id
  | b, c :: cs, rs =>
      have : Decidable (match httpRead c.old b Spooler.blockSize rs with
          | none => False
          | some (data, b', rs') => data ≠ [] ∧ c.aborting = false ∧ FailsAtSize b' cs rs') :=
        match httpRead c.old b Spooler.blockSize rs with
        | none => isFalse id
        | some (_, b', rs') =>
            have := decidableFailsAtSize b' cs rs'
            inferInstance
      inferInstanceAs (Decidable (_ ∨ _))

end PrintServer.Ipp
