import Mathlib.Data.List.Chain
import PrintServer.Ipp.HttpRead

/-!
# The conversion of line ends as a whole

A text is read as line ends and other bytes, each in one way; `ProcessCRLF` puts CR LF for every
line end, wherever the text is cut.  The text receivers call it on half blocks, whose conversion
fits a block.
-/

namespace PrintServer.Receive

open Spooler

/-! ## Texts -/

/-- A line end, in one of its three spellings, or another byte. -/
inductive Symbol
  | crlf
  | cr
  | lf
  | other (c : UInt8) (hcr : c ≠ 0x0D) (hlf : c ≠ 0x0A)

namespace Symbol

def source : Symbol → List UInt8
  | .crlf => [0x0D, 0x0A]
  | .cr => [0x0D]
  | .lf => [0x0A]
  | .other c _ _ => [c]

def converted : Symbol → List UInt8
  | .other c _ _ => [c]
  | _ => [0x0D, 0x0A]

end Symbol

/-- The symbols spell the text, and no pair CR LF is taken for two. -/
structure Reads (symbols : List Symbol) (text : List UInt8) : Prop where
  source : symbols.flatMap Symbol.source = text
  pairs : symbols.IsChain fun a b ↦ ¬(a = .cr ∧ b = .lf)

/-- `ProcessCRLF` on piece after piece, with one flag. -/
def convertPieces : Bool → List (List UInt8) → Bool × List UInt8
  | keepCR, [] => (keepCR, [])
  | keepCR, piece :: rest =>
      let first := processCRLF keepCR piece
      let r := convertPieces first.1 rest
      (r.1, first.2 ++ r.2)

theorem processCRLF_nil (keepCR : Bool) : (processCRLF keepCR []).2 = [] := by
  cases keepCR with
  | false => rfl
  | true => rfl

/-- Where the text is cut makes no difference. -/
theorem convertPieces_eq {pieces : List (List UInt8)} (hne : ∀ p ∈ pieces, p ≠ [])
    (keepCR : Bool) : (convertPieces keepCR pieces).2 = (processCRLF keepCR pieces.flatten).2 := by
  induction pieces generalizing keepCR with
  | nil => exact (processCRLF_nil keepCR).symm
  | cons piece rest ih =>
    obtain ⟨hpiece, hrest⟩ := List.forall_mem_cons.mp hne
    rw [List.flatten_cons, processCRLF_append _ hpiece, ← ih hrest]
    rfl

/-! ## The symbols of a text -/

theorem convertLoop_cr {s : List UInt8} (hs : s.head? ≠ some 0x0A) :
    (convertLoop (0x0D :: s)).2 = 0x0D :: 0x0A :: (convertLoop s).2 := by
  cases s with
  | nil => rfl
  | cons d s =>
    have hd : d ≠ 0x0A := fun h ↦ hs (congrArg some h)
    rw [convertLoop, if_pos rfl]
    simp only [if_neg hd]

theorem convertLoop_crlf (s : List UInt8) :
    (convertLoop (0x0D :: 0x0A :: s)).2 = 0x0D :: 0x0A :: (convertLoop s).2 := by
  rw [convertLoop, if_pos rfl]
  simp only [if_pos]

/-- Only an LF begins a text with an LF. -/
theorem head?_source {symbols : List Symbol} (h : symbols.head? ≠ some .lf) :
    (symbols.flatMap Symbol.source).head? ≠ some 0x0A := by
  cases symbols with
  | nil => exact (Option.some_ne_none _).symm
  | cons a symbols =>
    cases a with
    | crlf => simp [Symbol.source]
    | cr => simp [Symbol.source]
    | lf => exact absurd rfl h
    | other c hcr hlf => simpa [Symbol.source] using hlf

theorem convertLoop_reads {symbols : List Symbol} {text : List UInt8} (h : Reads symbols text) :
    (convertLoop text).2 = symbols.flatMap Symbol.converted := by
  induction symbols generalizing text with
  | nil =>
    rw [← h.source]
    rfl
  | cons a symbols ih =>
    obtain ⟨hsource, hpairs⟩ := h
    obtain ⟨hfirst, hrest⟩ := List.isChain_cons.mp hpairs
    have hih := ih ⟨rfl, hrest⟩
    rw [List.flatMap_cons] at hsource ⊢
    rw [← hsource, ← hih]
    cases a with
    | crlf => exact convertLoop_crlf _
    | cr =>
      have hhead : symbols.head? ≠ some .lf := fun hlf ↦ hfirst .lf hlf ⟨rfl, rfl⟩
      exact convertLoop_cr (head?_source hhead)
    | lf =>
      show (convertLoop (0x0A :: _)).2 = _
      rw [convertLoop_cons (by decide)]
      rfl
    | other c hcr hlf =>
      show (convertLoop (c :: _)).2 = _
      rw [convertLoop_cons hcr, if_neg hlf]
      rfl

/-- Every text can be read. -/
theorem exists_reads (text : List UInt8) : ∃ symbols, Reads symbols text := by
  induction text using convertLoop.induct with
  | case1 => exact ⟨[], rfl, List.isChain_nil⟩
  | case2 => exact ⟨[.cr], rfl, List.isChain_singleton _⟩
  | case3 d ds ih_lf ih =>
    by_cases hd : d = 0x0A
    · obtain ⟨symbols, hsource, hpairs⟩ := ih_lf
      refine ⟨.crlf :: symbols, ?_, List.isChain_cons.mpr ⟨?_, hpairs⟩⟩
      · rw [List.flatMap_cons, hsource, hd]
        rfl
      · rintro b - ⟨⟨⟩, -⟩
    · obtain ⟨symbols, hsource, hpairs⟩ := ih
      refine ⟨.cr :: symbols, ?_, List.isChain_cons.mpr ⟨?_, hpairs⟩⟩
      · rw [List.flatMap_cons, hsource]
        rfl
      · rintro b hb ⟨-, rfl⟩
        cases symbols with
        | nil => cases hb
        | cons a symbols =>
          cases hb
          exact hd (List.cons.inj hsource).1.symm
  | case4 cs hcr ih =>
    obtain ⟨symbols, hsource, hpairs⟩ := ih
    refine ⟨.lf :: symbols, ?_, List.isChain_cons.mpr ⟨?_, hpairs⟩⟩
    · rw [List.flatMap_cons, hsource]
      rfl
    · rintro b - ⟨⟨⟩, -⟩
  | case5 c cs hcr hlf ih =>
    obtain ⟨symbols, hsource, hpairs⟩ := ih
    refine ⟨.other c hcr hlf :: symbols, ?_, List.isChain_cons.mpr ⟨?_, hpairs⟩⟩
    · rw [List.flatMap_cons, hsource]
      rfl
    · rintro b - ⟨⟨⟩, -⟩

/-! ## Room -/

theorem length_convertLoop (s : List UInt8) : (convertLoop s).2.length ≤ 2 * s.length := by
  obtain ⟨symbols, hreads⟩ := exists_reads s
  rw [convertLoop_reads hreads, ← hreads.source, List.length_flatMap, List.length_flatMap]
  clear hreads
  induction symbols with
  | nil => exact Nat.le_refl 0
  | cons a symbols ih =>
    have ha : a.converted.length ≤ 2 * a.source.length := by
      cases a with
      | crlf => decide
      | cr => decide
      | lf => decide
      | other c hcr hlf => exact Nat.le_succ 1
    simp only [List.map_cons, List.sum_cons]
    omega

theorem length_processCRLF (keepCR : Bool) (s : List UInt8) :
    (processCRLF keepCR s).2.length ≤ 2 * s.length := by
  rw [processCRLF]
  split
  · have hle := length_convertLoop s.tail
    rw [List.length_tail] at hle
    omega
  · exact length_convertLoop s

/-- What goes to the spooler fits a block. -/
def Fits (b : Bufs) : Prop := ∀ pbuf data flags, .putOut pbuf data flags ∈ b.ops →
  data.length ≤ blockSize

theorem Fits.op {b : Bufs} (hb : Fits b) {o : BufOp}
    (ho : ∀ pbuf data flags, o = .putOut pbuf data flags → data.length ≤ blockSize) :
    Fits (b.op o) := by
  intro pbuf data flags hmem
  rcases List.mem_append.mp hmem with hold | hnew
  · exact hb pbuf data flags hold
  · exact ho pbuf data flags (List.mem_singleton.mp hnew).symm

theorem Fits.putOut {b : Bufs} (hb : Fits b) {data : List UInt8} (hdata : data.length ≤ blockSize)
    (pbuf : Nat) (flags : UInt8) : Fits (b.op (.putOut pbuf data flags)) := by
  apply hb.op
  intro _ _ _ h
  cases h
  exact hdata

theorem Fits.putIn {b : Bufs} (hb : Fits b) (pbuf : Nat) : Fits (b.op (.putIn pbuf)) :=
  hb.op fun _ _ _ h ↦ nomatch h

theorem Fits.abort {b : Bufs} (hb : Fits b) (pbuf : Nat) : Fits (b.op (.abort pbuf)) :=
  hb.op fun _ _ _ h ↦ nomatch h

theorem Fits.get {b : Bufs} (hb : Fits b) (n : Nat) : Fits (b.get n) := hb

theorem Fits.putHalves {b : Bufs} (hb : Fits b) {data : List UInt8}
    (hdata : data.length ≤ blockSize) (keepCR : Bool) (pbuf0 pbuf1 : Nat) :
    Fits (putHalves keepCR pbuf0 pbuf1 data b).2 := by
  have hhalf : 2 * halfBlock = blockSize := rfl
  have hfirst := length_processCRLF keepCR (data.take halfBlock)
  rw [List.length_take] at hfirst
  have hb1 := hb.putOut (show (processCRLF keepCR (data.take halfBlock)).2.length ≤ blockSize by
    omega) pbuf0 prnQNormal
  rw [Receive.putHalves]
  split
  · have hsecond := length_processCRLF (processCRLF keepCR (data.take halfBlock)).1
      (data.drop halfBlock)
    rw [List.length_drop] at hsecond
    exact hb1.putOut (by omega) pbuf1 prnQNormal
  · exact hb1.putIn pbuf1

/-! ## The text receivers -/

/-- No `recv` gives more than the `blocksize` bytes that it was asked for. -/
def TxtAsked : LpdVars → List TxtRound → Prop
  | _, [] => True
  | v, r :: rs => r.data.length ≤ v.blocksize ∧ TxtAsked (countBlock v r.data) rs

theorem firstBlocksize_le (filesize : UInt32) : firstBlocksize filesize ≤ blockSize := by
  rw [firstBlocksize]
  split
  · exact Int.le_refl _
  · rename_i h
    have hle : filesize.toNat ≤ blockSize := UInt32.le_iff_toNat_le.mp (UInt32.not_lt.mp h)
    omega

theorem nextBlocksize_le (filesize total : UInt32) {blocksize : Int} (h : blocksize ≤ blockSize) :
    nextBlocksize filesize total blocksize ≤ blockSize := by
  rw [nextBlocksize]
  split
  · rename_i hlast
    have hlt : (filesize - total).toNat < blockSize := UInt32.lt_iff_toNat_lt.mp hlast
    omega
  · exact h

theorem length_takeStatus (v : LpdVars) (data : List UInt8) :
    (takeStatus v data).1.length ≤ data.length := by
  rw [takeStatus]
  split
  · rw [List.length_dropLast]
    exact Nat.sub_le _ _
  · exact Nat.le_refl _

theorem TxtAsked.congr {v w : LpdVars} (hfilesize : v.filesize = w.filesize)
    (htotal : v.total = w.total) (hblocksize : v.blocksize = w.blocksize) {rs : List TxtRound}
    (h : TxtAsked v rs) : TxtAsked w rs := by
  induction rs generalizing v w with
  | nil => trivial
  | cons r rs ih =>
    refine ⟨hblocksize ▸ h.1, ih ?_ ?_ ?_ h.2⟩
    · exact hfilesize
    · show v.total + _ = w.total + _
      rw [htotal]
    · show nextBlocksize _ (v.total + _) _ = nextBlocksize _ (w.total + _) _
      rw [hfilesize, htotal, hblocksize]

theorem Fits.txtEnd {b : Bufs} (hb : Fits b) (status : UInt8) (pbuf0 pbuf1 pbuf2 : Nat) :
    Fits (txtEnd status pbuf0 pbuf1 pbuf2 b).bufs := by
  rw [Receive.txtEnd]
  split
  · exact ((hb.putIn pbuf0).putIn pbuf1).abort pbuf2
  · exact hb.putOut (Nat.zero_le _) pbuf2 prnQEof

theorem Fits.txtLoop {v : LpdVars} {b : Bufs} {rs : List TxtRound} {pbuf2 : Nat}
    {o : Outcome Int} (hb : Fits b) (hv : v.blocksize ≤ blockSize) (hasked : TxtAsked v rs)
    (h : txtLoop pbuf2 v b rs = some o) : Fits o.bufs := by
  induction rs generalizing v b with
  | nil => exact nomatch h
  | cons r rs ih =>
    rw [Receive.txtLoop] at h
    dsimp only at h
    have hget := hb.get 2
    split at h
    · cases h
      exact hget.txtEnd _ _ _ _
    split at h
    · cases h
      exact hget.txtEnd _ _ _ _
    have hdata : (takeStatus v r.data).1.length ≤ blockSize := by
      have hle := length_takeStatus v r.data
      have hrecv := hasked.1
      omega
    have hput := hget.putHalves hdata v.keepCR b.got (b.got + 1)
    split at h
    · -- the flag has no part in what is asked for
      refine ih hput (nextBlocksize_le _ _ hv) (hasked.2.congr ?_ ?_ ?_) h
      · rfl
      · rfl
      · rfl
    · cases h
      exact hput.txtEnd _ _ _ _

theorem fits_noBufs : Fits noBufs := fun _ _ _ h ↦ absurd h List.not_mem_nil

theorem Fits.ippTxtLoop {keepCR : Bool} {b : Bufs} {rs : List IppRound} {pbuf2 : Nat}
    {o : Outcome JobState} (hb : Fits b) (hrs : ∀ r ∈ rs, r.data.length ≤ blockSize)
    (h : ippTxtLoop pbuf2 keepCR b rs = some o) : Fits o.bufs := by
  induction rs generalizing keepCR b with
  | nil => exact nomatch h
  | cons r rs ih =>
    obtain ⟨hr, hrest⟩ := List.forall_mem_cons.mp hrs
    rw [Receive.ippTxtLoop] at h
    dsimp only at h
    have hget := hb.get 2
    split at h
    · cases h
      split
      · exact ((hget.abort pbuf2).putIn _).putIn _
      · exact ((hget.putOut (Nat.zero_le _) pbuf2 prnQEof).putIn _).putIn _
    · exact ih (hget.putHalves hr keepCR b.got (b.got + 1)) hrest h

end PrintServer.Receive

namespace PrintServer.Ipp

open Http Receive Spooler

variable {old : Nat → UInt8} {b b' : IppBody} {rs rs' : List Recv} {data : List UInt8}

theorem length_readBody {length : Nat}
    (h : readBody old b length rs = some (data, b', rs')) : data.length ≤ length := by
  rw [readBody] at h
  split at h
  · split at h
    · obtain ⟨r, -, hr⟩ := Option.map_eq_some_iff.mp h
      cases hr
      exact Nat.zero_le _
    · cases h
      exact Nat.zero_le _
  · split at h
    · cases h
    · rename_i n bytes f rest hrecv
      split at h
      · cases h
        exact Nat.zero_le _
      · rename_i hn
        obtain ⟨hlength, hle, -, -⟩ := zotRecv_pos (Int.not_le.mp hn) hrecv
        have hbytes : bytes.length ≤ length := by omega
        dsimp only at h
        split at h
        · obtain ⟨r, -, hr⟩ := Option.map_eq_some_iff.mp h
          cases hr
          exact hbytes
        · cases h
          exact hbytes

/-- `httpRead` gives no more than it is asked for. -/
theorem length_httpRead {length : Nat}
    (h : httpRead old b length rs = some (data, b', rs')) : data.length ≤ length := by
  rw [httpRead] at h
  split at h
  · split at h
    · cases h
    · cases h
      exact Nat.zero_le _
    · exact length_readBody h
  · exact length_readBody h

theorem length_httpRounds {calls : List Call} :
    ∀ r ∈ httpRounds b calls rs, r.data.length ≤ blockSize := by
  induction calls generalizing b rs with
  | nil => exact fun r hr ↦ absurd hr List.not_mem_nil
  | cons c calls ih =>
    rw [httpRounds]
    split
    · exact fun r hr ↦ absurd hr List.not_mem_nil
    · rename_i hread
      exact List.forall_mem_cons.mpr ⟨length_httpRead hread, ih⟩

end PrintServer.Ipp

namespace PrintServer.Receive

open Spooler

/-- The pieces of a text, none of them empty, are converted as the whole text is, symbol for
symbol; no call needs more than twice the room of its input; and what the text receivers hand on
fits a block. -/
theorem line_ends_converted {pieces : List (List UInt8)} (hne : ∀ p ∈ pieces, p ≠ []) :
    (convertPieces false pieces).2 = (processCRLF false pieces.flatten).2 ∧
    (∃ symbols, Reads symbols pieces.flatten) ∧
    (∀ symbols, Reads symbols pieces.flatten →
      (convertPieces false pieces).2 = symbols.flatMap Symbol.converted) ∧
    (∀ keepCR input, (processCRLF keepCR input).2.length ≤ 2 * input.length) ∧
    (∀ filesize rounds o, TxtAsked (lpdVars filesize) rounds →
      receiveTxtDataFile filesize rounds = some o → Fits o.bufs) ∧
    ∀ b calls rs o, Ipp.printTXTJob b calls rs = some o → Fits o.bufs := by
  have hwhole := convertPieces_eq hne false
  refine ⟨hwhole, exists_reads _, fun symbols hreads ↦ ?_, length_processCRLF, ?_, ?_⟩
  · rw [hwhole]
    exact convertLoop_reads hreads
  · intro filesize rounds o hasked h
    exact (fits_noBufs.get 1).txtLoop (firstBlocksize_le _) hasked h
  · intro b calls rs o h
    exact (fits_noBufs.get 1).ippTxtLoop Ipp.length_httpRounds h

/-- A pair that is cut. -/
theorem cut_pair_converted :
    (∀ p ∈ [[0x41, 0x0D], [0x0A, 0x42]], p ≠ ([] : List UInt8)) ∧
      (convertPieces false [[0x41, 0x0D], [0x0A, 0x42]]).2 = [0x41, 0x0D, 0x0A, 0x42] := by
  have hne : ∀ p ∈ [[0x41, 0x0D], [0x0A, 0x42]], p ≠ ([] : List UInt8) := by decide
  refine ⟨hne, ?_⟩
  rw [(line_ends_converted hne).1]
  decide

end PrintServer.Receive
