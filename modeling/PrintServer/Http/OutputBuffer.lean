import Mathlib.Data.List.Induction
import PrintServer.Http.CString
import PrintServer.Lib.Memory

/-!
# Writing to a stream

`zot_fputs`, `zot_fputc`, `zot_fflush` and `fmode` of httpd.c fill `obuf` and pass it to `send`.
A `memcpy` that leaves the 1600 bytes of `obuf` is an error here.
-/

namespace PrintServer.Http

open Lib

/-- A string in memory with 32-bit addresses. -/
structure CText where
  text : Str
  noNul : 0 ∉ text
  fits : text.length < 4294967296

/-- The part of a `ZOT_FILE` that writing uses, and what went to `send`. -/
structure Output where
  offset : Int
  obuf : Nat → UInt8
  sent : List UInt8

namespace Output

/-- `memcpy( fp->obuf + fp->offset , buf , n )`: `n` becomes a `size_t`. -/
def copy (fp : Output) (buf : Str) (n : Int) : Option Output :=
  let size := (n % 4294967296).toNat
  if 0 ≤ fp.offset ∧ fp.offset + size ≤ 1600 then
    some { fp with obuf := writeMem fp.obuf fp.offset.toNat (buf.take size) }
  else none

/-- `send( fp->fd , fp->obuf , n , 0 ); fp->offset=0; memset(fp->obuf ,0 ,1600);` -/
def send (fp : Output) (n : Int) : Output :=
  { offset := 0
    obuf := writeMem fp.obuf 0 (List.replicate 1600 0)
    sent := fp.sent ++ readMem fp.obuf 0 n.toNat }

def zotFflush (fp : Output) : Output := if fp.offset = 0 then fp else fp.send fp.offset

def fmode (fp : Output) : Output := fp.send fp.offset

/-- The last copy of `zot_fputs`. -/
def putRest (fp : Output) (buf : Str) (len : Int) : Option Output :=
  (fp.copy buf len).map fun fp ↦ { fp with offset := fp.offset + len }

def zotFputs (fp : Output) (buf : CText) : Option Output :=
  -- `len = strlen(buf)`, an `int`
  let len := (buf.text.length : Int).bmod 4294967296
  let bytes := 1536 - fp.offset
  if bytes < len then
    (fp.copy buf.text bytes).bind fun fp ↦
      (fp.send 1536).putRest (buf.text.drop bytes.toNat) (len - bytes)
  else fp.putRest buf.text len

end Output

/-- The string that `zot_fputc` makes of a character. -/
def charText (data : UInt8) : CText where
  text := if data = 0 then [] else [data]
  noNul := by
    split
    · exact List.not_mem_nil
    · rename_i h
      exact fun hmem ↦ h (List.eq_of_mem_singleton hmem).symm
  fits := by
    split
    · decide
    · rw [List.length_singleton]
      decide

def Output.zotFputc (fp : Output) (data : UInt8) : Option Output := fp.zotFputs (charText data)

/-- What `zot_fclose` has sent in the end. -/
def Output.zotFclose (fp : Output) : List UInt8 :=
  if fp.offset > 0 then fp.sent ++ readMem fp.obuf 0 fp.offset.toNat else fp.sent

/-! ## What a call keeps -/

variable {fp : Output} {w : List UInt8}

/-- What was written is what was sent and then the first `offset` bytes of `obuf`. -/
structure Output.Holds (fp : Output) (w : List UInt8) : Prop where
  nonneg : 0 ≤ fp.offset
  le_size : fp.offset ≤ 1600
  text : fp.sent ++ readMem fp.obuf 0 fp.offset.toNat = w

/-- The room that `zot_fputs` finds for a string of `n` bytes: once up to the limit, and once the
whole of `obuf`. -/
def Output.Room (fp : Output) (n : Nat) : Prop := fp.offset ≤ 1536 ∧ fp.offset + n ≤ 3136

namespace Output

theorem holds_send (h : fp.Holds w) : (fp.send fp.offset).Holds w where
  nonneg := Int.le_refl 0
  le_size := by
    change (0 : Int) ≤ 1600
    omega
  text := by
    change (fp.sent ++ readMem fp.obuf 0 fp.offset.toNat) ++ readMem _ 0 0 = w
    rw [readMem_zero, List.append_nil, h.text]

theorem holds_zotFflush (h : fp.Holds w) : fp.zotFflush.Holds w := by
  unfold zotFflush
  split
  · exact h
  · exact holds_send h

theorem zotFclose_sent (h : fp.Holds w) : fp.zotFclose = w := by
  unfold zotFclose
  have hnonneg := h.nonneg
  split
  · exact h.text
  · have hzero : fp.offset.toNat = 0 := by omega
    rw [← h.text, hzero, readMem_zero, List.append_nil]

/-- The last copy of `zot_fputs`, for a length that is the string's. -/
theorem holds_putRest {buf : Str} (h : fp.Holds w) (hfits : fp.offset + buf.length ≤ 1600) :
    ∃ fp', fp.putRest buf buf.length = some fp' ∧ fp'.Holds (w ++ buf) := by
  have hnonneg := h.nonneg
  have hsize : ((buf.length : Int) % 4294967296).toNat = buf.length := by omega
  have hcopy : fp.copy buf buf.length =
      some { fp with obuf := writeMem fp.obuf fp.offset.toNat buf } := by
    unfold copy
    simp only
    rw [hsize, if_pos ⟨hnonneg, hfits⟩, List.take_length]
  unfold putRest
  rw [hcopy, Option.map_some]
  refine ⟨_, rfl, ?_, ?_, ?_⟩
  · change 0 ≤ fp.offset + buf.length
    omega
  · exact hfits
  · have hlength : (fp.offset + buf.length).toNat = fp.offset.toNat + buf.length := by omega
    have hold := @readMem_writeMem_of_le _ fp.obuf fp.offset.toNat 0 fp.offset.toNat buf (by omega)
    change fp.sent ++ readMem (writeMem fp.obuf fp.offset.toNat buf) 0 _ = w ++ buf
    rw [hlength, readMem_add, Nat.zero_add, hold, readMem_writeMem, ← List.append_assoc, h.text]

/-- The first copy of a string that passes the limit fills `obuf` up to it. -/
theorem holds_send_limit {buf : Str} (h : fp.Holds w) (hlimit : fp.offset ≤ 1536)
    (hlong : 1536 - fp.offset < buf.length) :
    ∃ fp', fp.copy buf (1536 - fp.offset) = some fp' ∧
      (fp'.send 1536).Holds (w ++ buf.take (1536 - fp.offset).toNat) ∧
      (fp'.send 1536).offset = 0 := by
  have hnonneg := h.nonneg
  have hsize : ((1536 - fp.offset) % 4294967296).toNat = (1536 - fp.offset).toNat := by omega
  have hlength : (buf.take (1536 - fp.offset).toNat).length = (1536 - fp.offset).toNat := by
    rw [List.length_take]
    omega
  have hcopy : fp.copy buf (1536 - fp.offset) = some { fp with
      obuf := writeMem fp.obuf fp.offset.toNat (buf.take (1536 - fp.offset).toNat) } := by
    unfold copy
    simp only
    rw [hsize, if_pos ⟨hnonneg, by omega⟩]
  refine ⟨_, hcopy, ⟨Int.le_refl 0, ?_, ?_⟩, rfl⟩
  · change (0 : Int) ≤ 1600
    omega
  · have hfull : (1536 : Int).toNat = fp.offset.toNat + (1536 - fp.offset).toNat := by omega
    have hold := @readMem_writeMem_of_le _ fp.obuf fp.offset.toNat 0 fp.offset.toNat
      (buf.take (1536 - fp.offset).toNat) (by omega)
    have hnew := @readMem_writeMem _ fp.obuf fp.offset.toNat
      (buf.take (1536 - fp.offset).toNat)
    rw [hlength] at hnew
    change (fp.sent ++ readMem _ 0 (1536 : Int).toNat) ++ readMem _ 0 0 = _
    rw [hfull, readMem_add, Nat.zero_add, hold, hnew, readMem_zero, List.append_nil,
      ← List.append_assoc, h.text]

/-- With room, a string goes behind what was written. -/
theorem holds_zotFputs {buf : CText} (h : fp.Holds w) (hroom : fp.Room buf.text.length) :
    ∃ fp', fp.zotFputs buf = some fp' ∧ fp'.Holds (w ++ buf.text) := by
  obtain ⟨hlimit, hfits⟩ := hroom
  have hnonneg := h.nonneg
  have hlen : (buf.text.length : Int).bmod 4294967296 = buf.text.length := by
    rw [Int.bmod_def]
    omega
  unfold zotFputs
  simp only [hlen]
  by_cases hlong : 1536 - fp.offset < buf.text.length
  · obtain ⟨fp', hcopy, hsent, hoffset⟩ := holds_send_limit h hlimit hlong
    rw [if_pos hlong, hcopy, Option.bind_some]
    have hrest : (buf.text.length : Int) - (1536 - fp.offset) =
        (buf.text.drop (1536 - fp.offset).toNat).length := by
      rw [List.length_drop]
      omega
    obtain ⟨fp'', hput, hholds⟩ := @holds_putRest _ _ (buf.text.drop (1536 - fp.offset).toNat)
      hsent (by rw [hoffset, ← hrest]; omega)
    rw [hrest]
    refine ⟨fp'', hput, ?_⟩
    rwa [List.append_assoc, List.take_append_drop] at hholds
  · rw [if_neg hlong]
    exact holds_putRest h (by omega)

/-- Without, the copy leaves `obuf`. -/
theorem zotFputs_eq_none {buf : CText} (h : fp.Holds w) (hroom : ¬ fp.Room buf.text.length) :
    fp.zotFputs buf = none := by
  have hnonneg := h.nonneg
  have hle := h.le_size
  have hfits := buf.fits
  unfold Room at hroom
  unfold zotFputs
  simp only
  have hbmod : buf.text.length < 2147483648 ∧
        (buf.text.length : Int).bmod 4294967296 = buf.text.length ∨
      2147483648 ≤ buf.text.length ∧
        (buf.text.length : Int).bmod 4294967296 = buf.text.length - 4294967296 := by
    rw [Int.bmod_def]
    omega
  split
  · rename_i hlong
    by_cases hlimit : fp.offset ≤ 1536
    · cases hcopy : fp.copy buf.text (1536 - fp.offset) with
      | none => rfl
      | some fp' =>
          rw [Option.bind_some]
          unfold putRest copy
          simp only
          rw [if_neg, Option.map_none]
          change ¬ ((0 : Int) ≤ 0 ∧ (0 : Int) + _ ≤ 1600)
          omega
    · unfold copy
      simp only
      rw [if_neg, Option.bind_none]
      intro ⟨_, hcopy⟩
      have hsize : (1536 - fp.offset) % 4294967296 = 1536 - fp.offset + 4294967296 := by omega
      rw [hsize] at hcopy
      omega
  · -- the length is negative, and the copy has all its bytes
    have hneg : 2147483648 ≤ buf.text.length ∧
        (buf.text.length : Int).bmod 4294967296 = buf.text.length - 4294967296 := by omega
    have hsize : ((buf.text.length : Int) - 4294967296) % 4294967296 = buf.text.length := by omega
    unfold putRest copy
    simp only
    rw [hneg.2, hsize, if_neg (by omega), Option.map_none]

end Output

/-! ## A stream's calls -/

inductive OutputCall
  | fputs (buf : CText)
  | fputc (data : UInt8)
  | fflush
  | fmode

namespace OutputCall

/-- The string that a call writes. -/
def text : OutputCall → Str
  | fputs buf => buf.text
  | fputc data => (charText data).text
  | fflush | fmode => []

def exec (fp : Output) : OutputCall → Option Output
  | fputs buf => fp.zotFputs buf
  | fputc data => fp.zotFputc data
  | fflush => some fp.zotFflush
  | fmode => some fp.fmode

/-- What a call that writes asks of the stream. -/
def Fits (fp : Output) : OutputCall → Prop
  | fputs buf => fp.Room buf.text.length
  | fputc data => fp.Room (charText data).text.length
  | fflush | fmode => True

def run (fp : Output) (calls : List OutputCall) : Option Output := calls.foldlM exec fp

def written (calls : List OutputCall) : Str := calls.flatMap text

variable {fp : Output} {w : List UInt8} {calls : List OutputCall}

theorem holds_exec {call : OutputCall} (h : fp.Holds w) (hfits : call.Fits fp) :
    ∃ fp', call.exec fp = some fp' ∧ fp'.Holds (w ++ call.text) := by
  cases call with
  | fputs buf => exact @Output.holds_zotFputs fp w buf h hfits
  | fputc data => exact @Output.holds_zotFputs fp w (charText data) h hfits
  | fflush =>
      refine ⟨_, rfl, ?_⟩
      rw [text, List.append_nil]
      exact Output.holds_zotFflush h
  | fmode =>
      refine ⟨_, rfl, ?_⟩
      rw [text, List.append_nil]
      exact Output.holds_send h

theorem fits_of_exec {call : OutputCall} {fp' : Output} (h : fp.Holds w)
    (hexec : call.exec fp = some fp') : call.Fits fp := by
  cases call with
  | fputs buf =>
      by_contra hroom
      have hnone := @Output.zotFputs_eq_none fp w buf h hroom
      exact Option.some_ne_none _ (hexec.symm.trans hnone)
  | fputc data =>
      by_contra hroom
      have hnone := @Output.zotFputs_eq_none fp w (charText data) h hroom
      exact Option.some_ne_none _ (hexec.symm.trans hnone)
  | fflush => trivial
  | fmode => trivial

/-- A stream as `zot_fopen` makes it. -/
def fresh (obuf : Nat → UInt8) : Output := ⟨0, obuf, []⟩

theorem holds_fresh {obuf : Nat → UInt8} : (fresh obuf).Holds [] :=
  ⟨Int.le_refl 0, Int.ofNat_le.mpr (Nat.zero_le 1600), rfl⟩

/-- After each of the calls the stream holds what was written, and no copy has left `obuf`. -/
def Complete (obuf : Nat → UInt8) (calls : List OutputCall) : Prop :=
  ∀ done, done <+: calls → ∃ fp, run (fresh obuf) done = some fp ∧ fp.Holds (written done)

/-- Each call finds the room that it asks for. -/
def AllFit (obuf : Nat → UInt8) (calls : List OutputCall) : Prop :=
  ∀ done call fp, done ++ [call] <+: calls → run (fresh obuf) done = some fp → call.Fits fp

theorem run_concat {call : OutputCall} {done : List OutputCall} :
    run fp (done ++ [call]) = (run fp done).bind call.exec := by
  unfold run
  rw [List.foldlM_append]
  congr 1
  funext fp'
  rw [List.foldlM_cons]
  cases exec fp' call <;> rfl

theorem complete_iff (obuf : Nat → UInt8) (calls : List OutputCall) :
    Complete obuf calls ↔ AllFit obuf calls := by
  constructor
  · intro h done call fp hdone hrun
    obtain ⟨fp', hrun', hholds⟩ := h done ((List.prefix_append done [call]).trans hdone)
    obtain rfl := Option.some.inj (hrun.symm.trans hrun')
    obtain ⟨fp'', hnext, -⟩ := h _ hdone
    rw [run_concat, hrun, Option.bind_some] at hnext
    exact fits_of_exec hholds hnext
  · intro h done
    induction done using List.reverseRecOn with
    | nil => exact fun _ ↦ ⟨fresh obuf, rfl, holds_fresh⟩
    | append_singleton done call ih =>
        intro hdone
        obtain ⟨fp, hrun, hholds⟩ := ih ((List.prefix_append done [call]).trans hdone)
        obtain ⟨fp', hexec, hholds'⟩ := holds_exec hholds (h done call fp hdone hrun)
        refine ⟨fp', ?_, ?_⟩
        · rw [run_concat, hrun, Option.bind_some, hexec]
        · unfold written
          rwa [List.flatMap_append, List.flatMap_singleton]

/-- `n` times the letter a. -/
def letters (n : Nat) (h : n < 4294967296) : CText where
  text := List.replicate n (chr 'a')
  noNul := fun hmem ↦ absurd (List.eq_of_mem_replicate hmem) (by decide)
  fits := by rwa [List.length_replicate]

theorem complete_singleton {obuf : Nat → UInt8} {call : OutputCall}
    (h : Complete obuf [call]) : ∃ fp, call.exec (fresh obuf) = some fp := by
  obtain ⟨fp, hrun, -⟩ := h _ (List.prefix_refl _)
  rw [← List.nil_append [call], run_concat] at hrun
  exact ⟨fp, hrun⟩

/-- A string of 3137 bytes on a fresh stream. -/
theorem fputs_long : ¬ Complete (fun _ ↦ 0) [fputs (letters 3137 (by decide))] := by
  intro h
  obtain ⟨fp, hexec⟩ := complete_singleton h
  have hroom : ¬ (fresh fun _ ↦ 0).Room (letters 3137 (by decide)).text.length := by
    unfold Output.Room letters fresh
    rw [List.length_replicate]
    decide
  have hnone := Output.zotFputs_eq_none holds_fresh hroom
  exact Option.some_ne_none _ (hexec.symm.trans hnone)

end OutputCall

end PrintServer.Http
