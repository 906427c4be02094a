import Mathlib.Data.List.Basic

/-!
# Line ends of text jobs

`ProcessCRLF` of ippd.c, which the text receivers of lpd.c and ippd.c call on half blocks with one
`KeepCR` flag.
-/

namespace PrintServer.Receive

/-- The loop of `ProcessCRLF`: the flag and the bytes it leaves. -/
def convertLoop : List UInt8 → Bool × List UInt8
  | [] => (false, [])
  | c :: cs =>
      if c = 0x0D then
        match cs with
        | [] => (true, [0x0D, 0x0A])
        | d :: ds =>
            let r := if d = 0x0A then convertLoop ds else convertLoop (d :: ds)
            (r.1, 0x0D :: 0x0A :: r.2)
      else if c = 0x0A then
        let r := convertLoop cs
        (r.1, 0x0D :: 0x0A :: r.2)
      else
        let r := convertLoop cs
        (r.1, c :: r.2)

/-- `ProcessCRLF`.  Its `size` is an `int16`; the receivers pass at most half a block, `BLOCKSIZE/2` =
5110 octets. -/
def processCRLF (keepCR : Bool) (tmpbuf : List UInt8) : Bool × List UInt8 :=
  convertLoop (if keepCR ∧ tmpbuf.head? = some 0x0A then tmpbuf.tail else tmpbuf)

/-! ## Data in pieces -/

theorem convertLoop_cons {c : UInt8} (hcr : c ≠ 0x0D) (s : List UInt8) :
    convertLoop (c :: s) =
      ((convertLoop s).1, (if c = 0x0A then [0x0D, 0x0A] else [c]) ++ (convertLoop s).2) := by
  rw [convertLoop.eq_def]
  by_cases hlf : c = 0x0A
  · simp [hlf]
  · simp [hcr, hlf]

/-- The flag carries a CR at the end of one piece to the LF at the front of the next. -/
theorem convertLoop_append (a s : List UInt8) :
    (convertLoop (a ++ s)).2 =
      (convertLoop a).2 ++ (processCRLF (convertLoop a).1 s).2 := by
  induction a using convertLoop.induct with
  | case1 => simp [convertLoop, processCRLF]
  | case2 =>
      -- the piece ends in a CR
      cases s with
      | nil => simp [convertLoop, processCRLF]
      | cons d s =>
          by_cases hd : d = 0x0A
          · simp [convertLoop, processCRLF, hd]
          · simp [convertLoop, processCRLF, hd]
  | case3 d ds ih_lf ih =>
      rw [List.cons_append] at ih
      by_cases hd : d = 0x0A
      · simp [convertLoop, hd, ih_lf]
      · simp [convertLoop, hd, ih]
  | case4 cs hcr ih =>
      rw [List.cons_append, convertLoop_cons hcr, convertLoop_cons hcr, ih, List.append_assoc]
  | case5 c cs hcr hlf ih =>
      rw [List.cons_append, convertLoop_cons hcr, convertLoop_cons hcr, ih, List.append_assoc]

theorem processCRLF_append {keepCR : Bool} {a : List UInt8} (s : List UInt8) (ha : a ≠ []) :
    (processCRLF keepCR (a ++ s)).2 =
      (processCRLF keepCR a).2 ++ (processCRLF (processCRLF keepCR a).1 s).2 := by
  cases a with
  | nil => exact absurd rfl ha
  | cons c a =>
      by_cases hskip : keepCR = true ∧ c = 0x0A
      · simpa [processCRLF, hskip] using convertLoop_append a s
      · simpa [processCRLF, hskip] using convertLoop_append (c :: a) s

end PrintServer.Receive
