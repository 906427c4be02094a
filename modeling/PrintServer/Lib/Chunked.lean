import Mathlib.Data.List.TakeWhile

/-!
# Chunked coding

A body in chunks is a sequence of chunks, each a line with its size in hexadecimal, that many
bytes and an empty line, up to a chunk of size zero.  Lines end in CR LF.
-/

namespace Lib

def hexDigit (c : UInt8) : Option Nat :=
  if 0x30 ≤ c ∧ c ≤ 0x39 then some (c.toNat - 0x30)
  else if 0x41 ≤ c ∧ c ≤ 0x46 then some (c.toNat - 0x37)
  else if 0x61 ≤ c ∧ c ≤ 0x66 then some (c.toNat - 0x57)
  else none

def hexDigits (s : List UInt8) : List UInt8 := s.takeWhile fun c ↦ (hexDigit c).isSome

/-- The number that the hexadecimal digits at the front of `s` stand for. -/
def hexValue (s : List UInt8) : Nat :=
  (hexDigits s).foldl (fun n c ↦ 16 * n + (hexDigit c).getD 0) 0

theorem hexDigits_append {c : UInt8} (s : List UInt8) (hc : hexDigit c = none) :
    hexDigits (s ++ [c]) = hexDigits s := by
  unfold hexDigits
  induction s with
  | nil => simp [hc]
  | cons a s ih =>
      rw [List.cons_append, List.takeWhile_cons, List.takeWhile_cons, ih]

theorem hexValue_append {c : UInt8} (s : List UInt8) (hc : hexDigit c = none) :
    hexValue (s ++ [c]) = hexValue s := by
  unfold hexValue
  rw [hexDigits_append s hc]

/-! ## Lines -/

/-- The first line and what follows its CR LF; a CR or a LF alone does not end a line. -/
def cutLine : List UInt8 → Option (List UInt8 × List UInt8)
  | [] => none
  | c :: s =>
      if c = 0x0D then
        match s with
        | [] => none
        | d :: s => if d = 0x0A then some ([], s) else none
      else if c = 0x0A then none
      else (cutLine s).map fun r ↦ (c :: r.1, r.2)

theorem cutLine_eq_some {s line rest : List UInt8} (h : cutLine s = some (line, rest)) :
    s = line ++ 0x0D :: 0x0A :: rest ∧ ∀ c ∈ line, c ≠ 0x0D ∧ c ≠ 0x0A := by
  induction s generalizing line with
  | nil => cases h
  | cons c s ih =>
      unfold cutLine at h
      split at h
      · rename_i hc
        cases s with
        | nil => cases h
        | cons d s =>
            obtain ⟨hd, hst⟩ := Option.ite_none_right_eq_some.mp h
            obtain ⟨rfl, rfl⟩ := Prod.mk.inj (Option.some.inj hst)
            subst hc hd
            exact ⟨rfl, nofun⟩
      · rename_i hcr
        obtain ⟨hlf, hst⟩ := Option.ite_none_left_eq_some.mp h
        obtain ⟨⟨line', rest'⟩, hcut, heq⟩ := Option.map_eq_some_iff.mp hst
        obtain ⟨rfl, rfl⟩ := Prod.mk.inj heq
        obtain ⟨rfl, hline⟩ := ih hcut
        refine ⟨rfl, fun a ha ↦ ?_⟩
        rcases List.mem_cons.mp ha with rfl | ha
        · exact ⟨hcr, hlf⟩
        · exact hline a ha

theorem cutLine_line {line rest : List UInt8} (h : ∀ c ∈ line, c ≠ 0x0D ∧ c ≠ 0x0A) :
    cutLine (line ++ 0x0D :: 0x0A :: rest) = some (line, rest) := by
  induction line with
  | nil => rfl
  | cons c line ih =>
      obtain ⟨⟨hcr, hlf⟩, hline⟩ := List.forall_mem_cons.mp h
      simp [cutLine, hcr, hlf, ih hline]

/-! ## Chunks -/

/-- The size that a chunk's line gives; behind the digits stands a blank, an extension or
nothing. -/
def chunkSize (line : List UInt8) : Option Nat :=
  if hexDigits line = [] then none
  else match line.drop (hexDigits line).length with
    | [] => some (hexValue line)
    | c :: _ => if c = 0x3B ∨ c = 0x20 ∨ c = 0x09 then some (hexValue line) else none

/-- `Dechunk n s doc`: with `n` bytes of a chunk to come, or its size for `n = 0`, the bytes `s`
start with the rest of a whole body, whose chunks are the bytes `doc`. -/
inductive Dechunk : Nat → List UInt8 → List UInt8 → Prop
  | last {s line rest : List UInt8} (hcut : cutLine s = some (line, rest))
      (hsize : chunkSize line = some 0) : Dechunk 0 s []
  | size {s line rest doc : List UInt8} {n : Nat} (hcut : cutLine s = some (line, rest))
      (hsize : chunkSize line = some n) (hn : n ≠ 0) (hrest : Dechunk n rest doc) :
      Dechunk 0 s doc
  | data {rest d doc : List UInt8} (hd : d ≠ []) (hrest : Dechunk 0 rest doc) :
      Dechunk d.length (d ++ 0x0D :: 0x0A :: rest) (d ++ doc)

namespace Dechunk

variable {s d line rest doc : List UInt8} {n : Nat}

theorem inv_zero (h : Dechunk 0 s doc) : ∃ line rest n, cutLine s = some (line, rest) ∧
    chunkSize line = some n ∧ ((n = 0 ∧ doc = []) ∨ (n ≠ 0 ∧ Dechunk n rest doc)) := by
  generalize hzero : 0 = k at h
  cases h with
  | @last _ line rest hcut hsize => exact ⟨line, rest, 0, hcut, hsize, Or.inl ⟨rfl, rfl⟩⟩
  | @size _ line rest _ n hcut hsize hn hrest =>
      exact ⟨line, rest, n, hcut, hsize, Or.inr ⟨hn, hrest⟩⟩
  | data hd => exact absurd (List.length_eq_zero_iff.mp hzero.symm) hd

theorem inv_pos (hn : n ≠ 0) (h : Dechunk n s doc) : ∃ d rest doc', d.length = n ∧
    s = d ++ 0x0D :: 0x0A :: rest ∧ doc = d ++ doc' ∧ Dechunk 0 rest doc' := by
  cases h with
  | last => exact absurd rfl hn
  | size => exact absurd rfl hn
  | @data rest d doc hd hrest => exact ⟨d, rest, doc, rfl, rfl, rfl, hrest⟩

theorem size_iff (hcut : cutLine s = some (line, rest)) (hsize : chunkSize line = some n)
    (hn : n ≠ 0) : Dechunk 0 s doc ↔ Dechunk n rest doc := by
  refine ⟨fun h ↦ ?_, .size hcut hsize hn⟩
  obtain ⟨line', rest', n', hcut', hsize', hor⟩ := h.inv_zero
  obtain ⟨rfl, rfl⟩ := Prod.mk.inj (Option.some.inj (hcut.symm.trans hcut'))
  obtain rfl := Option.some.inj (hsize.symm.trans hsize')
  exact (hor.resolve_left fun h ↦ hn h.1).2

theorem data_iff (hd : d ≠ []) : Dechunk d.length (d ++ 0x0D :: 0x0A :: rest) doc ↔
    ∃ doc', doc = d ++ doc' ∧ Dechunk 0 rest doc' := by
  constructor
  · intro h
    obtain ⟨e, rest', doc', hlen, heq, rfl, hrest⟩ :=
      h.inv_pos (Nat.ne_of_gt (List.length_pos_iff.mpr hd))
    obtain ⟨rfl, htail⟩ := List.append_inj heq hlen.symm
    obtain rfl : rest = rest' := by simpa using htail
    exact ⟨doc', rfl, hrest⟩
  · rintro ⟨doc', rfl, h⟩
    exact .data hd h

/-- A part of a chunk in front of the rest of it. -/
theorem append_iff (hn : n ≠ 0) : Dechunk (d.length + n) (d ++ s) doc ↔
    ∃ doc', doc = d ++ doc' ∧ Dechunk n s doc' := by
  constructor
  · intro h
    obtain ⟨e, rest, doc', hlen, heq, rfl, hrest⟩ := h.inv_pos (by omega)
    rcases List.append_eq_append_iff.mp heq with ⟨e', rfl, rfl⟩ | ⟨e', rfl, -⟩
    · have hlen' : e'.length = n := by
        rw [List.length_append] at hlen
        omega
      refine ⟨e' ++ doc', List.append_assoc _ _ _, ?_⟩
      rw [← hlen']
      refine .data ?_ hrest
      rintro rfl
      exact hn hlen'.symm
    · rw [List.length_append] at hlen
      omega
  · rintro ⟨doc', rfl, h⟩
    obtain ⟨e, rest, doc'', rfl, rfl, rfl, hrest⟩ := h.inv_pos hn
    rw [← List.append_assoc, ← List.append_assoc, ← List.length_append]
    refine .data (fun hnil ↦ hn ?_) hrest
    rw [(List.append_eq_nil_iff.mp hnil).2]
    rfl

end Dechunk

end Lib
