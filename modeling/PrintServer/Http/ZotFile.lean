import Mathlib.Data.List.TakeWhile

/-!
# The input of a connection

`zot_recv` and `zot_fgets` of httpd.c over the buffer of a `ZOT_FILE`.  What `recv` returns is a
list: when it is used up, the thread waits.  The memory behind the buffer and the old contents of
the caller's array are there to be read, as in the code.
-/

namespace PrintServer.Http

def ibufSize : Nat := 1460

/-- The bytes that one `recv` of up to 1460 returned. -/
structure Piece where
  bytes : List UInt8
  nonempty : bytes ≠ []
  le : bytes.length ≤ ibufSize
deriving DecidableEq

inductive Recv
  | piece (p : Piece)
  -- `recv` returned 0
  | closed
  -- `recv` returned -1
  | failed
deriving DecidableEq

def Recv.isPiece : Recv → Bool
  | .piece _ => true
  | _ => false

def Recv.bytes : Recv → List UInt8
  | .piece p => p.bytes
  | _ => []

/-- `pos` is `ibuf - ibuf_temp`. -/
structure ZotFile where
  ibufTemp : List UInt8
  behind : Nat → UInt8
  pos : Nat
  ibufCnt : Int

namespace ZotFile

def byte (f : ZotFile) (i : Nat) : UInt8 := (f.ibufTemp[i]?).getD (f.behind i)

/-- The next `n` bytes. -/
def peek (f : ZotFile) (n : Nat) : List UInt8 := (List.range n).map fun i ↦ f.byte (f.pos + i)

/-- What was received and not read. -/
def buffered (f : ZotFile) : List UInt8 := f.peek f.ibufCnt.toNat

def advance (f : ZotFile) : ZotFile := { f with pos := f.pos + 1, ibufCnt := f.ibufCnt - 1 }

/-- `memset` and `recv`; an error leaves its result as the count. -/
def fill (f : ZotFile) : Recv → ZotFile
  | .piece p =>
      { f with
        ibufTemp := p.bytes ++ List.replicate (ibufSize - p.bytes.length) 0
        pos := 0
        ibufCnt := p.bytes.length }
  | .closed => { f with ibufTemp := List.replicate ibufSize 0, pos := 0, ibufCnt := 0 }
  | .failed => { f with ibufTemp := List.replicate ibufSize 0, pos := 0, ibufCnt := -1 }

end ZotFile

/-- `zot_fopen`. -/
def zotFopen (behind : Nat → UInt8) : ZotFile :=
  { ibufTemp := List.replicate ibufSize 0, behind := behind, pos := 0, ibufCnt := 0 }

/-- The first lines of `zot_recv` and `zot_fgets`: whether there is something to read. -/
def refill (f : ZotFile) (rs : List Recv) : Option (Bool × ZotFile × List Recv) :=
  if f.ibufCnt = 0 then
    match rs with
    | [] => none
    | r :: rs => some (r.isPiece, f.fill r, rs)
  else some (true, f, rs)

/-- The result of `zot_recv` and the bytes it copied.  With a negative count the result is
negative; what `memcpy` then does is not followed. -/
def zotRecv (f : ZotFile) (len : Int) (rs : List Recv) :
    Option ((Int × List UInt8) × ZotFile × List Recv) :=
  match refill f rs with
  | none => none
  | some (false, f, rs) => some ((-1, []), f, rs)
  | some (true, f, rs) =>
      let n := min len f.ibufCnt
      some ((n, f.peek n.toNat),
        { f with pos := (f.pos + n).toNat, ibufCnt := f.ibufCnt - n }, rs)

/-- The loop of `zot_fgets` from index `i` of an array that holds `old`: what it stores. -/
def fgetsLoop (old : Nat → UInt8) : Nat → Nat → ZotFile → List UInt8 × ZotFile
  | 0, _, f => ([], f)
  | n + 1, i, f =>
      -- a CR is dropped together with the byte behind it, which is stored only if it is a LF
      let cr := f.byte f.pos = 0x0D
      let c :=
        if cr then if f.advance.byte f.advance.pos = 0x0A then 0x0A else old i
        else f.byte f.pos
      let f := if cr then f.advance.advance else f.advance
      if c = 0x0A ∨ f.ibufCnt = 0 then ([c], f)
      else
        let r := fgetsLoop old n (i + 1) f
        (c :: r.1, r.2)

/-- `zot_fgets` with room for `len` bytes; the outer `none` waits, the inner one is NULL. -/
def zotFgets (old : Nat → UInt8) (len : Nat) (f : ZotFile) (rs : List Recv) :
    Option (Option (List UInt8) × ZotFile × List Recv) :=
  match refill f rs with
  | none => none
  | some (false, f, rs) => some (none, f, rs)
  | some (true, f, rs) =>
      let r := fgetsLoop old (len - 1) 0 f
      some (some r.1, r.2, rs)

/-- The bytes that the connection delivers before it fails. -/
def arriving (rs : List Recv) : List UInt8 := (rs.takeWhile Recv.isPiece).flatMap Recv.bytes

def received (f : ZotFile) (rs : List Recv) : List UInt8 := f.buffered ++ arriving rs

/-! ## Reading what is buffered -/

namespace ZotFile

variable {f : ZotFile} {n : Nat} {c : UInt8} {s t : List UInt8}

@[simp] theorem length_peek (f : ZotFile) (n : Nat) : (f.peek n).length = n := by simp [peek]

theorem peek_succ (f : ZotFile) (n : Nat) :
    f.peek (n + 1) = f.byte f.pos :: f.advance.peek n := by
  unfold peek
  rw [List.range_succ_eq_map, List.map_cons, List.map_map]
  congr 1
  refine List.map_congr_left fun i _ ↦ ?_
  show f.byte (f.pos + (i + 1)) = f.byte (f.pos + 1 + i)
  rw [Nat.add_assoc, Nat.add_comm 1 i]

theorem length_buffered (f : ZotFile) : f.buffered.length = f.ibufCnt.toNat :=
  f.length_peek _

theorem buffered_eq_nil (h : f.ibufCnt = 0) : f.buffered = [] := by
  unfold buffered
  rw [h]
  rfl

theorem buffered_fill (f : ZotFile) (p : Piece) : (f.fill (.piece p)).buffered = p.bytes := by
  refine List.ext_getElem (by simp [length_buffered, fill]) fun i h₁ h₂ ↦ ?_
  have hi : i < p.bytes.length := h₂
  simp [buffered, peek, fill, byte, List.getElem?_append_left, hi]

/-- The first buffered byte is the next one, and reading it leaves the others. -/
theorem of_buffered_cons (h : f.buffered = c :: s) :
    f.byte f.pos = c ∧ f.advance.buffered = s ∧ f.ibufCnt = s.length + 1 := by
  have hlen := f.length_buffered
  rw [h, List.length_cons] at hlen
  have hcnt : f.ibufCnt = s.length + 1 := by omega
  have hpeek : f.peek (s.length + 1) = c :: s := by
    rw [← h, buffered, ← hlen]
  rw [peek_succ] at hpeek
  obtain ⟨hc, hs⟩ := List.cons.inj hpeek
  refine ⟨hc, ?_, hcnt⟩
  have hadv : f.advance.ibufCnt.toNat = s.length := by
    show (f.ibufCnt - 1).toNat = s.length
    omega
  rw [buffered, hadv]
  exact hs

end ZotFile

variable {f f' : ZotFile} {rs rs' : List Recv} {old : Nat → UInt8} {line rest : List UInt8}

theorem arriving_cons_piece (p : Piece) (rs : List Recv) :
    arriving (.piece p :: rs) = p.bytes ++ arriving rs := rfl

/-- A whole line in the buffer is read as one line. -/
theorem fgetsLoop_line (old : Nat → UInt8) (i : Nat) {n : Nat} (hb : f.buffered = line ++ 0x0D :: 0x0A :: rest)
    (hline : ∀ c ∈ line, c ≠ 0x0D ∧ c ≠ 0x0A) (hn : line.length < n) :
    ∃ f', fgetsLoop old n i f = (line ++ [0x0A], f') ∧ f'.buffered = rest ∧
      f'.ibufCnt = rest.length := by
  induction line generalizing f n i with
  | nil =>
      obtain ⟨hcr, hb', -⟩ := ZotFile.of_buffered_cons hb
      obtain ⟨hlf, hb'', hcnt⟩ := ZotFile.of_buffered_cons hb'
      cases n with
      | zero => cases hn
      | succ n =>
          refine ⟨f.advance.advance, ?_, hb'', ?_⟩
          · simp [fgetsLoop, hcr, hlf]
          · show f.advance.ibufCnt - 1 = _
            omega
  | cons c line ih =>
      rw [List.cons_append] at hb
      obtain ⟨hc, hb', hcnt⟩ := ZotFile.of_buffered_cons hb
      obtain ⟨⟨hcr, hlf⟩, hline'⟩ := List.forall_mem_cons.mp hline
      cases n with
      | zero => cases hn
      | succ n =>
          obtain ⟨f', hread, hrest⟩ :=
            ih (i + 1) hb' hline' (Nat.lt_of_succ_lt_succ hn)
          have hmore : f.advance.ibufCnt ≠ 0 := by
            show f.ibufCnt - 1 ≠ 0
            simp only [List.length_append, List.length_cons] at hcnt
            omega
          refine ⟨f', ?_, hrest⟩
          simp [fgetsLoop, hc, hcr, hlf, hmore, hread]

/-- What a reader does that takes the bytes `d`: they were the next ones, and it has not used up
a failure of the connection. -/
structure Reads (f : ZotFile) (rs : List Recv) (d : List UInt8) (f' : ZotFile)
    (rs' : List Recv) : Prop where
  bytes : received f rs = d ++ received f' rs'
  cnt : 0 ≤ f'.ibufCnt
  fails : (∃ r ∈ rs, r.isPiece = false) → ∃ r ∈ rs', r.isPiece = false

theorem Reads.trans {f'' : ZotFile} {rs'' : List Recv} {d d' : List UInt8}
    (h : Reads f rs d f' rs') (h' : Reads f' rs' d' f'' rs'') : Reads f rs (d ++ d') f'' rs'' where
  bytes := by rw [h.bytes, h'.bytes, List.append_assoc]
  cnt := h'.cnt
  fails := h'.fails ∘ h.fails

theorem Reads.shrinks {d : List UInt8} (h : Reads f rs d f' rs') (hd : d ≠ []) :
    (received f' rs').length < (received f rs).length := by
  have hpos := List.length_pos_iff.mpr hd
  rw [h.bytes, List.length_append]
  omega

/-- Where the bytes `s` that a reader finds come from. -/
inductive Found (s : List UInt8) : List UInt8 → List Recv → List Recv → Prop
  | buffer {rs : List Recv} : Found s s rs rs
  | piece {p : Piece} {rs : List Recv} (h : p.bytes = s) : Found s [] (.piece p :: rs) rs

theorem refill_eq_none (h : refill f rs = none) : rs = [] := by
  unfold refill at h
  split at h
  · cases rs with
    | nil => rfl
    | cons r rs => cases h
  · cases h

theorem refill_eq_true (h : refill f rs = some (true, f', rs')) (hcnt : 0 < f'.ibufCnt) :
    Reads f rs [] f' rs' ∧ Found f'.buffered f.buffered rs rs' ∧ f'.buffered ≠ [] := by
  have hlen := f'.length_buffered
  have hne : f'.buffered ≠ [] := by
    intro hnil
    rw [hnil, List.length_nil] at hlen
    omega
  unfold refill at h
  split at h
  · rename_i hzero
    have hnil := ZotFile.buffered_eq_nil hzero
    cases rs with
    | nil => cases h
    | cons r rs =>
        obtain ⟨hr, rfl, rfl⟩ : r.isPiece = true ∧ f.fill r = f' ∧ rs = rs' := by simpa using h
        cases r with
        | piece p =>
            have hp := f.buffered_fill p
            refine ⟨⟨?_, Int.le_of_lt hcnt, ?_⟩, ?_, hne⟩
            · rw [received, received, hnil, hp]
              rfl
            · rintro ⟨r, hmem, hfail⟩
              rcases List.mem_cons.mp hmem with rfl | hmem
              · cases hfail
              · exact ⟨r, hmem, hfail⟩
            · rw [hnil]
              exact .piece hp.symm
        | closed | failed => cases hr
  · obtain ⟨rfl, rfl⟩ : f = f' ∧ rs = rs' := by simpa using h
    exact ⟨⟨rfl, Int.le_of_lt hcnt, id⟩, .buffer, hne⟩

theorem refill_cnt (hcnt : 0 ≤ f.ibufCnt) (h : refill f rs = some (true, f', rs')) :
    0 < f'.ibufCnt := by
  unfold refill at h
  split at h
  · cases rs with
    | nil => cases h
    | cons r rs =>
        obtain ⟨hr, rfl, -⟩ : r.isPiece = true ∧ f.fill r = f' ∧ rs = rs' := by simpa using h
        cases r with
        | piece p =>
            have hp := List.length_pos_iff.mpr p.nonempty
            show (0 : Int) < p.bytes.length
            omega
        | closed | failed => cases hr
  · obtain ⟨rfl, -⟩ : f = f' ∧ rs = rs' := by simpa using h
    omega

/-- A read that fails finds nothing in the buffer and a failure as the next result. -/
theorem refill_eq_false (h : refill f rs = some (false, f', rs')) :
    f.buffered = [] ∧ ∃ r, r.isPiece = false ∧ rs = r :: rs' := by
  unfold refill at h
  split at h
  · rename_i hzero
    refine ⟨ZotFile.buffered_eq_nil hzero, ?_⟩
    cases rs with
    | nil => cases h
    | cons r rs =>
        obtain ⟨hr, -, rfl⟩ : r.isPiece = false ∧ f.fill r = f' ∧ rs = rs' := by simpa using h
        exact ⟨r, hr, rfl⟩
  · simp at h

/-- A read of the next bytes of the buffer. -/
theorem ZotFile.buffered_drop (f : ZotFile) (n : Nat) (hn : (n : Int) ≤ f.ibufCnt) :
    f.buffered = f.peek n ++
      ({ f with pos := f.pos + n, ibufCnt := f.ibufCnt - n } : ZotFile).buffered := by
  obtain ⟨m, hm⟩ : ∃ m : Nat, f.ibufCnt = n + m := ⟨(f.ibufCnt - n).toNat, by omega⟩
  have hsplit : List.range (n + m) = List.range n ++ (List.range m).map (n + ·) :=
    List.range_add
  have hcnt : f.ibufCnt.toNat = n + m := by omega
  have hrest : (f.ibufCnt - n).toNat = m := by omega
  unfold buffered peek
  rw [hcnt, hrest, hsplit, List.map_append, List.map_map]
  congr 1
  refine List.map_congr_left fun i _ ↦ ?_
  show f.byte (f.pos + (n + i)) = f.byte (f.pos + n + i)
  rw [Nat.add_assoc]

/-- What `zot_recv` copied were the next bytes. -/
theorem zotRecv_pos {len n : Int} {data : List UInt8} (hn : 0 < n)
    (h : zotRecv f len rs = some ((n, data), f', rs')) :
    data.length = n.toNat ∧ n ≤ len ∧ Reads f rs data f' rs' ∧
      Found (data ++ f'.buffered) f.buffered rs rs' := by
  unfold zotRecv at h
  split at h
  · cases h
  · obtain ⟨⟨rfl, -⟩, -⟩ : (-1 = n ∧ [] = data) ∧ _ := by simpa using h
    omega
  · rename_i g rs₁ hfill
    obtain ⟨⟨rfl, rfl⟩, rfl, rfl⟩ :
        (min len g.ibufCnt = n ∧ g.peek (min len g.ibufCnt).toNat = data) ∧
          ({ g with
            pos := (g.pos + min len g.ibufCnt).toNat
            ibufCnt := g.ibufCnt - min len g.ibufCnt } : ZotFile) = f' ∧ rs₁ = rs' := by
      simpa using h
    obtain ⟨k, hk⟩ : ∃ k : Nat, min len g.ibufCnt = k := ⟨(min len g.ibufCnt).toNat, by omega⟩
    obtain ⟨hreads, hfound, -⟩ := refill_eq_true hfill (by omega)
    have hbuf := g.buffered_drop k (by omega)
    rw [hk]
    have hpos : ((g.pos : Int) + (k : Int)).toNat = g.pos + k := by omega
    rw [hpos, Int.toNat_natCast]
    refine ⟨g.length_peek k, by omega, ⟨?_, ?_, hreads.fails⟩, ?_⟩
    · rw [hreads.bytes, List.nil_append, received, received, hbuf, List.append_assoc]
    · show 0 ≤ g.ibufCnt - k
      omega
    · rw [← hbuf]
      exact hfound

theorem zotRecv_eq_none {len : Int} (h : zotRecv f len rs = none) : rs = [] := by
  unfold zotRecv at h
  split at h
  · exact refill_eq_none ‹_›
  · cases h
  · cases h

theorem zotFgets_eq_none {len : Nat} (h : zotFgets old len f rs = none) : rs = [] := by
  unfold zotFgets at h
  split at h
  · exact refill_eq_none ‹_›
  · cases h
  · cases h

/-! ## When nothing arrives -/

theorem refill_waits (h : refill f rs = none) : received f rs = [] := by
  unfold refill at h
  split at h
  · rename_i hzero
    split at h
    · rw [received, ZotFile.buffered_eq_nil hzero]
      rfl
    · cases h
  · cases h

theorem zotFgets_waits {len : Nat} (h : zotFgets old len f rs = none) : received f rs = [] := by
  unfold zotFgets at h
  split at h
  · exact refill_waits ‹_›
  · cases h
  · cases h

theorem zotRecv_waits {len : Int} (h : zotRecv f len rs = none) : received f rs = [] := by
  unfold zotRecv at h
  split at h
  · exact refill_waits ‹_›
  · cases h
  · cases h

theorem refill_failed (h : refill f rs = some (false, f', rs')) :
    received f rs = [] := by
  obtain ⟨hnil, r, hr, rfl⟩ := refill_eq_false h
  rw [received, hnil, arriving, List.takeWhile_cons_of_neg (by rw [hr]; exact Bool.false_ne_true)]
  rfl

end PrintServer.Http
