import PrintServer.Http.ZotFile

/-!
# Lines and the pieces they arrive in

Repeated calls of `zot_fgets` on a connection, against the lines of the byte stream.  `zot_fgets`
asks `recv` for more only when it is entered, so a line comes out whole if one piece holds all of
it.
-/

namespace PrintServer.Http

/-- Each CR is followed by LF. -/
def crLf : List UInt8 → Bool
  | [] => true
  | [c] => c ≠ 0x0D
  | c :: d :: s => (c ≠ 0x0D ∨ d = 0x0A) && crLf (d :: s)

/-- The first line of a stream, of at most `n` characters, with CR LF as one LF. -/
def lineText : Nat → List UInt8 → List UInt8
  | 0, _ | _ + 1, [] => []
  | n + 1, c :: s => if c = 0x0D ∨ c = 0x0A then [0x0A] else c :: lineText n s

/-- The bytes that this line takes up in the stream. -/
def lineLength : Nat → List UInt8 → Nat
  | 0, _ | _ + 1, [] => 0
  | n + 1, c :: s => if c = 0x0D then 2 else if c = 0x0A then 1 else lineLength n s + 1

/-- What callers with room for `lens` bytes read, until the stream ends. -/
def lines : List Nat → List UInt8 → List (List UInt8)
  | [], _ | _, [] => []
  | len :: lens, c :: s =>
      lineText (len - 1) (c :: s) :: lines lens ((c :: s).drop (lineLength (len - 1) (c :: s)))

/-- A call of `zot_fgets`: the room in the array, and what the array holds. -/
structure FgetsCall where
  len : Nat
  old : Nat → UInt8

/-- The strings that repeated calls return, until one waits. -/
def fgetsAll : List FgetsCall → ZotFile → List Recv → List (Option (List UInt8))
  | [], _, _ => []
  | c :: cs, f, rs =>
      match zotFgets c.old c.len f rs with
      | none => []
      | some (r, f, rs) => r :: fgetsAll cs f rs

/-- What the next call reads from: the rest of a piece, or the next one. -/
def nextPiece : List UInt8 → List Piece → List UInt8 × List Piece
  | [], p :: ps => (p.bytes, ps)
  | b, ps => (b, ps)

def stream (b : List UInt8) (ps : List Piece) : List UInt8 := b ++ ps.flatMap Piece.bytes

/-- Where the next line ends, counted from the next byte of the piece. -/
def lineEnd (len : Nat) (q : List UInt8 × List Piece) : Nat :=
  lineLength (len - 1) (stream q.1 q.2)

/-- Every line, as split by the length limits of the callers, lies in one piece. -/
def LinesWhole : List Nat → List UInt8 → List Piece → Prop
  | [], _, _ => True
  | len :: lens, b, ps =>
      lineEnd len (nextPiece b ps) ≤ (nextPiece b ps).1.length ∧
        LinesWhole lens ((nextPiece b ps).1.drop (lineEnd len (nextPiece b ps))) (nextPiece b ps).2

instance decidableLinesWhole : ∀ lens b ps, Decidable (LinesWhole lens b ps)
  | [], _, _ => isTrue trivial
  | len :: lens, b, ps =>
      have := decidableLinesWhole lens
        ((nextPiece b ps).1.drop (lineEnd len (nextPiece b ps))) (nextPiece b ps).2
      inferInstanceAs (Decidable (_ ∧ _))

variable {f f' : ZotFile} {rs : List Recv} {b rest s : List UInt8} {ps : List Piece} {n i : Nat}

/-! ## Lines of a stream -/

theorem crLf_cons {c : UInt8} (h : crLf (c :: s)) : crLf s ∧ (c = 0x0D → ∃ t, s = 0x0A :: t) := by
  cases s with
  | nil => exact ⟨rfl, fun hc ↦ absurd hc (by simpa [crLf] using h)⟩
  | cons d t =>
      obtain ⟨hcd, hs⟩ : (c ≠ 0x0D ∨ d = 0x0A) ∧ crLf (d :: t) := by simpa [crLf] using h
      exact ⟨hs, fun hc ↦ ⟨t, by rw [hcd.resolve_left (not_not.mpr hc)]⟩⟩

theorem crLf_drop (h : crLf s) (k : Nat) : crLf (s.drop k) := by
  induction k generalizing s with
  | zero => exact h
  | succ k ih =>
      cases s with
      | nil => rfl
      | cons c s => exact ih (crLf_cons h).1

/-- The bytes of a line: its CR, if it has one, is followed by LF. -/
theorem crLf_line (h : crLf s) (n : Nat) : crLf (s.take (lineLength n s)) := by
  induction n generalizing s with
  | zero => rfl
  | succ n ih =>
      cases s with
      | nil => rfl
      | cons c s =>
          obtain ⟨hs, hlf⟩ := crLf_cons h
          unfold lineLength
          split
          · rename_i hcr
            obtain ⟨t, rfl⟩ := hlf hcr
            simp [crLf, hcr]
          · split
            · rename_i hlf
              simp [crLf, hlf]
            · rename_i hcr _
              rw [List.take_succ_cons]
              have htail := ih hs
              cases hrest : s.take (lineLength n s) with
              | nil => simp [crLf, hcr]
              | cons d t =>
                  rw [hrest] at htail
                  simp [crLf, hcr, htail]

theorem lineText_eq_nil_iff : lineText n s = [] ↔ lineLength n s = 0 := by
  cases n with
  | zero => simp [lineText, lineLength]
  | succ n =>
      cases s with
      | nil => simp [lineText, lineLength]
      | cons c s =>
          unfold lineText lineLength
          split <;> split <;> simp_all

/-! ## One call -/

/-- What is in the buffer of a connection, and what will arrive. -/
structure Holds (f : ZotFile) (rs : List Recv) (b : List UInt8) (ps : List Piece) : Prop where
  buffered : f.buffered = b
  cnt : f.ibufCnt = b.length
  later : rs = ps.map .piece

/-- The file after `k` bytes. -/
def ZotFile.skip (f : ZotFile) (k : Nat) : ZotFile :=
  { f with pos := f.pos + k, ibufCnt := f.ibufCnt - k }

theorem Holds.skip (h : Holds f rs b ps) {k : Nat} (hk : k ≤ b.length) :
    Holds (f.skip k) rs (b.drop k) ps where
  buffered := by
    have hdrop := f.buffered_drop k (by rw [h.cnt]; omega)
    rw [h.buffered] at hdrop
    rw [hdrop, List.drop_left' (f.length_peek k)]
    rfl
  cnt := by
    change f.ibufCnt - k = _
    rw [h.cnt, List.length_drop]
    omega
  later := h.later

theorem ZotFile.skip_zero (f : ZotFile) : f.skip 0 = f := by
  simp [ZotFile.skip]

theorem ZotFile.skip_advance (f : ZotFile) (k : Nat) : f.advance.skip k = f.skip (k + 1) := by
  unfold ZotFile.skip ZotFile.advance
  congr 1 <;> push_cast <;> omega

/-- A line that the buffer holds comes out whole. -/
theorem fgetsLoop_whole (old : Nat → UInt8) (hb : f.buffered = b) (hne : b ≠ [])
    (hcr : crLf ((b ++ rest).take (lineLength n (b ++ rest))))
    (hk : lineLength n (b ++ rest) ≤ b.length) :
    fgetsLoop old n i f = (lineText n (b ++ rest), f.skip (lineLength n (b ++ rest))) := by
  induction n generalizing f b i with
  | zero =>
      simp [fgetsLoop, lineText, lineLength, ZotFile.skip]
  | succ n ih =>
      obtain ⟨c, b, rfl⟩ := List.exists_cons_of_ne_nil hne
      obtain ⟨hc, hb', hcnt⟩ := ZotFile.of_buffered_cons hb
      rw [List.cons_append] at hk hcr ⊢
      unfold lineText lineLength
      unfold lineLength at hk hcr
      by_cases hcrc : c = 0x0D
      · -- CR and LF are both in the buffer
        simp only [hcrc, if_true, true_or] at hk hcr ⊢
        cases b with
        | nil => exact absurd hk (by simp)
        | cons d b =>
            obtain ⟨hd, -, -⟩ := ZotFile.of_buffered_cons hb'
            obtain ⟨rfl, -⟩ : d = 0x0A ∧ d ≠ 0x0D := by simpa [crLf] using hcr
            rw [hcrc] at hc
            simp [fgetsLoop, hc, hd, ← ZotFile.skip_advance, ZotFile.skip_zero]
      · by_cases hlfc : c = 0x0A
        · rw [hlfc] at hc
          simp [fgetsLoop, hc, hlfc, ← ZotFile.skip_advance, ZotFile.skip_zero]
        · simp only [hcrc, hlfc, or_self, if_false] at hk hcr ⊢
          rw [List.take_succ_cons] at hcr
          cases b with
          | nil =>
              -- the line ends with the piece, at the length limit
              have hzero : lineLength n rest = 0 := by simpa using hk
              have hcnt' : f.advance.ibufCnt = 0 := by
                change f.ibufCnt - 1 = 0
                rw [hcnt]
                rfl
              simp only [List.nil_append, hzero, lineText_eq_nil_iff.mpr hzero]
              simp [fgetsLoop, hc, hcrc, hlfc, hcnt', ← ZotFile.skip_advance, ZotFile.skip_zero]
          | cons d b =>
              have hmore : f.advance.ibufCnt ≠ 0 := by
                change f.ibufCnt - 1 ≠ 0
                rw [hcnt, List.length_cons]
                omega
              have hread := ih (i := i + 1) hb' (List.cons_ne_nil d b)
                (crLf_cons hcr).1 (by simpa using hk)
              rw [← ZotFile.skip_advance]
              simp [fgetsLoop, hc, hcrc, hlfc, hmore, hread]

/-- A line that goes on behind the buffer does not come out, if the memory there is zero. -/
theorem fgetsLoop_cut (hb : f.buffered = b) (hne : b ≠ []) (hcr : crLf (b ++ rest))
    (hzero : ∀ j, f.pos + b.length ≤ j → f.byte j = 0) (hk : b.length < lineLength n (b ++ rest)) :
    (fgetsLoop (fun _ ↦ 0) n i f).1 ≠ lineText n (b ++ rest) := by
  induction n generalizing f b i with
  | zero => exact absurd hk (by simp [lineLength])
  | succ n ih =>
      obtain ⟨c, b, rfl⟩ := List.exists_cons_of_ne_nil hne
      obtain ⟨hc, hb', hcnt⟩ := ZotFile.of_buffered_cons hb
      obtain ⟨hcr', hlf⟩ := crLf_cons hcr
      rw [List.cons_append] at hk ⊢
      unfold lineText
      unfold lineLength at hk
      by_cases hcrc : c = 0x0D
      · -- the piece ends between CR and LF, and a zero is stored
        simp only [hcrc, if_true, true_or] at hk ⊢
        have hnil : b = [] := by
          rw [List.length_cons] at hk
          exact List.eq_nil_of_length_eq_zero (by omega)
        subst hnil
        have hnext : f.advance.byte f.advance.pos = 0 := hzero (f.pos + 1) (by simp)
        rw [hcrc] at hc
        have hstored : ∃ l, (fgetsLoop (fun _ ↦ 0) (n + 1) i f).1 = 0 :: l := by
          unfold fgetsLoop
          simp only [hc, if_true, hnext, (by decide : ¬ (0 : UInt8) = 0x0A), if_false, false_or]
          split
          · exact ⟨[], rfl⟩
          · exact ⟨_, rfl⟩
        obtain ⟨l, hl⟩ := hstored
        rw [hl]
        intro h
        exact absurd (List.cons.inj h).1 (by decide)
      · by_cases hlfc : c = 0x0A
        · rw [if_neg hcrc, if_pos hlfc, List.length_cons] at hk
          omega
        · simp only [hcrc, hlfc, or_self, if_false] at hk ⊢
          cases b with
          | nil =>
              have hrest : lineText n ([] ++ rest) ≠ [] := by
                rw [Ne, lineText_eq_nil_iff]
                simp only [List.length_cons, List.length_nil] at hk
                omega
              have hcnt' : f.advance.ibufCnt = 0 := by
                change f.ibufCnt - 1 = 0
                rw [hcnt]
                rfl
              intro h
              apply hrest
              simpa [fgetsLoop, hc, hcrc, hlfc, hcnt'] using h.symm
          | cons d b =>
              have hmore : f.advance.ibufCnt ≠ 0 := by
                change f.ibufCnt - 1 ≠ 0
                rw [hcnt, List.length_cons]
                omega
              have hcut := ih (i := i + 1) hb' (List.cons_ne_nil d b) hcr'
                (fun j hj ↦ hzero j (by
                  change f.pos + 1 + _ ≤ j at hj
                  rw [List.length_cons]
                  omega))
                (by simpa using hk)
              intro h
              apply hcut
              simpa [fgetsLoop, hc, hcrc, hlfc, hmore] using h

theorem refill_pieces (h : Holds f rs b ps) :
    (b = [] ∧ ps = [] ∧ refill f rs = none) ∨
      ∃ f' rs', refill f rs = some (true, f', rs') ∧
        Holds f' rs' (nextPiece b ps).1 (nextPiece b ps).2 ∧ (nextPiece b ps).1 ≠ [] := by
  obtain ⟨hb, hcnt, rfl⟩ := h
  unfold refill
  cases b with
  | nil =>
      have hzero : f.ibufCnt = 0 := hcnt
      rw [if_pos hzero]
      cases ps with
      | nil => exact .inl ⟨rfl, rfl, rfl⟩
      | cons p ps =>
          exact .inr ⟨_, _, rfl, ⟨f.buffered_fill p, rfl, rfl⟩, p.nonempty⟩
  | cons c b =>
      rw [if_neg (by rw [hcnt, List.length_cons]; omega)]
      exact .inr ⟨_, _, rfl, ⟨hb, hcnt, rfl⟩, List.cons_ne_nil c b⟩

theorem stream_nextPiece (b : List UInt8) (ps : List Piece) :
    stream (nextPiece b ps).1 (nextPiece b ps).2 = stream b ps := by
  cases b with
  | nil =>
      cases ps with
      | nil => rfl
      | cons p ps => rfl
  | cons c b => rfl

theorem stream_drop (ps : List Piece) {k : Nat} (hk : k ≤ b.length) :
    stream (b.drop k) ps = (stream b ps).drop k :=
  (List.drop_append_of_le_length hk).symm

theorem LinesWhole.of_append {lens lens' : List Nat} (h : LinesWhole (lens ++ lens') b ps) :
    LinesWhole lens b ps := by
  induction lens generalizing b ps with
  | nil => trivial
  | cons len lens ih => exact ⟨h.1, ih h.2⟩

/-- The first of the lines that the calls read. -/
theorem lines_cons (len : Nat) (lens : List Nat) (hs : s ≠ []) :
    lines (len :: lens) s =
      lineText (len - 1) s :: lines lens (s.drop (lineLength (len - 1) s)) := by
  obtain ⟨c, s, rfl⟩ := List.exists_cons_of_ne_nil hs
  rfl

theorem lineEnd_nextPiece (len : Nat) :
    lineEnd len (nextPiece b ps) = lineLength (len - 1) (stream b ps) := by
  rw [lineEnd, stream_nextPiece]

/-- One call that finds `b` in the buffer, and in it the whole line. -/
theorem zotFgets_whole {rs' : List Recv} (c : FgetsCall) (ps : List Piece)
    (hfill : refill f rs = some (true, f', rs'))
    (hb : f'.buffered = b) (hne : b ≠ [])
    (hcr : crLf ((stream b ps).take (lineEnd c.len (b, ps))))
    (hk : lineEnd c.len (b, ps) ≤ b.length) :
    zotFgets c.old c.len f rs =
      some (some (lineText (c.len - 1) (stream b ps)), f'.skip (lineEnd c.len (b, ps)), rs') := by
  have hread := fgetsLoop_whole (i := 0) c.old hb hne hcr hk
  unfold zotFgets
  rw [hfill]
  dsimp only
  rw [stream, hread]
  rfl

/-! ## All calls -/

theorem linesWhole_nil (lens : List Nat) : LinesWhole lens [] [] := by
  induction lens with
  | nil => trivial
  | cons len lens ih =>
      have hzero : lineEnd len (nextPiece [] []) = 0 := lineText_eq_nil_iff.mp (by
        cases len - 1 <;> rfl)
      refine ⟨Nat.le_of_eq hzero, ?_⟩
      rw [hzero]
      exact ih

theorem fgetsAll_whole (calls : List FgetsCall) (hh : Holds f rs b ps) (hcr : crLf (stream b ps))
    (hwhole : LinesWhole (calls.map FgetsCall.len) b ps) :
    fgetsAll calls f rs = (lines (calls.map FgetsCall.len) (stream b ps)).map some := by
  induction calls generalizing f rs b ps with
  | nil => rfl
  | cons c calls ih =>
      obtain ⟨hk, hrest⟩ := hwhole
      rcases refill_pieces hh with ⟨rfl, rfl, hwait⟩ | ⟨f', rs', hfill, hh', hne'⟩
      · -- nothing is left, and the call waits
        unfold fgetsAll zotFgets
        rw [hwait]
        rfl
      · have hdrop := stream_drop (nextPiece b ps).2 hk
        rw [stream_nextPiece, lineEnd_nextPiece] at hdrop
        have hne : stream b ps ≠ [] := by
          rw [← stream_nextPiece]
          exact List.append_ne_nil_of_left_ne_nil hne' _
        have hcall := zotFgets_whole c (nextPiece b ps).2 hfill hh'.buffered hne'
          (crLf_line ((stream_nextPiece b ps).symm ▸ hcr) _) hk
        have htail := ih (hh'.skip hk)
          (by rw [lineEnd_nextPiece, hdrop]; exact crLf_drop hcr _) hrest
        rw [lineEnd_nextPiece, hdrop] at htail
        unfold fgetsAll
        rw [hcall]
        change _ :: fgetsAll calls (f'.skip (lineEnd c.len (nextPiece b ps))) rs' = _
        rw [lineEnd_nextPiece, htail, List.map_cons, lines_cons _ _ hne, List.map_cons,
          stream_nextPiece]

/-- The memory behind the bytes received is zero. -/
def ZotFile.ZeroBehind (f : ZotFile) : Prop := ∀ j, f.pos + f.buffered.length ≤ j → f.byte j = 0

theorem ZotFile.zeroBehind_fill (p : Piece) (hb : f.behind = fun _ ↦ 0) :
    (f.fill (.piece p)).ZeroBehind := by
  intro j hj
  rw [f.buffered_fill p] at hj
  have hle : p.bytes.length ≤ j := by
    change 0 + p.bytes.length ≤ j at hj
    omega
  change ((p.bytes ++ List.replicate (ibufSize - p.bytes.length) 0)[j]?).getD (f.behind j) = 0
  rw [List.getElem?_append_right hle, hb, List.getElem?_replicate]
  split <;> rfl

theorem ZotFile.ZeroBehind.skip (hz : f.ZeroBehind) (hh : Holds f rs b ps) {k : Nat}
    (hk : k ≤ b.length) : (f.skip k).ZeroBehind := by
  intro j hj
  refine hz j ?_
  rw [(hh.skip hk).buffered, List.length_drop] at hj
  change f.pos + k + _ ≤ j at hj
  rw [hh.buffered]
  omega

theorem refill_zeroBehind (hb : f.behind = fun _ ↦ 0) (hz : f.ibufCnt ≠ 0 → f.ZeroBehind)
    {rs' : List Recv} (h : refill f (ps.map .piece) = some (true, f', rs')) :
    f'.behind = (fun _ ↦ 0) ∧ f'.ZeroBehind := by
  unfold refill at h
  split at h
  · cases ps with
    | nil => cases h
    | cons p ps =>
        obtain ⟨-, rfl, -⟩ : _ ∧ f.fill (.piece p) = f' ∧ _ = rs' := by simpa using h
        exact ⟨hb, ZotFile.zeroBehind_fill p hb⟩
  · obtain ⟨rfl, -⟩ : f = f' ∧ _ = rs' := by simpa using h
    exact ⟨hb, hz ‹_›⟩

/-- Arrays and memory that are zero tell a cut line from a whole one. -/
theorem linesWhole_of_fgetsAll (lens : List Nat) (hh : Holds f rs b ps) (hcr : crLf (stream b ps))
    (hb : f.behind = fun _ ↦ 0) (hz : f.ibufCnt ≠ 0 → f.ZeroBehind)
    (heq : fgetsAll (lens.map fun len ↦ ⟨len, fun _ ↦ 0⟩) f rs =
      (lines lens (stream b ps)).map some) : LinesWhole lens b ps := by
  induction lens generalizing f rs b ps with
  | nil => trivial
  | cons len lens ih =>
      rcases refill_pieces hh with ⟨rfl, rfl, -⟩ | ⟨f', rs', hfill, hh', hne'⟩
      · exact linesWhole_nil _
      · have hfill' := hfill
        rw [hh.later] at hfill'
        obtain ⟨hb', hz'⟩ := refill_zeroBehind hb hz hfill'
        have hcr' : crLf (stream (nextPiece b ps).1 (nextPiece b ps).2) :=
          (stream_nextPiece b ps).symm ▸ hcr
        have hne : stream b ps ≠ [] := by
          rw [← stream_nextPiece]
          exact List.append_ne_nil_of_left_ne_nil hne' _
        rw [lines_cons _ _ hne, List.map_cons, List.map_cons] at heq
        unfold fgetsAll at heq
        by_cases hk : lineEnd len (nextPiece b ps) ≤ (nextPiece b ps).1.length
        · have hcall := zotFgets_whole ⟨len, fun _ ↦ 0⟩ (nextPiece b ps).2 hfill hh'.buffered hne'
            (crLf_line hcr' _) hk
          rw [hcall] at heq
          have hdrop := stream_drop (nextPiece b ps).2 hk
          rw [stream_nextPiece] at hdrop
          refine ⟨hk, ih (hh'.skip hk) (hdrop ▸ crLf_drop hcr _) hb' (fun _ ↦ hz'.skip hh' hk) ?_⟩
          have htail := (List.cons.inj heq).2
          rw [← lineEnd_nextPiece] at htail
          rw [hdrop]
          exact htail
        · -- the first string is not the line
          exfalso
          have hcut := fgetsLoop_cut (i := 0) hh'.buffered hne' hcr'
            (hh'.buffered ▸ hz') (Nat.lt_of_not_le hk)
          unfold zotFgets at heq
          rw [hfill] at heq
          have hhead := Option.some.inj (List.cons.inj heq).1
          rw [← stream_nextPiece] at hhead
          exact hcut hhead

theorem holds_zotFopen (behind : Nat → UInt8) (ps : List Piece) :
    Holds (zotFopen behind) (ps.map .piece) [] ps := ⟨rfl, rfl, rfl⟩

/-- The strings are the lines of the stream, whatever is in the arrays and in memory, if and only
if no piece ends inside a line. -/
theorem fgets_lines_iff (lens : List Nat) (ps : List Piece)
    (hcr : crLf (ps.flatMap Piece.bytes) = true) :
    (∀ (behind : Nat → UInt8) (calls : List FgetsCall), calls.map FgetsCall.len = lens →
      fgetsAll calls (zotFopen behind) (ps.map .piece) =
        (lines lens (ps.flatMap Piece.bytes)).map some) ↔ LinesWhole lens [] ps := by
  constructor
  · intro h
    refine linesWhole_of_fgetsAll lens (holds_zotFopen (fun _ ↦ 0) ps) hcr rfl
      (fun hne ↦ absurd rfl hne) (h _ _ ?_)
    rw [List.map_map]
    exact List.map_id lens
  · rintro hwhole behind calls rfl
    exact fgetsAll_whole calls (holds_zotFopen behind ps) hcr hwhole

/-- A header that is cut behind the CR LF of its lines. -/
def wholeHeader : List Piece :=
  [⟨[71, 13, 10, 72, 13, 10], by decide, by decide⟩, ⟨[13, 10], by decide, by decide⟩]

theorem fgets_lines_whole_header :
    fgetsAll (List.replicate 3 ⟨896, fun _ ↦ 0⟩) (zotFopen fun _ ↦ 0) (wholeHeader.map .piece) =
      [some [71, 10], some [72, 10], some [10]] :=
  (fgets_lines_iff [896, 896, 896] wholeHeader (by decide)).mpr (by decide) _ _ rfl

/-- The header line `Ho` is cut behind the `H`. -/
def cutHeader : List Piece :=
  [⟨[72], by decide, by decide⟩, ⟨[111, 13, 10, 13, 10], by decide, by decide⟩]

theorem cut_line_read_as_two :
    fgetsAll (List.replicate 3 ⟨896, fun _ ↦ 0⟩) (zotFopen fun _ ↦ 0) (cutHeader.map .piece) =
        [some [72], some [111, 10], some [10]] ∧
      lines [896, 896, 896] (cutHeader.flatMap Piece.bytes) = [[72, 111, 10], [10]] := by
  decide

/-- The piece ends between the CR and the LF: both are skipped, the string goes on with the
memory behind, and the byte count is negative from then on. -/
def cutCrLf : List Piece :=
  [⟨[72, 13], by decide, by decide⟩, ⟨[10, 13, 10], by decide, by decide⟩]

theorem cut_crLf_reads_memory :
    fgetsAll [⟨6, fun _ ↦ 0⟩] (zotFopen fun _ ↦ 0) (cutCrLf.map .piece) =
        [some [72, 0, 0, 0, 0]] ∧
      lines [6] (cutCrLf.flatMap Piece.bytes) = [[72, 10]] := by
  decide

end PrintServer.Http
