import PrintServer.Http.Head

/-!
# The read loop of an upload

What `readUpload` does with the bytes of a connection: whatever was announced, it hands on no more
than it received, and only its first call of `zot_recv` can have a negative length.
-/

namespace PrintServer.Http

variable {ε : Type} {env : HttpEnv ε} {f f' : ZotFile} {rs rs' : List Recv} {fuel : Nat}
  {b : List UInt8} {ps : List Piece}

/-! ## The bytes that are left -/

/-- The bytes in the buffer and in what `recv` will return. -/
def left (f : ZotFile) (rs : List Recv) : Nat :=
  f.ibufCnt.toNat + (rs.flatMap Recv.bytes).length

theorem refill_left {t : Bool} (h : refill f rs = some (t, f', rs')) : left f' rs' ≤ left f rs := by
  unfold refill at h
  split at h
  · cases rs with
    | nil => cases h
    | cons r rs =>
        obtain ⟨-, rfl, rfl⟩ : r.isPiece = t ∧ f.fill r = f' ∧ rs = rs' := by simpa using h
        have hfill : (f.fill r).ibufCnt.toNat ≤ r.bytes.length := by
          cases r with
          | piece p => exact Nat.le_refl _
          | closed | failed => exact Nat.zero_le _
        unfold left
        rw [List.flatMap_cons, List.length_append]
        omega
  · obtain ⟨-, rfl, rfl⟩ : true = t ∧ f = f' ∧ rs = rs' := by simpa using h
    exact Nat.le_refl _

theorem fgetsLoop_ibufCnt (old : Nat → UInt8) (n i : Nat) (f : ZotFile) :
    (fgetsLoop old n i f).2.ibufCnt ≤ f.ibufCnt := by
  induction n generalizing i f with
  | zero => exact Int.le_refl _
  | succ n ih =>
      have hone : f.advance.ibufCnt ≤ f.ibufCnt := Int.sub_le_self _ (by decide)
      have htwo : f.advance.advance.ibufCnt ≤ f.ibufCnt :=
        Int.le_trans (Int.sub_le_self _ (by decide)) hone
      unfold fgetsLoop
      by_cases hcr : f.byte f.pos = 0x0D
      · simp only [if_pos hcr]
        split
        · split
          · exact htwo
          · exact Int.le_trans (ih _ _) htwo
        · split
          · exact htwo
          · exact Int.le_trans (ih _ _) htwo
      · simp only [if_neg hcr]
        split
        · exact hone
        · exact Int.le_trans (ih _ _) hone

theorem zotFgets_left {old : Nat → UInt8} {len : Nat} {line : Option (List UInt8)}
    (h : zotFgets old len f rs = some (line, f', rs')) : left f' rs' ≤ left f rs := by
  unfold zotFgets at h
  split at h
  · cases h
  · rename_i hfill
    obtain ⟨-, rfl, rfl⟩ : none = line ∧ _ = f' ∧ _ = rs' := by simpa using h
    exact refill_left hfill
  · rename_i g rs₁ hfill
    obtain ⟨-, rfl, rfl⟩ : some (fgetsLoop old (len - 1) 0 g).1 = line ∧
        (fgetsLoop old (len - 1) 0 g).2 = f' ∧ rs₁ = rs' := by simpa using h
    refine Nat.le_trans ?_ (refill_left hfill)
    have hcnt := fgetsLoop_ibufCnt old (len - 1) 0 g
    unfold left
    omega

theorem zotRecv_left {len bread : Int} {data : List UInt8} (hpos : 0 < bread)
    (h : zotRecv f len rs = some ((bread, data), f', rs')) :
    data.length + left f' rs' ≤ left f rs := by
  obtain ⟨hdata, -⟩ := zotRecv_length h hpos
  unfold zotRecv at h
  split at h
  · cases h
  · obtain ⟨⟨rfl, -⟩, -⟩ : ((-1 : Int) = bread ∧ _) ∧ _ := by simpa using h
    omega
  · rename_i g rs₁ hfill
    obtain ⟨⟨hbread, -⟩, rfl, rfl⟩ : (min len g.ibufCnt = bread ∧ _ = data) ∧
        ({ g with
          pos := (g.pos + min len g.ibufCnt).toNat
          ibufCnt := g.ibufCnt - min len g.ibufCnt } : ZotFile) = f' ∧ rs₁ = rs' := by
      simpa using h
    refine Nat.le_trans ?_ (refill_left hfill)
    rw [hbread]
    change data.length + ((g.ibufCnt - bread).toNat + _) ≤ g.ibufCnt.toNat + _
    omega

theorem readPartHeaders_left {b : List UInt8} {tsize : Int32} {t : Option Int32}
    (h : readPartHeaders fuel b tsize f rs = some (t, f', rs')) : left f' rs' ≤ left f rs := by
  induction fuel generalizing b tsize f rs with
  | zero => cases h
  | succ fuel ih =>
      unfold readPartHeaders at h
      split at h
      · cases h
      · rename_i hcall
        obtain ⟨-, rfl, rfl⟩ : none = t ∧ _ = f' ∧ _ = rs' := by simpa using h
        exact zotFgets_left hcall
      · rename_i line f₁ rs₁ hcall
        simp only at h
        split at h
        · obtain ⟨-, rfl, rfl⟩ : _ = t ∧ f₁ = f' ∧ rs₁ = rs' := by simpa using h
          exact zotFgets_left hcall
        · exact Nat.le_trans (ih h) (zotFgets_left hcall)

/-! ## The loop -/

/-- The most that an upload may have. -/
def upgradeMaxsize : Nat := 768 * 1024

theorem toInt_upgradeMaxsize :
    (code2MaxSize * upgradeBlockSize).toInt = upgradeMaxsize := by decide

/-- The state at the head of the loop. -/
structure Upload.Ok (qsize : Int32) (u : Upload) : Prop where
  bsize : u.bsize.toInt = u.temp.length
  le : u.temp.length ≤ upgradeMaxsize
  more : u.temp = [] ∨ u.bsize < qsize

theorem Upload.Ok.init (qsize : Int32) : Upload.Ok qsize ⟨[], 0, []⟩ :=
  ⟨rfl, Nat.zero_le _, .inl rfl⟩

/-- The length of a call: at most what is left of `qsize`, and no more than 1024. -/
theorem Upload.Ok.len {qsize : Int32} {u : Upload} (h : u.Ok qsize) :
    (if qsize - u.bsize > 1024 then 1024 else qsize - u.bsize : Int32).toInt =
      min 1024 (qsize.toInt - u.temp.length) := by
  have hlow := qsize.le_toInt
  have hhigh := qsize.toInt_lt
  have hsub : (qsize - u.bsize).toInt = qsize.toInt - u.temp.length := by
    rw [Int32.toInt_sub, h.bsize]
    have hle := h.le
    rcases h.more with hnil | hlt
    · rw [hnil]
      exact Int.bmod_eq_of_le (by simp; omega) (by simp; omega)
    · have hlt' := Int32.lt_iff_toInt_lt.mp hlt
      rw [h.bsize] at hlt'
      exact Int.bmod_eq_of_le (by simp; omega) (by simp; omega)
  have h1024 : (1024 : Int32).toInt = 1024 := by decide
  split
  · rename_i hgt
    have hgt' := Int32.lt_iff_toInt_lt.mp hgt
    rw [hsub, h1024] at hgt'
    rw [h1024]
    omega
  · rename_i hgt
    have hgt' := mt Int32.lt_iff_toInt_lt.mpr hgt
    rw [hsub, h1024] at hgt'
    rw [hsub]
    omega

/-- The state behind a call that copied `data`. -/
theorem Upload.Ok.read {qsize : Int32} {u : Upload} (h : u.Ok qsize) {data : List UInt8}
    (hdata : data.length ≤ 1024) :
    (u.bsize + Int32.ofInt data.length).toInt = (u.temp ++ data).length := by
  have hle := h.le
  have hmax : upgradeMaxsize = 786432 := rfl
  have hint : (Int32.ofInt data.length).toInt = data.length :=
    Int32.toInt_ofInt_of_le (by omega) (by omega)
  rw [Int32.toInt_add, h.bsize, hint, List.length_append]
  push_cast
  exact Int.bmod_eq_of_le (by simp; omega) (by simp; omega)

/-- What the loop ends with: all that it copied was received, and none of its calls had a negative
length unless its first one did. -/
theorem readUpload_run {qsize : Int32} {u u' : Upload} (hu : u.Ok qsize)
    (h : readUpload qsize fuel u f rs = some u') :
    u'.bsize.toInt = u'.temp.length ∧ u'.temp.length ≤ u.temp.length + left f rs ∧
      ((∀ len ∈ u'.lens, 0 ≤ len) ↔
        (∀ len ∈ u.lens, 0 ≤ len) ∧ (u.temp = [] → 0 ≤ qsize)) := by
  induction fuel generalizing u f rs with
  | zero => cases h
  | succ fuel ih =>
      have hlen := hu.len
      unfold readUpload at h
      simp only at h
      generalize (if qsize - u.bsize > 1024 then 1024 else qsize - u.bsize) = len at hlen h
      have hsign : 0 ≤ len ↔ (u.temp = [] → 0 ≤ qsize) := by
        rw [Int32.le_iff_toInt_le, Int32.le_iff_toInt_le, hlen, Int32.toInt_zero]
        rcases hu.more with hnil | hlt
        · simp only [hnil, List.length_nil, true_implies]
          omega
        · have hlt' := Int32.lt_iff_toInt_lt.mp hlt
          rw [hu.bsize] at hlt'
          omega
      have hlens : (∀ l ∈ u.lens ++ [len], 0 ≤ l) ↔
          (∀ l ∈ u.lens, 0 ≤ l) ∧ (u.temp = [] → 0 ≤ qsize) := by
        rw [List.forall_mem_append, List.forall_mem_singleton, hsign]
      split at h
      · cases h
      · rename_i bread data f₁ rs₁ hrecv
        split at h
        · obtain rfl := Option.some.inj h
          exact ⟨hu.bsize, Nat.le_add_right _ _, hlens⟩
        · rename_i hpos
          obtain ⟨hdata, hle⟩ := zotRecv_length hrecv (by omega)
          have hleft := zotRecv_left (by omega) hrecv
          have hbsize := @Upload.Ok.read _ _ hu data (by omega)
          rw [hdata] at hbsize
          have hlength : (u.temp ++ data).length = u.temp.length + data.length :=
            List.length_append
          split at h
          · obtain rfl := Option.some.inj h
            exact ⟨hbsize, by rw [hlength]; omega, hlens⟩
          · rename_i hend
            obtain ⟨hmax, hq⟩ := not_or.mp hend
            have hne : u.temp ++ data ≠ [] := by
              intro hnil
              have hzero := congrArg List.length hnil
              rw [List.length_nil, hlength] at hzero
              omega
            have hmax' := mt Int32.lt_iff_toInt_lt.mpr hmax
            rw [toInt_upgradeMaxsize, hbsize] at hmax'
            have hroom : (u.temp ++ data).length ≤ upgradeMaxsize := by omega
            have hq' : u.bsize + Int32.ofInt bread < qsize := by
              rw [Int32.lt_iff_toInt_lt]
              have hq'' := mt Int32.le_iff_toInt_le.mpr hq
              omega
            have hok : Upload.Ok qsize ⟨u.lens ++ [len], u.bsize + Int32.ofInt bread,
                u.temp ++ data⟩ := ⟨hbsize, hroom, .inr hq'⟩
            obtain ⟨hb', hle', hsign'⟩ := ih hok h
            refine ⟨hb', by rw [hlength] at hle'; omega, hsign'.trans ?_⟩
            rw [hlens]
            exact and_iff_left fun hnil ↦ absurd hnil hne

/-! ## The payload -/

/-- `zot_recv` copies from the piece that comes next. -/
theorem zotRecv_holds (hh : Holds f rs b ps) (hs : stream b ps ≠ []) {len : Int} (hlen : 0 ≤ len) :
    ∃ (k : Nat) (f' : ZotFile) (rs' : List Recv), (k : Int) = min len (nextPiece b ps).1.length ∧
      zotRecv f len rs = some (((k : Int), (nextPiece b ps).1.take k), f', rs') ∧
      Holds f' rs' ((nextPiece b ps).1.drop k) (nextPiece b ps).2 ∧ (nextPiece b ps).1 ≠ [] := by
  rcases refill_pieces hh with ⟨rfl, rfl, -⟩ | ⟨f', rs', hfill, hh', hne⟩
  · exact absurd rfl hs
  · obtain ⟨k, hk⟩ : ∃ k : Nat, min len f'.ibufCnt = k :=
      ⟨(min len f'.ibufCnt).toNat, by have := hh'.cnt; omega⟩
    have hle : k ≤ (nextPiece b ps).1.length := by
      have := hh'.cnt
      omega
    have hpeek : f'.peek k = (nextPiece b ps).1.take k := by
      have hdrop := f'.buffered_drop k (by rw [hh'.cnt]; omega)
      rw [← hh'.buffered, hdrop, List.take_left' (f'.length_peek k)]
    refine ⟨k, f'.skip k, rs', by rw [← hk, hh'.cnt], ?_, hh'.skip hle, hne⟩
    have hpos : ((f'.pos : Int) + (k : Int)).toNat = f'.pos + k := by omega
    unfold zotRecv
    simp only [hfill, hk, Int.toNat_natCast, hpeek, hpos]
    rfl

/-- One call of the loop: it appends the next bytes of the stream, as many as fit. -/
theorem readUpload_call {qsize : Int32} {u : Upload} (hu : u.Ok qsize)
    (hq : u.temp.length ≤ qsize.toInt) (hh : Holds f rs b ps) (hs : stream b ps ≠ []) :
    ∃ (k : Nat) (f' : ZotFile) (rs' : List Recv) (len bsize : Int32),
      (k : Int) = min (min 1024 (qsize.toInt - u.temp.length)) (nextPiece b ps).1.length ∧
      0 < (nextPiece b ps).1.length ∧
      Holds f' rs' ((nextPiece b ps).1.drop k) (nextPiece b ps).2 ∧
      (∀ fuel, readUpload qsize (fuel + 1) u f rs =
        if k = 0 then some ⟨u.lens ++ [len], u.bsize, u.temp⟩
        else if upgradeMaxsize < u.temp.length + k ∨ qsize.toInt ≤ u.temp.length + k then
          some ⟨u.lens ++ [len], bsize, u.temp ++ (stream b ps).take k⟩
        else readUpload qsize fuel ⟨u.lens ++ [len], bsize, u.temp ++ (stream b ps).take k⟩ f' rs') ∧
      (¬ (upgradeMaxsize < u.temp.length + k ∨ qsize.toInt ≤ u.temp.length + k) →
        Upload.Ok qsize ⟨u.lens ++ [len], bsize, u.temp ++ (stream b ps).take k⟩) := by
  have hlen := hu.len
  obtain ⟨k, f', rs', hk, hrecv, hh', hne⟩ :=
    @zotRecv_holds _ _ _ _ hh hs (min 1024 (qsize.toInt - u.temp.length)) (by omega)
  have hkb : k ≤ (nextPiece b ps).1.length := by omega
  have htake : (nextPiece b ps).1.take k = (stream b ps).take k := by
    rw [← stream_nextPiece b ps, stream, List.take_append_of_le_length hkb]
  have hklen : ((nextPiece b ps).1.take k).length = k := List.length_take_of_le hkb
  have hbsize := @Upload.Ok.read _ _ hu ((nextPiece b ps).1.take k) (by omega)
  rw [hklen] at hbsize
  have hlength : (u.temp ++ (nextPiece b ps).1.take k).length = u.temp.length + k := by
    rw [List.length_append, hklen]
  have hmax : u.bsize + Int32.ofInt k > code2MaxSize * upgradeBlockSize ↔
      upgradeMaxsize < u.temp.length + k := by
    rw [gt_iff_lt, Int32.lt_iff_toInt_lt, toInt_upgradeMaxsize, hbsize, hlength]
    exact Int.ofNat_lt
  have hall : u.bsize + Int32.ofInt k ≥ qsize ↔ qsize.toInt ≤ u.temp.length + k := by
    rw [ge_iff_le, Int32.le_iff_toInt_le, hbsize, hlength, Int.natCast_add]
  refine ⟨k, f', rs', if qsize - u.bsize > 1024 then 1024 else qsize - u.bsize,
    u.bsize + Int32.ofInt k, hk, List.length_pos_iff.mpr hne, hh', fun fuel ↦ ?_, fun hend ↦ ?_⟩
  · have hzero : (k : Int) ≤ 0 ↔ k = 0 := by omega
    conv_lhs => unfold readUpload
    simp only [hlen, hrecv, hzero, hmax, hall, htake]
  · rw [htake] at hlength hbsize
    obtain ⟨hmax', hall'⟩ := not_or.mp hend
    refine ⟨hbsize, by rw [hlength]; omega, .inr ?_⟩
    rw [Int32.lt_iff_toInt_lt, hbsize, hlength]
    omega

/-- The payload is read whole, however it is cut. -/
theorem readUpload_stream {qsize : Int32} {u : Upload} {n : Nat} (hu : u.Ok qsize)
    (hq : qsize.toInt = n) (hn : n ≤ upgradeMaxsize) (htemp : u.temp.length ≤ n)
    (hh : Holds f rs b ps) (hs : stream b ps ≠ [])
    (hle : n ≤ u.temp.length + (stream b ps).length) :
    ∃ fuel u', readUpload qsize fuel u f rs = some u' ∧
      u'.temp = u.temp ++ (stream b ps).take (n - u.temp.length) := by
  induction hm : n - u.temp.length using Nat.strong_induction_on generalizing u f rs b ps with
  | h m ih =>
      obtain ⟨k, f', rs', len, bsize, hk, hpiece, hh', hstep, hok⟩ :=
        readUpload_call hu (by omega) hh hs
      by_cases hzero : k = 0
      · -- nothing is left to read
        refine ⟨0 + 1, _, by rw [hstep, if_pos hzero], ?_⟩
        have hm0 : m = 0 := by omega
        rw [hm0, List.take_zero, List.append_nil]
      · by_cases hend : upgradeMaxsize < u.temp.length + k ∨ qsize.toInt ≤ u.temp.length + k
        · refine ⟨0 + 1, _, by rw [hstep, if_neg hzero, if_pos hend], ?_⟩
          have hkm : k = m := by omega
          rw [hkm]
        · have hkb : k ≤ (nextPiece b ps).1.length := by omega
          have hs' : stream ((nextPiece b ps).1.drop k) (nextPiece b ps).2 =
              (stream b ps).drop k := by
            rw [stream_drop _ hkb, stream_nextPiece]
          have hdrop : ((stream b ps).drop k).length = (stream b ps).length - k :=
            List.length_drop
          have hs'' : (stream b ps).drop k ≠ [] := by
            intro hnil
            rw [hnil, List.length_nil] at hdrop
            omega
          have hlength : (u.temp ++ (stream b ps).take k).length = u.temp.length + k := by
            rw [List.length_append, List.length_take_of_le (by omega)]
          obtain ⟨fuel, u', hread, htemp'⟩ := ih (m - k) (by omega) (hok hend)
            (by rw [hlength]; omega) hh' (by rwa [hs']) (by rw [hs', hlength, hdrop]; omega)
            (by rw [hlength]; omega)
          refine ⟨fuel + 1, u', ?_, ?_⟩
          · rw [hstep, if_neg hzero, if_neg hend]
            exact hread
          · rw [htemp', hs', List.append_assoc, ← List.take_add]
            congr 2
            omega

theorem stream_eq_nil (h : stream b ps = []) : b = [] ∧ ps = [] := by
  obtain ⟨hb, hps⟩ := List.append_eq_nil_iff.mp h
  refine ⟨hb, List.eq_nil_iff_forall_not_mem.mpr fun p hp ↦ ?_⟩
  exact p.nonempty (List.flatMap_eq_nil_iff.mp hps p hp)

/-- Where `recv` does not fail, the loop ends with what was announced, or with too much. -/
theorem readUpload_end {qsize : Int32} {u u' : Upload} (hu : u.Ok qsize)
    (hq : u.temp.length ≤ qsize.toInt) (hh : Holds f rs b ps)
    (h : readUpload qsize fuel u f rs = some u') :
    u'.temp.length = qsize.toInt ∨ upgradeMaxsize < u'.temp.length := by
  induction fuel generalizing u f rs b ps with
  | zero => cases h
  | succ fuel ih =>
      by_cases hs : stream b ps = []
      · -- the call waits
        obtain ⟨rfl, rfl⟩ := stream_eq_nil hs
        rcases refill_pieces hh with ⟨-, -, hfill⟩ | ⟨f', rs', -, -, hne⟩
        · simp [readUpload, zotRecv, hfill] at h
        · exact absurd rfl hne
      · obtain ⟨k, f', rs', len, bsize, hk, hpiece, hh', hstep, hok⟩ :=
          readUpload_call hu hq hh hs
        have hkb : k ≤ (stream b ps).length := by
          rw [← stream_nextPiece, stream, List.length_append]
          omega
        have hlength : (u.temp ++ (stream b ps).take k).length = u.temp.length + k := by
          rw [List.length_append, List.length_take_of_le hkb]
        rw [hstep] at h
        split at h
        · obtain rfl := Option.some.inj h
          left
          change (u.temp.length : Int) = _
          omega
        · split at h
          · obtain rfl := Option.some.inj h
            change (((u.temp ++ (stream b ps).take k).length : Nat) : Int) = _ ∨
              _ < (u.temp ++ (stream b ps).take k).length
            rw [hlength]
            omega
          · rename_i hend
            refine ih (hok hend) ?_ hh' h
            change (((u.temp ++ (stream b ps).take k).length : Nat) : Int) ≤ _
            rw [hlength]
            omega

end PrintServer.Http
