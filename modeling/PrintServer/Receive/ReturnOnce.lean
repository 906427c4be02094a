import Mathlib.Data.List.Perm.Basic
import Mathlib.Data.List.Range
import PrintServer.Receive.Receivers

/-!
# Every buffer back, and once

The text and IPP receivers and rawtcpd return each buffer that they got exactly once.  The LPD
receivers do unless the file ends with a status byte other than 0: then the clean-up gets a buffer
that is on the output queue already.
-/

namespace PrintServer.Receive

open Spooler

@[simp] theorem BufOp.buf_putOut (t : Nat) (data : List UInt8) (flags : UInt8) :
    (BufOp.putOut t data flags).buf = t := rfl
@[simp] theorem BufOp.buf_putIn (t : Nat) : (BufOp.putIn t).buf = t := rfl
@[simp] theorem BufOp.buf_abort (t : Nat) : (BufOp.abort t).buf = t := rfl

/-- Each buffer that the receiver got was passed on exactly once. -/
def Bufs.EachOnce (b : Bufs) : Prop := ∀ t < b.got, (b.ops.map BufOp.buf).count t = 1

namespace Bufs

variable {b : Bufs} {t : Nat}

@[simp] theorem get_got (n : Nat) : (b.get n).got = b.got + n := rfl
@[simp] theorem get_ops (n : Nat) : (b.get n).ops = b.ops := rfl
@[simp] theorem op_got (o : BufOp) : (b.op o).got = b.got := rfl
@[simp] theorem op_ops (o : BufOp) : (b.op o).ops = b.ops ++ [o] := rfl

theorem eachOnce_of_perm (h : (b.ops.map BufOp.buf).Perm (List.range b.got)) : b.EachOnce := by
  intro t ht
  rw [h.count_eq]
  exact List.count_eq_one_of_mem List.nodup_range (List.mem_range.mpr ht)

/-- A buffer that was passed on before and is passed on again. -/
theorem not_eachOnce_of_twice {xs : List Nat} (ht : t < b.got)
    (h : (b.ops.map BufOp.buf).Perm (t :: xs)) (hx : t ∈ xs) : ¬ b.EachOnce := by
  intro honce
  have hcount := honce t ht
  rw [h.count_eq, List.count_cons_self] at hcount
  have hpos : 0 < xs.count t := List.count_pos_iff.mpr hx
  omega

end Bufs

/-- The buffers went back in the order in which they came. -/
def InOrder (b : Bufs) : Prop := b.ops.map BufOp.buf = List.range b.got

theorem InOrder.put {b : Bufs} (h : InOrder b) (o : BufOp) (ho : o.buf = b.got) :
    InOrder ((b.get 1).op o) := by
  unfold InOrder at h ⊢
  simp only [Bufs.op_ops, Bufs.get_ops, Bufs.op_got, Bufs.get_got, List.map_append, List.map_cons,
    List.map_nil, h, ho]
  exact List.range_succ.symm

theorem InOrder.eachOnce {b : Bufs} (h : InOrder b) : b.EachOnce := by
  apply Bufs.eachOnce_of_perm
  rw [h]

/-! ## receive_bin_data_file -/

/-- The blocks that `receive_bin_data_file` reads in full, with the count of bytes before each. -/
def binBlocks : LpdVars → List BinRound → List (UInt32 × List UInt8)
  | _, [] => []
  | v, r :: rs =>
      if r.aborted then []
      else
        match recvBlock v.blocksize [] r.reads with
        | some (data, true) =>
            (v.total, data) ::
              if (countBlock v data).total < v.filesize then binBlocks (countBlock v data) rs
              else []
        | _ => []

/-- A block that ends with the byte behind the file ends with the status byte 0. -/
def StatusByteOK (filesize : UInt32) (blocks : List (UInt32 × List UInt8)) : Prop :=
  ∀ e ∈ blocks, e.1 + UInt32.ofNat e.2.length = filesize → e.2.getLast?.getD statusOK = statusOK

theorem countBlock_total (v : LpdVars) (data : List UInt8) :
    (countBlock v data).total = v.total + UInt32.ofNat data.length := rfl

/-- The status byte is taken in the last pass only. -/
theorem countBlock_status_of_lt {v : LpdVars} {data : List UInt8}
    (h : (countBlock v data).total < v.filesize) : (countBlock v data).status = v.status := by
  have hne : v.total + UInt32.ofNat data.length ≠ v.filesize := by
    intro heq
    rw [countBlock_total, heq] at h
    exact absurd h (UInt32.lt_irrefl _)
  show (takeStatus v data).2 = v.status
  rw [takeStatus, if_neg hne]

/-- What the status is after a block, when it was 0 before. -/
theorem countBlock_status_eq_iff {v : LpdVars} {data : List UInt8} (hv : v.status = statusOK) :
    (countBlock v data).status = statusOK ↔
      (v.total + UInt32.ofNat data.length = v.filesize →
        data.getLast?.getD statusOK = statusOK) := by
  show (takeStatus v data).2 = statusOK ↔ _
  unfold takeStatus
  by_cases h : v.total + UInt32.ofNat data.length = v.filesize
  · simp [h]
  · simp [h, hv]

theorem statusByteOK_cons {filesize total : UInt32} {data : List UInt8}
    {blocks : List (UInt32 × List UInt8)} :
    StatusByteOK filesize ((total, data) :: blocks) ↔
      (total + UInt32.ofNat data.length = filesize → data.getLast?.getD statusOK = statusOK) ∧
        StatusByteOK filesize blocks :=
  List.forall_mem_cons

theorem statusByteOK_nil (filesize : UInt32) : StatusByteOK filesize [] := fun _ h ↦ by cases h

theorem binEnd_ok_iff {b : Bufs} (hb : InOrder b) (status : UInt8) (late : Bool) {pbuf : Nat}
    (hpbuf : pbuf < b.got) : (binEnd status late pbuf b).bufs.EachOnce ↔ status = statusOK := by
  unfold binEnd
  by_cases h : status = statusOK
  · simp only [h, ne_eq, not_true_eq_false, if_false, iff_true]
    exact hb.eachOnce
  · simp only [h, ne_eq, not_false_eq_true, if_true, iff_false]
    have hperm : ((b.op (.abort pbuf)).ops.map BufOp.buf).Perm (pbuf :: List.range b.got) := by
      rw [Bufs.op_ops, List.map_append, hb]
      exact List.perm_append_singleton pbuf _
    exact Bufs.not_eachOnce_of_twice hpbuf hperm (List.mem_range.mpr hpbuf)

theorem binEnd_abort {b : Bufs} (hb : InOrder b) (late : Bool) :
    (binEnd statusErr late b.got (b.get 1)).bufs.EachOnce := by
  have h : InOrder ((b.get 1).op (.abort b.got)) := hb.put _ rfl
  exact h.eachOnce

theorem binLoop_eachOnce_iff {late : Bool} {v : LpdVars} {b : Bufs} {rounds : List BinRound}
    {o : Outcome Int} (hv : v.status = statusOK) (hb : InOrder b)
    (h : binLoop late v b rounds = some o) :
    o.bufs.EachOnce ↔ StatusByteOK v.filesize (binBlocks v rounds) := by
  induction rounds generalizing v b with
  | nil => cases h
  | cons r rs ih =>
      rw [binLoop] at h
      rw [binBlocks]
      cases ha : r.aborted with
      | true =>
        simp only [ha, if_true, Option.some.injEq] at h ⊢
        subst h
        exact iff_of_true (binEnd_abort hb late) (statusByteOK_nil _)
      | false =>
        simp only [ha, Bool.false_eq_true, if_false] at h ⊢
        match hr : recvBlock v.blocksize [] r.reads with
        | none =>
            simp only [hr] at h
            cases h
        | some (data, false) =>
            simp only [hr] at h
            refine iff_of_true ?_ (statusByteOK_nil _)
            by_cases hd : data = []
            · simp only [hd, ne_eq, not_true_eq_false, if_false, Option.some.injEq] at h
              subst h
              exact binEnd_abort hb late
            · simp only [hd, ne_eq, not_false_eq_true, if_true, Option.some.injEq] at h
              subst h
              have hput := hb.put (.putOut b.got data prnQEof) rfl
              exact (binEnd_ok_iff hput statusOK late (Nat.lt_succ_self _)).mpr rfl
        | some (data, true) =>
            simp only [hr] at h
            rw [statusByteOK_cons, ← countBlock_status_eq_iff hv]
            by_cases hlt : (countBlock v data).total < v.filesize
            · simp only [hlt, if_true] at h ⊢
              have hstatus := (countBlock_status_of_lt hlt).trans hv
              rw [ih hstatus (hb.put _ rfl) h]
              exact (and_iff_right hstatus).symm
            · simp only [hlt, if_false, Option.some.injEq] at h ⊢
              subst h
              have hput := hb.put (.putOut b.got (takeStatus v data).1 prnQEof) rfl
              rw [binEnd_ok_iff hput _ late (Nat.lt_succ_self _)]
              exact (and_iff_left (statusByteOK_nil _)).symm

/-! ## receive_txt_data_file -/

/-- The blocks that `receive_txt_data_file` reads, with the count of bytes before each. -/
def txtBlocks : LpdVars → List TxtRound → List (UInt32 × List UInt8)
  | _, [] => []
  | v, r :: rs =>
      if r.aborted ∨ r.data = [] then []
      else
        (v.total, r.data) ::
          if (countBlock v r.data).total < v.filesize then txtBlocks (countBlock v r.data) rs
          else []

/-- All buffers but the input buffer, number 0, went back in order. -/
def InOrderBut0 (b : Bufs) : Prop := 0 :: b.ops.map BufOp.buf = List.range b.got

theorem range_add_two (n : Nat) : List.range (n + 2) = List.range n ++ [n, n + 1] := by
  rw [List.range_succ, List.range_succ, List.append_assoc]
  rfl

/-- The two half blocks of one pass go back. -/
theorem InOrderBut0.putHalves {b : Bufs} (hb : InOrderBut0 b) (keepCR : Bool)
    (data : List UInt8) :
    InOrderBut0 (putHalves keepCR b.got (b.got + 1) data (b.get 2)).2 := by
  unfold InOrderBut0 Receive.putHalves at *
  split
  all_goals
    simp only [Bufs.op_ops, Bufs.get_ops, Bufs.op_got, Bufs.get_got, List.map_append, List.map_cons,
      List.map_nil, List.append_assoc, range_add_two, ← hb]
    rfl

theorem InOrderBut0.perm {b : Bufs} (hb : InOrderBut0 b) (xs : List Nat) :
    (b.ops.map BufOp.buf ++ 0 :: xs).Perm (List.range b.got ++ xs) := by
  rw [← hb]
  exact List.perm_middle

/-- The input buffer goes back last. -/
theorem InOrderBut0.eachOnce {b : Bufs} (hb : InOrderBut0 b) {o : BufOp} (ho : o.buf = 0) :
    (b.op o).EachOnce := by
  apply Bufs.eachOnce_of_perm
  have hp := hb.perm []
  rw [List.append_nil] at hp
  rw [Bufs.op_ops, List.map_append, List.map_cons, List.map_nil, ho]
  exact hp

/-- The clean-up of a pass whose three buffers are still held. -/
theorem InOrderBut0.abort {b : Bufs} (hb : InOrderBut0 b) :
    (txtEnd statusErr b.got (b.got + 1) 0 (b.get 2)).bufs.EachOnce := by
  apply Bufs.eachOnce_of_perm
  show (((b.ops ++ [_]) ++ [_] ++ [_]).map BufOp.buf).Perm (List.range (b.got + 2))
  have hp := hb.perm [b.got, b.got + 1]
  rw [range_add_two]
  refine List.Perm.trans ?_ hp
  simp only [List.map_append, List.map_cons, List.map_nil, BufOp.buf, List.append_assoc]
  have hswap : ([b.got, b.got + 1] ++ [0]).Perm ([0] ++ [b.got, b.got + 1]) :=
    List.perm_append_comm
  exact hswap.append_left _

theorem txtEnd_ok_iff {b : Bufs} (hb : InOrderBut0 b) (status : UInt8) {pbuf0 pbuf1 : Nat}
    (h0 : 0 < pbuf0) (hlt : pbuf0 < b.got) :
    (txtEnd status pbuf0 pbuf1 0 b).bufs.EachOnce ↔ status = statusOK := by
  unfold txtEnd
  by_cases h : status = statusOK
  · simp only [h, ne_eq, not_true_eq_false, if_false, iff_true]
    exact hb.eachOnce rfl
  · simp only [h, ne_eq, not_false_eq_true, if_true, iff_false]
    have hmem : pbuf0 ∈ b.ops.map BufOp.buf := by
      have hr : pbuf0 ∈ 0 :: b.ops.map BufOp.buf := by
        rw [hb]
        exact List.mem_range.mpr hlt
      exact (List.mem_cons.mp hr).resolve_left (Nat.ne_of_gt h0)
    have hperm : (((b.op (.putIn pbuf0)).op (.putIn pbuf1)).op (.abort 0)).ops.map BufOp.buf =
        b.ops.map BufOp.buf ++ pbuf0 :: [pbuf1, 0] := by
      simp
    refine Bufs.not_eachOnce_of_twice hlt ?_ (List.mem_append_left [pbuf1, 0] hmem)
    rw [hperm]
    exact List.perm_middle

theorem txtBlocks_keepCR (v : LpdVars) (keepCR : Bool) (rounds : List TxtRound) :
    txtBlocks { v with keepCR := keepCR } rounds = txtBlocks v rounds := by
  induction rounds generalizing v with
  | nil => rfl
  | cons r rs ih =>
      have htail := ih (countBlock v r.data)
      change txtBlocks (countBlock { v with keepCR := keepCR } r.data) rs = _ at htail
      rw [txtBlocks, txtBlocks, htail]
      rfl

theorem txtLoop_eachOnce_iff {v : LpdVars} {b : Bufs} {rounds : List TxtRound} {o : Outcome Int}
    (hv : v.status = statusOK) (hgot : 0 < b.got) (hb : InOrderBut0 b)
    (h : txtLoop 0 v b rounds = some o) :
    o.bufs.EachOnce ↔ StatusByteOK v.filesize (txtBlocks v rounds) := by
  induction rounds generalizing v b with
  | nil => cases h
  | cons r rs ih =>
      rw [txtLoop] at h
      rw [txtBlocks]
      by_cases hend : r.aborted = true ∨ r.data = []
      · rw [if_pos hend]
        have ho : some (txtEnd statusErr b.got (b.got + 1) 0 (b.get 2)) = some o := by
          rcases hend with ha | hd
          · simpa [ha] using h
          · simpa [hd] using h
        obtain rfl := Option.some.inj ho
        exact iff_of_true hb.abort (statusByteOK_nil _)
      · obtain ⟨ha, hd⟩ := not_or.mp hend
        rw [if_neg hend, statusByteOK_cons, ← countBlock_status_eq_iff hv]
        simp only [ha, hd, Bool.false_eq_true, if_false] at h
        have hout := hb.putHalves v.keepCR (takeStatus v r.data).1
        have hgot' : b.got <
            (putHalves v.keepCR b.got (b.got + 1) (takeStatus v r.data).1 (b.get 2)).2.got := by
          unfold putHalves
          split <;> exact Nat.lt_add_of_pos_right (by decide)
        by_cases hlt : (countBlock v r.data).total < v.filesize
        · simp only [hlt, if_true] at h ⊢
          have hstatus := (countBlock_status_of_lt hlt).trans hv
          refine (ih ?hst (Nat.lt_trans hgot hgot') hout h).trans ?hblocks
          case hst => exact hstatus
          case hblocks =>
            rw [txtBlocks_keepCR]
            exact (and_iff_right hstatus).symm
        · simp only [hlt, if_false, Option.some.injEq] at h ⊢
          subst h
          rw [txtEnd_ok_iff hout _ hgot hgot']
          exact (and_iff_left (statusByteOK_nil _)).symm

/-! ## ippProcessBINJob, ippProcessTXTJob and rawtcpd -/

theorem ippBinLoop_eachOnce {b : Bufs} {rounds : List IppRound} {o : Outcome JobState}
    (hb : InOrder b) (h : ippBinLoop b rounds = some o) : o.bufs.EachOnce := by
  induction rounds generalizing b with
  | nil => cases h
  | cons r rs ih =>
      rw [ippBinLoop] at h
      split at h
      · split at h
        · cases h
          exact (hb.put (.abort b.got) rfl).eachOnce
        · cases h
          exact (hb.put (.putOut b.got r.data prnQEof) rfl).eachOnce
      · exact ih (hb.put _ rfl) h

theorem InOrderBut0.ippEnd {b : Bufs} (hb : InOrderBut0 b) {o : BufOp} (ho : o.buf = 0) :
    ((((b.get 2).op o).op (.putIn b.got)).op (.putIn (b.got + 1))).EachOnce := by
  apply Bufs.eachOnce_of_perm
  show (((b.ops ++ [o]) ++ [_] ++ [_]).map BufOp.buf).Perm (List.range (b.got + 2))
  have hp := hb.perm [b.got, b.got + 1]
  rw [range_add_two]
  refine List.Perm.trans (List.Perm.of_eq ?_) hp
  simp [ho]

theorem ippTxtLoop_eachOnce {keepCR : Bool} {b : Bufs} {rounds : List IppRound}
    {o : Outcome JobState} (hb : InOrderBut0 b) (h : ippTxtLoop 0 keepCR b rounds = some o) :
    o.bufs.EachOnce := by
  induction rounds generalizing keepCR b with
  | nil => cases h
  | cons r rs ih =>
      rw [ippTxtLoop] at h
      split at h
      · cases h
        split
        · exact hb.ippEnd rfl
        · exact hb.ippEnd rfl
      · exact ih (hb.putHalves keepCR r.data) h

theorem rawLoop_eachOnce {b : Bufs} {rounds : List (List (List UInt8))} {o : Outcome Unit}
    (hb : InOrder b) (h : rawLoop b rounds = some o) : o.bufs.EachOnce := by
  induction rounds generalizing b with
  | nil => cases h
  | cons r rs ih =>
      rw [rawLoop] at h
      split at h
      · cases h
      · exact ih (hb.put _ rfl) h
      · split at h
        · cases h
          exact (hb.put (.putOut b.got _ prnQNormal) rfl).eachOnce
        · cases h
          exact (hb.put (.putIn b.got) rfl).eachOnce

theorem noBufs_inOrder : InOrder noBufs := rfl

theorem oneBuf_inOrderBut0 : InOrderBut0 (noBufs.get 1) := rfl

/-- A receiver with what the network answers it. -/
inductive Reception
  | binDataFile (filesize : UInt32) (late : Bool) (rounds : List BinRound)
  | txtDataFile (filesize : UInt32) (rounds : List TxtRound)
  | ippBINJob (rounds : List IppRound)
  | ippTXTJob (rounds : List IppRound)
  | rawtcpd (rounds : List (List (List UInt8)))

/-- The buffers when the receiver returns. -/
def Reception.bufs : Reception → Option Bufs
  | .binDataFile filesize late rounds => (receiveBinDataFile filesize late rounds).map Outcome.bufs
  | .txtDataFile filesize rounds => (receiveTxtDataFile filesize rounds).map Outcome.bufs
  | .ippBINJob rounds => (ippProcessBINJob rounds).map Outcome.bufs
  | .ippTXTJob rounds => (ippProcessTXTJob rounds).map Outcome.bufs
  | .rawtcpd rounds => (rawtcpdConnection rounds).map Outcome.bufs

/-- No block of an LPD data file ends the file with a status byte other than 0. -/
def Reception.StatusOK : Reception → Prop
  | .binDataFile filesize _ rounds =>
      StatusByteOK (filesize + 1) (binBlocks (lpdVars filesize) rounds)
  | .txtDataFile filesize rounds =>
      StatusByteOK (filesize + 1) (txtBlocks (lpdVars filesize) rounds)
  | _ => True

/-- The LPD receivers return every buffer exactly once if and only if no block ends the file with
a status byte other than 0; the other receivers always do. -/
theorem receivers_return_once_iff (r : Reception) {b : Bufs} (h : r.bufs = some b) :
    b.EachOnce ↔ r.StatusOK := by
  cases r with
  | binDataFile filesize late rounds =>
      obtain ⟨o, ho, rfl⟩ := Option.map_eq_some_iff.mp h
      exact binLoop_eachOnce_iff rfl noBufs_inOrder ho
  | txtDataFile filesize rounds =>
      obtain ⟨o, ho, rfl⟩ := Option.map_eq_some_iff.mp h
      exact txtLoop_eachOnce_iff rfl Nat.one_pos oneBuf_inOrderBut0 ho
  | ippBINJob rounds =>
      obtain ⟨o, ho, rfl⟩ := Option.map_eq_some_iff.mp h
      exact iff_of_true (ippBinLoop_eachOnce noBufs_inOrder ho) trivial
  | ippTXTJob rounds =>
      obtain ⟨o, ho, rfl⟩ := Option.map_eq_some_iff.mp h
      exact iff_of_true (ippTxtLoop_eachOnce oneBuf_inOrderBut0 ho) trivial
  | rawtcpd rounds =>
      obtain ⟨o, ho, rfl⟩ := Option.map_eq_some_iff.mp h
      exact iff_of_true (rawLoop_eachOnce noBufs_inOrder ho) trivial

/-- A file of one byte whose status byte is 0. -/
theorem receivers_return_once_one_byte :
    ∃ b, (Reception.binDataFile 1 false [⟨false, [⟨[0x41, 0x00], true⟩]⟩]).bufs = some b ∧
      b.EachOnce := by
  refine ⟨_, rfl, (receivers_return_once_iff
    (.binDataFile 1 false [⟨false, [⟨[0x41, 0x00], true⟩]⟩]) rfl).mpr ?_⟩
  unfold Reception.StatusOK StatusByteOK
  decide

/-- A file of one byte whose status byte is 1: the buffer is queued and then aborted, which
queues it again. -/
theorem bad_status_byte_queues_twice :
    ∃ b, (Reception.binDataFile 1 false [⟨false, [⟨[0x41, 0x01], true⟩]⟩]).bufs = some b ∧
      b.ops = [.putOut 0 [0x41] prnQEof, .abort 0] ∧ ¬ b.EachOnce :=
  ⟨_, rfl, rfl, fun h ↦ absurd (h 0 (by decide)) (by decide)⟩

end PrintServer.Receive
