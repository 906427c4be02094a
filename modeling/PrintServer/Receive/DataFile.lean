import PrintServer.Receive.ReturnOnce

/-!
# A binary data file, however it arrives

`recv` may split the bytes of a data file and its status byte as it likes.  The passes of
`receive_bin_data_file` take the pieces as they come; what they put on the output queue is the
file, in blocks that fit a buffer, and only the last block has the end mark.
-/

namespace PrintServer.Receive

open Spooler

def received (reads : List Read) : List UInt8 := reads.flatMap Read.data

@[simp] theorem received_nil : received [] = [] := rfl

@[simp] theorem received_cons (r : Read) (rs : List Read) :
    received (r :: rs) = r.data ++ received rs := List.flatMap_cons

@[simp] theorem received_append (rs rs' : List Read) :
    received (rs ++ rs') = received rs ++ received rs' := List.flatMap_append

/-- The answers of `recv` dealt out to the passes of `receive_bin_data_file`; `pass` is what the
pass under way has got. -/
def binRounds : LpdVars → List Read → List Read → List BinRound
  | _, pass, [] => [⟨false, pass⟩]
  | v, pass, r :: rs =>
      match recvBlock v.blocksize [] (pass ++ [r]) with
      -- the pass goes on
      | none => binRounds v (pass ++ [r]) rs
      | some (data, _) => ⟨false, pass ++ [r]⟩ :: binRounds (countBlock v data) [] rs

/-- A run of buffers put on the output queue, with the end mark on the last. -/
def queueBlocks : Nat → List (List UInt8) → List UInt8 → List BufOp
  | n, [], last => [.putOut n last prnQEof]
  | n, d :: ds, last => .putOut n d prnQNormal :: queueBlocks (n + 1) ds last

/-- The blocks on the output queue make up the data file. -/
def Delivered (b : Bufs) (file : List UInt8) : Prop :=
  ∃ blocks last, b.ops = queueBlocks 0 blocks last ∧ (blocks ++ [last]).flatten = file ∧
    ∀ d ∈ blocks ++ [last], d.length ≤ blockSize

/-! ## One pass -/

theorem recvBlock_none_append {blocksize : Int} {buf : List UInt8} {pass : List Read}
    (h : recvBlock blocksize buf pass = none) (rs : List Read) :
    recvBlock blocksize buf (pass ++ rs) = recvBlock blocksize (buf ++ received pass) rs := by
  induction pass generalizing buf with
  | nil => rw [List.nil_append, received_nil, List.append_nil]
  | cons r pass ih =>
      rw [recvBlock] at h
      split at h
      · cases h
      · rename_i hdata
        split at h
        · cases h
        · rename_i hgo
          rw [List.cons_append, recvBlock, if_neg hdata, if_neg hgo, ih h, received_cons,
            List.append_assoc]

/-- The next answer ends the pass, or there is room for another packet behind it. -/
theorem recvBlock_next {blocksize : Int} {pass : List Read} {r : Read}
    (h : recvBlock blocksize [] pass = none) (hr : r.data ≠ []) :
    recvBlock blocksize [] (pass ++ [r]) =
      if ((received (pass ++ [r])).length : Int) + packetSize > blocksize ∨ r.rcevent = false then
        some (received (pass ++ [r]), true)
      else none := by
  have hall : received (pass ++ [r]) = received pass ++ r.data := by simp
  rw [recvBlock_none_append h, List.nil_append, recvBlock, if_neg hr, hall]
  rfl

/-! ## The counters -/

/-- The counters of a run that has `left` bytes of the file and its status byte to come. -/
structure Counts (v : LpdVars) (left : Nat) : Prop where
  status : v.status = statusOK
  total : v.total.toNat + left = v.filesize.toNat
  le_left : v.blocksize ≤ left
  le_blockSize : v.blocksize ≤ blockSize

theorem counts_lpdVars (filesize : UInt32) :
    Counts (lpdVars filesize) (filesize + 1).toNat := by
  have hfirst : firstBlocksize (filesize + 1) ≤ (filesize + 1).toNat ∧
      firstBlocksize (filesize + 1) ≤ blockSize := by
    unfold firstBlocksize
    by_cases h : filesize + 1 > UInt32.ofNat blockSize
    · have hlt : blockSize < (filesize + 1).toNat := UInt32.lt_iff_toNat_lt.mp h
      rw [if_pos h]
      omega
    · have hle : (filesize + 1).toNat ≤ blockSize := by
        have := mt UInt32.lt_iff_toNat_lt.mpr h
        exact Nat.le_of_not_lt this
      rw [if_neg h]
      omega
  apply Counts.mk rfl
  · exact Nat.zero_add _
  · exact hfirst.1
  · exact hfirst.2

namespace Counts

variable {v : LpdVars} {data : List UInt8} {left : Nat}

/-- The 32-bit total does not wrap within the file. -/
theorem total_add (h : Counts v (data.length + left)) :
    (countBlock v data).total.toNat = v.total.toNat + data.length := by
  have htotal := h.total
  have hlt := v.filesize.toNat_lt
  rw [countBlock_total, UInt32.toNat_add, UInt32.toNat_ofNat',
    Nat.mod_eq_of_lt (show data.length < 4294967296 by omega)]
  apply Nat.mod_eq_of_lt
  omega

theorem countBlock_lt_iff (h : Counts v (data.length + left)) :
    (countBlock v data).total < v.filesize ↔ 0 < left := by
  have htotal := h.total
  rw [UInt32.lt_iff_toNat_lt, h.total_add]
  omega

theorem countBlock_total_eq_iff (h : Counts v (data.length + left)) :
    v.total + UInt32.ofNat data.length = v.filesize ↔ left = 0 := by
  have htotal := h.total
  have hsum := h.total_add
  rw [countBlock_total] at hsum
  rw [← UInt32.toNat_inj, hsum]
  omega

theorem takeStatus_of_left (h : Counts v (data.length + left)) (hleft : 0 < left) :
    takeStatus v data = (data, statusOK) := by
  rw [takeStatus, if_neg (mt h.countBlock_total_eq_iff.mp (Nat.ne_of_gt hleft)), h.status]

/-- The block that ends with the status byte. -/
theorem takeStatus_last {status : UInt8} (h : Counts v (data ++ [status]).length) :
    takeStatus v (data ++ [status]) = (data, status) := by
  have hall := (@countBlock_total_eq_iff v (data ++ [status]) 0 h).mpr rfl
  rw [takeStatus, if_pos hall, List.dropLast_concat, List.getLast?_concat, Option.getD_some]

theorem countBlock (h : Counts v (data.length + left)) (hleft : 0 < left) :
    Counts (countBlock v data) left := by
  have htotal := h.total
  have hsum := h.total_add
  -- what is left, as the code computes it
  have hrest : (v.filesize - (Receive.countBlock v data).total).toNat = left := by
    rw [UInt32.toNat_sub_of_le, hsum]
    · omega
    · rw [UInt32.le_iff_toNat_le, hsum]
      omega
  have hsize : (Receive.countBlock v data).blocksize ≤ left ∧
      (Receive.countBlock v data).blocksize ≤ blockSize := by
    show nextBlocksize v.filesize (Receive.countBlock v data).total v.blocksize ≤ _ ∧
      nextBlocksize v.filesize (Receive.countBlock v data).total v.blocksize ≤ _
    unfold nextBlocksize
    by_cases hlt : v.filesize - (Receive.countBlock v data).total < UInt32.ofNat blockSize
    · have := UInt32.lt_iff_toNat_lt.mp hlt
      rw [hrest] at this
      rw [if_pos hlt, hrest]
      exact ⟨Int.le_refl _, Int.ofNat_le.mpr (Nat.le_of_lt this)⟩
    · have hge : blockSize ≤ left := by
        have := mt UInt32.lt_iff_toNat_lt.mpr hlt
        rw [hrest] at this
        exact Nat.le_of_not_lt this
      have hblock := h.le_blockSize
      rw [if_neg hlt]
      omega
  apply Counts.mk
  · show (takeStatus v data).2 = statusOK
    rw [h.takeStatus_of_left hleft]
  · show (Receive.countBlock v data).total.toNat + left = v.filesize.toNat
    omega
  · exact hsize.1
  · exact hsize.2

end Counts

/-! ## The run -/

/-- A pass under way: what it has got leaves room for another packet. -/
structure PassOpen (v : LpdVars) (pass : List Read) : Prop where
  waits : recvBlock v.blocksize [] pass = none
  room : pass = [] ∨ ((received pass).length : Int) + packetSize ≤ v.blocksize

theorem passOpen_nil (v : LpdVars) : PassOpen v [] := ⟨rfl, Or.inl rfl⟩

/-- A pass that ends does so within its buffer. -/
theorem PassOpen.length_le {v : LpdVars} {pass : List Read} {r : Read} (h : PassOpen v pass)
    (hr : r.data.length ≤ packetSize) (hv : v.blocksize ≤ blockSize) :
    (received (pass ++ [r])).length ≤ blockSize := by
  have hall : (received (pass ++ [r])).length = (received pass).length + r.data.length := by simp
  have hpacket : packetSize ≤ blockSize := by decide
  rcases h.room with rfl | hroom
  · rw [hall, received_nil, List.length_nil]
    omega
  · omega

theorem binLoop_stream {v : LpdVars} {b : Bufs} {pass reads : List Read} {file : List UInt8}
    (late : Bool) (hopen : PassOpen v pass)
    (hreads : ∀ r ∈ reads, r.data ≠ [] ∧ r.data.length ≤ packetSize)
    (hfile : received (pass ++ reads) = file ++ [statusOK])
    (hv : Counts v (received (pass ++ reads)).length) :
    ∃ blocks last, binLoop late v b (binRounds v pass reads) =
        some ⟨⟨b.got + (blocks.length + 1), b.ops ++ queueBlocks b.got blocks last⟩, 0⟩ ∧
      (blocks ++ [last]).flatten = file ∧ ∀ d ∈ blocks ++ [last], d.length ≤ blockSize := by
  induction reads generalizing v b pass file with
  | nil =>
      -- a pass that waits for more than the client sends
      exfalso
      have hle := hv.le_left
      have hlen := congrArg List.length hfile
      rw [List.append_nil] at hle hlen
      rw [List.length_append, List.length_singleton] at hlen
      rcases hopen.room with rfl | hroom
      · rw [received_nil, List.length_nil] at hlen
        omega
      · have hpacket : (packetSize : Int) = 1460 := rfl
        omega
  | cons r rs ih =>
      obtain ⟨⟨hr, hpacket⟩, hrs⟩ := List.forall_mem_cons.mp hreads
      have hsplit : received (pass ++ r :: rs) = received (pass ++ [r]) ++ received rs := by simp
      have hnext := recvBlock_next hopen.waits hr
      by_cases hend : ((received (pass ++ [r])).length : Int) + packetSize > v.blocksize ∨
          r.rcevent = false
      · -- the pass ends with this answer
        rw [if_pos hend] at hnext
        have hlen := hopen.length_le hpacket hv.le_blockSize
        rw [binRounds, hnext]
        simp only [binLoop, Bool.false_eq_true, if_false, hnext]
        rw [hsplit] at hv hfile
        by_cases hrest : received rs = []
        · rw [hrest, List.append_nil] at hv hfile
          rw [hfile] at hv hlen ⊢
          have hlast := mt (@Counts.countBlock_lt_iff _ _ 0 hv).mp (Nat.lt_irrefl 0)
          have hstatus : (Receive.countBlock v (file ++ [statusOK])).status = statusOK :=
            congrArg Prod.snd hv.takeStatus_last
          rw [if_neg hlast, hv.takeStatus_last, hstatus]
          refine ⟨[], file, rfl, List.flatten_singleton, ?_⟩
          intro d hd
          rw [List.mem_singleton.mp hd]
          rw [List.length_append] at hlen
          omega
        · rw [List.length_append] at hv
          have hleft := List.length_pos_iff.mpr hrest
          rw [if_pos (hv.countBlock_lt_iff.mpr hleft), hv.takeStatus_of_left hleft]
          -- the status byte is behind this block
          obtain ⟨file', hfile'⟩ : ∃ file', received rs = file' ++ [statusOK] := by
            refine ⟨(received rs).dropLast, ?_⟩
            have hlast := congrArg List.getLast? hfile
            rw [List.getLast?_append_of_ne_nil _ hrest, List.getLast?_concat] at hlast
            exact (List.dropLast_append_getLast? _ (by rw [hlast]; rfl)).symm
          have hwhole : received (pass ++ [r]) ++ file' = file := by
            rw [hfile', ← List.append_assoc] at hfile
            exact (List.append_inj' hfile rfl).1
          obtain ⟨blocks, last, hloop, hflat, hall⟩ :=
            @ih (Receive.countBlock v (received (pass ++ [r])))
              ((b.get 1).op (.putOut b.got (received (pass ++ [r])) prnQNormal)) [] file'
              (passOpen_nil _) hrs hfile' (hv.countBlock hleft)
          refine ⟨received (pass ++ [r]) :: blocks, last, ?_, ?_, ?_⟩
          · rw [hloop]
            simp [queueBlocks, Nat.add_assoc, Nat.add_comm 1]
          · rw [List.cons_append, List.flatten_cons, hflat, hwhole]
          · rw [List.cons_append]
            exact List.forall_mem_cons.mpr ⟨hlen, hall⟩
      · -- the pass goes on
        rw [if_neg hend] at hnext
        rw [binRounds, hnext]
        have happend : pass ++ r :: rs = (pass ++ [r]) ++ rs := by simp
        rw [happend] at hv hfile
        refine ih ⟨hnext, Or.inr ?_⟩ hrs hfile hv
        obtain ⟨hle, -⟩ := not_or.mp hend
        exact Int.not_lt.mp hle

/-- A binary data file with the status byte 0 is delivered, whatever pieces it comes in. -/
theorem receiveBinDataFile_delivers (filesize : UInt32) (late : Bool) (file : List UInt8)
    (reads : List Read) (hsize : filesize.toNat < 2147483647)
    (hlen : file.length = filesize.toNat)
    (hreads : ∀ r ∈ reads, r.data ≠ [] ∧ r.data.length ≤ packetSize)
    (hfile : received reads = file ++ [statusOK]) :
    ∃ o, receiveBinDataFile filesize late (binRounds (lpdVars filesize) [] reads) = some o ∧
      o.result = 0 ∧ Delivered o.bufs file := by
  have hall : (received reads).length = (filesize + 1).toNat := by
    rw [hfile, List.length_append, hlen, UInt32.toNat_add]
    exact (Nat.mod_eq_of_lt (show filesize.toNat + 1 < 4294967296 by omega)).symm
  have hcounts := counts_lpdVars filesize
  rw [← hall] at hcounts
  obtain ⟨blocks, last, hloop, hflat, hblocks⟩ :=
    @binLoop_stream _ noBufs [] _ _ late (passOpen_nil _) hreads hfile hcounts
  exact ⟨_, hloop, rfl, blocks, last, rfl, hflat, hblocks⟩

/-- Three bytes and the status byte in two pieces. -/
theorem receiveBinDataFile_delivers_three :
    ∃ o, receiveBinDataFile 3 false
        (binRounds (lpdVars 3) [] [⟨[0x41, 0x42], false⟩, ⟨[0x43, 0x00], true⟩]) = some o ∧
      o.result = 0 ∧ Delivered o.bufs [0x41, 0x42, 0x43] :=
  receiveBinDataFile_delivers 3 false [0x41, 0x42, 0x43]
    [⟨[0x41, 0x42], false⟩, ⟨[0x43, 0x00], true⟩] (by decide) rfl (by decide) rfl

end PrintServer.Receive
