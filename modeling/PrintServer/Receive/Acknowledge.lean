import PrintServer.Receive.DataFile

/-!
# When a data file is acknowledged

`receive_job` (lpd.c) answers a data file with the OK octet when `receive_data_file` returns 0.
The text receiver does so for complete files only.  The binary receiver also returns 0 when `recv`
fails in a pass that has bytes already, and when the last pass reads past the status byte.
-/

namespace PrintServer.Receive

open Spooler

/-- One pass that ended: the count of bytes before it, what it got, and whether its last `recv`
succeeded. -/
structure Pass where
  before : UInt32
  data : List UInt8
  ok : Bool
deriving DecidableEq

/-- The passes of `receive_bin_data_file` up to its end, or to the pass that still waits. -/
def binPasses : LpdVars → List BinRound → List Pass
  | _, [] => []
  | v, r :: rs =>
      if r.aborted then []
      else
        match recvBlock v.blocksize [] r.reads with
        | none => []
        | some (data, false) => [⟨v.total, data, false⟩]
        | some (data, true) =>
            ⟨v.total, data, true⟩ ::
              if (countBlock v data).total < v.filesize then binPasses (countBlock v data) rs
              else []

/-- The passes of `receive_txt_data_file`, with a `recv` in each. -/
def txtPasses : LpdVars → List TxtRound → List Pass
  | _, [] => []
  | v, r :: rs =>
      if r.aborted then []
      else if r.data = [] then [⟨v.total, [], false⟩]
      else
        ⟨v.total, r.data, true⟩ ::
          if (countBlock v r.data).total < v.filesize then txtPasses (countBlock v r.data) rs
          else []

/-- `recv` returns no more bytes than it is asked for. -/
def TxtFits : LpdVars → List TxtRound → Prop
  | _, [] => True
  | v, r :: rs =>
      (r.data.length : Int) ≤ v.blocksize ∧
        ((countBlock v r.data).total < v.filesize → TxtFits (countBlock v r.data) rs)

/-- A data file on its way in, by the mode of the queue. -/
inductive DataFile
  | bin (late : Bool) (rounds : List BinRound)
  | txt (rounds : List TxtRound)

/-- What `receive_data_file` returns; `holdAbort` is `PrnIsUnixHoldAbort`. -/
def receiveDataFile (holdAbort : Bool) (filesize : UInt32) : DataFile → Option Int
  | .bin late rounds =>
      if holdAbort then some (-1)
      else (receiveBinDataFile filesize late rounds).map Outcome.result
  | .txt rounds =>
      if holdAbort then some (-1) else (receiveTxtDataFile filesize rounds).map Outcome.result

/-- What `receive_job` does after `receive_data_file`: the OK octet, or a shutdown with the `rc`
that ends the job. -/
inductive JobReply
  | respondOK
  | shutdown (rc : Int)
deriving DecidableEq

def dataFileReply (receiveTimeout : Int) : JobReply :=
  if receiveTimeout < 0 then .shutdown (if receiveTimeout = -3 then -3 else -1) else .respondOK

namespace DataFile

def Fits (filesize : UInt32) : DataFile → Prop
  | .bin _ _ => True
  | .txt rounds => TxtFits (lpdVars filesize) rounds

def passes (filesize : UInt32) : DataFile → List Pass
  | .bin _ rounds => binPasses (lpdVars filesize) rounds
  | .txt rounds => txtPasses (lpdVars filesize) rounds

/-- All data bytes were received, and behind them a status byte that is 0. -/
def Complete (filesize : UInt32) (d : DataFile) : Prop :=
  ((d.passes filesize).flatMap Pass.data)[filesize.toNat]? = some statusOK

/-- Only complete files are acknowledged, and a `recv` that fails before that is an error. -/
def Acknowledges (holdAbort : Bool) (filesize : UInt32) (d : DataFile) : Prop :=
  (∀ result, receiveDataFile holdAbort filesize d = some result →
    result = 0 ∨ dataFileReply result = .respondOK → d.Complete filesize) ∧
  ((∃ p ∈ d.passes filesize, p.ok = false) → ¬ d.Complete filesize →
    ∃ result, receiveDataFile holdAbort filesize d = some result ∧ result < 0)

end DataFile

/-- The code looks at what became of the pass: a failure comes with an empty buffer, and a pass
that is not within the file ends with a status byte other than 0. -/
def Pass.Noticed (filesize : UInt32) (p : Pass) : Prop :=
  if p.ok then
    p.before + UInt32.ofNat p.data.length ≤ filesize ∧
      (p.before + UInt32.ofNat p.data.length = filesize →
        p.data.getLast?.getD statusOK ≠ statusOK)
  else p.data = []

/-- No pass of a binary file goes unnoticed, unless all of the file is there. -/
def DataFile.Checked (filesize : UInt32) : DataFile → Prop
  | .bin late rounds =>
      (DataFile.bin late rounds).Complete filesize ∨
        ∀ p ∈ binPasses (lpdVars filesize) rounds, p.Noticed (filesize + 1)
  | .txt _ => True

/-! ## Results -/

theorem binEnd_result_eq_zero_iff {status : UInt8} {late : Bool} {pbuf : Nat} {b : Bufs} :
    (binEnd status late pbuf b).result = 0 ↔ status = statusOK := by
  unfold binEnd
  by_cases h : status = statusOK
  · simp [h]
  · cases late <;> simp [h]

theorem binEnd_result_nonpos (status : UInt8) (late : Bool) (pbuf : Nat) (b : Bufs) :
    (binEnd status late pbuf b).result ≤ 0 := by
  unfold binEnd
  by_cases h : status = statusOK
  · simp [h]
  · cases late <;> simp [h]

theorem txtEnd_result_eq_zero_iff {status : UInt8} {pbuf0 pbuf1 pbuf2 : Nat} {b : Bufs} :
    (txtEnd status pbuf0 pbuf1 pbuf2 b).result = 0 ↔ status = statusOK := by
  unfold txtEnd
  by_cases h : status = statusOK <;> simp [h]

theorem txtEnd_result_nonpos (status : UInt8) (pbuf0 pbuf1 pbuf2 : Nat) (b : Bufs) :
    (txtEnd status pbuf0 pbuf1 pbuf2 b).result ≤ 0 := by
  unfold txtEnd
  by_cases h : status = statusOK <;> simp [h]

/-! ## receive_bin_data_file -/

theorem noticed_fail {filesize before : UInt32} {data : List UInt8} :
    (Pass.mk before data false).Noticed filesize ↔ data = [] := by
  unfold Pass.Noticed
  rw [if_neg Bool.false_ne_true]

/-- A pass that did not fail is noticed if the run goes on or ends with an error. -/
theorem noticed_ok_iff {v : LpdVars} {data : List UInt8} (hv : v.status = statusOK) :
    (Pass.mk v.total data true).Noticed v.filesize ↔
      (countBlock v data).total < v.filesize ∨ (countBlock v data).status ≠ statusOK := by
  rw [ne_eq, countBlock_status_eq_iff hv, countBlock_total]
  unfold Pass.Noticed
  rw [if_pos rfl]
  show v.total + UInt32.ofNat data.length ≤ v.filesize ∧
    (v.total + UInt32.ofNat data.length = v.filesize → data.getLast?.getD statusOK ≠ statusOK) ↔ _
  constructor
  · intro h
    by_cases heq : v.total + UInt32.ofNat data.length = v.filesize
    · right
      exact fun hst ↦ h.2 heq (hst heq)
    · left
      exact UInt32.lt_of_le_of_ne h.1 heq
  · intro h
    rcases h with hlt | hst
    · exact ⟨UInt32.le_of_lt hlt, fun heq ↦ absurd hlt (by rw [heq]; exact UInt32.lt_irrefl _)⟩
    · obtain ⟨heq, hlast⟩ := Classical.not_imp.mp hst
      exact ⟨by rw [heq]; exact UInt32.le_refl _, fun _ ↦ hlast⟩

/-- What the end of the run depends on, pass by pass. -/
theorem binLoop_result_eq_zero_iff {late : Bool} {v : LpdVars} {b : Bufs}
    {rounds : List BinRound} (hv : v.status = statusOK) :
    (∃ o, binLoop late v b rounds = some o ∧ o.result = 0) ↔
      ∃ p ∈ binPasses v rounds, ¬ p.Noticed v.filesize := by
  induction rounds generalizing v b with
  | nil => simp [binLoop, binPasses]
  | cons r rs ih =>
      rw [binLoop, binPasses]
      cases ha : r.aborted with
      | true => simp [binEnd_result_eq_zero_iff, statusErr, statusOK]
      | false =>
        simp only [Bool.false_eq_true, if_false]
        rcases recvBlock v.blocksize [] r.reads with _ | ⟨data, ok⟩
        · simp
        cases ok with
        | false =>
            by_cases hd : data = []
            · simp [hd, binEnd_result_eq_zero_iff, statusErr, statusOK, noticed_fail]
            · simp [hd, binEnd_result_eq_zero_iff, noticed_fail]
        | true =>
            have hpass := @noticed_ok_iff v data hv
            by_cases hlt : (countBlock v data).total < v.filesize
            · have hnoticed := hpass.mpr (Or.inl hlt)
              simp only [hlt, if_true, List.mem_cons, exists_eq_or_imp, hnoticed, not_true_eq_false, false_or]
              exact ih ((countBlock_status_of_lt hlt).trans hv)
            · simp only [hlt, if_false, List.mem_cons, exists_eq_or_imp, hpass, false_or, Option.some.injEq,
                exists_eq_left', binEnd_result_eq_zero_iff, Decidable.not_not]
              simp

theorem binLoop_result_nonpos {late : Bool} {v : LpdVars} {b : Bufs} {rounds : List BinRound}
    {o : Outcome Int} (h : binLoop late v b rounds = some o) : o.result ≤ 0 := by
  induction rounds generalizing v b with
  | nil => cases h
  | cons r rs ih =>
      rw [binLoop] at h
      split at h
      · obtain rfl := Option.some.inj h
        apply binEnd_result_nonpos
      · split at h
        · cases h
        · split at h <;> obtain rfl := Option.some.inj h <;> apply binEnd_result_nonpos
        · dsimp only at h
          split at h
          · exact ih h
          · obtain rfl := Option.some.inj h
            apply binEnd_result_nonpos

theorem binLoop_returns {late : Bool} {v : LpdVars} {b : Bufs} {rounds : List BinRound}
    (h : ∃ p ∈ binPasses v rounds, p.ok = false) : ∃ o, binLoop late v b rounds = some o := by
  induction rounds generalizing v b with
  | nil => simp [binPasses] at h
  | cons r rs ih =>
      rw [binLoop]
      rw [binPasses] at h
      cases ha : r.aborted with
      | true => simp
      | false =>
        simp only [ha, Bool.false_eq_true, if_false] at h ⊢
        rcases hr : recvBlock v.blocksize [] r.reads with _ | ⟨data, ok⟩
        · simp [hr] at h
        cases ok with
        | false => by_cases hd : data = [] <;> simp [hd]
        | true =>
            simp only [hr, List.mem_cons, exists_eq_or_imp, Bool.true_eq_false, false_or] at h
            by_cases hlt : (countBlock v data).total < v.filesize
            · simp only [hlt, if_true] at h ⊢
              exact ih h
            · simp [hlt]

/-! ## receive_txt_data_file -/

theorem txtLoop_result_nonpos {pbuf2 : Nat} {v : LpdVars} {b : Bufs} {rounds : List TxtRound}
    {o : Outcome Int} (h : txtLoop pbuf2 v b rounds = some o) : o.result ≤ 0 := by
  induction rounds generalizing v b with
  | nil => cases h
  | cons r rs ih =>
      rw [txtLoop] at h
      split at h
      · obtain rfl := Option.some.inj h
        apply txtEnd_result_nonpos
      · split at h
        · obtain rfl := Option.some.inj h
          apply txtEnd_result_nonpos
        · dsimp only at h
          split at h
          · exact ih h
          · obtain rfl := Option.some.inj h
            apply txtEnd_result_nonpos

theorem txtLoop_returns {pbuf2 : Nat} {v : LpdVars} {keepCR : Bool} {b : Bufs}
    {rounds : List TxtRound} (h : ∃ p ∈ txtPasses v rounds, p.ok = false) :
    ∃ o, txtLoop pbuf2 { v with keepCR := keepCR } b rounds = some o := by
  induction rounds generalizing v b keepCR with
  | nil => simp [txtPasses] at h
  | cons r rs ih =>
      rw [txtLoop]
      rw [txtPasses] at h
      cases ha : r.aborted with
      | true => simp
      | false =>
        by_cases hd : r.data = []
        · simp [hd]
        · simp only [ha, hd, Bool.false_eq_true, if_false, List.mem_cons, exists_eq_or_imp,
            Bool.true_eq_false, false_or] at h ⊢
          change ∃ o, (if (countBlock v r.data).total < v.filesize then _ else _) = some o
          by_cases hlt : (countBlock v r.data).total < v.filesize
          · rw [if_pos hlt] at h ⊢
            exact @ih (countBlock v r.data) _ _ h
          · simp [hlt]

/-- A text run that returns 0 has all of the file and the status byte 0. -/
theorem txtLoop_complete {pbuf2 : Nat} {v : LpdVars} {keepCR : Bool} {b : Bufs}
    {rounds : List TxtRound} {o : Outcome Int} {left : Nat} (hv : Counts v left)
    (hfits : TxtFits v rounds)
    (h : txtLoop pbuf2 { v with keepCR := keepCR } b rounds = some o) (hzero : o.result = 0) :
    ∃ file, (txtPasses v rounds).flatMap Pass.data = file ++ [statusOK] ∧
      file.length + 1 = left := by
  induction rounds generalizing v b keepCR left with
  | nil => cases h
  | cons r rs ih =>
      obtain ⟨hlen, hrest⟩ := hfits
      rw [txtLoop] at h
      rw [txtPasses]
      cases ha : r.aborted with
      | true =>
        simp only [ha, if_true, Option.some.injEq] at h
        subst h
        exact absurd (txtEnd_result_eq_zero_iff.mp hzero) (by decide)
      | false =>
        simp only [ha, Bool.false_eq_true, if_false] at h ⊢
        by_cases hd : r.data = []
        · rw [if_pos hd, Option.some.injEq] at h
          subst h
          exact absurd (txtEnd_result_eq_zero_iff.mp hzero) (by decide)
        · -- `recv` was asked for no more than what is left
          obtain ⟨left', rfl⟩ : ∃ left', left = r.data.length + left' := by
            have hle := hv.le_left
            exact ⟨left - r.data.length, by omega⟩
          rw [if_neg hd] at h ⊢
          change (if (countBlock v r.data).total < v.filesize then _ else _) = some o at h
          by_cases hlt : (countBlock v r.data).total < v.filesize
          · have hleft := hv.countBlock_lt_iff.mp hlt
            rw [if_pos hlt] at h ⊢
            obtain ⟨file, hfile, hcount⟩ := ih (hv.countBlock hleft) (hrest hlt) h
            refine ⟨r.data ++ file, ?_, ?_⟩
            · rw [List.flatMap_cons, hfile, List.append_assoc]
            · rw [List.length_append]
              omega
          · have hleft : left' = 0 := Nat.eq_zero_of_not_pos (mt hv.countBlock_lt_iff.mpr hlt)
            subst hleft
            rw [if_neg hlt, Option.some.injEq] at h
            rw [if_neg hlt]
            subst h
            have hstatus : (takeStatus v r.data).2 = statusOK :=
              txtEnd_result_eq_zero_iff.mp hzero
            -- the last byte of the pass is the status byte
            obtain ⟨file, last, hlast⟩ : ∃ file last, r.data = file ++ [last] :=
              ⟨_, _, (List.dropLast_append_getLast hd).symm⟩
            rw [hlast] at hv hstatus ⊢
            rw [Counts.takeStatus_last hv] at hstatus
            refine ⟨file, ?_, ?_⟩
            · rw [← hstatus, List.flatMap_cons, List.flatMap_nil, List.append_nil]
            · rw [List.length_append]
              rfl

/-! ## receive_data_file -/

theorem receiveDataFile_nonpos {holdAbort : Bool} {filesize : UInt32} {d : DataFile}
    {result : Int} (h : receiveDataFile holdAbort filesize d = some result) : result ≤ 0 := by
  cases holdAbort with
  | true =>
      have hresult : result = -1 := by
        cases d <;> exact (Option.some.inj h).symm
      omega
  | false =>
      cases d with
      | bin late rounds =>
          obtain ⟨o, ho, rfl⟩ := Option.map_eq_some_iff.mp h
          exact binLoop_result_nonpos ho
      | txt rounds =>
          obtain ⟨o, ho, rfl⟩ := Option.map_eq_some_iff.mp h
          exact txtLoop_result_nonpos ho

theorem receiveDataFile_returns (holdAbort : Bool) {filesize : UInt32} {d : DataFile}
    (h : ∃ p ∈ d.passes filesize, p.ok = false) :
    ∃ result, receiveDataFile holdAbort filesize d = some result := by
  cases holdAbort with
  | true => cases d <;> exact ⟨-1, rfl⟩
  | false =>
      cases d with
      | bin late rounds =>
          obtain ⟨o, ho⟩ := @binLoop_returns late _ noBufs _ h
          exact ⟨o.result, Option.map_eq_some_iff.mpr ⟨o, ho, rfl⟩⟩
      | txt rounds =>
          obtain ⟨o, ho⟩ := @txtLoop_returns 0 _ false (noBufs.get 1) _ h
          exact ⟨o.result, Option.map_eq_some_iff.mpr ⟨o, ho, rfl⟩⟩

theorem respondOK_iff {result : Int} : dataFileReply result = .respondOK ↔ 0 ≤ result := by
  unfold dataFileReply
  by_cases h : result < 0
  · rw [if_pos h]
    exact iff_of_false (by intro hr; cases hr) (Int.not_le.mpr h)
  · rw [if_neg h]
    exact iff_of_true rfl (Int.not_lt.mp h)

/-- Everything hangs on the result 0. -/
theorem acknowledges_iff_of_zero {holdAbort : Bool} {filesize : UInt32} {d : DataFile} :
    d.Acknowledges holdAbort filesize ↔
      (receiveDataFile holdAbort filesize d = some 0 → d.Complete filesize) := by
  constructor
  · intro h hzero
    exact h.1 0 hzero (Or.inl rfl)
  · intro h
    apply And.intro
    · intro result hresult hok
      have hnonpos := receiveDataFile_nonpos hresult
      have hnonneg : 0 ≤ result := by
        rcases hok with rfl | hreply
        · exact Int.le_refl _
        · exact respondOK_iff.mp hreply
      rw [Int.le_antisymm hnonpos hnonneg] at hresult
      exact h hresult
    · intro hfail hcomplete
      obtain ⟨result, hresult⟩ := receiveDataFile_returns holdAbort hfail
      have hne : result ≠ 0 := by
        rintro rfl
        exact hcomplete (h hresult)
      exact ⟨result, hresult, Int.lt_iff_le_and_ne.mpr ⟨receiveDataFile_nonpos hresult, hne⟩⟩

/-- A data file is acknowledged only when it is complete if and only if it is in text mode, or no
pass of it goes unnoticed before it is complete; a job that was aborted while on hold never is. -/
theorem acknowledges_iff (holdAbort : Bool) (filesize : UInt32) (d : DataFile)
    (h : d.Fits filesize) :
    d.Acknowledges holdAbort filesize ↔ holdAbort = true ∨ d.Checked filesize := by
  rw [acknowledges_iff_of_zero]
  cases holdAbort with
  | true =>
      have hne : receiveDataFile true filesize d ≠ some 0 := by
        cases d <;> exact fun h ↦ absurd (Option.some.inj h) (by decide)
      exact iff_of_true (fun hzero ↦ absurd hzero hne) (Or.inl rfl)
  | false =>
      rw [or_iff_right Bool.false_ne_true]
      cases d with
      | bin late rounds =>
          have hzero := @binLoop_result_eq_zero_iff late (lpdVars filesize) noBufs rounds rfl
          have hresult : receiveDataFile false filesize (.bin late rounds) = some 0 ↔
              ∃ o, binLoop late (lpdVars filesize) noBufs rounds = some o ∧ o.result = 0 :=
            Option.map_eq_some_iff
          rw [hresult, hzero]
          unfold DataFile.Checked
          constructor
          · intro himp
            by_cases hall : ∀ p ∈ binPasses (lpdVars filesize) rounds, p.Noticed (filesize + 1)
            · exact Or.inr hall
            · push Not at hall
              exact Or.inl (himp hall)
          · rintro hor ⟨p, hp, hnot⟩
            exact hor.resolve_right fun hall ↦ hnot (hall p hp)
      | txt rounds =>
          apply iff_of_true _ trivial
          intro hzero
          obtain ⟨o, ho, hresult⟩ := Option.map_eq_some_iff.mp hzero
          obtain ⟨file, hfile, hlen⟩ :=
            @txtLoop_complete 0 _ false _ _ _ _ (counts_lpdVars filesize) h ho hresult
          show ((txtPasses (lpdVars filesize) rounds).flatMap Pass.data)[filesize.toNat]? = _
          have hfilesize : filesize.toNat = file.length := by
            rw [UInt32.toNat_add, show (1 : UInt32).toNat = 1 from rfl] at hlen
            have := filesize.toNat_lt
            omega
          rw [hfile, hfilesize]
          exact List.getElem?_concat_length

/-- A text file of one byte. -/
theorem acknowledges_one_byte : (DataFile.txt [⟨false, [0x41, 0x00]⟩]).Acknowledges false 1 := by
  apply (acknowledges_iff false 1 (.txt [⟨false, [0x41, 0x00]⟩]) _).mpr (Or.inr trivial)
  unfold DataFile.Fits TxtFits TxtFits
  decide

/-- The connection breaks after 1 of 5000 bytes, and the client is told that its file is there. -/
theorem truncated_acknowledged : ¬ (DataFile.bin false
    [⟨false, [⟨[0x41], true⟩, ⟨[], true⟩]⟩]).Acknowledges false 5000 := by
  rw [acknowledges_iff_of_zero]
  show ¬ (_ → _ = some statusOK)
  decide

end PrintServer.Receive
