import Mathlib.Data.List.Induction
import Mathlib.Data.List.Range
import Mathlib.Logic.Function.Basic

/-!
# The job log

`JL_PutList`, `JL_AddSize` and `JL_EndList` of joblog.c, which keep the last jobs in a ring, and the
two displays of httpd.c that read it.  Jobs are numbered from 1, and the number skips 0 when it
wraps.
-/

namespace PrintServer.Spooler

/-- `MAX_JOB_LIST` -/
def maxJobList : Nat := 20

/-- A `JOB_LOG`; the times are those of `msclock`. -/
structure JobLog where
  jobID : UInt32
  protocol : UInt8
  port : UInt8
  status : UInt8
  loginUser : List UInt8
  startTime : UInt32
  endTime : UInt32
  byteSize : UInt32
deriving DecidableEq

/-- `JOBCount`, `CurOFTotal`, `JobTotCount` and `JOBLIST` -/
structure JobLogs where
  jobCount : UInt8 → UInt32
  curOFTotal : UInt8 → UInt32
  jobTotCount : UInt32
  jobList : Nat → Option JobLog

inductive LogCall
  /-- `JL_PutList( proto , port , person , pLen )`; `memory` is what `malloc` has to give. -/
  | putList (proto port : UInt8) (person : List UInt8) (memory : Bool) (now : UInt32)
  | addSize (port : UInt8) (size : UInt32)
  | endList (port btStatus : UInt8) (now : UInt32)

namespace JobLogs

variable (s : JobLogs)

/-- `JobTotCount += 1`, but never to 0. -/
def nextJob : UInt32 := if s.jobTotCount + 1 = 0 then 1 else s.jobTotCount + 1

def putIndex : UInt32 := s.jobTotCount % 20

/-- The index of `JL_AddSize` and `JL_EndList`. -/
def sizeIndex (port : UInt8) : UInt32 := (s.curOFTotal port - 1) % 20

/-- The index of `ECHO_CURJOBLIST`. -/
def currentIndex (port : UInt8) : UInt32 := s.curOFTotal port % 20 - 1

/-- `none` is a record without memory: it is cleared and filled through NULL. -/
def putList (proto port : UInt8) (person : List UInt8) (memory : Bool) (now : UInt32) :
    Option JobLogs :=
  if s.jobList s.putIndex.toNat = none ∧ memory = false then none
  else some
    { jobCount := Function.update s.jobCount port (s.jobCount port + 1)
      curOFTotal := Function.update s.curOFTotal port s.nextJob
      jobTotCount := s.nextJob
      jobList := Function.update s.jobList s.putIndex.toNat (some
        { jobID := s.nextJob
          protocol := proto
          port := port + 1
          status := 1
          loginUser := person ++ List.replicate (32 - person.length) 0
          startTime := now
          endTime := 0
          byteSize := 0 }) }

/-- Changes the record at the index of `JL_AddSize` and `JL_EndList`, if there is one. -/
def changeJob (port : UInt8) (change : JobLog → JobLog) : JobLogs :=
  let i := (s.sizeIndex port).toNat
  { s with jobList := Function.update s.jobList i ((s.jobList i).map change) }

def addSize (port : UInt8) (size : UInt32) : JobLogs :=
  s.changeJob port fun job ↦ { job with byteSize := job.byteSize + size }

def endList (port btStatus : UInt8) (now : UInt32) : JobLogs :=
  s.changeJob port fun job ↦ { job with status := btStatus, endTime := now }

/-- The rounds of `ECHO_JOBLIST`: the indices and the records it displays. -/
def visit : Nat → UInt32 → List (Nat × JobLog)
  | 0, _ => []
  | n + 1, k =>
      let i := ((k - 1) % 20).toNat
      match s.jobList i with
      | none => []
      | some job =>
          if job.jobID = 0 then []
          else (i, job) :: if k - 1 = 0 then [] else visit n (k - 1)

def echoJobList : List (Nat × JobLog) :=
  if s.jobTotCount = 0 then [] else s.visit maxJobList s.jobTotCount

end JobLogs

/-! ## Which record is whose -/

/-- The log, and beside it the number of `JL_PutList` calls, which of them made the record at an
index, and which was the last of a port; 0 is none. -/
structure TracedLogs where
  log : JobLogs
  count : Nat
  madeBy : Nat → Nat
  lastOf : UInt8 → Nat

namespace TracedLogs

def start : TracedLogs :=
  ⟨⟨fun _ ↦ 0, fun _ ↦ 0, 0, fun _ ↦ none⟩, 0, fun _ ↦ 0, fun _ ↦ 0⟩

def exec (t : TracedLogs) : LogCall → Option TracedLogs
  | .putList proto port person memory now =>
      (t.log.putList proto port person memory now).map fun log ↦
        { log
          count := t.count + 1
          madeBy := Function.update t.madeBy t.log.putIndex.toNat (t.count + 1)
          lastOf := Function.update t.lastOf port (t.count + 1) }
  | .addSize port size => some { t with log := t.log.addSize port size }
  | .endList port btStatus now => some { t with log := t.log.endList port btStatus now }

def run (calls : List LogCall) : Option TracedLogs := calls.foldlM exec start

/-- The functions and the display of the current jobs find the last record of each port that has
had fewer than `MAX_JOB_LIST` jobs logged after it, and the job list shows the latest records. -/
structure Addressed (t : TracedLogs) : Prop where
  record : ∀ port, t.lastOf port ≠ 0 → t.count - t.lastOf port < maxJobList →
    ∀ i ∈ [t.log.sizeIndex port, t.log.currentIndex port],
      i.toNat < maxJobList ∧ t.madeBy i.toNat = t.lastOf port
  latest : t.log.echoJobList.map (fun shown ↦ t.madeBy shown.1) =
    (List.range (min maxJobList t.count)).map (t.count - ·)
  descending : (t.log.echoJobList.map fun shown ↦ shown.2.jobID).Pairwise (· > ·)

/-- The number of the job that the `n`-th call of `JL_PutList` logs. -/
def jobNumber (n : Nat) : Nat := (n - 1) % 4294967295 + 1

/-- Where it puts the record. -/
def slot (n : Nat) : Nat := if n = 1 then 0 else jobNumber (n - 1) % 20

/-- What a run makes of the log. -/
structure Inv (t : TracedLogs) : Prop where
  total : t.log.jobTotCount.toNat = if t.count = 0 then 0 else jobNumber t.count
  current : ∀ port, (t.log.curOFTotal port).toNat =
    if t.lastOf port = 0 then 0 else jobNumber (t.lastOf port)
  last_le : ∀ port, t.lastOf port ≤ t.count
  made_le : ∀ i, t.madeBy i ≤ t.count
  made_slot : ∀ i, t.madeBy i ≠ 0 → slot (t.madeBy i) = i
  le_made : ∀ n, n ≠ 0 → n ≤ t.count → n ≤ t.madeBy (slot n)
  job : ∀ i, (t.log.jobList i).map (fun job ↦ job.jobID.toNat) =
    if t.madeBy i = 0 then none else some (jobNumber (t.madeBy i))

variable {t t' : TracedLogs} {calls : List LogCall}

theorem inv_start : start.Inv where
  total := rfl
  current _ := rfl
  last_le _ := Nat.le_refl 0
  made_le _ := Nat.le_refl 0
  made_slot _ h := absurd rfl h
  le_made _ hn h := absurd (Nat.le_zero.mp h) hn
  job _ := rfl

theorem jobNumber_succ {n : Nat} (hn : n ≠ 0) :
    jobNumber (n + 1) = if jobNumber n = 4294967295 then 1 else jobNumber n + 1 := by
  unfold jobNumber
  split <;> omega

theorem Inv.nextJob (h : t.Inv) : t.log.nextJob.toNat = jobNumber (t.count + 1) := by
  have htotal := h.total
  have hadd : (t.log.jobTotCount + 1).toNat = (t.log.jobTotCount.toNat + 1) % 4294967296 := rfl
  have hzero : t.log.jobTotCount + 1 = 0 ↔
      (t.log.jobTotCount.toNat + 1) % 4294967296 = 0 := by
    rw [← UInt32.toNat_inj, hadd]
    rfl
  have hlt := t.log.jobTotCount.toNat_lt
  unfold JobLogs.nextJob
  by_cases hcount : t.count = 0
  · rw [if_pos hcount] at htotal
    rw [if_neg (by rw [hzero, htotal]; decide), hadd, htotal, hcount]
    rfl
  · rw [if_neg hcount] at htotal
    rw [jobNumber_succ hcount, ← htotal]
    by_cases hlast : t.log.jobTotCount.toNat = 4294967295
    · rw [if_pos (by rw [hzero, hlast]), if_pos hlast]
      rfl
    · rw [if_neg (by rw [hzero]; omega), if_neg hlast, hadd]
      omega

theorem Inv.putIndex (h : t.Inv) : t.log.putIndex.toNat = slot (t.count + 1) := by
  have htotal := h.total
  have hmod : t.log.putIndex.toNat = t.log.jobTotCount.toNat % 20 := rfl
  unfold slot
  rw [hmod, htotal, Nat.add_sub_cancel]
  split
  · rw [if_pos (by omega)]
  · rw [if_neg (by omega)]

theorem Inv.changeJob (h : t.Inv) {port : UInt8} {change : JobLog → JobLog}
    (hchange : ∀ job, (change job).jobID = job.jobID) :
    Inv { t with log := t.log.changeJob port change } where
  total := h.total
  current := h.current
  last_le := h.last_le
  made_le := h.made_le
  made_slot := h.made_slot
  le_made := h.le_made
  job i := by
    rw [← h.job i]
    unfold JobLogs.changeJob
    simp only [Function.update_apply]
    split
    · rename_i hi
      rw [hi, Option.map_map]
      congr 1
      funext job
      exact congrArg UInt32.toNat (hchange job)
    · rfl

theorem slot_lt (n : Nat) : slot n < 20 := by
  unfold slot
  split <;> omega

/-- The next record replaces the one at its index. -/
theorem Inv.putList (h : t.Inv) {proto port : UInt8} {person : List UInt8} {memory : Bool}
    {now : UInt32} (hexec : t.exec (.putList proto port person memory now) = some t') :
    t'.Inv := by
  have hindex := h.putIndex
  have hnext := h.nextJob
  obtain ⟨log, hput, rfl⟩ := Option.map_eq_some_iff.mp hexec
  unfold JobLogs.putList at hput
  split at hput
  · cases hput
  obtain rfl := Option.some.inj hput
  have hmade (i : Nat) : Function.update t.madeBy t.log.putIndex.toNat (t.count + 1) i =
      if i = slot (t.count + 1) then t.count + 1 else t.madeBy i := by
    rw [Function.update_apply, hindex]
  constructor
  · exact hnext
  · intro p
    simp only [Function.update_apply]
    split
    · rw [hnext, if_neg (Nat.succ_ne_zero _)]
    · exact h.current p
  · intro p
    simp only [Function.update_apply]
    split
    · exact Nat.le_refl _
    · exact (h.last_le p).trans (Nat.le_succ _)
  · intro i
    simp only [hmade]
    split
    · exact Nat.le_refl _
    · exact (h.made_le i).trans (Nat.le_succ _)
  · intro i
    simp only [hmade]
    split
    · rename_i hi
      exact fun _ ↦ hi.symm
    · exact h.made_slot i
  · intro n hn hle
    simp only [hmade] at hle ⊢
    split
    · exact hle
    · rename_i hslot
      have hne : n ≠ t.count + 1 := fun heq ↦ hslot (congrArg slot heq)
      exact h.le_made n hn (by omega)
  · intro i
    simp only [Function.update_apply, hindex]
    split
    · rw [Option.map_some, if_neg (Nat.succ_ne_zero _)]
      exact congrArg some hnext
    · exact h.job i

theorem Inv.exec (h : t.Inv) {call : LogCall} (hexec : t.exec call = some t') : t'.Inv := by
  cases call with
  | putList proto port person memory now => exact h.putList hexec
  | addSize port size =>
      obtain rfl := Option.some.inj hexec
      exact h.changeJob fun _ ↦ rfl
  | endList port btStatus now =>
      obtain rfl := Option.some.inj hexec
      exact h.changeJob fun _ ↦ rfl

/-! ## The records of the latest jobs -/

theorem Inv.sizeIndex (h : t.Inv) {port : UInt8} (hport : t.lastOf port ≠ 0) :
    (t.log.sizeIndex port).toNat = (jobNumber (t.lastOf port) - 1) % 20 := by
  have hcur := h.current port
  rw [if_neg hport] at hcur
  have hle : (1 : UInt32) ≤ t.log.curOFTotal port := by
    rw [UInt32.le_iff_toNat_le, hcur]
    exact Nat.le_add_left 1 _
  unfold JobLogs.sizeIndex
  rw [UInt32.toNat_mod, UInt32.toNat_sub_of_le _ _ hle, hcur]
  rfl

/-- 0 is not a record's index less 1. -/
theorem Inv.currentIndex (h : t.Inv) {port : UInt8} (hport : t.lastOf port ≠ 0) :
    (t.log.currentIndex port).toNat =
      if jobNumber (t.lastOf port) % 20 = 0 then 4294967295
      else jobNumber (t.lastOf port) % 20 - 1 := by
  have hcur := h.current port
  rw [if_neg hport] at hcur
  have hmod : (t.log.curOFTotal port % 20).toNat = jobNumber (t.lastOf port) % 20 := by
    rw [UInt32.toNat_mod, hcur]
    rfl
  unfold JobLogs.currentIndex
  split
  · rename_i hzero
    have heq : t.log.curOFTotal port % 20 = 0 := UInt32.toNat_inj.mp (hmod.trans hzero)
    rw [heq]
    rfl
  · rename_i hne
    have hle : (1 : UInt32) ≤ t.log.curOFTotal port % 20 := by
      rw [UInt32.le_iff_toNat_le, hmod]
      exact Nat.one_le_iff_ne_zero.mpr hne
    rw [UInt32.toNat_sub_of_le _ _ hle, hmod]
    rfl

/-- The numbers of the latest jobs go down by one: they have not wrapped yet, or not lately. -/
def Unwrapped (count : Nat) : Prop := count ≤ 4294967295 ∨ maxJobList < jobNumber count

theorem jobNumber_window {count n : Nat} (hcount : Unwrapped count) (hn : n ≠ 0)
    (hle : n ≤ count) (hlate : count - n < maxJobList) :
    jobNumber n + (count - n) = jobNumber count ∧ slot n = (jobNumber n - 1) % 20 := by
  unfold Unwrapped maxJobList jobNumber at *
  unfold slot jobNumber
  split <;> omega

/-- The record of a late job is still there. -/
theorem Inv.madeBy_late (h : t.Inv) (hcount : Unwrapped t.count) {n : Nat} (hn : n ≠ 0)
    (hle : n ≤ t.count) (hlate : t.count - n < maxJobList) :
    t.madeBy ((jobNumber n - 1) % 20) = n := by
  obtain ⟨hnumber, hslot⟩ := jobNumber_window hcount hn hle hlate
  have hmade := h.le_made n hn hle
  rw [← hslot]
  by_contra hne
  have hle' := h.made_le (slot n)
  have hsame := h.made_slot (slot n) (by omega)
  obtain ⟨hnumber', hslot'⟩ := jobNumber_window hcount (n := t.madeBy (slot n)) (by omega) hle'
    (by omega)
  have hpos : 0 < jobNumber n := Nat.succ_pos _
  unfold maxJobList at hlate
  omega

/-- The job list goes down from index to index. -/
theorem visit_index {s : JobLogs} {m p : Nat} {k : UInt32} {shown : Nat × JobLog}
    (hk : k ≠ 0) (hshown : (s.visit m k)[p]? = some shown) :
    p < k.toNat ∧ shown.1 = (k.toNat - 1 - p) % 20 := by
  induction m generalizing k p with
  | zero => cases hshown
  | succ m ih =>
      have hpos : k.toNat ≠ 0 := fun h ↦ hk (UInt32.toNat_inj.mp h)
      have hle : (1 : UInt32) ≤ k := by
        rw [UInt32.le_iff_toNat_le]
        exact Nat.one_le_iff_ne_zero.mpr hpos
      have hpred : (k - 1).toNat = k.toNat - 1 := UInt32.toNat_sub_of_le _ _ hle
      have hindex : ((k - 1) % 20).toNat = (k.toNat - 1) % 20 := by
        rw [UInt32.toNat_mod, hpred]
        rfl
      unfold JobLogs.visit at hshown
      simp only [hindex] at hshown
      split at hshown
      · cases hshown
      split at hshown
      · cases hshown
      cases p with
      | zero =>
          obtain rfl := Option.some.inj hshown
          exact ⟨Nat.pos_of_ne_zero hpos, rfl⟩
      | succ p =>
          rw [List.getElem?_cons_succ] at hshown
          split at hshown
          · cases hshown
          · rename_i hmore
            obtain ⟨hlt, heq⟩ := ih hmore hshown
            rw [hpred] at hlt heq
            refine ⟨by omega, ?_⟩
            rw [heq]
            congr 1
            omega

/-- The number 1 is that of the first job, as long as it is shown. -/
theorem first_iff {count n j : Nat} (hcount : Unwrapped count) (hn : n + j = jobNumber count)
    (hj : j < maxJobList) (hlt : j < count) : n = 1 ↔ count = j + 1 := by
  unfold Unwrapped maxJobList jobNumber at *
  omega

/-- What it shows while the numbers go down by one. -/
theorem Inv.visit (h : t.Inv) (hcount : Unwrapped t.count) {m j : Nat} {k : UInt32}
    (hk : k.toNat + j = jobNumber t.count) (hj : j < t.count) (hm : j + m ≤ maxJobList)
    (hpos : k ≠ 0) :
    (t.log.visit m k).map (fun shown ↦ t.madeBy shown.1) =
        (List.range (min m (t.count - j))).map (t.count - j - ·) ∧
      (t.log.visit m k).map (fun shown ↦ shown.2.jobID.toNat) =
        (List.range (min m (t.count - j))).map (k.toNat - ·) := by
  induction m generalizing k j with
  | zero =>
      rw [Nat.zero_min]
      exact ⟨rfl, rfl⟩
  | succ m ih =>
      have hpos' : k.toNat ≠ 0 := fun heq ↦ hpos (UInt32.toNat_inj.mp heq)
      have hle : (1 : UInt32) ≤ k := by
        rw [UInt32.le_iff_toNat_le]
        exact Nat.one_le_iff_ne_zero.mpr hpos'
      have hpred : (k - 1).toNat = k.toNat - 1 := UInt32.toNat_sub_of_le _ _ hle
      obtain ⟨hnumber, -⟩ := jobNumber_window hcount (n := t.count - j) (by omega) (by omega)
        (by omega)
      have hk' : jobNumber (t.count - j) = k.toNat := by omega
      have hmade : t.madeBy ((k - 1) % 20).toNat = t.count - j := by
        have hlate := h.madeBy_late hcount (n := t.count - j) (by omega) (by omega) (by omega)
        rw [hk'] at hlate
        rw [UInt32.toNat_mod, hpred]
        exact hlate
      have hjob := h.job ((k - 1) % 20).toNat
      rw [hmade, if_neg (by omega), hk', Option.map_eq_some_iff] at hjob
      obtain ⟨job, hlist, hid⟩ := hjob
      have hid' : job.jobID ≠ 0 := fun heq ↦ hpos' (by rw [← hid, heq]; rfl)
      have hmin : min (m + 1) (t.count - j) = min m (t.count - (j + 1)) + 1 := by omega
      unfold JobLogs.visit
      simp only [hlist, if_neg hid', List.map_cons, hmade, hid, hmin, List.range_succ_eq_map,
        List.map_map]
      have hfirst : t.count - j - 0 = t.count - j := rfl
      by_cases hend : k - 1 = 0
      · have hone : k.toNat - 1 = 0 := by rw [← hpred, hend]; rfl
        have hlast : t.count - (j + 1) = 0 := by
          have hfirst := (first_iff hcount hk (by omega) hj).mp (by omega)
          omega
        rw [if_pos hend, hlast, Nat.min_zero]
        exact ⟨rfl, rfl⟩
      · have hone : k.toNat - 1 ≠ 0 := fun heq ↦
          hend (UInt32.toNat_inj.mp (hpred.trans heq))
        have hmore : j + 1 < t.count := by
          have hnot := mt (first_iff hcount hk (by omega) hj).mpr (by omega)
          omega
        obtain ⟨hmade', hid''⟩ := ih (j := j + 1) (by omega) hmore (by omega) hend
        rw [if_neg hend, hmade', hid'', hpred]
        constructor
        · congr 1
          apply List.map_congr_left
          intro i _
          change t.count - (j + 1) - i = t.count - j - (i + 1)
          omega
        · congr 1
          apply List.map_congr_left
          intro i _
          change k.toNat - 1 - i = k.toNat - (i + 1)
          omega

theorem Inv.echoJobList (h : t.Inv) (hcount : Unwrapped t.count) :
    t.log.echoJobList.map (fun shown ↦ t.madeBy shown.1) =
        (List.range (min maxJobList t.count)).map (t.count - ·) ∧
      (t.log.echoJobList.map fun shown ↦ shown.2.jobID).Pairwise (· > ·) := by
  have htotal := h.total
  unfold JobLogs.echoJobList
  by_cases hzero : t.count = 0
  · rw [if_pos hzero] at htotal
    rw [if_pos (UInt32.toNat_inj.mp htotal), hzero, Nat.min_zero]
    exact ⟨rfl, List.Pairwise.nil⟩
  · rw [if_neg hzero] at htotal
    have hpos : t.log.jobTotCount ≠ 0 := by
      intro heq
      rw [heq] at htotal
      exact Nat.succ_ne_zero _ htotal.symm
    obtain ⟨hmade, hid⟩ := h.visit hcount (m := maxJobList) (j := 0) (k := t.log.jobTotCount)
      htotal (Nat.pos_of_ne_zero hzero) (Nat.le_refl _) hpos
    rw [if_neg hpos]
    refine ⟨hmade, ?_⟩
    have hdown : (((t.log.visit maxJobList t.log.jobTotCount).map
        fun shown ↦ shown.2.jobID).map UInt32.toNat).Pairwise (· > ·) := by
      rw [List.map_map]
      change ((t.log.visit maxJobList t.log.jobTotCount).map
        fun shown ↦ shown.2.jobID.toNat).Pairwise _
      rw [hid, List.pairwise_map]
      refine List.Pairwise.imp_of_mem ?_ List.pairwise_lt_range
      intro a b ha hb hlt
      rw [List.mem_range] at ha hb
      have hnumber : t.count ≤ t.log.jobTotCount.toNat ∨ maxJobList < t.log.jobTotCount.toNat := by
        rw [htotal]
        unfold Unwrapped maxJobList jobNumber at *
        omega
      omega
    exact (List.pairwise_map.mp hdown).imp fun {a b} hlt ↦ UInt32.lt_iff_toNat_lt.mpr hlt

/-- The job of the number 1 after a wrap is logged at the index behind the largest number. -/
theorem slot_after_wrap {n : Nat} (hwrapped : 4294967295 < n) (hn : jobNumber n = 20) :
    slot (n - 19) = 15 := by
  have hmod : (n - 1) % 4294967295 = 19 := Nat.succ.inj hn
  obtain ⟨q, hq⟩ : ∃ q, n = 4294967295 * (q + 1) + 20 := by
    have hdiv := Nat.div_add_mod (n - 1) 4294967295
    rw [hmod] at hdiv
    have hpos : (n - 1) / 4294967295 ≠ 0 := by
      intro hzero
      rw [hzero] at hdiv
      omega
    exact ⟨(n - 1) / 4294967295 - 1, by omega⟩
  have hlast : n - 19 - 1 - 1 = 4294967295 * q + 4294967294 := by omega
  unfold slot jobNumber
  rw [if_neg (by omega), hlast, Nat.mul_add_mod]

/-- The records are found and shown unless the numbers have wrapped lately, or a late job of a port
has a multiple of `MAX_JOB_LIST` for its number. -/
theorem Inv.addressed_iff (h : t.Inv) : t.Addressed ↔ Unwrapped t.count ∧
    ∀ port, t.lastOf port ≠ 0 → t.count - t.lastOf port < maxJobList →
      jobNumber (t.lastOf port) % maxJobList ≠ 0 := by
  constructor
  · intro haddr
    constructor
    · by_contra hwrapped
      unfold Unwrapped maxJobList at hwrapped
      have hlatest := haddr.latest
      have htotal := h.total
      rw [if_neg (by omega)] at htotal
      have hpos : t.log.jobTotCount ≠ 0 := by
        intro heq
        rw [heq] at htotal
        exact Nat.succ_ne_zero _ htotal.symm
      -- the last record shown is at index 0, and the record of the number 1 is not
      have hget := congrArg (·[19]?) hlatest
      unfold JobLogs.echoJobList at hget
      rw [if_neg hpos, Nat.min_eq_left (by unfold maxJobList; omega)] at hget
      simp only [List.getElem?_map] at hget
      rw [List.getElem?_range (by decide), Option.map_some, Option.map_eq_some_iff] at hget
      obtain ⟨shown, hshown, hmade⟩ := hget
      obtain ⟨hlt, hindex⟩ := visit_index hpos hshown
      have hslot := h.made_slot shown.1 (by omega)
      have hnumber : jobNumber t.count = 20 := by omega
      have hzero : shown.1 = 0 := by omega
      rw [hmade, hzero, slot_after_wrap (by omega) hnumber] at hslot
      exact absurd hslot (by decide)
    · intro port hport hlate hzero
      obtain ⟨hlt, -⟩ := haddr.record port hport hlate (t.log.currentIndex port) (by simp)
      have hzero' : jobNumber (t.lastOf port) % 20 = 0 := hzero
      rw [h.currentIndex hport, if_pos hzero'] at hlt
      exact absurd hlt (by decide)
  · intro ⟨hcount, hcurrent⟩
    obtain ⟨hlatest, hdown⟩ := h.echoJobList hcount
    refine ⟨fun port hport hlate i hi ↦ ?_, hlatest, hdown⟩
    have hmade := h.madeBy_late hcount hport (h.last_le port) hlate
    have hne : jobNumber (t.lastOf port) % 20 ≠ 0 := hcurrent port hport hlate
    have hindex : i.toNat = (jobNumber (t.lastOf port) - 1) % 20 := by
      rcases List.mem_pair.mp hi with rfl | rfl
      · exact h.sizeIndex hport
      · rw [h.currentIndex hport, if_neg hne]
        omega
    rw [hindex]
    exact ⟨Nat.mod_lt _ (by decide), hmade⟩

/-! ## Histories -/

/-- The ports of the jobs that a history logs, and whether there is memory for their records. -/
def jobs (calls : List LogCall) : List (UInt8 × Bool) :=
  calls.filterMap fun
    | .putList _ port _ memory _ => some (port, memory)
    | .addSize _ _ => none
    | .endList _ _ _ => none

/-- The number of a port's last job, 0 if it has none. -/
def lastJob (logged : List (UInt8 × Bool)) (port : UInt8) : Nat :=
  logged.length - logged.reverse.findIdx (·.1 = port)

theorem lastJob_concat {logged : List (UInt8 × Bool)} {job : UInt8 × Bool} :
    lastJob (logged ++ [job]) = Function.update (lastJob logged) job.1 (logged.length + 1) := by
  funext port
  unfold lastJob
  rw [List.reverse_concat, List.findIdx_cons, List.length_append, List.length_singleton,
    Function.update_apply]
  by_cases hport : job.1 = port
  · rw [if_pos hport.symm, decide_eq_true hport]
    rfl
  · rw [if_neg (Ne.symm hport), decide_eq_false hport, cond_false]
    omega

/-- The first round fills the ring. -/
theorem slot_first {n : Nat} (hn : n ≠ 0) (hle : n ≤ 20) : slot n = n - 1 := by
  unfold slot jobNumber
  by_cases hone : n = 1
  · rw [if_pos hone, hone]
  · rw [if_neg hone, Nat.mod_eq_of_lt (show n - 1 - 1 < 4294967295 by omega)]
    omega

/-- The record of a job has no memory yet while the ring is not full. -/
theorem Inv.jobList_eq_none (h : t.Inv) :
    t.log.jobList t.log.putIndex.toNat = none ↔ t.count < maxJobList := by
  have hjob := h.job t.log.putIndex.toNat
  rw [h.putIndex] at hjob ⊢
  have hmade : t.madeBy (slot (t.count + 1)) = 0 ↔ t.count < maxJobList := by
    constructor
    · intro hzero
      by_contra hfull
      unfold maxJobList at hfull
      have hlt := slot_lt (t.count + 1)
      have hsame : slot (slot (t.count + 1) + 1) = slot (t.count + 1) :=
        slot_first (Nat.succ_ne_zero _) (by omega)
      have hle := h.le_made (slot (t.count + 1) + 1) (Nat.succ_ne_zero _) (by omega)
      rw [hsame, hzero] at hle
      omega
    · intro hlt
      unfold maxJobList at hlt
      by_contra hne
      have hle := h.made_le (slot (t.count + 1))
      have hslot := h.made_slot _ hne
      have hnext : slot (t.count + 1) = t.count :=
        slot_first (Nat.succ_ne_zero _) (by omega)
      rw [hnext] at hne hle hslot
      rw [slot_first hne (by omega)] at hslot
      omega
  rw [← hmade]
  constructor
  · intro hnone
    rw [hnone] at hjob
    by_contra hne
    rw [if_neg hne] at hjob
    cases hjob
  · intro hzero
    rw [if_pos hzero] at hjob
    exact Option.map_eq_none_iff.mp hjob

theorem run_concat {call : LogCall} : run (calls ++ [call]) = (run calls).bind (·.exec call) := by
  unfold run
  rw [List.foldlM_append]
  congr 1
  funext t
  rw [List.foldlM_cons]
  cases t.exec call <;> rfl

/-- What a history is for the log: the jobs it logged, as far as there was memory for them. -/
structure Logged (t : TracedLogs) (logged : List (UInt8 × Bool)) : Prop where
  inv : t.Inv
  count : t.count = logged.length
  last : t.lastOf = lastJob logged

theorem Logged.exec {logged : List (UInt8 × Bool)} (h : t.Logged logged) {call : LogCall}
    (hexec : t.exec call = some t') : t'.Logged (logged ++ jobs [call]) := by
  have hinv := h.inv.exec hexec
  cases call with
  | putList proto port person memory now =>
      obtain ⟨log, -, rfl⟩ := Option.map_eq_some_iff.mp hexec
      refine ⟨hinv, ?_, ?_⟩
      · rw [List.length_append, ← h.count]
        rfl
      · change Function.update t.lastOf port (t.count + 1) = lastJob (logged ++ [(port, memory)])
        rw [lastJob_concat, h.last, h.count]
  | addSize port size =>
      obtain rfl := Option.some.inj hexec
      exact (List.append_nil logged).symm ▸ ⟨hinv, h.count, h.last⟩
  | endList port btStatus now =>
      obtain rfl := Option.some.inj hexec
      exact (List.append_nil logged).symm ▸ ⟨hinv, h.count, h.last⟩

/-- The first jobs have memory for their records. -/
def Remembered (logged : List (UInt8 × Bool)) : Prop :=
  ∀ job ∈ logged.take maxJobList, job.2 = true

instance (logged : List (UInt8 × Bool)) : Decidable (Remembered logged) :=
  inferInstanceAs (Decidable (∀ job ∈ logged.take maxJobList, job.2 = true))

theorem remembered_concat {logged : List (UInt8 × Bool)} {job : UInt8 × Bool}
    (h : Remembered logged) :
    Remembered (logged ++ [job]) ↔ (logged.length < maxJobList → job.2 = true) := by
  unfold Remembered at *
  rw [List.take_append, List.forall_mem_append]
  by_cases hlt : logged.length < maxJobList
  · obtain ⟨k, hk⟩ := Nat.exists_eq_add_of_lt hlt
    rw [show maxJobList - logged.length = k + 1 by omega, List.take_succ_cons, List.take_nil,
      List.forall_mem_singleton]
    exact ⟨fun hall _ ↦ hall.2, fun himp ↦ ⟨h, himp hlt⟩⟩
  · rw [Nat.sub_eq_zero_of_le (Nat.le_of_not_lt hlt), List.take_zero]
    exact ⟨fun _ hlt' ↦ absurd hlt' hlt, fun _ ↦ ⟨h, fun _ hmem ↦ absurd hmem List.not_mem_nil⟩⟩

theorem exec_eq_none {call : LogCall} {logged : List (UInt8 × Bool)} (h : t.Logged logged)
    (hlogged : Remembered logged) :
    t.exec call = none ↔ ¬ Remembered (logged ++ jobs [call]) := by
  cases call with
  | putList proto port person memory now =>
      have hnone := h.inv.jobList_eq_none
      rw [h.count] at hnone
      have hput : t.exec (.putList proto port person memory now) = none ↔
          t.log.jobList t.log.putIndex.toNat = none ∧ memory = false := by
        unfold TracedLogs.exec JobLogs.putList
        simp only [Option.map_eq_none_iff, ite_eq_left_iff, reduceCtorEq, imp_false, not_not]
      have hjobs : jobs [.putList proto port person memory now] = [(port, memory)] := rfl
      rw [hput, hnone, hjobs, remembered_concat hlogged, Classical.not_imp, Bool.not_eq_true]
  | addSize port size =>
      rw [show jobs [.addSize port size] = [] from rfl, List.append_nil]
      exact iff_of_false (Option.some_ne_none _) (not_not.mpr hlogged)
  | endList port btStatus now =>
      rw [show jobs [.endList port btStatus now] = [] from rfl, List.append_nil]
      exact iff_of_false (Option.some_ne_none _) (not_not.mpr hlogged)

theorem logged_start : start.Logged [] := ⟨inv_start, rfl, rfl⟩

theorem jobs_append (more : List LogCall) : jobs (calls ++ more) = jobs calls ++ jobs more :=
  List.filterMap_append

/-- A history goes through if there is memory for the first records. -/
theorem run_logged (calls : List LogCall) :
    (Remembered (jobs calls) → ∃ t, run calls = some t ∧ t.Logged (jobs calls)) ∧
      (¬ Remembered (jobs calls) → run calls = none) := by
  induction calls using List.reverseRecOn with
  | nil =>
      exact ⟨fun _ ↦ ⟨start, rfl, logged_start⟩,
        fun h ↦ absurd (fun job hjob ↦ absurd hjob List.not_mem_nil) h⟩
  | append_singleton calls call ih =>
      obtain ⟨hsome, hnone⟩ := ih
      rw [jobs_append, run_concat]
      by_cases hlogged : Remembered (jobs calls)
      · obtain ⟨t, hrun, ht⟩ := hsome hlogged
        have hexec := @exec_eq_none t call _ ht hlogged
        rw [hrun, Option.bind_some]
        refine ⟨fun h ↦ ?_, hexec.mpr⟩
        cases hcall : t.exec call with
        | none => exact absurd h (hexec.mp hcall)
        | some t' => exact ⟨t', rfl, ht.exec hcall⟩
      · have hmore : ¬ Remembered (jobs calls ++ jobs [call]) := by
          intro h
          apply hlogged
          intro job hjob
          apply h job
          rw [List.take_append]
          exact List.mem_append_left _ hjob
        rw [hnone hlogged]
        exact ⟨fun h ↦ absurd h hmore, fun _ ↦ rfl⟩

/-- The log addresses the right records after a history. -/
def RightRecords (calls : List LogCall) : Prop := ∃ t, run calls = some t ∧ t.Addressed

/-- The records are found exactly if the first jobs had memory, the numbers have not wrapped within
the last jobs, and no port's last job that is among the latest has a multiple of `MAX_JOB_LIST` for
its number. -/
theorem rightRecords_iff (calls : List LogCall) :
    RightRecords calls ↔ Remembered (jobs calls) ∧ Unwrapped (jobs calls).length ∧
      ∀ port, lastJob (jobs calls) port ≠ 0 →
        (jobs calls).length - lastJob (jobs calls) port < maxJobList →
        jobNumber (lastJob (jobs calls) port) % maxJobList ≠ 0 := by
  obtain ⟨hsome, hnone⟩ := run_logged calls
  unfold RightRecords
  by_cases hlogged : Remembered (jobs calls)
  · obtain ⟨t, hrun, ht⟩ := hsome hlogged
    have haddr := ht.inv.addressed_iff
    rw [ht.count, ht.last] at haddr
    rw [← haddr]
    constructor
    · intro ⟨t', hrun', haddr'⟩
      obtain rfl := Option.some.inj (hrun.symm.trans hrun')
      exact ⟨hlogged, haddr'⟩
    · exact fun h ↦ ⟨t, hrun, h.2⟩
  · refine iff_of_false ?_ fun h ↦ hlogged h.1
    intro ⟨t, hrun, _⟩
    exact Option.some_ne_none t (hrun.symm.trans (hnone hlogged))

/-- The 20th job: the display of the current jobs reads in front of the list. -/
theorem current_of_twentieth :
    ¬ RightRecords (List.replicate 20 (.putList 1 0 [] true 0)) := by
  intro ⟨t, hrun, haddr⟩
  have hlogged : Remembered (jobs (List.replicate 20 (.putList 1 0 [] true 0))) := by
    decide +kernel
  obtain ⟨t', hrun', ht⟩ := (run_logged _).1 hlogged
  obtain rfl := Option.some.inj (hrun.symm.trans hrun')
  have hlast : t.lastOf 0 = 20 := by
    rw [ht.last]
    decide +kernel
  have hcount : t.count = 20 := ht.count
  have hport : t.lastOf 0 ≠ 0 := by
    rw [hlast]
    decide
  obtain ⟨hlt, -⟩ := haddr.record 0 hport (by rw [hlast, hcount]; decide)
    (t.log.currentIndex 0) (List.mem_cons_of_mem _ List.mem_cons_self)
  have hzero : jobNumber (t.lastOf 0) % 20 = 0 := by
    rw [hlast]
    decide
  rw [ht.inv.currentIndex hport, if_pos hzero] at hlt
  exact absurd hlt (by decide)

end TracedLogs

end PrintServer.Spooler
