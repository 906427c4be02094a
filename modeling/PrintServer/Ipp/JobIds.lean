import PrintServer.Http.Decimal
import PrintServer.Ipp.Operations
import PrintServer.Ipp.PointersOwners

/-!
# The ids of the jobs

`ippJobID[port]` goes from 999 back to 1, and a request increments it and reads it back with no
lock, so that two jobs in the list may have one id.
-/

namespace PrintServer.Ipp

open Lib Receive
open Http (Str bytes chr tolower stricmp decimalValue)

/-! ## What an id designates -/

/-- `job-id` looks the job up from the head of the list. -/
def findJob (s : PtrSys) (jobId : UInt16) : Option Nat :=
  s.chain.find? fun p ↦ (s.obj p).jobId = jobId

/-- The jobs in the list have ids of their own, so that a `job-id` and a `job-uri` designate one. -/
structure OneJobEach (s : PtrSys) : Prop where
  distinct : (s.chain.map fun p ↦ (s.obj p).jobId).Nodup
  byId : ∀ p ∈ s.chain, findJob s (s.obj p).jobId = some p
  byUri : ∀ p ∈ s.chain, ∀ q ∈ s.chain, ∀ docType port,
    stricmp (setPort (jobUri docType (s.obj q).jobId) port)
      (setPort (jobUri docType (s.obj p).jobId) port) = 0 → q = p

variable {s u : PtrSys} {t p q m n : Nat} {pc pc' : PtrReq} {a : PtrAct}

theorem decimalValue_concat (s : Str) (c : UInt8) :
    decimalValue (s ++ [c]) = 10 * decimalValue s + (c - chr '0').toNat := by
  unfold decimalValue
  rw [List.foldl_append]
  rfl

theorem decimalValue_toDigits (n : Nat) : decimalValue ((Nat.toDigits 10 n).map chr) = n := by
  have hdigit : ∀ d < 10, (chr d.digitChar - chr '0').toNat = d := by decide
  induction n using Nat.strongRecOn with
  | ind n ih =>
    by_cases hn : n < 10
    · rw [Nat.toDigits_of_lt_base hn]
      change 10 * 0 + (chr n.digitChar - chr '0').toNat = n
      rw [hdigit n hn]
      omega
    · rw [Nat.toDigits_of_base_le (by decide) (Nat.le_of_not_lt hn), List.map_append,
        List.map_singleton, decimalValue_concat, ih (n / 10) (by omega),
        hdigit _ (Nat.mod_lt n (by decide))]
      omega

theorem decimalValue_zeros (k : Nat) (s : Str) :
    decimalValue (List.replicate k (chr '0') ++ s) = decimalValue s := by
  induction k with
  | zero => rfl
  | succ k ih => exact ih

theorem decimalValue_threeDigits (n : Nat) : decimalValue (threeDigits n) = n :=
  (decimalValue_zeros _ _).trans (decimalValue_toDigits n)

theorem tolower_chr {c : Char} (hc : c.isDigit) : tolower (chr c) = chr c := by
  have hle : c.toNat ≤ 57 := by
    have hdigit := hc
    rw [Char.isDigit, Bool.and_eq_true, decide_eq_true_eq, decide_eq_true_eq] at hdigit
    exact UInt32.le_iff_toNat_le.mp hdigit.2
  unfold tolower
  apply if_neg
  rintro ⟨hlo, -⟩
  have hlo' := UInt8.le_iff_toNat_le.mp hlo
  have hnat : (chr c).toNat = c.toNat % 256 := UInt8.toNat_ofNat'
  rw [hnat] at hlo'
  change 65 ≤ c.toNat % 256 at hlo'
  omega

theorem tolower_threeDigits (n : Nat) : (threeDigits n).map tolower = threeDigits n := by
  have hfixed : ∀ c ∈ threeDigits n, tolower c = c := by
    intro c hc
    rcases List.mem_append.mp hc with hc | hc
    · rw [List.eq_of_mem_replicate hc]
      rfl
    · obtain ⟨d, hd, rfl⟩ := List.mem_map.mp hc
      exact tolower_chr (Nat.isDigit_of_mem_toDigits (by decide) (by decide) hd)
  exact (List.map_congr_left hfixed).trans (List.map_id _)

theorem map_tolower_of_stricmp {u v : Str} (h : stricmp u v = 0) :
    u.map tolower = v.map tolower := by
  induction u generalizing v with
  | nil =>
    cases v with
    | nil => rfl
    | cons b v => cases h
  | cons a u ih =>
    cases v with
    | nil => cases h
    | cons b v =>
      unfold stricmp at h
      by_cases hgt : tolower b < tolower a
      · rw [if_pos hgt] at h
        cases h
      · rw [if_neg hgt] at h
        by_cases hlt : tolower a < tolower b
        · rw [if_pos hlt] at h
          cases h
        · rw [if_neg hlt] at h
          rw [List.map_cons, List.map_cons, ih h,
            UInt8.le_antisymm (UInt8.not_lt.mp hgt) (UInt8.not_lt.mp hlt)]

theorem setPort_jobUri (docType : DocType) (port : Nat) (i : UInt16) :
    setPort (jobUri docType i) port =
      setPort (ippBinPrinterUriFormat ++
        (if docType = .binary then [] else ippTxtPrinterExtFormat) ++ bytes "/job") port ++
        threeDigits i.toNat := by
  have hlen : ippPrinterPortPos < (ippBinPrinterUriFormat ++
      (if docType = .binary then [] else ippTxtPrinterExtFormat) ++ bytes "/job").length := by
    cases docType <;> decide
  exact List.set_append_left _ _ hlen

/-- The comparison of `ippValidDestJob` tells the ids apart. -/
theorem jobId_of_stricmp {docType : DocType} {port : Nat} {i j : UInt16}
    (h : stricmp (setPort (jobUri docType i) port) (setPort (jobUri docType j) port) = 0) :
    i = j := by
  have hlower := map_tolower_of_stricmp h
  rw [setPort_jobUri, setPort_jobUri, List.map_append, List.map_append, tolower_threeDigits,
    tolower_threeDigits] at hlower
  have hdigits := congrArg decimalValue (List.append_cancel_left hlower)
  rw [decimalValue_threeDigits, decimalValue_threeDigits] at hdigits
  exact UInt16.toNat_inj.mp hdigits

theorem findJob_of_distinct (hids : (s.chain.map fun p ↦ (s.obj p).jobId).Nodup)
    (hp : p ∈ s.chain) : findJob s (s.obj p).jobId = some p := by
  have hinj := List.inj_on_of_nodup_map hids
  unfold findJob
  cases hfind : s.chain.find? fun q ↦ (s.obj q).jobId = (s.obj p).jobId with
  | none =>
    have hnot := List.find?_eq_none.mp hfind p hp
    simp at hnot
  | some q =>
    have hq := List.mem_of_find?_eq_some hfind
    have hid := List.find?_some hfind
    rw [hinj hq hp (of_decide_eq_true hid)]

theorem oneJobEach_iff : OneJobEach s ↔ (s.chain.map fun p ↦ (s.obj p).jobId).Nodup := by
  refine ⟨OneJobEach.distinct, fun hids ↦ ⟨hids, fun p hp ↦ findJob_of_distinct hids hp, ?_⟩⟩
  intro p hp q hq docType port h
  exact List.inj_on_of_nodup_map hids hq hp (jobId_of_stricmp h)

/-! ## What a step does to the ids -/

/-- The id of the job that takes the `n`-th id. -/
def idOf (n : Nat) : UInt16 := UInt16.ofNat ((n + 998) % 999 + 1)

theorem toNat_idOf (n : Nat) : (idOf n).toNat = (n + 998) % 999 + 1 := by
  have hlt := Nat.mod_lt (n + 998) (by decide : 0 < 999)
  exact UInt16.toNat_ofNat_of_lt' (show (n + 998) % 999 + 1 < 65536 by omega)

/-- The counter is back at an id after 999 jobs. -/
theorem idOf_eq_iff (hmn : m < n) (hn : n ≤ m + 999) : idOf m = idOf n ↔ n = m + 999 := by
  rw [← UInt16.toNat_inj, toNat_idOf, toNat_idOf]
  omega

inductive IdAct
  | load (t p : Nat)
  | store (t p : Nat) (jobID : UInt16)
  | reset (t p : Nat)
  | read (t p : Nat)
  | keep
deriving DecidableEq

def reqIdAct (t : Nat) : PtrReq → PtrReqChoice → IdAct
  | .loadID p, .go => .load t p
  | .storeID p v, .go => .store t p v
  | .resetID p, .go => .reset t p
  | .readID p, .go => .read t p
  | _, _ => .keep

def idAct (s : PtrSys) : PtrAct → IdAct
  | .req t k => reqIdAct t (s.req t) k
  | .worker _ => .keep

/-- A Print-Job between its load of `ippJobID` and its reading back. -/
def PtrReq.counting : PtrReq → Bool
  | .storeID _ _ | .resetID _ | .readID _ => true
  | _ => false

structure KeepsIds (s u : PtrSys) : Prop where
  jobID : u.jobID = s.jobID
  jobId : ∀ p, s.alive p = true → (u.obj p).jobId = (s.obj p).jobId
  counting : ∀ t, (u.req t).counting = true ∨ (s.req t).counting = true → u.req t = s.req t
  insert : ∀ t p, u.req t = .insert p → s.req t = .insert p

inductive IdStep (s : PtrSys) : IdAct → PtrSys → Prop
  | load {t p : Nat} (ht : t < httpMaxUser) (hpc : s.req t = .loadID p) :
      IdStep s (.load t p) (s.setReq t (.storeID p (s.jobID + 1)))
  | store {t p : Nat} {v : UInt16} (ht : t < httpMaxUser) (hpc : s.req t = .storeID p v) :
      IdStep s (.store t p v)
        { s.setReq t (if v ≥ 1000 then .resetID p else .readID p) with jobID := v }
  | reset {t p : Nat} (ht : t < httpMaxUser) (hpc : s.req t = .resetID p) :
      IdStep s (.reset t p) { s.setReq t (.readID p) with jobID := 1 }
  | read {t p : Nat} (ht : t < httpMaxUser) (hpc : s.req t = .readID p) :
      IdStep s (.read t p) ((s.setObj p { s.obj p with jobId := s.jobID }).setReq t (.insert p))
  | keep {u : PtrSys} (h : KeepsIds s u) : IdStep s .keep u

/-- What is stored in a job beside its id changes no id. -/
theorem jobId_update {obj : Nat → IppObj} {x : IppObj} (hx : x.jobId = (obj p).jobId) (q : Nat) :
    (Function.update obj p x q).jobId = (obj q).jobId := by
  by_cases h : q = p
  · rw [h, Function.update_self, hx]
  · rw [Function.update_of_ne h]

theorem jobId_insertObj (s : PtrSys) (p q : Nat) :
    ((insertObj s p).obj q).jobId = (s.obj q).jobId := by
  unfold insertObj
  cases s.chain.getLast? with
  | none => rfl
  | some r => exact jobId_update (by rfl) q

theorem KeepsIds.of_req (hpc : s.req t = pc) (hreq : u.req = Function.update s.req t pc')
    (hsame : pc.counting = false ∧ pc'.counting = false) (hins : ∀ p, pc' ≠ .insert p)
    (hid : u.jobID = s.jobID)
    (hobj : ∀ p, s.alive p = true → (u.obj p).jobId = (s.obj p).jobId) : KeepsIds s u := by
  subst hpc
  refine ⟨hid, hobj, fun t' h ↦ ?_, fun t' p h ↦ ?_⟩
  · rw [hreq] at h ⊢
    by_cases heq : t' = t
    · rw [heq, Function.update_self, hsame.1, hsame.2] at h
      rcases h with h | h <;> cases h
    · exact Function.update_of_ne heq _ _
  · rw [hreq] at h
    by_cases heq : t' = t
    · rw [heq, Function.update_self] at h
      exact absurd h (hins p)
    · exact (Function.update_of_ne heq _ _).symm.trans h

theorem attrStep_ids {op : AttrOp} {prnURI found : Bool} {k : PtrReqChoice}
    (hpc : s.req t = .attr op prnURI found p) (hstep : attrStep s t op prnURI found p k = some u) :
    KeepsIds s u := by
  unfold attrStep at hstep
  split at hstep
  case h_4 | h_5 | h_6 =>
    split at hstep <;> obtain rfl := Option.some.inj hstep <;> (try split) <;>
      exact .of_req hpc rfl ⟨rfl, rfl⟩ nofun rfl fun _ _ ↦ rfl
  case h_7 => cases hstep
  all_goals
    obtain rfl := Option.some.inj hstep
    exact .of_req hpc rfl ⟨rfl, rfl⟩ nofun rfl fun _ _ ↦ rfl

theorem reqStep_ids {k : PtrReqChoice} (ht : t < httpMaxUser) (hpc : s.req t = pc)
    (hstep : ptrReqStep s t pc k = some u) : IdStep s (reqIdAct t pc k) u := by
  unfold ptrReqStep at hstep
  split at hstep
  case h_1 p =>
    obtain ⟨⟨-, hfree, -⟩, hst⟩ := Option.ite_none_right_eq_some.mp hstep
    obtain rfl := Option.some.inj hst
    refine .keep (.of_req hpc rfl ⟨rfl, rfl⟩ nofun rfl fun q hq ↦ ?_)
    have hne : q ≠ p := by
      rintro rfl
      rw [hfree] at hq
      cases hq
    show (Function.update s.obj p newObj q).jobId = _
    rw [Function.update_of_ne hne]
  case h_7 =>
    obtain rfl := Option.some.inj hstep
    exact .load ht hpc
  case h_8 =>
    obtain rfl := Option.some.inj hstep
    exact .store ht hpc
  case h_9 =>
    obtain rfl := Option.some.inj hstep
    exact .reset ht hpc
  case h_10 =>
    obtain rfl := Option.some.inj hstep
    exact .read ht hpc
  case h_11 p =>
    obtain rfl := Option.some.inj hstep
    obtain ⟨-, hreq, -, -, hid, -⟩ := insertObj_frame s p
    have hidle : ((insertObj s p).setReq t .idle).req = Function.update s.req t .idle := by
      show Function.update (insertObj s p).req t .idle = _
      rw [hreq]
    exact .keep (.of_req hpc hidle ⟨rfl, rfl⟩ nofun hid fun q _ ↦ jobId_insertObj s p q)
  case h_12 => exact .keep (attrStep_ids hpc hstep)
  -- a field of the job is stored
  case h_6 | h_19 | h_25 | h_27 =>
    obtain rfl := Option.some.inj hstep
    exact .keep (.of_req hpc rfl ⟨rfl, rfl⟩ nofun rfl fun q _ ↦ jobId_update (by rfl) q)
  -- the next statement depends on what was read
  case h_17 | h_18 | h_20 | h_22 =>
    obtain rfl := Option.some.inj hstep
    split <;> exact .keep (.of_req hpc rfl ⟨rfl, rfl⟩ nofun rfl fun _ _ ↦ rfl)
  case h_13 =>
    split at hstep
    · split at hstep <;> obtain rfl := Option.some.inj hstep <;>
        exact .keep (.of_req hpc rfl ⟨rfl, rfl⟩ nofun rfl fun _ _ ↦ rfl)
    · split at hstep <;> obtain rfl := Option.some.inj hstep <;>
        exact .keep (.of_req hpc rfl ⟨rfl, rfl⟩ nofun rfl fun _ _ ↦ rfl)
  case h_32 =>
    obtain ⟨-, hst⟩ := Option.ite_none_left_eq_some.mp hstep
    obtain rfl := Option.some.inj hst
    exact .keep (.of_req hpc rfl ⟨rfl, rfl⟩ nofun rfl fun _ _ ↦ rfl)
  case h_33 =>
    split at hstep <;> obtain rfl := Option.some.inj hstep <;>
      exact .keep (.of_req hpc rfl ⟨rfl, rfl⟩ nofun rfl fun _ _ ↦ rfl)
  case h_34 => cases hstep
  all_goals
    obtain rfl := Option.some.inj hstep
    exact .keep (.of_req hpc rfl ⟨rfl, rfl⟩ nofun rfl fun _ _ ↦ rfl)

theorem workerStep_ids {w : PtrWorker} {k : PtrWorkerChoice}
    (hstep : ptrWorkerStep s w k = some u) : KeepsIds s u := by
  have hkeep : ∀ {v : PtrSys}, v.req = s.req → v.jobID = s.jobID →
      (∀ q, (v.obj q).jobId = (s.obj q).jobId) → KeepsIds s v :=
    fun hreq hid hobj ↦ ⟨hid, fun q _ ↦ hobj q, fun t _ ↦ congrFun hreq t, fun t p h ↦ hreq ▸ h⟩
  unfold ptrWorkerStep at hstep
  split at hstep
  case h_1 | h_2 =>
    obtain ⟨-, hst⟩ := Option.ite_none_left_eq_some.mp hstep
    obtain rfl := Option.some.inj hst
    exact hkeep rfl rfl fun _ ↦ rfl
  case h_8 =>
    obtain rfl := Option.some.inj hstep
    exact hkeep rfl rfl fun q ↦ jobId_update (by rfl) q
  case h_9 =>
    split at hstep <;> obtain rfl := Option.some.inj hstep <;> exact hkeep rfl rfl fun _ ↦ rfl
  case h_10 =>
    obtain ⟨-, hst⟩ := Option.ite_none_right_eq_some.mp hstep
    obtain rfl := Option.some.inj hst
    exact hkeep rfl rfl fun q ↦ jobId_update (by rfl) q
  case h_13 => cases hstep
  all_goals
    obtain rfl := Option.some.inj hstep
    exact hkeep rfl rfl fun _ ↦ rfl

theorem ptrStep_ids (hstep : ptrStep s a = some u) : IdStep s (idAct s a) u := by
  cases a with
  | req t k =>
      obtain ⟨ht, hst⟩ := Option.ite_none_right_eq_some.mp hstep
      exact reqStep_ids ht rfl hst
  | worker k => exact .keep (workerStep_ids hstep)

/-! ## The numbers of the ids -/

/-- Beside the state: how often `ippJobID` has been incremented, and by which of these increments
the job in an object has got its id. -/
structure IdSys where
  sys : PtrSys
  count : Nat
  number : Nat → Nat

def idStart : IdSys := ⟨ptrStart, 0, fun _ ↦ 0⟩

namespace IdSys

def assign (s : IdSys) : IdAct → IdSys
  | .store _ p _ =>
      { s with count := s.count + 1, number := Function.update s.number p (s.count + 1) }
  | _ => s

def step (s : IdSys) (a : PtrAct) : Option IdSys :=
  (ptrStep s.sys a).map fun u ↦ { s.assign (idAct s.sys a) with sys := u }

end IdSys

def idMachine : Machine IdSys PtrAct := ⟨idStart, IdSys.step⟩

/-- `ippJobID` is stored only while no other Print-Job is between its load of it and its reading
back. -/
def CounterOk (s : PtrSys) : IdAct → Prop
  | .store t _ _ | .reset t _ => ∀ t' < httpMaxUser, t' ≠ t → (s.req t').counting = false
  | _ => True

/-- A job is linked in within 999 ids of every job in the list. -/
def Young (s : IdSys) : ListAct → Prop
  | .insert _ p => ∀ q ∈ s.sys.chain, s.number q < s.number p + 999 ∧ s.number p < s.number q + 999
  | _ => True

structure IdOk (s : IdSys) (a : PtrAct) : Prop where
  link : LinkOk s.sys (listAct s.sys a)
  counter : CounterOk s.sys (idAct s.sys a)
  young : Young s (listAct s.sys a)

instance (s : PtrSys) (i : IdAct) : Decidable (CounterOk s i) := by
  cases i <;> unfold CounterOk <;> infer_instance

instance (s : IdSys) : (l : ListAct) → Decidable (Young s l)
  | .insert _ p => inferInstanceAs (Decidable (∀ q ∈ s.sys.chain,
      s.number q < s.number p + 999 ∧ s.number p < s.number q + 999))
  | .alloc .. | .drop .. | .unlinkHead .. | .unlinkNext .. | .countOff .. | .pop _ |
    .freePopped _ | .keep => isTrue trivial

instance (s : IdSys) (a : PtrAct) : Decidable (IdOk s a) :=
  decidable_of_iff (LinkOk s.sys (listAct s.sys a) ∧ CounterOk s.sys (idAct s.sys a) ∧
      Young s (listAct s.sys a))
    ⟨fun h ↦ ⟨h.1, h.2.1, h.2.2⟩, fun h ↦ ⟨h.link, h.counter, h.young⟩⟩

/-- A job that has its id: it is in the list, or about to be linked in. -/
def Named (s : PtrSys) (p : Nat) : Prop := p ∈ s.chain ∨ ∃ t < httpMaxUser, s.req t = .insert p

/-- The increment of the request is the last one, and it has not read the counter back. -/
def PtrReq.taking : PtrReq → Option Nat
  | .resetID p | .readID p => some p
  | _ => none

theorem PtrReq.counting_of_taking {pc : PtrReq} (h : pc.taking.isSome = true) :
    pc.counting = true := by
  cases pc with
  | resetID | readID => rfl
  | _ => cases h

def counterOf (n : Nat) : UInt16 := if n = 0 then 0 else idOf n

structure IdInv (s : IdSys) : Prop where
  list : ListInv s.sys
  ids : ∀ p, Named s.sys p → (s.sys.obj p).jobId = idOf (s.number p) ∧ 1 ≤ s.number p ∧
    s.number p ≤ s.count
  distinct : ∀ p q, Named s.sys p → Named s.sys q → s.number p = s.number q → p = q
  young : ∀ p ∈ s.sys.chain, ∀ q ∈ s.sys.chain, s.number p < s.number q + 999
  loaded : ∀ t < httpMaxUser, ∀ p v, s.sys.req t = .storeID p v → v = s.sys.jobID + 1
  taking : ∀ t < httpMaxUser, ∀ p ∈ (s.sys.req t).taking, s.number p = s.count ∧ 1 ≤ s.count ∧
    ∀ q, Named s.sys q → s.number q < s.count
  taker : ∀ t < httpMaxUser, ∀ t' < httpMaxUser, (s.sys.req t).taking.isSome = true →
    (s.sys.req t').taking.isSome = true → t = t'
  resets : ∀ t < httpMaxUser, ∀ p, s.sys.req t = .resetID p → s.sys.jobID = 1000 ∧
    idOf s.count = 1
  counter : (∀ t < httpMaxUser, ∀ p, s.sys.req t ≠ .resetID p) → s.sys.jobID = counterOf s.count

theorem idStart_inv : IdInv idStart where
  list := ptrStart_listInv
  ids := fun p hp ↦ by
    rcases hp with hp | ⟨t, -, hp⟩ <;> cases hp
  distinct := fun p q hp ↦ by
    rcases hp with hp | ⟨t, -, hp⟩ <;> cases hp
  young := nofun
  loaded := nofun
  taking := nofun
  taker := nofun
  resets := nofun
  counter := fun _ ↦ rfl

/-! ## The ids along a run -/

theorem Named.alive (hs : ListInv s) (hp : Named s p) : s.alive p = true := by
  rcases hp with hp | ⟨t, ht, hpc⟩
  · exact hs.alive p hp
  · exact (hs.reqOwned t ht p (by rw [hpc]; rfl)).2.1

/-- The object of a request before the insertion is no job that has its id. -/
theorem Named.ne (hs : ListInv s) (ht : t < httpMaxUser) (hown : p ∈ (s.req t).owns)
    (hpc : s.req t ≠ .insert p) (hq : Named s q) : q ≠ p := by
  rintro rfl
  rcases hq with hq | ⟨t', ht', hpc'⟩
  · exact (hs.reqOwned t ht q hown).1 hq
  · obtain rfl := hs.reqOwner t' ht' t ht q (by rw [hpc']; rfl) hown
    exact hpc hpc'

/-- A request that goes on to a statement before the insertion. -/
theorem Named.of_move (hchain : u.chain = s.chain) (hreq : u.req = Function.update s.req t pc)
    (hpc : ∀ q, pc ≠ .insert q) (hp : Named u p) : Named s p := by
  rcases hp with hp | ⟨t', ht', h⟩
  · exact Or.inl (hchain ▸ hp)
  · rw [hreq] at h
    by_cases heq : t' = t
    · rw [heq, Function.update_self] at h
      exact absurd h (hpc p)
    · rw [Function.update_of_ne heq] at h
      exact Or.inr ⟨t', ht', h⟩

theorem mem_chain_step {l : ListAct} (hs : ListInv s) (hok : LinkOk s l) (h : ListStep s l u)
    (hp : p ∈ u.chain) :
    p ∈ s.chain ∨ ∃ t < httpMaxUser, s.req t = .insert p ∧ l = .insert t p := by
  rw [hs.chain_step hok h] at hp
  cases h with
  | @insert t q ht hpc =>
      rcases List.mem_append.mp hp with hp | hp
      · exact Or.inl hp
      · obtain rfl := List.mem_singleton.mp hp
        exact Or.inr ⟨t, ht, hpc, rfl⟩
  | unlinkHead => cases hp
  | unlinkNext => exact Or.inl (List.mem_of_mem_erase hp)
  | pop => exact Or.inl (List.mem_of_mem_tail hp)
  | _ => exact Or.inl hp

theorem toNat_counterOf (n : Nat) :
    (counterOf n).toNat = if n = 0 then 0 else (n + 998) % 999 + 1 := by
  unfold counterOf
  split
  · rfl
  · exact toNat_idOf n

/-- The increment: below 1000 it is the next id, and else 1000, for which the next id is 1. -/
theorem counterOf_succ (n : Nat) :
    (counterOf n + 1 ≥ 1000 → counterOf n + 1 = 1000 ∧ idOf (n + 1) = 1) ∧
      (¬ counterOf n + 1 ≥ 1000 → counterOf n + 1 = counterOf (n + 1)) := by
  have hcounter := toNat_counterOf n
  have hid := toNat_idOf (n + 1)
  have hsucc : (counterOf n + 1).toNat = (counterOf n).toNat + 1 := by
    rw [UInt16.toNat_add]
    change ((counterOf n).toNat + 1) % 65536 = _
    split at hcounter <;> omega
  constructor
  · intro hge
    have hle := UInt16.le_iff_toNat_le.mp hge
    change 1000 ≤ (counterOf n + 1).toNat at hle
    constructor
    · apply UInt16.toNat_inj.mp
      change (counterOf n + 1).toNat = 1000
      split at hcounter <;> omega
    · apply UInt16.toNat_inj.mp
      change (idOf (n + 1)).toNat = 1
      split at hcounter <;> omega
  · intro hlt
    have hnot := fun h ↦ hlt (UInt16.le_iff_toNat_le.mpr h)
    change ¬ 1000 ≤ (counterOf n + 1).toNat at hnot
    apply UInt16.toNat_inj.mp
    rw [toNat_counterOf, if_neg (Nat.succ_ne_zero n), hsucc]
    split at hcounter <;> omega

namespace IdInv

variable {s : IdSys} {u : PtrSys}

theorem load (hs : IdInv s) (hpc : s.sys.req t = .loadID p)
    (hlist : ListInv (s.sys.setReq t (.storeID p (s.sys.jobID + 1)))) :
    IdInv { s with sys := s.sys.setReq t (.storeID p (s.sys.jobID + 1)) } := by
  have hnamed : ∀ {q}, Named (s.sys.setReq t (.storeID p (s.sys.jobID + 1))) q → Named s.sys q :=
    Named.of_move rfl rfl nofun
  have htaking : ∀ t' < httpMaxUser, ((s.sys.setReq t (.storeID p (s.sys.jobID + 1))).req
      t').taking.isSome = true → (s.sys.req t').taking.isSome = true :=
    forall_lt_update (P := fun t' pc ↦ (PtrReq.taking pc).isSome = true →
      (s.sys.req t').taking.isSome = true) (fun _ _ h ↦ h) nofun
  exact
    { list := hlist
      ids := fun q hq ↦ hs.ids q (hnamed hq)
      distinct := fun q r hq hr ↦ hs.distinct q r (hnamed hq) (hnamed hr)
      young := hs.young
      loaded := forall_lt_update (P := fun _ pc ↦ ∀ q v, pc = PtrReq.storeID q v →
        v = s.sys.jobID + 1) hs.loaded fun q v h ↦ by
          obtain ⟨-, rfl⟩ := PtrReq.storeID.inj h
          rfl
      taking := forall_lt_update (P := fun _ pc ↦ ∀ q ∈ PtrReq.taking pc, s.number q = s.count ∧
        1 ≤ s.count ∧ ∀ r, Named _ r → s.number r < s.count)
        (fun t' ht' q hq ↦ by
          obtain ⟨h₁, h₂, h₃⟩ := hs.taking t' ht' q hq
          exact ⟨h₁, h₂, fun r hr ↦ h₃ r (hnamed hr)⟩) nofun
      taker := fun t₁ h₁ t₂ h₂ hk₁ hk₂ ↦
        hs.taker t₁ h₁ t₂ h₂ (htaking t₁ h₁ hk₁) (htaking t₂ h₂ hk₂)
      resets := forall_lt_update (P := fun _ pc ↦ ∀ q, pc = PtrReq.resetID q →
        s.sys.jobID = 1000 ∧ idOf s.count = 1) hs.resets nofun
      counter := fun hnone ↦ hs.counter fun t' ht' q h ↦ by
        by_cases heq : t' = t
        · rw [heq, hpc] at h
          cases h
        · exact hnone t' ht' q ((Function.update_of_ne heq _ _).trans h) }

/-- No other Print-Job is between its load and its reading back. -/
theorem only {pc : PtrReq}
    (halone : ∀ t' < httpMaxUser, t' ≠ t → (s.sys.req t').counting = false) :
    ∀ t' < httpMaxUser, (Function.update s.sys.req t pc t').counting = true → t' = t := by
  intro t' ht' h
  by_contra hne
  rw [Function.update_of_ne hne, halone t' ht' hne] at h
  cases h

theorem store {v : UInt16} (hs : IdInv s) (ht : t < httpMaxUser)
    (hpc : s.sys.req t = .storeID p v)
    (halone : ∀ t' < httpMaxUser, t' ≠ t → (s.sys.req t').counting = false)
    (hreq : u.req = Function.update s.sys.req t (if v ≥ 1000 then .resetID p else .readID p))
    (hid : u.jobID = v) (hobj : u.obj = s.sys.obj) (hchain : u.chain = s.sys.chain)
    (hlist : ListInv u) :
    IdInv ⟨u, s.count + 1, Function.update s.number p (s.count + 1)⟩ := by
  have hmine : ∀ t' < httpMaxUser, (u.req t').counting = true → t' = t := by
    rw [hreq]
    exact only halone
  have hself : u.req t = if v ≥ 1000 then .resetID p else .readID p := by
    rw [hreq, Function.update_self]
  have hnamed : ∀ {q}, Named u q → Named s.sys q :=
    Named.of_move hchain hreq fun q ↦ by split <;> nofun
  -- the object that is being numbered is not named yet, so the numbers of the others stay
  have hne : ∀ {q}, Named s.sys q → q ≠ p :=
    fun hq ↦ hq.ne hs.list ht (by rw [hpc]; rfl) (by rw [hpc]; nofun)
  have hnumber : ∀ {q}, Named s.sys q →
      Function.update s.number p (s.count + 1) q = s.number q :=
    fun hq ↦ Function.update_of_ne (hne hq) _ _
  -- no other request is about to reset `ippJobID`
  have hcounter : s.sys.jobID = counterOf s.count := hs.counter fun t' ht' q h ↦ by
    by_cases heq : t' = t
    · rw [heq, hpc] at h
      cases h
    · have hcounting := halone t' ht' heq
      rw [h] at hcounting
      cases hcounting
  have hv : v = counterOf s.count + 1 := by
    rw [hs.loaded t ht p v hpc, hcounter]
  exact
    { list := hlist
      ids := fun q hq ↦ by
        obtain ⟨h₁, h₂, h₃⟩ := hs.ids q (hnamed hq)
        show (u.obj q).jobId = idOf (Function.update s.number p _ q) ∧
          1 ≤ Function.update s.number p _ q ∧ Function.update s.number p _ q ≤ s.count + 1
        rw [hobj, hnumber (hnamed hq)]
        exact ⟨h₁, h₂, Nat.le_succ_of_le h₃⟩
      distinct := fun q r hq hr h ↦ by
        change Function.update s.number p _ q = Function.update s.number p _ r at h
        rw [hnumber (hnamed hq), hnumber (hnamed hr)] at h
        exact hs.distinct q r (hnamed hq) (hnamed hr) h
      young := fun q hq r hr ↦ by
        show Function.update s.number p _ q < Function.update s.number p _ r + 999
        rw [hnumber (hnamed (Or.inl hq)), hnumber (hnamed (Or.inl hr))]
        rw [hchain] at hq hr
        exact hs.young q hq r hr
      loaded := fun t' ht' q w h ↦ by
        obtain rfl := hmine t' ht' (by rw [h]; rfl)
        rw [hself] at h
        split at h <;> cases h
      taking := fun t' ht' q hq ↦ by
        obtain rfl := hmine t' ht'
          (PtrReq.counting_of_taking (Option.isSome_iff_exists.mpr ⟨q, hq⟩))
        have hqp : q = p := by
          rw [hself] at hq
          split at hq <;> exact (Option.some.inj hq).symm
        rw [hqp]
        refine ⟨Function.update_self .., Nat.succ_pos _, fun r hr ↦ ?_⟩
        show Function.update s.number p _ r < _
        rw [hnumber (hnamed hr)]
        exact Nat.lt_succ_of_le (hs.ids r (hnamed hr)).2.2
      taker := fun t₁ h₁ t₂ h₂ hk₁ hk₂ ↦
        (hmine t₁ h₁ (PtrReq.counting_of_taking hk₁)).trans
          (hmine t₂ h₂ (PtrReq.counting_of_taking hk₂)).symm
      resets := fun t' ht' q h ↦ by
        obtain rfl := hmine t' ht' (by rw [h]; rfl)
        rw [hself] at h
        split at h
        · rename_i hge
          rw [hv] at hge
          obtain ⟨h₁, h₂⟩ := (counterOf_succ s.count).1 hge
          exact ⟨hid.trans (hv.trans h₁), h₂⟩
        · cases h
      counter := fun hnone ↦ by
        have hlt : ¬ v ≥ 1000 := by
          intro hge
          rw [if_pos hge] at hself
          exact hnone t ht p hself
        rw [hv] at hlt
        exact hid.trans (hv.trans ((counterOf_succ s.count).2 hlt)) }

theorem counterOf_of_pos (hn : 1 ≤ n) : counterOf n = idOf n := if_neg (Nat.ne_of_gt hn)

theorem reset (hs : IdInv s) (ht : t < httpMaxUser) (hpc : s.sys.req t = .resetID p)
    (halone : ∀ t' < httpMaxUser, t' ≠ t → (s.sys.req t').counting = false)
    (hlist : ListInv { s.sys.setReq t (.readID p) with jobID := 1 }) :
    IdInv { s with sys := { s.sys.setReq t (.readID p) with jobID := 1 } } := by
  have hnamed : ∀ {q}, Named { s.sys.setReq t (.readID p) with jobID := 1 } q → Named s.sys q :=
    Named.of_move rfl rfl nofun
  -- no other thread is at the counter
  have hmine : ∀ t' < httpMaxUser, (Function.update s.sys.req t (.readID p) t').counting = true →
      t' = t := only halone
  have hkept := hs.taking t ht p (by rw [hpc]; rfl)
  exact
    { list := hlist
      ids := fun q hq ↦ hs.ids q (hnamed hq)
      distinct := fun q r hq hr ↦ hs.distinct q r (hnamed hq) (hnamed hr)
      young := hs.young
      loaded := fun t' ht' q w h ↦ by
        change Function.update s.sys.req t (.readID p) t' = _ at h
        obtain rfl := hmine t' ht' (by rw [h]; rfl)
        rw [Function.update_self] at h
        cases h
      taking := fun t' ht' q hq ↦ by
        change q ∈ (Function.update s.sys.req t (.readID p) t').taking at hq
        obtain rfl := hmine t' ht'
          (PtrReq.counting_of_taking (Option.isSome_iff_exists.mpr ⟨q, hq⟩))
        rw [Function.update_self] at hq
        obtain rfl := Option.some.inj hq
        exact ⟨hkept.1, hkept.2.1, fun r hr ↦ hkept.2.2 r (hnamed hr)⟩
      taker := fun t₁ h₁ t₂ h₂ hk₁ hk₂ ↦
        (hmine t₁ h₁ (PtrReq.counting_of_taking hk₁)).trans
          (hmine t₂ h₂ (PtrReq.counting_of_taking hk₂)).symm
      resets := fun t' ht' q h ↦ by
        change Function.update s.sys.req t (.readID p) t' = _ at h
        obtain rfl := hmine t' ht' (by rw [h]; rfl)
        rw [Function.update_self] at h
        cases h
      counter := fun _ ↦ by
        show 1 = counterOf s.count
        rw [counterOf_of_pos hkept.2.1]
        exact (hs.resets t ht p hpc).2.symm }

theorem read (hs : IdInv s) (ht : t < httpMaxUser) (hpc : s.sys.req t = .readID p)
    (hreq : u.req = Function.update s.sys.req t (.insert p)) (hid : u.jobID = s.sys.jobID)
    (hobj : u.obj = Function.update s.sys.obj p { s.sys.obj p with jobId := s.sys.jobID })
    (hchain : u.chain = s.sys.chain) (hlist : ListInv u) : IdInv { s with sys := u } := by
  have hown : p ∈ (s.sys.req t).owns := by rw [hpc]; rfl
  obtain ⟨hnumber, hpos, hless⟩ := hs.taking t ht p (by rw [hpc]; rfl)
  -- it is the only request with a number of its own, so `ippJobID` still spells this number
  have hnone : ∀ t' < httpMaxUser, t' ≠ t → (s.sys.req t').taking.isSome = false := by
    intro t' ht' hne
    by_contra h
    exact hne (hs.taker t' ht' t ht ((Bool.not_eq_false _).mp h) (by rw [hpc]; rfl))
  have hcounter : s.sys.jobID = idOf s.count := by
    rw [← counterOf_of_pos hpos]
    refine hs.counter fun t' ht' q h ↦ ?_
    by_cases heq : t' = t
    · rw [heq, hpc] at h
      cases h
    · have hnot := hnone t' ht' heq
      rw [h] at hnot
      cases hnot
  have hnamed : ∀ {q}, Named u q → q = p ∨ Named s.sys q ∧ q ≠ p := by
    intro q hq
    by_cases hqp : q = p
    · exact Or.inl hqp
    · refine Or.inr ⟨?_, hqp⟩
      rcases hq with hq | ⟨t', ht', h⟩
      · exact Or.inl (hchain ▸ hq)
      · rw [hreq] at h
        by_cases heq : t' = t
        · rw [heq, Function.update_self] at h
          exact absurd (PtrReq.insert.inj h).symm hqp
        · rw [Function.update_of_ne heq] at h
          exact Or.inr ⟨t', ht', h⟩
  have hback : ∀ {P : PtrReq → Prop}, (∀ t' < httpMaxUser, P (s.sys.req t')) → P (.insert p) →
      ∀ t' < httpMaxUser, P (u.req t') := by
    intro P hP hnew
    rw [hreq]
    exact forall_lt_update (P := fun _ pc ↦ P pc) hP hnew
  have hnotaking : ∀ t' < httpMaxUser, (u.req t').taking.isSome = false := by
    intro t' ht'
    rw [hreq]
    by_cases heq : t' = t
    · rw [heq, Function.update_self]
      rfl
    · rw [Function.update_of_ne heq]
      exact hnone t' ht' heq
  exact
    { list := hlist
      ids := fun q hq ↦ by
        show (u.obj q).jobId = idOf (s.number q) ∧ _
        rw [hobj]
        rcases hnamed hq with rfl | ⟨hq, hne⟩
        · rw [Function.update_self, hnumber]
          exact ⟨hcounter, hpos, Nat.le_refl _⟩
        · rw [Function.update_of_ne hne]
          exact hs.ids q hq
      distinct := fun q r hq hr h ↦ by
        change s.number q = s.number r at h
        -- the number read is larger than that of every job named before
        rcases hnamed hq with rfl | ⟨hq, -⟩ <;> rcases hnamed hr with rfl | ⟨hr, -⟩
        · rfl
        · exact absurd (h.symm.trans hnumber) (Nat.ne_of_lt (hless r hr))
        · exact absurd (h.trans hnumber) (Nat.ne_of_lt (hless q hq))
        · exact hs.distinct q r hq hr h
      young := by
        show ∀ q ∈ u.chain, ∀ r ∈ u.chain, _
        rw [hchain]
        exact hs.young
      loaded := fun t' ht' q w h ↦ by
        show w = u.jobID + 1
        rw [hid]
        exact hback (P := fun pc ↦ ∀ q w, pc = .storeID q w → w = s.sys.jobID + 1)
          (fun t' ht' q w h ↦ hs.loaded t' ht' q w h) nofun t' ht' q w h
      taking := fun t' ht' q hq ↦ by
        have hnot := hnotaking t' ht'
        rw [Option.mem_def.mp hq] at hnot
        cases hnot
      taker := fun t' ht' _ _ h ↦ by
        rw [hnotaking t' ht'] at h
        cases h
      resets := fun t' ht' q h ↦ by
        have hnot := hnotaking t' ht'
        rw [h] at hnot
        cases hnot
      counter := fun _ ↦ by
        show u.jobID = counterOf s.count
        rw [hid, counterOf_of_pos hpos]
        exact hcounter }

theorem keep {l : ListAct} (hs : IdInv s) (hok : LinkOk s.sys l) (hyoung : Young s l)
    (hlist : ListStep s.sys l u) (h : KeepsIds s.sys u) : IdInv { s with sys := u } := by
  have hnamed : ∀ {q}, Named u q → Named s.sys q := by
    rintro q (hq | ⟨t, ht, hq⟩)
    · rcases mem_chain_step hs.list hok hlist hq with hq | ⟨t, ht, hpc, -⟩
      · exact Or.inl hq
      · exact Or.inr ⟨t, ht, hpc⟩
    · exact Or.inr ⟨t, ht, h.insert t q hq⟩
  have hsame : ∀ {t}, (u.req t).counting = true → u.req t = s.sys.req t :=
    fun hc ↦ h.counting _ (Or.inl hc)
  exact
    { list := hs.list.step hok hlist
      ids := fun q hq ↦ by
        show (u.obj q).jobId = _ ∧ _
        rw [h.jobId q ((hnamed hq).alive hs.list)]
        exact hs.ids q (hnamed hq)
      distinct := fun q r hq hr ↦ hs.distinct q r (hnamed hq) (hnamed hr)
      young := by
        intro q hq r hr
        show s.number q < s.number r + 999
        -- both listed before, or one of them just linked in
        rcases mem_chain_step hs.list hok hlist hq with hq | ⟨t, -, hpc, rfl⟩ <;>
          rcases mem_chain_step hs.list hok hlist hr with hr | ⟨t', -, hpc', hl⟩
        · exact hs.young q hq r hr
        · rw [hl] at hyoung
          exact (hyoung q hq).1
        · exact (hyoung r hr).2
        · obtain ⟨-, rfl⟩ := ListAct.insert.inj hl
          omega
      loaded := fun t ht q w hpc ↦ by
        show w = u.jobID + 1
        rw [h.jobID]
        exact hs.loaded t ht q w ((hsame (by rw [hpc]; rfl)).symm.trans hpc)
      taking := fun t ht q hq ↦ by
        rw [hsame (PtrReq.counting_of_taking (Option.isSome_iff_exists.mpr ⟨q, hq⟩))] at hq
        obtain ⟨h₁, h₂, h₃⟩ := hs.taking t ht q hq
        exact ⟨h₁, h₂, fun r hr ↦ h₃ r (hnamed hr)⟩
      taker := fun t₁ h₁ t₂ h₂ hk₁ hk₂ ↦ by
        rw [hsame (PtrReq.counting_of_taking hk₁)] at hk₁
        rw [hsame (PtrReq.counting_of_taking hk₂)] at hk₂
        exact hs.taker t₁ h₁ t₂ h₂ hk₁ hk₂
      resets := fun t ht q hpc ↦ by
        show u.jobID = 1000 ∧ _
        rw [h.jobID]
        exact hs.resets t ht q ((hsame (by rw [hpc]; rfl)).symm.trans hpc)
      counter := fun hnone ↦ by
        show u.jobID = _
        rw [h.jobID]
        refine hs.counter fun t ht q hpc ↦ hnone t ht q ?_
        exact (h.counting t (Or.inr (by rw [hpc]; rfl))).trans hpc }

theorem step {a : PtrAct} {v : IdSys} (hs : IdInv s) (hok : IdOk s a) (hstep : s.step a = some v) :
    IdInv v := by
  obtain ⟨u, hu, rfl⟩ := Option.map_eq_some_iff.mp hstep
  have hlist := ptrStep_list hu
  have hinv := hs.list.step hok.link hlist
  have hids := ptrStep_ids hu
  have hcounter := hok.counter
  generalize idAct s.sys a = i at hids hcounter
  cases hids with
  | load ht hpc => exact hs.load hpc hinv
  | store ht hpc => exact hs.store ht hpc hcounter rfl rfl rfl rfl hinv
  | reset ht hpc => exact hs.reset ht hpc hcounter hinv
  | read ht hpc => exact hs.read ht hpc rfl rfl rfl (PtrSys.chain_setObj rfl) hinv
  | keep h => exact hs.keep hok.link hok.young hlist h

theorem oneJobEach (hs : IdInv s) : OneJobEach s.sys := by
  rw [oneJobEach_iff]
  refine List.Nodup.map_on (fun p hp q hq heq ↦ ?_) hs.list.nodup
  obtain ⟨hid, -⟩ := hs.ids p (Or.inl hp)
  obtain ⟨hid', -⟩ := hs.ids q (Or.inl hq)
  have hpq := hs.young p hp q hq
  have hqp := hs.young q hq p hp
  rw [hid, hid'] at heq
  refine hs.distinct p q (Or.inl hp) (Or.inl hq) ?_
  -- two numbers less than 999 apart that go with one id are one number
  rcases Nat.lt_trichotomy (s.number p) (s.number q) with hlt | hnum | hlt
  · have hage := (idOf_eq_iff hlt (by omega)).mp heq
    omega
  · exact hnum
  · have hage := (idOf_eq_iff hlt (by omega)).mp heq.symm
    omega

end IdInv

/-- The ids are distinct in every state of a run in which no two Print-Jobs are at the counter at
once, and no job is linked in 999 ids behind one that still waits, or in front of it. -/
theorem live_ids_distinct_of_idOk (acts : List PtrAct) {s : IdSys}
    (hok : idMachine.Along IdOk idStart acts) (hrun : idMachine.run acts = some s) :
    OneJobEach s.sys := by
  have hs : IdInv s :=
    Machine.run_invariant idStart_inv (fun _ _ _ hs hok hstep ↦ hs.step hok hstep) hok hrun
  exact hs.oneJobEach

theorem live_ids_distinct_two_jobs :
    ∃ s, idMachine.run (printJob 0 7 ++ printJob 1 8) = some s ∧
      (s.sys.chain.map fun p ↦ (s.sys.obj p).jobId) = [1, 2] ∧ OneJobEach s.sys :=
  ⟨_, rfl, rfl, live_ids_distinct_of_idOk (printJob 0 7 ++ printJob 1 8) (by decide) rfl⟩

/-- Two Print-Jobs load the counter, store it and read it back side by side. -/
def twoAtCounter : List PtrAct :=
  [.req 0 (.printJob 7), .req 1 (.printJob 8), .req 0 .endTag, .req 1 .endTag, .req 0 .go,
    .req 1 .go, .req 0 .go, .req 1 .go, .req 0 .go, .req 1 .go, .req 0 .go, .req 1 .go]

theorem two_jobs_share_id :
    ∃ s, idMachine.run twoAtCounter = some s ∧ ¬ OneJobEach s.sys := by
  refine ⟨_, rfl, fun hone ↦ absurd hone.distinct ?_⟩
  decide

end PrintServer.Ipp
