import PrintServer.Atalk.Ddp
import PrintServer.Lib.Wildcard

/-!
# The names of AppleTalk

`nbp_input` (nbp.c) answers lookups of the names of the printer ports.  The three names of a request
are copied to globals by the lengths in the datagram, and what is asked there may still be what an
earlier request left.
-/

namespace PrintServer.Atalk

open Lib

def nbpDdptype : UInt8 := 2
def nbpopBrrq : Nat := 1
def nbpopLkup : Nat := 2
def nbpopLkupreply : UInt8 := 3
def nbpstrlen : Nat := 32
def nbpInputLen : Nat := (33 + 22 + 21 + 5) * 3 + 3
def nbpEquals : UInt8 := 0x3D
def nbpWild : UInt8 := 0xC5
def nbpStar : UInt8 := 0x2A
def numOfPrnPort : Nat := 1

/-- `_TOLOWER` -/
def toLower (c : UInt8) : UInt8 := if 0x41 ≤ c ∧ c ≤ 0x5A then c - 0x41 + 0x61 else c

/-- A printer port: its names, what follows each in memory, and whether another node had the name
when it was registered.  The lengths are those of `ATPortName` and `ATPortType`. -/
structure NbpPort where
  object : List UInt8
  type : List UInt8
  behind : List UInt8
  port : UInt8
  used : Bool
  object_text : 0 ∉ object ∧ object.length ≤ 22
  type_text : 0 ∉ type ∧ type.length ≤ 20

/-- `at_iface` and the ports. -/
structure NbpIface where
  my : AtAddr
  zonename : List UInt8
  ports : List NbpPort
  zonename_text : 0 ∉ zonename ∧ zonename.length ≤ 32
  ports_length : ports.length = numOfPrnPort

/-- A tuple of a reply. -/
structure NbpTuple where
  net₀ : UInt8
  net₁ : UInt8
  node : UInt8
  port : UInt8
  enum : Nat
  object : List UInt8
  type : List UInt8
  zone : List UInt8

def NbpTuple.octets (t : NbpTuple) : List UInt8 :=
  [t.net₀, t.net₁, t.node, t.port, UInt8.ofNat t.enum] ++
    UInt8.ofNat t.object.length :: t.object ++ UInt8.ofNat t.type.length :: t.type ++
    UInt8.ofNat t.zone.length :: t.zone

/-- A datagram to the node and the port that the request names. -/
structure NbpReply where
  dest : AtSocket
  id : UInt8
  tuples : List NbpTuple

def NbpReply.octets (r : NbpReply) : List UInt8 :=
  nbpDdptype :: (nbpopLkupreply * 16 + UInt8.ofNat r.tuples.length) :: r.id ::
    r.tuples.flatMap NbpTuple.octets

/-- `nbp_data` with what lies behind it, and the names that were copied last, each with what is
behind its length.  A list of more than 32 octets has overrun its array. -/
structure NbpVars where
  nbpData : List UInt8
  tmpObj : List UInt8
  tmpType : List UInt8
  tmpZone : List UInt8

/-! ## Matching -/

def memicmpEq (first last : List UInt8) (count : Nat) : Bool :=
  (List.range count).all fun i ↦ toLower (first.getD i 0) = toLower (last.getD i 0)

/-- The index of the first `c` among the first `len`. -/
def strnchr (s : List UInt8) (len : Nat) (c : UInt8) : Option Nat := (s.take len).idxOf? c

/-- `nbpMatch` for the name `thing`, with `behind` behind its NUL. -/
def nbpMatch (pat : List UInt8) (plen : Nat) (thing behind : List UInt8) : Bool :=
  if (pat.headD 0 = nbpEquals ∨ pat.headD 0 = nbpWild) ∧ plen = 1 then true
  else
    let tl := thing.length
    match strnchr pat plen nbpWild with
    | some hl =>
        let pl := plen - 1
        if hl ≠ 0 ∧ ¬memicmpEq pat (thing ++ 0 :: behind) hl then false
        else if tl < pl then false
        else if hl < pl ∧
            ¬memicmpEq (pat.drop (hl + 1)) ((thing ++ 0 :: behind).drop (tl - (pl - hl))) (pl - hl)
        then false
        else true
    | none => tl = plen ∧ memicmpEq pat (thing ++ 0 :: behind) plen

/-- The first test of `nbp_find`. -/
def inZone (iface : NbpIface) (tmpZone : List UInt8) (zlen : Nat) : Bool :=
  (tmpZone.headD 0 = nbpStar ∧ zlen = 1) ∨ tmpZone.headD 0 = 0 ∨
    (iface.zonename.length = zlen ∧ memicmpEq tmpZone iface.zonename zlen)

/-- The lengths of the names of a request. -/
structure NbpLens where
  olen : Nat
  tlen : Nat
  zlen : Nat

def nbpFind (iface : NbpIface) (v : NbpVars) (n : NbpLens) (p : NbpPort) : Bool :=
  inZone iface v.tmpZone n.zlen && nbpMatch v.tmpObj n.olen p.object p.behind &&
    nbpMatch v.tmpType n.tlen p.type p.behind

/-- `nbp_set`: the tuples of the ports from index `i` on. -/
def nbpSet (iface : NbpIface) (v : NbpVars) (n : NbpLens) : Nat → List NbpPort → List NbpTuple
  | _, [] => []
  | i, p :: ps =>
      if p.used then nbpSet iface v n (i + 1) ps
      else if nbpFind iface v n p then
        ⟨iface.my.net₀, iface.my.net₁, iface.my.node, p.port, i, p.object, p.type,
          iface.zonename⟩ :: nbpSet iface v n (i + 1) ps
      else nbpSet iface v n (i + 1) ps

/-! ## Input -/

/-- The name at `data`: its length, its octets, and where the next one is. -/
def nameAt (data : List UInt8) : Nat × List UInt8 × List UInt8 :=
  let len := (data.headD 0).toNat
  (len, data.tail.take len, data.tail.drop len)

def memcpy (dest src : List UInt8) : List UInt8 := src ++ dest.drop src.length

/-- What `nbp_input` does with a datagram: the lengths by which it copies, if it does, the number of
octets that it reads, and the reply. -/
structure NbpDone where
  copied : Option NbpLens
  readEnd : Nat
  reply : Option NbpReply

/-- The names and the answer, for a request in `nbp_data` of which `rcvLen` octets are new. -/
def answerRequest (iface : NbpIface) (v : NbpVars) (rcvLen : Nat) : NbpVars × NbpDone :=
  let nt (i : Nat) := v.nbpData.getD i 0
  let (olen, obj, data) := nameAt (v.nbpData.drop 8)
  let (tlen, type, data) := nameAt data
  let (zlen, zone, _) := nameAt data
  let v := { v with
    tmpObj := memcpy v.tmpObj obj
    tmpType := memcpy v.tmpType type
    tmpZone := memcpy v.tmpZone zone }
  let n : NbpLens := ⟨olen, tlen, zlen⟩
  let readEnd := 8 + olen + tlen + zlen + 3
  if rcvLen < readEnd then (v, ⟨some n, readEnd, none⟩)
  else
    let tuples := nbpSet iface v n 0 iface.ports
    if tuples = [] then (v, ⟨some n, readEnd, none⟩)
    else
      let reply : NbpReply := ⟨⟨nt 3, nt 4, nt 5, nt 6⟩, nt 2, tuples⟩
      ({ v with nbpData := memcpy v.nbpData reply.octets }, ⟨some n, readEnd, some reply⟩)

/-- A round of the loop of `nbp_input`. -/
def nbpInput (iface : NbpIface) (v : NbpVars) (datagram : List UInt8) : NbpVars × NbpDone :=
  let rcv := datagram.take nbpInputLen
  if rcv = [] then (v, ⟨none, 0, none⟩)
  else
    let v := { v with nbpData := memcpy v.nbpData rcv }
    let nh (i : Nat) := v.nbpData.getD i 0
    if nh 0 ≠ nbpDdptype then (v, ⟨none, 1, none⟩)
    else if ((nh 1).toNat / 16 ≠ nbpopLkup ∧ (nh 1).toNat / 16 ≠ nbpopBrrq) ∨
        (nh 1).toNat % 16 ≠ 1 then (v, ⟨none, 2, none⟩)
    else if nh 3 = iface.my.net₀ ∧ nh 4 = iface.my.net₁ ∧ nh 5 = iface.my.node then
      (v, ⟨none, 7, none⟩)
    else answerRequest iface v rcv.length

/-- The loop, with what it did last. -/
structure Nbp where
  vars : NbpVars
  last : Option (List UInt8 × NbpDone)

def nbpMachine (iface : NbpIface) (v : NbpVars) : Machine Nbp (List UInt8) where
  init := ⟨v, none⟩
  step s datagram :=
    some ⟨(nbpInput iface s.vars datagram).1, some (datagram, (nbpInput iface s.vars datagram).2)⟩

/-! ## The property -/

/-- Names that differ in the case of letters only. -/
def SameName (a b : List UInt8) : Prop := a.map toLower = b.map toLower

def NameMatches (pat name : List UInt8) : Prop :=
  pat = [nbpEquals] ∨ pat = [nbpWild] ∨ (nbpWild ∉ pat ∧ SameName pat name) ∨
    ∃ beg fin, pat = beg ++ nbpWild :: fin ∧ nbpWild ∉ beg ∧ Between toLower beg fin name

def ZoneMatches (zone zonename : List UInt8) : Prop :=
  zone = [] ∨ zone = [nbpStar] ∨ SameName zone zonename

/-- A name of at most 32 octets behind its length, and what is behind it. -/
def splitName : List UInt8 → Option (List UInt8 × List UInt8)
  | [] => none
  | n :: s =>
      if n.toNat ≤ nbpstrlen ∧ n.toNat ≤ s.length then some (s.take n.toNat, s.drop n.toNat)
      else none

structure NbpNames where
  object : List UInt8
  type : List UInt8
  zone : List UInt8
deriving DecidableEq

def splitNames (s : List UInt8) : Option NbpNames :=
  (splitName s).bind fun (object, s) ↦ (splitName s).bind fun (type, s) ↦
    (splitName s).map fun (zone, _) ↦ ⟨object, type, zone⟩

/-- A lookup or broadcast request with one tuple. -/
def isRequest (d : List UInt8) : Bool :=
  d.getD 0 0 = nbpDdptype ∧ (d.getD 1 0).toNat % 16 = 1 ∧
    ((d.getD 1 0).toNat / 16 = nbpopLkup ∨ (d.getD 1 0).toNat / 16 = nbpopBrrq)

/-- The node that the tuple names. -/
def requester (d : List UInt8) : AtAddr := ⟨d.getD 3 0, d.getD 4 0, d.getD 5 0⟩

/-- The datagram asks for this port. -/
def AsksFor (iface : NbpIface) (d : List UInt8) (p : NbpPort) : Prop :=
  isRequest d ∧ requester d ≠ iface.my ∧ ∃ n, splitNames (d.drop 8) = some n ∧
    NameMatches n.object p.object ∧ NameMatches n.type p.type ∧ ZoneMatches n.zone iface.zonename

def NbpReply.Lists (r : NbpReply) (i : Nat) : Prop := ∃ t ∈ r.tuples, t.enum = i

structure DoneSound (iface : NbpIface) (d : List UInt8) (done : NbpDone) : Prop where
  copies : ∀ n, done.copied = some n →
    n.olen ≤ nbpstrlen ∧ n.tlen ≤ nbpstrlen ∧ n.zlen ≤ nbpstrlen
  reads : done.readEnd ≤ min d.length nbpInputLen
  answers : ∀ i p, iface.ports[i]? = some p →
    ((∃ r, done.reply = some r ∧ r.Lists i) ↔ AsksFor iface d p)

def NbpSound (iface : NbpIface) (s : Nbp) : Prop :=
  ∀ d done, s.last = some (d, done) → DoneSound iface d done

/-! ## When it holds -/

/-- The request is whole: what is asked of it was received, and its names fit. -/
structure RequestWhole (iface : NbpIface) (d : List UInt8) : Prop where
  header : d.getD 0 0 = nbpDdptype → 2 ≤ d.length
  sender : isRequest d → 7 ≤ d.length
  names : isRequest d → requester d ≠ iface.my → (splitNames (d.drop 8)).isSome

/-- A port whose names are asked for answers by its zone: it was registered, the zone is not empty
where a name of an earlier request starts with something, and does not start with a NUL.  Or else it
was not registered, and is asked for in another zone. -/
def ZoneOk (iface : NbpIface) (tmpZone zone : List UInt8) (p : NbpPort) : Prop :=
  if p.used then ¬ZoneMatches zone iface.zonename
  else (zone = [] → tmpZone.headD 0 = 0 ∨ iface.zonename = []) ∧ zone.head? ≠ some 0

structure DatagramOk (iface : NbpIface) (s : Nbp) (d : List UInt8) : Prop where
  whole : RequestWhole iface d
  zone : isRequest d → requester d ≠ iface.my → ∀ n, splitNames (d.drop 8) = some n →
    ∀ p ∈ iface.ports, NameMatches n.object p.object → NameMatches n.type p.type →
      ZoneOk iface s.vars.tmpZone n.zone p

variable {iface : NbpIface} {a b d l t name behind : List UInt8} {n : NbpNames} {v : NbpVars}
  {p : NbpPort} {k : Nat}

/-! ## Matching -/

theorem getD_map (s : List UInt8) (i : Nat) (hi : i < s.length) :
    (s.map toLower)[i]? = some (toLower (s.getD i 0)) := by
  rw [List.getElem?_map, List.getD_eq_getElem?_getD, List.getElem?_eq_getElem hi]
  rfl

/-- A comparison of octets that both sides have. -/
theorem memicmpEq_iff (ha : k ≤ a.length) (hb : k ≤ b.length) :
    memicmpEq a b k ↔ SameName (a.take k) (b.take k) := by
  unfold memicmpEq SameName
  rw [List.map_take, List.map_take]
  simp only [List.all_eq_true, List.mem_range, decide_eq_true_eq]
  constructor
  · intro hall
    apply List.ext_getElem?
    intro i
    by_cases hi : i < k
    · rw [List.getElem?_take_of_lt hi, List.getElem?_take_of_lt hi,
        getD_map a i (Nat.lt_of_lt_of_le hi ha), getD_map b i (Nat.lt_of_lt_of_le hi hb), hall i hi]
    · rw [List.getElem?_take_eq_none (Nat.le_of_not_lt hi),
        List.getElem?_take_eq_none (Nat.le_of_not_lt hi)]
  · intro heq i hi
    have hat := congrArg (·[i]?) heq
    simp only [List.getElem?_take_of_lt hi] at hat
    rw [getD_map a i (Nat.lt_of_lt_of_le hi ha), getD_map b i (Nat.lt_of_lt_of_le hi hb)] at hat
    exact Option.some.inj hat

theorem SameName.length_eq (h : SameName a b) : a.length = b.length := by
  have hlen := congrArg List.length h
  rwa [List.length_map, List.length_map] at hlen

/-- A pattern is like a whole name. -/
theorem same_whole_iff (pat rest more : List UInt8) :
    (name.length = pat.length ∧ memicmpEq (pat ++ rest) (name ++ more) pat.length) ↔
      SameName pat name := by
  have htake : (pat ++ rest).take pat.length = pat := List.take_left
  constructor
  · intro ⟨hlen, hsame⟩
    rw [memicmpEq_iff (by simp) (by simp [hlen]), htake, ← hlen, List.take_left] at hsame
    exact hsame
  · intro hsame
    have hlen := hsame.length_eq.symm
    refine ⟨hlen, ?_⟩
    rw [memicmpEq_iff (by simp) (by simp [hlen]), htake, ← hlen, List.take_left]
    exact hsame

/-- `nbpMatch` at a pattern with a wildcard. -/
theorem between_match_iff (beg fin rest : List UInt8) :
    ((beg.length ≠ 0 → memicmpEq (beg ++ nbpWild :: fin ++ rest) (name ++ 0 :: behind) beg.length) ∧
      beg.length + fin.length ≤ name.length ∧
      (fin.length ≠ 0 → memicmpEq (fin ++ rest)
        ((name ++ 0 :: behind).drop (name.length - fin.length)) fin.length)) ↔
      Between toLower beg fin name := by
  rw [between_iff]
  -- the comparisons, once the name is long enough
  have hbeg (hlen : beg.length + fin.length ≤ name.length) :
      memicmpEq (beg ++ nbpWild :: fin ++ rest) (name ++ 0 :: behind) beg.length ↔
        (name.take beg.length).map toLower = beg.map toLower := by
    rw [memicmpEq_iff (by simp) (by simp; omega), List.append_assoc, List.take_left,
      List.take_append_of_le_length (by omega)]
    exact eq_comm
  have hfin (hlen : beg.length + fin.length ≤ name.length) :
      memicmpEq (fin ++ rest) ((name ++ 0 :: behind).drop (name.length - fin.length)) fin.length ↔
        (name.drop (name.length - fin.length)).map toLower = fin.map toLower := by
    rw [List.drop_append_of_le_length (Nat.sub_le _ _)]
    have hdrop : (name.drop (name.length - fin.length)).length = fin.length := by
      rw [List.length_drop]
      omega
    rw [memicmpEq_iff (by simp) (by simp; omega), List.take_left, List.take_left' hdrop]
    exact eq_comm
  constructor
  · intro ⟨hb, hlen, hf⟩
    refine ⟨hlen, ?_, ?_⟩
    · by_cases hzero : beg.length = 0
      · rw [List.eq_nil_of_length_eq_zero hzero]
        rfl
      · exact (hbeg hlen).mp (hb hzero)
    · by_cases hzero : fin.length = 0
      · rw [List.eq_nil_of_length_eq_zero hzero]
        simp
      · exact (hfin hlen).mp (hf hzero)
  · intro ⟨hlen, hb, hf⟩
    exact ⟨fun _ ↦ (hbeg hlen).mpr hb, hlen, fun _ ↦ (hfin hlen).mpr hf⟩

theorem idxOf?_split {c : UInt8} {beg fin : List UInt8} (h : c ∉ beg) :
    (beg ++ c :: fin).idxOf? c = some beg.length := by
  induction beg with
  | nil => simp [List.idxOf?_cons]
  | cons x beg ih =>
      obtain ⟨hx, hbeg⟩ : c ≠ x ∧ c ∉ beg := by simpa using h
      rw [List.cons_append, List.idxOf?_cons, ih hbeg]
      simp [Ne.symm hx]

/-- The first wildcard of a pattern. -/
theorem split_unique {c : UInt8} {b b' f f' : List UInt8} (hb : c ∉ b) (hb' : c ∉ b')
    (h : b ++ c :: f = b' ++ c :: f') : b = b' ∧ f = f' := by
  have hidx : (b ++ c :: f).idxOf? c = some b.length := idxOf?_split hb
  rw [h, idxOf?_split hb', Option.some.injEq] at hidx
  obtain ⟨heq, htail⟩ := List.append_inj h hidx.symm
  exact ⟨heq, (List.cons.inj htail).2⟩

/-- `nbpMatch` decides the matching, whatever is left behind the pattern and the name. -/
theorem nbpMatch_iff (pat rest name behind : List UInt8) :
    nbpMatch (pat ++ rest) pat.length name behind ↔ NameMatches pat name := by
  unfold nbpMatch NameMatches strnchr
  rw [List.take_left]
  split
  · rename_i hlone
    obtain ⟨hhead, hlen⟩ := hlone
    obtain ⟨c, rfl⟩ := List.length_eq_one_iff.mp hlen
    have hc : c = nbpEquals ∨ c = nbpWild := hhead
    rcases hc with rfl | rfl <;> simp
  · rename_i hlone
    have hne : ∀ c, c = nbpEquals ∨ c = nbpWild → pat ≠ [c] := by
      rintro c hc rfl
      exact hlone ⟨hc, rfl⟩
    have heq := hne nbpEquals (.inl rfl)
    have hwild := hne nbpWild (.inr rfl)
    simp only [heq, hwild, false_or]
    by_cases hmem : nbpWild ∈ pat
    · obtain ⟨beg, fin, rfl, hbeg⟩ := List.eq_append_cons_of_mem hmem
      have hunique : (∃ b f, beg ++ nbpWild :: fin = b ++ nbpWild :: f ∧ nbpWild ∉ b ∧
          Between toLower b f name) ↔ Between toLower beg fin name := by
        constructor
        · rintro ⟨b, f, hsplit, hb, hbetween⟩
          obtain ⟨rfl, rfl⟩ := split_unique hbeg hb hsplit
          exact hbetween
        · exact fun hbetween ↦ ⟨beg, fin, rfl, hbeg, hbetween⟩
      have hdrop : (beg ++ nbpWild :: fin ++ rest).drop (beg.length + 1) = fin ++ rest := by
        rw [List.append_assoc, ← List.drop_drop, List.drop_left]
        rfl
      have hpl : (beg ++ nbpWild :: fin).length - 1 = beg.length + fin.length := by
        rw [List.length_append, List.length_cons]
        omega
      have hmore : beg.length < beg.length + fin.length ↔ fin.length ≠ 0 := by omega
      simp only [idxOf?_split hbeg, hmem, not_true_eq_false, false_and, false_or, hunique, hpl,
        hdrop, Nat.add_sub_cancel_left, hmore]
      rw [← @between_match_iff name behind beg fin rest]
      by_cases hlen : name.length < beg.length + fin.length
      · simp [hlen, Nat.not_le.mpr hlen]
      · simp only [hlen, Nat.le_of_not_lt hlen]
        grind
    · have hnone : ¬∃ beg fin, pat = beg ++ nbpWild :: fin ∧ nbpWild ∉ beg ∧
          Between toLower beg fin name := by
        rintro ⟨beg, fin, rfl, -⟩
        exact hmem (by simp)
      simp only [List.idxOf?_eq_none_iff.mpr hmem, hmem, hnone, not_false_eq_true, true_and,
        or_false, decide_eq_true_eq]
      exact same_whole_iff pat rest (0 :: behind)

/-! ## The names of a request -/

theorem splitName_some {s rest : List UInt8} (h : splitName l = some (s, rest)) :
    s.length ≤ nbpstrlen ∧ l.length = s.length + 1 + rest.length ∧
      nameAt (l ++ t) = (s.length, s, rest ++ t) := by
  cases l with
  | nil => cases h
  | cons c l =>
      simp only [splitName] at h
      split at h
      · rename_i hc
        obtain ⟨hle, hlen⟩ := hc
        cases h
        have hs : (l.take c.toNat).length = c.toNat := List.length_take_of_le hlen
        refine ⟨by rw [hs]; exact hle, ?_, ?_⟩
        · rw [hs, List.length_cons, List.length_drop]
          omega
        · show (c.toNat, (l ++ t).take c.toNat, (l ++ t).drop c.toNat) = _
          rw [hs, List.take_append_of_le_length hlen, List.drop_append_of_le_length hlen]
      · cases h

/-- A name that is too long, or that is not all there. -/
theorem splitName_none (h : splitName l = none) :
    nbpstrlen < (nameAt (l ++ t)).1 ∨ l.length < (nameAt (l ++ t)).1 + 1 := by
  cases l with
  | nil => exact .inr (Nat.succ_pos _)
  | cons c l =>
      simp only [splitName] at h
      split at h
      · cases h
      · rename_i hc
        show nbpstrlen < c.toNat ∨ l.length + 1 < c.toNat + 1
        omega

/-- What the code makes of the octets behind the tuple: the lengths and the names. -/
def namesAt (data : List UInt8) : NbpLens × NbpNames :=
  let o := nameAt data
  let t := nameAt o.2.2
  let z := nameAt t.2.2
  (⟨o.1, t.1, z.1⟩, ⟨o.2.1, t.2.1, z.2.1⟩)

def NbpNames.lens (n : NbpNames) : NbpLens := ⟨n.object.length, n.type.length, n.zone.length⟩

def NbpLens.sum (n : NbpLens) : Nat := n.olen + n.tlen + n.zlen

def NbpLens.Short (n : NbpLens) : Prop :=
  n.olen ≤ nbpstrlen ∧ n.tlen ≤ nbpstrlen ∧ n.zlen ≤ nbpstrlen

theorem namesAt_some (h : splitNames l = some n) :
    namesAt (l ++ t) = (n.lens, n) ∧ n.lens.Short ∧ n.lens.sum + 3 ≤ l.length := by
  obtain ⟨⟨object, l₁⟩, h₁, h⟩ := Option.bind_eq_some_iff.mp h
  obtain ⟨⟨type, l₂⟩, h₂, h⟩ := Option.bind_eq_some_iff.mp h
  obtain ⟨⟨zone, l₃⟩, h₃, rfl⟩ := Option.map_eq_some_iff.mp h
  obtain ⟨hle₁, hlen₁, hat₁⟩ := splitName_some (t := t) h₁
  obtain ⟨hle₂, hlen₂, hat₂⟩ := splitName_some (t := t) h₂
  obtain ⟨hle₃, hlen₃, hat₃⟩ := splitName_some (t := t) h₃
  refine ⟨?_, ⟨hle₁, hle₂, hle₃⟩, ?_⟩
  · simp only [namesAt, hat₁, hat₂, hat₃]
    rfl
  · show object.length + type.length + zone.length + 3 ≤ l.length
    omega

theorem namesAt_none (h : splitNames l = none) :
    ¬((namesAt (l ++ t)).1.Short ∧ (namesAt (l ++ t)).1.sum + 3 ≤ l.length) := by
  intro ⟨⟨ho, ht, hz⟩, hsum⟩
  cases h₁ : splitName l with
  | none =>
      have hbad := splitName_none (t := t) h₁
      simp only [namesAt, NbpLens.sum] at ho hsum
      omega
  | some p₁ =>
      obtain ⟨object, l₁⟩ := p₁
      obtain ⟨-, hlen₁, hat₁⟩ := splitName_some (t := t) h₁
      simp only [namesAt, NbpLens.sum, hat₁] at ht hz hsum
      cases h₂ : splitName l₁ with
      | none =>
          have hbad := splitName_none (t := t) h₂
          omega
      | some p₂ =>
          obtain ⟨type, l₂⟩ := p₂
          obtain ⟨-, hlen₂, hat₂⟩ := splitName_some (t := t) h₂
          simp only [hat₂] at hz hsum
          cases h₃ : splitName l₂ with
          | none =>
              have hbad := splitName_none (t := t) h₃
              omega
          | some p₃ => simp [splitNames, h₁, h₂, h₃] at h

theorem splitName_append (h : nbpstrlen < l.length) :
    splitName (l ++ t) = (splitName l).map fun p ↦ (p.1, p.2 ++ t) := by
  cases l with
  | nil => cases h
  | cons c l =>
      have hlen : nbpstrlen ≤ l.length := Nat.le_of_lt_succ h
      unfold splitName
      simp only [List.cons_append]
      by_cases hc : c.toNat ≤ nbpstrlen
      · have hle : c.toNat ≤ l.length := Nat.le_trans hc hlen
        have hle' : c.toNat ≤ l.length + t.length := by omega
        simp [hc, hle, hle', List.take_append_of_le_length hle, List.drop_append_of_le_length hle]
      · simp [hc]

/-- The names take no more than 99 octets. -/
theorem splitNames_append (h : 3 * (nbpstrlen + 1) ≤ l.length) :
    splitNames (l ++ t) = splitNames l := by
  simp only [nbpstrlen] at h
  unfold splitNames
  rw [splitName_append (by simp only [nbpstrlen]; omega)]
  cases h₁ : splitName l with
  | none => rfl
  | some p₁ =>
      obtain ⟨hle₁, hlen₁, -⟩ := splitName_some (t := t) h₁
      simp only [nbpstrlen] at hle₁
      simp only [Option.map_some, Option.bind_some]
      rw [splitName_append (by simp only [nbpstrlen]; omega)]
      cases h₂ : splitName p₁.2 with
      | none => rfl
      | some p₂ =>
          obtain ⟨hle₂, hlen₂, -⟩ := splitName_some (t := t) h₂
          simp only [nbpstrlen] at hle₂
          simp only [Option.map_some, Option.bind_some]
          rw [splitName_append (by simp only [nbpstrlen]; omega)]
          cases splitName p₂.2 <;> rfl

/-- What `recvfrom2` leaves out of a long datagram is not asked. -/
theorem splitNames_take (d : List UInt8) :
    splitNames ((d.take nbpInputLen).drop 8) = splitNames (d.drop 8) := by
  by_cases hlen : d.length ≤ nbpInputLen
  · rw [List.take_of_length_le hlen]
  · have hsplit : d.drop 8 = (d.take nbpInputLen).drop 8 ++ d.drop nbpInputLen := by
      conv_lhs => rw [← List.take_append_drop nbpInputLen d]
      apply List.drop_append_of_le_length
      simp only [List.length_take, nbpInputLen] at hlen ⊢
      omega
    rw [hsplit, splitNames_append]
    simp only [List.length_drop, List.length_take, nbpInputLen, nbpstrlen] at hlen ⊢
    omega

/-! ## The answer -/

theorem not_sameName_nul {z : List UInt8} (hz : z.head? = some 0) :
    ¬SameName z iface.zonename := by
  intro hsame
  obtain ⟨z, rfl⟩ : ∃ z', z = 0 :: z' := by
    cases z with
    | nil => cases hz
    | cons c z => exact ⟨z, by rw [Option.some.inj hz]⟩
  cases hname : iface.zonename with
  | nil =>
      rw [hname] at hsame
      cases hsame
  | cons c cs =>
      rw [hname] at hsame
      have hc : toLower 0 = toLower c := (List.cons.inj hsame).1
      have hzero : c = 0 := by
        unfold toLower at hc
        split at hc <;> split at hc <;> grind
      apply iface.zonename_text.1
      rw [hname, hzero]
      exact List.mem_cons_self

theorem inZone_iff {stale z : List UInt8} : inZone iface (memcpy stale z) z.length ↔
    if z = [] then stale.headD 0 = 0 ∨ iface.zonename = []
    else z.head? = some 0 ∨ ZoneMatches z iface.zonename := by
  have hsame := @same_whole_iff iface.zonename z (stale.drop z.length) []
  rw [List.append_nil] at hsame
  unfold inZone memcpy
  simp only [decide_eq_true_eq, hsame]
  cases z with
  | nil =>
      have hzone : SameName [] iface.zonename ↔ iface.zonename = [] := by
        unfold SameName
        rw [List.map_nil, eq_comm, List.map_eq_nil_iff]
      simp [hzone]
  | cons c z =>
      have hstar : c = nbpStar ∧ z.length + 1 = 1 ↔ c :: z = [nbpStar] := by
        simp
      simp only [List.cons_append, List.headD_cons, List.length_cons, hstar, List.cons_ne_nil,
        if_false, List.head?_cons, Option.some.injEq, ZoneMatches, false_or]
      exact or_left_comm

/-- The zone decides as it should exactly for these requests. -/
theorem zoneOk_iff {stale z : List UInt8} :
    ZoneOk iface stale z p ↔
      ((p.used = false ∧ inZone iface (memcpy stale z) z.length) ↔
        ZoneMatches z iface.zonename) := by
  rw [inZone_iff]
  unfold ZoneOk
  by_cases hused : p.used = true
  · simp [hused]
  · have hfree : p.used = false := Bool.eq_false_iff.mpr hused
    rw [if_neg hused]
    simp only [hfree, true_and]
    by_cases hz : z = []
    · have hmatch : ZoneMatches z iface.zonename := .inl hz
      simp only [hz, if_true, true_imp_iff, List.head?_nil]
      rw [hz] at hmatch
      simp [hmatch]
    · simp only [hz, if_false, false_imp_iff, true_and]
      by_cases hnul : z.head? = some 0
      · have hstar : z ≠ [nbpStar] := by
          rintro rfl
          cases hnul
        have hnot : ¬ZoneMatches z iface.zonename := by
          rintro (h | h | h)
          · exact hz h
          · exact hstar h
          · exact not_sameName_nul hnul h
        simp [hnul, hnot]
      · simp [hnul]

/-- The ports that a reply lists. -/
theorem mem_nbpSet {n : NbpLens} {i k : Nat} {ps : List NbpPort} :
    (∃ t ∈ nbpSet iface v n k ps, t.enum = i) ↔
      ∃ p, k ≤ i ∧ ps[i - k]? = some p ∧ p.used = false ∧ nbpFind iface v n p := by
  induction ps generalizing k with
  | nil => simp [nbpSet]
  | cons q ps ih =>
      have hstep : (∃ p, k ≤ i ∧ (q :: ps)[i - k]? = some p ∧ p.used = false ∧
            nbpFind iface v n p) ↔
          (i = k ∧ q.used = false ∧ nbpFind iface v n q) ∨
            ∃ p, k + 1 ≤ i ∧ ps[i - (k + 1)]? = some p ∧ p.used = false ∧
              nbpFind iface v n p := by
        rcases Nat.lt_trichotomy i k with hlt | rfl | hgt
        · have h₁ : ¬k ≤ i := by omega
          have h₂ : ¬k + 1 ≤ i := by omega
          have h₃ : ¬i = k := by omega
          simp [h₁, h₂, h₃]
        · have hnext : ¬i + 1 ≤ i := by omega
          simp [hnext]
        · obtain ⟨j, rfl⟩ : ∃ j, i = k + 1 + j := ⟨i - (k + 1), by omega⟩
          have h₁ : k + 1 + j - k = j + 1 := by omega
          have h₂ : k + 1 + j - (k + 1) = j := by omega
          have h₃ : ¬k + 1 + j = k := by omega
          have h₄ : k ≤ k + 1 + j := by omega
          have h₅ : k + 1 ≤ k + 1 + j := by omega
          simp only [h₁, h₂, h₃, h₄, h₅, List.getElem?_cons_succ, true_and, false_and, false_or]
      rw [hstep, ← ih, nbpSet]
      by_cases hused : q.used = true
      · simp [hused]
      · by_cases hfind : nbpFind iface v n q
        · have heq : k = i ↔ i = k := eq_comm
          simp [hused, hfind, heq]
        · simp [hused, hfind]

/-- The names of a request are copied over those of the last one. -/
def NbpVars.setNames (v : NbpVars) (n : NbpNames) : NbpVars :=
  { v with
    tmpObj := memcpy v.tmpObj n.object
    tmpType := memcpy v.tmpType n.type
    tmpZone := memcpy v.tmpZone n.zone }

theorem answerRequest_done (iface : NbpIface) (v : NbpVars) (rcvLen : Nat) :
    (answerRequest iface v rcvLen).2.copied = some (namesAt (v.nbpData.drop 8)).1 ∧
      (answerRequest iface v rcvLen).2.readEnd = 8 + (namesAt (v.nbpData.drop 8)).1.sum + 3 := by
  have hsum : 8 + (namesAt (v.nbpData.drop 8)).1.sum + 3 =
      8 + (namesAt (v.nbpData.drop 8)).1.olen + (namesAt (v.nbpData.drop 8)).1.tlen +
        (namesAt (v.nbpData.drop 8)).1.zlen + 3 := by
    unfold NbpLens.sum
    omega
  rw [hsum]
  unfold answerRequest
  dsimp only
  split
  · exact ⟨rfl, rfl⟩
  split
  · exact ⟨rfl, rfl⟩
  · exact ⟨rfl, rfl⟩

/-- The reply to a request whose octets were all received. -/
theorem answerRequest_reply {rcvLen i : Nat}
    (hlen : 8 + (namesAt (v.nbpData.drop 8)).1.sum + 3 ≤ rcvLen) :
    (∃ r, (answerRequest iface v rcvLen).2.reply = some r ∧ r.Lists i) ↔
      ∃ t ∈ nbpSet iface (v.setNames (namesAt (v.nbpData.drop 8)).2)
        (namesAt (v.nbpData.drop 8)).1 0 iface.ports, t.enum = i := by
  have hfit : ¬rcvLen < 8 + (namesAt (v.nbpData.drop 8)).1.olen +
      (namesAt (v.nbpData.drop 8)).1.tlen + (namesAt (v.nbpData.drop 8)).1.zlen + 3 := by
    unfold NbpLens.sum at hlen
    omega
  have hreply : (answerRequest iface v rcvLen).2.reply =
      let tuples := nbpSet iface (v.setNames (namesAt (v.nbpData.drop 8)).2)
        (namesAt (v.nbpData.drop 8)).1 0 iface.ports
      let nt (i : Nat) := v.nbpData.getD i 0
      if tuples = [] then none else some ⟨⟨nt 3, nt 4, nt 5, nt 6⟩, nt 2, tuples⟩ := by
    unfold answerRequest
    dsimp only
    split
    · rename_i hshort
      exact absurd hshort hfit
    split
    · rename_i hnil
      exact (if_pos hnil).symm
    · rename_i hsome
      exact (if_neg hsome).symm
  rw [hreply]
  dsimp only
  split
  · rename_i hnil
    rw [hnil]
    simp
  · simp [NbpReply.Lists]

/-- A whole request is answered for the ports whose names match, if the zone does. -/
theorem answer_iff {rcvLen i : Nat} (hwhole : namesAt (v.nbpData.drop 8) = (n.lens, n))
    (hlen : 8 + n.lens.sum + 3 ≤ rcvLen) (hp : iface.ports[i]? = some p) :
    (∃ r, (answerRequest iface v rcvLen).2.reply = some r ∧ r.Lists i) ↔
      (p.used = false ∧ inZone iface (memcpy v.tmpZone n.zone) n.zone.length) ∧
        NameMatches n.object p.object ∧ NameMatches n.type p.type := by
  rw [answerRequest_reply (by rw [hwhole]; exact hlen), hwhole, mem_nbpSet]
  have hfind : nbpFind iface (v.setNames n) n.lens p ↔
      inZone iface (memcpy v.tmpZone n.zone) n.zone.length ∧
        NameMatches n.object p.object ∧ NameMatches n.type p.type := by
    unfold nbpFind
    rw [Bool.and_eq_true, Bool.and_eq_true, and_assoc]
    apply and_congr_right'
    apply and_congr
    · exact nbpMatch_iff n.object _ p.object p.behind
    · exact nbpMatch_iff n.type _ p.type p.behind
  simp only [Nat.zero_le, Nat.sub_zero, hp, true_and, Option.some.injEq, exists_eq_left']
  rw [hfind, and_assoc]

/-! ## A round of the loop -/

theorem getD_memcpy {dest src : List UInt8} {i : Nat} (hi : i < src.length) :
    (memcpy dest src).getD i 0 = src.getD i 0 := by
  unfold memcpy
  rw [List.getD_eq_getElem?_getD, List.getElem?_append_left hi, List.getD_eq_getElem?_getD]

theorem getD_take {m i : Nat} (hi : i < m) : (d.take m).getD i 0 = d.getD i 0 := by
  rw [List.getD_eq_getElem?_getD, List.getElem?_take_of_lt hi, List.getD_eq_getElem?_getD]

/-- What `nbp_input` finds in its buffer where it received something. -/
theorem nbpData_getD {dest : List UInt8} {i : Nat} (hi : i < d.length) (hmax : i < nbpInputLen) :
    (memcpy dest (d.take nbpInputLen)).getD i 0 = d.getD i 0 := by
  rw [getD_memcpy, getD_take hmax]
  rw [List.length_take]
  omega

/-- The buffer after a receive, with the octets of the datagram in front. -/
theorem drop_nbpData (dest d : List UInt8) :
    ∃ t, (memcpy dest (d.take nbpInputLen)).drop 8 = (d.take nbpInputLen).drop 8 ++ t := by
  unfold memcpy
  rw [List.drop_append]
  exact ⟨_, rfl⟩

theorem doneSound_silent {k : Nat} (hk : k ≤ min d.length nbpInputLen)
    (hno : ∀ p, ¬AsksFor iface d p) : DoneSound iface d ⟨none, k, none⟩ where
  copies := by
    intro n h
    cases h
  reads := hk
  answers := by
    intro i p _
    constructor
    · rintro ⟨r, h, -⟩
      cases h
    · exact fun h ↦ absurd h (hno p)

/-- A request that is received in full. -/
theorem doneSound_request_iff (s : Nbp) (hreq : isRequest d) (hmy : requester d ≠ iface.my)
    (hlen : 7 ≤ d.length) :
    DoneSound iface d (answerRequest iface
        { s.vars with nbpData := memcpy s.vars.nbpData (d.take nbpInputLen) }
        (d.take nbpInputLen).length).2 ↔ DatagramOk iface s d := by
  obtain ⟨t, ht⟩ := drop_nbpData s.vars.nbpData d
  have htake := splitNames_take d
  have hrcv : (d.take nbpInputLen).length = min d.length nbpInputLen := by
    rw [List.length_take, Nat.min_comm]
  have hheader : d.getD 0 0 = nbpDdptype → 2 ≤ d.length := fun _ ↦ by omega
  obtain ⟨hcopied, hend⟩ := answerRequest_done iface
    { s.vars with nbpData := memcpy s.vars.nbpData (d.take nbpInputLen) }
    (d.take nbpInputLen).length
  rw [ht] at hcopied hend
  have hrest : ((d.take nbpInputLen).drop 8).length = min d.length nbpInputLen - 8 := by
    rw [List.length_drop, hrcv]
  cases hsplit : splitNames (d.drop 8) with
  | none =>
      -- a name is too long or goes on behind the datagram
      have hbad := namesAt_none (t := t) (htake.trans hsplit)
      constructor
      · intro hsound
        refine absurd ⟨hsound.copies _ hcopied, ?_⟩ hbad
        have hreads := hsound.reads
        rw [hend] at hreads
        omega
      · intro hok
        have hsome := hok.whole.names hreq hmy
        rw [hsplit] at hsome
        cases hsome
  | some n =>
      obtain ⟨hat, hshort, hsum⟩ := namesAt_some (t := t) (htake.trans hsplit)
      rw [hat] at hcopied hend
      have hfit : 8 + n.lens.sum + 3 ≤ (d.take nbpInputLen).length := by omega
      have hanswer {i : Nat} {p : NbpPort} (hp : iface.ports[i]? = some p) :=
        answer_iff (v := { s.vars with nbpData := memcpy s.vars.nbpData (d.take nbpInputLen) })
          (by rw [ht]; exact hat) hfit hp
      have hasks (p : NbpPort) : AsksFor iface d p ↔ NameMatches n.object p.object ∧
          NameMatches n.type p.type ∧ ZoneMatches n.zone iface.zonename := by
        unfold AsksFor
        simp only [hreq, hmy, hsplit, ne_eq, not_false_eq_true, true_and, Option.some.injEq,
          exists_eq_left']
      constructor
      · intro hsound
        refine ⟨⟨hheader, fun _ ↦ hlen, fun _ _ ↦ by rw [hsplit]; rfl⟩, ?_⟩
        intro _ _ m hm p hp hobj htype
        rw [hsplit, Option.some.injEq] at hm
        subst hm
        obtain ⟨i, hi⟩ := List.mem_iff_getElem?.mp hp
        have hiff := (hanswer hi).symm.trans ((hsound.answers i p hi).trans (hasks p))
        rw [zoneOk_iff]
        simpa only [hobj, htype, and_true, true_and] using hiff
      · intro hok
        refine ⟨?_, ?_, ?_⟩
        · intro m hm
          rw [hcopied, Option.some.injEq] at hm
          exact hm ▸ hshort
        · rw [hend, ← hrcv]
          exact hfit
        · intro i p hp
          rw [hanswer hp, hasks]
          have hzone := fun hobj htype ↦ zoneOk_iff.mp
            (hok.zone hreq hmy n hsplit p (List.mem_of_getElem? hp) hobj htype)
          constructor
          · intro ⟨hz, hobj, htype⟩
            exact ⟨hobj, htype, (hzone hobj htype).mp hz⟩
          · intro ⟨hobj, htype, hz⟩
            exact ⟨(hzone hobj htype).mpr hz, hobj, htype⟩

theorem not_asksFor (h : isRequest d = true → requester d = iface.my) (p : NbpPort) :
    ¬AsksFor iface d p := by
  intro ⟨hreq, hmy, _⟩
  exact hmy (h hreq)

theorem datagramOk_of (s : Nbp) (hheader : d.getD 0 0 = nbpDdptype → 2 ≤ d.length)
    (hsender : isRequest d → 7 ≤ d.length) (hno : isRequest d = true → requester d = iface.my) :
    DatagramOk iface s d :=
  ⟨⟨hheader, hsender, fun hreq hmy ↦ absurd (hno hreq) hmy⟩, fun hreq hmy ↦ absurd (hno hreq) hmy⟩

theorem doneSound_reads {done : NbpDone} {m : Nat} (hlen : d.length < m) (hend : m ≤ done.readEnd) :
    ¬DoneSound iface d done := by
  intro hsound
  have hreads := hsound.reads
  omega

theorem answerRequest_readEnd (iface : NbpIface) (v : NbpVars) (rcvLen : Nat) :
    11 ≤ (answerRequest iface v rcvLen).2.readEnd := by
  rw [(answerRequest_done iface v rcvLen).2]
  omega

/-- A round does as it should exactly for these datagrams. -/
theorem doneSound_iff (iface : NbpIface) (s : Nbp) (d : List UInt8) :
    DoneSound iface d (nbpInput iface s.vars d).2 ↔ DatagramOk iface s d := by
  have hmax : 7 ≤ nbpInputLen := by decide
  by_cases hnil : d = []
  · subst hnil
    have hno : isRequest [] = true → requester [] = iface.my := by
      intro hreq
      exact absurd hreq (by decide)
    exact iff_of_true (doneSound_silent (Nat.zero_le _) (not_asksFor hno))
      (datagramOk_of s (fun h ↦ absurd h (by decide)) (fun h ↦ absurd h (by decide)) hno)
  have hpos : 0 < d.length := List.length_pos_iff.mpr hnil
  have hrcv : d.take nbpInputLen ≠ [] := by
    rw [Ne, List.take_eq_nil_iff]
    exact fun h ↦ h.elim (by decide) hnil
  unfold nbpInput
  dsimp only
  rw [if_neg hrcv]
  simp only [nbpData_getD hpos (by omega : 0 < nbpInputLen)]
  by_cases htype : d.getD 0 0 = nbpDdptype
  swap
  · rw [if_pos htype]
    have hno : isRequest d = true → requester d = iface.my := by
      intro hreq
      exact absurd (of_decide_eq_true hreq).1 htype
    exact iff_of_true (doneSound_silent (by omega) (not_asksFor hno))
      (datagramOk_of s (fun h ↦ absurd h htype)
        (fun h ↦ absurd (of_decide_eq_true h).1 htype) hno)
  rw [if_neg (not_not.mpr htype)]
  by_cases hlen : 2 ≤ d.length
  swap
  · -- the rest of the header is of an earlier datagram
    refine iff_of_false ?_ fun hok ↦ hlen (hok.whole.header htype)
    split
    · exact doneSound_reads (m := 2) (by omega) (Nat.le_refl _)
    split
    · exact doneSound_reads (m := 2) (by omega) (show 2 ≤ 7 by decide)
    · exact doneSound_reads (m := 2) (by omega)
        (Nat.le_trans (by decide) (answerRequest_readEnd iface _ _))
  simp only [nbpData_getD (by omega : 1 < d.length) (by omega : 1 < nbpInputLen)]
  by_cases hreq : isRequest d = true
  swap
  · have hop : ((d.getD 1 0).toNat / 16 ≠ nbpopLkup ∧ (d.getD 1 0).toNat / 16 ≠ nbpopBrrq) ∨
        (d.getD 1 0).toNat % 16 ≠ 1 := by
      simp only [isRequest, htype, decide_eq_true_eq, true_and] at hreq
      tauto
    rw [if_pos hop]
    have hno : isRequest d = true → requester d = iface.my := fun h ↦ absurd h hreq
    exact iff_of_true (doneSound_silent (by omega) (not_asksFor hno))
      (datagramOk_of s (fun _ ↦ hlen) (fun h ↦ absurd h hreq) hno)
  have hop : ¬(((d.getD 1 0).toNat / 16 ≠ nbpopLkup ∧ (d.getD 1 0).toNat / 16 ≠ nbpopBrrq) ∨
      (d.getD 1 0).toNat % 16 ≠ 1) := by
    simp only [isRequest, htype, decide_eq_true_eq, true_and] at hreq
    tauto
  rw [if_neg hop]
  by_cases hseven : 7 ≤ d.length
  swap
  · -- the sender is of an earlier datagram
    refine iff_of_false ?_ fun hok ↦ hseven (hok.whole.sender hreq)
    split
    · exact doneSound_reads (m := 7) (by omega) (Nat.le_refl _)
    · exact doneSound_reads (m := 7) (by omega)
        (Nat.le_trans (by decide) (answerRequest_readEnd iface _ _))
  simp only [nbpData_getD (by omega : 3 < d.length) (by omega : 3 < nbpInputLen),
    nbpData_getD (by omega : 4 < d.length) (by omega : 4 < nbpInputLen),
    nbpData_getD (by omega : 5 < d.length) (by omega : 5 < nbpInputLen)]
  have hsender : (d.getD 3 0 = iface.my.net₀ ∧ d.getD 4 0 = iface.my.net₁ ∧
      d.getD 5 0 = iface.my.node) ↔ requester d = iface.my := by
    unfold requester
    cases iface.my
    simp
  by_cases hmy : requester d = iface.my
  · rw [if_pos (hsender.mpr hmy)]
    exact iff_of_true (doneSound_silent (by omega) (not_asksFor fun _ ↦ hmy))
      (datagramOk_of s (fun _ ↦ hlen) (fun _ ↦ hseven) fun _ ↦ hmy)
  · rw [if_neg fun h ↦ hmy (hsender.mp h)]
    exact doneSound_request_iff s hreq hmy hseven

/-- Lookups are answered by name and parsed in bounds for as long as the datagrams are these. -/
theorem nbp_sound_iff (iface : NbpIface) (v : NbpVars) (ds : List (List UInt8)) :
    (nbpMachine iface v).Along (DatagramOk iface) (nbpMachine iface v).init ds ↔
      ∀ n s, (nbpMachine iface v).run (ds.take n) = some s → NbpSound iface s := by
  apply @Machine.along_iff _ _ (nbpMachine iface v) (DatagramOk iface) (NbpSound iface)
    (NbpSound iface)
  · exact fun _ h ↦ h
  · intro s d t _ hok hstep
    cases hstep
    intro d' done h
    cases h
    exact (doneSound_iff iface s d).mpr hok
  · intro s d _ hbad
    refine ⟨_, rfl, fun hsound ↦ hbad ?_⟩
    exact (doneSound_iff iface s d).mp (hsound d _ rfl)
  · intro d done h
    cases h

/-- A box without a router whose port is the laser writer `P`. -/
def smallIface : NbpIface where
  my := ⟨0, 1, 2⟩
  zonename := [nbpStar]
  ports := [⟨[0x50], [0x4C], [], 129, false, by decide, by decide⟩]
  zonename_text := by decide
  ports_length := rfl

/-- A lookup of `P` in a zone. -/
def lookupIn (zone : List UInt8) : List UInt8 :=
  [2, 0x21, 7, 0, 1, 9, 254, 0, 1, 0x50, 1, 0x4C, UInt8.ofNat zone.length] ++ zone

/-- A lookup with an empty zone is not answered once the zone `Z` was asked for. -/
theorem empty_zone_forgotten :
    ¬∀ n s, (nbpMachine smallIface ⟨[], [], [], []⟩).run
      ([lookupIn [0x5A], lookupIn []].take n) = some s → NbpSound smallIface s := by
  intro h
  have hok := (doneSound_iff smallIface
    ⟨(nbpInput smallIface ⟨[], [], [], []⟩ (lookupIn [0x5A])).1, none⟩ (lookupIn [])).mp
    (h 2 _ rfl _ _ rfl)
  have hzone := hok.zone (by decide) (by decide) ⟨[0x50], [0x4C], []⟩ (by decide) _
    List.mem_cons_self
    (.inr (.inr (.inl ⟨by decide, rfl⟩))) (.inr (.inr (.inl ⟨by decide, rfl⟩)))
  exact absurd (hzone.1 rfl) (by decide)

end PrintServer.Atalk
