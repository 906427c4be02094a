import PrintServer.Atalk.Aarp

/-!
# The search for a node address

`aarp_probe` (aarp.c) tries the nodes of one network after another with ten probes each, while
`aarp_input` notes an answer in the status of the interface.  `zip_getnetinfo` (zip.c) takes the
range of the networks and the zone from the reply of a router.
-/

namespace PrintServer.Aarp

open Lib

def nodePerNet : Nat := 253
def zonenameSize : Nat := 33
def recvpktSize : Nat := 80
def zipDdptype : UInt8 := 6
def zipopGnireply : UInt8 := 6
def zipgniInvalid : UInt8 := 0x80

/-! ## The reply of a router -/

/-- What `zip_getnetinfo` does with a reply: whether it accepts it, the number of octets that it
reads, and the number that it writes to `zonename`, with the NUL. -/
structure ZipDone where
  accepted : Bool
  readEnd : Nat
  zoneEnd : Nat

/-- The reply in `recvpkt`, which goes on with what was there before. -/
def gnireply (recvpkt : List UInt8) : ZipDone :=
  let pkt (i : Nat) := recvpkt.getD i 0
  let len (i : Nat) := (pkt i).toNat
  let invalid := pkt 2 &&& zipgniInvalid ≠ 0
  -- behind the zone and behind the multicast address
  let multicast := 7 + len 7 + 1
  let zone := multicast + len multicast + 1
  if invalid then
    if len zone = 0 then ⟨false, zone + 1, 0⟩ else ⟨true, zone + len zone + 1, len zone + 1⟩
  else if len 7 = 0 then ⟨false, 8, 0⟩
  else ⟨true, multicast + 1, len 7 + 1⟩

/-- What is left in `recvpkt` after a receive. -/
def received (old datagram : List UInt8) : List UInt8 :=
  datagram.take recvpktSize ++ old.drop (datagram.take recvpktSize).length

/-- The loop over the receives, of which there are three: the first reply, in `recvpkt`, with its
size. -/
def awaitGnireply (old : List UInt8) : List (List UInt8) → Option (List UInt8 × Nat)
  | [] => none
  | d :: ds =>
      let recvpkt := received old d
      let recvsize := (d.take recvpktSize).length
      if 8 < recvsize ∧ recvpkt.getD 0 0 = zipDdptype ∧ recvpkt.getD 1 0 = zipopGnireply then
        some (recvpkt, recvsize)
      else awaitGnireply recvpkt ds

def zipGetnetinfo (old : List UInt8) (ds : List (List UInt8)) : Option (ZipDone × Nat) :=
  (awaitGnireply old (ds.take 3)).map fun r ↦ (gnireply r.1, r.2)

/-- An accepted reply is read where it was received, and its zone fits. -/
def ZipSound (old : List UInt8) (ds : List (List UInt8)) : Prop :=
  ∀ done recvsize, zipGetnetinfo old ds = some (done, recvsize) → done.accepted →
    done.readEnd ≤ recvsize ∧ done.zoneEnd ≤ zonenameSize

/-! ## The probes -/

structure NetRange where
  first : UInt16
  last : UInt16
  pos : 0 < first
  le : first ≤ last
  max : last ≤ 0xFFFE

/-- The results of `urandom`: for the first network, and for each swap in each network. -/
structure Urandom where
  net : Nat
  item : Nat → Nat → Nat

/-- `aarp_set_rand_node` in the `i`th network. -/
def aarpSetRandNode (r : Urandom) (i : Nat) : List UInt8 :=
  (List.range nodePerNet).foldl (fun node j ↦
    let item := (UInt8.ofNat (r.item i j)).toNat % 252
    let temp := node.getD j 0
    (node.set j (node.getD item 0)).set item temp)
    ((List.range nodePerNet).map fun j ↦ UInt8.ofNat (j + 1))

/-- `nnets`, as an `int16`. -/
def NetRange.nnets (g : NetRange) : Int16 :=
  Int16.ofInt ((g.last.toNat : Int) - g.first.toNat + 1)

/-- The value of `net` in the `i`th round. -/
def NetRange.net (g : NetRange) (r : Urandom) : Nat → UInt16
  | 0 => UInt16.ofNat (g.first.toNat + r.net % 255)
  | i + 1 => UInt16.ofInt
      (g.first.toNat + Int.tmod ((g.net r i).toNat - g.first.toNat + 1) g.nnets.toInt)

/-- Where the thread is in `aarp_probe`. -/
inductive ProbePc
  | netTest
  | setNet
  | nodeTest
  | setStatus
  | setNode
  | probe
  | wait
  | look
  | statusTest
  | nextNet
  | aarpOk
  | done
deriving DecidableEq

inductive ProbeEvent
  | probe (a : AtAddr)
  | packet (a : AtAddr)
deriving DecidableEq

/-- `recent` is what was sent and what came since `at_iface.my` was chosen, and `missed` tells that
a probe for it found no memory. -/
structure Probe where
  pc : ProbePc
  i : Nat
  j : Nat
  k : Nat
  node : List UInt8
  my : AtAddr
  status : AtStatus
  sem : Nat
  recent : List ProbeEvent
  missed : Bool

/-- A statement of the thread, with the memory for a probe, or an AARP packet of another node, with
its source address. -/
inductive ProbeAct
  | thread (mem : Bool)
  | packet (spa : AtAddr)

/-- The part of `aarp_input` that is about the own address. -/
def Probe.packet (s : Probe) (spa : AtAddr) : Probe :=
  let s := { s with recent := .packet spa :: s.recent }
  if spa = s.my ∧ s.status = .probing then { s with status := .reset, sem := s.sem + 1 } else s

/-- A statement of `aarp_probe`; a wait may end at any time. -/
def Probe.thread (g : NetRange) (r : Urandom) (mem : Bool) (s : Probe) : Probe :=
  match s.pc with
  | .netTest => { s with pc := if (s.i : Int) < g.nnets.toInt then .setNet else .aarpOk }
  | .setNet =>
      { s with
        my := { s.my with net := ntohs (g.net r s.i) }
        node := aarpSetRandNode r s.i
        j := 0
        pc := .nodeTest }
  | .nodeTest => { s with pc := if s.j < nodePerNet then .setStatus else .nextNet }
  | .setStatus => { s with status := .probing, pc := .setNode }
  | .setNode =>
      { s with
        my := { s.my with node := s.node.getD s.j 0 }
        k := 0
        recent := []
        missed := false
        pc := .probe }
  | .probe =>
      if s.k < 10 then
        if mem then { s with recent := .probe s.my :: s.recent, pc := .wait }
        else { s with missed := true, pc := .wait }
      else { s with pc := .statusTest }
  | .wait => { s with sem := s.sem - 1, pc := .look }
  | .look =>
      if s.status = .reset then { s with pc := .statusTest }
      else { s with k := s.k + 1, pc := .probe }
  | .statusTest =>
      if s.status = .probing then { s with pc := .aarpOk }
      else { s with j := s.j + 1, pc := .nodeTest }
  | .nextNet => { s with i := s.i + 1, pc := .netTest }
  | .aarpOk => { s with status := .stable, pc := .done }
  | .done => s

/-- `aarp_probe` from an old address and status on. -/
def probeMachine (g : NetRange) (r : Urandom) (my : AtAddr) (status : AtStatus) :
    Machine Probe ProbeAct where
  init := ⟨.netTest, 0, 0, 0, [], my, status, 0, [], false⟩
  step s a :=
    if s.pc = .done then none
    else match a with
      | .thread mem => some (s.thread g r mem)
      | .packet spa => some (s.packet spa)

/-! ## The property -/

/-- The address is in the range, all ten probes for it were sent, and none was answered. -/
structure Acquired (g : NetRange) (s : Probe) : Prop where
  net : g.first ≤ ntohs s.my.net ∧ ntohs s.my.net ≤ g.last
  node : 1 ≤ s.my.node ∧ s.my.node ≤ 253
  sent : s.recent.count (.probe s.my) = 10
  unanswered : .packet s.my ∉ s.recent

def AddressSound (g : NetRange) (s : Probe) : Prop :=
  s.pc = .done → s.status = .stable → Acquired g s

/-! ## When it holds -/

/-- The lengths in the reply: its zone fits and is inside of it. -/
def ReplyFits (recvpkt : List UInt8) (recvsize : Nat) : Prop :=
  let len (i : Nat) := (recvpkt.getD i 0).toNat
  let zone := 7 + len 7 + 1 + len (7 + len 7 + 1) + 1
  if recvpkt.getD 2 0 &&& zipgniInvalid ≠ 0 then
    len zone ≠ 0 → len zone ≤ 32 ∧ zone + len zone + 1 ≤ recvsize
  else len 7 ≠ 0 → len 7 ≤ 32 ∧ 7 + len 7 + 2 ≤ recvsize

/-- The network of the `i`th round is in the range: the random offset is, or one network was left
and the sum did not run over 16 bits, or else as many networks were left as it takes to come
back. -/
def NetRange.RoundOk (g : NetRange) (r : Urandom) (i : Nat) : Prop :=
  let n := g.last.toNat - g.first.toNat + 1
  if i = 0 then r.net % 255 < n
  else g.first.toNat + r.net % 255 < 65536 ∨ (65535 - r.net % 255) % n < i

/-- When the loops are left, there was a network, there was memory for each probe, the status is
still AT_PROBING, and the network of this round is in the range. -/
structure LeavesWell (g : NetRange) (r : Urandom) (s : Probe) : Prop where
  entered : 0 < g.nnets
  probing : s.status = .probing
  memory : s.missed = false
  round : g.RoundOk r s.i

def StepOk (g : NetRange) (r : Urandom) (s : Probe) : ProbeAct → Prop
  | .thread _ => s.pc = .aarpOk → LeavesWell g r s
  | .packet _ => True

variable {g : NetRange} {r : Urandom} {s t : Probe} {old : AtAddr} {status : AtStatus}

/-! ## Networks -/

theorem toNat_ntohs (n : UInt16) : (ntohs n).toNat = n.toNat % 256 * 256 + n.toNat / 256 := by
  have hlt : n.toNat < 65536 := n.toNat_lt
  have hhigh : n.toNat <<< 8 % 65536 = (n.toNat % 256) <<< 8 := by
    simp only [Nat.shiftLeft_eq]
    omega
  have hlow : n.toNat >>> 8 < 2 ^ 8 := by
    simp only [Nat.shiftRight_eq_div_pow]
    omega
  have hor := Nat.shiftLeft_add_eq_or_of_lt hlow (n.toNat % 256)
  unfold ntohs
  simp only [UInt16.toNat_or, UInt16.toNat_shiftLeft, UInt16.toNat_shiftRight]
  simp
  rw [hhigh, ← hor]
  simp only [Nat.shiftLeft_eq, Nat.shiftRight_eq_div_pow]

theorem ntohs_ntohs (n : UInt16) : ntohs (ntohs n) = n := by
  have hlt : n.toNat < 65536 := n.toNat_lt
  apply UInt16.toNat_inj.mp
  rw [toNat_ntohs, toNat_ntohs]
  omega

/-- The number of networks. -/
def NetRange.size (g : NetRange) : Nat := g.last.toNat - g.first.toNat + 1

theorem NetRange.bounds (g : NetRange) :
    0 < g.first.toNat ∧ g.first.toNat ≤ g.last.toNat ∧ g.last.toNat ≤ 65534 :=
  ⟨UInt16.lt_iff_toNat_lt.mp g.pos, UInt16.le_iff_toNat_le.mp g.le, UInt16.le_iff_toNat_le.mp g.max⟩

/-- `nnets` is the number of networks if that is positive in 16 bits. -/
theorem NetRange.nnets_pos (hpos : 0 < g.nnets) : g.nnets.toInt = g.size ∧ g.size ≤ 32767 := by
  have hb := g.bounds
  have hbmod : g.nnets.toInt = ((g.last.toNat : Int) - g.first.toNat + 1).bmod 65536 :=
    Int16.toInt_ofInt
  have hlt : 0 < g.nnets.toInt := Int16.lt_iff_toInt_lt.mp hpos
  rw [hbmod] at hlt ⊢
  unfold NetRange.size
  unfold Int.bmod at hlt ⊢
  dsimp only at hlt ⊢
  split at hlt <;> split <;> omega

/-- The offset of a network from the first. -/
def NetRange.offset (g : NetRange) (r : Urandom) (i : Nat) : Int :=
  (g.net r i).toNat - g.first.toNat

theorem offset_zero (g : NetRange) (r : Urandom) : g.offset r 0 =
    if g.first.toNat + r.net % 255 < 65536 then (r.net % 255 : Int) else r.net % 255 - 65536 := by
  have hb := g.bounds
  unfold NetRange.offset NetRange.net
  rw [UInt16.toNat_ofNat']
  split <;> omega

theorem offset_succ (hpos : 0 < g.nnets) {i : Nat}
    (hlow : -(g.first.toNat : Int) ≤ Int.tmod (g.offset r i + 1) g.size)
    (hhigh : Int.tmod (g.offset r i + 1) g.size < g.size) :
    g.offset r (i + 1) = Int.tmod (g.offset r i + 1) g.size := by
  have hb := g.bounds
  have hsize : (g.size : Int) = g.last.toNat - g.first.toNat + 1 := by
    unfold NetRange.size
    omega
  have hmod : (g.net r (i + 1)).toNat =
      ((g.first.toNat + Int.tmod (g.offset r i + 1) g.size) % 65536 : Int).toNat := by
    conv_lhs => unfold NetRange.net
    rw [(NetRange.nnets_pos hpos).1]
    unfold UInt16.ofInt
    rw [UInt16.toNat_ofNat']
    unfold NetRange.offset
    omega
  unfold NetRange.offset at hmod hlow hhigh ⊢
  rw [hmod]
  omega

theorem tmod_nonneg {a : Int} (ha : 0 ≤ a) (n : Nat) : Int.tmod a n = a % n :=
  Int.tmod_eq_emod_of_nonneg ha

/-- From an offset that is not negative on, the networks are in the range. -/
theorem offset_succ_nonneg (hpos : 0 < g.nnets) {i : Nat} (h : 0 ≤ g.offset r i) :
    0 ≤ g.offset r (i + 1) ∧ g.offset r (i + 1) < g.size := by
  have hsize : (0 : Int) < g.size := by
    unfold NetRange.size
    omega
  have hmod : Int.tmod (g.offset r i + 1) g.size = (g.offset r i + 1) % g.size :=
    tmod_nonneg (by omega) g.size
  have hlow := Int.emod_nonneg (g.offset r i + 1) (Int.ne_of_gt hsize)
  have hhigh := Int.emod_lt_of_pos (g.offset r i + 1) hsize
  rw [offset_succ hpos (by omega) (by omega), hmod]
  exact ⟨hlow, hhigh⟩

/-- Where the first sum ran over, the networks come back to the first one from below. -/
theorem offset_wrapped (hpos : 0 < g.nnets) (hwrap : 65536 ≤ g.first.toNat + r.net % 255)
    (i : Nat) :
    let m := (65535 - r.net % 255) % g.size
    (i ≤ m → g.offset r (i + 1) = i - m) ∧
      (m ≤ i → 0 ≤ g.offset r (i + 1) ∧ g.offset r (i + 1) < g.size) := by
  have hb := g.bounds
  have hsize : 0 < g.size := Nat.succ_pos _
  have hm := Nat.mod_lt (65535 - r.net % 255) hsize
  have hle : g.size ≤ g.first.toNat := by
    unfold NetRange.size
    omega
  dsimp only
  induction i with
  | zero =>
      have hstart : g.offset r 0 + 1 = -((65535 - r.net % 255 : Nat) : Int) := by
        rw [offset_zero, if_neg (by omega)]
        omega
      have hmod : Int.tmod (g.offset r 0 + 1) g.size =
          -(((65535 - r.net % 255) % g.size : Nat) : Int) := by
        rw [hstart, Int.neg_tmod, tmod_nonneg (Int.natCast_nonneg _), Int.natCast_emod]
      rw [offset_succ hpos (by omega) (by omega), hmod]
      exact ⟨fun _ ↦ by omega, fun _ ↦ by omega⟩
  | succ i ih =>
      obtain ⟨hbelow, hinside⟩ := ih
      constructor
      · intro hi
        have hprev := hbelow (by omega)
        have hneg : g.offset r (i + 1) + 1 =
            -(((65535 - r.net % 255) % g.size - (i + 1) : Nat) : Int) := by
          omega
        have hmod : Int.tmod (g.offset r (i + 1) + 1) g.size = g.offset r (i + 1) + 1 := by
          rw [hneg, Int.neg_tmod, tmod_nonneg (Int.natCast_nonneg _), ← Int.natCast_emod,
            Nat.mod_eq_of_lt (by omega)]
        rw [offset_succ hpos (by omega) (by omega), hmod]
        omega
      · intro hi
        by_cases hlast : (65535 - r.net % 255) % g.size ≤ i
        · exact offset_succ_nonneg hpos (hinside hlast).1
        · -- the step from the network below the first one
          have hprev := hbelow (by omega)
          have hone : g.offset r (i + 1) + 1 = 0 := by omega
          rw [offset_succ hpos (by rw [hone]; simp) (by rw [hone]; simp; omega), hone]
          simp
          omega

/-- Which rounds are about a network of the range. -/
theorem round_ok_iff (hpos : 0 < g.nnets) (i : Nat) :
    (g.first ≤ g.net r i ∧ g.net r i ≤ g.last) ↔ g.RoundOk r i := by
  have hb := g.bounds
  have hoff : (g.first ≤ g.net r i ∧ g.net r i ≤ g.last) ↔
      0 ≤ g.offset r i ∧ g.offset r i < g.size := by
    rw [UInt16.le_iff_toNat_le, UInt16.le_iff_toNat_le]
    unfold NetRange.offset NetRange.size
    omega
  have hsize : g.last.toNat - g.first.toNat + 1 = g.size := rfl
  rw [hoff]
  unfold NetRange.RoundOk
  dsimp only
  rw [hsize]
  cases i with
  | zero =>
      rw [if_pos rfl, offset_zero]
      split
      · omega
      · unfold NetRange.size
        omega
  | succ i =>
      rw [if_neg (Nat.succ_ne_zero i)]
      by_cases hwrap : g.first.toNat + r.net % 255 < 65536
      · have hnonneg : ∀ k, 0 ≤ g.offset r k := by
          intro k
          induction k with
          | zero =>
              rw [offset_zero, if_pos hwrap]
              omega
          | succ k ih => exact (offset_succ_nonneg hpos ih).1
        exact iff_of_true (offset_succ_nonneg hpos (hnonneg i)) (.inl hwrap)
      · obtain ⟨hbelow, hinside⟩ := offset_wrapped (r := r) hpos (by omega) i
        constructor
        · intro hin
          right
          by_contra hlate
          have heq := hbelow (by omega)
          omega
        · rintro (h | h)
          · exact absurd h hwrap
          · exact hinside (by omega)

/-! ## Nodes -/

def NodesOk (node : List UInt8) : Prop :=
  node.length = nodePerNet ∧ ∀ x ∈ node, 1 ≤ x ∧ x ≤ 253

instance (node : List UInt8) : Decidable (NodesOk node) := inferInstanceAs (Decidable (_ ∧ _))

theorem NodesOk.getD {node : List UInt8} (h : NodesOk node) {j : Nat} (hj : j < nodePerNet) :
    1 ≤ node.getD j 0 ∧ node.getD j 0 ≤ 253 := by
  have hlt : j < node.length := by
    rw [h.1]
    exact hj
  rw [List.getD_eq_getElem?_getD, List.getElem?_eq_getElem hlt]
  exact h.2 _ (List.getElem_mem hlt)

theorem NodesOk.set {node : List UInt8} (h : NodesOk node) (j : Nat) {x : UInt8}
    (hx : 1 ≤ x ∧ x ≤ 253) : NodesOk (node.set j x) := by
  refine ⟨by rw [List.length_set, h.1], fun y hy ↦ ?_⟩
  rcases List.mem_or_eq_of_mem_set hy with hmem | rfl
  · exact h.2 y hmem
  · exact hx

/-- The swaps of `aarp_set_rand_node` keep the nodes from 1 to 253. -/
theorem nodesOk_rand (r : Urandom) (i : Nat) : NodesOk (aarpSetRandNode r i) := by
  have hgen : ∀ (js : List Nat) (node : List UInt8), (∀ j ∈ js, j < nodePerNet) → NodesOk node →
      NodesOk (js.foldl (fun node j ↦
        let item := (UInt8.ofNat (r.item i j)).toNat % 252
        let temp := node.getD j 0
        (node.set j (node.getD item 0)).set item temp) node) := by
    intro js
    induction js with
    | nil => exact fun _ _ h ↦ h
    | cons j js ih =>
        intro node hjs h
        obtain ⟨hj, hrest⟩ := List.forall_mem_cons.mp hjs
        have hitem : (UInt8.ofNat (r.item i j)).toNat % 252 < nodePerNet :=
          Nat.lt_trans (Nat.mod_lt _ (by decide)) (by decide)
        exact ih _ hrest ((h.set j (h.getD hitem)).set _ (h.getD hj))
  exact hgen _ _ (fun _ h ↦ List.mem_range.mp h) (by decide +kernel)

/-! ## The invariant -/

/-- The address does not qualify any more. -/
def Failed (s : Probe) : Prop :=
  .packet s.my ∈ s.recent ∨ s.recent.count (.probe s.my) ≠ 10

/-- The thread is inside of a network. -/
structure InNet (g : NetRange) (r : Urandom) (s : Probe) : Prop where
  net : s.my.net = ntohs (g.net r s.i)
  round : (s.i : Int) < g.nnets.toInt
  nodes : NodesOk s.node

/-- After `n` probes. -/
structure Tried (g : NetRange) (r : Urandom) (n : Nat) (s : Probe) : Prop where
  inNet : InNet g r s
  node : 1 ≤ s.my.node ∧ s.my.node ≤ 253
  active : s.status = .probing ∨ s.status = .reset
  count : s.missed = false → s.recent.count (.probe s.my) = n
  fewer : s.missed = true → s.recent.count (.probe s.my) < n
  quiet : s.status = .probing → .packet s.my ∉ s.recent
  answered : s.status ≠ .probing → .packet s.my ∈ s.recent ∨ s.k = 0
  rounds : n ≤ s.k + 1

/-- Behind the probes for an address. -/
structure Settled (g : NetRange) (r : Urandom) (s : Probe) : Prop where
  tried : s.status = .probing → Tried g r 10 s
  failed : s.status ≠ .probing → Failed s

def ProbeInv (g : NetRange) (r : Urandom) (s : Probe) : Prop :=
  match s.pc with
  | .netTest => Failed s ∧ (s.i = 0 ∨ s.status ≠ .probing)
  | .setNet => (s.i : Int) < g.nnets.toInt
  | .nodeTest => InNet g r s ∧ (s.j = 0 ∨ Failed s ∧ s.status ≠ .probing)
  | .setStatus => InNet g r s ∧ s.j < nodePerNet
  | .setNode => InNet g r s ∧ s.j < nodePerNet ∧ (s.status = .probing ∨ s.status = .reset)
  | .probe => Tried g r s.k s ∧ s.k ≤ 10
  | .wait => Tried g r (s.k + 1) s ∧ s.k < 10
  | .look => Tried g r (s.k + 1) s ∧ s.k < 10
  | .statusTest => InNet g r s ∧ Settled g r s
  | .nextNet => Failed s ∧ s.status ≠ .probing
  | .aarpOk => Settled g r s ∨ (¬0 < g.nnets ∧ Failed s)
  | .done => AddressSound g s

/-! ### Packets -/

theorem packet_my (s : Probe) (a : AtAddr) : (s.packet a).my = s.my := by
  unfold Probe.packet
  dsimp only
  split <;> rfl

theorem packet_pc (s : Probe) (a : AtAddr) : (s.packet a).pc = s.pc ∧ (s.packet a).i = s.i ∧
    (s.packet a).j = s.j ∧ (s.packet a).k = s.k ∧ (s.packet a).node = s.node ∧
    (s.packet a).missed = s.missed := by
  unfold Probe.packet
  dsimp only
  split <;> exact ⟨rfl, rfl, rfl, rfl, rfl, rfl⟩

theorem packet_recent (s : Probe) (a : AtAddr) : (s.packet a).recent = .packet a :: s.recent := by
  unfold Probe.packet
  dsimp only
  split <;> rfl

/-- The status stays, or an answer has come. -/
theorem packet_status (s : Probe) (a : AtAddr) :
    ((s.packet a).status = s.status ∧ (s.status = .probing → a ≠ s.my)) ∨
      ((s.packet a).status = .reset ∧ a = s.my) := by
  unfold Probe.packet
  dsimp only
  split
  · rename_i h
    exact .inr ⟨rfl, h.1⟩
  · rename_i h
    exact .inl ⟨rfl, fun hstatus hmy ↦ h ⟨hmy, hstatus⟩⟩

theorem count_packet (s : Probe) (a b : AtAddr) :
    (s.packet a).recent.count (.probe b) = s.recent.count (.probe b) := by
  rw [packet_recent, List.count_cons_of_ne]
  exact fun h ↦ by cases h

theorem Failed.packet (h : Failed s) (a : AtAddr) : Failed (s.packet a) := by
  unfold Failed
  rw [packet_my, count_packet, packet_recent]
  exact h.imp_left (List.mem_cons_of_mem _)

theorem status_ne_packet (h : s.status ≠ .probing) (a : AtAddr) :
    (s.packet a).status ≠ .probing := by
  rcases packet_status s a with ⟨heq, -⟩ | ⟨heq, -⟩
  · rw [heq]
    exact h
  · rw [heq]
    decide

theorem InNet.packet (h : InNet g r s) (a : AtAddr) : InNet g r (s.packet a) := by
  obtain ⟨-, hi, -, -, hnode, -⟩ := packet_pc s a
  refine ⟨?_, ?_, ?_⟩
  · rw [packet_my, hi]
    exact h.net
  · rw [hi]
    exact h.round
  · rw [hnode]
    exact h.nodes

theorem active_packet (h : s.status = .probing ∨ s.status = .reset) (a : AtAddr) :
    (s.packet a).status = .probing ∨ (s.packet a).status = .reset := by
  rcases packet_status s a with ⟨heq, -⟩ | ⟨heq, -⟩
  · rw [heq]
    exact h
  · exact .inr heq

theorem Tried.packet {n : Nat} (h : Tried g r n s) (a : AtAddr) : Tried g r n (s.packet a) := by
  obtain ⟨-, -, -, hk, -, hmissed⟩ := packet_pc s a
  refine ⟨h.inNet.packet a, ?_, active_packet h.active a, ?_, ?_, ?_, ?_, ?_⟩
  · rw [packet_my]
    exact h.node
  · rw [hmissed, packet_my, count_packet]
    exact h.count
  · rw [hmissed, packet_my, count_packet]
    exact h.fewer
  · intro hstatus
    rw [packet_my, packet_recent]
    rcases packet_status s a with ⟨heq, hne⟩ | ⟨heq, -⟩
    · rw [heq] at hstatus
      intro hmem
      rcases List.mem_cons.mp hmem with hev | hmem
      · exact hne hstatus (ProbeEvent.packet.inj hev).symm
      · exact h.quiet hstatus hmem
    · rw [heq] at hstatus
      cases hstatus
  · intro hstatus
    rw [packet_my, packet_recent, hk]
    rcases packet_status s a with ⟨heq, -⟩ | ⟨-, rfl⟩
    · rw [heq] at hstatus
      exact (h.answered hstatus).imp_left (List.mem_cons_of_mem _)
    · exact .inl List.mem_cons_self
  · rw [hk]
    exact h.rounds

theorem Settled.packet (h : Settled g r s) (a : AtAddr) : Settled g r (s.packet a) where
  tried := by
    intro hstatus
    have hbefore : s.status = .probing := by
      by_contra hne
      exact status_ne_packet hne a hstatus
    exact (h.tried hbefore).packet a
  failed := by
    intro hstatus
    by_cases hbefore : s.status = .probing
    · rcases packet_status s a with ⟨heq, -⟩ | ⟨-, rfl⟩
      · rw [heq] at hstatus
        exact absurd hbefore hstatus
      · left
        rw [packet_my, packet_recent]
        exact List.mem_cons_self
    · exact (h.failed hbefore).packet a

theorem ProbeInv.packet (h : ProbeInv g r s) (a : AtAddr) (hpc : s.pc ≠ .done) :
    ProbeInv g r (s.packet a) := by
  obtain ⟨hpc', hi, hj, hk, -, -⟩ := packet_pc s a
  unfold ProbeInv at h ⊢
  rw [hpc', hi, hj, hk]
  cases hs : s.pc <;> simp only [hs] at h ⊢
  case netTest => exact ⟨h.1.packet a, h.2.imp_right fun h ↦ status_ne_packet h a⟩
  case setNet => exact h
  case nodeTest =>
    exact ⟨h.1.packet a, h.2.imp_right fun h ↦ ⟨h.1.packet a, status_ne_packet h.2 a⟩⟩
  case setStatus => exact ⟨h.1.packet a, h.2⟩
  case setNode => exact ⟨h.1.packet a, h.2.1, active_packet h.2.2 a⟩
  case probe => exact ⟨h.1.packet a, h.2⟩
  case wait => exact ⟨h.1.packet a, h.2⟩
  case look => exact ⟨h.1.packet a, h.2⟩
  case statusTest => exact ⟨h.1.packet a, h.2.packet a⟩
  case nextNet => exact ⟨h.1.packet a, status_ne_packet h.2 a⟩
  case aarpOk => exact h.imp (fun h ↦ h.packet a) fun h ↦ ⟨h.1, h.2.packet a⟩
  case done => exact absurd hs hpc

/-! ### Statements -/

/-- An address that was answered, or of which the first probe was cut short, does not qualify. -/
theorem Tried.failed {n : Nat} (h : Tried g r n s) (hstatus : s.status ≠ .probing) : Failed s := by
  rcases h.answered hstatus with hmem | hfirst
  · exact .inl hmem
  · right
    have hrounds := h.rounds
    cases hm : s.missed with
    | false =>
        rw [h.count hm]
        omega
    | true =>
        have hfewer := h.fewer hm
        omega

theorem Tried.settled (h : Tried g r 10 s) : Settled g r s :=
  ⟨fun _ ↦ h, fun hstatus ↦ h.failed hstatus⟩

/-- A probe is sent. -/
theorem Tried.send (h : Tried g r s.k s) :
    Tried g r (s.k + 1) { s with recent := .probe s.my :: s.recent, pc := .wait } where
  inNet := ⟨h.inNet.net, h.inNet.round, h.inNet.nodes⟩
  node := h.node
  active := h.active
  count := by
    intro hm
    show (ProbeEvent.probe s.my :: s.recent).count (.probe s.my) = s.k + 1
    rw [List.count_cons_self, h.count hm]
  fewer := by
    intro hm
    show (ProbeEvent.probe s.my :: s.recent).count (.probe s.my) < s.k + 1
    rw [List.count_cons_self]
    exact Nat.succ_lt_succ (h.fewer hm)
  quiet := by
    intro hstatus hmem
    rcases List.mem_cons.mp hmem with hev | hmem
    · cases hev
    · exact h.quiet hstatus hmem
  answered := fun hstatus ↦ (h.answered hstatus).imp_left (List.mem_cons_of_mem _)
  rounds := Nat.le_refl _

/-- A probe finds no memory. -/
theorem Tried.miss (h : Tried g r s.k s) :
    Tried g r (s.k + 1) { s with missed := true, pc := .wait } where
  inNet := ⟨h.inNet.net, h.inNet.round, h.inNet.nodes⟩
  node := h.node
  active := h.active
  count := by
    intro hm
    cases hm
  fewer := by
    intro _
    show s.recent.count (.probe s.my) < s.k + 1
    cases hm : s.missed with
    | false => exact Nat.lt_succ_of_le (Nat.le_of_eq (h.count hm))
    | true => exact Nat.lt_succ_of_lt (h.fewer hm)
  quiet := h.quiet
  answered := h.answered
  rounds := Nat.le_refl _

/-- Another statement that changes neither the address nor what was sent. -/
theorem Tried.congr {n : Nat} (h : Tried g r n s) (hmy : t.my = s.my) (hi : t.i = s.i)
    (hnode : t.node = s.node) (hstatus : t.status = s.status) (hrecent : t.recent = s.recent)
    (hmissed : t.missed = s.missed) (hk : t.k = s.k) : Tried g r n t := by
  refine ⟨⟨?_, ?_, ?_⟩, ?_, ?_, ?_, ?_, ?_, ?_, ?_⟩
  · rw [hmy, hi]
    exact h.inNet.net
  · rw [hi]
    exact h.inNet.round
  · rw [hnode]
    exact h.inNet.nodes
  · rw [hmy]
    exact h.node
  · rw [hstatus]
    exact h.active
  · rw [hmissed, hrecent, hmy]
    exact h.count
  · rw [hmissed, hrecent, hmy]
    exact h.fewer
  · rw [hstatus, hrecent, hmy]
    exact h.quiet
  · rw [hstatus, hrecent, hmy, hk]
    exact h.answered
  · rw [hk]
    exact h.rounds

/-- The thread looks at the status, finds no answer and goes on. -/
theorem Tried.next (h : Tried g r (s.k + 1) s) (hstatus : s.status ≠ .reset) :
    Tried g r (s.k + 1) { s with k := s.k + 1, pc := .probe } where
  inNet := ⟨h.inNet.net, h.inNet.round, h.inNet.nodes⟩
  node := h.node
  active := h.active
  count := h.count
  fewer := h.fewer
  quiet := h.quiet
  answered := fun hne ↦ absurd (h.active.resolve_right hstatus) hne
  rounds := Nat.le_succ _

/-- The first address behind `setNode`. -/
theorem InNet.choose (h : InNet g r s) (hj : s.j < nodePerNet)
    (hactive : s.status = .probing ∨ s.status = .reset) :
    Tried g r 0 { s with
      my := { s.my with node := s.node.getD s.j 0 }, k := 0, recent := [], missed := false
      pc := .probe } where
  inNet := ⟨h.net, h.round, h.nodes⟩
  node := h.nodes.getD hj
  active := hactive
  count := fun _ ↦ rfl
  fewer := by
    intro hm
    cases hm
  quiet := fun _ hmem ↦ by cases hmem
  answered := fun _ ↦ .inr rfl
  rounds := Nat.zero_le _

/-- Which addresses leave the loops well. -/
theorem acquired_iff (h : Settled g r s ∨ (¬0 < g.nnets ∧ Failed s)) :
    Acquired g { s with status := .stable, pc := .done } ↔ LeavesWell g r s := by
  have hfailed : Failed s → ¬Acquired g { s with status := .stable, pc := .done } := by
    rintro (hmem | hcount) hacq
    · exact hacq.unanswered hmem
    · exact hcount hacq.sent
  rcases h with hsettled | ⟨hnone, hf⟩
  · by_cases hstatus : s.status = .probing
    · have htried := hsettled.tried hstatus
      have hpos : 0 < g.nnets := by
        rw [Int16.lt_iff_toInt_lt]
        exact Int.lt_of_le_of_lt (Int.natCast_nonneg _) htried.inNet.round
      have hnet : (g.first ≤ ntohs s.my.net ∧ ntohs s.my.net ≤ g.last) ↔ g.RoundOk r s.i := by
        rw [htried.inNet.net, ntohs_ntohs]
        exact round_ok_iff hpos s.i
      constructor
      · intro hacq
        refine ⟨hpos, hstatus, ?_, hnet.mp hacq.net⟩
        cases hm : s.missed with
        | false => rfl
        | true =>
            have hfewer := htried.fewer hm
            have hsent : s.recent.count (.probe s.my) = 10 := hacq.sent
            omega
      · intro hwell
        exact ⟨hnet.mpr hwell.round, htried.node, htried.count hwell.memory, htried.quiet hstatus⟩
    · exact iff_of_false (hfailed (hsettled.failed hstatus)) fun hwell ↦ hstatus hwell.probing
  · exact iff_of_false (hfailed hf) fun hwell ↦ hnone hwell.entered

/-- The thread keeps the invariant as long as it leaves the loops well. -/
theorem ProbeInv.thread (h : ProbeInv g r s) (mem : Bool)
    (hok : s.pc = .aarpOk → LeavesWell g r s) : ProbeInv g r (s.thread g r mem) := by
  unfold Probe.thread
  unfold ProbeInv at h
  cases hs : s.pc <;> simp only [hs] at h hok ⊢
  case netTest =>
    obtain ⟨hfailed, hfirst⟩ := h
    by_cases hi : (s.i : Int) < g.nnets.toInt
    · rw [if_pos hi]
      exact hi
    · rw [if_neg hi]
      show Settled g r { s with pc := .aarpOk } ∨ (¬0 < g.nnets ∧ Failed s)
      rcases hfirst with hzero | hstatus
      · refine .inr ⟨fun hpos ↦ hi ?_, hfailed⟩
        rw [hzero]
        exact Int16.lt_iff_toInt_lt.mp hpos
      · exact .inl ⟨fun hp ↦ absurd hp hstatus, fun _ ↦ hfailed⟩
  case setNet =>
    have hnodes := nodesOk_rand r s.i
    generalize aarpSetRandNode r s.i = node at hnodes ⊢
    exact ⟨⟨rfl, h, hnodes⟩, .inl rfl⟩
  case nodeTest =>
    obtain ⟨hnet, hprev⟩ := h
    by_cases hj : s.j < nodePerNet
    · rw [if_pos hj]
      exact ⟨⟨hnet.net, hnet.round, hnet.nodes⟩, hj⟩
    · rw [if_neg hj]
      rcases hprev with hzero | hfail
      · rw [hzero] at hj
        exact absurd (by decide) hj
      · exact hfail
  case setStatus => exact ⟨⟨h.1.net, h.1.round, h.1.nodes⟩, h.2, .inl rfl⟩
  case setNode => exact ⟨h.1.choose h.2.1 h.2.2, Nat.zero_le _⟩
  case probe =>
    obtain ⟨htried, hk⟩ := h
    by_cases hlt : s.k < 10
    · rw [if_pos hlt]
      cases mem with
      | true => exact ⟨htried.send, hlt⟩
      | false => exact ⟨htried.miss, hlt⟩
    · rw [if_neg hlt]
      have hten : s.k = 10 := by omega
      rw [hten] at htried
      have hafter : Tried g r 10 { s with pc := .statusTest } :=
        htried.congr rfl rfl rfl rfl rfl rfl rfl
      exact ⟨hafter.inNet, hafter.settled⟩
  case wait => exact ⟨h.1.congr rfl rfl rfl rfl rfl rfl rfl, h.2⟩
  case look =>
    obtain ⟨htried, hk⟩ := h
    by_cases hreset : s.status = .reset
    · rw [if_pos hreset]
      have hne : s.status ≠ .probing := by
        rw [hreset]
        decide
      exact ⟨⟨htried.inNet.net, htried.inNet.round, htried.inNet.nodes⟩,
        fun hp ↦ absurd hp hne, fun _ ↦ htried.failed hne⟩
    · rw [if_neg hreset]
      exact ⟨htried.next hreset, hk⟩
  case statusTest =>
    obtain ⟨hnet, hsettled⟩ := h
    by_cases hstatus : s.status = .probing
    · rw [if_pos hstatus]
      have hafter : Tried g r 10 { s with pc := .aarpOk } :=
        (hsettled.tried hstatus).congr rfl rfl rfl rfl rfl rfl rfl
      exact .inl hafter.settled
    · rw [if_neg hstatus]
      exact ⟨⟨hnet.net, hnet.round, hnet.nodes⟩, .inr ⟨hsettled.failed hstatus, hstatus⟩⟩
  case nextNet => exact ⟨h.1, .inr h.2⟩
  case aarpOk => exact fun _ _ ↦ (acquired_iff h).mpr (hok trivial)
  case done =>
    rw [ProbeInv, hs]
    exact h

/-! ## Address acquisition -/

theorem zip_sound_iff (old : List UInt8) (ds : List (List UInt8)) :
    ZipSound old ds ↔ ∀ recvpkt recvsize, awaitGnireply old (ds.take 3) = some (recvpkt, recvsize) →
      ReplyFits recvpkt recvsize := by
  have hreply (recvpkt : List UInt8) (recvsize : Nat) :
      ((gnireply recvpkt).accepted → (gnireply recvpkt).readEnd ≤ recvsize ∧
        (gnireply recvpkt).zoneEnd ≤ zonenameSize) ↔ ReplyFits recvpkt recvsize := by
    unfold gnireply ReplyFits zonenameSize
    dsimp only
    split
    · split <;> simp_all
      omega
    · split <;> simp_all
      omega
  unfold ZipSound zipGetnetinfo
  constructor
  · intro hsound recvpkt recvsize hawait
    apply (hreply recvpkt recvsize).mp
    exact hsound _ recvsize (by rw [hawait]; rfl)
  · intro hfits done recvsize hdone haccepted
    obtain ⟨⟨recvpkt, size⟩, hawait, heq⟩ := Option.map_eq_some_iff.mp hdone
    obtain ⟨rfl, rfl⟩ := Prod.mk.inj heq
    exact (hreply recvpkt size).mpr (hfits recvpkt size hawait) haccepted

theorem address_sound_iff (old : List UInt8) (ds : List (List UInt8)) (g : NetRange) (r : Urandom)
    (my : AtAddr) (status : AtStatus) (as : List ProbeAct) :
    (ZipSound old ds ↔ ∀ recvpkt recvsize,
      awaitGnireply old (ds.take 3) = some (recvpkt, recvsize) → ReplyFits recvpkt recvsize) ∧
    ((probeMachine g r my status).Along (StepOk g r) (probeMachine g r my status).init as ↔
      ∀ n s, (probeMachine g r my status).run (as.take n) = some s → AddressSound g s) := by
  refine ⟨zip_sound_iff old ds, ?_⟩
  apply @Machine.along_iff _ _ (probeMachine g r my status) (StepOk g r) (ProbeInv g r)
    (AddressSound g)
  · intro s hinv hpc
    unfold ProbeInv at hinv
    rw [hpc] at hinv
    exact hinv hpc
  · intro s a t hinv hok hstep
    unfold probeMachine at hstep
    dsimp only at hstep
    split at hstep
    · cases hstep
    · rename_i hpc
      cases a with
      | thread mem =>
          cases hstep
          exact hinv.thread mem hok
      | packet spa =>
          cases hstep
          exact hinv.packet spa hpc
  · intro s a hinv hbad
    cases a with
    | packet spa => exact absurd trivial hbad
    | thread mem =>
        obtain ⟨hpc, hleaves⟩ : s.pc = .aarpOk ∧ ¬LeavesWell g r s := by
          simpa [StepOk] using hbad
        refine ⟨s.thread g r mem, ?_, ?_⟩
        · unfold probeMachine
          dsimp only
          rw [if_neg (by rw [hpc]; decide)]
        · have hdone : s.thread g r mem = { s with status := .stable, pc := .done } := by
            unfold Probe.thread
            rw [hpc]
          unfold ProbeInv at hinv
          rw [hpc] at hinv
          rw [hdone]
          exact fun hsound ↦ hleaves ((acquired_iff hinv).mp (hsound rfl rfl))
  · exact ⟨.inr (by simp [probeMachine]), .inl rfl⟩

/-- More than 32767 networks. -/
def wideRange : NetRange := ⟨1, 0xFFFE, by decide, by decide, by decide⟩

/-- No probe is sent for an address in a wide range. -/
theorem wide_range_unprobed :
    ¬∀ n s, (probeMachine wideRange ⟨0, fun _ _ ↦ 0⟩ ⟨0, 0⟩ .probing).run
      (([.thread true, .thread true] : List ProbeAct).take n) = some s →
        AddressSound wideRange s := by
  intro h
  have hacq := h 2 _ rfl rfl rfl
  exact absurd hacq.sent (by decide)

end PrintServer.Aarp
