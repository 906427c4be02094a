import PrintServer.Bridge.Table

/-!
# What the bridge learns
-/

namespace PrintServer.Bridge

open Lib Aarp

variable {b b' : Bdg} {e : HashTable} {f : Frame} {fs : List Frame} {ifp : Netif} {eh : Ether}
  {source a : HwAddr} {muted : Bool} {log : List (HwAddr × Netif)}

/-! ## Addresses -/

theorem toNat_zotGet16 (x y : UInt8) : (zotGet16 x y).toNat = x.toNat * 256 + y.toNat := by
  have hx := x.toNat_lt
  have hy := y.toNat_lt
  rw [zotGet16, UInt32.toNat_or, UInt32.toNat_shiftLeft, UInt8.toNat_toUInt32, UInt8.toNat_toUInt32]
  show x.toNat <<< 8 % 2 ^ 32 ||| y.toNat = _
  rw [Nat.mod_eq_of_lt (by rw [Nat.shiftLeft_eq]; omega), ← Nat.shiftLeft_add_eq_or_of_lt hy,
    Nat.shiftLeft_eq]

theorem toNat_zotGet32 (x y z w : UInt8) : (zotGet32 x y z w).toNat =
    (zotGet16 x y).toNat * 65536 + (zotGet16 z w).toNat := by
  have hx := x.toNat_lt
  have hy := y.toNat_lt
  have hz := z.toNat_lt
  have hw := w.toNat_lt
  have hlow : (zotGet16 z w).toNat < 2 ^ 16 := by
    rw [toNat_zotGet16]
    omega
  rw [zotGet32, UInt32.toNat_or, UInt32.toNat_shiftLeft]
  show (zotGet16 x y).toNat <<< 16 % 2 ^ 32 ||| _ = _
  rw [Nat.mod_eq_of_lt (by rw [Nat.shiftLeft_eq, toNat_zotGet16]; omega),
    ← Nat.shiftLeft_add_eq_or_of_lt hlow, Nat.shiftLeft_eq]

theorem zotGet16_inj {x y z w : UInt8} : zotGet16 x y = zotGet16 z w ↔ x = z ∧ y = w := by
  have hy := y.toNat_lt
  have hw := w.toNat_lt
  rw [← UInt32.toNat_inj, toNat_zotGet16, toNat_zotGet16, ← UInt8.toNat_inj, ← UInt8.toNat_inj]
  omega

theorem zotGet32_inj {x y z w x' y' z' w' : UInt8} :
    zotGet32 x y z w = zotGet32 x' y' z' w' ↔ (x = x' ∧ y = y') ∧ z = z' ∧ w = w' := by
  have hlow : ∀ u v : UInt8, (zotGet16 u v).toNat < 65536 := by
    intro u v
    have hu := u.toNat_lt
    have hv := v.toNat_lt
    rw [toNat_zotGet16]
    omega
  have h₁ := hlow z w
  have h₂ := hlow z' w'
  rw [← zotGet16_inj, ← zotGet16_inj, ← UInt32.toNat_inj, ← UInt32.toNat_inj, ← UInt32.toNat_inj,
    toNat_zotGet32, toNat_zotGet32]
  omega

theorem bdgMatch_iff {a b : HwAddr} : bdgMatch a b = true ↔ a = b := by
  unfold bdgMatch
  rw [decide_eq_true_iff, zotGet16_inj, zotGet32_inj]
  constructor
  · rintro ⟨⟨h4, h5⟩, ⟨h0, h1⟩, h2, h3⟩
    apply Vector.ext
    intro i hi
    have hget (v : HwAddr) : v.getD i 0 = v[i] := by simp [Vector.getD, hi]
    have hcase : i = 0 ∨ i = 1 ∨ i = 2 ∨ i = 3 ∨ i = 4 ∨ i = 5 := by omega
    rw [← hget, ← hget]
    rcases hcase with rfl | rfl | rfl | rfl | rfl | rfl <;> assumption
  · rintro rfl
    exact ⟨⟨rfl, rfl⟩, ⟨rfl, rfl⟩, rfl, rfl⟩

/-! ## One frame -/

/-- A frame records its source, or the slot holds it on another interface for up to
`BRIDGE_RELOCATION` frames in a row. -/
theorem learn_cases (e : HashTable) (muted : Bool) (ifp : Netif) (source : HwAddr) :
    ((learn e muted ifp source).1.name = some ifp ∧
        (learn e muted ifp source).1.etheraddr = source) ∨
      (e.name ≠ none ∧ e.name ≠ some ifp ∧ e.etheraddr = source ∧
        e.loops + 1 ≤ bridgeRelocation ∧
        learn e muted ifp source = ({ e with loops := e.loops + 1 }, none)) := by
  cases hname : e.name with
  | none =>
      left
      simp [learn, hname]
  | some old =>
      by_cases hmatch : bdgMatch source e.etheraddr
      · obtain rfl := bdgMatch_iff.mp hmatch
        by_cases hsame : old = ifp
        · left
          simp [learn, hname, hmatch, hsame]
        · by_cases hloops : e.loops + 1 ≤ bridgeRelocation
          · right
            simp [learn, hname, hmatch, hsame, hloops]
          · left
            simp [learn, hname, hmatch, hsame, hloops]
      · left
        simp [learn, hname, hmatch]

theorem bridgeIn_table (b : Bdg) (ifp : Netif) (eh : Ether) : (bridgeIn b ifp eh).2.bdgTable =
    Function.update b.bdgTable (hashFn eh.source)
      (learn (b.bdgTable (hashFn eh.source)) (b.muted ifp) ifp eh.source).1 := by
  unfold bridgeIn
  dsimp only
  split <;> rfl

theorem bridgeIn_self (b : Bdg) (ifp : Netif) (eh : Ether) :
    (bridgeIn b ifp eh).2.bdgTable (hashFn eh.source) =
      (learn (b.bdgTable (hashFn eh.source)) (b.muted ifp) ifp eh.source).1 := by
  rw [bridgeIn_table, Function.update_self]

theorem bridgeIn_of_ne {i : Nat} (hi : i ≠ hashFn eh.source) :
    (bridgeIn b ifp eh).2.bdgTable i = b.bdgTable i := by
  rw [bridgeIn_table, Function.update_of_ne hi]

theorem forward_ne (b : Bdg) (ifp : Netif) (eh : Ether) (dropit : Bool) :
    forward b ifp eh dropit ≠ .netif ifp := by
  unfold forward
  dsimp only
  split
  · split <;> nofun
  · split
    · nofun
    · assumption

theorem bridgeIn_ne (b : Bdg) (ifp : Netif) (eh : Ether) : (bridgeIn b ifp eh).1 ≠ .netif ifp := by
  unfold bridgeIn
  dsimp only
  split
  · nofun
  · exact forward_ne _ _ _ _

/-- A frame that does not record its source is dropped. -/
theorem bridgeIn_of_not_records (h : ¬ Records b f) : (bridgeIn b f.ifp f.eh).1 = .bdgDrop := by
  unfold Records at h
  rw [bridgeIn_self] at h
  rcases learn_cases (b.bdgTable (hashFn f.eh.source)) (b.muted f.ifp) f.ifp f.eh.source with
    hrec | ⟨-, -, -, -, hlearn⟩
  · exact absurd hrec h
  · unfold bridgeIn
    dsimp only
    rw [hlearn]

/-! ## The records -/

theorem LastRecorded.snoc (log : List (HwAddr × Netif)) (a : HwAddr) (ifp : Netif) :
    LastRecorded (log ++ [(a, ifp)]) a ifp :=
  ⟨log, [], rfl, fun _ hr ↦ absurd hr List.not_mem_nil⟩

theorem LastRecorded.append (h : LastRecorded log a ifp) {more : List (HwAddr × Netif)}
    (hmore : ∀ r ∈ more, r.1 ≠ a) : LastRecorded (log ++ more) a ifp := by
  obtain ⟨before, after, rfl, hafter⟩ := h
  refine ⟨before, after ++ more, by rw [List.append_assoc, List.cons_append], ?_⟩
  intro r hr
  rcases List.mem_append.mp hr with hr | hr
  · exact hafter r hr
  · exact hmore r hr

theorem LastRecorded.mem (h : LastRecorded log a ifp) : (a, ifp) ∈ log := by
  obtain ⟨before, after, rfl, -⟩ := h
  exact List.mem_append_right _ List.mem_cons_self

theorem mem_recorded {r : HwAddr × Netif} (h : r ∈ recorded b fs) :
    ∃ f ∈ fs, f.eh.source = r.1 ∧ f.ifp = r.2 := by
  induction fs generalizing b with
  | nil => cases h
  | cons f fs ih =>
      rcases List.mem_append.mp h with hr | hr
      · split at hr
        · obtain rfl := List.mem_singleton.mp hr
          exact ⟨f, List.mem_cons_self, rfl, rfl⟩
        · cases hr
      · obtain ⟨g, hg, hsource⟩ := ih hr
        exact ⟨g, List.mem_cons_of_mem _ hg, hsource⟩

/-- An entry is the last record of its address, in the slot of the address. -/
structure Inv (log : List (HwAddr × Netif)) (b : Bdg) : Prop where
  slot : ∀ i ifp, (b.bdgTable i).name = some ifp → hashFn (b.bdgTable i).etheraddr = i
  last : ∀ i ifp, (b.bdgTable i).name = some ifp →
    LastRecorded log (b.bdgTable i).etheraddr ifp

theorem inv_bdginit (netifList : List Netif) : Inv [] (bdginit netifList) := by
  constructor <;> nofun

theorem Inv.bridgeIn (h : Inv log b) (f : Frame) :
    Inv (log ++ if Records b f then [(f.eh.source, f.ifp)] else [])
      (bridgeIn b f.ifp f.eh).2 := by
  have hcases := learn_cases (b.bdgTable (hashFn f.eh.source)) (b.muted f.ifp) f.ifp f.eh.source
  rw [← bridgeIn_self] at hcases
  rcases hcases with hrec | ⟨-, hother, haddr, -, hlearn⟩
  · rw [if_pos (show Records b f from hrec)]
    constructor
    · intro i ifp hname
      by_cases hi : i = hashFn f.eh.source
      · rw [hi, hrec.2]
      · rw [bridgeIn_of_ne hi] at hname ⊢
        exact h.slot i ifp hname
    · intro i ifp hname
      by_cases hi : i = hashFn f.eh.source
      · rw [hi] at hname ⊢
        obtain rfl := Option.some.inj (hrec.1.symm.trans hname)
        rw [hrec.2]
        exact LastRecorded.snoc log _ _
      · rw [bridgeIn_of_ne hi] at hname ⊢
        apply (h.last i ifp hname).append
        intro r hr haddr
        obtain rfl := List.mem_singleton.mp hr
        exact hi ((h.slot i ifp hname).symm.trans (congrArg hashFn haddr.symm))
  · have hself := bridgeIn_self b f.ifp f.eh
    rw [hlearn] at hself
    have hnot : ¬ Records b f := by
      intro hrec
      unfold Records at hrec
      rw [hself] at hrec
      exact hother hrec.1
    rw [if_neg hnot, List.append_nil]
    have hkept : ∀ i, ((Bridge.bridgeIn b f.ifp f.eh).2.bdgTable i).name = (b.bdgTable i).name ∧
        ((Bridge.bridgeIn b f.ifp f.eh).2.bdgTable i).etheraddr = (b.bdgTable i).etheraddr := by
      intro i
      by_cases hi : i = hashFn f.eh.source
      · rw [hi, hself]
        exact ⟨rfl, rfl⟩
      · rw [bridgeIn_of_ne hi]
        exact ⟨rfl, rfl⟩
    constructor
    · intro i ifp hname
      rw [(hkept i).1] at hname
      rw [(hkept i).2]
      exact h.slot i ifp hname
    · intro i ifp hname
      rw [(hkept i).1] at hname
      rw [(hkept i).2]
      exact h.last i ifp hname

variable {netifList : List Netif}

theorem step_bridge : (bridge netifList).step b f = some (bridgeIn b f.ifp f.eh).2 := rfl

theorem Inv.runFrom (h : Inv log b) (hrun : (bridge netifList).runFrom b fs = some b') :
    Inv (log ++ recorded b fs) b' := by
  induction fs generalizing log b with
  | nil =>
      obtain rfl := Option.some.inj hrun
      rw [recorded, List.append_nil]
      exact h
  | cons f fs ih =>
      obtain ⟨b₁, hstep, hrest⟩ := Machine.runFrom_cons_some.mp hrun
      obtain rfl := Option.some.inj hstep
      rw [recorded, ← List.append_assoc]
      exact ih (h.bridgeIn f) hrest

theorem Inv.lookup (h : Inv log b) (hlook : bridgeDstLookup b eh = .netif ifp) :
    LastRecorded log eh.dest ifp := by
  unfold bridgeDstLookup at hlook
  dsimp only at hlook
  split at hlook
  · cases hlook
  split at hlook
  · cases hlook
  split at hlook
  · cases hlook
  cases hname : (b.bdgTable (hashFn eh.dest)).name with
  | none =>
      rw [hname] at hlook
      cases hlook
  | some dst =>
      rw [hname] at hlook
      dsimp only at hlook
      split at hlook
      · rename_i hmatch
        obtain rfl := Dst.netif.inj hlook
        rw [← bdgMatch_iff.mp hmatch]
        exact h.last _ _ hname
      · cases hlook

/-! ## Relocation -/

/-- After `n` frames without a record of `a`, the slot counts as many if it still holds `a`. -/
structure Waits (b : Bdg) (a : HwAddr) (n : Nat) : Prop where
  le : n ≤ bridgeRelocation.toNat
  counts : (b.bdgTable (hashFn a)).name ≠ none → (b.bdgTable (hashFn a)).etheraddr = a →
    n ≤ (b.bdgTable (hashFn a)).loops.toNat

theorem waits_zero (b : Bdg) (a : HwAddr) : Waits b a 0 :=
  ⟨Nat.zero_le _, fun _ _ ↦ Nat.zero_le _⟩

theorem Waits.other {n : Nat} (h : Waits b a n) (hne : f.eh.source ≠ a) :
    Waits (bridgeIn b f.ifp f.eh).2 a n := by
  refine ⟨h.le, ?_⟩
  by_cases hi : hashFn a = hashFn f.eh.source
  · rw [hi, bridgeIn_self]
    intro _ haddr
    -- the slot is taken by the other address, or has been held by it before
    rcases learn_cases (b.bdgTable (hashFn f.eh.source)) (b.muted f.ifp) f.ifp f.eh.source with
      ⟨-, hsource⟩ | ⟨-, -, hsource, -, hlearn⟩
    · exact absurd (hsource.symm.trans haddr) hne
    · rw [hlearn] at haddr
      exact absurd (hsource.symm.trans haddr) hne
  · rw [bridgeIn_of_ne hi]
    exact h.counts

theorem Waits.own {n : Nat} (h : Waits b f.eh.source n) (hfit : LoopsFit b f)
    (hrec : ¬ Records b f) : Waits (bridgeIn b f.ifp f.eh).2 f.eh.source (n + 1) := by
  unfold Records at hrec
  rw [bridgeIn_self] at hrec
  rcases learn_cases (b.bdgTable (hashFn f.eh.source)) (b.muted f.ifp) f.ifp f.eh.source with
    hdone | ⟨hname, hother, haddr, hle, hlearn⟩
  · exact absurd hdone hrec
  have hcount := h.counts hname haddr
  have hlt := hfit hname hother haddr
  have hloops : ((b.bdgTable (hashFn f.eh.source)).loops + 1).toNat =
      (b.bdgTable (hashFn f.eh.source)).loops.toNat + 1 := by
    rw [UInt16.toNat_add]
    exact Nat.mod_eq_of_lt (Nat.succ_lt_succ hlt)
  have hle' := UInt16.le_iff_toNat_le.mp hle
  refine ⟨by omega, fun _ _ ↦ ?_⟩
  rw [bridgeIn_self, hlearn]
  show n + 1 ≤ ((b.bdgTable (hashFn f.eh.source)).loops + 1).toNat
  omega

theorem Waits.run {n : Nat} (h : Waits b a n) (hok : (bridge netifList).Along LoopsFit b fs)
    (hunrec : ∀ r ∈ recorded b fs, r.1 ≠ a) :
    n + (fs.filter (·.eh.source = a)).length ≤ bridgeRelocation.toNat := by
  induction fs generalizing b n with
  | nil => exact h.le
  | cons f fs ih =>
      obtain ⟨hfit, hrest⟩ := Machine.along_cons hok step_bridge
      have hunrec' := fun r hr ↦ hunrec r (List.mem_append_right _ hr)
      by_cases hsource : f.eh.source = a
      · subst hsource
        have hrec : ¬ Records b f := by
          intro hrec
          refine hunrec (f.eh.source, f.ifp) (List.mem_append_left _ ?_) rfl
          rw [if_pos hrec]
          exact List.mem_singleton_self _
        rw [List.filter_cons_of_pos (by simp), List.length_cons]
        have hmore := ih (h.own hfit hrec) hrest hunrec'
        omega
      · rw [List.filter_cons_of_neg (by simpa using hsource)]
        exact ih (h.other hsource) hrest hunrec'

theorem learning_sound_of_loopsFit (hok : (bridge netifList).Along LoopsFit (bdginit netifList) fs)
    (hrun : (bridge netifList).run fs = some b) : LearningSound netifList fs b := by
  have hinv := (inv_bdginit netifList).runFrom hrun
  rw [List.nil_append] at hinv
  constructor
  · intro i ifp hname
    exact mem_recorded (hinv.last i ifp hname).mem
  · exact fun eh ifp hlook ↦ hinv.lookup hlook
  · exact bridgeIn_ne b
  · rintro before after b₀ rfl hbefore a ifp - hunrec
    have hafter := Machine.along_of_append hok hbefore
    have hle := (waits_zero b₀ a).run hafter hunrec
    rwa [Nat.zero_add] at hle

def lan : Netif := ⟨0, #v[0x00, 0x40, 0x01, 0, 0, 1]⟩

def wlan : Netif := ⟨1, #v[0x00, 0x40, 0x01, 0, 0, 1]⟩

/-- A frame of a station to the print server. -/
def stationFrame (ifp : Netif) : Frame := ⟨ifp, lan.hwaddr, #v[0x00, 0x11, 0x22, 0x33, 0x44, 0x55]⟩

/-- A station that moves is recorded with its fourth frame. -/
theorem learning_sound_station_moves : ∃ b,
    (bridge [lan]).run (stationFrame lan :: List.replicate 4 (stationFrame wlan)) = some b ∧
      LearningSound [lan] (stationFrame lan :: List.replicate 4 (stationFrame wlan)) b :=
  ⟨_, rfl, learning_sound_of_loopsFit (by decide) rfl⟩

/-! ## A station on both interfaces -/

/-- The slot of the station. -/
def slot (b : Bdg) : HashTable := b.bdgTable (hashFn (stationFrame lan).eh.source)

def held (ifp : Netif) (loops : UInt16) : HashTable :=
  ⟨some ifp, (stationFrame lan).eh.source, loops⟩

variable {p q : Netif} {n : UInt16}

theorem slot_bridgeIn (h : slot b = held q n) (p : Netif) :
    slot (bridgeIn b (stationFrame p).ifp (stationFrame p).eh).2 =
      (learn (held q n) (b.muted p) p (stationFrame lan).eh.source).1 := by
  rw [← h]
  exact bridgeIn_self b p (stationFrame p).eh

theorem slot_stays (h : slot b = held q n) (hpq : q ≠ p) (hn : n + 1 ≤ bridgeRelocation) :
    ¬ Records b (stationFrame p) ∧
      slot (bridgeIn b (stationFrame p).ifp (stationFrame p).eh).2 = held q (n + 1) := by
  have hslot := slot_bridgeIn h p
  have hmatch : bdgMatch (stationFrame lan).eh.source (stationFrame lan).eh.source = true :=
    bdgMatch_iff.mpr rfl
  have hlearn : (learn (held q n) (b.muted p) p (stationFrame lan).eh.source).1 =
      held q (n + 1) := by
    simp [learn, held, hmatch, hpq, hn]
  rw [hlearn] at hslot
  refine ⟨fun hrec ↦ ?_, hslot⟩
  exact hpq (Option.some.inj ((congrArg HashTable.name hslot).symm.trans hrec.1))

theorem slot_moves (h : slot b = held q n) (hpq : q ≠ p) (hn : ¬ n + 1 ≤ bridgeRelocation) :
    slot (bridgeIn b (stationFrame p).ifp (stationFrame p).eh).2 = held p (n + 1) := by
  have hmatch : bdgMatch (stationFrame lan).eh.source (stationFrame lan).eh.source = true :=
    bdgMatch_iff.mpr rfl
  rw [slot_bridgeIn h]
  simp [learn, held, hmatch, hpq, hn]

/-- Frames of the station by turns on the two interfaces. -/
def turns : Nat → List Frame
  | 0 => []
  | k + 1 => stationFrame lan :: stationFrame wlan :: turns k

theorem over_relocation {m : Nat} (hm : 3 ≤ m) (hlt : m + 1 < 65536) :
    ¬ UInt16.ofNat m + 1 ≤ bridgeRelocation := by
  intro hle
  have hle' := UInt16.le_iff_toNat_le.mp hle
  rw [show UInt16.ofNat m + 1 = UInt16.ofNat (m + 1) from (UInt16.ofNat_add m 1).symm,
    UInt16.toNat_ofNat_of_lt' hlt] at hle'
  exact absurd hle' (by show ¬ m + 1 ≤ 3; omega)

/-- Each relocates the station, and counts. -/
theorem slot_turns {m : Nat} (h : slot b = held wlan (UInt16.ofNat m)) (hm : 3 ≤ m) (k : Nat)
    (hk : m + 2 * k < 65536) : ∃ b', (bridge [lan]).runFrom b (turns k) = some b' ∧
      slot b' = held wlan (UInt16.ofNat (m + 2 * k)) := by
  induction k generalizing b m with
  | zero => exact ⟨b, rfl, h⟩
  | succ k ih =>
      have hlan := slot_moves (p := lan) h (by decide) (over_relocation hm (by omega))
      rw [show UInt16.ofNat m + 1 = UInt16.ofNat (m + 1) from (UInt16.ofNat_add m 1).symm] at hlan
      have hwlan := slot_moves (p := wlan) hlan (by decide)
        (over_relocation (by omega) (by omega))
      rw [show UInt16.ofNat (m + 1) + 1 = UInt16.ofNat (m + 2) from
        (UInt16.ofNat_add (m + 1) 1).symm] at hwlan
      obtain ⟨b', hrun, hslot⟩ := ih hwlan (by omega) (by omega)
      refine ⟨b', hrun, ?_⟩
      rw [hslot]
      congr 2
      omega

/-- The frames before the count wraps. -/
def flapping : List Frame :=
  stationFrame lan :: (List.replicate 4 (stationFrame wlan) ++ (turns 32765 ++ [stationFrame lan]))

theorem slot_flapping : ∃ b, (bridge [lan]).run flapping = some b ∧ slot b = held lan 65535 := by
  obtain ⟨b₁, hfirst, hslot₁⟩ : ∃ b₁, (bridge [lan]).run
      (stationFrame lan :: List.replicate 4 (stationFrame wlan)) = some b₁ ∧
      slot b₁ = held wlan (UInt16.ofNat 4) := ⟨_, rfl, by decide⟩
  obtain ⟨b₂, hturns, hslot₂⟩ := slot_turns hslot₁ (by decide) 32765 (by decide)
  have hlast := slot_moves (p := lan) hslot₂ (by decide) (over_relocation (by decide) (by decide))
  refine ⟨_, ?_, hlast⟩
  rw [flapping, ← List.cons_append, Machine.run, Machine.runFrom_append]
  rw [show (bridge [lan]).runFrom (bridge [lan]).init _ = some b₁ from hfirst, Option.bind_some,
    Machine.runFrom_append, hturns]
  rfl

/-- A station whose frames have come on both interfaces by turns is dropped four times in a row
when the count wraps. -/
theorem loops_wrap : ¬ ∀ netifList fs b, (bridge netifList).run fs = some b →
    LearningSound netifList fs b := by
  intro hall
  obtain ⟨b₀, hrun, h₀⟩ := slot_flapping
  obtain ⟨hno₁, h₁⟩ := slot_stays (p := wlan) h₀ (by decide) (by decide)
  obtain ⟨hno₂, h₂⟩ := slot_stays (p := wlan) h₁ (by decide) (by decide)
  obtain ⟨hno₃, h₃⟩ := slot_stays (p := wlan) h₂ (by decide) (by decide)
  obtain ⟨hno₄, h₄⟩ := slot_stays (p := wlan) h₃ (by decide) (by decide)
  obtain ⟨b₄, hrest⟩ : ∃ b₄, (bridge [lan]).runFrom b₀
      (List.replicate 4 (stationFrame wlan)) = some b₄ := ⟨_, rfl⟩
  have hend : (bridge [lan]).run (flapping ++ List.replicate 4 (stationFrame wlan)) =
      some b₄ := by
    rw [Machine.run, Machine.runFrom_append,
      show (bridge [lan]).runFrom (bridge [lan]).init flapping = some b₀ from hrun]
    exact hrest
  have hnone : recorded b₀ (List.replicate 4 (stationFrame wlan)) = [] := by
    simp only [List.replicate, recorded, hno₁, hno₂, hno₃, hno₄, if_false, List.nil_append]
  have hle := (hall _ _ _ hend).relocates flapping _ b₀ rfl hrun
    (stationFrame lan).eh.source wlan (by simp +contextual [stationFrame])
    (by rw [hnone]; exact fun r hr ↦ absurd hr List.not_mem_nil)
  exact absurd hle (by decide)

end PrintServer.Bridge
